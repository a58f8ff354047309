import FlowTree.Tree

/-!
# Documents

A document is a series of dated trees with labels for the attributes that occur in them.

* **`Attributes`** keeps attribute keys in the order of their first mention.
* **`DatedTree`** is one tree together with the dates for which it holds; attribute values are
  listed by date, and a missing value is `none`.
* **`Metadata`** finds the label and the unit of an attribute, whether it belongs to nodes or edges.
-/

namespace FlowTree

/-- What a node stands for. -/
inductive NodeKind where
  | well
  | group
  | other
  deriving DecidableEq, Repr

/-- Attribute keys with one value for each date, in the order of their first mention. -/
structure Attributes (α : Type) where
  entries : List (String × List (Option α)) := []

namespace Attributes

variable {α : Type}

/-- The values of `key`, if the key is reported. -/
def get? (a : Attributes α) (key : String) : Option (List (Option α)) :=
  a.entries.lookup key

/-- The attributes with the values of `key` replaced; a new key goes to the end. -/
def insert (a : Attributes α) (key : String) (values : List (Option α)) : Attributes α :=
  if a.entries.any (·.1 == key) then
    ⟨a.entries.map fun e => if e.1 == key then (e.1, values) else e⟩
  else
    ⟨a.entries ++ [(key, values)]⟩

/-- The reported keys in order. -/
def keys (a : Attributes α) : List String := a.entries.map (·.1)

/-- The value of `key` at a date, if the key is reported and has a value there. -/
def valueAt (a : Attributes α) (key : String) (date : Nat) : Option α :=
  ((a.get? key).bind (·[date]?)).join

end Attributes

/-- What a document says about one node and about the edge that leads to it. -/
structure NodeInfo (α : Type) where
  label : String
  edgeLabel : String := ""
  kind : NodeKind := .group
  nodeData : Attributes α := {}
  edgeData : Attributes α := {}

/-- One tree and the dates for which it holds. -/
structure DatedTree (α : Type) where
  dates : List String
  tree : Tree (NodeInfo α)

namespace DatedTree

/-- The label of the tree that stands in for an empty series. -/
def noDataLabel : String := "NO DATA"

/-- The tree that stands in for an empty series. -/
def noData {α : Type} : DatedTree α :=
  ⟨[""], .node { label := noDataLabel, edgeLabel := noDataLabel, kind := .well } []⟩

end DatedTree

/-- How an attribute is named to a reader. -/
structure MetadataEntry where
  key : String
  label : String
  unit : Option String := none
  deriving DecidableEq, Repr

/-- The attributes of nodes and edges in one table. -/
structure Metadata where
  entries : List MetadataEntry := []

namespace Metadata

/-- The table of both lists; of two entries with one key the later one counts, and those for nodes
come after those for edges. -/
def of (edges nodes : List MetadataEntry) : Metadata := ⟨edges ++ nodes⟩

/-- The entry of `key`. -/
def get? (m : Metadata) (key : String) : Option MetadataEntry :=
  m.entries.reverse.find? (·.key == key)

/-- The table has an entry for `key`. -/
def contains (m : Metadata) (key : String) : Bool := (m.get? key).isSome

/-- The label of `key`, empty if there is none. -/
def label (m : Metadata) (key : String) : String := ((m.get? key).map (·.label)).getD ""

/-- The unit of `key`, empty if there is none. -/
def unit (m : Metadata) (key : String) : String := ((m.get? key).bind (·.unit)).getD ""

end Metadata

/-- Everything that is handed over to draw a diagram. -/
structure Document (α : Type) where
  data : List (DatedTree α) := []
  edgeMetadata : List MetadataEntry := []
  nodeMetadata : List MetadataEntry := []

namespace Document

variable {α : Type}

/-- The table of all attributes. -/
def metadata (d : Document α) : Metadata := .of d.edgeMetadata d.nodeMetadata

/-- The first date of the series. -/
def firstDate? (d : Document α) : Option String := (d.data.flatMap (·.dates)).head?

end Document

end FlowTree
