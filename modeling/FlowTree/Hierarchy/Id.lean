/-!
# Identities of nodes

A node is told from all others by its id: the id of its parent, a separator, and a segment made from
its own label.  Equal labels below one parent are told apart by a count.

* **`NodeId.escapeLabel`** keeps the signs that structure an id out of the labels.
* **`NodeId.segment`** is the part of an id that one node adds.
* **`NodeId.child`** is the id of a child.
-/

namespace FlowTree.NodeId

/-- Stands between the segments of an id. -/
def separator : Char := '_'

/-- Stands before the count of equal labels. -/
def countMark : Char := '#'

/-- A character of a label as it appears in an id. -/
def escapeChar : Char → List Char
  | '%' => ['%', '2', '5']
  | '_' => ['%', '5', 'F']
  | '#' => ['%', '2', '3']
  | c => [c]

/-- A label as it appears in an id. -/
def escapeLabel (label : String) : String := String.ofList (label.toList.flatMap escapeChar)

/-- The segment of a node with `earlier` older siblings of the same label. -/
def segment (label : String) (earlier : Nat) : String :=
  escapeLabel label ++ if earlier = 0 then "" else countMark.toString ++ toString earlier

/-- The id of a child. -/
def child (parent : String) (label : String) (earlier : Nat) : String :=
  parent ++ separator.toString ++ segment label earlier

end FlowTree.NodeId
