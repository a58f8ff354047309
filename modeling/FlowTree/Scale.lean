import FlowTree.Document
import FlowTree.Scalar

/-!
# Stroke widths

The width of an edge shows the value of an attribute, on one scale for the whole series.

* **`Scale.apply`** maps the values from zero to the largest one onto a range of widths.
* **`EdgeScales.of`** finds one scale for each attribute of edges, in ascending order of keys.
* **`EdgeScales.width`** is the width for a value; an attribute that never occurs has a fixed one.
-/

namespace FlowTree

variable {α : Type} [Scalar α]

/-- Two ends of a range of numbers. -/
structure Extent (α : Type) where
  low : α
  high : α

/-- A linear map from one range onto another one, confined to its ends. -/
structure Scale (α : Type) where
  domain : Extent α
  range : Extent α

namespace Scale

/-- The scale from zero to `largest`. -/
def upTo (largest : α) (range : Extent α) : Scale α := ⟨⟨Scalar.zero, largest⟩, range⟩

/-- The image of a value.  All of an empty domain, and what is no number, goes to the low end. -/
def apply (s : Scale α) (value : α) : α :=
  let span := s.domain.high - s.domain.low
  if Scalar.isNaN span || Scalar.le span Scalar.zero || Scalar.isNaN value then s.range.low
  else
    let share := Scalar.clampUnit ((value - s.domain.low) / span)
    s.range.low + (s.range.high - s.range.low) * share

end Scale

/-- One scale for each attribute of edges, in ascending order of keys. -/
structure EdgeScales (α : Type) where
  entries : List (String × Scale α) := []

namespace EdgeScales

/-- The width of an edge for an attribute that never occurs. -/
def defaultWidth : α := Scalar.two

/-- Raises the largest value noted for `key`, from zero if it is new, to the largest of `values`. -/
def note (key : String) (values : List (Option α)) : List (String × α) → List (String × α)
  | [] => [(key, values.reduceOption.foldl Scalar.max Scalar.zero)]
  | (k, largest) :: rest =>
    if key < k then (key, values.reduceOption.foldl Scalar.max Scalar.zero) :: (k, largest) :: rest
    else if key == k then (k, values.reduceOption.foldl Scalar.max largest) :: rest
    else (k, largest) :: note key values rest

/-- The largest value of each edge attribute over all trees, nodes and dates. -/
def largest (trees : List (DatedTree α)) : List (String × α) :=
  (trees.flatMap fun t => t.tree.preorder.flatMap fun info => info.edgeData.entries).foldl
    (fun noted e => note e.1 e.2 noted) []

/-- The scales of a series. -/
def of (trees : List (DatedTree α)) (range : Extent α) : EdgeScales α :=
  ⟨(largest trees).map fun e => (e.1, .upTo e.2 range)⟩

/-- The scale of `key`. -/
def get? (s : EdgeScales α) (key : String) : Option (Scale α) := s.entries.lookup key

/-- No attribute has a scale. -/
def isEmpty (s : EdgeScales α) : Bool := s.entries.isEmpty

/-- The width of an edge for a value of `key`. -/
def width (s : EdgeScales α) (key : String) (value : α) : α :=
  ((s.get? key).map (·.apply value)).getD defaultWidth

end EdgeScales

end FlowTree
