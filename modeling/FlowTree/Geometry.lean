import FlowTree.Scalar

/-!
# Points, curves and the canvas

The first axis of a diagram runs along the depth of the tree, from left to right, the second along
the siblings, from top to bottom.

* **`Curve`** is the line of an edge: a cubic curve that leaves both ends horizontally.
* **`Canvas.of`** finds the room that the margins leave to the tree.
-/

namespace FlowTree

variable {α : Type} [Scalar α]

/-- A place on the diagram. -/
structure Point (α : Type) where
  x : α
  y : α

namespace Point

/-- The upper left corner of the room for the tree. -/
def origin : Point α := ⟨Scalar.zero, Scalar.zero⟩

/-- The point a share `t` of the way from `p` to `q`. -/
def lerp (p q : Point α) (t : α) : Point α :=
  ⟨Scalar.lerp p.x q.x t, Scalar.lerp p.y q.y t⟩

end Point

/-- The line of an edge, from a node back to its parent. -/
structure Curve (α : Type) where
  child : Point α
  parent : Point α

namespace Curve

/-- The curve without length at one point; edges grow out of it and fold into it. -/
def collapsed (p : Point α) : Curve α := ⟨p, p⟩

/-- The curve a share `t` of the way from `c` to `d`. -/
def lerp (c d : Curve α) (t : α) : Curve α :=
  ⟨c.child.lerp d.child t, c.parent.lerp d.parent t⟩

/-- The depth at which the curve turns, halfway between its ends. -/
def bend (c : Curve α) : α := (c.child.x + c.parent.x) / Scalar.two

end Curve

/-- The room that is kept free on each side. -/
structure Margin (α : Type) where
  top : α
  right : α
  bottom : α
  left : α

/-- The drawing area: its size, the room for the tree and the margin around it. -/
structure Canvas (α : Type) where
  width : α
  height : α
  treeWidth : α
  treeHeight : α
  margin : Margin α

namespace Canvas

/-- The canvas of a given size, never lower than `minHeight`; the tree gets what the margin leaves,
never less than nothing. -/
def of (width height minHeight : α) (margin : Margin α) : Canvas α :=
  let tall := Scalar.max height minHeight
  { width := width
    height := tall
    treeWidth := Scalar.max (width - margin.left - margin.right) Scalar.zero
    treeHeight := Scalar.max (tall - margin.top - margin.bottom) Scalar.zero
    margin := margin }

/-- Where a root sits before anything has been placed. -/
def rootOrigin (c : Canvas α) : Point α := ⟨Scalar.zero, c.treeHeight / Scalar.two⟩

end Canvas

end FlowTree
