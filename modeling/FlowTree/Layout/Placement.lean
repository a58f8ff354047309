import FlowTree.Hierarchy.Basic
import FlowTree.Layout.Tidy

/-!
# Placing a hierarchy on the canvas

The tidy tree of the nodes on show is stretched to the height of the canvas, and its levels are
spread over the width so that the deepest one stays clear of the right margin.

* **`Placement.of`** is the stretch for a tidy tree.
* **`Hierarchy.layout`** stores the resulting place of each node on show.
-/

namespace FlowTree

variable {α : Type} [Scalar α]

/-- How a tidy tree is stretched over the canvas. -/
structure Placement (α : Type) where
  /-- Added to a coordinate of the tidy tree. -/
  shift : α
  /-- The height of one unit of the tidy tree. -/
  unit : α
  width : α
  levels : α

namespace Placement

/-- A coordinate of the tidy tree with its path. -/
abbrev Mark (α : Type) := List Nat × α

/-- The path to the parent, if there is one. -/
def parentPath (path : List Nat) : Option (List Nat) :=
  if path.isEmpty then none else some path.dropLast

/-- The first mark that no other mark precedes in the order `lt`. -/
def extreme (lt : α → α → Bool) (first : Mark α) (marks : List (Mark α)) : Mark α :=
  marks.foldl (fun best m => if lt m.2 best.2 then m else best) first

/-- Half the least distance of the two outermost nodes, one unit if they are the same node. -/
def clearance (left right : Mark α) : α :=
  if left.1 == right.1 then Scalar.one
  else if parentPath left.1 == parentPath right.1 then Tidy.siblingGap / Scalar.two
  else Tidy.cousinGap / Scalar.two

/-- The stretch of a tidy tree over a canvas: half a distance stays clear above the topmost node
and below the lowest one. -/
def of (canvas : Canvas α) (t : Tree α) : Placement α :=
  let marks := t.located.breadthFirst
  let top : Mark α := ([], t.value)
  let left := extreme Scalar.lt top marks
  let right := extreme (fun a b => Scalar.lt b a) top marks
  let s := clearance left right
  let shift := s - left.2
  { shift := shift
    unit := canvas.treeHeight / (right.2 + s + shift)
    width := canvas.treeWidth
    levels := Scalar.ofNat (t.height + 1) }

/-- The place of a node of the tidy tree. -/
def point (p : Placement α) (m : Mark α) : Point α :=
  ⟨Scalar.ofNat m.1.length * p.width / p.levels, (m.2 + p.shift) * p.unit⟩

/-- The places of all nodes of a tidy tree. -/
def points (canvas : Canvas α) (t : Tree α) : Tree (Point α) :=
  let p := of canvas t
  t.located.map p.point

end Placement

namespace Hierarchy

mutual

/-- Moves each node that has a counterpart in a tree of points to that point. -/
def moveTo : Tree (Node α) → Tree (Point α) → Tree (Node α)
  | .node n cs, .node p ps => .node { n with finish := p } (moveAllTo cs ps)

/-- Moves the trees of a list to their counterparts; those without one stay as they are. -/
def moveAllTo : List (Tree (Node α)) → List (Tree (Point α)) → List (Tree (Node α))
  | c :: cs, p :: ps => moveTo c p :: moveAllTo cs ps
  | cs, _ => cs

end

/-- The hierarchy with every node on show placed on the canvas. -/
def layout (h : Hierarchy α) (canvas : Canvas α) : Hierarchy α :=
  { h with tree := moveTo h.tree (Placement.points canvas (Tidy.breadths h.shown)) }

end Hierarchy

end FlowTree
