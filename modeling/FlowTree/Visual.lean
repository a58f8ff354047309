import FlowTree.Document
import FlowTree.Geometry

/-!
# Visuals

A visual is everything that one drawn element shows at one moment.

* **`Visual.interpolate`** moves numbers on a straight line; texts and flags are those of the goal.
* **`Visual.collapsedToward`** is where a leaving element ends: folded into a point, not to be seen.
-/

namespace FlowTree

/-- The side of its position on which a text is written. -/
inductive TextAnchor where
  | start
  | middle
  | finish
  deriving DecidableEq, Repr

/-- A node: a disc with a label, a value and its unit. -/
structure NodeVisual (α : Type) where
  position : Point α
  radius : α
  opacity : α
  label : String
  labelAnchor : TextAnchor
  /-- The distance of the label from the node, negative to the left. -/
  labelDx : α
  valueText : String
  unitText : String
  tooltip : String
  kind : NodeKind
  hasChildren : Bool
  collapsed : Bool

/-- An edge: a curve of some width. -/
structure EdgeVisual (α : Type) where
  path : Curve α
  strokeWidth : α
  dashed : Bool
  opacity : α
  className : String
  tooltip : String

/-- The text along an edge. -/
structure EdgeLabelVisual (α : Type) where
  text : String
  /-- The id of the edge that the text follows. -/
  pathId : String
  opacity : α

/-- What one element shows. -/
inductive Visual (α : Type) where
  | node (v : NodeVisual α)
  | edge (v : EdgeVisual α)
  | edgeLabel (v : EdgeLabelVisual α)

namespace Visual

variable {α : Type}

/-- How opaque the element is, from zero to one. -/
def opacity : Visual α → α
  | node v => v.opacity
  | edge v => v.opacity
  | edgeLabel v => v.opacity

/-- The visual with another opacity. -/
def withOpacity (opacity : α) : Visual α → Visual α
  | node v => node { v with opacity := opacity }
  | edge v => edge { v with opacity := opacity }
  | edgeLabel v => edgeLabel { v with opacity := opacity }

variable [Scalar α]

/-- The visual a share `t` of the way from one to another one of the same kind, with `t` confined to
the unit interval.  Between different kinds there is no way, and the goal is shown at once. -/
def interpolate (a b : Visual α) (t : α) : Visual α :=
  let t := Scalar.clampUnit t
  match a, b with
  | node a, node b =>
    node { b with
      position := a.position.lerp b.position t
      radius := Scalar.lerp a.radius b.radius t
      opacity := Scalar.lerp a.opacity b.opacity t }
  | edge a, edge b =>
    edge { b with
      path := a.path.lerp b.path t
      strokeWidth := Scalar.lerp a.strokeWidth b.strokeWidth t
      opacity := Scalar.lerp a.opacity b.opacity t }
  | edgeLabel a, edgeLabel b =>
    edgeLabel { b with opacity := Scalar.lerp a.opacity b.opacity t }
  | _, b => b

/-- The visual folded into a point and faded out. -/
def collapsedToward (p : Point α) (v : Visual α) : Visual α :=
  let folded := match v with
    | node v => node { v with position := p }
    | edge v => edge { v with path := .collapsed p }
    | edgeLabel v => edgeLabel v
  folded.withOpacity Scalar.zero

end Visual

end FlowTree
