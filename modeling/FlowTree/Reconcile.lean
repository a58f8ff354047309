import FlowTree.Directive
import FlowTree.Event
import FlowTree.Hierarchy.Spot
import FlowTree.Keys
import FlowTree.Layout.Placement
import FlowTree.Scale
import FlowTree.Settings
import FlowTree.Tooltip

/-!
# From one tree to the next

A pass leads from the tree that was drawn last to the tree that is to be drawn next.

* **`View`** is what a pass needs besides the trees: the selected attributes and the shared tables.
* **`View.reconcile`** places the new tree and tells for every node, edge and edge label whether it
  comes, stays or goes.  What comes grows out of the nearest ancestor that was on show before; what
  goes folds into the nearest ancestor that stays.
* **`View.restyle`** draws a tree that stays as it is with other attributes.
-/

namespace FlowTree

/-- What a pass needs besides the trees. -/
structure View (α : Type) where
  dateIndex : Nat
  edgeKey : String
  nodeKey : String
  scales : EdgeScales α
  metadata : Metadata
  canvas : Canvas α
  style : Style α

/-- The outcome of a pass. -/
structure Reconciliation (α : Type) where
  /-- The tree that was drawn before, with the places its nodes went to. -/
  old : Option (Hierarchy α)
  /-- The tree that is drawn now, at rest. -/
  new : Hierarchy α
  pass : Pass α
  event : Event

namespace View

variable {α : Type} [Scalar α] [Printed α]

/-! ### How elements look -/

/-- The look of a node at some position: its label is to the left if it has children. -/
def nodeVisual (v : View α) (s : Spot α) (position : Point α) (radius : α) : NodeVisual α where
  position := position
  radius := radius
  opacity := Scalar.one
  label := s.node.info.label
  labelAnchor := if s.hasChildren then .finish else .start
  labelDx := if s.hasChildren then -v.style.labelOffset else v.style.labelOffset
  valueText := valueText (s.node.info.nodeData.valueAt v.nodeKey v.dateIndex)
  unitText := v.metadata.unit v.nodeKey
  tooltip := s.node.info.nodeData.tooltip v.dateIndex v.metadata
  kind := s.node.info.kind
  hasChildren := s.hasChildren
  collapsed := s.collapsed

/-- The look of an edge on some path: without a positive value it is dashed. -/
def edgeVisual (v : View α) (s : Spot α) (path : Curve α) : EdgeVisual α :=
  let value := (s.node.info.edgeData.valueAt v.edgeKey v.dateIndex).getD Scalar.zero
  { path := path
    strokeWidth := v.scales.width v.edgeKey value
    dashed := Scalar.le value Scalar.zero
    opacity := Scalar.one
    className := "link grouptree_link grouptree_link__" ++ v.edgeKey
    tooltip := s.node.info.edgeData.tooltip v.dateIndex v.metadata }

/-- The look of the label of an edge. -/
def edgeLabelVisual (s : Spot α) (opacity : α) : EdgeLabelVisual α :=
  ⟨s.node.info.edgeLabel, s.id, opacity⟩

/-- The path of an edge once both its ends are at rest. -/
def settledPath (s : Spot α) : Curve α :=
  ⟨s.node.finish, (s.parent.map (·.finish)).getD .origin⟩

/-- The look of a node at rest. -/
def settledNode (v : View α) (s : Spot α) : Visual α :=
  .node (v.nodeVisual s s.node.finish v.style.nodeRadius)

/-- The look of an edge at rest. -/
def settledEdge (v : View α) (s : Spot α) : EdgeVisual α := v.edgeVisual s (settledPath s)

/-! ### Directives -/

/-- The time of every transition. -/
def duration (v : View α) : Nat := v.style.transition

/-- A new node grows out of its anchor. -/
def createNode (v : View α) (s : Spot α) : Directive α :=
  .create ⟨.node, s.id⟩ (.node (v.nodeVisual s s.anchor.start v.style.enterNodeRadius))
    (v.settledNode s) v.duration

/-- A new edge grows out of the same point. -/
def createEdge (v : View α) (s : Spot α) : Directive α :=
  .create ⟨.edge, s.id⟩ (.edge { v.settledEdge s with path := .collapsed s.anchor.start })
    (.edge (v.settledEdge s)) v.duration

/-- A new label fades in. -/
def createLabel (v : View α) (s : Spot α) : Directive α :=
  .create ⟨.edgeLabel, s.id⟩ (.edgeLabel (edgeLabelVisual s Scalar.zero))
    (.edgeLabel (edgeLabelVisual s Scalar.one)) v.duration

/-- A node that stays takes its new place. -/
def updateNode (v : View α) (s : Spot α) : Directive α :=
  .update ⟨.node, s.id⟩ (v.settledNode s) v.duration

/-- An edge that stays takes its new path. -/
def updateEdge (v : View α) (s : Spot α) : Directive α :=
  .update ⟨.edge, s.id⟩ (.edge (v.settledEdge s)) v.duration

/-- A label that stays. -/
def updateLabel (v : View α) (s : Spot α) : Directive α :=
  .update ⟨.edgeLabel, s.id⟩ (.edgeLabel (edgeLabelVisual s Scalar.one)) v.duration

/-- What goes folds into the point that belongs to its id. -/
def removeElement (v : View α) (target : String → Point α) (kind : ElementKind) (s : Spot α) :
    Directive α :=
  .remove ⟨kind, s.id⟩ (target s.id) v.duration

/-- The directives for one kind of elements: first what comes, then what stays, then what goes. -/
def phase (v : View α) (target : String → Point α) (kind : ElementKind)
    (create update : Spot α → Directive α) (old new : List (Spot α)) : Pass α :=
  let oldIds := old.map (·.id)
  let newIds := new.map (·.id)
  (new.filter fun s => !oldIds.contains s.id).map create
    ++ (new.filter fun s => oldIds.contains s.id).map update
    ++ (old.filter fun s => !newIds.contains s.id).map (v.removeElement target kind)

/-- The nodes that go, each with the place of the anchor that stays. -/
def exitTargets (old new : List (Spot α)) : List (String × Point α) :=
  let newIds := new.map (·.id)
  (old.filter fun s => !newIds.contains s.id).map fun s => (s.id, s.anchor.finish)

/-- The point into which the elements of a node fold; the origin for a node that does not go. -/
def exitTarget (targets : List (String × Point α)) (id : String) : Point α :=
  (targets.lookup id).getD .origin

/-! ### The pass -/

/-- The new tree with the old places of the nodes that were on show; all others are not visible. -/
def inherit (old : List (Node α)) (new : Hierarchy α) : Hierarchy α :=
  new.updateShown fun n =>
    match old.find? (·.id == n.id) with
    | some o => { n with start := o.start, visible := o.visible }
    | none => { n with visible := false }

/-- The old tree with the new places of the nodes that stay; those that go are not visible. -/
def bequeath (new : List (Node α)) (old : Hierarchy α) : Hierarchy α :=
  old.updateShown fun o =>
    match new.find? (·.id == o.id) with
    | some n => { o with finish := n.finish }
    | none => { o with visible := false }

/-- The tree at rest: every node on show is visible and where it belongs. -/
def rest (h : Hierarchy α) : Hierarchy α :=
  h.updateShown fun n => { n with start := n.finish, visible := true }

/-- The pass from the tree that was drawn last, if any, to the next one. -/
def reconcile (v : View α) (old : Option (Hierarchy α)) (new : Hierarchy α) : Reconciliation α :=
  let placed := new.layout v.canvas
  let oldNodes := (old.map (·.descendants)).getD []
  let old := old.map (bequeath placed.descendants)
  let moving := inherit oldNodes placed
  let oldSpots := (old.map (·.spots)).getD []
  let newSpots := moving.spots
  let diff := KeyDiff.of (oldSpots.map (·.id)) (newSpots.map (·.id))
  let target := exitTarget (exitTargets oldSpots newSpots)
  { old := old
    new := rest moving
    pass := v.phase target .node v.createNode v.updateNode oldSpots newSpots
      ++ v.phase target .edge v.createEdge v.updateEdge oldSpots.tail newSpots.tail
      ++ v.phase target .edgeLabel v.createLabel v.updateLabel oldSpots.tail newSpots.tail
    event := .reconciled diff.entering.length diff.updating.length diff.exiting.length v.dateIndex }

/-- The pass that draws a tree at rest anew without moving it. -/
def restyle (v : View α) (h : Hierarchy α) : Pass α :=
  h.spots.map v.updateNode ++ h.spots.tail.map v.updateEdge

/-- The report of such a pass. -/
def restyleEvent (v : View α) (pass : Pass α) : Event :=
  .restyled v.edgeKey v.nodeKey pass.length

end View

end FlowTree
