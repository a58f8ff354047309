import FlowTree.Reconcile
import FlowTree.Series

/-!
# Diagrams

A diagram owns the runs of a series and the selection, and answers every change with the pass that
leads from what is drawn to what is to be drawn.

* **`Diagram.start`** draws the initial selection; a date that no run lists is replaced by the first
  one.
* **`Diagram.setDate`** and **`Diagram.toggleBranch`** change what is on show,
  **`Diagram.setEdgeAttribute`** and **`Diagram.setNodeAttribute`** only how it looks.
* A change that cannot be made is a **`DiagramError`** and leaves the diagram as it is.
-/

namespace FlowTree

/-- Why a change cannot be made. -/
inductive DiagramError where
  | unknownDate (date : String)
  | unknownNode (id : String)
  deriving DecidableEq, Repr

/-- The reason in words. -/
def DiagramError.message : DiagramError → String
  | unknownDate date => "date `" ++ date ++ "` is not part of any dated tree"
  | unknownNode id => "no node with id `" ++ id ++ "` in the current tree"

/-- The runs of a series, what is selected, and what has been drawn. -/
structure Diagram (α : Type) where
  runs : List (Run α)
  scales : EdgeScales α
  metadata : Metadata
  selection : Selection
  /-- What the last pass drew; the next pass starts from it. -/
  current : Hierarchy α
  canvas : Canvas α
  style : Style α
  run_lt : selection.run < runs.length

/-- A diagram after a change, the pass that shows the change, and what was reported. -/
structure Change (α : Type) where
  diagram : Diagram α
  pass : Pass α
  events : List Event

namespace Diagram

variable {α : Type}

/-- The run on show. -/
def shownRun (d : Diagram α) : Run α := d.runs.get ⟨d.selection.run, d.run_lt⟩

/-- What a pass of this diagram needs. -/
def view (d : Diagram α) : View α where
  dateIndex := d.selection.dateIndex
  edgeKey := d.selection.edgeKey
  nodeKey := d.selection.nodeKey
  scales := d.scales
  metadata := d.metadata
  canvas := d.canvas
  style := d.style

/-- The diagram with another tree in the run on show. -/
def withTree (d : Diagram α) (tree : Hierarchy α) : Diagram α :=
  { d with
    runs := d.runs.modify d.selection.run fun r => { r with tree := tree }
    run_lt := by rw [List.length_modify]; exact d.run_lt }

/-- The diagram with another date on show. -/
def withDate (d : Diagram α) (date : String) (run dateIndex : Nat) (h : run < d.runs.length) :
    Diagram α :=
  { d with selection := d.selection.moveTo date run dateIndex, run_lt := h }

/-! ### What is shown first -/

/-- The selection that is shown first: the wish, or the first date if no run lists the wish. -/
def initialSelection (initial : InitialSelection) (runs : List (Run α)) : Selection × List Event :=
  match Selection.resolve? initial runs with
  | some s => (s, [])
  | none =>
    let fallback := (runs.head?.bind (·.dates.head?)).getD ""
    ({ edgeKey := initial.edgeKey, nodeKey := initial.nodeKey, date := fallback, run := 0,
       dateIndex := 0 },
      [.initialDateMissing initial.date fallback])

/-- The first selection is one of the runs, if there are any. -/
theorem initialSelection_run_lt (initial : InitialSelection) {runs : List (Run α)}
    (h : 0 < runs.length) : (initialSelection initial runs).1.run < runs.length := by
  unfold initialSelection Selection.resolve?
  cases found : Series.locate? runs initial.date with
  | none => exact h
  | some place => exact Series.locate?_run_lt found

variable [Scalar α] [Printed α]

/-- Draws the run on show, starting from what was drawn before. -/
def render (d : Diagram α) (before : Option (Hierarchy α)) : Change α :=
  let r := d.view.reconcile before d.shownRun.tree
  { diagram := { d.withTree r.new with current := r.new.prune }
    pass := r.pass
    events := [r.event] }

/-- Draws the tree on show anew without moving it. -/
def restyle (d : Diagram α) : Change α :=
  let pass := d.view.restyle d.shownRun.tree
  ⟨d, pass, [d.view.restyleEvent pass]⟩

/-! ### The first pass -/

/-- A warning if other attributes of edges have values and the selected one has none. -/
def keyWarning (scales : EdgeScales α) (key : String) : List Event :=
  if !scales.isEmpty && (scales.get? key).isNone then [.edgeKeyWithoutValues key] else []

/-- The diagram of a series and the pass that draws its initial selection. -/
def start (trees : List (DatedTree α)) (metadata : Metadata) (initial : InitialSelection)
    (settings : Settings α) : Change α :=
  let canvas := settings.canvas
  let runs := Series.build trees canvas
  let scales := EdgeScales.of trees ⟨settings.style.minStrokeWidth, settings.style.maxStrokeWidth⟩
  let selected := initialSelection initial runs
  let d : Diagram α :=
    { runs := runs
      scales := scales
      metadata := metadata
      selection := selected.1
      current := (runs.get ⟨_, initialSelection_run_lt initial
        (Series.build_length_pos trees canvas)⟩).tree
      canvas := canvas
      style := settings.style
      run_lt := initialSelection_run_lt initial (Series.build_length_pos trees canvas) }
  let change := d.render none
  { change with
    events := selected.2 ++ keyWarning scales selected.1.edgeKey ++ change.events }

/-- The diagram of a document. -/
def ofDocument (doc : Document α) (initial : InitialSelection) (settings : Settings α) : Change α :=
  start doc.data doc.metadata initial settings

/-! ### Changes -/

/-- Shows another date, maybe of another run. -/
def setDate (d : Diagram α) (date : String) : Except DiagramError (Change α) :=
  match found : Series.locate? d.runs date with
  | none => .error (.unknownDate date)
  | some (run, index) =>
    let switch := if run == d.selection.run then [] else [Event.runSwitched d.selection.run run]
    let change := (d.withDate date run index (Series.locate?_run_lt found)).render (some d.current)
    .ok { change with events := switch ++ change.events }

/-- Draws another attribute of edges; nothing moves. -/
def setEdgeAttribute (d : Diagram α) (key : String) : Change α :=
  restyle { d with selection := { d.selection with edgeKey := key } }

/-- Draws another attribute of nodes; nothing moves. -/
def setNodeAttribute (d : Diagram α) (key : String) : Change α :=
  restyle { d with selection := { d.selection with nodeKey := key } }

/-- The report of folding or unfolding. -/
def toggleEvent (id : String) : Toggle → Event
  | .collapsed => .branchCollapsed id
  | .expanded => .branchExpanded id
  | .leaf => .leafToggled id

/-- Folds or unfolds the children of a node on show. -/
def toggleBranch (d : Diagram α) (id : String) : Except DiagramError (Change α) :=
  match if d.current.contains id then d.shownRun.tree.toggle? id else none with
  | none => .error (.unknownNode id)
  | some (toggle, tree) =>
    let change := (d.withTree tree).render (some d.current)
    .ok { change with events := toggleEvent id toggle :: change.events }

/-! ### What a host can ask -/

/-- Every date of the series, run by run. -/
def dates (d : Diagram α) : List String := Series.dates d.runs

end Diagram

end FlowTree
