import FlowTree.Proofs.Arena.Folding
import FlowTree.Proofs.Arena.Growth
import FlowTree.Proofs.Arena.Reconciling
import FlowTree.Proofs.Session.Resolving
import FlowTree.Proofs.Session.Unread

/-!
# Sessions in arrays

A board is a diagram whose trees are kept in arrays and whose runs are found by their positions.

* **`Board.start`** draws first; **`Board.setDate`**, **`Board.toggleBranch`**, **`Board.setEdgeAttribute`** and
  **`Board.setNodeAttribute`** are the changes, **`Board.play`** a sequence of them.
* **`Diagram.board`** is the board of a diagram.  **`Diagram.render_board`** says that drawing goes through and
  **`Diagram.Sound.reply_board`** that every change does.
* **`Session.nothing_goes_wrong`** says that nothing goes wrong in a session, whatever is asked.
-/

namespace FlowTree

/-- A run whose tree is in an array. -/
structure ArenaRun (α : Type) where
  dates : List String
  tree : Arena α

/-- A diagram whose trees are in arrays. -/
structure Board (α : Type) where
  runs : List (ArenaRun α)
  scales : EdgeScales α
  metadata : Metadata
  selection : Selection
  /-- What the last pass drew, if there was one. -/
  current : Option (Arena α)
  canvas : Canvas α
  style : Style α

/-- A board after a change, the pass that shows the change, and what was reported. -/
structure BoardChange (α : Type) where
  board : Board α
  pass : Pass α
  events : List Event

namespace Board

variable {α : Type}

/-- What a pass of this board needs. -/
def view (b : Board α) : View α where
  dateIndex := b.selection.dateIndex
  edgeKey := b.selection.edgeKey
  nodeKey := b.selection.nodeKey
  scales := b.scales
  metadata := b.metadata
  canvas := b.canvas
  style := b.style

/-- The first run that lists `date`, and the first position of the date in it. -/
def locate? (runs : List (ArenaRun α)) (date : String) : Option (ℕ × ℕ) :=
  runs.zipIdx.findSome? fun r => (r.1.dates.findIdx? (· == date)).map fun index => (r.2, index)

/-- The selection that is shown first: the wish, or the first date if no run lists the wish. -/
def initialSelection (initial : InitialSelection) (runs : List (ArenaRun α)) : Selection × List Event :=
  match locate? runs initial.date with
  | some (run, index) =>
    ({ edgeKey := initial.edgeKey, nodeKey := initial.nodeKey, date := initial.date, run := run,
       dateIndex := index }, [])
  | none =>
    let fallback := (runs.head?.bind (·.dates.head?)).getD ""
    ({ edgeKey := initial.edgeKey, nodeKey := initial.nodeKey, date := fallback, run := 0,
       dateIndex := 0 },
      [.initialDateMissing initial.date fallback])

variable [Scalar α]

/-- The run of a dated tree. -/
def runOf (canvas : Canvas α) (t : DatedTree α) : Checked (ArenaRun α) := do
  let a ← Arena.ofTree t.tree
  let a ← a.stamp (fun n => { n with start := canvas.rootOrigin }) 0
  return ⟨t.dates, a⟩

variable [Printed α]

/-- Draws the run on show, starting from what was drawn before. -/
def render (b : Board α) : Checked (BoardChange α) := do
  let r ← Checked.get b.runs b.selection.run
  let (_, tree, pass, event) ← Arena.reconcile b.view b.current r.tree
  let runs ← Checked.modify b.runs b.selection.run fun r => { r with tree := tree }
  let current ← tree.prune
  return ⟨{ b with runs := runs, current := some current }, pass, [event]⟩

/-- Draws the tree on show anew without moving it. -/
def restyle (b : Board α) : Checked (BoardChange α) := do
  let r ← Checked.get b.runs b.selection.run
  let pass ← r.tree.restyle b.view
  return ⟨b, pass, [b.view.restyleEvent pass]⟩

/-- The board of a series and the pass that draws its initial selection. -/
def start (trees : List (DatedTree α)) (metadata : Metadata) (initial : InitialSelection)
    (settings : Settings α) : Checked (BoardChange α) := do
  let canvas := settings.canvas
  let runs ← (Series.orNoData trees).mapM (runOf canvas)
  let scales := EdgeScales.of trees ⟨settings.style.minStrokeWidth, settings.style.maxStrokeWidth⟩
  let selected := initialSelection initial runs
  let change ← render
    { runs := runs
      scales := scales
      metadata := metadata
      selection := selected.1
      current := none
      canvas := canvas
      style := settings.style }
  return { change with events := selected.2 ++ Diagram.keyWarning scales selected.1.edgeKey ++ change.events }

/-- Shows another date, maybe of another run. -/
def setDate (b : Board α) (date : String) : Checked (Except DiagramError (BoardChange α)) :=
  match locate? b.runs date with
  | none => return .error (.unknownDate date)
  | some (run, index) => do
    let switch := if run == b.selection.run then [] else [Event.runSwitched b.selection.run run]
    let change ← render { b with selection := b.selection.moveTo date run index }
    return .ok { change with events := switch ++ change.events }

/-- Draws another attribute of edges; nothing moves. -/
def setEdgeAttribute (b : Board α) (key : String) : Checked (BoardChange α) :=
  restyle { b with selection := { b.selection with edgeKey := key } }

/-- Draws another attribute of nodes; nothing moves. -/
def setNodeAttribute (b : Board α) (key : String) : Checked (BoardChange α) :=
  restyle { b with selection := { b.selection with nodeKey := key } }

/-- Folds or unfolds the children of a node on show. -/
def toggleBranch (b : Board α) (id : String) : Checked (Except DiagramError (BoardChange α)) := do
  let shown := b.current.any fun a => (a.find? id).isSome
  let r ← Checked.get b.runs b.selection.run
  match (r.tree.find? id).filter fun _ => shown with
  | none => return .error (.unknownNode id)
  | some i => do
    let (toggle, tree) ← r.tree.toggle i
    let runs ← Checked.modify b.runs b.selection.run fun r => { r with tree := tree }
    let change ← render { b with runs := runs }
    return .ok { change with events := Diagram.toggleEvent id toggle :: change.events }

/-- The answer to a step; none if only time passes. -/
def reply (b : Board α) : Step α → Checked (Option (Except DiagramError (BoardChange α)))
  | .setDate date => some <$> b.setDate date
  | .toggleBranch id => some <$> b.toggleBranch id
  | .setEdgeAttribute key => (some ∘ .ok) <$> b.setEdgeAttribute key
  | .setNodeAttribute key => (some ∘ .ok) <$> b.setNodeAttribute key
  | .advance _ => return none

/-- The board after an answer. -/
def after (b : Board α) : Option (Except DiagramError (BoardChange α)) → Board α
  | some (.ok change) => change.board
  | _ => b

/-- The replies to one step after the other, and the board in the end. -/
def play (b : Board α) : List (Step α) → Checked (List (Option (Except DiagramError (Pass α))) × Board α)
  | [] => return ([], b)
  | st :: steps => do
    let answer ← b.reply st
    let (replies, last) ← (b.after answer).play steps
    return (answer.map (·.map (·.pass)) :: replies, last)

end Board

/-! ### Boards of diagrams -/

variable {α : Type}

/-- The run with its tree in an array. -/
def Run.inArray (r : Run α) : ArenaRun α := ⟨r.dates, r.tree.arena⟩

namespace Diagram

/-- The board of a diagram before which the given tree has been drawn. -/
def boardAfter (d : Diagram α) (before : Option (Hierarchy α)) : Board α where
  runs := d.runs.map Run.inArray
  scales := d.scales
  metadata := d.metadata
  selection := d.selection
  current := before.map Hierarchy.arena
  canvas := d.canvas
  style := d.style

/-- The board of a diagram. -/
def board (d : Diagram α) : Board α := d.boardAfter (some d.current)

end Diagram

/-- The change on the board. -/
def Change.onBoard (c : Change α) : BoardChange α := ⟨c.diagram.board, c.pass, c.events⟩

theorem Board.locate?_map (runs : List (Run α)) (date : String) :
    Board.locate? (runs.map Run.inArray) date = Series.locate? runs date := by
  have hfrom : ∀ k, ((runs.map Run.inArray).zipIdx k).findSome? (fun r =>
      (r.1.dates.findIdx? (· == date)).map fun index => (r.2, index)) =
        (Series.locate? runs date).map fun x => (x.1 + k, x.2) := by
    induction runs with
    | nil => exact fun _ => rfl
    | cons r rest ih =>
      intro k
      rw [List.map_cons, List.zipIdx_cons, List.findSome?_cons, ih, Series.locate?]
      cases hfound : r.dates.findIdx? (· == date) with
      | some index => simp [Run.inArray, hfound]
      | none =>
        simp only [Run.inArray, hfound, Option.map_none, Option.map_map]
        congr 1
        funext x
        simp only [Function.comp_apply, Nat.add_assoc, Nat.add_comm 1]
  rw [Board.locate?, hfrom 0]
  simp

theorem Board.initialSelection_map (initial : InitialSelection) (runs : List (Run α)) :
    Board.initialSelection initial (runs.map Run.inArray) = Diagram.initialSelection initial runs := by
  rw [Board.initialSelection, Board.locate?_map, Diagram.initialSelection, Selection.resolve?]
  cases Series.locate? runs initial.date with
  | some place => rfl
  | none => cases runs <;> rfl

namespace Diagram

theorem getElem?_board (d : Diagram α) (before : Option (Hierarchy α)) :
    (d.boardAfter before).runs[d.selection.run]? = some d.shownRun.inArray := by
  rw [boardAfter, List.getElem?_map, List.getElem?_eq_getElem d.run_lt]
  rfl

/-- Another tree in the run on show is another array there. -/
theorem modify_board (d : Diagram α) (before : Option (Hierarchy α)) (tree : Hierarchy α) :
    Checked.modify (d.boardAfter before).runs d.selection.run (fun r => { r with tree := tree.arena }) =
      .ok ((d.withTree tree).boardAfter before).runs := by
  have hlt : d.selection.run < (d.boardAfter before).runs.length := by
    rw [boardAfter, List.length_map]
    exact d.run_lt
  rw [Checked.modify_eq hlt]
  refine congrArg Except.ok (List.ext_getElem? fun i => ?_)
  rw [boardAfter, boardAfter, withTree, List.getElem?_modify, List.getElem?_map, List.getElem?_map,
    List.getElem?_modify]
  cases d.runs[i]? with
  | none => rfl
  | some r => by_cases hi : d.selection.run = i <;> simp [hi, Run.inArray]

variable [Scalar α] [Printed α]

/-- **Drawing on a board** goes through. -/
theorem render_board {d : Diagram α} (hd : d.shownRun.tree.Distinct) (before : Option (Hierarchy α))
    (hbefore : ∀ h, before = some h → h.Distinct) :
    (d.boardAfter before).render = .ok (d.render before).onBoard := by
  have hreconcile := Hierarchy.reconcile_arena d.view hbefore hd
  have hview : (d.boardAfter before).view = d.view := rfl
  have hmodify := d.modify_board before (d.view.reconcile before d.shownRun.tree).new
  have hselection : (d.boardAfter before).selection = d.selection := rfl
  have hcurrent : (d.boardAfter before).current = before.map Hierarchy.arena := rfl
  have htree : d.shownRun.inArray.tree = d.shownRun.tree.arena := rfl
  rw [Board.render, hselection, Checked.get_eq (d.getElem?_board before), Checked.ok_bind, hview, hcurrent, htree,
    hreconcile, Checked.ok_bind]
  simp only [hmodify, Hierarchy.prune_arena, Checked.ok_bind]
  rfl

/-- Drawing anew on a board goes through. -/
theorem restyle_board (d : Diagram α) : d.board.restyle = .ok d.restyle.onBoard := by
  have hselection : d.board.selection = d.selection := rfl
  have hview : d.board.view = d.view := rfl
  have htree : d.shownRun.inArray.tree = d.shownRun.tree.arena := rfl
  have hget : d.board.runs[d.selection.run]? = _ := d.getElem?_board _
  rw [Board.restyle, hselection, Checked.get_eq hget, Checked.ok_bind, hview, htree, Hierarchy.restyle_arena,
    Checked.ok_bind]
  rfl

omit [Printed α] in
theorem runOf_board (canvas : Canvas α) (t : DatedTree α) :
    Board.runOf canvas t = .ok (Series.runOf canvas t).inArray := by
  have hstamps : Hierarchy.Stamps fun n : Node α => { n with start := canvas.rootOrigin } :=
    ⟨fun _ => rfl, fun _ => rfl⟩
  have hlength : 0 < (Hierarchy.ofTree t.tree).arena.length := by
    rw [Hierarchy.length_arena, Tree.preorder_eq_cons, List.length_cons]
    exact Nat.succ_pos _
  rw [Board.runOf, Hierarchy.ofTree_arena, Checked.ok_bind, Arena.stamp, Checked.modify_eq hlength, Checked.ok_bind,
    Run.inArray, Series.runOf, Hierarchy.arena_updateRoot hstamps]
  rfl

/-- **The first pass** goes through on a board. -/
theorem start_board (trees : List (DatedTree α)) (metadata : Metadata) (initial : InitialSelection)
    (settings : Settings α) :
    Board.start trees metadata initial settings = .ok (start trees metadata initial settings).onBoard := by
  have hruns : (Series.orNoData trees).mapM (Board.runOf settings.canvas) =
      .ok ((Series.build trees settings.canvas).map Run.inArray) := by
    have hrun := Checked.mapM_eq (p := id) (l := Series.orNoData trees)
      fun t _ => runOf_board settings.canvas t
    rw [List.map_id] at hrun
    rw [hrun, Series.build, List.map_map]
    rfl
  have hpos := Series.build_length_pos trees settings.canvas
  let d : Diagram α :=
    { runs := Series.build trees settings.canvas
      scales := EdgeScales.of trees ⟨settings.style.minStrokeWidth, settings.style.maxStrokeWidth⟩
      metadata := metadata
      selection := (initialSelection initial (Series.build trees settings.canvas)).1
      current := ((Series.build trees settings.canvas).get ⟨_, initialSelection_run_lt initial hpos⟩).tree
      canvas := settings.canvas
      style := settings.style
      run_lt := initialSelection_run_lt initial hpos }
  have hdistinct : d.shownRun.tree.Distinct := Series.distinct_build trees settings.canvas _ d.shownRun_mem
  have hrender := render_board hdistinct none (fun _ h => by cases h)
  have hboard : (d.boardAfter none) =
      { runs := (Series.build trees settings.canvas).map Run.inArray
        scales := d.scales
        metadata := metadata
        selection := (initialSelection initial (Series.build trees settings.canvas)).1
        current := none
        canvas := settings.canvas
        style := settings.style } := rfl
  rw [hboard] at hrender
  simp only [Board.start, hruns, Checked.ok_bind, Board.initialSelection_map]
  rw [hrender]
  rfl

/-! ### Changes -/

/-- The run of a date that is listed is drawn. -/
theorem setDate_eq {d : Diagram α} {date : String} {run index : ℕ}
    (found : Series.locate? d.runs date = some (run, index)) :
    d.setDate date =
      let change := (d.withDate date run index (Series.locate?_run_lt found)).render (some d.current)
      .ok { change with
        events := (if run == d.selection.run then [] else [.runSwitched d.selection.run run]) ++ change.events } := by
  rw [setDate]
  split
  · next hnone => cases hnone.symm.trans found
  · next hfound =>
    cases hfound.symm.trans found
    rfl

/-- Another date is shown. -/
theorem setDate_board {d : Diagram α} (h : d.Sound) (date : String) :
    d.board.setDate date = .ok ((d.setDate date).map Change.onBoard) := by
  have hlocate : Board.locate? d.board.runs date = Series.locate? d.runs date := Board.locate?_map d.runs date
  cases found : Series.locate? d.runs date with
  | none =>
    rw [Board.setDate, hlocate, found, setDate_of_not_found found]
    rfl
  | some place =>
    obtain ⟨run, index⟩ := place
    have hlt := Series.locate?_run_lt found
    have hdistinct := (h.named _ (d.withDate date run index hlt).shownRun_mem).distinct
    have hrender := render_board hdistinct (some d.current) fun k hk => Option.some.inj hk ▸ h.current_named.distinct
    have hboard : { d.board with selection := d.board.selection.moveTo date run index } =
        (d.withDate date run index hlt).boardAfter (some d.current) := rfl
    simp only [Board.setDate, hlocate, found, hboard, hrender, Checked.ok_bind]
    rw [setDate_eq found]
    rfl

/-- An attribute is changed. -/
theorem setEdgeAttribute_board (d : Diagram α) (key : String) :
    d.board.setEdgeAttribute key = .ok (d.setEdgeAttribute key).onBoard :=
  restyle_board { d with selection := { d.selection with edgeKey := key } }

theorem setNodeAttribute_board (d : Diagram α) (key : String) :
    d.board.setNodeAttribute key = .ok (d.setNodeAttribute key).onBoard :=
  restyle_board { d with selection := { d.selection with nodeKey := key } }

omit [Scalar α] [Printed α] in
/-- A node is in a tree if it is found. -/
theorem isSome_find? (h : Hierarchy α) (id : String) : (h.find? id).isSome = h.contains id := by
  rw [Hierarchy.find?, Hierarchy.contains, List.findIdx?_isSome]

/-- A branch is folded or unfolded. -/
theorem toggleBranch_board {d : Diagram α} (h : d.Sound) (id : String) :
    d.board.toggleBranch id = .ok ((d.toggleBranch id).map Change.onBoard) := by
  have hdistinct := h.shown_named.distinct
  have hget : d.board.runs[d.selection.run]? = _ := d.getElem?_board _
  have hselection : d.board.selection = d.selection := rfl
  have htree : d.shownRun.inArray.tree = d.shownRun.tree.arena := rfl
  have hshown : (d.board.current.any fun a => (a.find? id).isSome) = d.current.contains id := by
    show (d.current.arena.find? id).isSome = _
    rw [Hierarchy.find?_arena, isSome_find?]
  rw [Board.toggleBranch, hselection, Checked.get_eq hget, Checked.ok_bind, htree, hshown, Hierarchy.find?_arena,
    toggleBranch]
  cases hcontains : d.current.contains id with
  | false =>
    have hnone : ((d.shownRun.tree.find? id).filter fun _ => false) = none := by
      cases d.shownRun.tree.find? id <;> rfl
    rw [hnone]
    rfl
  | true =>
    have hall : ((d.shownRun.tree.find? id).filter fun _ => true) = d.shownRun.tree.find? id := by
      cases d.shownRun.tree.find? id <;> rfl
    rw [hall]
    cases hfound : d.shownRun.tree.find? id with
    | none =>
      have hnot : id ∉ d.shownRun.tree.tree.preorder.map (·.id) := by
        rw [← (d.shownRun.tree.nodes_perm.map (·.id)).mem_iff, List.mem_map]
        rintro ⟨n, hn, hid⟩
        have hne := List.findIdx?_eq_none_iff.mp hfound n hn
        rw [hid, beq_self_eq_true] at hne
        cases hne
      rw [if_pos rfl, Hierarchy.toggle?_eq_none hnot]
      rfl
    | some i =>
      obtain ⟨toggle, htoggle, hrun⟩ := Hierarchy.toggle_arena hdistinct hfound
      have hrefold : (d.withTree (d.shownRun.tree.refold id)).shownRun.tree.Distinct := by
        rw [shownRun_withTree]
        exact hdistinct.of_skeleton (Hierarchy.skeleton_refold id _)
      have hrender := render_board hrefold (some d.current) fun k hk => Option.some.inj hk ▸ h.current_named.distinct
      have hmodify : Checked.modify d.board.runs d.selection.run _ = _ :=
        d.modify_board (some d.current) (d.shownRun.tree.refold id)
      rw [if_pos rfl, htoggle]
      simp only [hrun, hmodify, Checked.ok_bind]
      show ((d.withTree (d.shownRun.tree.refold id)).boardAfter (some d.current)).render >>= _ = _
      rw [hrender]
      rfl

/-! ### Sequences of changes -/

theorem sound_next {d : Diagram α} (h : d.Sound) (st : Step α) : (d.next st).Sound := by
  rw [next]
  cases hanswer : d.answer st with
  | none => exact h
  | some change => exact h.answer hanswer

/-- **Every change** goes through on a board: it is answered, or refused, as on the diagram. -/
theorem Sound.reply_board {d : Diagram α} (h : d.Sound) (st : Step α) :
    ∃ answer, d.board.reply st = .ok answer ∧ answer.map (·.map (·.pass)) = d.reply st ∧
      d.board.after answer = (d.next st).board := by
  cases st with
  | setDate date =>
    rw [Board.reply, setDate_board h, Diagram.reply, next, Diagram.answer]
    refine ⟨_, rfl, ?_, ?_⟩ <;> cases d.setDate date <;> rfl
  | toggleBranch id =>
    rw [Board.reply, toggleBranch_board h, Diagram.reply, next, Diagram.answer]
    refine ⟨_, rfl, ?_, ?_⟩ <;> cases d.toggleBranch id <;> rfl
  | setEdgeAttribute key =>
    rw [Board.reply, setEdgeAttribute_board, Diagram.reply, next, Diagram.answer]
    exact ⟨_, rfl, rfl, rfl⟩
  | setNodeAttribute key =>
    rw [Board.reply, setNodeAttribute_board, Diagram.reply, next, Diagram.answer]
    exact ⟨_, rfl, rfl, rfl⟩
  | advance ms => exact ⟨_, rfl, rfl, rfl⟩

/-- So does any sequence of changes. -/
theorem Sound.play_board {d : Diagram α} (h : d.Sound) (steps : List (Step α)) :
    d.board.play steps = .ok (d.replies steps, (steps.foldl Diagram.next d).board) := by
  induction steps generalizing d with
  | nil => rfl
  | cons st steps ih =>
    obtain ⟨answer, hanswer, hreply, hafter⟩ := h.reply_board st
    rw [Board.play, hanswer, Checked.ok_bind, hafter, ih (sound_next h st), Checked.ok_bind, hreply]
    rfl

end Diagram

/-! ### Sessions -/

namespace Session

variable [Scalar α] [Printed α]

theorem diagram_run (s : Session α) (steps : List (Step α)) :
    (s.run steps).diagram = steps.foldl Diagram.next s.diagram := by
  induction steps generalizing s with
  | nil => rfl
  | cons st steps ih =>
    rw [List.foldl_cons, ← diagram_step]
    exact ih (s.step st)

/-- **Nothing goes wrong in a session.**  A document is shown and any changes are asked for, with any dates, ids and
attributes, while all trees are kept in arrays.  Then every position that is read or written is one of its array, every
id that is looked up is in its table, no difference falls below zero, and no walk uses up its rounds.  The first pass
and all replies are those of the diagram, and the arrays in the end are those of its trees. -/
theorem nothing_goes_wrong (doc : Document α) (settings : Settings α) (initial : InitialSelection)
    (steps : List (Step α)) :
    (do
      let first ← Board.start doc.data doc.metadata initial settings
      let (replies, last) ← first.board.play steps
      return (first.pass, replies, last)) =
      .ok ((Diagram.ofDocument doc initial settings).pass,
        (Diagram.ofDocument doc initial settings).diagram.replies steps,
        (play doc settings initial steps).diagram.board) := by
  have hsound : (Diagram.ofDocument doc initial settings).diagram.Sound := sound_play doc settings initial []
  have hplay : (Diagram.ofDocument doc initial settings).onBoard.board.play steps = _ := hsound.play_board steps
  have hlast : (play doc settings initial steps).diagram =
      steps.foldl Diagram.next (Diagram.ofDocument doc initial settings).diagram := diagram_run _ steps
  rw [Diagram.start_board, Checked.ok_bind, ← Diagram.ofDocument, hplay, Checked.ok_bind, hlast]
  rfl

end Session

end FlowTree
