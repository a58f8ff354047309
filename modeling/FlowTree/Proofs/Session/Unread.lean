import FlowTree.Proofs.Session.Sound
import FlowTree.Proofs.Unread

/-!
# What later passes do not read

Nodes that are folded away, and those of runs that are not on show, keep the places and the marks of
visibility that they had when they were drawn last.  No later pass reads any of it but the place where the
root of a run begins, so diagrams that differ in nothing else answer alike for ever.

* **`Diagram.replies`** are the passes and errors with which a diagram answers a sequence of changes.
* **`Diagram.Alike`** says that two diagrams differ at most in what is not read.
* **`Diagram.Akin.alike_render`** and **`Diagram.Akin.pass_render`** say what drawing makes of such
  diagrams, **`Diagram.Alike.step`** is the simulation and **`Diagram.Alike.replies_eq`** what follows.
* **`Session.unrelated_toggles_commute`** says that two nodes, none of them above the other, can be toggled
  in any order.
-/

namespace FlowTree

variable {α : Type}

/-! ### Replies -/

namespace Diagram

section Replies

variable [Scalar α] [Printed α]

/-- What a diagram replies to a step: a pass or an error, and nothing if only time passes. -/
def reply (d : Diagram α) : Step α → Option (Except DiagramError (Pass α))
  | .setDate date => some ((d.setDate date).map (·.pass))
  | .toggleBranch id => some ((d.toggleBranch id).map (·.pass))
  | .setEdgeAttribute key => some (.ok (d.setEdgeAttribute key).pass)
  | .setNodeAttribute key => some (.ok (d.setNodeAttribute key).pass)
  | .advance _ => none

/-- The diagram after a step. -/
def next (d : Diagram α) (st : Step α) : Diagram α := ((d.answer st).map (·.diagram)).getD d

/-- What a diagram replies to one step after the other. -/
def replies (d : Diagram α) : List (Step α) → List (Option (Except DiagramError (Pass α)))
  | [] => []
  | st :: steps => d.reply st :: (d.next st).replies steps

end Replies

end Diagram

/-! ### What is read -/

/-- What later passes read of a run: its dates, the frame of its tree, and where the root begins. -/
def Run.gist (r : Run α) : List String × Tree (String × NodeInfo α × Bool) × Point α :=
  (r.dates, r.tree.frame, r.tree.root.start)

theorem Run.gist_eq_iff {r r' : Run α} :
    r.gist = r'.gist ↔ r.dates = r'.dates ∧ r.tree.frame = r'.tree.frame ∧
      r.tree.root.start = r'.tree.root.start := by
  rw [gist, gist, Prod.mk.injEq, Prod.mk.injEq]

namespace Diagram

/-- Two diagrams differ at most in places and marks of visibility of nodes that are not part of what has
been drawn, and in none of the places where the roots of the runs begin. -/
structure Alike (d d' : Diagram α) : Prop where
  selection : d.selection = d'.selection
  view : d.view = d'.view
  current : d.current = d'.current
  runs : d.runs.map Run.gist = d'.runs.map Run.gist
  shown : d.shownRun.tree.shown = d'.shownRun.tree.shown

/-- Two diagrams that are alike as soon as the run on show has been drawn. -/
structure Akin (d d' : Diagram α) : Prop where
  selection : d.selection = d'.selection
  view : d.view = d'.view
  others : ∀ i : Nat, i ≠ d.selection.run → d.runs[i]?.map Run.gist = d'.runs[i]?.map Run.gist
  dates : d.shownRun.dates = d'.shownRun.dates
  frame : d.shownRun.tree.frame = d'.shownRun.tree.frame

variable {d d' : Diagram α}

@[simp] theorem selection_withTree (d : Diagram α) (tree : Hierarchy α) :
    (d.withTree tree).selection = d.selection := rfl

@[simp] theorem view_withTree (d : Diagram α) (tree : Hierarchy α) : (d.withTree tree).view = d.view :=
  rfl

theorem dates_withTree (d : Diagram α) (tree : Hierarchy α) :
    (d.withTree tree).shownRun.dates = d.shownRun.dates := by
  simp [shownRun, withTree]

theorem Alike.gist_eq (h : d.Alike d') (i : Nat) : d.runs[i]?.map Run.gist = d'.runs[i]?.map Run.gist := by
  rw [← List.getElem?_map, h.runs, List.getElem?_map]

theorem Alike.gist_shownRun (h : d.Alike d') : d.shownRun.gist = d'.shownRun.gist := by
  have hgist := h.gist_eq d.selection.run
  rw [getElem?_shownRun, h.selection, getElem?_shownRun] at hgist
  exact Option.some.inj hgist

variable [Scalar α] [Printed α]

/-! ### Drawing -/

/-- Whatever was drawn before, drawing makes akin diagrams alike. -/
theorem Akin.alike_render (h : d.Akin d') (before before' : Option (Hierarchy α)) :
    (d.render before).diagram.Alike (d'.render before').diagram := by
  have hshown := View.shown_new_congr (congrArg View.canvas h.view) before before' h.frame
  have hroot : ∀ k : Hierarchy α, k.root = k.shown.value := fun k => (Tree.value_cut _ _).symm
  refine ⟨h.selection, h.view, ?_, ?_, ?_⟩
  · show (d.view.reconcile before d.shownRun.tree).new.prune =
      (d'.view.reconcile before' d'.shownRun.tree).new.prune
    rw [Hierarchy.prune, Hierarchy.prune, hshown]
  · apply List.ext_getElem?
    intro i
    rw [List.getElem?_map, List.getElem?_map]
    show (d.withTree _).runs[i]?.map Run.gist = (d'.withTree _).runs[i]?.map Run.gist
    rw [getElem?_runs_withTree, getElem?_runs_withTree, ← h.selection]
    split
    · rw [Run.gist, Run.gist, View.frame_new, View.frame_new, hroot, hroot, hshown, h.frame, h.dates]
    · next hi => exact h.others i hi
  · show (d.withTree _).shownRun.tree.shown = (d'.withTree _).shownRun.tree.shown
    rw [shownRun_withTree, shownRun_withTree, hshown]

/-- If the roots begin at the same place as well, the passes are equal. -/
theorem Akin.pass_render (h : d.Akin d')
    (hroot : d.shownRun.tree.root.start = d'.shownRun.tree.root.start) (before : Option (Hierarchy α)) :
    (d.render before).pass = (d'.render before).pass := by
  show (d.view.reconcile before d.shownRun.tree).pass = (d'.view.reconcile before d'.shownRun.tree).pass
  rw [← h.view]
  exact d.view.pass_congr before h.frame hroot

/-! ### The simulation -/

namespace Alike

omit [Scalar α] [Printed α] in
theorem withDate (h : d.Alike d') (date : String) (index : Nat) {run : Nat} (hrun : run < d.runs.length)
    (hrun' : run < d'.runs.length) :
    (d.withDate date run index hrun).Akin (d'.withDate date run index hrun') ∧
      (d.withDate date run index hrun).shownRun.tree.root.start =
        (d'.withDate date run index hrun').shownRun.tree.root.start := by
  have hgist := h.gist_eq run
  rw [List.getElem?_eq_getElem hrun, List.getElem?_eq_getElem hrun', Option.map_some,
    Option.map_some, Option.some.injEq, Run.gist_eq_iff] at hgist
  exact ⟨⟨congrArg (·.moveTo date run index) h.selection,
    congrArg (fun v : View α => { v with dateIndex := index }) h.view, fun i _ => h.gist_eq i, hgist.1,
    hgist.2.1⟩, hgist.2.2⟩

omit [Scalar α] [Printed α] in
theorem refold (h : d.Alike d') (id : String) :
    (d.withTree (d.shownRun.tree.refold id)).Akin (d'.withTree (d'.shownRun.tree.refold id)) ∧
      (d.withTree (d.shownRun.tree.refold id)).shownRun.tree.root.start =
        (d'.withTree (d'.shownRun.tree.refold id)).shownRun.tree.root.start := by
  have hgist := Run.gist_eq_iff.mp h.gist_shownRun
  refine ⟨⟨h.selection, h.view, fun i hi => ?_, ?_, ?_⟩, ?_⟩
  · have hi' : i ≠ d'.selection.run := h.selection ▸ hi
    exact (getElem?_runs_withTree_of_ne _ d _ hi).trans
      ((h.gist_eq i).trans (getElem?_runs_withTree_of_ne _ d' _ hi').symm)
  · rw [dates_withTree, dates_withTree, hgist.1]
  · rw [shownRun_withTree, shownRun_withTree]
    exact Hierarchy.frame_refold_congr hgist.2.1 id
  · rw [shownRun_withTree, shownRun_withTree, Hierarchy.start_root_refold, Hierarchy.start_root_refold,
      hgist.2.2]

theorem restyle (h : d.Alike d') : d.restyle.pass = d'.restyle.pass := by
  have hgist := Run.gist_eq_iff.mp h.gist_shownRun
  show d.view.restyle d.shownRun.tree = d'.view.restyle d'.shownRun.tree
  rw [← h.view]
  exact d.view.restyle_congr hgist.2.1 (congrArg _ h.shown)

end Alike

/-! ### Answers to a date -/

/-- The run of a date that is listed is drawn. -/
theorem setDate_of_found {date : String} {run index : Nat}
    (found : Series.locate? d.runs date = some (run, index)) :
    ∃ events, d.setDate date =
      .ok { (d.withDate date run index (Series.locate?_run_lt found)).render (some d.current) with
        events := events } := by
  rw [setDate]
  split
  · next hnone => cases hnone.symm.trans found
  · next hfound =>
    cases hfound.symm.trans found
    exact ⟨_, rfl⟩

theorem setDate_of_not_found {date : String} (hnone : Series.locate? d.runs date = none) :
    d.setDate date = .error (.unknownDate date) := by
  rw [setDate]
  split
  · rfl
  · next hfound => cases hnone.symm.trans hfound

omit [Scalar α] [Printed α] in
theorem locate?_congr {runs runs' : List (Run α)} (h : runs.map (·.dates) = runs'.map (·.dates))
    (date : String) : Series.locate? runs date = Series.locate? runs' date := by
  induction runs generalizing runs' with
  | nil =>
    obtain rfl := List.map_eq_nil_iff.mp h.symm
    rfl
  | cons r runs ih =>
    obtain ⟨r', runs', rfl, hr, hrest⟩ := List.map_eq_cons_iff.mp h.symm
    rw [Series.locate?, Series.locate?, hr, ih hrest.symm]

/-- Two outcomes are alike: the same error, or the same pass and diagrams that are alike. -/
inductive OutcomesAlike : Except DiagramError (Change α) → Except DiagramError (Change α) → Prop
  | ok {change change' : Change α} (pass : change.pass = change'.pass)
      (diagram : change.diagram.Alike change'.diagram) : OutcomesAlike (.ok change) (.ok change')
  | error (e : DiagramError) : OutcomesAlike (.error e) (.error e)

omit [Scalar α] [Printed α] in
/-- So are the replies and the diagrams afterwards. -/
theorem OutcomesAlike.follow (h : d.Alike d') {out out' : Except DiagramError (Change α)}
    (hout : OutcomesAlike out out') :
    out.map (·.pass) = out'.map (·.pass) ∧
      ((out.toOption.map (·.diagram)).getD d).Alike ((out'.toOption.map (·.diagram)).getD d') := by
  cases hout with
  | ok pass diagram => exact ⟨congrArg Except.ok pass, diagram⟩
  | error e => exact ⟨rfl, h⟩

namespace Alike

theorem setDate (h : d.Alike d') (date : String) :
    OutcomesAlike (d.setDate date) (d'.setDate date) := by
  have hdates : d.runs.map (·.dates) = d'.runs.map (·.dates) := by
    have hgists := congrArg (List.map (·.1)) h.runs
    rwa [List.map_map, List.map_map] at hgists
  cases found : Series.locate? d.runs date with
  | none =>
    rw [setDate_of_not_found found,
      setDate_of_not_found ((locate?_congr hdates date).symm.trans found)]
    exact .error _
  | some place =>
    obtain ⟨run, index⟩ := place
    have found' := (locate?_congr hdates date).symm.trans found
    obtain ⟨events, hok⟩ := setDate_of_found found
    obtain ⟨events', hok'⟩ := setDate_of_found found'
    obtain ⟨hakin, hroot⟩ := h.withDate date index (Series.locate?_run_lt found)
      (Series.locate?_run_lt found')
    rw [hok, hok']
    refine .ok ?_ (hakin.alike_render _ _)
    show _ = ((d'.withDate date run index _).render (some d'.current)).pass
    rw [← h.current]
    exact hakin.pass_render hroot _

theorem toggleBranch (h : d.Alike d') (id : String) :
    OutcomesAlike (d.toggleBranch id) (d'.toggleBranch id) := by
  have hids : ∀ k : Diagram α, k.shownRun.tree.tree.preorder.map (·.id) =
      k.shownRun.tree.frame.preorder.map (·.1) := by
    intro k
    rw [Hierarchy.frame, Tree.preorder_map, List.map_map]
    rfl
  have hgist := Run.gist_eq_iff.mp h.gist_shownRun
  have hiff : (d.current.contains id = true ∧ id ∈ d.shownRun.tree.tree.preorder.map (·.id)) ↔
      (d'.current.contains id = true ∧ id ∈ d'.shownRun.tree.tree.preorder.map (·.id)) := by
    rw [h.current, hids, hids, hgist.2.1]
  by_cases hmem : d.current.contains id = true ∧ id ∈ d.shownRun.tree.tree.preorder.map (·.id)
  · obtain ⟨events, hok⟩ := toggleBranch_of_contains hmem.1 hmem.2
    obtain ⟨events', hok'⟩ := toggleBranch_of_contains (hiff.mp hmem).1 (hiff.mp hmem).2
    obtain ⟨hakin, hroot⟩ := h.refold id
    rw [hok, hok']
    refine .ok ?_ (hakin.alike_render _ _)
    show _ = ((d'.withTree (d'.shownRun.tree.refold id)).render (some d'.current)).pass
    rw [← h.current]
    exact hakin.pass_render hroot _
  · rw [toggleBranch_eq_error hmem, toggleBranch_eq_error fun hmem' => hmem (hiff.mpr hmem')]
    exact .error _

/-- **One step** finds the same reply and keeps diagrams alike. -/
theorem step (h : d.Alike d') (st : Step α) :
    d.reply st = d'.reply st ∧ (d.next st).Alike (d'.next st) := by
  have hrestyle {k k' : Diagram α} (hk : k.Alike k') :
      OutcomesAlike (.ok k.restyle) (.ok k'.restyle) := .ok hk.restyle hk
  cases st with
  | setDate date =>
    obtain ⟨hreply, hnext⟩ := (h.setDate date).follow h
    exact ⟨congrArg some hreply, hnext⟩
  | toggleBranch id =>
    obtain ⟨hreply, hnext⟩ := (h.toggleBranch id).follow h
    exact ⟨congrArg some hreply, hnext⟩
  | setEdgeAttribute key =>
    have halike : Alike { d with selection := { d.selection with edgeKey := key } }
        { d' with selection := { d'.selection with edgeKey := key } } :=
      { h with
        selection := congrArg (fun s : Selection => { s with edgeKey := key }) h.selection
        view := congrArg (fun v : View α => { v with edgeKey := key }) h.view }
    obtain ⟨hreply, hnext⟩ := (hrestyle halike).follow h
    exact ⟨congrArg some hreply, hnext⟩
  | setNodeAttribute key =>
    have halike : Alike { d with selection := { d.selection with nodeKey := key } }
        { d' with selection := { d'.selection with nodeKey := key } } :=
      { h with
        selection := congrArg (fun s : Selection => { s with nodeKey := key }) h.selection
        view := congrArg (fun v : View α => { v with nodeKey := key }) h.view }
    obtain ⟨hreply, hnext⟩ := (hrestyle halike).follow h
    exact ⟨congrArg some hreply, hnext⟩
  | advance ms => exact ⟨rfl, h⟩

/-- **Diagrams that are alike reply alike for ever.** -/
theorem replies_eq (h : d.Alike d') (steps : List (Step α)) : d.replies steps = d'.replies steps := by
  induction steps generalizing d d' with
  | nil => rfl
  | cons st steps ih =>
    obtain ⟨hreply, hnext⟩ := h.step st
    rw [replies, replies, hreply, ih hnext]

end Alike

/-! ### Two toggles -/

theorem dates_refolded (d : Diagram α) (id : String) (events : List Event) :
    (d.refolded id events).diagram.shownRun.dates = d.shownRun.dates := by
  show ((d.withTree (d.shownRun.tree.refold id)).withTree _).shownRun.dates = _
  rw [dates_withTree, dates_withTree]

/-- Diagrams are alike after two nodes have been folded or unfolded in one order and in the other one. -/
theorem alike_refolded_refolded (d : Diagram α) (a b : String) (ea eb ea' eb' : List Event) :
    ((d.refolded a ea).diagram.refolded b eb).diagram.Alike
      ((d.refolded b eb').diagram.refolded a ea').diagram := by
  have hakin : Akin ((d.refolded a ea).diagram.withTree ((d.refolded a ea).diagram.shownRun.tree.refold b))
      ((d.refolded b eb').diagram.withTree ((d.refolded b eb').diagram.shownRun.tree.refold a)) := by
    refine ⟨?_, ?_, fun i hi => ?_, ?_, ?_⟩
    · simp only [selection_withTree, selection_refolded]
    · simp only [view_withTree, view_refolded]
    · simp only [selection_withTree, selection_refolded] at hi
      rw [getElem?_runs_withTree_of_ne _ _ _ (by simpa using hi), getElem?_runs_refolded _ d a ea hi,
        getElem?_runs_withTree_of_ne _ _ _ (by simpa using hi), getElem?_runs_refolded _ d b eb' hi]
    · rw [dates_withTree, dates_withTree, dates_refolded, dates_refolded]
    · rw [shownRun_withTree, shownRun_withTree,
        Hierarchy.frame_refold_congr (d.frame_shownRun_refolded a ea),
        Hierarchy.frame_refold_congr (d.frame_shownRun_refolded b eb'), Hierarchy.refold_comm]
  exact hakin.alike_render _ _

end Diagram

namespace Session

variable [Scalar α] [Printed α]

/-- **Two nodes, none of them above the other, can be toggled in any order.**  After any sequence of
changes, if both are on show, both orders are possible and leave the same tree drawn, and from then on every
further sequence of changes gets the same passes and the same errors, although nodes that are folded away
may remember different places.  For of nodes that are not part of what has been drawn no place and no mark of
visibility has any effect on what is replied later, but the place where the root of a run begins: a diagram
that differs from this one in nothing else replies as this one does. -/
theorem unrelated_toggles_commute (doc : Document α) (settings : Settings α) (initial : InitialSelection)
    (steps : List (Step α)) :
    (∀ a b, a ∈ (play doc settings initial steps).diagram.current.ids →
      b ∈ (play doc settings initial steps).diagram.current.ids →
      a ∉ ((play doc settings initial steps).diagram.current.ancestors b).map (·.id) →
      b ∉ ((play doc settings initial steps).diagram.current.ancestors a).map (·.id) →
      ∃ afterA afterAB afterB afterBA,
        (play doc settings initial steps).diagram.toggleBranch a = .ok afterA ∧
          afterA.diagram.toggleBranch b = .ok afterAB ∧
        (play doc settings initial steps).diagram.toggleBranch b = .ok afterB ∧
          afterB.diagram.toggleBranch a = .ok afterBA ∧
        afterAB.diagram.current = afterBA.diagram.current ∧
        afterAB.diagram.Alike afterBA.diagram ∧
        ∀ further, afterAB.diagram.replies further = afterBA.diagram.replies further) ∧
    ∀ other : Diagram α, (play doc settings initial steps).diagram.Alike other →
      ∀ further, (play doc settings initial steps).diagram.replies further = other.replies further := by
  have h := sound_play doc settings initial steps
  generalize (play doc settings initial steps).diagram = d at *
  refine ⟨fun a b ha hb hab hba => ?_, fun other halike => halike.replies_eq⟩
  obtain ⟨ea, hokA⟩ := h.toggleBranch_of_mem ha
  obtain ⟨eb', hokB⟩ := h.toggleBranch_of_mem hb
  obtain ⟨eb, hokAB⟩ := (h.refolded a ea).toggleBranch_of_mem (h.mem_ids_refolded hb hab ea)
  obtain ⟨ea', hokBA⟩ := (h.refolded b eb').toggleBranch_of_mem (h.mem_ids_refolded ha hba eb')
  have halike := d.alike_refolded_refolded a b ea eb ea' eb'
  exact ⟨_, _, _, _, hokA, hokAB, hokB, hokBA, halike.current, halike, halike.replies_eq⟩

theorem diagram_step_of_ok {s : Session α} {id : String} {change : Change α}
    (hok : s.diagram.toggleBranch id = .ok change) :
    (s.step (.toggleBranch id)).diagram = change.diagram := by
  rw [step, Diagram.answer, hok]
  · rfl
  · intro ms h
    cases h

/-- Two groups, the first one with a group of its own. -/
def twoGroups : Document ℚ where
  data := [⟨["1"], .node { label := "R" }
    [.node { label := "G" } [.node { label := "K" } [.node { label := "V" } []]],
      .node { label := "H" } [.node { label := "W" } []]]⟩]

/-- The groups are folded in one order and in the other one.  What is folded last has been moved before, as
fewer levels take the same room, so other places are remembered; no further change brings that to light. -/
theorem unrelated_toggles_commute_groups :
    (play twoGroups .default {} [.toggleBranch "R_G", .toggleBranch "R_H"]).diagram.shownRun.tree.tree.preorder.map
        (·.finish.x) ≠
      (play twoGroups .default {} [.toggleBranch "R_H", .toggleBranch "R_G"]).diagram.shownRun.tree.tree.preorder.map
        (·.finish.x) ∧
    ∀ further,
      (play twoGroups .default {} [.toggleBranch "R_G", .toggleBranch "R_H"]).diagram.replies further =
        (play twoGroups .default {} [.toggleBranch "R_H", .toggleBranch "R_G"]).diagram.replies further := by
  refine ⟨by decide +kernel, ?_⟩
  obtain ⟨afterA, afterAB, afterB, afterBA, hokA, hokAB, hokB, hokBA, -, halike, -⟩ :=
    (unrelated_toggles_commute twoGroups .default {} []).1 "R_G" "R_H" (by decide +kernel)
      (by decide +kernel) (by decide +kernel) (by decide +kernel)
  have hAB : (play twoGroups .default {} [.toggleBranch "R_G", .toggleBranch "R_H"]).diagram =
      afterAB.diagram := by
    refine diagram_step_of_ok (s := play twoGroups .default {} [.toggleBranch "R_G"]) ?_
    rw [← hokAB, ← diagram_step_of_ok hokA]
    rfl
  have hBA : (play twoGroups .default {} [.toggleBranch "R_H", .toggleBranch "R_G"]).diagram =
      afterBA.diagram := by
    refine diagram_step_of_ok (s := play twoGroups .default {} [.toggleBranch "R_H"]) ?_
    rw [← hokBA, ← diagram_step_of_ok hokB]
    rfl
  rw [← hAB, ← hBA] at halike
  exact (unrelated_toggles_commute twoGroups .default {} [.toggleBranch "R_G", .toggleBranch "R_H"]).2 _
    halike

end Session

end FlowTree
