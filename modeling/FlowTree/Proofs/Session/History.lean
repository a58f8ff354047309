import FlowTree.Proofs.Hierarchy.Drawn
import FlowTree.Proofs.Session.Portrait
import Mathlib.Algebra.Group.Nat.Even

/-!
# What is drawn follows from what has been toggled

A diagram changes its runs in place: nodes are folded, placed and marked, and a run that is left keeps
all that until it is shown again.  Of this history only the folded nodes of the run on show can be seen.

* **`Session.toggles`** lists the nodes that have been toggled, each with its run.
* **`Diagram.Recalls`** says that the frames of all runs and the tree that has been drawn follow from this
  list; **`Diagram.Recalls.answer`** keeps it over every answer, **`Session.recalls_run`** over a run.
* **`Session.current_follows_toggles`** says what has been drawn after any sequence of changes.
-/

namespace FlowTree

variable {α : Type}

/-- The ids that have been toggled in one run, in order. -/
def togglesOf (run : Nat) (toggles : List (Nat × String)) : List String :=
  (toggles.filter (·.1 == run)).map (·.2)

theorem togglesOf_append (run : Nat) (toggles toggles' : List (Nat × String)) :
    togglesOf run (toggles ++ toggles') = togglesOf run toggles ++ togglesOf run toggles' := by
  rw [togglesOf, List.filter_append, List.map_append, togglesOf, togglesOf]

theorem count_togglesOf (run : Nat) (toggles : List (Nat × String)) (id : String) :
    (togglesOf run toggles).count id = toggles.count (run, id) := by
  induction toggles with
  | nil => rfl
  | cons x toggles ih =>
    obtain ⟨run', id'⟩ := x
    rw [List.count_cons, ← ih, togglesOf, List.filter_cons]
    by_cases hrun : run' = run
    · by_cases hid : id' = id <;> simp [togglesOf, hrun, hid]
    · simp [togglesOf, hrun]

variable [Scalar α]

theorem Series.frame_runOf (canvas : Canvas α) (t : DatedTree α) :
    (runOf canvas t).tree.frame = (Hierarchy.ofTree t.tree).frame := by
  refine Hierarchy.map_updateRoot ?_ _
  exact fun _ => rfl

variable [Printed α]

/-! ### The list of toggles -/

/-- The node that a step folds or unfolds, with its run; none if the step fails or asks for something
else. -/
def Diagram.toggled? (d : Diagram α) : Step α → Option (Nat × String)
  | .toggleBranch id => (d.answer (.toggleBranch id)).map fun _ => (d.selection.run, id)
  | _ => none

/-- The nodes that are folded or unfolded by a sequence of steps, each with the run on show then. -/
def Session.toggles (s : Session α) : List (Step α) → List (Nat × String)
  | [] => []
  | st :: steps => (s.diagram.toggled? st).toList ++ (s.step st).toggles steps

/-! ### The diagram remembers nothing else -/

namespace Diagram

/-- The frame of every run is the fresh one with the toggles of this run, and what has been drawn is the
tree of the run on show as it is drawn. -/
structure Recalls (d : Diagram α) (doc : Document α) (toggles : List (Nat × String)) : Prop where
  frames : ∀ i, d.runs[i]?.map (·.tree.frame) = (Series.orNoData doc.data)[i]?.map fun t =>
    ((Hierarchy.ofTree t.tree).toggleAll (togglesOf i toggles)).frame
  current_eq : d.current = d.shownRun.tree.drawn d.canvas

omit [Scalar α] [Printed α] in
/-- Another tree in the run on show changes no other run. -/
theorem getElem?_runs_withTree {γ : Type} (g : Run α → γ) (d : Diagram α) (tree : Hierarchy α)
    (i : Nat) :
    (d.withTree tree).runs[i]?.map g =
      if i = d.selection.run then some (g { d.shownRun with tree := tree }) else d.runs[i]?.map g := by
  rw [withTree, List.getElem?_modify]
  by_cases hi : i = d.selection.run
  · rw [if_pos hi, hi, List.getElem?_eq_getElem d.run_lt]
    simp [shownRun]
  · rw [if_neg hi]
    simp [Ne.symm hi]

omit [Scalar α] [Printed α] in
theorem getElem?_shownRun (d : Diagram α) : d.runs[d.selection.run]? = some d.shownRun :=
  List.getElem?_eq_getElem d.run_lt

/-- Drawing the run on show. -/
theorem recalls_render {d : Diagram α} {doc : Document α} {toggles : List (Nat × String)}
    (hframes : ∀ i, d.runs[i]?.map (·.tree.frame) = (Series.orNoData doc.data)[i]?.map fun t =>
      ((Hierarchy.ofTree t.tree).toggleAll (togglesOf i toggles)).frame)
    (before : Option (Hierarchy α)) : (d.render before).diagram.Recalls doc toggles := by
  have hframe := d.view.frame_new before d.shownRun.tree
  constructor
  · intro i
    rw [← hframes i]
    show (d.withTree (d.view.reconcile before d.shownRun.tree).new).runs[i]?.map _ = _
    rw [getElem?_runs_withTree, hframe]
    split
    · next hi => rw [hi, getElem?_shownRun, Option.map_some]
    · rfl
  · show (d.view.reconcile before d.shownRun.tree).new.prune =
      (d.withTree (d.view.reconcile before d.shownRun.tree).new).shownRun.tree.drawn d.canvas
    rw [View.prune_new, shownRun_withTree]
    exact Hierarchy.drawn_congr hframe.symm d.canvas

theorem recalls_start (doc : Document α) (initial : InitialSelection) (settings : Settings α) :
    (ofDocument doc initial settings).diagram.Recalls doc [] := by
  refine recalls_render (fun i => ?_) none
  show (Series.build doc.data settings.canvas)[i]?.map _ = _
  rw [Series.build, List.getElem?_map, Option.map_map]
  cases (Series.orNoData doc.data)[i]? with
  | none => rfl
  | some t => exact congrArg some (Series.frame_runOf settings.canvas t)

/-- Every answer adds what it has toggled. -/
theorem Recalls.answer {d : Diagram α} {doc : Document α} {toggles : List (Nat × String)}
    (h : d.Recalls doc toggles) {st : Step α} {change : Change α}
    (hanswer : d.answer st = some change) :
    change.diagram.Recalls doc (toggles ++ (d.toggled? st).toList) := by
  have hnothing {st : Step α} (hst : d.toggled? st = none) :
      toggles ++ (d.toggled? st).toList = toggles := by
    rw [hst]
    exact List.append_nil toggles
  cases answers_of_answer hanswer with
  | setDate found events =>
    rw [hnothing rfl]
    exact recalls_render (d := d.withDate _ _ _ (Series.locate?_run_lt found)) h.frames
      (some d.current)
  | @toggleBranch id _ tree shown toggled events =>
    have htoggled : d.toggled? (.toggleBranch id) = some (d.selection.run, id) := by
      rw [toggled?, hanswer]
      rfl
    have htree : tree = d.shownRun.tree.toggleAll [id] := by
      show _ = ((d.shownRun.tree.toggle? id).map (·.2)).getD d.shownRun.tree
      rw [toggled]
      rfl
    refine recalls_render (d := d.withTree tree) (fun i => ?_) (some d.current)
    rw [getElem?_runs_withTree, htoggled, togglesOf_append]
    by_cases hi : i = d.selection.run
    · -- the frame of the run on show is toggled once more
      have hframe := h.frames i
      rw [hi, getElem?_shownRun, Option.map_some] at hframe
      obtain ⟨t, ht, hframe⟩ := Option.map_eq_some_iff.mp hframe.symm
      rw [if_pos hi, hi, ht, Option.map_some, htree,
        Hierarchy.frame_toggleAll_congr hframe.symm fun _ => rfl,
        Hierarchy.toggleAll_toggleAll]
      simp [togglesOf]
    · rw [if_neg hi, h.frames i]
      simp [togglesOf, Ne.symm hi]
  | setEdgeAttribute key =>
    rw [hnothing rfl]
    exact ⟨h.frames, h.current_eq⟩
  | setNodeAttribute key =>
    rw [hnothing rfl]
    exact ⟨h.frames, h.current_eq⟩

end Diagram

namespace Session

theorem toggles_eq_record (s : Session α) (steps : List (Step α)) :
    s.toggles steps = s.record Diagram.toggled? steps := by
  induction steps generalizing s with
  | nil => rfl
  | cons st steps ih => rw [Session.toggles, record, ih]

/-- A run adds what it toggles. -/
theorem recalls_run {s : Session α} {doc : Document α} {toggles : List (Nat × String)}
    (h : s.diagram.Recalls doc toggles) (steps : List (Step α)) :
    (s.run steps).diagram.Recalls doc (toggles ++ s.toggles steps) := by
  rw [toggles_eq_record]
  refine keeps_record Diagram.toggled? (P := fun d toggles => d.Recalls doc toggles)
    (fun _ _ _ _ hd hanswer => hd.answer hanswer) (fun d st hnone => ?_) h steps
  cases st with
  | toggleBranch id => rw [Diagram.toggled?, hnone]; rfl
  | _ => rfl

/-- **What is drawn follows from what has been toggled.**  After any sequence of changes the tree that has
been drawn is the one built afresh: take the tree of the document for the run on show, fold or unfold, in
whatever order, each node once that was toggled an odd number of times while this run was on show, place
it, and leave of it what is on show and at rest.  So toggles in other runs count for nothing, and two
histories that end in one run, with the same nodes of it toggled an odd number of times, leave the same
tree. -/
theorem current_follows_toggles (doc : Document α) (settings : Settings α)
    (initial : InitialSelection) (steps : List (Step α)) :
    (∃ t, (Series.orNoData doc.data)[(play doc settings initial steps).diagram.selection.run]? =
        some t ∧
      ∀ ids : List String, ids.Nodup →
        (∀ id, id ∈ ids ↔ Odd (((start doc initial settings).toggles steps).count
          ((play doc settings initial steps).diagram.selection.run, id))) →
        (play doc settings initial steps).diagram.current =
          ((Hierarchy.ofTree t.tree).toggleAll ids).drawn settings.canvas) ∧
    ∀ (initial' : InitialSelection) (steps' : List (Step α)),
      (play doc settings initial steps).diagram.selection.run =
        (play doc settings initial' steps').diagram.selection.run →
      (∀ id, Odd (((start doc initial settings).toggles steps).count
          ((play doc settings initial steps).diagram.selection.run, id)) ↔
        Odd (((start doc initial' settings).toggles steps').count
          ((play doc settings initial steps).diagram.selection.run, id))) →
      (play doc settings initial steps).diagram.current =
        (play doc settings initial' steps').diagram.current := by
  have hodd : ∀ (toggles : List (Nat × String)) (run : Nat) (id : String),
      Hierarchy.isOdd (togglesOf run toggles) id = decide (Odd (toggles.count (run, id))) := by
    intro toggles run id
    rw [Hierarchy.isOdd, count_togglesOf, Bool.eq_iff_iff, beq_iff_eq, decide_eq_true_iff,
      Nat.odd_iff]
  -- every history draws the tree with its own list of toggles
  have hdrawn : ∀ (initial : InitialSelection) (steps : List (Step α)),
      ∃ t, (Series.orNoData doc.data)[(play doc settings initial steps).diagram.selection.run]? =
          some t ∧
        (play doc settings initial steps).diagram.current =
          ((Hierarchy.ofTree t.tree).toggleAll
            (togglesOf (play doc settings initial steps).diagram.selection.run
              ((start doc initial settings).toggles steps))).drawn settings.canvas := by
    intro initial steps
    have h := recalls_run (s := start doc initial settings)
      (Diagram.recalls_start doc initial settings) steps
    have hserves := serves_run (s := start doc initial settings)
      (Diagram.serves_start doc initial settings) steps
    have hframe := h.frames (play doc settings initial steps).diagram.selection.run
    rw [List.nil_append, play, Diagram.getElem?_shownRun, Option.map_some] at hframe
    obtain ⟨t, ht, hframe⟩ := Option.map_eq_some_iff.mp hframe.symm
    refine ⟨t, ht, ?_⟩
    rw [play, h.current_eq, hserves.canvas]
    exact Hierarchy.drawn_congr hframe.symm settings.canvas
  obtain ⟨t, ht, hcurrent⟩ := hdrawn initial steps
  refine ⟨⟨t, ht, fun ids hnodup hids => ?_⟩, fun initial' steps' hrun hsame => ?_⟩
  · rw [hcurrent]
    refine Hierarchy.drawn_congr (Hierarchy.frame_toggleAll_congr rfl fun id => ?_) settings.canvas
    rw [hodd, Hierarchy.isOdd_of_nodup hnodup, decide_eq_decide]
    exact (hids id).symm
  · obtain ⟨t', ht', hcurrent'⟩ := hdrawn initial' steps'
    rw [← hrun] at ht' hcurrent'
    have htree : t = t' := Option.some.inj (ht.symm.trans ht')
    rw [hcurrent, hcurrent', htree]
    refine Hierarchy.drawn_congr (Hierarchy.frame_toggleAll_congr rfl fun id => ?_) settings.canvas
    rw [hodd, hodd, decide_eq_decide]
    exact hsame id

/-- Two runs, the first one with a well below its group. -/
def twoRuns : Document ℚ where
  data := [⟨["1"], .node { label := "R" } [.node { label := "G" } [.node { label := "W" } []]]⟩,
    ⟨["2"], .node { label := "R" } [.node { label := "G" } []]⟩]

/-- A group is folded and then its root; another run with nodes of the same ids is shown and folded; back
in the first run the root is unfolded. -/
def refolding : List (Step ℚ) :=
  [.toggleBranch "R_G", .toggleBranch "R", .setDate "2", .toggleBranch "R", .toggleBranch "X",
    .setDate "1", .toggleBranch "R"]

/-- The group stays folded all the way, and nothing else does. -/
theorem current_follows_toggles_refolding :
    (play twoRuns .default { date := "1" } refolding).diagram.current =
        ((Hierarchy.ofTree (.node { label := "R" }
          [.node { label := "G" } [.node { label := "W" } []]])).toggleAll ["R_G"]).drawn
            Settings.default.canvas ∧
      (play twoRuns .default { date := "1" } refolding).diagram.current =
        (play twoRuns .default {} [.toggleBranch "R_G"]).diagram.current := by
  have hrun : (play twoRuns .default { date := "1" } refolding).diagram.selection.run = 0 := by
    decide +kernel
  have hrun' : (play twoRuns .default {} [.toggleBranch "R_G"]).diagram.selection.run = 0 := by
    decide +kernel
  have htoggles : (start twoRuns { date := "1" } .default).toggles refolding =
      [(0, "R_G"), (0, "R"), (1, "R"), (0, "R")] := by decide +kernel
  have htoggles' : (start twoRuns {} .default).toggles [.toggleBranch "R_G"] = [(0, "R_G")] := by
    decide +kernel
  have hodd : ∀ id, Odd ([(0, "R_G"), (0, "R"), (1, "R"), (0, "R")].count (0, id)) ↔ id = "R_G" := by
    intro id
    by_cases hgroup : id = "R_G"
    · subst hgroup
      decide
    · by_cases hroot : id = "R"
      · subst hroot
        decide
      · simp [hgroup, Ne.symm hgroup, Ne.symm hroot]
  obtain ⟨⟨t, ht, hcurrent⟩, hsame⟩ :=
    current_follows_toggles twoRuns .default { date := "1" } refolding
  rw [hrun] at ht
  obtain rfl := (Option.some.inj ht).symm
  constructor
  · refine hcurrent ["R_G"] (List.nodup_singleton _) fun id => ?_
    rw [hrun, htoggles, hodd, List.mem_singleton]
  · refine hsame {} [.toggleBranch "R_G"] (hrun.trans hrun'.symm) fun id => ?_
    rw [hrun, htoggles, htoggles', hodd]
    by_cases hgroup : id = "R_G" <;> simp [hgroup, Ne.symm]

end Session

end FlowTree
