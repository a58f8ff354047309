import FlowTree.Proofs.Session.Restyling
import FlowTree.Proofs.Session.Unread

/-!
# Choosing the date on show again

A diagram in order has nothing left to place and nothing left to mark, so drawing it again leaves it as it
is, and the pass only says once more where everything is.

* **`View.new_of_settled`** says that a reconciliation leaves a tree alone that is placed and at rest.
* **`View.keep`** leaves an element of a picture where it is; **`View.pass_of_settled`** says that the full
  pass over a tree that is drawn already consists of these directives.
* **`Diagram.Resolved`** says that the date on show is found where the selection says;
  **`Diagram.Sound.setDate_again`** is the answer to this date.
* **`Session.repeated_date_changes_nothing`** compares the answers to one date that is chosen twice.
-/

namespace FlowTree

variable {α : Type} [Scalar α] [Printed α]

/-! ### Trees that are drawn already -/

namespace View

/-- A tree that is placed and at rest is left as it is. -/
theorem new_of_settled (v : View α) (old : Option (Hierarchy α)) {new : Hierarchy α}
    (hplaced : new.Placed v.canvas)
    (hrest : ∀ n ∈ new.shown.preorder, n.visible = true ∧ n.start = n.finish) :
    (v.reconcile old new).new = new := by
  show rest (inherit _ (new.layout v.canvas)) = new
  rw [hplaced.layout_eq, rest, inherit, Hierarchy.updateShown, Hierarchy.updateShown]
  refine congrArg (Hierarchy.mk · new.listing) ?_
  -- whatever a node inherits is overwritten by the marks of rest, which it has already
  refine (Tree.mapAbove_mapAbove (fun n => ?_) _ _).trans (Tree.mapAbove_of_forall fun n hn => ?_)
  · split <;> rfl
  · obtain ⟨hvisible, hstart⟩ := hrest n hn
    cases n
    cases hvisible
    cases hstart
    rw [Function.comp_apply]
    split <;> rfl

omit [Scalar α] [Printed α] in
/-- The directive that leaves an element where it is. -/
def keep (v : View α) (e : SceneElement α) : Directive α := .update e.key e.visual v.duration

/-- **The full pass over a tree that is drawn already** keeps the elements of its picture. -/
theorem pass_of_settled (v : View α) {old new : Hierarchy α} (hids : old.ids = new.ids)
    (hplaced : new.Placed v.canvas) :
    (v.reconcile (some old) new).pass = (v.portrait new.spots).map v.keep := by
  rw [v.pass_of_same hids hplaced, restyle, portrait, List.map_append, List.map_append, List.map_map,
    List.map_map, List.map_map]
  rfl

end View

namespace Diagram

variable {d : Diagram α}

omit [Scalar α] [Printed α] in
theorem withTree_shownRun (d : Diagram α) : d.withTree d.shownRun.tree = d := by
  have hruns : (d.withTree d.shownRun.tree).runs = d.runs := by
    refine List.ext_getElem? fun i => ?_
    have hi := getElem?_runs_withTree id d d.shownRun.tree i
    rw [Option.map_id_fun, id_eq, id_eq] at hi
    rw [hi]
    split
    · next hrun => rw [hrun, getElem?_shownRun]
    · rfl
  cases d
  simpa [withTree] using hruns

namespace Sound

omit [Printed α] in
theorem steady (h : d.Sound) : d.Steady := ⟨fun r hr => (h.named r hr).distinct, h.pruned⟩

omit [Printed α] in
/-- Every node on show is visible and where it goes. -/
theorem shown_atRest (h : d.Sound) :
    ∀ n ∈ d.shownRun.tree.shown.preorder, n.visible = true ∧ n.start = n.finish := by
  intro n hn
  have hn' : { n with folded := false } ∈ d.current.tree.preorder := by
    rw [h.pruned, Hierarchy.prune, Tree.preorder_map]
    exact List.mem_map_of_mem hn
  obtain ⟨hvisible, hstart, -⟩ := h.atRest _ hn'
  exact ⟨hvisible, hstart⟩

/-- **Drawing again** leaves a diagram in order as it is. -/
theorem render_eq (h : d.Sound) (before : Option (Hierarchy α)) : (d.render before).diagram = d := by
  have hnew : (d.view.reconcile before d.shownRun.tree).new = d.shownRun.tree :=
    d.view.new_of_settled before h.placed h.shown_atRest
  show { d.withTree (d.view.reconcile before d.shownRun.tree).new with
    current := (d.view.reconcile before d.shownRun.tree).new.prune } = d
  rw [hnew, ← h.pruned, withTree_shownRun]

end Sound

/-! ### The place of the date on show -/

omit [Scalar α] [Printed α] in
/-- The date on show is found in the run that is drawn, at the position of the values that are drawn. -/
def Resolved (d : Diagram α) : Prop :=
  Series.locate? d.runs d.selection.date = some (d.selection.run, d.selection.dateIndex)

omit [Scalar α] [Printed α] in
theorem map_dates_withTree (d : Diagram α) (tree : Hierarchy α) :
    (d.withTree tree).runs.map (·.dates) = d.runs.map (·.dates) := by
  refine List.ext_getElem? fun i => ?_
  rw [List.getElem?_map, List.getElem?_map, getElem?_runs_withTree]
  split
  · next hi => rw [hi, getElem?_shownRun]; rfl
  · rfl

/-- A date that has been chosen is found where the selection says. -/
theorem resolved_setDate {date : String} {change : Change α} (hok : d.setDate date = .ok change) :
    change.diagram.Resolved ∧ change.diagram.selection.date = date := by
  cases found : Series.locate? d.runs date with
  | none =>
    rw [setDate_of_not_found found] at hok
    cases hok
  | some place =>
    obtain ⟨run, index⟩ := place
    obtain ⟨events, hevents⟩ := setDate_of_found found
    cases hevents.symm.trans hok
    exact ⟨(locate?_congr (map_dates_withTree _ _) date).trans found, rfl⟩

/-- **The date on show is chosen again**: nothing changes, and everything is kept where it is. -/
theorem Sound.setDate_again (h : d.Sound) (hresolved : d.Resolved) :
    ∃ again, d.setDate d.selection.date = .ok again ∧ again.diagram = d ∧
      again.pass = (d.view.portrait d.shownRun.tree.spots).map d.view.keep := by
  obtain ⟨events, hok⟩ := setDate_of_found hresolved
  exact ⟨_, hok, h.render_eq _, d.view.pass_of_settled h.ids_eq h.placed⟩

/-- A run that is drawn is aimed at its picture. -/
theorem aims_setDate {date : String} {change : Change α} (hok : d.setDate date = .ok change) :
    ∀ e ∈ change.diagram.view.portrait change.diagram.shownRun.tree.spots,
      View.Aims change.pass e := by
  have hanswer : d.answer (.setDate date) = some change := by
    rw [answer, hok]
    rfl
  cases answers_of_answer hanswer with
  | @setDate _ run index found events =>
    intro e he
    have htree := shownRun_withTree (d.withDate date run index (Series.locate?_run_lt found))
      ((d.withDate date run index (Series.locate?_run_lt found)).view.reconcile (some d.current)
        (d.withDate date run index (Series.locate?_run_lt found)).shownRun.tree).new
    refine View.aims_reconcile _ (some d.current) _ e ?_
    rw [← htree]
    exact he

end Diagram

/-! ### One date chosen twice -/

namespace Session

/-- **A date that is chosen twice in a row changes nothing the second time.**  After any sequence of
changes, a date that can be chosen can be chosen again.  Nothing then comes or goes: there is one directive
for each element of the tree that has been drawn, first for the nodes, then for the edges, then for their
labels, and each of them sends its element where the first pass has sent it.  The whole diagram stays as it
is, with all nodes of all runs. -/
theorem repeated_date_changes_nothing (doc : Document α) (settings : Settings α)
    (initial : InitialSelection) (steps : List (Step α)) {date : String} {first : Change α}
    (hfirst : (play doc settings initial steps).diagram.setDate date = .ok first) :
    ∃ second, first.diagram.setDate date = .ok second ∧
      second.diagram = first.diagram ∧
      (∀ d ∈ second.pass, d.isUpdate = true) ∧
      second.pass.map (·.key) = keysOf first.diagram.current.ids ∧
      (second.pass.map (·.key)).Nodup ∧
      (second.pass.map (·.key)).Perm first.diagram.current.elementKeys ∧
      ∀ d ∈ second.pass, ∃ aimed look, first.pass.find? d.key = some aimed ∧
        aimed.goal? = some look ∧ d.goal? = some look := by
  have hbefore := sound_play doc settings initial steps
  generalize (play doc settings initial steps).diagram = d at *
  have hanswer : d.answer (.setDate date) = some first := by
    rw [Diagram.answer, hfirst]
    rfl
  have hsound := hbefore.answer hanswer
  obtain ⟨hresolved, hdate⟩ := Diagram.resolved_setDate hfirst
  obtain ⟨second, hsecond, hsame, hpass⟩ := hsound.setDate_again hresolved
  rw [hdate] at hsecond
  have hkeys : second.pass.map (·.key) = keysOf first.diagram.current.ids := by
    rw [hpass, List.map_map, hsound.ids_eq, ← Hierarchy.spots_map_id, ← View.map_key_portrait]
    rfl
  have hdistinct : first.diagram.current.ids.Nodup := Hierarchy.ids_nodup hsound.current_named.distinct
  have hnodup : (first.pass.map (·.key)).Nodup :=
    (Diagram.answer_spec hbefore.steady hanswer).2.nodup
  refine ⟨second, hsecond, hsame, fun dir hdir => ?_, hkeys, hkeys ▸ nodup_keysOf hdistinct, ?_,
    fun dir hdir => ?_⟩
  · rw [hpass] at hdir
    obtain ⟨e, -, rfl⟩ := List.mem_map.mp hdir
    rfl
  · rw [hkeys, hsound.pruned]
    exact (Hierarchy.elementKeys_prune _).symm
  · rw [hpass] at hdir
    obtain ⟨e, he, rfl⟩ := List.mem_map.mp hdir
    obtain ⟨aimed, hmem, hkey, hgoal⟩ := Diagram.aims_setDate hfirst e he
    refine ⟨aimed, e.visual, ?_, hgoal, rfl⟩
    show first.pass.find? e.key = some aimed
    rw [← hkey]
    exact find?_of_nodup_map (fun dir : Directive α => dir.key) hnodup hmem

/-- The group of the first run is folded, and the second run, in which it is not, is chosen twice. -/
theorem repeated_date_changes_nothing_switched :
    ∃ first second,
      (play twoRuns .default {} [.toggleBranch "R_G"]).diagram.setDate "2" = .ok first ∧
      first.diagram.setDate "2" = .ok second ∧
      second.diagram = first.diagram ∧
      second.pass.map (·.key) = [⟨.node, "R"⟩, ⟨.node, "R_G"⟩, ⟨.edge, "R_G"⟩, ⟨.edgeLabel, "R_G"⟩] := by
  have hids : ((play twoRuns .default {} [.toggleBranch "R_G"]).diagram.setDate "2").toOption.map
      (·.diagram.current.ids) = some ["R", "R_G"] := by decide +kernel
  cases hfirst : (play twoRuns .default {} [.toggleBranch "R_G"]).diagram.setDate "2" with
  | error e =>
    rw [hfirst] at hids
    cases hids
  | ok first =>
    have hcurrent : first.diagram.current.ids = ["R", "R_G"] := by
      rw [hfirst] at hids
      exact Option.some.inj hids
    obtain ⟨second, hsecond, hsame, -, hkeys, -⟩ :=
      repeated_date_changes_nothing twoRuns .default {} [.toggleBranch "R_G"] hfirst
    rw [hcurrent] at hkeys
    exact ⟨first, second, rfl, hsecond, hsame, hkeys⟩

end Session

end FlowTree
