import FlowTree.Proofs.Hierarchy.Reached
import FlowTree.Proofs.Session.Resolving

/-!
# What is refused

A node can be folded or unfolded just if it is on show, and a date can be chosen just if some run lists it.
What is refused leaves no trace.

* **`Diagram.Sound.toggleBranch_iff`** and **`Diagram.setDate_iff`** say what is refused.
* **`Diagram.Sound.toggled_at`** says that the node on show is the one that is folded or unfolded.
* **`Session.step_of_refused`** says that nothing else happens; **`Session.refusals_leave_no_trace`** is what
  follows for sessions.
-/

namespace FlowTree

variable {α : Type} [Scalar α] [Printed α]

namespace Diagram

variable {d : Diagram α}

/-! ### Nodes -/

/-- **Just the nodes on show can be folded or unfolded.** -/
theorem Sound.toggleBranch_iff (h : d.Sound) (id : String) :
    d.toggleBranch id = .error (.unknownNode id) ↔
      ¬∃ i s, Hierarchy.Reached d.shownRun.tree.slots i ∧ d.shownRun.tree.slots[i]? = some s ∧
        s.node.id = id := by
  rw [Hierarchy.exists_reached_iff, ← h.ids_eq]
  constructor
  · intro herror hid
    obtain ⟨events, hok⟩ := h.toggleBranch_of_mem hid
    rw [hok] at herror
    cases herror
  · intro hid
    refine toggleBranch_eq_error fun hboth => hid ?_
    rw [h.pruned, ← Hierarchy.contains_prune_iff, ← h.pruned]
    exact hboth.1

/-- A node on show is found at its own position, its lists of children are exchanged there, and nothing else
changes in any run. -/
structure TogglesAt (d : Diagram α) (id : String) (i : Nat) (change : Change α) : Prop where
  found : d.shownRun.tree.find? id = some i
  selection : change.diagram.selection = d.selection
  links : change.diagram.shownRun.tree.links =
    d.shownRun.tree.links.modify i fun x => (x.1, x.2.2, x.2.1)
  others : ∀ j, j ≠ d.selection.run → change.diagram.runs[j]? = d.runs[j]?

/-- **The node on show is the one that is folded or unfolded.** -/
theorem Sound.toggled_at (h : d.Sound) {i : Nat} {s : Hierarchy.Slot α}
    (hreached : Hierarchy.Reached d.shownRun.tree.slots i) (hs : d.shownRun.tree.slots[i]? = some s) :
    ∃ change, d.toggleBranch s.node.id = .ok change ∧ d.TogglesAt s.node.id i change := by
  have hid : s.node.id ∈ d.current.ids := by
    rw [h.ids_eq, ← Hierarchy.exists_reached_iff]
    exact ⟨i, s, hreached, hs, rfl⟩
  have hdistinct := h.shown_named.distinct
  obtain ⟨events, hok⟩ := h.toggleBranch_of_mem hid
  refine ⟨_, hok, Hierarchy.find?_eq_some hdistinct hs, rfl, ?_, fun j hj => ?_⟩
  · rw [← Hierarchy.links_refold_at hdistinct hs]
    refine Hierarchy.links_congr ?_ (d.frame_shownRun_refolded _ events)
    rw [(h.refolded s.node.id events).listed _ (shownRun_mem _)]
    exact (h.listed _ d.shownRun_mem).symm
  · have hsame := getElem?_runs_refolded id d s.node.id events hj
    rwa [Option.map_id] at hsame

/-! ### Dates -/

/-- **Just the dates that some run lists can be chosen.** -/
theorem setDate_iff (d : Diagram α) (date : String) :
    (d.setDate date = .error (.unknownDate date) ↔ ∀ r ∈ d.runs, date ∉ r.dates) ∧
      ((∃ r ∈ d.runs, date ∈ r.dates) → ∃ change, d.setDate date = .ok change) := by
  have hlisted : (Series.locate? d.runs date).isSome = true ↔ ∃ r ∈ d.runs, date ∈ r.dates := by
    rw [Series.isSome_locate?_iff, Series.dates, List.mem_flatMap]
  cases hfound : Series.locate? d.runs date with
  | none =>
    have hnot : ¬∃ r ∈ d.runs, date ∈ r.dates := by
      rw [← hlisted, hfound]
      exact Bool.false_ne_true
    refine ⟨iff_of_true (setDate_of_not_found hfound) ?_, fun hsome => absurd hsome hnot⟩
    exact fun r hr hdate => hnot ⟨r, hr, hdate⟩
  | some place =>
    obtain ⟨run, index⟩ := place
    obtain ⟨events, hok⟩ := setDate_of_found hfound
    obtain ⟨r, hr, hdate⟩ := hlisted.mp (hfound ▸ rfl)
    refine ⟨iff_of_false ?_ fun hnone => hnone r hr hdate, fun _ => ⟨_, hok⟩⟩
    rw [hok]
    exact fun herror => by cases herror

/-! ### Refusals -/

/-- What is refused is not answered. -/
theorem answer_of_refused {st : Step α} {e : DiagramError} (h : d.reply st = some (.error e)) :
    d.answer st = none := by
  cases st with
  | setDate date =>
    rw [answer]
    cases hdate : d.setDate date with
    | error e => rfl
    | ok change =>
      rw [reply, hdate] at h
      cases h
  | toggleBranch id =>
    rw [answer]
    cases hid : d.toggleBranch id with
    | error e => rfl
    | ok change =>
      rw [reply, hid] at h
      cases h
  | setEdgeAttribute key => cases h
  | setNodeAttribute key => cases h
  | advance ms => cases h

theorem next_of_refused {st : Step α} {e : DiagramError} (h : d.reply st = some (.error e)) :
    d.next st = d := by
  rw [next, answer_of_refused h]
  rfl

end Diagram

namespace Session

/-- **A refusal changes nothing.** -/
theorem step_of_refused {s : Session α} {st : Step α} {e : DiagramError}
    (h : s.diagram.reply st = some (.error e)) : s.step st = s := by
  have hfollow : s.follow (s.diagram.answer st) = s := by
    rw [Diagram.answer_of_refused h]
    rfl
  cases st with
  | advance ms => cases h
  | setDate date => exact hfollow
  | toggleBranch id => exact hfollow
  | setEdgeAttribute key => exact hfollow
  | setNodeAttribute key => exact hfollow

/-- **Refusals leave no trace.**  After any sequence of changes, folding or unfolding is refused for every id
but those of the nodes that one comes to from the root of the run on show through the lists of children; for
these it is done to the very node that is come to.  A date is refused if no run lists it and for no other
reason.  Whatever is refused, diagram and scene stay as they are, and all that comes later is answered as if
nothing had been asked. -/
theorem refusals_leave_no_trace (doc : Document α) (settings : Settings α) (initial : InitialSelection)
    (steps : List (Step α)) :
    (∀ id, (play doc settings initial steps).diagram.toggleBranch id = .error (.unknownNode id) ↔
      ¬∃ i s, Hierarchy.Reached (play doc settings initial steps).diagram.shownRun.tree.slots i ∧
        (play doc settings initial steps).diagram.shownRun.tree.slots[i]? = some s ∧ s.node.id = id) ∧
    (∀ i s, Hierarchy.Reached (play doc settings initial steps).diagram.shownRun.tree.slots i →
      (play doc settings initial steps).diagram.shownRun.tree.slots[i]? = some s →
      ∃ change, (play doc settings initial steps).diagram.toggleBranch s.node.id = .ok change ∧
        (play doc settings initial steps).diagram.TogglesAt s.node.id i change) ∧
    (∀ date,
      ((play doc settings initial steps).diagram.setDate date = .error (.unknownDate date) ↔
        ∀ r ∈ (play doc settings initial steps).diagram.runs, date ∉ r.dates) ∧
      ((∃ r ∈ (play doc settings initial steps).diagram.runs, date ∈ r.dates) →
        ∃ change, (play doc settings initial steps).diagram.setDate date = .ok change)) ∧
    ∀ st e, (play doc settings initial steps).diagram.reply st = some (.error e) →
      (play doc settings initial steps).step st = play doc settings initial steps ∧
      (play doc settings initial steps).diagram.next st = (play doc settings initial steps).diagram ∧
      ∀ later, play doc settings initial (steps ++ st :: later) =
          play doc settings initial (steps ++ later) ∧
        (play doc settings initial steps).diagram.replies (st :: later) =
          some (.error e) :: (play doc settings initial steps).diagram.replies later := by
  have h := sound_play doc settings initial steps
  refine ⟨h.toggleBranch_iff, fun i s hi hs => h.toggled_at hi hs, Diagram.setDate_iff _,
    fun st e hrefused => ?_⟩
  have hstep := step_of_refused hrefused
  have hnext := Diagram.next_of_refused hrefused
  refine ⟨hstep, hnext, fun later => ⟨?_, ?_⟩⟩
  · have hsplit : ∀ more, play doc settings initial (steps ++ more) =
        (play doc settings initial steps).run more := by
      intro more
      rw [play, run, List.foldl_append]
      rfl
    rw [hsplit, hsplit, run, List.foldl_cons, hstep, run]
  · rw [Diagram.replies, hrefused, hnext]

end Session

end FlowTree
