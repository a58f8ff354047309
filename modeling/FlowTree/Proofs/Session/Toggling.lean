import FlowTree.Proofs.Hierarchy.Listing
import FlowTree.Proofs.Plan
import FlowTree.Proofs.Session.Sound

/-!
# Toggling a node twice

A node that is folded and unfolded again, or unfolded and folded again, leaves a diagram as it was, and the
second pass is the first one backwards: it creates what the first one has removed, out of the points into
which it was folded, and removes what the first one has created, into the points out of which it grew.

* **`Pass.idsOf`** are the nodes with whose elements a pass does the same; **`Pass.idsOf_eq`** reads them off
  the plan of the pass.
* **`Pass.Reverses`** says that one pass removes what another one creates, point for point;
  **`Pass.reverses_of_plans`** says it of passes between the same two trees.
* **`Hierarchy.entryPoint_eq_exitPoint`** says that the rule for what comes undoes the rule for what goes.
* **`Session.toggling_twice_restores`** is what follows for a diagram.
-/

namespace FlowTree

variable {α : Type}

/-! ### Passes that mirror each other -/

namespace Pass

/-- The ids of the elements of one kind with which a pass does the same, in the order of the pass. -/
def idsOf (p : Pass α) (action : Action) (kind : ElementKind) : List String :=
  (p.filter fun d => d.action = action ∧ d.key.kind = kind).map (·.key.id)

/-- What the first pass removes the second one creates, kind by kind and in the same order, and nothing
else; the second one creates the node at the point into which the elements of the node were to fold, and
the edge as a line without length at the same point. -/
structure Reverses (p q : Pass α) : Prop where
  ids : ∀ kind, p.idsOf .remove kind = q.idsOf .create kind
  points : ∀ key toward ms, .remove key toward ms ∈ p →
    ∃ look line goal goal' ms₁ ms₂,
      q.find? ⟨.node, key.id⟩ = some (.create ⟨.node, key.id⟩ (.node look) goal ms₁) ∧
        look.position = toward ∧
      q.find? ⟨.edge, key.id⟩ = some (.create ⟨.edge, key.id⟩ (.edge line) goal' ms₂) ∧
        line.path = .collapsed toward

/-- Each of two passes creates what the other one removes. -/
def Mirrors (p q : Pass α) : Prop := p.Reverses q ∧ q.Reverses p

end Pass

/-- The nodes that have elements of some kind: the root, the first one, has a node only. -/
def bearers (kind : ElementKind) (ids : List String) : List String :=
  match kind with
  | .node => ids
  | .edge | .edgeLabel => ids.tail

namespace Pass

/-- **What a pass does with the elements of one kind** follows from its plan. -/
theorem idsOf_eq {p : Pass α} {old new : List String}
    (hplan : p.map (fun d => (d.action, d.key)) = plan old new) (kind : ElementKind) :
    p.idsOf .create kind = (KeyDiff.of (bearers kind old) (bearers kind new)).entering ∧
      p.idsOf .remove kind = (KeyDiff.of (bearers kind old) (bearers kind new)).exiting := by
  have hids : ∀ action, p.idsOf action kind =
      ((plan old new).filter fun x => x.1 = action ∧ x.2.kind = kind).map (·.2.id) := by
    intro action
    rw [idsOf, ← hplan, List.filter_map, List.map_map]
    rfl
  rw [hids, hids]
  cases kind <;> simp [plan, planOf, bearers, KeyDiff.of, List.filter_map, Function.comp_def]

/-- With distinct keys a directive is found by its key. -/
theorem find?_of_mem {p : Pass α} (hnodup : (p.map (·.key)).Nodup) {d : Directive α} (hd : d ∈ p) :
    p.find? d.key = some d :=
  find?_of_nodup_map (fun d : Directive α => d.key) hnodup hd

/-- What the plan says is created is created. -/
theorem exists_find?_create {p : Pass α} {old new : List String}
    (hplan : p.map (fun d => (d.action, d.key)) = plan old new) (hnodup : (p.map (·.key)).Nodup)
    (kind : ElementKind) {id : String} (hid : id ∈ bearers kind new) (hfresh : id ∉ bearers kind old) :
    ∃ source goal ms, .create ⟨kind, id⟩ source goal ms ∈ p ∧
      p.find? ⟨kind, id⟩ = some (.create ⟨kind, id⟩ source goal ms) := by
  have hmem : id ∈ p.idsOf .create kind := by
    rw [(idsOf_eq hplan kind).1, KeyDiff.of, List.mem_filter]
    exact ⟨hid, by simpa using hfresh⟩
  obtain ⟨d, hd, hkey⟩ := List.mem_map.mp hmem
  obtain ⟨hd, haction⟩ := List.mem_filter.mp hd
  rw [decide_eq_true_eq] at haction
  cases d with
  | create key source goal ms =>
    obtain rfl : key = ⟨kind, id⟩ := by
      obtain ⟨k, i⟩ := key
      rw [show k = kind from haction.2, show i = id from hkey]
    exact ⟨source, goal, ms, hd, find?_of_mem hnodup hd⟩
  | update key goal ms => cases haction.1
  | remove key toward ms => cases haction.1

end Pass

namespace Hierarchy

/-! ### Points -/

theorem mem_ids_iff {h : Hierarchy α} {id : String} : id ∈ h.ids ↔ (h.node? id).isSome = true := by
  rw [node?, List.find?_isSome, ids, List.mem_map]
  refine exists_congr fun n => and_congr_right fun _ => ?_
  rw [beq_iff_eq]

/-- A node whose root is on show in another tree has kin there. -/
theorem exists_kin? {h other : Hierarchy α} (hn : h.Named)
    (hroot : h.root.id ∈ other.ids) {id : String} (hid : id ∈ h.ids) (hgone : id ∉ other.ids) :
    ∃ k, h.kin? other id = some k := by
  obtain ⟨n, hmem, rfl⟩ := List.mem_map.mp hid
  obtain ⟨above, hx⟩ := Tree.exists_mem_lineages (mem_tree_of_mem_descendants hmem)
  have hlast : above.getLast?.getD n = h.root := Tree.getLast_lineages hx
  rw [← Option.isSome_iff_exists, kin?, ancestors_eq hn.distinct hx, List.findSome?_isSome_iff]
  cases hgot : above.getLast? with
  | none =>
    rw [hgot, Option.getD_none] at hlast
    exact absurd (hlast ▸ hroot) hgone
  | some r =>
    rw [hgot, Option.getD_some] at hlast
    exact ⟨r, List.mem_of_getLast? hgot, by rw [hlast]; exact mem_ids_iff.mp hroot⟩

/-- **The rule for what comes undoes the rule for what goes.**  A node that has gone comes back out of the
point into which it was folded, since the ancestor in question has come to rest. -/
theorem entryPoint_eq_exitPoint {old new : Hierarchy α} (hold : old.Named) (hnewRest : new.AtRest)
    (hroot : old.root.id ∈ new.ids) {id : String} (hid : id ∈ old.ids) (hgone : id ∉ new.ids)
    (rootStart : Point α) :
    new.entryPoint old rootStart id = old.exitPoint new id := by
  obtain ⟨k, hk⟩ := exists_kin? hold hroot hid hgone
  rw [entryPoint, exitPoint, hk, Option.map_some, Option.getD_some, Option.getD_some]
  obtain ⟨a, -, ha⟩ := List.exists_of_findSome?_eq_some hk
  obtain ⟨hmem, -⟩ := mem_of_find?_id ha
  exact (hnewRest k (mem_tree_of_mem_descendants hmem)).2.1

end Hierarchy

/-- **Passes between the same two trees reverse each other** if both show the same root. -/
theorem Pass.reverses_of_plans {p q : Pass α} {old new : Hierarchy α} {rootStart rootStart' : Point α}
    (hold : old.Named) (hnewRest : new.AtRest) (hroot : old.root.id ∈ new.ids)
    (hp : p.map (fun d => (d.action, d.key)) = plan old.ids new.ids)
    (hq : q.map (fun d => (d.action, d.key)) = plan new.ids old.ids)
    (hnodup : (q.map (·.key)).Nodup) (hpkin : p.FollowsKin old new rootStart)
    (hqkin : q.FollowsKin new old rootStart') : p.Reverses q := by
  constructor
  · intro kind
    rw [(idsOf_eq hp kind).2, (idsOf_eq hq kind).1]
    rfl
  · intro key toward ms hd
    obtain ⟨hexit, rfl⟩ := hpkin.remove key toward ms hd
    obtain ⟨hid, hgone⟩ := List.mem_filter.mp hexit
    rw [Bool.not_eq_true', List.contains_eq_mem, decide_eq_false_iff_not] at hgone
    have hinner : key.id ∈ old.ids.tail := by
      rw [old.ids_eq_cons] at hid
      rcases List.mem_cons.mp hid with heq | htail
      · exact absurd (heq ▸ hroot) hgone
      · exact htail
    obtain ⟨source, goal, ms₁, hnode, hfind⟩ :=
      exists_find?_create hq hnodup .node hid hgone
    obtain ⟨source', goal', ms₂, hedge, hfind'⟩ :=
      exists_find?_create hq hnodup .edge hinner fun h => hgone (List.mem_of_mem_tail h)
    obtain ⟨look, rfl, hlook⟩ := hqkin.createNode _ _ _ _ hnode
    obtain ⟨line, rfl, hline⟩ := hqkin.createEdge _ _ _ _ hedge
    rw [Hierarchy.entryPoint_eq_exitPoint hold hnewRest hroot hid hgone] at hlook hline
    exact ⟨look, line, goal, goal', ms₁, ms₂, hfind, hlook, hfind', hline⟩

variable [Scalar α] [Printed α]

/-! ### A node that is toggled twice -/

namespace Diagram

/-- The frame of the run on show is as before. -/
theorem frame_shownRun_refolded_refolded (d : Diagram α) (id : String) (events events' : List Event) :
    ((d.refolded id events).diagram.refolded id events').diagram.shownRun.tree.frame =
      d.shownRun.tree.frame := by
  rw [frame_shownRun_refolded, Hierarchy.frame_refold_congr (d.frame_shownRun_refolded id events),
    Hierarchy.refold_refold]

theorem frames_refolded_refolded (d : Diagram α) (id : String) (events events' : List Event) (i : Nat) :
    ((d.refolded id events).diagram.refolded id events').diagram.runs[i]?.map (·.tree.frame) =
      d.runs[i]?.map (·.tree.frame) := by
  by_cases hi : i = d.selection.run
  · have hselection : ((d.refolded id events).diagram.refolded id events').diagram.selection =
        d.selection := by simp only [selection_refolded]
    have hrun := getElem?_shownRun ((d.refolded id events).diagram.refolded id events').diagram
    rw [hselection] at hrun
    rw [hi, hrun, getElem?_shownRun, Option.map_some, Option.map_some, frame_shownRun_refolded_refolded]
  · rw [getElem?_runs_refolded _ _ _ _ (by simpa using hi), getElem?_runs_refolded _ _ _ _ hi]

namespace Sound

variable {d : Diagram α}

/-- The root stays on show. -/
theorem root_mem_refolded (h : d.Sound) (id : String) (events : List Event) :
    d.current.root.id ∈ (d.refolded id events).diagram.current.ids := by
  have hroot : d.current.root.id ∈ d.current.ids := by
    rw [d.current.ids_eq_cons]
    exact List.mem_cons_self
  refine h.mem_ids_refolded hroot ?_ events
  rw [Hierarchy.root, Hierarchy.ancestors_eq h.current_named.distinct d.current.tree.value_mem_lineages]
  exact List.not_mem_nil

/-- The pass of a node that is folded or unfolded: its plan, its keys and its points. -/
theorem pass_refolded (h : d.Sound) (id : String) (events : List Event) :
    (d.refolded id events).pass.map (fun dir => (dir.action, dir.key)) =
        plan d.current.ids (d.refolded id events).diagram.current.ids ∧
      ((d.refolded id events).pass.map (·.key)).Nodup ∧
      ∃ rootStart, (d.refolded id events).pass.FollowsKin d.current
        (d.refolded id events).diagram.current rootStart := by
  have hshown : (d.withTree (d.shownRun.tree.refold id)).shownRun.tree = d.shownRun.tree.refold id :=
    shownRun_withTree d _
  have hnamed : (d.shownRun.tree.refold id).Named :=
    h.shown_named.of_skeleton (Hierarchy.skeleton_refold id _)
  refine ⟨?_, ?_, _, followsKin_render h.current_named h.atRest ?_⟩
  · rw [h.ids_refolded, ← hshown]
    exact View.map_action_reconcile _ _ _
  · refine (render_spec (d := d.withTree _) ?_ (?_ : (View.oldIds (some d.current)).Nodup)).2.nodup
    · exact forall_withTree (fun r hr => (h.named r hr).distinct) hnamed.distinct
    · exact Hierarchy.ids_nodup h.current_named.distinct
  · rw [hshown]
    exact hnamed

/-- What is drawn after a node has been folded and unfolded, or the other way round. -/
theorem current_refolded_refolded (h : d.Sound) (id : String) (events events' : List Event) :
    ((d.refolded id events).diagram.refolded id events').diagram.current = d.current := by
  rw [((h.refolded id events).refolded id events').current_eq, h.current_eq]
  exact Hierarchy.drawn_congr (d.frame_shownRun_refolded_refolded id events events') d.canvas

/-- What goes with the first change comes back with the second one, and the other way round. -/
theorem mirrors_refolded_refolded (h : d.Sound) (id : String) (events events' : List Event) :
    (d.refolded id events).pass.Mirrors
      ((d.refolded id events).diagram.refolded id events').pass := by
  have h₁ := h.refolded id events
  obtain ⟨hplan, hnodup, rootStart, hkin⟩ := h.pass_refolded id events
  obtain ⟨hplan', hnodup', rootStart', hkin'⟩ := h₁.pass_refolded id events'
  have hback := h₁.root_mem_refolded id events'
  rw [h.current_refolded_refolded] at hplan' hkin' hback
  exact ⟨Pass.reverses_of_plans h.current_named h₁.atRest (h.root_mem_refolded id events) hplan hplan'
      hnodup' hkin hkin',
    Pass.reverses_of_plans h₁.current_named h.atRest hback hplan' hplan hnodup hkin' hkin⟩

omit [Printed α] in
/-- The frames of the runs decide the lists of children of all nodes. -/
theorem links_congr {d' : Diagram α} (h : d.Sound) (h' : d'.Sound)
    (hframes : ∀ i : Nat, d.runs[i]?.map (·.tree.frame) = d'.runs[i]?.map (·.tree.frame)) :
    d.runs.map (·.tree.links) = d'.runs.map (·.tree.links) := by
  apply List.ext_getElem?
  intro i
  rw [List.getElem?_map, List.getElem?_map]
  have hframe := hframes i
  cases hr : d.runs[i]? with
  | none =>
    rw [hr, Option.map_none, eq_comm, Option.map_eq_none_iff] at hframe
    rw [hframe]
  | some r =>
    rw [hr, Option.map_some, eq_comm, Option.map_eq_some_iff] at hframe
    obtain ⟨r', hr', hframe⟩ := hframe
    rw [hr', Option.map_some, Option.map_some]
    refine congrArg some (Hierarchy.links_congr ?_ hframe.symm)
    rw [h.listed r (List.mem_of_getElem? hr), h'.listed r' (List.mem_of_getElem? hr')]

end Sound

end Diagram

namespace Session

/-- **Toggling a node twice restores the diagram.**  After any sequence of changes, whenever a node can be
folded or unfolded, it can be so once more.  Then what has been drawn is exactly as it was before, and so
are the selection and, in every run and at every node, the lists of the children that are on show and of
those that are not, however many branches below are folded themselves.  The two passes mirror each
other. -/
theorem toggling_twice_restores (doc : Document α) (settings : Settings α) (initial : InitialSelection)
    (steps : List (Step α)) {id : String} {first : Change α}
    (hok : (play doc settings initial steps).diagram.toggleBranch id = .ok first) :
    ∃ second, first.diagram.toggleBranch id = .ok second ∧
      second.diagram.current = (play doc settings initial steps).diagram.current ∧
      second.diagram.selection = (play doc settings initial steps).diagram.selection ∧
      second.diagram.runs.map (·.tree.links) =
        (play doc settings initial steps).diagram.runs.map (·.tree.links) ∧
      first.pass.Mirrors second.pass := by
  have h := sound_play doc settings initial steps
  generalize (play doc settings initial steps).diagram = d at *
  obtain ⟨hid, events, rfl⟩ := h.eq_refolded hok
  have h₁ := h.refolded id events
  obtain ⟨events', hsecond⟩ := h₁.toggleBranch_of_mem (h.self_mem_ids_refolded hid events)
  refine ⟨_, hsecond, h.current_refolded_refolded id events events', rfl, ?_,
    h.mirrors_refolded_refolded id events events'⟩
  exact (h₁.refolded id events').links_congr h (d.frames_refolded_refolded id events events')

/-- A root is folded above a group that is folded already, and unfolded again: the group comes back out of
the root, and its well stays away. -/
theorem toggling_twice_restores_folded :
    ∃ first second,
      (play twoRuns .default {} [.toggleBranch "R_G"]).diagram.toggleBranch "R" = .ok first ∧
      first.diagram.toggleBranch "R" = .ok second ∧
      second.pass.idsOf .create .node = ["R_G"] ∧
      second.diagram.current = (play twoRuns .default {} [.toggleBranch "R_G"]).diagram.current ∧
      first.pass.Mirrors second.pass := by
  have hremoved : ((play twoRuns .default {} [.toggleBranch "R_G"]).diagram.toggleBranch
      "R").toOption.map (fun c => c.pass.idsOf .remove .node) = some ["R_G"] := by decide +kernel
  cases hok : (play twoRuns .default {} [.toggleBranch "R_G"]).diagram.toggleBranch "R" with
  | error e =>
    rw [hok] at hremoved
    cases hremoved
  | ok first =>
    rw [hok] at hremoved
    obtain ⟨second, hsecond, hcurrent, -, -, hmirrors⟩ :=
      toggling_twice_restores twoRuns .default {} [.toggleBranch "R_G"] hok
    refine ⟨first, second, rfl, hsecond, ?_, hcurrent, hmirrors⟩
    rw [← hmirrors.1.ids]
    exact Option.some.inj hremoved

end Session

end FlowTree
