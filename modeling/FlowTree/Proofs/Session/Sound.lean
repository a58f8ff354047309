import FlowTree.Proofs.Hierarchy.Refolding
import FlowTree.Proofs.Session.Kin

/-!
# Diagrams in order

Whatever has been asked of a diagram, what it takes for drawn is the tree of the run on show, placed and at
rest, and the run itself holds this tree as it is drawn.

* **`Diagram.Sound`** says so; **`Diagram.sound_render`** establishes it, **`Diagram.Sound.answer`** keeps
  it over every answer and **`Session.sound_play`** over any sequence of changes.
* **`Diagram.Sound.placed`** says that the nodes on show are where they belong.
* **`Diagram.refolded`** is the answer to a node that is folded or unfolded;
  **`Diagram.Sound.toggleBranch_of_mem`** says that it is given for every node on show.
-/

namespace FlowTree

variable {α : Type}

namespace Hierarchy

/-- A pruned hierarchy holds the nodes on show. -/
theorem contains_prune_iff {h : Hierarchy α} {id : String} :
    h.prune.contains id = true ↔ id ∈ h.prune.ids := by
  rw [contains, List.any_eq_true, ← nodes_prune_map_id, List.mem_map]
  refine exists_congr fun n => and_congr_right fun _ => ?_
  rw [beq_iff_eq]

end Hierarchy

variable [Scalar α]

/-- The runs of a series are listed depth first. -/
theorem Series.listing_build (trees : List (DatedTree α)) (canvas : Canvas α) :
    ∀ r ∈ build trees canvas, r.tree.listing = .depthFirst := by
  intro r hr
  obtain ⟨t, -, rfl⟩ := List.mem_map.mp hr
  rfl

namespace Diagram

/-- In all runs the ids name the nodes, which are listed depth first; what has been drawn is the tree of the
run on show, placed and at rest, and this run holds what has been drawn. -/
structure Sound (d : Diagram α) : Prop where
  named : ∀ r ∈ d.runs, r.tree.Named
  listed : ∀ r ∈ d.runs, r.tree.listing = .depthFirst
  current_eq : d.current = d.shownRun.tree.drawn d.canvas
  pruned : d.current = d.shownRun.tree.prune

namespace Sound

variable {d : Diagram α}

theorem shown_named (h : d.Sound) : d.shownRun.tree.Named := h.named _ d.shownRun_mem

theorem current_named (h : d.Sound) : d.current.Named := by
  rw [h.pruned]
  exact h.shown_named.prune

theorem atRest (h : d.Sound) : d.current.AtRest := by
  rw [h.current_eq]
  exact Hierarchy.atRest_drawn _ _

theorem ids_eq (h : d.Sound) : d.current.ids = d.shownRun.tree.ids := by
  rw [h.pruned, Hierarchy.ids_prune]

/-- The nodes on show are where they belong. -/
theorem placed (h : d.Sound) : d.shownRun.tree.Placed d.canvas := by
  have htrees := congrArg (fun k => k.tree.map (·.finish)) (h.pruned.symm.trans h.current_eq)
  rw [Hierarchy.drawn_eq, Hierarchy.prune, Tree.map_map, Tree.map_map] at htrees
  rw [Hierarchy.Placed, ← Hierarchy.map_finish_layout]
  exact htrees

end Sound

variable [Printed α]

/-! ### Drawing the run on show -/

theorem frame_shownRun_render (d : Diagram α) (before : Option (Hierarchy α)) :
    (d.render before).diagram.shownRun.tree.frame = d.shownRun.tree.frame := by
  show (d.withTree _).shownRun.tree.frame = _
  rw [shownRun_withTree, d.view.frame_new]

/-- **Drawing the run on show** puts a diagram in order. -/
theorem sound_render {d : Diagram α} (hnamed : ∀ r ∈ d.runs, r.tree.Named)
    (hlisted : ∀ r ∈ d.runs, r.tree.listing = .depthFirst) (before : Option (Hierarchy α)) :
    (d.render before).diagram.Sound := by
  refine ⟨forall_withTree hnamed ?_, ?_, ?_, ?_⟩
  · exact (hnamed _ d.shownRun_mem).of_skeleton (d.view.skeleton_new before d.shownRun.tree)
  · exact forall_withTree (P := fun h => h.listing = .depthFirst) hlisted (hlisted _ d.shownRun_mem)
  · rw [Hierarchy.drawn_congr (frame_shownRun_render d before)]
    exact d.view.prune_new before d.shownRun.tree
  · show _ = (d.withTree _).shownRun.tree.prune
    rw [shownRun_withTree]
    rfl

/-- **Every answer** leaves a diagram in order. -/
theorem Sound.answer {d : Diagram α} (h : d.Sound) {st : Step α} {change : Change α}
    (hanswer : d.answer st = some change) : change.diagram.Sound := by
  cases answers_of_answer hanswer with
  | setDate found events =>
    exact sound_render (d := d.withDate _ _ _ (Series.locate?_run_lt found)) h.named h.listed _
  | @toggleBranch _ _ tree shown toggled events =>
    refine sound_render (d := d.withTree tree) (forall_withTree h.named ?_)
      (forall_withTree (P := fun h => h.listing = .depthFirst) h.listed ?_) _
    · exact h.shown_named.of_skeleton (Hierarchy.skeleton_toggle? toggled)
    · rw [Hierarchy.tree_of_toggle? toggled]
      exact h.listed _ d.shownRun_mem
  | setEdgeAttribute key => exact ⟨h.named, h.listed, h.current_eq, h.pruned⟩
  | setNodeAttribute key => exact ⟨h.named, h.listed, h.current_eq, h.pruned⟩

/-! ### Folding and unfolding a node on show -/

/-- The answer to a node that is folded or unfolded, whatever is reported. -/
def refolded (d : Diagram α) (id : String) (events : List Event) : Change α :=
  { (d.withTree (d.shownRun.tree.refold id)).render (some d.current) with events := events }

@[simp] theorem selection_refolded (d : Diagram α) (id : String) (events : List Event) :
    (d.refolded id events).diagram.selection = d.selection := rfl

@[simp] theorem view_refolded (d : Diagram α) (id : String) (events : List Event) :
    (d.refolded id events).diagram.view = d.view := rfl

omit [Scalar α] [Printed α] in
theorem getElem?_runs_withTree_of_ne {γ : Type} (g : Run α → γ) (d : Diagram α) (tree : Hierarchy α)
    {i : Nat} (hi : i ≠ d.selection.run) : (d.withTree tree).runs[i]?.map g = d.runs[i]?.map g := by
  rw [getElem?_runs_withTree, if_neg hi]

/-- Folding or unfolding a node changes no other run. -/
theorem getElem?_runs_refolded {γ : Type} (g : Run α → γ) (d : Diagram α) (id : String)
    (events : List Event) {i : Nat} (hi : i ≠ d.selection.run) :
    (d.refolded id events).diagram.runs[i]?.map g = d.runs[i]?.map g :=
  (getElem?_runs_withTree_of_ne g (d.withTree (d.shownRun.tree.refold id)) _ hi).trans
    (getElem?_runs_withTree_of_ne g d _ hi)

/-- A node of the drawn tree and of the run on show can be folded or unfolded. -/
theorem toggleBranch_of_contains {d : Diagram α} {id : String} (hcontains : d.current.contains id = true)
    (hmem : id ∈ d.shownRun.tree.tree.preorder.map (·.id)) :
    ∃ events, d.toggleBranch id = .ok (d.refolded id events) := by
  obtain ⟨toggle, htoggle⟩ := Hierarchy.exists_toggle? hmem
  rw [toggleBranch, if_pos hcontains, htoggle]
  exact ⟨_, rfl⟩

/-- No other node can. -/
theorem toggleBranch_eq_error {d : Diagram α} {id : String}
    (hnot : ¬(d.current.contains id = true ∧ id ∈ d.shownRun.tree.tree.preorder.map (·.id))) :
    d.toggleBranch id = .error (.unknownNode id) := by
  have hnone : (if d.current.contains id then d.shownRun.tree.toggle? id else none) = none := by
    split
    · next hcontains => exact Hierarchy.toggle?_eq_none fun hmem => hnot ⟨hcontains, hmem⟩
    · rfl
  rw [toggleBranch, hnone]

theorem frame_shownRun_refolded (d : Diagram α) (id : String) (events : List Event) :
    (d.refolded id events).diagram.shownRun.tree.frame = (d.shownRun.tree.refold id).frame := by
  refine (frame_shownRun_render _ _).trans ?_
  rw [shownRun_withTree]

namespace Sound

variable {d : Diagram α}

theorem refolded (h : d.Sound) (id : String) (events : List Event) :
    (d.refolded id events).diagram.Sound := by
  refine sound_render (forall_withTree h.named ?_)
    (forall_withTree (P := fun h => h.listing = .depthFirst) h.listed ?_) _
  · exact h.shown_named.of_skeleton (Hierarchy.skeleton_refold id _)
  · exact h.listed _ d.shownRun_mem

/-- What is on show after a node has been folded or unfolded. -/
theorem ids_refolded (h : d.Sound) (id : String) (events : List Event) :
    (d.refolded id events).diagram.current.ids = (d.shownRun.tree.refold id).ids := by
  rw [(h.refolded id events).ids_eq]
  refine Hierarchy.ids_congr ?_
  have hframe := congrArg (Tree.map fun v => (v.1, v.2.2)) (d.frame_shownRun_refolded id events)
  rwa [Hierarchy.frame, Hierarchy.frame, Tree.map_map, Tree.map_map] at hframe

/-- **A node on show can be folded or unfolded.** -/
theorem toggleBranch_of_mem (h : d.Sound) {id : String} (hid : id ∈ d.current.ids) :
    ∃ events, d.toggleBranch id = .ok (d.refolded id events) := by
  have hcontains : d.current.contains id = true := by
    rw [h.pruned] at hid ⊢
    exact Hierarchy.contains_prune_iff.mpr hid
  have hmem : id ∈ d.shownRun.tree.tree.preorder.map (·.id) := by
    rw [h.ids_eq] at hid
    obtain ⟨n, hn, rfl⟩ := List.mem_map.mp hid
    exact List.mem_map_of_mem (Hierarchy.mem_tree_of_mem_descendants hn)
  exact toggleBranch_of_contains hcontains hmem

/-- Only nodes on show can be folded or unfolded. -/
theorem eq_refolded (h : d.Sound) {id : String} {change : Change α}
    (hok : d.toggleBranch id = .ok change) :
    id ∈ d.current.ids ∧ ∃ events, change = d.refolded id events := by
  have hid : id ∈ d.current.ids := by
    by_contra hid
    rw [toggleBranch_eq_error] at hok
    · cases hok
    · rw [h.pruned, Hierarchy.contains_prune_iff, ← h.pruned]
      exact fun hboth => hid hboth.1
  obtain ⟨events, hevents⟩ := h.toggleBranch_of_mem hid
  rw [hevents] at hok
  exact ⟨hid, events, (Except.ok.inj hok).symm⟩

/-- A node stays on show if one that is not above it is folded or unfolded. -/
theorem mem_ids_refolded (h : d.Sound) {a b : String} (hb : b ∈ d.current.ids)
    (ha : a ∉ (d.current.ancestors b).map (·.id)) (events : List Event) :
    b ∈ (d.refolded a events).diagram.current.ids := by
  rw [h.ids_eq] at hb
  obtain ⟨n, hn, rfl⟩ := List.mem_map.mp hb
  rw [Hierarchy.descendants, (Tree.breadthFirst_perm _).mem_iff] at hn
  obtain ⟨above, hx⟩ := Tree.exists_mem_lineages hn
  -- the same ancestors, as they are drawn
  have hdrawn : ({ n with folded := false }, above.map fun m => { m with folded := false }) ∈
      d.current.tree.lineages.preorder := by
    rw [h.pruned, Hierarchy.prune, Tree.lineages_map, Tree.preorder_map]
    exact List.mem_map_of_mem hx
  have habove : d.current.ancestors n.id = above.map fun m => { m with folded := false } :=
    Hierarchy.ancestors_eq (n := { n with folded := false }) h.current_named.distinct hdrawn
  rw [h.ids_refolded]
  refine Hierarchy.mem_ids_refold hx fun m hm heq => ha ?_
  rw [habove, List.map_map]
  exact List.mem_map.mpr ⟨m, hm, heq⟩

/-- A node stays on show if it is folded or unfolded itself. -/
theorem self_mem_ids_refolded (h : d.Sound) {id : String} (hid : id ∈ d.current.ids)
    (events : List Event) : id ∈ (d.refolded id events).diagram.current.ids := by
  refine h.mem_ids_refolded hid (fun hmem => ?_) events
  obtain ⟨n, hn, rfl⟩ := List.mem_map.mp hid
  obtain ⟨above, hx⟩ := Tree.exists_mem_lineages (Hierarchy.mem_tree_of_mem_descendants hn)
  rw [Hierarchy.ancestors_eq h.current_named.distinct hx] at hmem
  obtain ⟨m, hm, heq⟩ := List.mem_map.mp hmem
  exact Tree.key_ne_of_mem_lineage (fun k : Node α => k.id) h.current_named.distinct hx m hm heq

end Sound

end Diagram

/-! ### Sessions -/

namespace Session

variable [Printed α]

/-- **After any sequence of changes** a diagram is in order. -/
theorem sound_play (doc : Document α) (settings : Settings α) (initial : InitialSelection)
    (steps : List (Step α)) : (play doc settings initial steps).diagram.Sound := by
  have hstart : (start doc initial settings).diagram.Sound :=
    Diagram.sound_render (Series.named_build doc.data settings.canvas)
      (Series.listing_build doc.data settings.canvas) none
  refine keeps_run (P := fun s => s.diagram.Sound) (fun s hs st => ?_) hstart steps
  exact keeps_step (P := fun s => s.diagram.Sound) hs (fun _ => hs) (fun _ _ hanswer => hs.answer hanswer)
    st

end Session

end FlowTree
