import FlowTree.Proofs.Hierarchy.Folding
import FlowTree.Proofs.Hierarchy.Spots
import FlowTree.Proofs.Scene.Passes
import FlowTree.Reconcile

/-!
# The passes of a reconciliation

A reconciliation leads from the elements of the old tree to those of the new one: a node for every
node on show, an edge and its label for every one but the root.

* **`keysOf`** are the keys of the elements for a list of nodes, the root first.
* **`View.settledNode_congr`** and its companions say that elements at rest look as their nodes can be seen.
* **`View.leads_phase`** says what the directives for one kind of elements assume and leave.
* **`View.lookup_exitTargets`** says that all nodes that go have a target.
* **`View.leads_reconcile`** and **`View.leads_restyle`** say it for whole passes.
* **`View.ids_new`** says that a reconciliation shows the nodes of the new tree, **`View.frame_new`** that it
  keeps their frame.
-/

namespace FlowTree

variable {α : Type}

/-- The keys of the elements for the nodes with the given ids, the root being the first one. -/
def keysOf (ids : List String) : List ElementKey :=
  ids.map (ElementKey.mk .node) ++ ids.tail.map (ElementKey.mk .edge)
    ++ ids.tail.map (ElementKey.mk .edgeLabel)

theorem key_inj {kind : ElementKind} {a b : String}
    (h : ElementKey.mk kind a = ElementKey.mk kind b) : a = b := by
  injection h

theorem mem_map_key {kind kind' : ElementKind} {id : String} {ids : List String} :
    ElementKey.mk kind id ∈ ids.map (ElementKey.mk kind') ↔ kind = kind' ∧ id ∈ ids := by
  rw [List.mem_map]
  constructor
  · rintro ⟨a, ha, heq⟩
    injection heq with hkind hid
    exact ⟨hkind.symm, hid ▸ ha⟩
  · rintro ⟨rfl, hid⟩
    exact ⟨id, hid, rfl⟩

theorem kind_of_mem_map {kind : ElementKind} {ids : List String} {k : ElementKey}
    (hk : k ∈ ids.map (ElementKey.mk kind)) : k.kind = kind := by
  obtain ⟨id, -, rfl⟩ := List.mem_map.mp hk
  rfl

theorem node_mem_keysOf {ids : List String} {id : String} :
    ElementKey.mk .node id ∈ keysOf ids ↔ id ∈ ids := by
  rw [keysOf, List.mem_append, List.mem_append, mem_map_key, mem_map_key, mem_map_key]
  simp

/-- All nodes but the root have an edge. -/
theorem edge_mem_keysOf {ids : List String} {id : String} :
    ElementKey.mk .edge id ∈ keysOf ids ↔ id ∈ ids.tail := by
  rw [keysOf, List.mem_append, List.mem_append, mem_map_key, mem_map_key, mem_map_key]
  simp

/-- And the label of this edge. -/
theorem edgeLabel_mem_keysOf {ids : List String} {id : String} :
    ElementKey.mk .edgeLabel id ∈ keysOf ids ↔ id ∈ ids.tail := by
  rw [keysOf, List.mem_append, List.mem_append, mem_map_key, mem_map_key, mem_map_key]
  simp

/-- All elements belong to one of the nodes. -/
theorem mem_of_mem_keysOf {kind : ElementKind} {ids : List String} {id : String}
    (h : ElementKey.mk kind id ∈ keysOf ids) : id ∈ ids := by
  cases kind with
  | node => exact node_mem_keysOf.mp h
  | edge => exact List.mem_of_mem_tail (edge_mem_keysOf.mp h)
  | edgeLabel => exact List.mem_of_mem_tail (edgeLabel_mem_keysOf.mp h)

/-- Distinct ids make distinct keys. -/
theorem nodup_keysOf {ids : List String} (h : ids.Nodup) : (keysOf ids).Nodup := by
  have hmap {kind : ElementKind} {l : List String} (hl : l.Nodup) :
      (l.map (ElementKey.mk kind)).Nodup := hl.map fun _ _ => key_inj
  rw [keysOf, List.nodup_append, List.nodup_append]
  refine ⟨⟨hmap h, hmap h.tail, ?_⟩, hmap h.tail, ?_⟩
  · rintro a ha b hb rfl
    have hkind := (kind_of_mem_map ha).symm.trans (kind_of_mem_map hb)
    cases hkind
  · rintro a ha b hb rfl
    have hlabel := kind_of_mem_map hb
    rcases List.mem_append.mp ha with ha | ha
    · exact absurd ((kind_of_mem_map ha).symm.trans hlabel) (by decide)
    · exact absurd ((kind_of_mem_map ha).symm.trans hlabel) (by decide)

namespace View

/-! ### How elements look -/

section Looks

variable [Scalar α] [Printed α]

/-- A node at rest looks as it can be seen. -/
theorem settledNode_congr (v : View α) {s s' : Spot α} (h : s.sight = s'.sight) :
    v.settledNode s = v.settledNode s' := by
  obtain ⟨hid, hinfo, hfinish, hparent, hchildren, hcollapsed⟩ := Spot.sight_eq_iff.mp h
  simp only [settledNode, nodeVisual, hinfo, hfinish, hchildren, hcollapsed]

/-- An edge at rest looks as it can be seen. -/
theorem settledEdge_congr (v : View α) {s s' : Spot α} (h : s.sight = s'.sight) :
    v.settledEdge s = v.settledEdge s' := by
  obtain ⟨hid, hinfo, hfinish, hparent, hchildren, hcollapsed⟩ := Spot.sight_eq_iff.mp h
  simp only [settledEdge, edgeVisual, settledPath, hinfo, hfinish, hparent]

omit [Scalar α] [Printed α] in
theorem edgeLabelVisual_congr {s s' : Spot α} (h : s.sight = s'.sight) (opacity : α) :
    edgeLabelVisual s opacity = edgeLabelVisual s' opacity := by
  obtain ⟨hid, hinfo, hfinish, hparent, hchildren, hcollapsed⟩ := Spot.sight_eq_iff.mp h
  simp only [edgeLabelVisual, hid, hinfo]

end Looks

/-! ### One kind of elements -/

section Phase

variable {v : View α} {target : String → Point α} {kind : ElementKind}
  {create update : Spot α → Directive α} {old new : List (Spot α)}

theorem mem_phase {d : Directive α} :
    d ∈ v.phase target kind create update old new ↔
      (∃ s ∈ new, s.id ∉ old.map (·.id) ∧ d = create s) ∨
        (∃ s ∈ new, s.id ∈ old.map (·.id) ∧ d = update s) ∨
          ∃ s ∈ old, s.id ∉ new.map (·.id) ∧ d = v.removeElement target kind s := by
  simp only [phase, List.mem_append, List.mem_map (f := create), List.mem_map (f := update),
    List.mem_map (f := v.removeElement target kind), List.mem_filter, Bool.not_eq_true',
    List.contains_eq_mem, decide_eq_false_iff_not, decide_eq_true_eq, and_assoc, or_assoc,
    eq_comm (b := d)]

/-- Every node on show in the end has a directive. -/
theorem exists_mem_phase (v : View α) (target : String → Point α) (kind : ElementKind)
    {goal : Spot α → Visual α}
    (hcreate : ∀ s, (create s).key = ⟨kind, s.id⟩ ∧ (create s).goal? = some (goal s))
    (hupdate : ∀ s, (update s).key = ⟨kind, s.id⟩ ∧ (update s).goal? = some (goal s))
    {s : Spot α} (hs : s ∈ new) :
    ∃ d ∈ v.phase target kind create update old new, d.key = ⟨kind, s.id⟩ ∧ d.goal? = some (goal s) := by
  by_cases hold : s.id ∈ old.map (·.id)
  · exact ⟨update s, mem_phase.mpr (Or.inr (Or.inl ⟨s, hs, hold, rfl⟩)), hupdate s⟩
  · exact ⟨create s, mem_phase.mpr (Or.inl ⟨s, hs, hold, rfl⟩), hcreate s⟩

/-- The keys of the directives for one kind of elements. -/
theorem map_key_phase (hcreate : ∀ s, (create s).key = ⟨kind, s.id⟩)
    (hupdate : ∀ s, (update s).key = ⟨kind, s.id⟩) :
    (v.phase target kind create update old new).map (·.key) =
      (((new.filter fun s => !(old.map (·.id)).contains s.id).map (·.id)
        ++ (new.filter fun s => (old.map (·.id)).contains s.id).map (·.id)
        ++ (old.filter fun s => !(new.map (·.id)).contains s.id).map (·.id)).map
          (ElementKey.mk kind)) := by
  simp only [phase, List.map_append, List.map_map]
  congr 1
  congr 1
  · exact List.map_congr_left fun s _ => hcreate s
  · exact List.map_congr_left fun s _ => hupdate s

theorem nodup_phase (hcreate : ∀ s, (create s).key = ⟨kind, s.id⟩)
    (hupdate : ∀ s, (update s).key = ⟨kind, s.id⟩) (hold : (old.map (·.id)).Nodup)
    (hnew : (new.map (·.id)).Nodup) :
    ((v.phase target kind create update old new).map (·.key)).Nodup := by
  rw [map_key_phase hcreate hupdate]
  refine List.Nodup.map (fun _ _ => key_inj) ?_
  have hnew' (p : Spot α → Bool) : ((new.filter p).map (·.id)).Nodup :=
    hnew.sublist ((List.filter_sublist (p := p)).map _)
  have hold' (p : Spot α → Bool) : ((old.filter p).map (·.id)).Nodup :=
    hold.sublist ((List.filter_sublist (p := p)).map _)
  rw [List.nodup_append, List.nodup_append]
  refine ⟨⟨hnew' _, hnew' _, ?_⟩, hold' _, ?_⟩
  · -- what comes was not there, what stays was
    rintro a ha b hb rfl
    obtain ⟨s, hs, rfl⟩ := List.mem_map.mp ha
    obtain ⟨s', hs', heq⟩ := List.mem_map.mp hb
    have h₁ := (List.mem_filter.mp hs).2
    have h₂ := (List.mem_filter.mp hs').2
    rw [heq] at h₂
    rw [h₂] at h₁
    exact Bool.false_ne_true h₁
  · -- what comes or stays is there in the end, what goes is not
    rintro a ha b hb rfl
    obtain ⟨s, hs, rfl⟩ := List.mem_map.mp hb
    have hgone := (List.mem_filter.mp hs).2
    have hthere : s.id ∈ new.map (·.id) := by
      rcases List.mem_append.mp ha with ha | ha <;>
      · obtain ⟨s', hs', heq⟩ := List.mem_map.mp ha
        rw [← heq]
        exact List.mem_map_of_mem (List.mem_filter.mp hs').1
    simp [hthere] at hgone

/-- **One kind of elements.**  Its directives lead from the old nodes to the new ones. -/
theorem leads_phase
    (hcreate : ∀ s, (create s).key = ⟨kind, s.id⟩ ∧ (create s).isCreate = true ∧
      (create s).goal?.isSome = true)
    (hupdate : ∀ s, (update s).key = ⟨kind, s.id⟩ ∧ (update s).isCreate = false ∧
      (update s).goal?.isSome = true)
    (hold : (old.map (·.id)).Nodup) (hnew : (new.map (·.id)).Nodup) :
    (v.phase target kind create update old new).Leads ((old.map (·.id)).map (ElementKey.mk kind))
      ((new.map (·.id)).map (ElementKey.mk kind)) where
  nodup := nodup_phase (fun s => (hcreate s).1) (fun s => (hupdate s).1) hold hnew
  isCreate_iff d hd := by
    rcases mem_phase.mp hd with ⟨s, hs, hout, rfl⟩ | ⟨s, hs, hin, rfl⟩ | ⟨s, hs, hout, rfl⟩
    · rw [(hcreate s).1, mem_map_key]
      simp [(hcreate s).2.1, hout]
    · rw [(hupdate s).1, mem_map_key]
      simp [(hupdate s).2.1, hin]
    · have hin : s.id ∈ old.map (·.id) := List.mem_map_of_mem hs
      rw [show (v.removeElement target kind s).key = ⟨kind, s.id⟩ from rfl, mem_map_key]
      simp [removeElement, Directive.isCreate, hin]
  goal_iff d hd := by
    rcases mem_phase.mp hd with ⟨s, hs, hout, rfl⟩ | ⟨s, hs, hin, rfl⟩ | ⟨s, hs, hout, rfl⟩
    · rw [(hcreate s).1, mem_map_key]
      simp [(hcreate s).2.2, List.mem_map_of_mem hs]
    · rw [(hupdate s).1, mem_map_key]
      simp [(hupdate s).2.2, List.mem_map_of_mem hs]
    · rw [show (v.removeElement target kind s).key = ⟨kind, s.id⟩ from rfl, mem_map_key]
      simp [removeElement, Directive.goal?, hout]
  rest k hk := by
    obtain ⟨kind', id⟩ := k
    rw [mem_map_key, mem_map_key]
    refine and_congr_right ?_
    rintro rfl
    constructor
    · intro hin
      by_contra hout
      obtain ⟨s, hs, rfl⟩ := List.mem_map.mp hin
      exact hk (List.mem_map.mpr ⟨_, mem_phase.mpr (Or.inr (Or.inr ⟨s, hs, hout, rfl⟩)), rfl⟩)
    · intro hin
      by_contra hout
      obtain ⟨s, hs, rfl⟩ := List.mem_map.mp hin
      exact hk (List.mem_map.mpr
        ⟨_, mem_phase.mpr (Or.inl ⟨s, hs, hout, rfl⟩), (hcreate s).1⟩)

/-- The directives for the elements that the root does not have. -/
theorem leads_phase_tail
    (hcreate : ∀ s, (create s).key = ⟨kind, s.id⟩ ∧ (create s).isCreate = true ∧
      (create s).goal?.isSome = true)
    (hupdate : ∀ s, (update s).key = ⟨kind, s.id⟩ ∧ (update s).isCreate = false ∧
      (update s).goal?.isSome = true)
    (hold : (old.map (·.id)).Nodup) (hnew : (new.map (·.id)).Nodup) :
    (v.phase target kind create update old.tail new.tail).Leads
      ((old.map (·.id)).tail.map (ElementKey.mk kind))
      ((new.map (·.id)).tail.map (ElementKey.mk kind)) := by
  rw [← List.map_tail, ← List.map_tail]
  refine leads_phase hcreate hupdate ?_ ?_
  · rw [List.map_tail]
    exact hold.tail
  · rw [List.map_tail]
    exact hnew.tail

theorem kind_of_mem_phase (hcreate : ∀ s, (create s).key = ⟨kind, s.id⟩)
    (hupdate : ∀ s, (update s).key = ⟨kind, s.id⟩) {k : ElementKey}
    (hk : k ∈ (v.phase target kind create update old new).map (·.key)) : k.kind = kind := by
  rw [map_key_phase hcreate hupdate] at hk
  obtain ⟨id, -, rfl⟩ := List.mem_map.mp hk
  rfl

end Phase

/-! ### Where nodes go -/

/-- Just the nodes that go have a target. -/
theorem map_fst_exitTargets (old new : List (Spot α)) :
    (exitTargets old new).map (·.1) = (KeyDiff.of (old.map (·.id)) (new.map (·.id))).exiting := by
  show _ = (old.map (·.id)).filter _
  rw [exitTargets, List.map_map, List.filter_map]
  rfl

/-- The target of a node that goes is the place of its anchor. -/
theorem lookup_exitTargets {old new : List (Spot α)} (hold : (old.map (·.id)).Nodup) {s : Spot α}
    (hs : s ∈ old) (hgone : s.id ∉ new.map (·.id)) :
    (exitTargets old new).lookup s.id = some s.anchor.finish := by
  have hmem : (s.id, s.anchor.finish) ∈ exitTargets old new :=
    List.mem_map.mpr ⟨s, List.mem_filter.mpr ⟨hs, by simpa using hgone⟩, rfl⟩
  have hnodup : ((exitTargets old new).map (·.1)).Nodup := by
    rw [map_fst_exitTargets]
    exact hold.filter _
  obtain ⟨before, after, hsplit⟩ := List.append_of_mem hmem
  rw [hsplit, List.map_append, List.map_cons, List.nodup_middle, List.nodup_cons] at hnodup
  refine List.lookup_eq_some_iff.mpr ⟨before, after, hsplit, fun t ht => ?_⟩
  rw [bne_iff_ne]
  intro heq
  exact hnodup.1 (List.mem_append_left _ (List.mem_map.mpr ⟨t, ht, heq.symm⟩))

/-- What goes folds into its anchor. -/
def foldElement (v : View α) (kind : ElementKind) (s : Spot α) : Directive α :=
  .remove ⟨kind, s.id⟩ s.anchor.finish v.duration

/-- So nothing folds into the origin instead. -/
theorem removeElement_eq_foldElement [Scalar α] (v : View α) (kind : ElementKind)
    {old new : List (Spot α)} (hold : (old.map (·.id)).Nodup) {s : Spot α} (hs : s ∈ old)
    (hgone : s.id ∉ new.map (·.id)) :
    v.removeElement (exitTarget (exitTargets old new)) kind s = v.foldElement kind s := by
  rw [removeElement, exitTarget, lookup_exitTargets hold hs hgone, Option.getD_some, foldElement]

/-! ### Whole passes -/

/-- Three passes about nodes, edges and labels make one pass. -/
theorem leads_of_kinds {nodes edges labels : Pass α} {old new : List String}
    (hnodes : nodes.Leads (old.map (ElementKey.mk .node)) (new.map (ElementKey.mk .node)))
    (hedges : edges.Leads (old.tail.map (ElementKey.mk .edge)) (new.tail.map (ElementKey.mk .edge)))
    (hlabels : labels.Leads (old.tail.map (ElementKey.mk .edgeLabel))
      (new.tail.map (ElementKey.mk .edgeLabel)))
    (hn : ∀ k ∈ nodes.map (·.key), k.kind = .node) (he : ∀ k ∈ edges.map (·.key), k.kind = .edge)
    (hl : ∀ k ∈ labels.map (·.key), k.kind = .edgeLabel) :
    Pass.Leads (nodes ++ edges ++ labels) (keysOf old) (keysOf new) := by
  have hside {p : Pass α} {kind : ElementKind} {o n : List String}
      (hp : ∀ k ∈ p.map (·.key), k.kind = kind) (k : ElementKey)
      (hk : k ∈ p.map (·.key) ∨ k ∈ o.map (ElementKey.mk kind) ∨ k ∈ n.map (ElementKey.mk kind)) :
      k.kind = kind := by
    rcases hk with hk | hk | hk
    · exact hp k hk
    · exact kind_of_mem_map hk
    · exact kind_of_mem_map hk
  have hboth : Pass.Leads (nodes ++ edges)
      (old.map (ElementKey.mk .node) ++ old.tail.map (ElementKey.mk .edge))
      (new.map (ElementKey.mk .node) ++ new.tail.map (ElementKey.mk .edge)) := by
    refine hnodes.append hedges (fun k => k.kind = .node) (hside hn) ?_
    intro k hk
    rw [hside he k hk]
    decide
  refine hboth.append hlabels (fun k => k.kind ≠ .edgeLabel) ?_ ?_
  · intro k hk
    simp only [List.map_append, List.mem_append] at hk
    have hkind : k.kind = .node ∨ k.kind = .edge := by
      rcases hk with (hk | hk) | (hk | hk) | (hk | hk)
      · exact Or.inl (hn k hk)
      · exact Or.inr (he k hk)
      · exact Or.inl (kind_of_mem_map hk)
      · exact Or.inr (kind_of_mem_map hk)
      · exact Or.inl (kind_of_mem_map hk)
      · exact Or.inr (kind_of_mem_map hk)
    rcases hkind with hkind | hkind <;> rw [hkind] <;> decide
  · intro k hk
    rw [not_not]
    exact hside hl k hk

/-- Directives that only change elements leave the same elements. -/
theorem leads_updates {kind : ElementKind} {update : Spot α → Directive α}
    (hupdate : ∀ s, (update s).key = ⟨kind, s.id⟩ ∧ (update s).isCreate = false ∧
      (update s).goal?.isSome = true)
    {spots : List (Spot α)} (hspots : (spots.map (·.id)).Nodup) :
    Pass.Leads (spots.map update) ((spots.map (·.id)).map (ElementKey.mk kind))
      ((spots.map (·.id)).map (ElementKey.mk kind)) := by
  have hkeys : (spots.map update).map (·.key) = (spots.map (·.id)).map (ElementKey.mk kind) := by
    rw [List.map_map, List.map_map]
    exact List.map_congr_left fun s _ => (hupdate s).1
  constructor
  · rw [hkeys]
    exact hspots.map fun _ _ => key_inj
  · intro d hd
    have hmem : d.key ∈ (spots.map update).map (·.key) := List.mem_map_of_mem hd
    rw [hkeys] at hmem
    obtain ⟨s, -, rfl⟩ := List.mem_map.mp hd
    exact iff_of_false (by simp [(hupdate s).2.1]) (not_not_intro hmem)
  · intro d hd
    have hmem : d.key ∈ (spots.map update).map (·.key) := List.mem_map_of_mem hd
    rw [hkeys] at hmem
    obtain ⟨s, -, rfl⟩ := List.mem_map.mp hd
    exact iff_of_true (hupdate s).2.2 hmem
  · exact fun k _ => Iff.rfl

/-- An empty pass leaves everything as it is. -/
theorem leads_nil (keys : List ElementKey) : Pass.Leads ([] : Pass α) keys keys where
  nodup := List.nodup_nil
  isCreate_iff d hd := by simp at hd
  goal_iff d hd := by simp at hd
  rest _ _ := Iff.rfl

/-- The ids of the nodes that were on show before. -/
def oldIds (old : Option (Hierarchy α)) : List String := (old.map (·.ids)).getD []

theorem ids_leaving (newNodes : List (Node α)) (old : Option (Hierarchy α)) :
    (((old.map (bequeath newNodes)).map (·.spots)).getD []).map (·.id) = oldIds old := by
  cases old with
  | none => rfl
  | some h =>
    show (bequeath newNodes h).spots.map (·.id) = h.ids
    rw [Hierarchy.spots_map_id, bequeath, Hierarchy.ids_updateShown]
    intro n
    split <;> exact ⟨rfl, rfl⟩

variable [Scalar α]

theorem ids_moving (v : View α) (oldNodes : List (Node α)) (new : Hierarchy α) :
    (inherit oldNodes (new.layout v.canvas)).spots.map (·.id) = new.ids := by
  rw [Hierarchy.spots_map_id, inherit, Hierarchy.ids_updateShown, Hierarchy.ids_layout]
  intro n
  split <;> exact ⟨rfl, rfl⟩

variable [Printed α]

/-- A reconciliation shows the nodes of the new tree. -/
theorem ids_new (v : View α) (old : Option (Hierarchy α)) (new : Hierarchy α) :
    (v.reconcile old new).new.ids = new.ids := by
  have hrest (h : Hierarchy α) : (rest h).ids = h.ids := by
    refine Hierarchy.ids_updateShown ?_ h
    exact fun _ => ⟨rfl, rfl⟩
  rw [reconcile, hrest, ← Hierarchy.spots_map_id]
  exact ids_moving v _ new

/-- A reconciliation keeps the frame of the new tree. -/
theorem frame_new (v : View α) (old : Option (Hierarchy α)) (new : Hierarchy α) :
    (v.reconcile old new).new.frame = new.frame := by
  rw [reconcile, Hierarchy.frame, rest, Hierarchy.map_updateShown, inherit,
    Hierarchy.map_updateShown, Hierarchy.map_layout]
  · rfl
  · exact fun _ _ => rfl
  · intro n
    split <;> rfl
  · exact fun _ => rfl

theorem skeleton_new (v : View α) (old : Option (Hierarchy α)) (new : Hierarchy α) :
    (v.reconcile old new).new.skeleton = new.skeleton :=
  Hierarchy.skeleton_congr (v.frame_new old new)

/-- **A reconciliation** leads from the nodes that were on show before to those of the new tree. -/
theorem leads_reconcile (v : View α) {old : Option (Hierarchy α)} {new : Hierarchy α}
    (hold : (oldIds old).Nodup) (hnew : new.ids.Nodup) :
    (v.reconcile old new).pass.Leads (keysOf (oldIds old)) (keysOf new.ids) := by
  have hnew' := ids_moving v ((old.map (·.descendants)).getD []) new
  have hold' := ids_leaving (new.layout v.canvas).descendants old
  rw [← hnew'] at hnew ⊢
  rw [← hold'] at hold ⊢
  refine leads_of_kinds ?_ ?_ ?_ ?_ ?_ ?_
  · exact leads_phase (fun _ => ⟨rfl, rfl, rfl⟩) (fun _ => ⟨rfl, rfl, rfl⟩) hold hnew
  · exact leads_phase_tail (fun _ => ⟨rfl, rfl, rfl⟩) (fun _ => ⟨rfl, rfl, rfl⟩) hold hnew
  · exact leads_phase_tail (fun _ => ⟨rfl, rfl, rfl⟩) (fun _ => ⟨rfl, rfl, rfl⟩) hold hnew
  · exact fun k hk => kind_of_mem_phase (fun _ => rfl) (fun _ => rfl) hk
  · exact fun k hk => kind_of_mem_phase (fun _ => rfl) (fun _ => rfl) hk
  · exact fun k hk => kind_of_mem_phase (fun _ => rfl) (fun _ => rfl) hk

/-- **Drawing anew** leaves the same elements. -/
theorem leads_restyle (v : View α) {h : Hierarchy α} (hd : h.ids.Nodup) :
    (v.restyle h).Leads (keysOf h.ids) (keysOf h.ids) := by
  rw [← Hierarchy.spots_map_id] at hd ⊢
  rw [restyle, ← List.append_nil (_ ++ _)]
  refine leads_of_kinds ?_ ?_ (leads_nil _) ?_ ?_ (by simp)
  · exact leads_updates (fun _ => ⟨rfl, rfl, rfl⟩) hd
  · rw [← List.map_tail]
    refine leads_updates (fun _ => ⟨rfl, rfl, rfl⟩) ?_
    rw [List.map_tail]
    exact hd.tail
  · intro k hk
    rw [List.map_map] at hk
    obtain ⟨s, -, rfl⟩ := List.mem_map.mp hk
    rfl
  · intro k hk
    rw [List.map_map] at hk
    obtain ⟨s, -, rfl⟩ := List.mem_map.mp hk
    rfl

end View

end FlowTree
