import FlowTree.Proofs.Kin
import FlowTree.Proofs.Scene.Glue

/-!
# Passes keep the edges attached

A reconciliation and a drawing anew treat a node and its edge alike, whatever the scene shows.  If the
scene is at rest, they also keep every edge at the node above its own: what happens to the parent in the
same pass moves the other end of the edge along.

* **`View.paired_reconcile`** and **`View.paired_restyle`** say that the directives for nodes and edges come
  in pairs.
* **`View.exists_old_of_coming`** and **`View.exists_new_of_leaving`** say what the marks of a reconciliation
  tell about the other tree.
* **`Scene.Shows`** says that a scene shows a tree at rest; **`View.hanging_reconcile`** and
  **`View.hanging_restyle`** are the steps from such a scene.
-/

namespace FlowTree

variable {α : Type}

/-! ### Pairs of directives -/

/-- A pass that consists of paired parts is paired. -/
theorem Pass.Paired.of_parts {pass : Pass α}
    (h : ∀ d ∈ pass, ∃ part : Pass α, d ∈ part ∧ part ⊆ pass ∧ part.Paired) : pass.Paired := by
  constructor
  · intro d hd hkind hid
    obtain ⟨part, hmem, hsub, hpaired⟩ := h d hd
    obtain ⟨d', hd', hpairs⟩ := hpaired.ofNode d hmem hkind hid
    exact ⟨d', hsub hd', hpairs⟩
  · intro d' hd' hkind
    obtain ⟨part, hmem, hsub, hpaired⟩ := h d' hd'
    obtain ⟨hid, d, hd, hpairs⟩ := hpaired.ofEdge d' hmem hkind
    exact ⟨hid, d, hsub hd, hpairs⟩

namespace View

/-- What is done to one node and its edge alike. -/
theorem paired_elementsOf {node edge label : Spot α → Directive α} {s : Spot α}
    (hnode : (node s).key.id = s.id) (hlabel : (label s).key.kind = .edgeLabel)
    (hpairs : (node s).Pairs (edge s)) : Pass.Paired (elementsOf node edge label s) := by
  obtain ⟨hkey, hkey'⟩ := hpairs.key_eq
  constructor
  · intro d hd hkind hid
    rcases mem_elementsOf.mp hd with rfl | ⟨hinner, rfl | rfl⟩
    · rw [hnode] at hid
      exact ⟨edge s, mem_elementsOf.mpr (Or.inr ⟨decide_eq_true hid, Or.inl rfl⟩), hpairs⟩
    · rw [hkey'] at hkind
      cases hkind
    · rw [hlabel] at hkind
      cases hkind
  · intro d hd hkind
    rcases mem_elementsOf.mp hd with rfl | ⟨hinner, rfl | rfl⟩
    · rw [hkey] at hkind
      cases hkind
    · rw [hkey', hnode]
      exact ⟨of_decide_eq_true hinner, node s, mem_elementsOf.mpr (Or.inl rfl), hpairs⟩
    · rw [hlabel] at hkind
      cases hkind

variable [Scalar α] [Printed α]

theorem pairs_create (v : View α) (s : Spot α) : (v.createNode s).Pairs (v.createEdge s) :=
  .create ⟨_, _, rfl, rfl, rfl⟩ ⟨_, _, rfl, rfl, rfl⟩

theorem pairs_update (v : View α) (s : Spot α) : (v.updateNode s).Pairs (v.updateEdge s) :=
  .update ⟨_, _, rfl, rfl, rfl⟩

section Parts

variable {v : View α} {old : Option (Hierarchy α)} {new : Hierarchy α} {s : Spot α}

theorem nodup_reconcile (hold : ∀ h, old = some h → h.Named) (hnew : new.Named) :
    ((v.reconcile old new).pass.map (·.key)).Nodup :=
  (v.leads_reconcile (distinct_oldIds hold).1 (Hierarchy.ids_nodup hnew.distinct)).nodup

theorem creates_subset (hold : ∀ h, old = some h → h.Named) (hnew : new.Named)
    (hs : s ∈ v.coming old new) (hid : s.id ∉ oldIds old) :
    v.creates s ⊆ (v.reconcile old new).pass :=
  fun _ hd => (mem_reconcile hold hnew).mpr (Or.inl ⟨s, hs, hid, hd⟩)

theorem updates_subset (hold : ∀ h, old = some h → h.Named) (hnew : new.Named)
    (hs : s ∈ v.coming old new) (hid : s.id ∈ oldIds old) :
    v.updates s ⊆ (v.reconcile old new).pass :=
  fun _ hd => (mem_reconcile hold hnew).mpr (Or.inr (Or.inl ⟨s, hs, hid, hd⟩))

theorem removes_subset (hold : ∀ h, old = some h → h.Named) (hnew : new.Named)
    (hs : s ∈ v.leaving old new) (hid : s.id ∉ new.ids) :
    v.removes s ⊆ (v.reconcile old new).pass :=
  fun _ hd => (mem_reconcile hold hnew).mpr (Or.inr (Or.inr ⟨s, hs, hid, hd⟩))

omit [Scalar α] [Printed α] in
theorem node_mem_elementsOf (node edge label : Spot α → Directive α) (s : Spot α) :
    node s ∈ elementsOf node edge label s := mem_elementsOf.mpr (Or.inl rfl)

omit [Scalar α] [Printed α] in
theorem edge_mem_elementsOf (node edge label : Spot α → Directive α) (hinner : s.inner = true) :
    edge s ∈ elementsOf node edge label s := mem_elementsOf.mpr (Or.inr ⟨hinner, Or.inl rfl⟩)

/-- **The directives of a reconciliation come in pairs.** -/
theorem paired_reconcile (hold : ∀ h, old = some h → h.Named) (hnew : new.Named) :
    (v.reconcile old new).pass.Paired := by
  refine .of_parts fun d hd => ?_
  rcases (mem_reconcile hold hnew).mp hd with ⟨s, hs, hid, hd⟩ | ⟨s, hs, hid, hd⟩ | ⟨s, hs, hid, hd⟩
  · exact ⟨v.creates s, hd, creates_subset hold hnew hs hid,
      paired_elementsOf rfl rfl (v.pairs_create s)⟩
  · exact ⟨v.updates s, hd, updates_subset hold hnew hs hid,
      paired_elementsOf rfl rfl (v.pairs_update s)⟩
  · exact ⟨v.removes s, hd, removes_subset hold hnew hs hid, paired_elementsOf rfl rfl .remove⟩

end Parts

theorem mem_restyle {v : View α} {h : Hierarchy α} (hnamed : h.Named) {d : Directive α} :
    d ∈ v.restyle h ↔
      ∃ s ∈ h.spots, d = v.updateNode s ∨ s.inner = true ∧ d = v.updateEdge s := by
  have hnodup := Hierarchy.ids_nodup hnamed.distinct
  have hrooted := Hierarchy.rooted_ids hnamed.lineal hnamed.distinct
  rw [← Hierarchy.spots_map_id] at hnodup hrooted
  rw [restyle, List.mem_append, List.mem_map, List.mem_map]
  simp only [mem_tail_iff hnodup hrooted, and_or_left, exists_or, and_assoc, eq_comm (b := d)]

/-- **So do those of a drawing anew.** -/
theorem paired_restyle {v : View α} {h : Hierarchy α} (hnamed : h.Named) : (v.restyle h).Paired := by
  constructor
  · intro d hd hkind hid
    obtain ⟨s, hs, rfl | ⟨-, rfl⟩⟩ := (mem_restyle hnamed).mp hd
    · refine ⟨v.updateEdge s, ?_, v.pairs_update s⟩
      exact (mem_restyle hnamed).mpr ⟨s, hs, Or.inr ⟨decide_eq_true hid, rfl⟩⟩
    · cases hkind
  · intro d hd hkind
    obtain ⟨s, hs, rfl | ⟨hinner, rfl⟩⟩ := (mem_restyle hnamed).mp hd
    · cases hkind
    · refine ⟨of_decide_eq_true hinner, v.updateNode s, ?_, v.pairs_update s⟩
      exact (mem_restyle hnamed).mpr ⟨s, hs, Or.inl rfl⟩

/-! ### What the marks tell -/

section Marks

variable {v : View α} {old : Option (Hierarchy α)} {new : Hierarchy α} {s : Spot α}

omit [Printed α] in
theorem visible_of_coming (hs : s ∈ v.coming old new) (hfresh : s.id ∉ oldIds old) :
    s.node.visible = false := by
  obtain ⟨n, above, -, hnode, -, -⟩ := lineage_of_mem_coming hs
  rw [Spot.id, hnode, (inheritance_keeps _ n).1, ← map_id_oldNodes] at hfresh
  rw [hnode, inheritance, find?_id_eq_none_iff.mpr hfresh]

omit [Printed α] in
/-- A node that stays has the place and the visibility of the old one. -/
theorem exists_old_of_coming (hs : s ∈ v.coming old new) (hid : s.id ∈ oldIds old) :
    ∃ o ∈ oldNodes old, o.id = s.id ∧ s.node.start = o.start ∧ s.node.visible = o.visible := by
  obtain ⟨n, above, -, hnode, -, -⟩ := lineage_of_mem_coming hs
  have hidn : s.id = n.id := by rw [Spot.id, hnode, (inheritance_keeps _ n).1]
  rw [hidn, ← map_id_oldNodes] at hid
  rw [hidn, hnode, inheritance]
  cases hfound : (oldNodes old).find? (·.id == n.id) with
  | none => exact absurd hid (find?_id_eq_none_iff.mp hfound)
  | some o =>
    obtain ⟨ho, hoid⟩ := mem_of_find?_id hfound
    exact ⟨o, ho, hoid, rfl, rfl⟩

omit [Printed α] in
theorem mem_leaving_iff :
    s ∈ v.leaving old new ↔
      ∃ h, old = some h ∧ s ∈ (bequeath (new.layout v.canvas).descendants h).spots := by
  cases old with
  | none => simp [leaving]
  | some h => simp [leaving]

omit [Printed α] in
theorem visible_of_leaving (hs : s ∈ v.leaving old new) (hgone : s.id ∉ new.ids) :
    s.node.visible = false := by
  obtain ⟨h, rfl, -⟩ := mem_leaving_iff.mp hs
  obtain ⟨n, above, -, hnode, -, -⟩ := lineage_of_mem_leaving hs
  rw [Spot.id, hnode, (bequest_keeps _ n).1, ← Hierarchy.ids_layout new v.canvas] at hgone
  rw [hnode, bequest, find?_id_eq_none_iff.mpr hgone]

omit [Printed α] in
/-- A node that stays goes where the new one goes, and is as visible as it was. -/
theorem exists_new_of_leaving (hs : s ∈ v.leaving old new) (hid : s.id ∈ new.ids) :
    (∃ o ∈ oldNodes old, s.node.visible = o.visible) ∧
      ∃ p ∈ v.coming old new, p.id = s.id ∧ p.node.finish = s.node.finish := by
  obtain ⟨h, rfl, -⟩ := mem_leaving_iff.mp hs
  obtain ⟨n, above, hx, hnode, -, -⟩ := lineage_of_mem_leaving hs
  have hidn : s.id = n.id := by rw [Spot.id, hnode, (bequest_keeps _ n).1]
  rw [hidn, ← Hierarchy.ids_layout new v.canvas] at hid
  rw [hidn, hnode, bequest]
  cases hfound : (new.layout v.canvas).descendants.find? (·.id == n.id) with
  | none => exact absurd hid (find?_id_eq_none_iff.mp hfound)
  | some m =>
    obtain ⟨hm, hmid⟩ := mem_of_find?_id hfound
    constructor
    · exact ⟨n, (Tree.breadthFirst_perm _).mem_iff.mpr (Tree.fst_mem_of_mem_lineages hx), rfl⟩
    · obtain ⟨above', hm'⟩ := Tree.exists_mem_lineages ((Tree.breadthFirst_perm _).mem_iff.mp hm)
      obtain ⟨p, hp, hpnode, -, -⟩ := Hierarchy.exists_mem_updateShown
        (fun n => (inheritance_keeps (oldNodes (some h)) n).2.1) hm'
      have hkeeps := inheritance_keeps (oldNodes (some h)) m
      refine ⟨p, hp, ?_, ?_⟩
      · rw [Spot.id, hpnode, hkeeps.1, hmid]
      · rw [hpnode, hkeeps.2.2]

omit [Printed α] in
/-- The parent of a new node. -/
theorem exists_coming_above (hnew : new.Named) (hs : s ∈ v.coming old new) (hinner : s.inner = true) :
    ∃ p ∈ v.coming old new, p.id = NodeId.cutAtLast s.id ∧ s.parent = some p.node ∧
      (s.node.visible = false → s.anchor = p.anchor) := by
  refine Hierarchy.exists_spot_above (hnew.lineal.of_skeleton ?_) hs hinner
  rw [inherit, Hierarchy.skeleton, Hierarchy.map_updateShown, Hierarchy.map_layout]
  · rfl
  · exact fun _ _ => rfl
  · intro n
    split <;> rfl

omit [Printed α] in
/-- The parent of an old node. -/
theorem exists_leaving_above (hold : ∀ h, old = some h → h.Named) (hs : s ∈ v.leaving old new)
    (hinner : s.inner = true) :
    ∃ p ∈ v.leaving old new, p.id = NodeId.cutAtLast s.id ∧ s.parent = some p.node ∧
      (s.node.visible = false → s.anchor = p.anchor) := by
  obtain ⟨h, rfl, hs⟩ := mem_leaving_iff.mp hs
  refine Hierarchy.exists_spot_above ((hold h rfl).lineal.of_skeleton ?_) hs hinner
  refine Hierarchy.map_updateShown (fun o => ?_) h
  split <;> rfl

end Marks

end View

/-! ### Scenes that show a tree at rest -/

/-- The scene shows just these nodes, each where it begins, and no edges of other nodes. -/
structure Scene.Shows (scene : Scene α) (nodes : List (Node α)) : Prop where
  present : ∀ n ∈ nodes, ∃ e look, scene.get? ⟨.node, n.id⟩ = some e ∧ e.visual = .node look ∧
    look.position = n.start
  absent : ∀ id ∉ nodes.map (·.id), scene.get? ⟨.node, id⟩ = none ∧ scene.get? ⟨.edge, id⟩ = none

/-- Of a node on show that is no root the edge is there too, and ends at the parent. -/
theorem Scene.Shows.exists_glued [Scalar α] {scene : Scene α} {nodes : List (Node α)}
    (hshows : scene.Shows nodes) (hattached : scene.Attached) (hhanging : scene.Hanging) {s : Spot α}
    (hid : s.id ∈ nodes.map (·.id)) (hinner : s.inner = true) :
    ∃ n e, scene.get? ⟨.node, NodeId.cutAtLast s.id⟩ = some n ∧ scene.get? ⟨.edge, s.id⟩ = some e ∧
      n.Glued .parent e := by
  obtain ⟨m, hm, heq⟩ := List.mem_map.mp hid
  obtain ⟨own, look, hown, -, -⟩ := hshows.present m hm
  have htwins := hattached.twins s.id (of_decide_eq_true hinner)
  rw [← heq, hown] at htwins
  cases hedge : scene.get? ⟨.edge, m.id⟩ with
  | none =>
    rw [hedge] at htwins
    cases htwins
  | some e =>
    rw [heq] at hedge
    obtain ⟨n, hn, hglued⟩ := hhanging s.id e hedge
    exact ⟨n, e, hn, hedge, hglued⟩

/-- Of a root, and of a node that is not shown before and after a pass, no edge comes up. -/
theorem Scene.Shows.get?_edge_foldl [Scalar α] {scene : Scene α} {nodes : List (Node α)}
    (hshows : scene.Shows nodes) (hattached : scene.Attached) {pass : Pass α} {old new : List String}
    (hnodes : nodes.map (·.id) = old) (hleads : pass.Leads (keysOf old) (keysOf new))
    (hrooted : Rooted old) (hrooted' : Rooted new) {id : String}
    (hid : ¬ (NodeId.separator ∈ id.toList ∧ (id ∈ old ∨ id ∈ new))) :
    (pass.foldl Scene.apply scene).get? ⟨.edge, id⟩ = none := by
  have hkey : ⟨.edge, id⟩ ∉ pass.map (·.key) := by
    intro hmem
    rcases hleads.mem_or_mem hmem with hthere | hthere
    · obtain ⟨hthere, hinner⟩ := hrooted.mem_tail_iff.mp (edge_mem_keysOf.mp hthere)
      exact hid ⟨hinner, Or.inl hthere⟩
    · obtain ⟨hthere, hinner⟩ := hrooted'.mem_tail_iff.mp (edge_mem_keysOf.mp hthere)
      exact hid ⟨hinner, Or.inr hthere⟩
  rw [Scene.get?_foldl_of_not_mem scene hkey]
  by_cases hinner : NodeId.separator ∈ id.toList
  · refine (hshows.absent id ?_).2
    rw [hnodes]
    exact fun hthere => hid ⟨hinner, Or.inl hthere⟩
  · exact hattached.root id hinner

/-- What two directives of a pass do to an edge and to the node above its own. -/
theorem Carries.foldl [Scalar α] {scene : Scene α} {pass : Pass α} (hnodup : (pass.map (·.key)).Nodup)
    {d d' : Directive α} (hd : d ∈ pass) (hd' : d' ∈ pass) {id : String}
    (hkey : d.key = ⟨.node, NodeId.cutAtLast id⟩) (hkey' : d'.key = ⟨.edge, id⟩)
    (h : Carries .parent (d.effect (scene.get? ⟨.node, NodeId.cutAtLast id⟩))
      (d'.effect (scene.get? ⟨.edge, id⟩))) :
    Carries .parent ((pass.foldl Scene.apply scene).get? ⟨.node, NodeId.cutAtLast id⟩)
      ((pass.foldl Scene.apply scene).get? ⟨.edge, id⟩) := by
  rw [← hkey, ← hkey'] at h ⊢
  rw [Scene.get?_foldl scene hnodup hd, Scene.get?_foldl scene hnodup hd']
  exact h

theorem Carries.of_glued [Scalar α] {side : EdgeEnd} {n e : SceneElement α} (h : n.Glued side e) :
    Carries side (some n) (some e) :=
  fun _ he => ⟨n, rfl, Option.some.inj he ▸ h⟩

namespace View

variable [Scalar α] [Printed α]

/-- An edge at rest ends where its parent is at rest. -/
theorem settled_meets (v : View α) {s p : Spot α} (hparent : s.parent = some p.node) :
    (v.settledNode p).Meets .parent (.edge (v.settledEdge s)) := by
  refine ⟨_, _, rfl, rfl, ?_⟩
  show ((s.parent.map (·.finish)).getD .origin) = p.node.finish
  rw [hparent]
  rfl

section Steps

variable {v : View α} {old : Option (Hierarchy α)} {new : Hierarchy α} {scene : Scene α}
  {s : Spot α}

/-- A new edge grows out of its parent, or out of the same point as its parent. -/
theorem carries_entering (hold : ∀ h, old = some h → h.Named) (hnew : new.Named)
    (hvisible : ∀ o ∈ oldNodes old, o.visible = true) (hshows : scene.Shows (oldNodes old))
    (hs : s ∈ v.coming old new) (hinner : s.inner = true) (hfresh : s.id ∉ oldIds old) :
    Carries .parent
      (((v.reconcile old new).pass.foldl Scene.apply scene).get? ⟨.node, NodeId.cutAtLast s.id⟩)
      (((v.reconcile old new).pass.foldl Scene.apply scene).get? ⟨.edge, s.id⟩) := by
  obtain ⟨p, hp, hpid, hparent, hanchor⟩ := exists_coming_above hnew hs hinner
  have hnodup := nodup_reconcile (v := v) hold hnew
  have hedge := creates_subset hold hnew hs hfresh (edge_mem_elementsOf _ _ _ hinner)
  have habsent : scene.get? ⟨.edge, s.id⟩ = none := by
    rw [← map_id_oldNodes] at hfresh
    exact (hshows.absent s.id hfresh).2
  have hstart : (Curve.collapsed s.anchor.start).tip .parent = p.anchor.start := by
    rw [hanchor (visible_of_coming hs hfresh)]
    rfl
  have hmeets := v.settled_meets hparent
  by_cases hid : p.id ∈ oldIds old
  · -- the parent stays: it is its own anchor and moves on from where it is
    obtain ⟨o, ho, hoid, hostart, hovisible⟩ := exists_old_of_coming hp hid
    obtain ⟨n, look, hn, hlook, hposition⟩ := hshows.present o ho
    have hnode := updates_subset hold hnew hp hid (node_mem_elementsOf _ _ _ p)
    have hown : p.anchor.start = look.position := by
      rw [Hierarchy.anchor_of_visible hp (hovisible.trans (hvisible o ho)), hostart, hposition]
    refine Carries.foldl hnodup hnode hedge (congrArg _ hpid) rfl ?_
    rw [← hpid, ← hoid, hn, habsent]
    refine Carries.of_glued (SceneElement.Glued.begin ?_ hmeets (fun h => ?_) _)
    · exact ⟨look, _, hlook, rfl, hstart.trans hown⟩
    · cases h
  · -- the parent comes too, and both grow out of one anchor
    have hnode := creates_subset hold hnew hp hid (node_mem_elementsOf _ _ _ p)
    have habsent' : scene.get? ⟨.node, p.id⟩ = none := by
      rw [← map_id_oldNodes] at hid
      exact (hshows.absent p.id hid).1
    refine Carries.foldl hnodup hnode hedge (congrArg _ hpid) rfl ?_
    rw [← hpid, habsent', habsent]
    refine Carries.of_glued (SceneElement.Glued.begin ?_ hmeets (fun h => ?_) _)
    · exact ⟨_, _, rfl, rfl, hstart⟩
    · cases h

/-- An edge that stays goes where its parent goes, whether the parent stays or comes back. -/
theorem carries_staying (hold : ∀ h, old = some h → h.Named) (hnew : new.Named)
    (hshows : scene.Shows (oldNodes old)) (hattached : scene.Attached) (hhanging : scene.Hanging)
    (hs : s ∈ v.coming old new) (hinner : s.inner = true) (hstays : s.id ∈ oldIds old) :
    Carries .parent
      (((v.reconcile old new).pass.foldl Scene.apply scene).get? ⟨.node, NodeId.cutAtLast s.id⟩)
      (((v.reconcile old new).pass.foldl Scene.apply scene).get? ⟨.edge, s.id⟩) := by
  obtain ⟨p, hp, hpid, hparent, -⟩ := exists_coming_above hnew hs hinner
  have hnodup := nodup_reconcile (v := v) hold hnew
  have hedge := updates_subset hold hnew hs hstays (edge_mem_elementsOf _ _ _ hinner)
  have hids : s.id ∈ (oldNodes old).map (·.id) := by
    rw [map_id_oldNodes]
    exact hstays
  obtain ⟨n, e, hn, he, hglued⟩ := hshows.exists_glued hattached hhanging hids hinner
  obtain ⟨d, hd, hkey, hgoal, hduration⟩ : ∃ d ∈ (v.reconcile old new).pass,
      d.key = ⟨.node, p.id⟩ ∧ d.goal? = some (v.settledNode p) ∧ d.duration = v.duration := by
    by_cases hid : p.id ∈ oldIds old
    · exact ⟨_, updates_subset hold hnew hp hid (node_mem_elementsOf _ _ _ p), rfl, rfl, rfl⟩
    · exact ⟨_, creates_subset hold hnew hp hid (node_mem_elementsOf _ _ _ p), rfl, rfl, rfl⟩
  refine Carries.foldl hnodup hd hedge (hkey.trans (congrArg _ hpid)) rfl ?_
  rw [hn, he]
  exact Carries.of_glued (hglued.retarget hgoal rfl (v.settled_meets hparent) hduration)

/-- An edge that goes folds into its parent, or into the same point as its parent. -/
theorem carries_leaving (hold : ∀ h, old = some h → h.Named) (hnew : new.Named)
    (hvisible : ∀ o ∈ oldNodes old, o.visible = true) (hshows : scene.Shows (oldNodes old))
    (hattached : scene.Attached) (hhanging : scene.Hanging)
    (hs : s ∈ v.leaving old new) (hinner : s.inner = true) (hgone : s.id ∉ new.ids) :
    Carries .parent
      (((v.reconcile old new).pass.foldl Scene.apply scene).get? ⟨.node, NodeId.cutAtLast s.id⟩)
      (((v.reconcile old new).pass.foldl Scene.apply scene).get? ⟨.edge, s.id⟩) := by
  obtain ⟨p, hp, hpid, -, hanchor⟩ := exists_leaving_above hold hs hinner
  have hnodup := nodup_reconcile (v := v) hold hnew
  have hedge := removes_subset hold hnew hs hgone (edge_mem_elementsOf _ _ _ hinner)
  have hids {s : Spot α} (hs : s ∈ v.leaving old new) : s.id ∈ oldIds old := by
    rw [← v.map_id_leaving old new]
    exact List.mem_map_of_mem hs
  obtain ⟨n, e, hn, he, hglued⟩ : ∃ n e, scene.get? ⟨.node, NodeId.cutAtLast s.id⟩ = some n ∧
      scene.get? ⟨.edge, s.id⟩ = some e ∧ n.Glued .parent e := by
    refine hshows.exists_glued hattached hhanging ?_ hinner
    rw [map_id_oldNodes]
    exact hids hs
  have htoward := hanchor (visible_of_leaving hs hgone)
  by_cases hid : p.id ∈ new.ids
  · -- the parent stays: it is its own anchor and goes to its new place
    obtain ⟨⟨o, ho, hovisible⟩, q, hq, hqid, hqfinish⟩ := exists_new_of_leaving hp hid
    have hstays : q.id ∈ oldIds old := hqid ▸ hids hp
    have hnode := updates_subset hold hnew hq hstays (node_mem_elementsOf _ _ _ q)
    obtain ⟨h, rfl, hp'⟩ := mem_leaving_iff.mp hp
    have hown : s.anchor.finish = q.node.finish := by
      rw [htoward, Hierarchy.anchor_of_visible hp' (hovisible.trans (hvisible o ho)), hqfinish]
    refine Carries.foldl hnodup hnode hedge (congrArg _ (hqid.trans hpid)) rfl ?_
    rw [hn, he]
    refine Carries.of_glued (SceneElement.Glued.begin ?_ ?_ (fun _ => ?_) _)
    · exact hglued.visual
    · rw [hown]
      exact hglued.visual.fold _
    · rfl
  · -- the parent goes too, and both fold into one anchor
    have hnode := removes_subset hold hnew hp hid (node_mem_elementsOf _ _ _ p)
    refine Carries.foldl hnodup hnode hedge (congrArg _ hpid) rfl ?_
    rw [hn, he]
    refine Carries.of_glued (SceneElement.Glued.begin ?_ ?_ (fun _ => ?_) _)
    · exact hglued.visual
    · rw [htoward]
      exact hglued.visual.collapsedToward _
    · rfl

/-- **A reconciliation from rest keeps every edge at the parent.** -/
theorem hanging_reconcile (hold : ∀ h, old = some h → h.Named) (hnew : new.Named)
    (hvisible : ∀ o ∈ oldNodes old, o.visible = true) (ho : scene.Ordered)
    (hshows : scene.Shows (oldNodes old)) (hattached : scene.Attached) (hhanging : scene.Hanging) :
    (scene.applyPass (v.reconcile old new).pass).Hanging := by
  refine Scene.Hanging.advance (ho.foldl _) ?_ _
  intro id
  obtain ⟨hnodup, hrooted⟩ := distinct_oldIds hold
  have hrooted' := Hierarchy.rooted_ids hnew.lineal hnew.distinct
  have hleads := v.leads_reconcile hnodup (Hierarchy.ids_nodup hnew.distinct)
  by_cases hinner : NodeId.separator ∈ id.toList ∧ (id ∈ oldIds old ∨ id ∈ new.ids)
  · obtain ⟨hid, hthere⟩ := hinner
    by_cases hnewId : id ∈ new.ids
    · rw [← v.map_id_coming old new] at hnewId
      obtain ⟨s, hs, rfl⟩ := List.mem_map.mp hnewId
      by_cases hstays : s.id ∈ oldIds old
      · exact carries_staying hold hnew hshows hattached hhanging hs (decide_eq_true hid) hstays
      · exact carries_entering hold hnew hvisible hshows hs (decide_eq_true hid) hstays
    · rw [or_iff_left hnewId, ← v.map_id_leaving old new] at hthere
      obtain ⟨s, hs, rfl⟩ := List.mem_map.mp hthere
      exact carries_leaving hold hnew hvisible hshows hattached hhanging hs (decide_eq_true hid) hnewId
  · intro e he
    rw [hshows.get?_edge_foldl hattached (map_id_oldNodes old) hleads hrooted hrooted' hinner] at he
    cases he

/-- **So does drawing anew.** -/
theorem hanging_restyle {h : Hierarchy α} (hnamed : h.Named) (ho : scene.Ordered)
    {nodes : List (Node α)} (hnodes : nodes.map (·.id) = h.ids) (hshows : scene.Shows nodes)
    (hattached : scene.Attached) (hhanging : scene.Hanging) :
    (scene.applyPass (v.restyle h)).Hanging := by
  refine Scene.Hanging.advance (ho.foldl _) ?_ _
  intro id
  have hrooted := Hierarchy.rooted_ids hnamed.lineal hnamed.distinct
  have hleads := v.leads_restyle (Hierarchy.ids_nodup hnamed.distinct)
  by_cases hinner : NodeId.separator ∈ id.toList ∧ (id ∈ h.ids ∨ id ∈ h.ids)
  · obtain ⟨hid, hthere⟩ := hinner
    rw [or_self, ← Hierarchy.spots_map_id] at hthere
    obtain ⟨s, hs, rfl⟩ := List.mem_map.mp hthere
    have hsinner : s.inner = true := decide_eq_true hid
    obtain ⟨p, hp, hpid, hparent, -⟩ := Hierarchy.exists_spot_above hnamed.lineal hs hsinner
    have hnode : v.updateNode p ∈ v.restyle h := (mem_restyle hnamed).mpr ⟨p, hp, Or.inl rfl⟩
    have hedge : v.updateEdge s ∈ v.restyle h :=
      (mem_restyle hnamed).mpr ⟨s, hs, Or.inr ⟨hsinner, rfl⟩⟩
    rw [Hierarchy.spots_map_id, ← hnodes] at hthere
    obtain ⟨n, e, hn, he, hglued⟩ := hshows.exists_glued hattached hhanging hthere hsinner
    refine Carries.foldl hleads.nodup hnode hedge (congrArg _ hpid) rfl ?_
    rw [hn, he]
    exact Carries.of_glued (hglued.retarget rfl rfl (v.settled_meets hparent) rfl)
  · intro e he
    rw [hshows.get?_edge_foldl hattached hnodes hleads hrooted hrooted hinner] at he
    cases he

end Steps

end View

end FlowTree
