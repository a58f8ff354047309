import FlowTree.Layout.Placement
import FlowTree.Proofs.Identity
import FlowTree.Series

/-!
# What changes of a hierarchy keep

Placing, folding and the marks of a pass change single fields of the nodes; the ids, the informations
and the shape of a hierarchy stay for ever.

* **`Hierarchy.skeleton`** is what stays; **`Hierarchy.map_layout`**, **`Hierarchy.map_updateShown`** and
  **`Hierarchy.map_flip`** say so for everything that does not read the changed field.
* **`Hierarchy.Distinct`** says that no two nodes share an id; so it is in the runs of a series
  (**`Series.distinct_build`**).
* **`Hierarchy.ids_prune`** says that the part on show as a hierarchy of its own lists the same ids.
-/

namespace FlowTree

variable {α γ : Type}

namespace Hierarchy

/-- The ids and the informations of all nodes, those that are folded away included. -/
def skeleton (h : Hierarchy α) : Tree (String × NodeInfo α) := h.tree.map fun n => (n.id, n.info)

/-! ### Changes of single fields -/

mutual

theorem map_moveTo {g : Node α → γ} (hg : ∀ n p, g { n with finish := p } = g n) :
    ∀ (t : Tree (Node α)) (ps : Tree (Point α)), (moveTo t ps).map g = t.map g
  | .node n cs, .node p ps => by
    rw [moveTo, Tree.map_node, Tree.map_node, hg, map_moveAllTo hg cs ps]

theorem map_moveAllTo {g : Node α → γ} (hg : ∀ n p, g { n with finish := p } = g n) :
    ∀ (cs : List (Tree (Node α))) (ps : List (Tree (Point α))),
      (moveAllTo cs ps).map (Tree.map g) = cs.map (Tree.map g)
  | [], [] => rfl
  | [], _ :: _ => rfl
  | _ :: _, [] => rfl
  | c :: cs, p :: ps => by
    rw [moveAllTo, List.map_cons, List.map_cons, map_moveTo hg c p, map_moveAllTo hg cs ps]

end

/-- Placing the nodes changes only where they go. -/
theorem map_layout [Scalar α] {g : Node α → γ} (hg : ∀ n p, g { n with finish := p } = g n)
    (h : Hierarchy α) (canvas : Canvas α) : (h.layout canvas).tree.map g = h.tree.map g :=
  map_moveTo hg _ _

theorem map_updateShown {f : Node α → Node α} {g : Node α → γ} (hg : ∀ n, g (f n) = g n)
    (h : Hierarchy α) : (h.updateShown f).tree.map g = h.tree.map g :=
  Tree.map_mapAbove hg h.tree

theorem flip_node (id : String) (n : Node α) (cs : List (Tree (Node α))) :
    flip id (.node n cs) =
      .node (if n.id == id && !cs.isEmpty then { n with folded := !n.folded } else n)
        (cs.map (flip id)) := by
  rw [flip, Tree.fold_node, List.isEmpty_map]

/-- Folding and unfolding changes only the marks of folded nodes. -/
theorem map_flip {g : Node α → γ} (hg : ∀ n b, g { n with folded := b } = g n) (id : String)
    (t : Tree (Node α)) : (flip id t).map g = t.map g := by
  induction t with
  | node n cs ih =>
    rw [flip_node, Tree.map_node, Tree.map_node, List.map_map]
    congr 1
    · split
      · exact hg n _
      · rfl
    · exact List.map_congr_left ih

theorem map_updateRoot {f : Node α → Node α} {g : Node α → γ} (hg : ∀ n, g (f n) = g n)
    (h : Hierarchy α) : (h.updateRoot f).tree.map g = h.tree.map g := by
  obtain ⟨⟨n, cs⟩, listing⟩ := h
  rw [updateRoot, Tree.map_node, Tree.map_node, hg]
  rfl

/-! ### Ids -/

/-- No two nodes share an id, not even if they are folded away. -/
def Distinct (h : Hierarchy α) : Prop := (h.tree.preorder.map (·.id)).Nodup

theorem distinct_iff (h : Hierarchy α) :
    h.Distinct ↔ (h.skeleton.preorder.map (·.1)).Nodup := by
  rw [Distinct, skeleton, Tree.preorder_map, List.map_map]
  rfl

theorem Distinct.of_skeleton {h h' : Hierarchy α} (hd : h.Distinct)
    (heq : h'.skeleton = h.skeleton) : h'.Distinct := by
  rw [distinct_iff, heq, ← distinct_iff]
  exact hd

/-- Folding and unfolding keeps the ids and the informations. -/
theorem skeleton_toggle? {h h' : Hierarchy α} {id : String} {t : Toggle}
    (ht : h.toggle? id = some (t, h')) : h'.skeleton = h.skeleton := by
  rw [toggle?, Option.map_eq_some_iff] at ht
  obtain ⟨b, -, heq⟩ := ht
  cases heq
  exact map_flip (fun _ _ => rfl) id h.tree

theorem ids_nodup {h : Hierarchy α} (hd : h.Distinct) : h.ids.Nodup := by
  have hshown : (h.shown.preorder.map (·.id)).Nodup :=
    hd.sublist ((Tree.preorder_cut_sublist _ h.tree).map _)
  exact ((Tree.breadthFirst_perm h.shown).map _).nodup_iff.mpr hshown

/-- The ids on show depend on the ids and on what is folded. -/
theorem ids_congr {h h' : Hierarchy α}
    (heq : (h.tree.map fun n => (n.id, n.folded)) = h'.tree.map fun n => (n.id, n.folded)) :
    h.ids = h'.ids := by
  have hids : ∀ k : Hierarchy α, k.ids =
      ((k.tree.map fun n => (n.id, n.folded)).cut (·.2)).breadthFirst.map (·.1) := by
    intro k
    rw [← Tree.map_cut (fun n : Node α => (n.id, n.folded)) (·.2), Tree.breadthFirst_map,
      List.map_map]
    rfl
  rw [hids, hids, heq]

theorem ids_layout [Scalar α] (h : Hierarchy α) (canvas : Canvas α) :
    (h.layout canvas).ids = h.ids :=
  ids_congr (map_layout (fun _ _ => rfl) h canvas)

theorem ids_updateShown {f : Node α → Node α}
    (hf : ∀ n, (f n).id = n.id ∧ (f n).folded = n.folded) (h : Hierarchy α) :
    (h.updateShown f).ids = h.ids :=
  ids_congr (map_updateShown (fun n => Prod.ext (hf n).1 (hf n).2) h)

/-! ### The part on show -/

theorem nodes_prune (h : Hierarchy α) :
    h.prune.nodes = h.descendants.map fun n => { n with folded := false } :=
  Tree.breadthFirst_map _ _

theorem ids_prune (h : Hierarchy α) : h.prune.ids = h.ids := by
  have hwhole : h.prune.shown = h.prune.tree := by
    refine Tree.cut_of_forall fun n hn => ?_
    rw [prune, Tree.preorder_map] at hn
    obtain ⟨m, -, rfl⟩ := List.mem_map.mp hn
    rfl
  rw [ids, descendants, hwhole, prune, Tree.breadthFirst_map, List.map_map]
  rfl

theorem Distinct.prune {h : Hierarchy α} (hd : h.Distinct) : h.prune.Distinct := by
  have hids : h.prune.tree.preorder.map (·.id) = h.shown.preorder.map (·.id) := by
    rw [Hierarchy.prune, Tree.preorder_map, List.map_map]
    rfl
  rw [Distinct, hids]
  exact hd.sublist ((Tree.preorder_cut_sublist _ h.tree).map _)

end Hierarchy

/-! ### The runs of a series -/

namespace Series

variable [Scalar α]

theorem skeleton_runOf (canvas : Canvas α) (t : DatedTree α) :
    (runOf canvas t).tree.skeleton = (Hierarchy.ofTree t.tree).skeleton := by
  refine Hierarchy.map_updateRoot ?_ _
  exact fun _ => rfl

theorem distinct_runOf (canvas : Canvas α) (t : DatedTree α) :
    (runOf canvas t).tree.Distinct := by
  rw [Hierarchy.distinct_iff, skeleton_runOf]
  exact (Hierarchy.distinct_iff _).mp (Hierarchy.ids_ofTree_nodup t.tree)

/-- In every run of a series the ids are distinct. -/
theorem distinct_build (trees : List (DatedTree α)) (canvas : Canvas α) :
    ∀ r ∈ build trees canvas, r.tree.Distinct := by
  intro r hr
  obtain ⟨t, -, rfl⟩ := List.mem_map.mp hr
  exact distinct_runOf canvas t

end Series

end FlowTree
