import FlowTree.Proofs.Hierarchy.Lineage

/-!
# Folding a node on show

Folding or unfolding a node hides or shows what is below it and nothing else: a node stays on show as long
as none of its ancestors is touched.

* **`Tree.mem_lineages_node`** says how the ancestors of a value in a subtree go on; with distinct keys no
  value is among its own ancestors (**`Tree.key_ne_of_mem_lineage`**).
* **`Hierarchy.refold`** folds or unfolds one node; **`Hierarchy.refold_refold`** undoes it and
  **`Hierarchy.refold_comm`** exchanges two of them.
* **`Hierarchy.mem_ids_refold`** says which nodes stay on show.
-/

namespace FlowTree

namespace Tree

variable {β : Type}

theorem lineagesBelow_eq_map (above : List β) (t : Tree β) :
    t.lineagesBelow above = t.lineages.map fun x => (x.1, x.2 ++ above) := by
  induction t generalizing above with
  | node v cs ih =>
    rw [lineages, lineagesBelow_node, lineagesBelow_node, map_node, List.map_map]
    congr 1
    refine List.map_congr_left fun c hc => ?_
    rw [Function.comp_apply, ih c hc (v :: above), ih c hc [v], map_map]
    congr 1
    funext x
    simp

/-- The ancestors of a value are those inside the subtree that holds it, and the root. -/
theorem mem_lineages_node {v x : β} {cs : List (Tree β)} {above : List β} :
    (x, above) ∈ (node v cs).lineages.preorder ↔
      (x = v ∧ above = []) ∨
        ∃ c ∈ cs, ∃ inside, (x, inside) ∈ c.lineages.preorder ∧ above = inside ++ [v] := by
  rw [lineages, lineagesBelow_node, preorder_node, List.mem_cons, Prod.mk.injEq, List.mem_flatMap]
  refine or_congr_right ?_
  simp only [List.mem_map, exists_exists_and_eq_and]
  refine exists_congr fun c => and_congr_right fun _ => ?_
  rw [lineagesBelow_eq_map, preorder_map, List.mem_map]
  constructor
  · rintro ⟨⟨y, inside⟩, hy, heq⟩
    cases heq
    exact ⟨inside, hy, rfl⟩
  · rintro ⟨inside, hinside, rfl⟩
    exact ⟨_, hinside, rfl⟩

/-- With distinct keys no value is among its own ancestors. -/
theorem key_ne_of_mem_lineage {γ : Type} (key : β → γ) {t : Tree β} (h : (t.preorder.map key).Nodup)
    {x : β} {above : List β} (hx : (x, above) ∈ t.lineages.preorder) :
    ∀ y ∈ above, key y ≠ key x := by
  induction t generalizing above with
  | node v cs ih =>
    rw [preorder_node, List.map_cons, List.nodup_cons] at h
    rcases mem_lineages_node.mp hx with ⟨-, rfl⟩ | ⟨c, hc, inside, hinside, rfl⟩
    · exact fun y hy => absurd hy List.not_mem_nil
    · intro y hy
      rcases List.mem_append.mp hy with hy | hy
      · refine ih c hc (h.2.sublist ?_) hinside y hy
        exact (List.sublist_flatten_of_mem (List.mem_map_of_mem hc)).map key
      · obtain rfl := List.mem_singleton.mp hy
        intro heq
        refine h.1 (heq ▸ List.mem_map_of_mem ?_)
        exact List.mem_flatMap.mpr ⟨c, hc, fst_mem_of_mem_lineages hinside⟩

end Tree

namespace Hierarchy

variable {α : Type}

/-! ### One node -/

/-- The hierarchy with the children of one node folded or unfolded. -/
def refold (id : String) (h : Hierarchy α) : Hierarchy α := { h with tree := flip id h.tree }

/-- A node of the tree can be folded or unfolded. -/
theorem exists_toggle? {h : Hierarchy α} {id : String} (hid : id ∈ h.tree.preorder.map (·.id)) :
    ∃ toggle, h.toggle? id = some (toggle, h.refold id) := by
  cases ht : h.toggle? id with
  | none =>
    obtain ⟨n, hn, heq⟩ := List.mem_map.mp hid
    exact absurd heq (ne_of_toggle?_eq_none ht n hn)
  | some found =>
    obtain ⟨toggle, h'⟩ := found
    exact ⟨toggle, by rw [tree_of_toggle? ht, refold]⟩

/-- Only a node of the tree can be folded or unfolded. -/
theorem toggle?_eq_none {h : Hierarchy α} {id : String} (hid : id ∉ h.tree.preorder.map (·.id)) :
    h.toggle? id = none := by
  rw [toggle?, Option.map_eq_none_iff, branch?, List.find?_eq_none]
  intro b hb
  rw [beq_iff_eq]
  rintro rfl
  rw [← map_value_branches, List.map_map] at hid
  exact hid (List.mem_map_of_mem hb)

/-- What is folded and unfolded is as before. -/
theorem refold_refold (id : String) (h : Hierarchy α) : (h.refold id).refold id = h := by
  rw [refold, refold, flip_eq_flipWhere, flip_eq_flipWhere, flipWhere_flipWhere,
    flipWhere_of_forall fun _ _ => Bool.xor_self _]

/-- The order in which two nodes are folded or unfolded does not matter. -/
theorem refold_comm (a b : String) (h : Hierarchy α) :
    (h.refold a).refold b = (h.refold b).refold a := by
  simp only [refold, flip_eq_flipWhere, flipWhere_flipWhere]
  congr 2
  funext id
  exact Bool.xor_comm _ _

theorem frame_refold_congr {h h' : Hierarchy α} (hframe : h.frame = h'.frame) (id : String) :
    (h.refold id).frame = (h'.refold id).frame := by
  have hflip : ∀ k : Hierarchy α, k.refold id = k.toggleAll [id] := by
    intro k
    rw [toggleAll_eq, refold, flip_eq_flipWhere]
    congr 2
    funext x
    rw [isOdd_cons]
    exact (Bool.false_xor _).symm
  rw [hflip, hflip]
  exact frame_toggleAll_congr hframe fun _ => rfl

theorem skeleton_refold (id : String) (h : Hierarchy α) : (h.refold id).skeleton = h.skeleton :=
  map_flip (fun _ _ => rfl) id h.tree

theorem start_root_refold (id : String) (h : Hierarchy α) :
    (h.refold id).root.start = h.root.start := by
  have hstart := congrArg Tree.value (map_flip (g := fun n => n.start) (fun _ _ => rfl) id h.tree)
  rwa [Tree.value_map, Tree.value_map] at hstart

/-! ### What stays on show -/

theorem mem_shown_flip {a : String} {t : Tree (Node α)} {n : Node α} {above : List (Node α)}
    (hx : (n, above) ∈ (t.cut (·.folded)).lineages.preorder) (ha : ∀ m ∈ above, m.id ≠ a) :
    n.id ∈ ((flip a t).cut (·.folded)).preorder.map (·.id) := by
  induction t generalizing above with
  | node v cs ih =>
    rw [Tree.cut_node, Tree.mem_lineages_node] at hx
    rw [flip_node, Tree.cut_node, Tree.preorder_node, List.map_cons, List.mem_cons]
    rcases hx with ⟨rfl, -⟩ | ⟨c', hc', inside, hinside, rfl⟩
    · left
      split <;> rfl
    · right
      -- the root is an ancestor, so it is neither folded nor touched
      have hopen : v.folded = false := by
        by_contra hfolded
        rw [Bool.not_eq_false] at hfolded
        rw [hfolded] at hc'
        exact List.not_mem_nil hc'
      have huntouched : (v.id == a && !cs.isEmpty) = false := by
        rw [beq_false_of_ne (ha v (List.mem_append_right _ List.mem_cons_self)), Bool.false_and]
      rw [hopen, if_neg Bool.false_ne_true] at hc'
      obtain ⟨c, hc, rfl⟩ := List.mem_map.mp hc'
      have hbelow := ih c hc hinside fun m hm => ha m (List.mem_append_left _ hm)
      simp only [huntouched, hopen, Bool.false_eq_true, if_false, List.map_flatMap, List.mem_flatMap,
        List.map_map, List.mem_map (f := _ ∘ _), Function.comp_apply]
      exact ⟨_, ⟨c, hc, rfl⟩, hbelow⟩

/-- **A node stays on show** as long as none of its ancestors is folded. -/
theorem mem_ids_refold {h : Hierarchy α} {a : String} {n : Node α} {above : List (Node α)}
    (hx : (n, above) ∈ h.shown.lineages.preorder) (ha : ∀ m ∈ above, m.id ≠ a) :
    n.id ∈ (h.refold a).ids := by
  rw [ids, descendants, ((Tree.breadthFirst_perm _).map _).mem_iff]
  exact mem_shown_flip hx ha

end Hierarchy

end FlowTree
