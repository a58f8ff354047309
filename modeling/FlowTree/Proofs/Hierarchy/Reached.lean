import FlowTree.Proofs.Hierarchy.Listing
import FlowTree.Proofs.Hierarchy.Refolding

/-!
# What a listing shows

Whoever follows the lists of children of a listing from the first position on, leaving out those that are
folded away, comes to just the nodes on show.

* **`Hierarchy.Reached`** are the positions that are come to; **`Hierarchy.reached_iff`** says that they are
  those of the paths of the tree on show, **`Hierarchy.exists_reached_iff`** that their ids are those on show.
* **`Hierarchy.find?_eq_some`** says that a search by id finds the one position that holds the id.
* **`Hierarchy.links_refold`** and **`Hierarchy.links_refold_at`** say what folding or unfolding a node does to
  the lists of children.
-/

namespace FlowTree

namespace Tree

variable {β : Type}

/-- A path of a cut tree is one of the whole tree. -/
theorem exists_of_at?_cut {stop : β → Bool} {t : Tree β} {path : List Nat} {s : Tree β}
    (h : (t.cut stop).at? path = some s) : ∃ s', t.at? path = some s' ∧ s = s'.cut stop := by
  induction path generalizing t with
  | nil => exact ⟨t, rfl, (Option.some.inj h).symm⟩
  | cons i path ih =>
    cases t with
    | node v cs =>
      rw [cut_node] at h
      obtain ⟨c, hc, hs⟩ := at?_cons_eq_some_iff.mp h
      split at hc
      · cases hc
      · rw [List.getElem?_map, Option.map_eq_some_iff] at hc
        obtain ⟨c', hc', rfl⟩ := hc
        obtain ⟨s', hs', rfl⟩ := ih hs
        exact ⟨s', at?_cons_eq_some_iff.mpr ⟨c', hc', hs'⟩, rfl⟩

end Tree

namespace Hierarchy

variable {α : Type}

/-! ### Positions on show -/

/-- The positions that one comes to from the first one through the lists of children on show. -/
inductive Reached (slots : List (Slot α)) : Nat → Prop
  | root : Reached slots 0
  | child {i j : Nat} {s : Slot α} (hi : Reached slots i) (hs : slots[i]? = some s) (hj : j ∈ s.children) :
      Reached slots j

/-- **The positions that are reached** are those of the nodes on show. -/
theorem reached_iff {h : Hierarchy α} {i : Nat} :
    Reached h.slots i ↔ ∃ path s, h.shown.at? path = some s ∧ i = h.place path := by
  constructor
  · intro hi
    induction hi with
    | root => exact ⟨[], _, rfl, h.place_nil.symm⟩
    | @child i j s _ hs hj ih =>
      obtain ⟨path, t, ht, rfl⟩ := ih
      obtain ⟨⟨n, cs⟩, hat, rfl⟩ := Tree.exists_of_at?_cut ht
      obtain rfl := Option.some.inj (hs.symm.trans (getElem?_place hat))
      simp only [slotOf] at hj
      split at hj
      · cases hj
      · next hopen =>
        obtain ⟨k, hk, rfl⟩ := List.mem_map.mp hj
        have hchild := List.getElem?_eq_getElem (List.mem_range.mp hk)
        refine ⟨path ++ [k], Tree.cut (·.folded) (cs.get ⟨k, List.mem_range.mp hk⟩), ?_, rfl⟩
        rw [Tree.at?_append, ht, Option.bind_some, Tree.cut_node, if_neg hopen, Tree.at?_cons,
          List.getElem?_map, hchild]
        rfl
  · rintro ⟨path, t, ht, rfl⟩
    induction path using List.reverseRecOn generalizing t with
    | nil =>
      rw [place_nil]
      exact .root
    | append_singleton path k ih =>
      rw [Tree.at?_append, Option.bind_eq_some_iff] at ht
      obtain ⟨s, hs, ht⟩ := ht
      obtain ⟨⟨n, cs⟩, hat, rfl⟩ := Tree.exists_of_at?_cut hs
      refine .child (ih _ hs) (getElem?_place hat) ?_
      rw [Tree.cut_node] at ht
      obtain ⟨c, hc, -⟩ := Tree.at?_cons_eq_some_iff.mp ht
      split at hc
      · cases hc
      · next hopen =>
        obtain ⟨hk, -⟩ := List.getElem?_eq_some_iff.mp hc
        rw [List.length_map] at hk
        simp only [slotOf, hopen, Bool.false_eq_true, if_false]
        exact List.mem_map_of_mem (List.mem_range.mpr hk)

/-- **Their ids** are the ids on show. -/
theorem exists_reached_iff {h : Hierarchy α} {id : String} :
    (∃ i s, Reached h.slots i ∧ h.slots[i]? = some s ∧ s.node.id = id) ↔ id ∈ h.ids := by
  rw [ids, descendants, ((Tree.breadthFirst_perm _).map _).mem_iff, List.mem_map]
  constructor
  · rintro ⟨i, s, hi, hs, rfl⟩
    obtain ⟨path, t, ht, rfl⟩ := reached_iff.mp hi
    obtain ⟨⟨n, cs⟩, hat, rfl⟩ := Tree.exists_of_at?_cut ht
    obtain rfl := Option.some.inj (hs.symm.trans (getElem?_place hat))
    refine ⟨n, ?_, rfl⟩
    have hvalue := Tree.value_mem_preorder ht
    rwa [Tree.value_cut] at hvalue
  · rintro ⟨n, hn, rfl⟩
    obtain ⟨path, t, ht, rfl⟩ := Tree.exists_at? hn
    obtain ⟨⟨n, cs⟩, hat, rfl⟩ := Tree.exists_of_at?_cut ht
    exact ⟨h.place path, _, reached_iff.mpr ⟨path, _, ht, rfl⟩, getElem?_place hat, by
      rw [Tree.value_cut]; rfl⟩

/-! ### Searching by id -/

theorem map_node_slots (h : Hierarchy α) : h.slots.map (·.node) = h.nodes := by
  have hlocated : ∀ l : List (List Nat × Node α × Nat), l.map (fun x => (h.slotOf x).node) =
      (l.map (·.2)).map (·.1) := by
    intro l
    rw [List.map_map]
    rfl
  rw [slots_eq, List.map_map, entries, nodes]
  cases h.listing with
  | depthFirst =>
    refine (hlocated _).trans ?_
    rw [places_eq, Tree.map_snd_located_preorder, ← Tree.preorder_map, Tree.map_fst_counted]
  | levelByLevel =>
    refine (hlocated _).trans ?_
    rw [places_eq, Tree.map_snd_located_breadthFirst, ← Tree.breadthFirst_map, Tree.map_fst_counted]

theorem nodes_perm (h : Hierarchy α) : h.nodes.Perm h.tree.preorder := by
  rw [nodes]
  split
  · exact .refl _
  · exact Tree.breadthFirst_perm _

/-- **A search by id** finds the one position that holds the id, be it on show or not. -/
theorem find?_eq_some {h : Hierarchy α} (hd : h.Distinct) {i : Nat} {s : Slot α} (hs : h.slots[i]? = some s) :
    h.find? s.node.id = some i := by
  have hnodup : (h.nodes.map (·.id)).Nodup := (h.nodes_perm.map _).nodup_iff.mpr hd
  have hnode : h.nodes[i]? = some s.node := by rw [← map_node_slots, List.getElem?_map, hs]; rfl
  obtain ⟨hi, hget⟩ := List.getElem?_eq_some_iff.mp hnode
  rw [find?, List.findIdx?_eq_some_iff_getElem]
  refine ⟨hi, by rw [hget, beq_self_eq_true], fun j hj => ?_⟩
  have hne := List.pairwise_iff_getElem.mp hnodup j i (by simpa using Nat.lt_trans hj hi) (by simpa using hi) hj
  rw [List.getElem_map, List.getElem_map, hget] at hne
  rwa [beq_iff_eq]

/-- The listing has the node of a path at its position. -/
theorem getElem?_nodes {h : Hierarchy α} {path : List Nat} {n : Node α} {cs : List (Tree (Node α))}
    (hat : h.tree.at? path = some (.node n cs)) : h.nodes[h.place path]? = some n := by
  rw [← map_node_slots, List.getElem?_map, getElem?_place hat]
  rfl

/-- The node at a position is found there by its id. -/
theorem find?_of_getElem? {h : Hierarchy α} (hd : h.Distinct) {i : Nat} {n : Node α} (hn : h.nodes[i]? = some n) :
    h.find? n.id = some i := by
  rw [← map_node_slots, List.getElem?_map] at hn
  obtain ⟨s, hs, rfl⟩ := Option.map_eq_some_iff.mp hn
  exact find?_eq_some hd hs

/-! ### Folding and unfolding -/

/-- What folding or unfolding does to a node with so many children. -/
def reverse (id : String) (x : Node α × Nat) : Node α × Nat :=
  (if x.1.id == id && x.2 != 0 then { x.1 with folded := !x.1.folded } else x.1, x.2)

theorem counted_flip (id : String) (t : Tree (Node α)) : (flip id t).counted = t.counted.map (reverse id) := by
  induction t with
  | node n cs ih =>
    rw [flip_node, Tree.counted_node, Tree.counted_node, Tree.map_node, List.length_map, List.map_map,
      List.map_map]
    congr 1
    · rw [reverse]
      cases cs <;> rfl
    · exact List.map_congr_left ih

theorem entries_refold (id : String) (h : Hierarchy α) :
    (h.refold id).entries = h.entries.map fun x => (x.1, reverse id x.2) := by
  have hplaces : places (flip id h.tree) = (places h.tree).map fun x => (x.1, reverse id x.2) := by
    rw [places_eq, counted_flip, Tree.located_eq, Tree.locatedAt_map]
    rfl
  rw [entries, refold, hplaces, entries]
  cases h.listing with
  | depthFirst => exact Tree.preorder_map _ _
  | levelByLevel => exact Tree.breadthFirst_map _ _

theorem place_refold (id : String) (h : Hierarchy α) : (h.refold id).place = h.place := by
  funext path
  rw [place, place, paths, paths, entries_refold, List.map_map]
  rfl

/-- A slot with its two lists of children exchanged, the mark of the node apart. -/
theorem slotOf_refold (id : String) (h : Hierarchy α) (x : List Nat × Node α × Nat) :
    (h.refold id).slotOf (x.1, reverse id x.2) = if x.2.1.id = id then
      { h.slotOf x with
        node := (reverse id x.2).1, children := (h.slotOf x).hidden, hidden := (h.slotOf x).children }
      else h.slotOf x := by
  obtain ⟨path, n, count⟩ := x
  simp only [slotOf, place_refold, reverse]
  by_cases hid : n.id = id
  · cases count with
    | zero => cases n.folded <;> simp [hid]
    | succ count => cases n.folded <;> simp [hid]
  · simp [hid]

theorem id_reverse (id : String) (x : Node α × Nat) : (reverse id x).1.id = x.1.id := by
  rw [reverse]
  split <;> rfl

/-- **Folding or unfolding a node** exchanges its two lists of children and leaves all others alone. -/
theorem links_refold (id : String) (h : Hierarchy α) :
    (h.refold id).links = h.links.map fun x => if x.1 = id then (x.1, x.2.2, x.2.1) else x := by
  rw [links, links, slots_eq, slots_eq, entries_refold, List.map_map, List.map_map, List.map_map,
    List.map_map]
  refine List.map_congr_left fun x _ => ?_
  have hnode : (h.slotOf x).node = x.2.1 := rfl
  simp only [Function.comp_apply, slotOf_refold, hnode]
  by_cases hid : x.2.1.id = id
  · simp [hid, id_reverse]
  · simp [hid, hnode]

/-- Distinct ids make this one position. -/
theorem links_refold_at {h : Hierarchy α} (hd : h.Distinct) {i : Nat} {s : Slot α}
    (hs : h.slots[i]? = some s) :
    (h.refold s.node.id).links = h.links.modify i fun x => (x.1, x.2.2, x.2.1) := by
  rw [links_refold]
  apply List.ext_getElem?
  intro j
  rw [List.getElem?_map, List.getElem?_modify, links, List.getElem?_map, Option.map_eq_map, Option.map_map,
    Option.map_map]
  cases hj : h.slots[j]? with
  | none => rfl
  | some c =>
    have hiff : c.node.id = s.node.id ↔ i = j := by
      constructor
      · intro hid
        have hfound := find?_eq_some hd hj
        rw [hid, find?_eq_some hd hs] at hfound
        exact Option.some.inj hfound
      · rintro rfl
        rw [Option.some.inj (hs.symm.trans hj)]
    by_cases hij : i = j <;> simp [hiff, hij]

end Hierarchy

end FlowTree
