import FlowTree.Proofs.Arena.Listing
import FlowTree.Proofs.Hierarchy.Drawn

/-!
# Changed nodes in arrays

As long as nothing is folded, renamed or moved to another parent, a changed hierarchy differs from what it was in
its nodes only, position by position.

* **`Hierarchy.arena_of_frame`** says so.
* **`Hierarchy.arena_updateRoot`** and **`Hierarchy.arena_updateShown`** are the changes of the root and of all
  nodes on show.
-/

namespace FlowTree

variable {α : Type}

namespace Tree

variable {β : Type}

/-- What is at the end of a path of a tree whose values have been changed down to some of them. -/
theorem at?_mapAbove {stop : β → Bool} (f : β → β) (t : Tree β) (path : List ℕ) :
    (t.mapAbove stop f).at? path =
      (t.at? path).map fun s => if ((t.cut stop).at? path).isSome then s.mapAbove stop f else s := by
  induction path generalizing t with
  | nil => rfl
  | cons i path ih =>
    obtain ⟨v, cs⟩ := t
    rw [mapAbove_node, at?_cons, at?_cons, cut_node, at?_cons]
    cases hstop : stop v with
    | true => simp
    | false =>
      simp only [Bool.false_eq_true, if_false, List.getElem?_map]
      cases cs[i]? with
      | none => rfl
      | some c => exact ih c

end Tree

namespace Hierarchy

/-- The change keeps the id, the information and what is folded, and does not ask for the latter. -/
structure Stamps (f : Node α → Node α) : Prop where
  keeps : ∀ n, ((f n).id, (f n).info, (f n).folded) = (n.id, n.info, n.folded)
  plain : ∀ n : Node α, f { n with folded := false } = { f n with folded := false }

theorem place_mem_onShow_iff {h : Hierarchy α} {path : List ℕ} {t : Tree (Node α)}
    (hat : h.tree.at? path = some t) :
    h.place path ∈ h.onShow.breadthFirst ↔ (h.shown.at? path).isSome = true := by
  rw [mem_onShow_iff, Option.isSome_iff_exists]
  constructor
  · rintro ⟨p, s, hs, heq⟩
    exact ⟨s, place_inj hat heq.symm ▸ hs⟩
  · rintro ⟨s, hs⟩
    exact ⟨path, s, hs, rfl⟩

/-- **A hierarchy with other nodes** has them in the place of the old ones. -/
theorem arena_of_frame {h h' : Hierarchy α} (hlisting : h'.listing = h.listing) (hframe : h'.frame = h.frame)
    {g : ℕ → Slot α → Slot α}
    (hg : ∀ path n cs n' cs', h.tree.at? path = some (.node n cs) → h'.tree.at? path = some (.node n' cs') →
      ∀ s : Slot α, s.node = { n with folded := false } → s.depth = path.length →
        g (h.place path) s = { s with node := { n' with folded := false } }) :
    h'.arena = h.arena.mapIdx g := by
  have hplace := place_congr hlisting hframe
  symm
  refine eq_arena ?_ ?_
  · have hlength := congrArg (fun t => t.preorder.length) hframe
    simp only [frame, Tree.preorder_map, List.length_map] at hlength
    rw [List.length_mapIdx, length_arena, hlength]
  · intro path n' cs' hat'
    -- the node that stands there in the old hierarchy
    obtain ⟨⟨n, cs⟩, hat, heq⟩ : ∃ t, h.tree.at? path = some t ∧
        t.map (fun n => (n.id, n.info, n.folded)) = (Tree.node n' cs').map fun n => (n.id, n.info, n.folded) := by
      have hmap := congrArg (fun t => t.at? path) hframe
      simp only [frame, Tree.at?_map, hat', Option.map_some] at hmap
      exact Option.map_eq_some_iff.mp hmap.symm
    rw [Tree.map_node, Tree.map_node, Tree.node.injEq] at heq
    have hlength := congrArg List.length heq.2
    rw [List.length_map, List.length_map] at hlength
    have hfolded : n.folded = n'.folded := congrArg (·.2.2) heq.1
    rw [hplace, List.getElem?_mapIdx, getElem?_arena hat, Option.map_some,
      hg path n cs n' cs' hat hat' _ rfl rfl, slotOf, slotOf, hplace, hlength]
    simp only [Slot.plain, hfolded]

/-- The root alone is changed at the first position. -/
theorem arena_updateRoot {f : Node α → Node α} (hf : Stamps f) (h : Hierarchy α) :
    (h.updateRoot f).arena = h.arena.modify 0 fun s => { s with node := f s.node } := by
  have hlisting : (h.updateRoot f).listing = h.listing := rfl
  rw [Checked.modify_eq_mapIdx]
  refine arena_of_frame hlisting (map_updateRoot hf.keeps h) ?_
  intro path n cs n' cs' hat hat' s hs _
  have htree : (h.updateRoot f).tree = .node (f h.root) h.tree.children := rfl
  rw [htree] at hat'
  cases hroot : h.tree with
  | node m ds =>
    rw [hroot] at hat
    rw [root, hroot] at hat'
    rcases path with _ | ⟨i, path⟩
    · cases hat
      cases hat'
      rw [place_nil, if_pos rfl, hs, hf.plain]
      rfl
    · rw [Tree.at?_cons] at hat
      rw [Tree.at?_cons] at hat'
      have hsame := hat.symm.trans hat'
      cases hsame
      have hne : h.place (i :: path) ≠ 0 := by
        rw [← place_nil h]
        refine fun heq => List.cons_ne_nil i path (place_inj (t := .node n cs) ?_ heq)
        rw [hroot, Tree.at?_cons]
        exact hat
      rw [if_neg hne, ← hs]

/-- All nodes on show are changed at their positions. -/
theorem arena_updateShown {f : Node α → Node α} (hf : Stamps f) (h : Hierarchy α) :
    (h.updateShown f).arena = h.arena.mapIdx fun i s =>
      if i ∈ h.onShow.breadthFirst then { s with node := f s.node } else s := by
  have hlisting : (h.updateShown f).listing = h.listing := rfl
  refine arena_of_frame hlisting (map_updateShown hf.keeps h) ?_
  intro path n cs n' cs' hat hat' s hs _
  have hshown := place_mem_onShow_iff hat
  have hmap : (h.updateShown f).tree.at? path =
      some (if (h.shown.at? path).isSome then (Tree.node n cs).mapAbove (·.folded) f else .node n cs) := by
    rw [updateShown, Tree.at?_mapAbove, hat]
    rfl
  rw [hmap, Option.some.injEq] at hat'
  by_cases hon : (h.shown.at? path).isSome = true
  · rw [if_pos hon, Tree.mapAbove_node] at hat'
    cases hat'
    rw [if_pos (hshown.mpr hon), hs, hf.plain]
  · rw [if_neg hon] at hat'
    cases hat'
    rw [if_neg fun hmem => hon (hshown.mp hmem), ← hs]

end Hierarchy

end FlowTree
