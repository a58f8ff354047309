import FlowTree.Proofs.Arena.Edits
import FlowTree.Proofs.Hierarchy.Pruned

/-!
# Pruning after edits

Pruning numbers the nodes on show anew, from depth first to level by level, and placing numbers them once more.  All three
numberings are of one tree.

* **`Hierarchy.Slot.Translated`** and **`Arena.Copies`** say that a copy has the chosen positions with translated links.
* **`Arena.Pruned`** says what there is to say about a pruned array, **`Hierarchy.pruned_arena`** that so it is for the
  array of every hierarchy.
* **`Hierarchy.prune_after_edits`** comes to such a hierarchy from a tree of a document.
-/

namespace FlowTree

variable {α : Type}

open Hierarchy (Slot Reached)

/-! ### Copies -/

/-- A slot and its copy, whose position `k` stands for the position `order[k]`. -/
structure Hierarchy.Slot.Translated (order : List ℕ) (s copy : Slot α) : Prop where
  node : copy.node = s.node
  depth : copy.depth = s.depth
  hidden : copy.hidden = []
  children : copy.children.map (order[·]?) = s.children.map some
  parent : copy.parent.map (order[·]?) = s.parent.map some

namespace Arena

/-- The array `p` has a copy of every position of a list, in the order of the list, and nothing else. -/
structure Copies (a : Arena α) (order : List ℕ) (p : Arena α) : Prop where
  nodup : order.Nodup
  length : p.length = order.length
  slots : ∀ k i : ℕ, order[k]? = some i →
    ∃ s copy : Slot α, a[i]? = some s ∧ p[k]? = some copy ∧ s.Translated order copy

/-- The array `p` is what is left of `a` if all that is folded away is dropped. -/
structure Pruned [Scalar α] (a p : Arena α) : Prop where
  run : a.prune = .ok p
  /-- It has the nodes on show, level by level, and is listed level by level itself. -/
  copies : ∃ order, a.descendants = .ok order ∧ (∀ i, i ∈ order ↔ Reached a i) ∧ a.Copies order p ∧
    p.descendants = .ok (List.range order.length)
  height : ∃ height, a.height = .ok height ∧ p.height = .ok height
  again : p.prune = .ok p
  /-- Placing what is left leaves what is left of the placed array. -/
  layout : ∀ canvas, ∃ b q, a.layout canvas = .ok b ∧ b.prune = .ok q ∧ p.layout canvas = .ok q

end Arena

namespace Hierarchy

/-! ### Positions -/

/-- What is reached depends on the lists of children only. -/
theorem Reached.congr {slots slots' : List (Slot α)} (h : slots.map (·.children) = slots'.map (·.children)) {i : ℕ}
    (hi : Reached slots i) : Reached slots' i := by
  induction hi with
  | root => exact .root
  | @child i j s _ hs hj ih =>
    obtain ⟨s', hs', heq⟩ := Checked.exists_of_map_eq h.symm hs
    exact .child ih hs' (heq ▸ hj)

theorem reached_arena_iff {h : Hierarchy α} {i : ℕ} : Reached h.arena i ↔ i ∈ h.onShow.breadthFirst := by
  have hchildren : h.arena.map (·.children) = h.slots.map (·.children) := by
    rw [arena, List.map_map]
    rfl
  have hslots : Reached h.arena i ↔ Reached h.slots i := ⟨.congr hchildren, .congr hchildren.symm⟩
  rw [hslots, reached_iff, mem_onShow_iff]
  simp only [eq_comm (a := i)]

/-- The new position of a node on show stands for its old one. -/
theorem getElem?_order {h : Hierarchy α} {path : List ℕ} {t : Tree (Node α)} (hat : h.shown.at? path = some t) :
    h.onShow.breadthFirst[h.prune.place path]? = some (h.place path) := by
  have hnodup : (h.onShow.breadthFirst.zipIdx.map (·.1)).Nodup := by
    rw [List.zipIdx_map_fst]
    exact h.nodup_onShow
  rw [← List.mk_mem_zipIdx_iff_getElem?, ← Checked.find?_eq_some_iff hnodup]
  exact find?_numbers hat

theorem paths_eq_order (h : Hierarchy α) : h.prune.paths.map h.place = h.onShow.breadthFirst := by
  rw [paths_prune, breadthFirst_onShow_eq, List.map_map]
  rfl

theorem length_prune (h : Hierarchy α) : h.prune.arena.length = h.onShow.breadthFirst.length := by
  rw [← paths_eq_order, List.length_map, paths, List.length_map, arena, List.length_map, slots_eq, List.length_map]

/-- A node of the pruned hierarchy stands for one on show. -/
theorem exists_shown {h : Hierarchy α} {k i : ℕ} (hk : h.onShow.breadthFirst[k]? = some i) :
    ∃ path n cs, h.shown.at? path = some (.node n cs) ∧ h.place path = i ∧ h.prune.place path = k := by
  have hlt : k < h.prune.slots.length := by
    have hbound := (List.getElem?_eq_some_iff.mp hk).1
    rwa [← length_prune, arena, List.length_map] at hbound
  obtain ⟨path, n', cs', hat', rfl, -⟩ := exists_of_getElem? (List.getElem?_eq_getElem hlt)
  rw [tree_prune, Tree.at?_map, Option.map_eq_some_iff] at hat'
  obtain ⟨⟨n, cs⟩, hat, -⟩ := hat'
  exact ⟨path, n, cs, hat, Option.some.inj ((getElem?_order hat).symm.trans hk), rfl⟩

/-- **What is pruned is listed level by level.** -/
theorem onShow_prune (h : Hierarchy α) :
    h.prune.onShow.breadthFirst = List.range h.onShow.breadthFirst.length := by
  rw [← paths_eq_order h.prune, prune_prune, map_place_paths, ← paths_eq_order h, List.length_map]

/-! ### Copies of the nodes on show -/

/-- A slot of a node on show and its copy. -/
theorem translated_slotOf {h : Hierarchy α} {path : List ℕ} {n : Node α} {cs : List (Tree (Node α))} {count : ℕ}
    (hat : h.shown.at? path = some (.node n cs))
    (hchildren : (h.slotOf (path, n, count)).children = (List.range cs.length).map fun i => h.place (path ++ [i])) :
    (h.slotOf (path, n, count)).plain.Translated h.onShow.breadthFirst
      (h.prune.slotOf (path, n.unfolded, cs.length)).plain where
  node := rfl
  depth := rfl
  hidden := rfl
  children := by
    show ((List.range cs.length).map fun i => h.prune.place (path ++ [i])).map _ =
      (h.slotOf (path, n, count)).children.map some
    rw [hchildren, List.map_map, List.map_map]
    exact List.map_congr_left fun i hi => getElem?_order (Tree.at?_concat hat (List.mem_range.mp hi))
  parent := by
    obtain ⟨u, hu⟩ := Tree.exists_at?_dropLast hat
    rw [parent_slotOf, parent_slotOf, Placement.parentPath, Option.map_map, Option.map_map]
    split
    · rfl
    · exact congrArg some (getElem?_order hu)

theorem copies_prune (h : Hierarchy α) : h.arena.Copies h.onShow.breadthFirst h.prune.arena where
  nodup := h.nodup_onShow
  length := h.length_prune
  slots := by
    intro k i hk
    obtain ⟨path, n, cs, hat, rfl, rfl⟩ := exists_shown hk
    obtain ⟨ds, -, hslot, hchildren⟩ := getElem?_shown hat
    have hat' : h.prune.tree.at? path = some (.node n.unfolded (cs.map (Tree.map Node.unfolded))) := by
      rw [tree_prune, Tree.at?_map, hat, Option.map_some, Tree.map_node]
    have hcopy := getElem?_arena hat'
    rw [List.length_map] at hcopy
    exact ⟨_, _, hslot, hcopy, translated_slotOf hat hchildren⟩

/-- **Pruning the array of a hierarchy** leaves the array of the pruned hierarchy. -/
theorem pruned_arena [Scalar α] (h : Hierarchy α) : h.arena.Pruned h.prune.arena where
  run := h.prune_arena
  copies := by
    refine ⟨_, h.descendants_arena, fun i => reached_arena_iff.symm, h.copies_prune, ?_⟩
    rw [descendants_arena, onShow_prune]
  height := ⟨h.height, h.height_arena, by rw [height_arena, height_prune]⟩
  again := by rw [prune_arena, prune_prune]
  layout := by
    intro canvas
    refine ⟨_, _, h.layout_arena canvas, (h.layout canvas).prune_arena, ?_⟩
    rw [layout_arena, layout_prune]

/-! ### Edits -/

/-- **Pruning after edits.**  Whatever edits follow one another after a tree of a document has been built up, in the
hierarchy and in the array: pruning copies the nodes on show level by level with translated links, and neither the height
nor the drawing depends on what it drops. -/
theorem prune_after_edits [Scalar α] (t : Tree (NodeInfo α)) (edits : List (Edit α))
    (hfits : ∀ e ∈ edits, e.Fits t.size) :
    ∃ h : Hierarchy α, edits.foldlM edit? (ofTree t) = some h ∧
      (Arena.ofTree t >>= fun a => edits.foldlM Arena.edit a) = .ok h.arena ∧
      h.arena.Pruned h.prune.arena ∧
      h.prune.descendants = h.descendants.map Node.unfolded ∧ h.prune.height = h.height ∧ h.prune.prune = h.prune ∧
      ∀ canvas, h.prune.layout canvas = (h.layout canvas).prune := by
  rw [← length_ofTree] at hfits
  obtain ⟨h, hedits, hedits', -⟩ := edits_arena (ids_ofTree_nodup t) hfits
  refine ⟨h, hedits, ?_, h.pruned_arena, h.descendants_prune, h.height_prune, h.prune_prune, h.layout_prune⟩
  rw [ofTree_arena, Checked.ok_bind]
  exact hedits'

/-- A group of a group and a well, beside a well. -/
def nestedGroups : Tree (NodeInfo Float) :=
  .node { label := "R" }
    [.node { label := "G" } [.node { label := "H" } [.node { label := "V" } []], .node { label := "W" } []],
      .node { label := "K" } []]

/-- The inner group is folded, all is placed, a well is marked, and the outer group is folded around both. -/
def nestedEdits : List (Edit Float) :=
  [.toggle 2, .layout ⟨800, 600, 700, 500, ⟨50, 50, 50, 50⟩⟩, .mark 4 false ⟨1, 2⟩ ⟨3, 4⟩, .toggle 1]

/-- A folded group may hold another one. -/
theorem prune_after_edits_nested :
    (∀ e ∈ nestedEdits, e.Fits nestedGroups.size) ∧
      ∃ h : Hierarchy Float, nestedEdits.foldlM edit? (ofTree nestedGroups) = some h ∧
        (Arena.ofTree nestedGroups >>= fun a => nestedEdits.foldlM Arena.edit a) = .ok h.arena ∧
        h.arena.Pruned h.prune.arena ∧
        h.prune.descendants = h.descendants.map Node.unfolded ∧ h.prune.height = h.height ∧ h.prune.prune = h.prune ∧
        ∀ canvas, h.prune.layout canvas = (h.layout canvas).prune :=
  have hsize : nestedGroups.size = 6 := rfl
  have hfits : ∀ e ∈ nestedEdits, e.Fits nestedGroups.size := by
    rw [hsize]
    simp [nestedEdits, Edit.Fits]
  ⟨hfits, prune_after_edits nestedGroups nestedEdits hfits⟩

end Hierarchy

end FlowTree
