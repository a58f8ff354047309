import FlowTree.Proofs.Arena.Placing
import FlowTree.Proofs.Hierarchy.Guarded

/-!
# The spacing of placed nodes

Where the nodes on show are placed, read off from the outermost nodes of the tidy tree.

* **`Hierarchy.places_layout`** lists the places along the tidy tree.
* **`Hierarchy.layout_spaces_nodes`** says that placing goes through without a division by zero, that every level has its
  depth, that the outermost nodes stay equally clear of the upper and the lower side, and that all nodes are apart.
-/

namespace FlowTree

namespace Tree

variable {β : Type}

theorem locatedAt_locatedAt (path : List ℕ) (t : Tree β) :
    (t.locatedAt path).locatedAt path = (t.locatedAt path).map fun x => (x.1, x) := by
  induction t generalizing path with
  | node v cs ih =>
    rw [locatedAt_node, locatedAt_node, map_node]
    congr 1
    apply List.ext_getElem
    · simp
    · intro i h₁ h₂
      rw [List.getElem_mapIdx, List.getElem_mapIdx, List.getElem_map, List.getElem_mapIdx]
      exact ih _ (List.getElem_mem _) _

end Tree

namespace Hierarchy

/-- **The places of the nodes on show**, each with its path, are those of the tidy tree. -/
theorem places_layout {α : Type} [Scalar α] (h : Hierarchy α) (canvas : Canvas α) :
    ((h.layout canvas).shown.located.breadthFirst.map fun x => (x.1, x.2.finish)) =
      h.marks.map fun m => (m.1, (Placement.of canvas (Tidy.breadths h.shown)).point m) := by
  have hplaces := congrArg (fun t => t.located.breadthFirst) (map_finish_layout h canvas)
  rw [Tree.located_eq, Tree.located_eq, Tree.locatedAt_map, Placement.points, Tree.locatedAt_map, Tree.located_eq,
    Tree.locatedAt_locatedAt, Tree.map_map, Tree.breadthFirst_map, Tree.breadthFirst_map] at hplaces
  exact hplaces

section Places

variable {h : Hierarchy ℚ} {canvas : Canvas ℚ}

/-- A node on show is placed where the tidy tree has it. -/
theorem exists_mark {x : List ℕ × Node ℚ} (hx : x ∈ (h.layout canvas).shown.located.breadthFirst) :
    ∃ m ∈ h.marks, x.1 = m.1 ∧ x.2.finish = (Placement.of canvas (Tidy.breadths h.shown)).point m := by
  have hmem := List.mem_map_of_mem (f := fun x : List ℕ × Node ℚ => (x.1, x.2.finish)) hx
  rw [places_layout] at hmem
  obtain ⟨m, hm, heq⟩ := List.mem_map.mp hmem
  obtain ⟨hpath, hplace⟩ := Prod.mk.inj heq
  exact ⟨m, hm, hpath.symm, hplace.symm⟩

/-- Every place of the tidy tree is that of a node on show. -/
theorem exists_descendant (canvas : Canvas ℚ) {m : Placement.Mark ℚ} (hm : m ∈ h.marks) :
    ∃ n ∈ (h.layout canvas).descendants, n.finish = (Placement.of canvas (Tidy.breadths h.shown)).point m := by
  have hmem := List.mem_map_of_mem
    (f := fun m : Placement.Mark ℚ => (m.1, (Placement.of canvas (Tidy.breadths h.shown)).point m)) hm
  rw [← places_layout] at hmem
  obtain ⟨x, hx, heq⟩ := List.mem_map.mp hmem
  refine ⟨x.2, ?_, (Prod.mk.inj heq).2⟩
  rw [descendants, ← Tree.map_snd_located_breadthFirst]
  exact List.mem_map_of_mem hx

end Places

/-- The nodes on show of a hierarchy are spaced out over a canvas. -/
structure Spaced (h : Hierarchy ℚ) (canvas : Canvas ℚ) : Prop where
  /-- Nothing goes wrong in the array. -/
  run : h.arena.layout canvas = .ok (h.layout canvas).arena
  /-- No quotient is undefined, so nothing is divided by zero. -/
  defined : h.guarded.layout canvas.guarded = (h.layout canvas).guarded
  /-- No quotient is undefined in the array. -/
  defined_run : h.guarded.arena.layout canvas.guarded = .ok (h.layout canvas).guarded.arena
  /-- The nodes on show stay what they are, but for their places. -/
  kept : ((h.layout canvas).shown.map fun n => { n with finish := .origin }) =
    h.shown.map fun n => { n with finish := .origin }
  /-- Each level has its depth, and the deepest one is clear of the right side. -/
  depth : ∀ x ∈ (h.layout canvas).shown.located.breadthFirst,
    x.2.finish.x = x.1.length * canvas.treeWidth / (h.height + 1) ∧ x.2.finish.x < canvas.treeWidth
  /-- All nodes are clear of the upper and of the lower side, and the least distances to both sides are the same. -/
  clear : ∃ least, 0 < least ∧
    (∀ n ∈ (h.layout canvas).descendants, least ≤ n.finish.y ∧ least ≤ canvas.treeHeight - n.finish.y) ∧
    (∃ n ∈ (h.layout canvas).descendants, n.finish.y = least) ∧
    ∃ n ∈ (h.layout canvas).descendants, canvas.treeHeight - n.finish.y = least
  /-- No two nodes are placed at one point, and those of one level are placed in their order. -/
  apart : (h.layout canvas).shown.located.breadthFirst.Pairwise fun a b =>
    a.2.finish ≠ b.2.finish ∧ (a.1.length = b.1.length → a.2.finish.y < b.2.finish.y)

/-- **Placing spaces the nodes out** wherever there is room for the tree. -/
theorem layout_spaces_nodes (h : Hierarchy ℚ) (canvas : Canvas ℚ) (hwidth : 0 < canvas.treeWidth)
    (hheight : 0 < canvas.treeHeight) : h.Spaced canvas where
  run := h.layout_arena canvas
  defined := h.layout_guarded canvas
  defined_run := by rw [layout_arena, layout_guarded]
  kept := map_shown_layout (fun _ _ => rfl) h canvas
  depth := by
    intro x hx
    obtain ⟨m, hm, hpath, hplace⟩ := exists_mark hx
    rw [hpath, hplace]
    refine ⟨?_, Placement.x_lt_width hwidth hm⟩
    rw [Placement.x_point, height_breadths]
  clear := by
    let t : Tree ℚ := Tidy.breadths h.shown
    refine ⟨Placement.clear t * (canvas.treeHeight / Placement.span t),
      mul_pos (Placement.clear_pos t) (div_pos hheight (Placement.span_pos t)), ?_, ?_, ?_⟩
    · intro n hn
      rw [descendants, ← Tree.map_snd_located_breadthFirst] at hn
      obtain ⟨x, hx, rfl⟩ := List.mem_map.mp hn
      obtain ⟨m, hm, -, hplace⟩ := exists_mark hx
      -- the node is placed between the outermost ones
      have hleft := Placement.y_le_y (t := t) hheight.le (Placement.leftmost_le hm)
      have hright := Placement.y_le_y (t := t) hheight.le (Placement.le_rightmost hm)
      rw [Placement.y_leftmost] at hleft
      rw [Placement.y_rightmost] at hright
      rw [hplace]
      exact ⟨hleft, le_sub_comm.mp hright⟩
    · obtain ⟨n, hn, hplace⟩ := exists_descendant canvas (Placement.leftmost_mem t)
      exact ⟨n, hn, by rw [hplace, Placement.y_leftmost]⟩
    · obtain ⟨n, hn, hplace⟩ := exists_descendant canvas (Placement.rightmost_mem t)
      exact ⟨n, hn, by rw [hplace, Placement.y_rightmost, sub_sub_cancel]⟩
  apart := by
    have hpoints := Placement.pairwise_points hwidth hheight (Tidy.roomy_breadths h.shown)
    have hplaces : (h.marks.map fun m => (m.1, (Placement.of canvas (Tidy.breadths h.shown)).point m)).Pairwise
        fun a b => a.2 ≠ b.2 ∧ (a.1.length = b.1.length → a.2.y < b.2.y) := List.pairwise_map.mpr hpoints
    rw [← places_layout] at hplaces
    exact List.pairwise_map.mp hplaces

/-- A chain that ends in a folded node, beside a group of two wells. -/
def chainBesideGroup : Hierarchy ℚ where
  tree := flip "R_C_D_E" (ofTree (.node { label := "R" }
    [.node { label := "C" } [.node { label := "D" } [.node { label := "E" } [.node { label := "F" } []]]],
      .node { label := "G" } [.node { label := "V" } [], .node { label := "W" } []]])).tree

/-- A canvas with the same margin on all sides. -/
def evenCanvas : Canvas ℚ := Canvas.of 800 600 0 ⟨50, 50, 50, 50⟩

/-- A chain and a group are spaced out beside each other. -/
theorem layout_spaces_nodes_chain :
    0 < evenCanvas.treeWidth ∧ 0 < evenCanvas.treeHeight ∧ chainBesideGroup.Spaced evenCanvas :=
  have hwidth : 0 < evenCanvas.treeWidth := by decide +kernel
  have hheight : 0 < evenCanvas.treeHeight := by decide +kernel
  ⟨hwidth, hheight, layout_spaces_nodes chainBesideGroup evenCanvas hwidth hheight⟩

end Hierarchy

end FlowTree
