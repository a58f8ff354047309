import FlowTree.Proofs.Hierarchy.Mirror

/-!
# Pruned hierarchies

What is pruned is on show as a whole, and placing asks for what is on show only.  So a pruned hierarchy is drawn as the
one that it was pruned from.

* **`Hierarchy.prune_prune`** says that there is nothing left to prune, **`Hierarchy.height_prune`** that the height stays.
* **`Hierarchy.layout_prune`** says that placing and pruning commute.
-/

namespace FlowTree

variable {α : Type}

/-- The node with its children unfolded. -/
def Node.unfolded (n : Node α) : Node α := { n with folded := false }

/-- A tree of nodes is decided by the places of the nodes and by all the rest. -/
theorem Tree.eq_of_map_finish {t t' : Tree (Node α)} (p : Point α)
    (hrest : (t.map fun n => { n with finish := p }) = t'.map fun n => { n with finish := p })
    (hfinish : t.map (·.finish) = t'.map (·.finish)) : t = t' := by
  have hboth := congrArg (Tree.map fun x : Node α × Point α => { x.1 with finish := x.2 })
    (Tree.map_prod_congr hrest hfinish)
  rw [Tree.map_map, Tree.map_map] at hboth
  exact ((Tree.map_id _).symm.trans hboth).trans (Tree.map_id _)

namespace Hierarchy

theorem tree_prune (h : Hierarchy α) : h.prune.tree = h.shown.map Node.unfolded := rfl

/-- **Nothing is folded away** in a pruned hierarchy. -/
theorem shown_prune (h : Hierarchy α) : h.prune.shown = h.prune.tree := by
  refine Tree.cut_of_forall fun n hn => ?_
  rw [tree_prune, Tree.preorder_map] at hn
  obtain ⟨m, -, rfl⟩ := List.mem_map.mp hn
  rfl

/-- **Pruning twice** is pruning once. -/
theorem prune_prune (h : Hierarchy α) : h.prune.prune = h.prune := by
  have htree : h.prune.prune.tree = h.prune.tree := by
    rw [tree_prune h.prune, shown_prune, tree_prune, Tree.map_map]
    rfl
  exact congrArg (Hierarchy.mk · .levelByLevel) htree

theorem descendants_prune (h : Hierarchy α) : h.prune.descendants = h.descendants.map Node.unfolded := by
  rw [descendants, shown_prune, tree_prune, Tree.breadthFirst_map, descendants]

theorem height_prune (h : Hierarchy α) : h.prune.height = h.height := by
  rw [height, shown_prune, tree_prune, Tree.height, Tree.levels_map, List.length_map, height, Tree.height]

variable [Scalar α]

/-- **Placing commutes with pruning**, whatever is folded away. -/
theorem layout_prune (h : Hierarchy α) (canvas : Canvas α) : h.prune.layout canvas = (h.layout canvas).prune := by
  have hfinish : (h.prune.layout canvas).tree.map (·.finish) = (h.layout canvas).prune.tree.map (·.finish) := by
    have hshown : (h.prune.layout canvas).shown = (h.prune.layout canvas).tree := by
      refine Tree.cut_of_forall fun n hn => ?_
      have hmem := List.mem_map_of_mem (f := fun n : Node α => n.folded) hn
      rw [← Tree.preorder_map, map_layout fun _ _ => rfl, tree_prune, Tree.map_map, Tree.preorder_map] at hmem
      obtain ⟨m, -, hm⟩ := List.mem_map.mp hmem
      exact hm.symm
    have hbreadths : (Tidy.breadths h.prune.shown : Tree α) = Tidy.breadths h.shown := by
      rw [shown_prune]
      exact Tidy.breadths_congr (Tidy.shape_map _ _)
    rw [← hshown, map_finish_layout, hbreadths, ← map_finish_layout, tree_prune, Tree.map_map]
    rfl
  have hrest : ((h.prune.layout canvas).tree.map fun n => { n with finish := .origin }) =
      (h.layout canvas).prune.tree.map fun n => { n with finish := .origin } := by
    rw [map_layout fun _ _ => rfl, tree_prune, tree_prune, Tree.map_map, Tree.map_map]
    exact (map_shown_layout (fun _ _ => rfl) h canvas).symm
  exact congrArg (Hierarchy.mk · .levelByLevel) (Tree.eq_of_map_finish .origin hrest hfinish)

end Hierarchy

end FlowTree
