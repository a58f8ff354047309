import FlowTree.Proofs.Hierarchy.Folding
import FlowTree.Proofs.Hierarchy.Places
import FlowTree.Reconcile

/-!
# Hierarchies as they are drawn

What a pass leaves drawn is the tree on show, placed and at rest.  It follows from the frame of the
hierarchy and the canvas alone, whatever marks earlier passes have left.

* **`Hierarchy.drawn`** is this tree; **`Hierarchy.drawn_congr`** says that the frame decides it.
* **`View.prune_new`** says that a reconciliation leaves it.
* **`Hierarchy.AtRest`** says that every node is on show, visible and where it belongs;
  **`Hierarchy.atRest_drawn`** says so for what is drawn.
-/

namespace FlowTree

variable {α : Type}

/-- A node that is on show and has come to rest. -/
def Node.rested (n : Node α) : Node α :=
  { n with start := n.finish, visible := true, folded := false }

namespace Hierarchy

/-! ### Marks of the nodes on show -/

theorem shown_updateShown {f : Node α → Node α} (hf : ∀ n, (f n).folded = n.folded)
    (h : Hierarchy α) : (h.updateShown f).shown = h.shown.map f :=
  Tree.cut_mapAbove hf h.tree

theorem prune_rest (h : Hierarchy α) :
    (View.rest h).prune = ⟨h.shown.map Node.rested, .levelByLevel⟩ := by
  rw [prune, View.rest, shown_updateShown, Tree.map_map]
  · rfl
  · exact fun _ => rfl

/-- The ids and informations on show, and what is folded of them, follow from the frame. -/
theorem shown_congr {h h' : Hierarchy α} (hframe : h.frame = h'.frame) :
    (h.shown.map fun n => (n.id, n.info, n.folded)) =
      h'.shown.map fun n => (n.id, n.info, n.folded) := by
  have hshown : ∀ k : Hierarchy α, (k.shown.map fun n => (n.id, n.info, n.folded)) =
      k.frame.cut (·.2.2) :=
    fun k => Tree.map_cut (fun n : Node α => (n.id, n.info, n.folded)) (·.2.2) k.tree
  rw [hshown, hshown, hframe]

theorem folded_congr {h h' : Hierarchy α} (hframe : h.frame = h'.frame) :
    h.tree.map (·.folded) = h'.tree.map (·.folded) := by
  have hfolded := congrArg (Tree.map (·.2.2)) hframe
  rwa [frame, frame, Tree.map_map, Tree.map_map] at hfolded

variable [Scalar α]

theorem frame_layout (h : Hierarchy α) (canvas : Canvas α) : (h.layout canvas).frame = h.frame :=
  map_layout (fun _ _ => rfl) h canvas

/-- **The tree as it is drawn**: the nodes on show, placed and at rest. -/
def drawn (canvas : Canvas α) (h : Hierarchy α) : Hierarchy α :=
  (View.rest (h.layout canvas)).prune

theorem drawn_eq (canvas : Canvas α) (h : Hierarchy α) :
    h.drawn canvas = ⟨(h.layout canvas).shown.map Node.rested, .levelByLevel⟩ :=
  prune_rest _

/-- The frame decides what is on show after placing and where it is. -/
theorem shown_layout_congr {h h' : Hierarchy α} (hframe : h.frame = h'.frame) (canvas : Canvas α) :
    ((h.layout canvas).shown.map fun n => ((n.id, n.info, n.folded), n.finish)) =
      (h'.layout canvas).shown.map fun n => ((n.id, n.info, n.folded), n.finish) := by
  refine Tree.map_prod_congr (shown_congr ?_) ?_
  · rw [frame_layout, frame_layout, hframe]
  · rw [map_finish_layout, map_finish_layout,
      Tidy.breadths_congr (shape_shown_congr (folded_congr hframe))]

/-- **The frame decides what is drawn.** -/
theorem drawn_congr {h h' : Hierarchy α} (hframe : h.frame = h'.frame) (canvas : Canvas α) :
    h.drawn canvas = h'.drawn canvas := by
  have hshown := congrArg (Tree.map fun v => (⟨v.1.1, v.1.2.1, true, v.2, v.2, false⟩ : Node α))
    (shown_layout_congr hframe canvas)
  rw [Tree.map_map, Tree.map_map] at hshown
  rw [drawn_eq, drawn_eq]
  exact congrArg (Hierarchy.mk · .levelByLevel) hshown

/-! ### Trees at rest -/

/-- Every node is on show, visible and where it belongs. -/
def AtRest (h : Hierarchy α) : Prop :=
  ∀ n ∈ h.tree.preorder, n.visible = true ∧ n.start = n.finish ∧ n.folded = false

theorem atRest_drawn (canvas : Canvas α) (h : Hierarchy α) : (h.drawn canvas).AtRest := by
  intro n hn
  rw [drawn_eq, Tree.preorder_map] at hn
  obtain ⟨m, -, rfl⟩ := List.mem_map.mp hn
  exact ⟨rfl, rfl, rfl⟩

theorem skeleton_rest_layout (h : Hierarchy α) (canvas : Canvas α) :
    (View.rest (h.layout canvas)).skeleton = h.skeleton := by
  rw [View.rest, skeleton, map_updateShown, map_layout]
  · rfl
  · exact fun _ _ => rfl
  · exact fun _ => rfl

theorem ids_drawn (h : Hierarchy α) (canvas : Canvas α) : (h.drawn canvas).ids = h.ids := by
  rw [drawn, ids_prune, View.rest, ids_updateShown, ids_layout]
  exact fun _ => ⟨rfl, rfl⟩

omit [Scalar α] in
/-- Nothing is folded away. -/
theorem AtRest.shown_eq {h : Hierarchy α} (hrest : h.AtRest) : h.shown = h.tree :=
  Tree.cut_of_forall fun n hn => (hrest n hn).2.2

theorem descendants_drawn (h : Hierarchy α) (canvas : Canvas α) :
    (h.drawn canvas).descendants = (h.layout canvas).descendants.map Node.rested := by
  rw [descendants, (atRest_drawn canvas h).shown_eq, drawn_eq, Tree.breadthFirst_map, descendants]

end Hierarchy

/-! ### What a reconciliation leaves -/

namespace View

variable [Scalar α] [Printed α]

/-- What a reconciliation leaves on show is placed and at rest. -/
theorem shown_new (v : View α) (old : Option (Hierarchy α)) (new : Hierarchy α) :
    (v.reconcile old new).new.shown =
      (new.layout v.canvas).shown.map fun n => { n with start := n.finish, visible := true } := by
  rw [reconcile, rest, Hierarchy.shown_updateShown, inherit, Hierarchy.shown_updateShown, Tree.map_map]
  · congr 1
    funext n
    rw [Function.comp_apply]
    split <;> rfl
  · intro n
    split <;> rfl
  · exact fun _ => rfl

/-- **A reconciliation leaves the tree as it is drawn.** -/
theorem prune_new (v : View α) (old : Option (Hierarchy α)) (new : Hierarchy α) :
    (v.reconcile old new).new.prune = new.drawn v.canvas := by
  rw [Hierarchy.prune, shown_new, Tree.map_map, Hierarchy.drawn_eq]
  rfl

/-- The frame decides what a reconciliation leaves on show. -/
theorem shown_new_congr {v v' : View α} (hcanvas : v.canvas = v'.canvas)
    (old old' : Option (Hierarchy α)) {new new' : Hierarchy α} (hframe : new.frame = new'.frame) :
    (v.reconcile old new).new.shown = (v'.reconcile old' new').new.shown := by
  have hshown := congrArg
    (Tree.map fun x => (⟨x.1.1, x.1.2.1, true, x.2, x.2, x.1.2.2⟩ : Node α))
    (Hierarchy.shown_layout_congr hframe v.canvas)
  rw [Tree.map_map, Tree.map_map] at hshown
  rw [shown_new, shown_new, ← hcanvas]
  exact hshown

end View

end FlowTree
