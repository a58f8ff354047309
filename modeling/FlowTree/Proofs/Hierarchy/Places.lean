import FlowTree.Layout.Placement
import FlowTree.Proofs.Hierarchy.Spots
import FlowTree.Proofs.Paths
import FlowTree.Proofs.Tidy.Shape

/-!
# Placed hierarchies

Where the nodes on show belong depends on the shape of what is on show, so placing a hierarchy that has
been placed moves nothing, and nothing of what was on show before shines through.

* **`Hierarchy.map_finish_layout`** says where the nodes of a placed hierarchy are.
* **`Hierarchy.Placed`** says that every node on show is where it belongs.
* **`Hierarchy.sights_layout`** and **`Hierarchy.sights_layout_congr`** say what can be seen after placing.
-/

namespace FlowTree

open Tidy (shape shape_map shape_node)

variable {α : Type}

namespace Placement

theorem shape_points [Scalar α] (canvas : Canvas α) (t : Tree α) : shape (points canvas t) = shape t := by
  rw [points, shape_map, Tree.located_eq, ← shape_map (·.2), Tree.map_snd_locatedAt]

end Placement

namespace Hierarchy

/-! ### The shape of what is on show -/

theorem shape_shown_congr {h h' : Hierarchy α}
    (heq : h.tree.map (·.folded) = h'.tree.map (·.folded)) : shape h.shown = shape h'.shown := by
  have hshape : ∀ k : Hierarchy α, shape k.shown = shape ((k.tree.map (·.folded)).cut id) := by
    intro k
    rw [← Tree.map_cut (fun n : Node α => n.folded) id, shape, shape, Tree.map_map]
    rfl
  rw [hshape, hshape, heq]

theorem shape_shown_of_outline {h h' : Hierarchy α} (houtline : h.outline = h'.outline) :
    shape h.shown = shape h'.shown := by
  have hshape : ∀ t : Tree (Node α),
      shape (t.cut (·.folded)) = shape ((outlineOf t).cut (·.2.2)) := by
    intro t
    induction t with
    | node n cs ih =>
      rw [outlineOf_node, Tree.cut_node, Tree.cut_node, shape_node, shape_node]
      congr 1
      cases cs with
      | nil => simp
      | cons c cs =>
        cases hf : n.folded with
        | true => rfl
        | false =>
          show ((c :: cs).map _).map shape = (((c :: cs).map outlineOf).map _).map shape
          rw [List.map_map, List.map_map, List.map_map]
          exact List.map_congr_left ih
  exact (hshape h.tree).trans ((congrArg (fun o => shape (o.cut (·.2.2))) houtline).trans
    (hshape h'.tree).symm)

/-! ### Where nodes are placed -/

theorem moveAllTo_eq_zipWith {cs : List (Tree (Node α))} {ps : List (Tree (Point α))}
    (h : cs.length = ps.length) : moveAllTo cs ps = List.zipWith moveTo cs ps := by
  induction cs generalizing ps with
  | nil =>
    obtain rfl := List.eq_nil_of_length_eq_zero h.symm
    rfl
  | cons c cs ih =>
    obtain ⟨p, ps, rfl⟩ := List.exists_cons_of_length_eq_add_one h.symm
    rw [moveAllTo, List.zipWith_cons_cons, ih (by simpa using h)]

/-- The nodes on show are moved to their counterparts. -/
theorem map_finish_moveTo {t : Tree (Node α)} {ps : Tree (Point α)}
    (h : shape (t.cut (·.folded)) = shape ps) :
    ((moveTo t ps).cut (·.folded)).map (·.finish) = ps := by
  induction t generalizing ps with
  | node n cs ih =>
    obtain ⟨p, ps⟩ := ps
    rw [Tree.cut_node, shape_node, shape_node, Tree.node.injEq] at h
    rw [moveTo, Tree.cut_node, Tree.map_node]
    congr 1
    by_cases hf : n.folded = true
    · simp only [hf, if_true, List.map_nil] at h ⊢
      exact (List.map_eq_nil_iff.mp h.2.symm).symm
    · simp only [hf, Bool.false_eq_true, if_false, List.map_map] at h ⊢
      have hlength := congrArg List.length h.2
      rw [List.length_map, List.length_map] at hlength
      rw [moveAllTo_eq_zipWith hlength]
      apply List.ext_getElem
      · simp [hlength]
      · intro i h₁ h₂
        have hi : i < cs.length := hlength ▸ h₂
        have hshape := congrArg (fun l => l[i]?) h.2
        simp only [List.getElem?_map, List.getElem?_eq_getElem hi, List.getElem?_eq_getElem h₂,
          Option.map_some, Option.some.injEq] at hshape
        rw [List.getElem_map, List.getElem_zipWith]
        exact ih _ (List.getElem_mem hi) hshape

/-- Nodes that are with their counterparts already stay there. -/
theorem moveTo_of_map_finish {t : Tree (Node α)} {ps : Tree (Point α)}
    (h : (t.cut (·.folded)).map (·.finish) = ps) : moveTo t ps = t := by
  subst h
  induction t with
  | node n cs ih =>
    rw [Tree.cut_node, Tree.map_node, moveTo]
    congr 1
    split
    · cases cs <;> rfl
    · rw [List.map_map, moveAllTo_eq_zipWith (List.length_map _).symm, List.zipWith_map_right,
        List.zipWith_self]
      exact (List.map_congr_left ih).trans cs.map_id

variable [Scalar α]

/-- **Where the nodes of a placed hierarchy are.** -/
theorem map_finish_layout (h : Hierarchy α) (canvas : Canvas α) :
    (h.layout canvas).shown.map (·.finish) =
      Placement.points canvas (Tidy.breadths h.shown) := by
  refine map_finish_moveTo ?_
  rw [Placement.shape_points, Tidy.shape_breadths]
  rfl

/-! ### Hierarchies at rest -/

/-- Every node on show is where it belongs. -/
def Placed (canvas : Canvas α) (h : Hierarchy α) : Prop :=
  h.shown.map (·.finish) = Placement.points canvas (Tidy.breadths h.shown)

theorem Placed.congr {canvas : Canvas α} {h h' : Hierarchy α}
    (heq : (h.tree.map fun n => (n.finish, n.folded)) = h'.tree.map fun n => (n.finish, n.folded))
    (hp : h.Placed canvas) : h'.Placed canvas := by
  have hfolded : h.tree.map (·.folded) = h'.tree.map (·.folded) := by
    have hsnd := congrArg (Tree.map (·.2)) heq
    rwa [Tree.map_map, Tree.map_map] at hsnd
  rw [Placed, ← map_finish_shown_congr heq, ← Tidy.breadths_congr (shape_shown_congr hfolded)]
  exact hp

theorem placed_layout (h : Hierarchy α) (canvas : Canvas α) : (h.layout canvas).Placed canvas := by
  have hshape : shape (h.layout canvas).shown = shape h.shown :=
    shape_shown_congr (map_layout (fun _ _ => rfl) h canvas)
  rw [Placed, map_finish_layout, Tidy.breadths_congr hshape]

/-- **Placing a placed hierarchy** moves nothing. -/
theorem Placed.layout_eq {canvas : Canvas α} {h : Hierarchy α} (hp : h.Placed canvas) :
    h.layout canvas = h := by
  rw [layout, moveTo_of_map_finish hp]

theorem outline_layout (h : Hierarchy α) (canvas : Canvas α) :
    (h.layout canvas).outline = h.outline :=
  outlineOf_congr (map_layout (fun _ _ => rfl) h canvas)

/-- Placing a placed hierarchy changes nothing that can be seen. -/
theorem sights_layout {canvas : Canvas α} {h : Hierarchy α} (hp : h.Placed canvas) :
    (h.layout canvas).spots.map Spot.sight = h.spots.map Spot.sight :=
  sights_congr (outline_layout h canvas) ((map_finish_layout h canvas).trans hp.symm)

/-- **What can be seen after placing** depends on the outline only. -/
theorem sights_layout_congr {h h' : Hierarchy α} (houtline : h.outline = h'.outline)
    (canvas : Canvas α) :
    (h.layout canvas).spots.map Spot.sight = (h'.layout canvas).spots.map Spot.sight := by
  refine sights_congr ?_ ?_
  · rw [outline_layout, outline_layout, houtline]
  · rw [map_finish_layout, map_finish_layout,
      Tidy.breadths_congr (shape_shown_of_outline houtline)]

end Hierarchy

end FlowTree
