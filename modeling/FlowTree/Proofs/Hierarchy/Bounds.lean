import FlowTree.Proofs.Exact
import FlowTree.Proofs.Hierarchy.Drawn
import FlowTree.Settings
import Mathlib.Algebra.Field.Rat
import Mathlib.Algebra.Order.Field.Basic

/-!
# The room for the tree

The margins leave a rectangle to the tree.  Placing a tree keeps all nodes in it: the levels stop before the
right side, and the outermost nodes of the tidy tree stay clear of the upper and the lower side.

* **`Canvas.Holds`** says that a point lies in the rectangle, **`Canvas.Roomy`** that there is one.
* **`Placement.holds_points`** says that a tidy tree is stretched into the rectangle.
* **`Hierarchy.Placed.holds`** and **`Hierarchy.holds_layout`** say so of the nodes on show.
-/

namespace FlowTree

/-! ### The rectangle -/

namespace Canvas

/-- The point lies in the room for the tree. -/
structure Holds (c : Canvas ℚ) (p : Point ℚ) : Prop where
  left : 0 ≤ p.x
  right : p.x ≤ c.treeWidth
  top : 0 ≤ p.y
  bottom : p.y ≤ c.treeHeight

/-- The room for the tree is a rectangle, which may be a line or a point. -/
structure Roomy (c : Canvas ℚ) : Prop where
  width : 0 ≤ c.treeWidth
  height : 0 ≤ c.treeHeight

variable {c : Canvas ℚ}

theorem roomy_of (width height minHeight : ℚ) (margin : Margin ℚ) :
    (of width height minHeight margin).Roomy := by
  have hmax : ∀ a : ℚ, 0 ≤ Scalar.max a Scalar.zero := fun a => by
    rw [Scalar.max_rat]
    exact le_max_right _ _
  exact ⟨hmax _, hmax _⟩

theorem Roomy.holds_origin (h : c.Roomy) : c.Holds .origin := ⟨le_refl _, h.width, le_refl _, h.height⟩

theorem Roomy.holds_rootOrigin (h : c.Roomy) : c.Holds c.rootOrigin := by
  refine ⟨le_refl _, h.width, ?_, ?_⟩
  · exact div_nonneg h.height zero_le_two
  · exact div_le_self h.height one_le_two

end Canvas

/-! ### Places of a tidy tree -/

namespace Placement

open Tidy

/-- What is found to be extreme is not preceded by any mark. -/
theorem not_before_extreme (before : ℚ → ℚ → Bool) (hasymm : ∀ a b, before a b = true → before b a = false)
    (hnegative : ∀ a b c, before a b = false → before b c = false → before a c = false)
    (first : Mark ℚ) (marks : List (Mark ℚ)) :
    ∀ m ∈ first :: marks, before m.2 (extreme before first marks).2 = false := by
  have hirrefl : ∀ a, before a a = false := fun a => by
    cases h : before a a with
    | false => rfl
    | true => exact h.symm.trans (hasymm a a h)
  induction marks generalizing first with
  | nil =>
    intro m hm
    obtain rfl := List.mem_singleton.mp hm
    exact hirrefl _
  | cons x marks ih =>
    -- both the best mark so far and the next one are not before the better one of the two
    have hrest := ih (if before x.2 first.2 then x else first)
    have hbest := hrest _ List.mem_cons_self
    have hboth : before first.2 (if before x.2 first.2 then x else first).2 = false ∧
        before x.2 (if before x.2 first.2 then x else first).2 = false := by
      cases hx : before x.2 first.2 with
      | true => exact ⟨hasymm _ _ hx, hirrefl _⟩
      | false => exact ⟨hirrefl _, hx⟩
    intro m hm
    rw [extreme, List.foldl_cons, ← extreme]
    rcases List.mem_cons.mp hm with rfl | hm
    · exact hnegative _ _ _ hboth.1 hbest
    · rcases List.mem_cons.mp hm with rfl | hm
      · exact hnegative _ _ _ hboth.2 hbest
      · exact hrest m (List.mem_cons_of_mem _ hm)

theorem extreme_le (first : Mark ℚ) (marks : List (Mark ℚ)) {m : Mark ℚ} (hm : m ∈ first :: marks) :
    (extreme Scalar.lt first marks).2 ≤ m.2 := by
  have h := not_before_extreme Scalar.lt (fun a b => by simpa using le_of_lt)
    (fun a b c => by simpa using fun hba hcb => le_trans hcb hba) first marks m hm
  simpa using h

theorem le_extreme (first : Mark ℚ) (marks : List (Mark ℚ)) {m : Mark ℚ} (hm : m ∈ first :: marks) :
    m.2 ≤ (extreme (fun a b => Scalar.lt b a) first marks).2 := by
  have h := not_before_extreme (fun a b => Scalar.lt b a) (fun a b => by simpa using le_of_lt)
    (fun a b c => by simpa using fun hab hbc => le_trans hab hbc) first marks m hm
  simpa using h

theorem clearance_pos (left right : Mark ℚ) : 0 < clearance left right := by
  rw [clearance, siblingGap, cousinGap, Scalar.one_rat, Scalar.two_rat]
  split
  · exact one_pos
  · split <;> norm_num

/-- **A tidy tree is stretched into the rectangle.** -/
theorem holds_points {canvas : Canvas ℚ} (hroomy : canvas.Roomy) (t : Tree ℚ) :
    ∀ p ∈ (points canvas t).preorder, canvas.Holds p := by
  intro p hp
  rw [points, Tree.preorder_map] at hp
  obtain ⟨m, hm, rfl⟩ := List.mem_map.mp hp
  replace hm := (Tree.breadthFirst_perm t.located).mem_iff.mpr hm
  have hlength := Tree.length_le_height hm
  have hleft := extreme_le ([], t.value) t.located.breadthFirst (List.mem_cons_of_mem _ hm)
  have hright := le_extreme ([], t.value) t.located.breadthFirst (List.mem_cons_of_mem _ hm)
  have hclear := clearance_pos (extreme Scalar.lt ([], t.value) t.located.breadthFirst)
    (extreme (fun a b => Scalar.lt b a) ([], t.value) t.located.breadthFirst)
  rw [of]
  generalize extreme Scalar.lt ([], t.value) t.located.breadthFirst = left at *
  generalize extreme (fun a b => Scalar.lt b a) ([], t.value) t.located.breadthFirst = right at *
  generalize clearance left right = s at *
  obtain ⟨hwidth, hheight⟩ := hroomy
  -- along the depth: a node stands at its level's share of the width
  have hlevels : (m.1.length : ℚ) ≤ ((t.height + 1 : ℕ) : ℚ) := by exact_mod_cast Nat.le_succ_of_le hlength
  have hpos : (0 : ℚ) < ((t.height + 1 : ℕ) : ℚ) := by exact_mod_cast Nat.succ_pos _
  -- along the siblings: a node stands between the outermost ones, which keep clear of both sides
  have hspan : 0 < right.2 + s + (s - left.2) := by linarith
  have hshift : 0 ≤ m.2 + (s - left.2) := by linarith
  have hshare : m.2 + (s - left.2) ≤ right.2 + s + (s - left.2) := by linarith
  constructor
  · show 0 ≤ (m.1.length : ℚ) * canvas.treeWidth / ((t.height + 1 : ℕ) : ℚ)
    positivity
  · show (m.1.length : ℚ) * canvas.treeWidth / ((t.height + 1 : ℕ) : ℚ) ≤ canvas.treeWidth
    rw [div_le_iff₀ hpos, mul_comm]
    exact mul_le_mul_of_nonneg_left hlevels hwidth
  · show 0 ≤ (m.2 + (s - left.2)) * (canvas.treeHeight / (right.2 + s + (s - left.2)))
    exact mul_nonneg hshift (div_nonneg hheight hspan.le)
  · show (m.2 + (s - left.2)) * (canvas.treeHeight / (right.2 + s + (s - left.2))) ≤ canvas.treeHeight
    rw [mul_div_assoc', div_le_iff₀ hspan, mul_comm]
    exact mul_le_mul_of_nonneg_left hshare hheight

end Placement

/-! ### Nodes on show -/

namespace Hierarchy

variable {canvas : Canvas ℚ} {h : Hierarchy ℚ}

/-- **The nodes of a placed hierarchy** are in the rectangle. -/
theorem Placed.holds (hroomy : canvas.Roomy) (hp : h.Placed canvas) :
    ∀ n ∈ h.shown.preorder, canvas.Holds n.finish := by
  intro n hn
  refine Placement.holds_points hroomy (Tidy.breadths h.shown) _ ?_
  rw [← hp, Tree.preorder_map]
  exact List.mem_map_of_mem hn

theorem holds_layout (hroomy : canvas.Roomy) (h : Hierarchy ℚ) :
    ∀ n ∈ (h.layout canvas).shown.preorder, canvas.Holds n.finish :=
  (placed_layout h canvas).holds hroomy

end Hierarchy

end FlowTree
