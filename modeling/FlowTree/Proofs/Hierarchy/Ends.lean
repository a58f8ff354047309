import FlowTree.Proofs.Hierarchy.Mirror

/-!
# The outermost nodes of a tidy tree

A tidy tree is stretched between its two outermost nodes: what stays clear above the one stays clear below the other, and
all else lies in between, in the order of the tidy tree.

* **`Placement.leftmost`** and **`Placement.rightmost`** are the outermost nodes, **`Placement.span`** what is stretched
  to the height of the canvas; **`Placement.span_pos`** says that there is something to stretch.
* **`Placement.y_leftmost`** and **`Placement.y_rightmost`** say where the outermost nodes are placed.
* **`Placement.pairwise_points`** says that no two nodes are placed at one point.
-/

namespace FlowTree.Placement

section Definitions

variable {α : Type} [Scalar α]

/-- The first node that no other node is left of. -/
def leftmost (t : Tree α) : Mark α := extreme Scalar.lt ([], t.value) t.located.breadthFirst

/-- The first node that no other node is right of. -/
def rightmost (t : Tree α) : Mark α := extreme (fun a b => Scalar.lt b a) ([], t.value) t.located.breadthFirst

/-- What stays clear on both sides of a tidy tree. -/
def clear (t : Tree α) : α := clearance (leftmost t) (rightmost t)

/-- The extent of a tidy tree with what stays clear on both sides. -/
def span (t : Tree α) : α := (rightmost t).2 + clear t + (clear t - (leftmost t).2)

theorem of_eq (canvas : Canvas α) (t : Tree α) :
    of canvas t =
      { shift := clear t - (leftmost t).2
        unit := canvas.treeHeight / span t
        width := canvas.treeWidth
        levels := Scalar.ofNat (t.height + 1) } := rfl

end Definitions

variable {canvas : Canvas ℚ} {t : Tree ℚ} {m a b : Mark ℚ}

/-! ### Along the siblings -/

theorem leftmost_mem (t : Tree ℚ) : leftmost t ∈ t.located.breadthFirst := (outermost_extreme strict_lt t).mem

theorem rightmost_mem (t : Tree ℚ) : rightmost t ∈ t.located.breadthFirst := (outermost_extreme strict_gt t).mem

theorem leftmost_le (hm : m ∈ t.located.breadthFirst) : (leftmost t).2 ≤ m.2 :=
  extreme_le _ _ (List.mem_cons_of_mem _ hm)

theorem le_rightmost (hm : m ∈ t.located.breadthFirst) : m.2 ≤ (rightmost t).2 :=
  le_extreme _ _ (List.mem_cons_of_mem _ hm)

theorem clear_pos (t : Tree ℚ) : 0 < clear t := clearance_pos _ _

/-- **There is something to stretch**, even if all nodes stand in one line. -/
theorem span_pos (t : Tree ℚ) : 0 < span t := by
  have hclear := clear_pos t
  have hends := leftmost_le (rightmost_mem t)
  rw [span]
  linarith

theorem y_point (canvas : Canvas ℚ) (t : Tree ℚ) (m : Mark ℚ) :
    ((of canvas t).point m).y = (m.2 - (leftmost t).2 + clear t) * (canvas.treeHeight / span t) := by
  rw [of_eq, point, ← add_sub_assoc, sub_add_eq_add_sub]

theorem y_leftmost (canvas : Canvas ℚ) (t : Tree ℚ) :
    ((of canvas t).point (leftmost t)).y = clear t * (canvas.treeHeight / span t) := by
  rw [y_point, sub_self, zero_add]

/-- The rightmost node stands as far from the lower side as the leftmost one from the upper side. -/
theorem y_rightmost (canvas : Canvas ℚ) (t : Tree ℚ) :
    ((of canvas t).point (rightmost t)).y = canvas.treeHeight - clear t * (canvas.treeHeight / span t) := by
  have hends : (rightmost t).2 - (leftmost t).2 + clear t + clear t = span t := by
    rw [span]
    ring
  rw [y_point, eq_sub_iff_add_eq, ← add_mul, hends]
  exact mul_div_cancel₀ _ (span_pos t).ne'

/-- Of two nodes the one that stands further to the right is placed lower. -/
theorem y_le_y (hheight : 0 ≤ canvas.treeHeight) (hle : a.2 ≤ b.2) :
    ((of canvas t).point a).y ≤ ((of canvas t).point b).y := by
  rw [y_point, y_point]
  refine mul_le_mul_of_nonneg_right ?_ (div_nonneg hheight (span_pos t).le)
  linarith

theorem y_lt_y (hheight : 0 < canvas.treeHeight) (hlt : a.2 < b.2) :
    ((of canvas t).point a).y < ((of canvas t).point b).y := by
  rw [y_point, y_point]
  refine mul_lt_mul_of_pos_right ?_ (div_pos hheight (span_pos t))
  linarith

/-! ### Along the depth -/

theorem x_point (canvas : Canvas ℚ) (t : Tree ℚ) (m : Mark ℚ) :
    ((of canvas t).point m).x = m.1.length * canvas.treeWidth / (t.height + 1) := by
  rw [of_eq, point]
  push_cast [Scalar.ofNat_rat]
  rfl

theorem x_lt_width (hwidth : 0 < canvas.treeWidth) (hm : m ∈ t.located.breadthFirst) :
    ((of canvas t).point m).x < canvas.treeWidth := by
  have hdepth : (m.1.length : ℚ) < t.height + 1 := by exact_mod_cast Nat.lt_succ_of_le (Tree.length_le_height hm)
  have hlevels : (0 : ℚ) < t.height + 1 := by positivity
  rw [x_point, div_lt_iff₀ hlevels, mul_comm]
  exact mul_lt_mul_of_pos_left hdepth hwidth

/-- A deeper node is placed further to the right. -/
theorem x_lt_x (hwidth : 0 < canvas.treeWidth) (hlt : a.1.length < b.1.length) :
    ((of canvas t).point a).x < ((of canvas t).point b).x := by
  have hlevels : (0 : ℚ) < t.height + 1 := by positivity
  have hdepth : (a.1.length : ℚ) < b.1.length := by exact_mod_cast hlt
  rw [x_point, x_point]
  exact div_lt_div_of_pos_right (mul_lt_mul_of_pos_right hdepth hwidth) hlevels

/-! ### All nodes -/

/-- **No two nodes are placed at one point**, and those of one level are placed in their order. -/
theorem pairwise_points (hwidth : 0 < canvas.treeWidth) (hheight : 0 < canvas.treeHeight) (hroomy : Tidy.Roomy t) :
    t.located.breadthFirst.Pairwise fun a b =>
      (of canvas t).point a ≠ (of canvas t).point b ∧
        (a.1.length = b.1.length → ((of canvas t).point a).y < ((of canvas t).point b).y) := by
  refine (hroomy.pairwise_breadthFirst.and (sorted_located t)).imp ?_
  rintro a b ⟨hapart, hle⟩
  have hlevel : a.1.length = b.1.length → ((of canvas t).point a).y < ((of canvas t).point b).y := by
    intro heq
    have hone := (hapart heq).1
    exact y_lt_y hheight (by linarith)
  refine ⟨fun heq => ?_, hlevel⟩
  rcases hle.lt_or_eq with hlt | hsame
  · exact (x_lt_x (t := t) hwidth hlt).ne (congrArg Point.x heq)
  · exact (hlevel hsame).ne (congrArg Point.y heq)

end FlowTree.Placement
