import FlowTree.Geometry
import Mathlib.Algebra.Order.Ring.Rat
import Mathlib.Tactic.Linarith
import Mathlib.Tactic.Ring

/-!
# Exact arithmetic

The rationals with their own arithmetic and order are a scalar, so every definition over `Scalar` can
be read without rounding; every value is a number.
-/

namespace FlowTree

instance instScalarRat : Scalar ℚ where
  ofNat n := n
  lt a b := decide (a < b)
  le a b := decide (a ≤ b)
  isNaN _ := false

namespace Scalar

@[simp] theorem ofNat_rat (n : Nat) : (ofNat n : ℚ) = n := rfl

@[simp] theorem zero_rat : (zero : ℚ) = 0 := rfl

@[simp] theorem one_rat : (one : ℚ) = 1 := rfl

@[simp] theorem two_rat : (two : ℚ) = 2 := rfl

@[simp] theorem lt_rat (a b : ℚ) : lt a b = decide (a < b) := rfl

@[simp] theorem le_rat (a b : ℚ) : le a b = decide (a ≤ b) := rfl

@[simp] theorem isNaN_rat (a : ℚ) : isNaN a = false := rfl

theorem max_rat (a b : ℚ) : Scalar.max a b = Max.max a b := by
  rw [Scalar.max, isNaN_rat, lt_rat, Bool.false_or, max_comm, max_def_lt]
  simp only [decide_eq_true_eq]

theorem min_rat (a b : ℚ) : Scalar.min a b = Min.min a b := by
  rw [Scalar.min, isNaN_rat, lt_rat, Bool.false_or, min_def_lt]
  simp only [decide_eq_true_eq]

theorem max_eq : (Scalar.max : ℚ → ℚ → ℚ) = Max.max := by
  funext a b
  exact max_rat a b

/-- A running maximum is not below its beginning, nor below what it has run over. -/
theorem le_foldl_max (l : List ℚ) (a : ℚ) :
    a ≤ l.foldl Max.max a ∧ ∀ x ∈ l, x ≤ l.foldl Max.max a := by
  induction l generalizing a with
  | nil => exact ⟨le_refl a, by simp⟩
  | cons y l ih =>
    obtain ⟨hinit, hrest⟩ := ih (Max.max a y)
    rw [List.foldl_cons]
    refine ⟨(le_max_left a y).trans hinit, ?_⟩
    intro x hx
    rcases List.mem_cons.mp hx with rfl | hx
    · exact (le_max_right a x).trans hinit
    · exact hrest x hx

/-- It is its beginning or one of what it has run over. -/
theorem foldl_max_mem (l : List ℚ) (a : ℚ) : l.foldl Max.max a = a ∨ l.foldl Max.max a ∈ l := by
  induction l generalizing a with
  | nil => exact Or.inl rfl
  | cons y l ih =>
    rw [List.foldl_cons, List.mem_cons]
    rcases ih (Max.max a y) with heq | hmem
    · rw [heq]
      rcases max_choice a y with hmax | hmax
      · exact Or.inl hmax
      · exact Or.inr (Or.inl hmax)
    · exact Or.inr (Or.inr hmem)

/-- At the end of the way stands the goal. -/
theorem lerp_one (a b : ℚ) : lerp a b 1 = b := by
  rw [lerp, mul_one]
  exact add_sub_cancel a b

/-- On the way between two numbers one stays above what is below both. -/
theorem le_lerp {low a b t : ℚ} (ha : low ≤ a) (hb : low ≤ b) (ht : 0 ≤ t) (ht' : t ≤ 1) :
    low ≤ lerp a b t := by
  have hshares : lerp a b t - low = (a - low) * (1 - t) + (b - low) * t := by
    rw [lerp]
    ring
  have hnonneg : 0 ≤ (a - low) * (1 - t) + (b - low) * t :=
    add_nonneg (mul_nonneg (sub_nonneg.mpr ha) (sub_nonneg.mpr ht')) (mul_nonneg (sub_nonneg.mpr hb) ht)
  linarith

/-- And below what is above both. -/
theorem lerp_le {high a b t : ℚ} (ha : a ≤ high) (hb : b ≤ high) (ht : 0 ≤ t) (ht' : t ≤ 1) :
    lerp a b t ≤ high := by
  have hshares : high - lerp a b t = (high - a) * (1 - t) + (high - b) * t := by
    rw [lerp]
    ring
  have hnonneg : 0 ≤ (high - a) * (1 - t) + (high - b) * t :=
    add_nonneg (mul_nonneg (sub_nonneg.mpr ha) (sub_nonneg.mpr ht')) (mul_nonneg (sub_nonneg.mpr hb) ht)
  linarith

theorem clampUnit_mem (a : ℚ) : 0 ≤ clampUnit a ∧ clampUnit a ≤ 1 := by
  simp only [clampUnit, lt_rat, zero_rat, one_rat, decide_eq_true_eq]
  split <;> split <;> constructor <;> linarith

theorem clampUnit_eq (a : ℚ) : clampUnit a = Min.min 1 (Max.max 0 a) := by
  simp only [clampUnit, lt_rat, zero_rat, one_rat, decide_eq_true_eq]
  rcases lt_or_ge a 0 with hneg | hnonneg
  · rw [if_pos hneg, if_neg (by norm_num), max_eq_left hneg.le, min_eq_right zero_le_one]
  · rw [if_neg (not_lt.mpr hnonneg), max_eq_right hnonneg]
    rcases lt_or_ge 1 a with hbig | hsmall
    · rw [if_pos hbig, min_eq_left hbig.le]
    · rw [if_neg (not_lt.mpr hsmall), min_eq_right hsmall]

theorem clampUnit_one : clampUnit (1 : ℚ) = 1 := by
  rw [clampUnit]
  simp

end Scalar

end FlowTree
