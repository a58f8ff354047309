import FlowTree.Proofs.Exact

/-!
# Guarded arithmetic

Exact division by zero gives zero, so a drawing in exact numbers does not show whether it has ever divided by zero.
Guarded numbers do: such a quotient is undefined, and so is all that is computed from it.

* **`Guarded`** is an exact number or undefined; **`instScalarGuarded`** makes it a scalar.
* **`Guarded.number_div`** and its like say that calculations with numbers are exact as long as no divisor is zero.
-/

namespace FlowTree

/-- An exact number, or what is left of it after a division by zero. -/
inductive Guarded where
  | number (value : ℚ)
  | undefined
  deriving DecidableEq

namespace Guarded

/-- A calculation with two numbers; undefined as soon as one of them is. -/
def combine (f : ℚ → ℚ → Guarded) : Guarded → Guarded → Guarded
  | number a, number b => f a b
  | _, _ => undefined

/-- A comparison of two numbers; false as soon as one of them is undefined. -/
def compare (test : ℚ → ℚ → Bool) : Guarded → Guarded → Bool
  | number a, number b => test a b
  | _, _ => false

end Guarded

instance instScalarGuarded : Scalar Guarded where
  add := Guarded.combine fun a b => .number (a + b)
  sub := Guarded.combine fun a b => .number (a - b)
  mul := Guarded.combine fun a b => .number (a * b)
  div := Guarded.combine fun a b => if b = 0 then .undefined else .number (a / b)
  neg
    | .number a => .number (-a)
    | .undefined => .undefined
  ofNat n := .number n
  lt := Guarded.compare fun a b => decide (a < b)
  le := Guarded.compare fun a b => decide (a ≤ b)
  isNaN
    | .number _ => false
    | .undefined => true

namespace Guarded

/-! ### Calculations with numbers -/

@[simp] theorem number_add (a b : ℚ) : number a + number b = number (a + b) := rfl

@[simp] theorem number_sub (a b : ℚ) : number a - number b = number (a - b) := rfl

@[simp] theorem number_mul (a b : ℚ) : number a * number b = number (a * b) := rfl

@[simp] theorem number_neg (a : ℚ) : -number a = number (-a) := rfl

@[simp] theorem lt_number (a b : ℚ) : Scalar.lt (number a) (number b) = Scalar.lt a b := rfl

@[simp] theorem ofNat_number (n : ℕ) : (Scalar.ofNat n : Guarded) = number (Scalar.ofNat n) := rfl

@[simp] theorem zero_number : (Scalar.zero : Guarded) = number Scalar.zero := rfl

@[simp] theorem one_number : (Scalar.one : Guarded) = number Scalar.one := rfl

@[simp] theorem two_number : (Scalar.two : Guarded) = number Scalar.two := rfl

/-- **A quotient is defined** if the divisor is not zero. -/
theorem number_div (a : ℚ) {b : ℚ} (hb : b ≠ 0) : number a / number b = number (a / b) := if_neg hb

/-- A division by zero is noticed. -/
theorem number_div_zero (a : ℚ) : number a / number 0 = undefined := rfl

theorem number_half (a : ℚ) : number a / number Scalar.two = number (a / Scalar.two) :=
  number_div a two_ne_zero

end Guarded

end FlowTree
