/-!
# Numbers of a drawing

Positions, widths, opacities and clocks are computed over any type with the operations of
**`Scalar`**.  The program runs on binary floating point (`instScalarFloat`); every definition that
is stated over `Scalar` can be read over exact rationals as well.

* **`Scalar.max`, `Scalar.min`** keep the second argument among equals and drop a value that is not
  a number.  Equals may differ in the sign of a zero.
* **`Scalar.clampUnit`** confines a number to the unit interval and lets a value that is not a
  number through.
-/

namespace FlowTree

/-- Arithmetic and comparison as a drawing needs them. -/
class Scalar (α : Type) extends Add α, Sub α, Mul α, Div α, Neg α where
  /-- The number a count stands for. -/
  ofNat : Nat → α
  /-- Strictly smaller; false as soon as one side is not a number. -/
  lt : α → α → Bool
  /-- Smaller or equal; false as soon as one side is not a number. -/
  le : α → α → Bool
  /-- The value is no number at all, the result of an undefined quotient for instance. -/
  isNaN : α → Bool

instance instScalarFloat : Scalar Float where
  ofNat := Float.ofNat
  lt a b := decide (a < b)
  le a b := decide (a ≤ b)
  isNaN := Float.isNaN

namespace Scalar

variable {α : Type} [Scalar α]

/-- The number zero. -/
def zero : α := ofNat 0

/-- The number one. -/
def one : α := ofNat 1

/-- The number two. -/
def two : α := ofNat 2

/-- The larger of two numbers, the second one if neither is larger. -/
def max (a b : α) : α := if isNaN b || lt b a then a else b

/-- The smaller of two numbers, the second one if neither is smaller. -/
def min (a b : α) : α := if isNaN b || lt a b then a else b

/-- The closest number between zero and one. -/
def clampUnit (a : α) : α :=
  let raised := if lt a zero then zero else a
  if lt one raised then one else raised

/-- The point a share `t` of the way from `a` to `b`. -/
def lerp (a b t : α) : α := a + (b - a) * t

end Scalar

end FlowTree
