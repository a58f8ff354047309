import FlowTree.Decimal.Binary

/-!
# The fewest digits that read back

Among the decimals that round to a given binary number, `Binary.shortest` finds one with the fewest
digits, and of those the one closest to the number.

The search tests for one digit, two digits and so on the two points of the decimal grid that
enclose the number; the first grid with a point among the decimals that round to the number wins.
Seventeen digits always suffice.
-/

namespace FlowTree.Decimal

/-- The number `digits * 10 ^ exponent`. -/
structure Scaled where
  digits : Nat
  exponent : Int
  deriving DecidableEq, Repr

/-- Which of two equally close candidates is taken. -/
inductive Tie where
  | toEven
  | up
  deriving DecidableEq, Repr

/-- The number of decimal digits of a whole number. -/
def digitCount (n : Nat) : Nat := (Nat.toDigits 10 n).length

/-- How many zeros follow the point before the first digit of a fraction below one. -/
def leadingZeros (num den : Nat) : (fuel : Nat) → Nat
  | 0 => 0
  | fuel + 1 => if den ≤ num * 10 then 0 else leadingZeros (num * 10) den fuel + 1

/-- The position of the point relative to the first digit of a positive fraction: the fraction is
below `10 ^ k` and not below `10 ^ (k - 1)`. -/
def pointPosition (num den : Nat) : Int :=
  if den ≤ num then digitCount (num / den) else -(leadingZeros num den (den.log2 + 1) : Nat)

/-- The reals that round to a number, as fractions over one denominator. -/
structure Interval where
  low : Nat
  value : Nat
  high : Nat
  den : Nat
  closed : Bool

/-- The reals that round to `b`: half a unit to each side, a quarter below a power of two; the ends
belong to it if the mantissa is even. -/
def Binary.interval (b : Binary) : Interval :=
  let scale := Nat.pow 2 (b.exponent - 2).toNat
  { low := (4 * b.mantissa - (if b.tight then 1 else 2)) * scale
    value := 4 * b.mantissa * scale
    high := (4 * b.mantissa + 2) * scale
    den := Nat.pow 2 (2 - b.exponent).toNat
    closed := b.mantissa % 2 == 0 }

/-- The closer of the grid points `d` and `d + 1` to `value / unit`. -/
def nearer (tie : Tie) (value unit d : Nat) : Nat :=
  if 2 * value < (2 * d + 1) * unit then d
  else if (2 * d + 1) * unit < 2 * value then d + 1
  else match tie with
    | .toEven => d + d % 2
    | .up => d + 1

/-- A point of the grid of `10 ^ exponent` that lies in the interval, if there is one. -/
def Interval.onGrid? (i : Interval) (tie : Tie) (exponent : Int) : Option Nat :=
  let up := Nat.pow 10 (-exponent).toNat
  let unit := i.den * Nat.pow 10 exponent.toNat
  let d := i.value * up / unit
  let ordered (a b : Nat) : Bool := if i.closed then a ≤ b else a < b
  match ordered (i.low * up) (d * unit), ordered ((d + 1) * unit) (i.high * up) with
  | true, true => some (nearer tie (i.value * up) unit d)
  | true, false => some d
  | false, true => some (d + 1)
  | false, false => none

/-- The first grid, from the point position downwards, with a point in the interval. -/
def Interval.search (i : Interval) (tie : Tie) (exponent : Int) : (fuel : Nat) → Scaled
  | 0 => ⟨i.value / i.den, 0⟩
  | fuel + 1 =>
    match i.onGrid? tie exponent with
    | some d => ⟨d, exponent⟩
    | none => i.search tie (exponent - 1) fuel

/-- The most digits that a number of 64 bits needs. -/
def mostDigits : Nat := 17

/-- The decimal with the fewest digits that rounds to `b`; the sign is left out. -/
def Binary.shortest (tie : Tie) (b : Binary) : Scaled :=
  if b.mantissa == 0 then ⟨0, 0⟩
  else
    let i := b.interval
    i.search tie (pointPosition i.value i.den - 1) mostDigits

end FlowTree.Decimal
