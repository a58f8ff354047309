import FlowTree.Decimal.Binary

/-!
# A fixed number of places

* **`roundDiv`** rounds a quotient to the nearest whole number, a tie to the even one.
* **`Reading.fixed`** writes a number with a fixed number of decimals.  The exact value is rounded,
  and the sign stays when only zeros are left.
-/

namespace FlowTree.Decimal

/-- The whole number nearest to `num / den`, the even one of two. -/
def roundDiv (num den : Nat) : Nat :=
  let q := num / den
  let r := num % den
  if 2 * r < den then q else if den < 2 * r then q + 1 else q + q % 2

/-- The decimal digits of a whole number, filled up with leading zeros. -/
def paddedDigits (width n : Nat) : List Char :=
  let ds := Nat.toDigits 10 n
  List.replicate (width - ds.length) '0' ++ ds

/-- The texts of the values that have no digits. -/
def infinityText (negative : Bool) : String := if negative then "-inf" else "inf"

/-- The text of a value that is not a number. -/
def nanText : String := "NaN"

/-- The number of units of the last of `places` decimals, rounded. -/
def Binary.units (places : Nat) (b : Binary) : Nat :=
  roundDiv (b.mantissa * Nat.pow 10 places * Nat.pow 2 b.exponent.toNat)
    (Nat.pow 2 (-b.exponent).toNat)

/-- The number with `places` decimals. -/
def Reading.fixed (places : Nat) : Reading → String
  | .nan => nanText
  | .infinite negative => infinityText negative
  | .finite b =>
    let ds := paddedDigits (places + 1) (b.units places)
    let whole := ds.take (ds.length - places)
    let rest := ds.drop (ds.length - places)
    String.ofList ((if b.negative then ['-'] else []) ++ whole
      ++ if places == 0 then [] else '.' :: rest)

end FlowTree.Decimal
