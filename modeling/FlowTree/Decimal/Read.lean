/-!
# Reading decimals

* **`nearest`** reads a decimal as the floating-point number nearest to it.
* **`scaled?`** reads a whole number of at most 64 bits with a power of ten the short way: one
  multiplication or division in floating point, and one division by the largest power first for each
  308 places below it.  Numbers beyond the range are refused.
* **`ofText?`** reads the numbers that a command line takes.
-/

namespace FlowTree.Decimal

/-- The value of a list of decimal digits. -/
def ofDigits (ds : List Char) : Nat :=
  ds.foldl (fun n c => n * 10 + (c.toNat - '0'.toNat)) 0

/-- More places than any number in range has. -/
def farPlaces : Nat := 400

/-- The floating-point number nearest to `digits * 10 ^ exponent`. -/
def nearest (digits : Nat) (exponent : Int) : Float :=
  if digits == 0 then 0
  else
    let magnitude := exponent + (Nat.toDigits 10 digits).length
    if magnitude < -(farPlaces : Int) then 0
    else if (farPlaces : Int) < magnitude then Float.ofScientific 1 false farPlaces
    else Float.ofScientific digits (decide (exponent < 0)) exponent.natAbs

/-- The largest exponent of ten in range. -/
def farExponent : Nat := 308

/-- A power of ten within range. -/
def powerOfTen (exponent : Nat) : Float := Float.ofScientific 1 false exponent

/-- The product of `f` and a power of ten, `none` if it is beyond the range. -/
def timesPower? (f : Float) (exponent : Int) : Option Float :=
  if exponent.natAbs ≤ farExponent then
    if 0 ≤ exponent then
      let product := f * powerOfTen exponent.natAbs
      if product.isInf then none else some product
    else some (f / powerOfTen exponent.natAbs)
  else if f == 0 then some f
  else if 0 ≤ exponent then none
  else timesPower? (f / powerOfTen farExponent) (exponent + farExponent)
termination_by exponent.natAbs
decreasing_by simp only [farExponent] at *; omega

/-- The number `significand * 10 ^ exponent` the short way. -/
def scaled? (significand : Nat) (exponent : Int) : Option Float :=
  timesPower? (Float.ofNat significand) exponent

/-! ### Numbers on a command line -/

/-- The digits at the start of a text, and what follows them. -/
def spanDigits (s : List Char) : List Char × List Char :=
  (s.takeWhile Char.isDigit, s.dropWhile Char.isDigit)

/-- A text without its sign, and whether the sign is minus. -/
def spanSign : List Char → Bool × List Char
  | '-' :: s => (true, s)
  | '+' :: s => (false, s)
  | s => (false, s)

/-- The exponent of ten at the end of a numeral, `none` if it is malformed. -/
def exponent? : List Char → Option Int
  | [] => some 0
  | c :: s =>
    if c == 'e' || c == 'E' then
      let (negative, s) := spanSign s
      let (ds, rest) := spanDigits s
      if ds.isEmpty || !rest.isEmpty then none
      else some (if negative then -(ofDigits ds : Int) else ofDigits ds)
    else none

/-- A number without a sign: the words for infinity and for what is not a number, or digits with an
optional fraction and an optional exponent. -/
def unsigned? (s : List Char) : Option Float :=
  let word := s.map Char.toLower
  if word == "inf".toList || word == "infinity".toList then some (1 / 0)
  else if word == "nan".toList then some (0 / 0)
  else
    let (whole, rest) := spanDigits s
    let (fraction, rest) := match rest with
      | '.' :: rest => spanDigits rest
      | _ => ([], rest)
    if whole.isEmpty && fraction.isEmpty then none
    else (exponent? rest).map fun e => nearest (ofDigits (whole ++ fraction)) (e - fraction.length)

/-- The number that a text stands for. -/
def ofText? (s : String) : Option Float :=
  let (negative, rest) := spanSign s.toList
  (unsigned? rest).map fun x => if negative then -x else x

end FlowTree.Decimal
