import FlowTree.Decimal.Shortest
import FlowTree.Decimal.Fixed

/-!
# Numerals

How the shortest digits of a number are laid out as text.

* **`Numeral.plain`** is the style of running text: no exponent, no decimals unless needed.
* **`Numeral.exchange`** is the style of data files: always a fraction or an exponent, and an
  exponent for very large and very small numbers.
* **`Printed`** is the class of numbers that can be written on a diagram.
-/

namespace FlowTree.Decimal

/-- The decisions of a numeral style. -/
structure Numeral where
  /-- Which of two equally close shortest decimals is written. -/
  tie : Tie
  /-- The decimal exponents that are written without an exponent; `none` means all of them. -/
  positional : Option (Int × Int)
  /-- Whole numbers get the decimals `.0`. -/
  keepsFraction : Bool

namespace Numeral

/-- The style of running text. -/
def plain : Numeral := ⟨.up, none, false⟩

/-- The style of data files. -/
def exchange : Numeral := ⟨.toEven, some (-5, 15), true⟩

/-- The digits without the zeros at their end, and the exponent that makes up for them. -/
def strip (s : Scaled) : (fuel : Nat) → Scaled
  | 0 => s
  | fuel + 1 =>
    if s.digits != 0 && s.digits % 10 == 0 then strip ⟨s.digits / 10, s.exponent + 1⟩ fuel else s

/-- The digits with a point after the first `point` of them. -/
def positionalText (keepsFraction : Bool) (ds : List Char) (point : Int) : List Char :=
  if point ≤ 0 then
    ['0', '.'] ++ List.replicate (-point).toNat '0' ++ ds
  else if ds.length ≤ point.toNat then
    ds ++ List.replicate (point.toNat - ds.length) '0' ++ if keepsFraction then ['.', '0'] else []
  else
    ds.take point.toNat ++ '.' :: ds.drop point.toNat

/-- One digit, the others after a point, and the exponent with its sign. -/
def scientificText (ds : List Char) (exponent : Int) : List Char :=
  ds.take 1 ++ (if ds.length ≤ 1 then [] else '.' :: ds.drop 1)
    ++ ['e', if exponent < 0 then '-' else '+'] ++ Nat.toDigits 10 exponent.natAbs

/-- The text of a finite number. -/
def render (n : Numeral) (b : Binary) : String :=
  let s := strip (b.shortest n.tie) mostDigits
  let ds := Nat.toDigits 10 s.digits
  let point := if s.digits == 0 then 1 else ds.length + s.exponent
  let exponent := point - 1
  let isPositional := match n.positional with
    | none => true
    | some (least, most) => least ≤ exponent && exponent ≤ most
  String.ofList ((if b.negative then ['-'] else [])
    ++ if isPositional then positionalText n.keepsFraction ds point else scientificText ds exponent)

end Numeral

/-- The number in plain style. -/
def Reading.plain : Reading → String
  | .nan => nanText
  | .infinite negative => infinityText negative
  | .finite b => Numeral.plain.render b

end FlowTree.Decimal

namespace FlowTree

/-- Numbers that can be written on a diagram. -/
class Printed (α : Type) where
  /-- The number in running text. -/
  plain : α → String
  /-- The number with a fixed count of decimals. -/
  fixed : Nat → α → String
  /-- The nearest whole number, of two the one farther from zero; zero has no sign. -/
  rounded : α → String

/-- The nearest whole number in running text. -/
def Decimal.roundedText (x : Float) : String :=
  let r := x.round
  if r == 0 then "0" else (Decimal.Reading.ofFloat r).plain

instance instPrintedFloat : Printed Float where
  plain x := (Decimal.Reading.ofFloat x).plain
  fixed places x := (Decimal.Reading.ofFloat x).fixed places
  rounded := Decimal.roundedText

end FlowTree
