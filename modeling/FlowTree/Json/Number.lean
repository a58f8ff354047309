import FlowTree.Decimal.Read
import FlowTree.Json.Source

/-!
# Numerals of data files

A numeral is a whole number, or a number with a fraction or an exponent, which becomes a
floating-point number.  Digits beyond 64 bits are not kept.

* **`Numeral.scan`** takes a numeral from the start of a text.
-/

namespace FlowTree.Json

open Decimal (spanDigits spanSign)

/-- The value of a numeral. -/
inductive Number where
  /-- A whole number of at most 64 bits. -/
  | whole (n : Int)
  | real (x : Float)

/-- The number as a floating-point number. -/
def Number.toFloat : Number → Float
  | whole n => if n < 0 then -Float.ofNat n.natAbs else Float.ofNat n.natAbs
  | real x => x

/-- A numeral as it stands in a text. -/
structure Numeral where
  /-- The number for one who wants to know it. -/
  number : Except Fault Number
  /-- What is wrong with it for one who does not. -/
  fault : Option Fault

namespace Numeral

/-- A numeral that is wrong for everybody. -/
def wrong : Numeral := ⟨.error .malformed, some .malformed⟩

/-- A numeral that the end of the text cuts off. -/
def short : Numeral := ⟨.error .cutOff, some .malformed⟩

/-! ### Digits within 64 bits -/

/-- What a significand stays below, the 64th power of two. -/
def significandBound : Nat := 0x10000000000000000

/-- How far whole numbers reach below zero, the 63rd power of two. -/
def negativeBound : Nat := 0x8000000000000000

/-- The digits that are kept, and the power of ten they are counted in. -/
structure Kept where
  significand : Nat
  places : Int

/-- One more digit fits. -/
def Kept.fits (k : Kept) (digit : Nat) : Bool := k.significand * 10 + digit < significandBound

/-- The value of a digit. -/
def digitValue (c : Char) : Nat := c.toNat - '0'.toNat

/-- The digits before the point: as many as fit, the others only counted. -/
def keepWhole (k : Kept) : List Char → Kept
  | [] => k
  | c :: rest =>
    if k.fits (digitValue c) then
      keepWhole { k with significand := k.significand * 10 + digitValue c } rest
    else { k with places := k.places + (rest.length + 1) }

/-- The digits after the point: as many as fit. -/
def keepFraction (k : Kept) : List Char → Kept
  | [] => k
  | c :: rest =>
    if k.fits (digitValue c) then
      keepFraction ⟨k.significand * 10 + digitValue c, k.places - 1⟩ rest
    else k

/-! ### The number -/

/-- What an exponent that is looked at stays below, the 31st power of two. -/
def exponentBound : Nat := 0x80000000

/-- The number for kept digits and an exponent; beyond the range it is malformed. -/
def realOf (negative : Bool) (k : Kept) (exponent : Int) : Except Fault Number :=
  let signed (x : Float) : Number := .real (if negative then -x else x)
  if (exponentBound : Int) ≤ exponent.natAbs then
    if k.significand != 0 && 0 ≤ exponent then .error .malformed else .ok (signed 0)
  else match Decimal.scaled? k.significand (k.places + exponent) with
    | some x => .ok (signed x)
    | none => .error .malformed

/-- The number for the digits of a numeral without fraction and exponent. -/
def wholeOf (negative : Bool) (k : Kept) : Except Fault Number :=
  if k.places != 0 then realOf negative k 0
  else if !negative then .ok (.whole k.significand)
  else if k.significand == 0 || negativeBound < k.significand then
    .ok (.real (-Float.ofNat k.significand))
  else .ok (.whole (-(k.significand : Int)))

/-! ### Scanning -/

/-- Takes the exponent, if there is one, and closes the numeral. -/
def scanExponent (negative : Bool) (k : Kept) (isWhole : Bool) :
    List Char → Numeral × List Char
  | [] => (⟨if isWhole then wholeOf negative k else realOf negative k 0, none⟩, [])
  | c :: rest =>
    if c == 'e' || c == 'E' then
      let (down, rest) := spanSign rest
      let (ds, after) := spanDigits rest
      if ds.isEmpty then (if after.isEmpty then short else wrong, [])
      else
        let e : Int := Decimal.ofDigits ds
        (⟨realOf negative k (if down then -e else e), none⟩, after)
    else (⟨if isWhole then wholeOf negative k else realOf negative k 0, none⟩, c :: rest)

/-- Takes what follows the digits before the point. -/
def scanFraction (negative : Bool) (whole : List Char) (s : List Char) : Numeral × List Char :=
  let k := keepWhole ⟨0, 0⟩ whole
  match s with
  | '.' :: rest =>
    let (ds, after) := spanDigits rest
    if ds.isEmpty then (if after.isEmpty then short else wrong, [])
    else scanExponent negative (keepFraction k ds) false after
  | s => scanExponent negative k true s

/-- Takes a numeral after its sign from the start of a text; after a wrong one nothing is left. -/
def scan (negative : Bool) (s : List Char) : Numeral × List Char :=
  let (ds, after) := spanDigits s
  match ds with
  | [] => (if s.isEmpty then short else wrong, [])
  | '0' :: _ :: _ => (wrong, [])
  | ds => scanFraction negative ds after

/-! ### A numeral takes no more than there is -/

theorem length_spanDigits_le (s : List Char) : (spanDigits s).2.length ≤ s.length :=
  (List.dropWhile_sublist _).length_le

theorem length_spanSign_le (s : List Char) : (spanSign s).2.length ≤ s.length := by
  unfold spanSign
  split <;> simp

theorem length_scanExponent_le (negative : Bool) (k : Kept) (isWhole : Bool) (s : List Char) :
    (scanExponent negative k isWhole s).2.length ≤ s.length := by
  cases s with
  | nil => simp [scanExponent]
  | cons c rest =>
    simp only [scanExponent]
    split
    · split
      · simp
      · have h1 := length_spanDigits_le (spanSign rest).2
        have h2 := length_spanSign_le rest
        simp only [List.length_cons]
        omega
    · simp

theorem length_scanFraction_le (negative : Bool) (whole s : List Char) :
    (scanFraction negative whole s).2.length ≤ s.length := by
  unfold scanFraction
  split
  · rename_i rest
    have h1 := length_spanDigits_le rest
    simp only
    split
    · simp
    · have h2 := length_scanExponent_le negative
        (keepFraction (keepWhole ⟨0, 0⟩ whole) (spanDigits rest).1) false (spanDigits rest).2
      simp only [List.length_cons]
      omega
  · exact length_scanExponent_le ..

theorem length_scan_le_spanDigits (negative : Bool) (s : List Char) :
    (scan negative s).2.length ≤ (spanDigits s).2.length := by
  unfold scan
  simp only
  split
  · simp
  · simp
  · exact length_scanFraction_le ..

theorem length_scan_le (negative : Bool) (s : List Char) :
    (scan negative s).2.length ≤ s.length :=
  Nat.le_trans (length_scan_le_spanDigits negative s) (length_spanDigits_le s)

theorem length_scan_cons_le (negative : Bool) {c : Char} (rest : List Char) (h : c.isDigit) :
    (scan negative (c :: rest)).2.length ≤ rest.length := by
  refine Nat.le_trans (length_scan_le_spanDigits negative (c :: rest)) ?_
  have : (spanDigits (c :: rest)).2 = (spanDigits rest).2 := by
    simp [spanDigits, h]
  rw [this]
  exact length_spanDigits_le rest

end Numeral

end FlowTree.Json
