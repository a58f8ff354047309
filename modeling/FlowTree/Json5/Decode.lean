import FlowTree.Json.Decode
import FlowTree.Json5.Lexer
import FlowTree.Json5.Text

/-!
# Taking JSON5 values apart

Readers for the values of JSON5.  Every number suits every numeric field; a value of another type is
refused with a message.

* **`Json5.asReal`** and **`Json5.asNumber`** are the two readings of a numeral: as a number, and as
  whatever it looks like.
* **`Json5.Record.read`** reads a record with optional fields, written as an object or as an array
  that has at least all its fields.
-/

namespace FlowTree.Json5

open Json (Source SourceText Number)

/-- Why a reader gives no value. -/
inductive Refusal where
  /-- The value does not suit, for a reason in words. -/
  | unsuitable (reason : String)
  /-- A value in place of a number has a second character of more than one byte.  The signs of a
  hexadecimal number are looked for in the first two bytes, which then end inside a character. -/
  | splitCharacter

/-- The outcome of a reader. -/
abbrev Result := Except Refusal

/-- A refusal for a reason in words. -/
def refuse {β : Type} (reason : String) : Result β := .error (.unsuitable reason)

/-! ### Numerals -/

namespace Numeral

/-- The numeral is hexadecimal and has no sign. -/
def isHexadecimal (n : Numeral) : Bool :=
  match n.signs with
  | '0' :: x :: _ :: _ => x == 'x' || x == 'X'
  | _ => false

/-- What a hexadecimal numeral stays below, the 32nd power of two. -/
def hexadecimalBound : Nat := 0x100000000

/-- The value of a hexadecimal numeral of at most 32 bits. -/
def hexadecimalValue (n : Numeral) : Result Nat :=
  let value := (n.signs.drop 2).foldl (fun v c => v * 16 + (Json.hexValue? c).getD 0) 0
  if value < hexadecimalBound then .ok value else refuse "error parsing hex"

/-- The numeral is the word for infinity, with a minus or without a sign. -/
def isInfinity (n : Numeral) : Bool :=
  n.signs == "Infinity".toList || n.signs == "-Infinity".toList

/-- The numeral is the word for what is not a number, with a minus or without a sign. -/
def isNaN (n : Numeral) : Bool := n.signs == "NaN".toList || n.signs == "-NaN".toList

/-- The numeral looks like a whole number. -/
def isWhole (n : Numeral) : Bool :=
  !n.signs.contains '.' && (n.isHexadecimal || !(n.signs.contains 'e' || n.signs.contains 'E'))
    && !n.isInfinity && !n.isNaN

/-- The numeral as a floating-point number.  Only the words stand for values that are not finite. -/
def real (n : Numeral) : Result Float :=
  if n.isInfinity then .ok (if n.signs.head? == some '-' then -(1 / 0) else 1 / 0)
  else if n.isNaN then .ok (0 / 0)
  else if n.isHexadecimal then n.hexadecimalValue.map Float.ofNat
  else match Decimal.ofText? (String.ofList n.signs) with
    | none => refuse "error parsing number"
    | some x => if x.isFinite then .ok x else refuse "error parsing number: too large"

/-- The numeral as a whole number of 64 bits with a sign. -/
def whole (n : Numeral) : Result Int :=
  if n.isHexadecimal then n.hexadecimalValue.map Int.ofNat
  else
    let (negative, ds) := Decimal.spanSign n.signs
    let value : Int := if negative then -(Decimal.ofDigits ds : Int) else Decimal.ofDigits ds
    let bound : Int := Json.Numeral.negativeBound
    if ds.isEmpty || !ds.all Char.isDigit || value < -bound || bound ≤ value then
      refuse "error parsing integer"
    else .ok value

/-- The numeral as a whole number if it looks like one, else as a floating-point number. -/
def number (n : Numeral) : Result Number :=
  if n.isWhole then n.whole.map Number.whole else n.real.map Number.real

end Numeral

/-! ### Single values -/

/-- A text. -/
def readText (t : SourceText) : Result String :=
  match readPieces t.pieces with
  | .ok cs => .ok (String.ofList cs)
  | .error e => refuse e.message

/-- A floating-point number in words. -/
def describeReal (x : Float) : String :=
  let plain := Printed.plain x
  "floating point `" ++ plain ++ (if x.isFinite && !plain.contains '.' then ".0" else "") ++ "`"

/-- The value in words. -/
def describe : Source Numeral → Result String
  | .null => .ok "unit value"
  | .number n => n.number.map fun
    | .whole i => (Json.Found.integer i).describe
    | .real x => describeReal x
  | .text t => (readText t).map fun s => (Json.Found.text s).describe
  | .bool b => .ok (Json.Found.bool b).describe
  | .array .. => .ok "sequence"
  | _ => .ok "map"

/-- The refusal of a value that is not of the expected type. -/
def mismatch {β : Type} (expected : String) (s : Source Numeral) : Result β := do
  let found ← describe s
  refuse ("invalid type: " ++ found ++ ", expected " ++ expected)

/-- A text. -/
def asText : Source Numeral → Result String
  | .text t => readText t
  | s => mismatch "a string" s

/-- The second character of the value takes more than one byte. -/
def hasWideStart : Source Numeral → Bool
  | .text t => t.wideStart
  | .array _ brackets | .object _ brackets => brackets.wideStart
  | _ => false

/-- A number. -/
def asReal : Source Numeral → Result Float
  | .number n => n.real
  | s => if hasWideStart s then .error .splitCharacter else refuse "error parsing number"

/-- A count of at most 32 bits: the number cut toward zero, or the nearest count. -/
def asCount (s : Source Numeral) : Result Nat := (asReal s).map fun x => x.toUInt32.toNat

/-- A value that may be `null`. -/
def asOption {β : Type} (read : Source Numeral → Result β) : Source Numeral → Result (Option β)
  | .null => .ok none
  | s => (read s).map some

mutual

/-- A value of no interest, which still has to make sense. -/
def pass : Source Numeral → Result Unit
  | .number n => n.number.map fun _ => ()
  | .text t => (readText t).map fun _ => ()
  | .array items _ => passItems items
  | .object fields _ => passFields fields
  | _ => .ok ()

/-- The items of an array of no interest. -/
def passItems : List (Source Numeral) → Result Unit
  | [] => .ok ()
  | s :: rest => do
    pass s
    passItems rest

/-- The fields of an object of no interest. -/
def passFields : List (SourceText × Source Numeral) → Result Unit
  | [] => .ok ()
  | (name, s) :: rest => do
    let _ ← readText name
    pass s
    passFields rest

end

/-! ### Records -/

/-- How one field is read into a record. -/
structure Field (σ : Type) where
  name : String
  read : Source Numeral → σ → Result σ

/-- A field that may be `null`. -/
def Field.option {σ β : Type} (name : String) (read : Source Numeral → Result β)
    (set : Option β → σ → σ) : Field σ :=
  ⟨name, fun s r => (asOption read s).map (set · r)⟩

/-- A kind of record: its name and its fields in order. -/
structure Record (σ : Type) where
  name : String
  fields : List (Field σ)

namespace Record

variable {σ : Type}

/-- Reads one field of an object; a known one may not come twice. -/
def readField (r : Record σ) (progress : σ × List String)
    (field : SourceText × Source Numeral) : Result (σ × List String) := do
  let name ← readText field.1
  match r.fields.find? (·.name == name) with
  | none =>
    pass field.2
    return progress
  | some known =>
    if progress.2.contains name then refuse (Json.DataError.duplicateField name).message
    else
      let next ← known.read field.2 progress.1
      return (next, name :: progress.2)

/-- Reads the items of an array as the fields of a record; further items are of no interest. -/
def readItems (r : Record σ) : σ → List (Field σ) → List (Source Numeral) → Nat → Result σ
  | start, [], _, _ => .ok start
  | _, _ :: _, [], index =>
    refuse (Json.DataError.invalidLength index r.name r.fields.length).message
  | start, f :: fields, s :: items, index => do
    let next ← f.read s start
    readItems r next fields items (index + 1)

/-- Reads a record, starting from an empty one. -/
def read (r : Record σ) (start : σ) : Source Numeral → Result σ
  | .array items _ => r.readItems start r.fields items 0
  | .object fields _ => (fields.foldlM r.readField (start, [])).map (·.1)
  | s => mismatch ("struct " ++ r.name) s

end Record

end FlowTree.Json5
