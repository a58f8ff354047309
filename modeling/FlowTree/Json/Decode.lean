import FlowTree.Json.Number
import FlowTree.Json.Value
import FlowTree.Text.Quoted

/-!
# Taking values apart

Readers for the values of a data file.  A reader meets the faults of a text in reading order and
stops at the first one.

* **`ReadError`** is a fault of the text or a value that does not suit (**`DataError`**).
* **`Record.read`** reads a record, which is written as an object or as an array of its fields in
  order.  Unknown fields of an object are passed over, whatever they hold.
* A `budget` bounds how many brackets may be open at once.
-/

namespace FlowTree.Json

/-- What stands in place of the value that is expected. -/
inductive Found where
  | null
  | bool (b : Bool)
  | integer (n : Int)
  | floating (x : Float)
  | text (s : String)
  | sequence
  | map

/-- The value in words. -/
def Found.describe : Found → String
  | null => "null"
  | bool b => "boolean `" ++ (if b then "true" else "false") ++ "`"
  | integer n => "integer `" ++ toString n ++ "`"
  | floating x => "floating point `" ++ (ofFloat x).compact ++ "`"
  | text s => "string " ++ Quoted.quote s
  | sequence => "sequence"
  | map => "map"

/-- Why a value does not suit. -/
inductive DataError where
  | invalidType (found : Found) (expected : String)
  | missingField (name : String)
  | duplicateField (name : String)
  /-- A record in the form of an array that ends before a field that is needed. -/
  | invalidLength (length : Nat) (record : String) (fields : Nat)

/-- The reason in words. -/
def DataError.message : DataError → String
  | invalidType found expected =>
    "invalid type: " ++ found.describe ++ ", expected " ++ expected
  | missingField name => "missing field `" ++ name ++ "`"
  | duplicateField name => "duplicate field `" ++ name ++ "`"
  | invalidLength length record fields =>
    "invalid length " ++ toString length ++ ", expected struct " ++ record ++ " with "
      ++ toString fields ++ if fields = 1 then " element" else " elements"

/-- Why a text cannot be read. -/
inductive ReadError where
  | fault (f : Fault)
  | data (e : DataError)

/-- The outcome of a reader. -/
abbrev Result := Except ReadError

namespace Source

/-! ### Single values -/

/-- A fault of a part of the text. -/
def orFault {β : Type} : Except Fault β → Result β
  | .ok b => .ok b
  | .error f => .error (.fault f)

/-- The error for a value that is not of the expected type, or its own fault. -/
def mismatch (expected : String) : Source Numeral → ReadError
  | null => .data (.invalidType .null expected)
  | bool b => .data (.invalidType (.bool b) expected)
  | number n => match n.number with
    | .ok (.whole i) => .data (.invalidType (.integer i) expected)
    | .ok (.real x) => .data (.invalidType (.floating x) expected)
    | .error f => .fault f
  | text t => match t.read with
    | .ok s => .data (.invalidType (.text s) expected)
    | .error f => .fault f
  | array .. => .data (.invalidType .sequence expected)
  | object .. => .data (.invalidType .map expected)
  | brokenWord f => .fault f
  | broken f => .fault f

/-- A text. -/
def asText : Source Numeral → Result String
  | text t => orFault t.read
  | s => .error (s.mismatch "a string")

/-- A number. -/
def asFloat : Source Numeral → Result Float
  | number n => (orFault n.number).map Number.toFloat
  | s => .error (s.mismatch "f64")

/-- A value that may be `null`. -/
def asOption {β : Type} (read : Source Numeral → Result β) : Source Numeral → Result (Option β)
  | null => .ok none
  | s => (read s).map some

/-- A value that everybody passes over. -/
def pass (s : Source Numeral) : Result Unit :=
  match s.fault? Numeral.fault with
  | none => .ok ()
  | some f => .error (.fault f)

/-- The end of a list of parts. -/
def close : Finish → Result Unit
  | .closed => .ok ()
  | .broken f => .error (.fault f)

/-! ### Lists and maps -/

/-- A list; `read` gets the budget inside the brackets. -/
def asList {β : Type} (budget : Nat) (read : Nat → Source Numeral → Result β) :
    Source Numeral → Result (List β)
  | array items brackets =>
    match budget with
    | 0 => .error (.fault .malformed)
    | budget + 1 => do
      let values ← items.mapM (read budget)
      close brackets.finish
      return values
  | s => .error (s.mismatch "a sequence")

/-- A map with any names; `put` adds a field to what has been read. -/
def asMap {β σ : Type} (budget : Nat) (read : Nat → Source Numeral → Result β)
    (put : σ → String → β → σ) (start : σ) : Source Numeral → Result σ
  | object fields brackets =>
    match budget with
    | 0 => .error (.fault .malformed)
    | budget + 1 => do
      let all ← fields.foldlM (fun all field => do
        let name ← orFault field.1.read
        let value ← read budget field.2
        return put all name value) start
      close brackets.finish
      return all
  | s => .error (s.mismatch "a map")

end Source

/-! ### Records -/

/-- How one field is read into a record. -/
structure Field (σ : Type) where
  name : String
  /-- The record is complete without the field. -/
  isOptional : Bool
  read : Nat → Source Numeral → σ → Result σ

namespace Field

variable {σ β : Type}

/-- A field that a record must have. -/
def required (name : String) (read : Nat → Source Numeral → Result β) (set : β → σ → σ) :
    Field σ :=
  ⟨name, false, fun budget s r => (read budget s).map (set · r)⟩

/-- A field that a record may lack. -/
def optional (name : String) (read : Nat → Source Numeral → Result β) (set : β → σ → σ) :
    Field σ :=
  { required name read set with isOptional := true }

end Field

/-- A kind of record: its name and its fields in order. -/
structure Record (σ : Type) where
  name : String
  fields : List (Field σ)

namespace Record

variable {σ : Type}

/-- What has been read of an object: the record, and the names of its known fields so far. -/
abbrev Progress (σ : Type) := σ × List String

/-- Reads one field of an object. -/
def readField (r : Record σ) (budget : Nat) (progress : Progress σ)
    (field : SourceText × Source Numeral) : Result (Progress σ) := do
  let name ← Source.orFault field.1.read
  match r.fields.find? (·.name == name) with
  | none =>
    field.2.pass
    return progress
  | some known =>
    if progress.2.contains name then .error (.data (.duplicateField name))
    else
      let next ← known.read budget field.2 progress.1
      return (next, name :: progress.2)

/-- Reads the fields of an object in the order of the text; afterwards a field may be missing. -/
def readObject (r : Record σ) (budget : Nat) (start : σ)
    (fields : List (SourceText × Source Numeral)) (finish : Finish) : Result σ := do
  let progress ← fields.foldlM (r.readField budget) (start, [])
  Source.close finish
  match r.fields.find? fun f => !f.isOptional && !progress.2.contains f.name with
  | some f => .error (.data (.missingField f.name))
  | none => return progress.1

/-- Reads the items of an array as the fields of a record; afterwards nothing may be left. -/
def readItems (r : Record σ) (budget : Nat) (finish : Finish) :
    σ → List (Field σ) → List (Source Numeral) → Nat → Result σ
  | start, [], [], _ => do
    Source.close finish
    return start
  | _, [], _ :: _, _ => .error (.fault .malformed)
  | start, f :: fields, s :: items, index => do
    let next ← f.read budget s start
    readItems r budget finish next fields items (index + 1)
  | start, f :: fields, [], index => do
    Source.close finish
    if f.isOptional then readItems r budget finish start fields [] (index + 1)
    else .error (.data (.invalidLength index r.name r.fields.length))

/-- Reads a record, starting from one with all defaults. -/
def read (r : Record σ) (start : σ) (budget : Nat) (s : Source Numeral) : Result σ :=
  match s, budget with
  | .array .., 0 | .object .., 0 => .error (.fault .malformed)
  | .array items brackets, budget + 1 =>
    r.readItems budget brackets.finish start r.fields items 0
  | .object fields brackets, budget + 1 => r.readObject budget start fields brackets.finish
  | s, _ => .error (s.mismatch ("struct " ++ r.name))

end Record

/-- The brackets that may be open at once. -/
def nestingBudget : Nat := 127

/-- Reads a whole text. -/
def readText {β : Type} (read : Nat → Source Numeral → Result β)
    (source : Source Numeral × Bool) : Result β := do
  let value ← read nestingBudget source.1
  if source.2 then .error (.fault .malformed) else return value

end FlowTree.Json
