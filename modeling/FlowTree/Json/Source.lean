/-!
# Values as they stand in a text

A text of data is read in two steps.  The first one finds the values and how they nest, and keeps
everything up to the place where the text breaks.  The second one takes the values apart in reading
order, so that of two faults the one that stands first in the text is met first.

* **`Source`** is a value, maybe broken off.
* **`SourceText.read`** joins the pieces of a text; **`Source.fault?`** finds the first fault of a
  value that nobody wants to know.
-/

namespace FlowTree.Json

/-- What is wrong with a text of data. -/
inductive Fault where
  /-- The text does not follow the rules. -/
  | malformed
  /-- The text ends too early. -/
  | cutOff
  deriving DecidableEq, Repr

/-- A piece of a text between quotes, by the way it is written. -/
inductive Piece where
  | char (c : Char)
  /-- A character that a letter after a backslash stands for. -/
  | escaped (letter c : Char)
  /-- A character given by its 8-bit code. -/
  | byte (code : Nat)
  /-- Half a character or a whole one, given by its 16-bit code. -/
  | unit (code : Nat)
  deriving DecidableEq, Repr

/-- The first character takes more than one byte. -/
def startsWide (s : List Char) : Bool := s.head?.any fun c => 1 < c.utf8Size

/-- A text between quotes, piece by piece, up to its end or its first fault. -/
structure SourceText where
  pieces : List Piece
  fault : Option Fault := none
  /-- A character of more than one byte follows the first quote; noted only where it matters. -/
  wideStart : Bool := false
  deriving DecidableEq, Repr

/-- A code that starts a pair. -/
def isLeading (code : Nat) : Bool := 0xD800 ≤ code && code ≤ 0xDBFF

/-- A code that ends a pair. -/
def isTrailing (code : Nat) : Bool := 0xDC00 ≤ code && code ≤ 0xDFFF

/-- The character of a pair of codes. -/
def joinPair (leading trailing : Nat) : Char :=
  Char.ofNat ((leading - 0xD800) * 0x400 + (trailing - 0xDC00) + 0x10000)

namespace SourceText

/-- The text of one word. -/
def ofChars (cs : List Char) : SourceText := ⟨cs.map .char, none, false⟩

/-- The characters of a list of pieces that ends in `fault`. -/
def join (fault : Option Fault) : List Piece → Except Fault (List Char)
  | [] => match fault with
    | none => .ok []
    | some f => .error f
  | .char c :: rest | .escaped _ c :: rest => (join fault rest).map (c :: ·)
  | .byte code :: rest => (join fault rest).map (Char.ofNat code :: ·)
  | .unit code :: rest =>
    if isTrailing code then .error .malformed
    else if isLeading code then
      match rest with
      | .unit next :: rest =>
        if isTrailing next then (join fault rest).map (joinPair code next :: ·)
        else .error .malformed
      | _ :: _ => .error .malformed
      | [] => .error (fault.getD .malformed)
    else (join fault rest).map (Char.ofNat code :: ·)

/-- The text, unless it has a fault or half a pair. -/
def read (t : SourceText) : Except Fault String := (join t.fault t.pieces).map String.ofList

end SourceText

/-- How a list of items or fields ends. -/
inductive Finish where
  | closed
  | broken (fault : Fault)
  deriving DecidableEq, Repr

/-- The brackets around a list of items or fields. -/
structure Brackets where
  /-- A character of more than one byte follows the first bracket; noted only where it matters. -/
  wideStart : Bool := false
  finish : Finish
  deriving DecidableEq, Repr

/-- A value as it stands in a text; numerals are of type `ν`. -/
inductive Source (ν : Type) where
  | null
  | bool (b : Bool)
  | number (n : ν)
  | text (t : SourceText)
  | array (items : List (Source ν)) (brackets : Brackets)
  | object (fields : List (SourceText × Source ν)) (brackets : Brackets)
  /-- A word or a sign that is no value, or a word that is cut off. -/
  | brokenWord (fault : Fault)
  /-- There is no value where one is expected. -/
  | broken (fault : Fault)

namespace Source

variable {ν : Type}

mutual

/-- The first fault in a value, whatever it means; `numeral` tells the fault of a numeral. -/
def fault? (numeral : ν → Option Fault) : Source ν → Option Fault
  | null => none
  | bool _ => none
  | number n => numeral n
  | text t => t.fault
  | array items brackets => faultOfItems? numeral brackets.finish items
  | object fields brackets => faultOfFields? numeral brackets.finish fields
  | brokenWord f => some f
  | broken f => some f

/-- The first fault in the items of an array. -/
def faultOfItems? (numeral : ν → Option Fault) (finish : Finish) :
    List (Source ν) → Option Fault
  | [] => match finish with
    | .closed => none
    | .broken f => some f
  | s :: rest => (fault? numeral s).or (faultOfItems? numeral finish rest)

/-- The first fault in the fields of an object. -/
def faultOfFields? (numeral : ν → Option Fault) (finish : Finish) :
    List (SourceText × Source ν) → Option Fault
  | [] => match finish with
    | .closed => none
    | .broken f => some f
  | (name, s) :: rest =>
    (name.fault.or (fault? numeral s)).or (faultOfFields? numeral finish rest)

end

end Source

end FlowTree.Json
