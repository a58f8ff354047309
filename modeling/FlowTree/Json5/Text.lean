import FlowTree.Json.Lexer

/-!
# Texts of JSON5

A character beyond 16 bits may be given by two codes, one for each half.  JSON5 looks at the second
half by its signs alone: whatever follows the first half is taken for a hexadecimal number, and the
halves are laid over each other bit by bit.

* **`Json5.readPieces`** gives the characters of a text.
* **`Json5.TextError`** tells why a text has no meaning.
-/

namespace FlowTree.Json5

open Json (Piece hexValue? isLeading isTrailing)

/-- Why a text has no meaning. -/
inductive TextError where
  /-- A second half stands alone. -/
  | strayTrail
  /-- The text ends after a first half. -/
  | missingTrail
  /-- What follows a first half is a number, but no second half. -/
  | wrongTrail
  /-- What follows a first half is no number. -/
  | noNumber
  deriving DecidableEq, Repr

/-- The reason in words. -/
def TextError.message : TextError → String
  | strayTrail => "unexpected unicode trail surrogate"
  | missingTrail => "missing unicode trail surrogate"
  | wrongTrail => "expecting unicode trail surrogate"
  | noNumber => "error parsing hex"

/-- The number that the signs of a piece spell, without the backslash and the letter of a code. -/
def spelledNumber? : Piece → Option Nat
  | .char c | .escaped c _ => hexValue? c
  | .byte code | .unit code => some code

/-- The character of two halves.  The bit that marks a character beyond 16 bits is set, whether or
not the first half has set it already. -/
def joinHalves (leading trailing : Nat) : Char :=
  Char.ofNat (((leading - 0xD800) <<< 10) ||| (trailing - 0xDC00) ||| 0x10000)

/-- The characters of a list of pieces. -/
def readPieces : List Piece → Except TextError (List Char)
  | [] => .ok []
  | .char c :: rest | .escaped _ c :: rest => (readPieces rest).map (c :: ·)
  | .byte code :: rest => (readPieces rest).map (Char.ofNat code :: ·)
  | .unit code :: rest =>
    if isTrailing code then .error .strayTrail
    else if isLeading code then
      match rest with
      | [] => .error .missingTrail
      | next :: rest =>
        match spelledNumber? next with
        | none => .error .noNumber
        | some trailing =>
          if isTrailing trailing then (readPieces rest).map (joinHalves code trailing :: ·)
          else .error .wrongTrail
    else (readPieces rest).map (Char.ofNat code :: ·)

end FlowTree.Json5
