import FlowTree.Json.Nesting
import FlowTree.Json.Number

/-!
# Tokens of data files

**`Json.tokens`** splits a text into brackets, separators, words, numerals and quoted texts.  After
something that cannot be read nothing follows.

**`Json.scanText`** takes a quoted text; its escapes are checked only as far as everybody must.
-/

namespace FlowTree.Json

/-- The value of a hexadecimal digit. -/
def hexValue? (c : Char) : Option Nat :=
  if '0' ≤ c && c ≤ '9' then some (c.toNat - '0'.toNat)
  else if 'a' ≤ c && c ≤ 'f' then some (c.toNat - 'a'.toNat + 10)
  else if 'A' ≤ c && c ≤ 'F' then some (c.toNat - 'A'.toNat + 10)
  else none

/-- The value of four hexadecimal digits. -/
def hexValue4? (a b c d : Char) : Option Nat := do
  let a ← hexValue? a
  let b ← hexValue? b
  let c ← hexValue? c
  let d ← hexValue? d
  return ((a * 16 + b) * 16 + c) * 16 + d

/-- The character that a letter after a backslash stands for. -/
def escaped? : Char → Option Char
  | '"' => some '"'
  | '\\' => some '\\'
  | '/' => some '/'
  | 'b' => some (Char.ofNat 8)
  | 'f' => some (Char.ofNat 12)
  | 'n' => some '\n'
  | 'r' => some '\r'
  | 't' => some '\t'
  | _ => none

/-- The size of a text in bytes. -/
def byteCount (s : List Char) : Nat := s.foldl (fun n c => n + c.utf8Size) 0

/-- Puts a piece before a scanned text. -/
def withPiece (p : Piece) (r : SourceText × List Char) : SourceText × List Char :=
  ({ r.1 with pieces := p :: r.1.pieces }, r.2)

/-- A text that ends in a fault. -/
def faulty (f : Fault) : SourceText × List Char := ({ pieces := [], fault := some f }, [])

/-- Takes the text up to the closing quote.  A code of four digits for which the rest is too short
is cut off, even if what there is of it is wrong. -/
def scanText : List Char → SourceText × List Char
  | [] => faulty .cutOff
  | '"' :: rest => ({ pieces := [] }, rest)
  | '\\' :: 'u' :: a :: b :: c :: d :: rest =>
    match hexValue4? a b c d with
    | some code => withPiece (.unit code) (scanText rest)
    | none => faulty .malformed
  | '\\' :: 'u' :: rest => faulty (if byteCount rest < 4 then .cutOff else .malformed)
  | ['\\'] => faulty .cutOff
  | '\\' :: c :: rest =>
    match escaped? c with
    | some e => withPiece (.escaped c e) (scanText rest)
    | none => faulty .malformed
  | c :: rest => if c.toNat < 32 then faulty .malformed else withPiece (.char c) (scanText rest)

theorem length_scanText_le (s : List Char) : (scanText s).2.length ≤ s.length := by
  fun_induction scanText s <;> simp_all [withPiece, faulty] <;> omega

/-- Takes the rest of a word of which the first letter has been read; `none` if it is another word,
with the fault that makes it one. -/
def scanWord : (word s : List Char) → Except Fault (List Char)
  | [], s => .ok s
  | _ :: _, [] => .error .cutOff
  | w :: word, c :: s => if w == c then scanWord word s else .error .malformed

theorem length_le_of_scanWord {word s rest : List Char} (h : scanWord word s = .ok rest) :
    rest.length ≤ s.length := by
  fun_induction scanWord word s <;> simp_all
  omega

/-- A token without parts of its own. -/
def punctuation? : Char → Option (Token Numeral)
  | '[' => some (.openArray false)
  | ']' => some .closeArray
  | ',' => some .comma
  | ':' => some .colon
  | c =>
    if c.toNat == 123 then some (.openObject false)
    else if c.toNat == 125 then some .closeObject
    else none

/-- The character separates tokens and means nothing. -/
def isBlank (c : Char) : Bool := c == ' ' || c == '\n' || c == '\t' || c == '\r'

/-- The words that are values, by their first letter. -/
def word? : Char → Option (List Char × Source Numeral)
  | 'n' => some (['u', 'l', 'l'], .null)
  | 't' => some (['r', 'u', 'e'], .bool true)
  | 'f' => some (['a', 'l', 's', 'e'], .bool false)
  | _ => none

/-- The tokens of a text. -/
def tokens : List Char → List (Token Numeral)
  | [] => []
  | c :: rest =>
    if isBlank c then tokens rest
    else if let some t := punctuation? c then t :: tokens rest
    else if c == '"' then
      have := length_scanText_le rest
      .atom (some (.text (scanText rest).1)) (some (scanText rest).1) :: tokens (scanText rest).2
    else if c == '-' then
      have := Numeral.length_scan_le true rest
      .atom (some (.number (Numeral.scan true rest).1)) none :: tokens (Numeral.scan true rest).2
    else if digit : c.isDigit then
      have := Numeral.length_scan_cons_le false rest digit
      .atom (some (.number (Numeral.scan false (c :: rest)).1)) none
        :: tokens (Numeral.scan false (c :: rest)).2
    else if let some (word, value) := word? c then
      match h : scanWord word rest with
      | .ok after =>
        have := length_le_of_scanWord h
        .atom (some value) none :: tokens after
      | .error f => [.fault f]
    else [.fault .malformed]
termination_by s => s.length

/-- The value of a text, and whether something follows it. -/
def source (s : String) : Source Numeral × Bool :=
  Source.ofTokens false (tokens s.toList)

end FlowTree.Json
