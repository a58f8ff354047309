import FlowTree.Json.Lexer
import FlowTree.Unicode.Letter

/-!
# Tokens of JSON5

JSON5 is written like the data files, with more freedom: comments, names without quotes, two kinds
of quotes, commas before closing brackets and more ways to write numbers.

* **`Json5.tokens`** splits a text; **`Json5.source?`** is its value, if it is JSON5 at all.
* A **`Json5.Numeral`** is kept as it is written.
-/

namespace FlowTree.Json5

open Json (Source SourceText Token Piece hexValue? hexValue4? withPiece faulty startsWide)

/-- The signs of a number as they are written. -/
structure Numeral where
  signs : List Char
  deriving DecidableEq, Repr

/-! ### Classes of characters -/

/-- The character ends a line. -/
def isLineEnd (c : Char) : Bool :=
  c == '\n' || c == '\r' || c.toNat == 0x2028 || c.toNat == 0x2029

/-- The code points of blanks other than line ends. -/
def blankCodes : List Nat :=
  [0x09, 0x0B, 0x0C, 0x20, 0xA0, 0xFEFF, 0x1680, 0x2000, 0x2001, 0x2002, 0x2003, 0x2004, 0x2005,
    0x2006, 0x2007, 0x2008, 0x2009, 0x200A, 0x202F, 0x205F, 0x3000]

/-- The character separates tokens and means nothing. -/
def isBlank (c : Char) : Bool := isLineEnd c || blankCodes.contains c.toNat

/-- The character can start a name. -/
def startsName (c : Char) : Bool := c == '$' || c == '_' || Unicode.isLetter c

/-- The character can stand inside a name. -/
def continuesName (c : Char) : Bool :=
  startsName c || Unicode.continuesName c || c.toNat == 0x200C || c.toNat == 0x200D

/-- The character is a hexadecimal digit. -/
def isHexDigit (c : Char) : Bool := (hexValue? c).isSome

/-! ### Comments -/

/-- Takes a comment up to the end of its line. -/
def dropLine (s : List Char) : List Char := s.dropWhile fun c => !isLineEnd c

theorem length_dropLine_le (s : List Char) : (dropLine s).length ≤ s.length :=
  (List.dropWhile_sublist _).length_le

/-- Takes a comment up to its closing signs; `none` if there are none. -/
def dropComment? : List Char → Option (List Char)
  | '*' :: '/' :: rest => some rest
  | _ :: rest => dropComment? rest
  | [] => none

theorem length_le_of_dropComment? {s rest : List Char} (h : dropComment? s = some rest) :
    rest.length ≤ s.length := by
  fun_induction dropComment? s <;> simp_all <;> omega

/-! ### Texts -/

/-- The character that a character after a backslash stands for. -/
def escaped? (c : Char) : Option Char :=
  if c == 'b' then some (Char.ofNat 8)
  else if c == 'f' then some (Char.ofNat 12)
  else if c == 'n' then some '\n'
  else if c == 'r' then some '\r'
  else if c == 't' then some '\t'
  else if c == 'v' then some (Char.ofNat 11)
  else if c == '0' then some (Char.ofNat 0)
  else if c.isDigit then none
  else some c

/-- Takes the text up to the closing `quote`.  A line end after a backslash is left out. -/
def scanText (quote : Char) : List Char → SourceText × List Char
  | [] => faulty .malformed
  | '\\' :: 'u' :: a :: b :: c :: d :: rest =>
    match hexValue4? a b c d with
    | some code => withPiece (.unit code) (scanText quote rest)
    | none => faulty .malformed
  | '\\' :: 'x' :: a :: b :: rest =>
    match hexValue? a, hexValue? b with
    | some a, some b => withPiece (.byte (a * 16 + b)) (scanText quote rest)
    | _, _ => faulty .malformed
  | '\\' :: '\r' :: '\n' :: rest => scanText quote rest
  | ['\\'] => faulty .malformed
  | '\\' :: c :: rest =>
    if c == 'u' || c == 'x' then faulty .malformed
    else if isLineEnd c then scanText quote rest
    else match escaped? c with
      | some e => withPiece (.escaped c e) (scanText quote rest)
      | none => faulty .malformed
  | c :: rest =>
    if c == quote then ({ pieces := [] }, rest)
    else if isLineEnd c then faulty .malformed
    else withPiece (.char c) (scanText quote rest)

theorem length_scanText_le (quote : Char) (s : List Char) :
    (scanText quote s).2.length ≤ s.length := by
  fun_induction scanText quote s <;> simp_all [withPiece, faulty] <;> omega

/-! ### Names -/

/-- Takes the rest of a name. -/
def scanName : List Char → SourceText × List Char
  | '\\' :: 'u' :: a :: b :: c :: d :: rest =>
    match hexValue4? a b c d with
    | some code => withPiece (.unit code) (scanName rest)
    | none => faulty .malformed
  | c :: rest =>
    if continuesName c then withPiece (.char c) (scanName rest)
    else ({ pieces := [] }, c :: rest)
  | [] => ({ pieces := [] }, [])

theorem length_scanName_le (s : List Char) : (scanName s).2.length ≤ s.length := by
  fun_induction scanName s <;> simp_all [withPiece, faulty] <;> omega

/-- Takes a name from the start of a text; `none` if none starts there. -/
def scanName? : List Char → Option (SourceText × List Char)
  | '\\' :: 'u' :: a :: b :: c :: d :: rest =>
    (hexValue4? a b c d).map fun code => withPiece (.unit code) (scanName rest)
  | c :: rest => if startsName c then some (withPiece (.char c) (scanName rest)) else none
  | [] => none

theorem length_le_of_scanName? {c : Char} {rest : List Char} {r : SourceText × List Char}
    (h : scanName? (c :: rest) = some r) : r.2.length ≤ rest.length := by
  unfold scanName? at h
  split at h
  · rename_i tail same
    simp only [Option.map_eq_some_iff] at h
    obtain ⟨code, -, rfl⟩ := h
    have := length_scanName_le tail
    simp only [List.cons.injEq] at same
    rw [same.2]
    simp only [withPiece, List.length_cons]
    omega
  · rename_i first tail _ same
    simp only [List.cons.injEq] at same
    split at h
    · cases h
      rw [same.2]
      exact length_scanName_le tail
    · cases h
  · cases h

/-- The value that a name stands for in place of a value. -/
def valueOfName? (name : SourceText) : Option (Source Numeral) :=
  let is (word : String) : Bool := name == .ofChars word.toList
  if is "null" then some .null
  else if is "true" then some (.bool true)
  else if is "false" then some (.bool false)
  else if is "Infinity" then some (.number ⟨"Infinity".toList⟩)
  else if is "NaN" then some (.number ⟨"NaN".toList⟩)
  else none

/-! ### Numbers -/

/-- The digits at the start. -/
def digits (s : List Char) : List Char := s.takeWhile Char.isDigit

/-- The sign at the start, if there is one. -/
def sign : List Char → List Char
  | '+' :: _ => ['+']
  | '-' :: _ => ['-']
  | _ => []

/-- The exponent at the start, if there is a complete one. -/
def exponent : List Char → List Char
  | [] => []
  | e :: rest =>
    let ds := digits (rest.drop (sign rest).length)
    if (e == 'e' || e == 'E') && !ds.isEmpty then e :: sign rest ++ ds else []

/-- The digits before a point: a zero, or digits that do not start with one. -/
def wholePart : List Char → List Char
  | '0' :: _ => ['0']
  | s => digits s

/-- The point and the digits after it; at least one digit is needed if there is none before. -/
def fractionPart (whole : List Char) : List Char → List Char
  | '.' :: rest => if whole.isEmpty && (digits rest).isEmpty then [] else '.' :: digits rest
  | _ => []

/-- The decimal without a sign at the start; nothing if none starts there. -/
def decimal (s : List Char) : List Char :=
  let whole := wholePart s
  let fraction := fractionPart whole (s.drop whole.length)
  if whole.isEmpty && fraction.isEmpty then []
  else whole ++ fraction ++ exponent (s.drop (whole.length + fraction.length))

/-- The hexadecimal number without a sign at the start; nothing if none starts there. -/
def hexadecimal : List Char → List Char
  | '0' :: x :: rest =>
    let ds := rest.takeWhile isHexDigit
    if (x == 'x' || x == 'X') && !ds.isEmpty then '0' :: x :: ds else []
  | _ => []

/-- The number without a sign at the start; nothing if none starts there. -/
def unsigned (s : List Char) : List Char :=
  if "Infinity".toList.isPrefixOf s then "Infinity".toList
  else if "NaN".toList.isPrefixOf s then "NaN".toList
  else if (hexadecimal s).isEmpty then decimal s
  else hexadecimal s

/-- The number at the start; nothing if none starts there. -/
def numeral (s : List Char) : List Char :=
  let number := unsigned (s.drop (sign s).length)
  if number.isEmpty then [] else sign s ++ number

/-! ### All tokens -/

/-- A token without parts of its own, before `rest`. -/
def punctuation? (rest : List Char) : Char → Option (Token Numeral)
  | '[' => some (.openArray (startsWide rest))
  | ']' => some .closeArray
  | ',' => some .comma
  | ':' => some .colon
  | c =>
    if c.toNat == 123 then some (.openObject (startsWide rest))
    else if c.toNat == 125 then some .closeObject
    else none

/-- Takes a comment after its first slash; `none` if it is none or has no end. -/
def afterComment? : List Char → Option (List Char)
  | '/' :: rest => some (dropLine rest)
  | '*' :: rest => dropComment? rest
  | _ => none

theorem length_le_of_afterComment? {s rest : List Char} (h : afterComment? s = some rest) :
    rest.length ≤ s.length := by
  unfold afterComment? at h
  split at h
  · rename_i tail
    cases h
    have := length_dropLine_le tail
    simp only [List.length_cons]
    omega
  · have := length_le_of_dropComment? h
    simp only [List.length_cons]
    omega
  · cases h

/-- The tokens of a text. -/
def tokens : List Char → List (Token Numeral)
  | [] => []
  | c :: rest =>
    if isBlank c then tokens rest
    else if c == '/' then
      match h : afterComment? rest with
      | some after =>
        have := length_le_of_afterComment? h
        tokens after
      | none => [.fault .malformed]
    else if let some t := punctuation? rest c then t :: tokens rest
    else if c == '"' || c == '\'' then
      have := length_scanText_le c rest
      let text := { (scanText c rest).1 with wideStart := startsWide rest }
      .atom (some (.text text)) (some text) :: tokens (scanText c rest).2
    else
      match h : scanName? (c :: rest) with
      | some name =>
        have := length_le_of_scanName? h
        .atom (valueOfName? name.1) (some name.1) :: tokens name.2
      | none =>
        let signs := numeral (c :: rest)
        if signs.isEmpty then [.fault .malformed]
        else .atom (some (.number ⟨signs⟩)) none :: tokens (rest.drop (signs.length - 1))
termination_by s => s.length

/-- The value of a text, if the text is JSON5. -/
def source? (s : String) : Option (Source Numeral) :=
  let (value, trailing) := Source.ofTokens true (tokens s.toList)
  if trailing || (value.fault? fun _ => none).isSome then none else some value

end FlowTree.Json5
