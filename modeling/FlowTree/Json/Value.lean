import FlowTree.Decimal.Numeral

/-!
# Values of data files

* **`Json`** is a value to be written; the fields of an object keep their order.
* **`Json.compact`** writes it on one line, **`Json.pretty`** with two blanks for each level.
* **`Json.ofFloat`** writes a number so that it reads back as a floating-point number; what is no
  finite number becomes `null`.
-/

namespace FlowTree

/-- A value of a data file. -/
inductive Json where
  | null
  | bool (b : Bool)
  /-- A number by its text. -/
  | number (text : String)
  | text (s : String)
  | array (items : List Json)
  | object (fields : List (String × Json))

namespace Json

/-! ### Leaves -/

/-- A count. -/
def ofNat (n : Nat) : Json := number (toString n)

/-- A floating-point number. -/
def ofFloat (x : Float) : Json :=
  match Decimal.Reading.ofFloat x with
  | .finite b => number (Decimal.Numeral.exchange.render b)
  | _ => null

/-- A value that may be missing. -/
def ofOption {β : Type} (f : β → Json) (x : Option β) : Json := (x.map f).getD null

/-- A list of values. -/
def ofList {β : Type} (f : β → Json) (xs : List β) : Json := array (xs.map f)

/-- A character between quotes. -/
def quoteChar (c : Char) : List Char :=
  match c with
  | '"' => ['\\', '"']
  | '\\' => ['\\', '\\']
  | '\n' => ['\\', 'n']
  | '\r' => ['\\', 'r']
  | '\t' => ['\\', 't']
  | _ =>
    if c.toNat == 8 then ['\\', 'b']
    else if c.toNat == 12 then ['\\', 'f']
    else if c.toNat < 32 then
      let ds := Nat.toDigits 16 c.toNat
      ['\\', 'u'] ++ List.replicate (4 - ds.length) '0' ++ ds
    else [c]

/-- A text between quotes. -/
def quote (s : String) : String := String.ofList ('"' :: s.toList.flatMap quoteChar ++ ['"'])

/-- The bracket that opens an object. -/
def openBrace : String := "\x7b"

/-- The bracket that closes an object. -/
def closeBrace : String := "\x7d"

/-! ### One line -/

mutual

/-- The value on one line. -/
def compact : Json → String
  | null => "null"
  | bool b => if b then "true" else "false"
  | number digits => digits
  | text s => quote s
  | array items => "[" ++ ",".intercalate (compactItems items) ++ "]"
  | object fields => openBrace ++ ",".intercalate (compactFields fields) ++ closeBrace

/-- The items of an array. -/
def compactItems : List Json → List String
  | [] => []
  | j :: rest => compact j :: compactItems rest

/-- The fields of an object. -/
def compactFields : List (String × Json) → List String
  | [] => []
  | (name, j) :: rest => (quote name ++ ":" ++ compact j) :: compactFields rest

end

/-! ### Many lines -/

/-- A line break and the blanks before the next line. -/
def newLine (level : Nat) : String := "\n" ++ "".pushn ' ' (2 * level)

/-- Parts between brackets, each on lines of its own; brackets without parts stay together. -/
def block (opening closing : String) (level : Nat) (parts : List String) : String :=
  if parts.isEmpty then opening ++ closing
  else
    opening ++ newLine (level + 1) ++ ("," ++ newLine (level + 1)).intercalate parts
      ++ newLine level ++ closing

mutual

/-- The value on many lines, the first of which stands at `level`. -/
def prettyAt (level : Nat) : Json → String
  | array items => block "[" "]" level (prettyItems (level + 1) items)
  | object fields => block openBrace closeBrace level (prettyFields (level + 1) fields)
  | j => compact j

/-- The items of an array. -/
def prettyItems (level : Nat) : List Json → List String
  | [] => []
  | j :: rest => prettyAt level j :: prettyItems level rest

/-- The fields of an object. -/
def prettyFields (level : Nat) : List (String × Json) → List String
  | [] => []
  | (name, j) :: rest => (quote name ++ ": " ++ prettyAt level j) :: prettyFields level rest

end

/-- The value on many lines. -/
def pretty (j : Json) : String := prettyAt 0 j

end Json

end FlowTree
