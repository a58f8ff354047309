import FlowTree.Unicode.Unprintable

/-!
# Quoted text in messages

**`Quoted.quote`** writes a text between double quotes so that each of its characters can be told:
quotes and backslashes get a backslash, common control characters their letter, and everything else
that cannot be shown alone its code point.
-/

namespace FlowTree.Quoted

/-- A character as it is written between quotes. -/
def quoteChar (c : Char) : List Char :=
  if c == '"' || c == '\\' then ['\\', c]
  else if c == '\n' then ['\\', 'n']
  else if c == '\r' then ['\\', 'r']
  else if c == '\t' then ['\\', 't']
  else if c.toNat == 0 then ['\\', '0']
  else if Unicode.isUnprintable c then
    ['\\', 'u', Char.ofNat 123] ++ Nat.toDigits 16 c.toNat ++ [Char.ofNat 125]
  else [c]

/-- The text between double quotes. -/
def quote (s : String) : String :=
  String.ofList ('"' :: s.toList.flatMap quoteChar ++ ['"'])

end FlowTree.Quoted
