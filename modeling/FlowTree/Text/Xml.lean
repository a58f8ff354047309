/-!
# Text inside markup

**`Xml.escape`** replaces the five characters that have a meaning in markup by their entities, and
keeps all others.
-/

namespace FlowTree.Xml

/-- The entity of a character that has a meaning in markup, or the character itself. -/
def entity : Char → List Char
  | '&' => "&amp;".toList
  | '<' => "&lt;".toList
  | '>' => "&gt;".toList
  | '"' => "&quot;".toList
  | '\'' => "&apos;".toList
  | c => [c]

/-- The text with every character that has a meaning in markup replaced by its entity. -/
def escape (s : String) : String := String.ofList (s.toList.flatMap entity)

end FlowTree.Xml
