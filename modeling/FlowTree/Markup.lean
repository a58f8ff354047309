import FlowTree.Text.Xml

/-!
# Markup

A document of elements, attributes and text, and how it is written.

* **`Markup.render`** writes it.  Text and the text of attributes are escaped; a value that is given
  word for word is not.
-/

namespace FlowTree

/-- The value of an attribute. -/
inductive AttributeValue where
  /-- Text of any kind; it is escaped. -/
  | text (s : String)
  /-- Written as it is. -/
  | verbatim (s : String)
  deriving DecidableEq, Repr

/-- The value as it stands between its quotes. -/
def AttributeValue.render : AttributeValue → String
  | text s => Xml.escape s
  | verbatim s => s

/-- The attributes of an element in order. -/
abbrev MarkupAttributes := List (String × AttributeValue)

/-- A document or a part of one. -/
inductive Markup where
  | text (s : String)
  /-- An element that cannot have content. -/
  | empty (name : String) (attributes : MarkupAttributes)
  | element (name : String) (attributes : MarkupAttributes) (content : List Markup)

namespace Markup

/-- A tag from its name on, without the bracket that closes it. -/
def openTag (name : String) (attributes : MarkupAttributes) : String :=
  "<" ++ name
    ++ String.join (attributes.map fun a => " " ++ a.1 ++ "=\"" ++ a.2.render ++ "\"")

mutual

/-- The text of a document. -/
def render : Markup → String
  | text s => Xml.escape s
  | empty name attributes => openTag name attributes ++ "/>"
  | element name attributes content =>
    openTag name attributes ++ ">" ++ renderAll content ++ "</" ++ name ++ ">"

/-- The texts of several parts one after the other. -/
def renderAll : List Markup → String
  | [] => ""
  | m :: rest => render m ++ renderAll rest

end

end Markup

end FlowTree
