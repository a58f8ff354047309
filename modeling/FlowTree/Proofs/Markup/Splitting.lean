import FlowTree.Markup
import FlowTree.Proofs.Markup.Entities

/-!
# Documents split into pieces

A reader that knows nothing of what is drawn splits a document into tags, the values of their attributes and
the texts between tags, and puts characters in the place of entities.  It reads one character after the
other and refuses what is no document: a character that cannot stand in a name, a value that is not quoted
or has a bracket in it, an ampersand without an entity, a tag without an end.

* **`Piece.split?`** is the reader; **`Splitter.step?`** is what it does with one character.
* **`Splitter.run_reading`** is what it does with characters that it only takes in.
* **`Markup.Formed`** are the parts of documents whose names are names and whose attributes are as they should be:
  **`Markup.Clean`** if all values are escaped or need no escape, **`Markup.Legible`** if a reader can read them.
  **`Markup.pieces`** are the pieces that it should find.
* **`Splitter.run_render`** says that the reader goes through what is written for a part and finds its pieces,
  **`Piece.split?_of_legible`** and **`Piece.split?_render`** say so of a document.
-/

namespace FlowTree

/-- A piece of a document: the tag that begins or ends an element, the tag of an element without content, or
the text between two tags. -/
inductive Piece where
  | opening (name : String) (attributes : List (String × String))
  | closing (name : String)
  | empty (name : String) (attributes : List (String × String))
  | text (s : String)
  deriving DecidableEq, Repr

namespace Piece

/-- The attributes in a tag; a tag that ends an element has none. -/
def attributes : Piece → List (String × String)
  | opening _ attributes => attributes
  | empty _ attributes => attributes
  | closing _ => []
  | text _ => []

/-- The values of the attributes with one of the given names. -/
def values (keys : List String) (p : Piece) : List String :=
  (p.attributes.filter fun a => keys.contains a.1).map (·.2)

end Piece

namespace Splitter

/-! ### The reader -/

/-- Where the reader stands, with what it has read of a piece so far. -/
inductive Mode where
  /-- Outside of tags. -/
  | text (read : List Char)
  /-- After the bracket that opens a tag. -/
  | bracket
  | closing (name : List Char)
  | opening (name : List Char)
  /-- After the name of a tag, or after a value. -/
  | inside (name : List Char) (attributes : List (String × String))
  | key (name : List Char) (attributes : List (String × String)) (read : List Char)
  /-- Between a key and its value. -/
  | equals (name : List Char) (attributes : List (String × String)) (key : List Char)
  | value (name : List Char) (attributes : List (String × String)) (key read : List Char)
  /-- After the slash at the end of a tag. -/
  | slash (name : List Char) (attributes : List (String × String))

/-- The pieces that have been read, and where the reader stands. -/
structure State where
  pieces : List Piece
  mode : Mode

/-- A character that can stand in the name of a tag or an attribute. -/
def isNameChar (c : Char) : Bool := c.isAlphanum || c == '-' || c == ':'

/-- The piece of what has been read outside of tags; none if nothing has. -/
def text? (read : List Char) : Option (List Piece) :=
  if read.isEmpty then some [] else (Xml.unescape read).map fun s => [.text (String.ofList s)]

/-- What a character does after a name or a value in a tag. -/
def goOn? (pieces : List Piece) (name : List Char) (attributes : List (String × String)) (c : Char) :
    Option State :=
  if c = ' ' then some ⟨pieces, .key name attributes []⟩
  else if c = '/' then some ⟨pieces, .slash name attributes⟩
  else if c = '>' then some ⟨pieces ++ [.opening (String.ofList name) attributes], .text []⟩
  else none

/-- What a character does; nothing if it cannot stand there. -/
def step? (s : State) (c : Char) : Option State :=
  match s.mode with
  | .text read =>
    if c = '<' then (text? read).map fun t => ⟨s.pieces ++ t, .bracket⟩
    else some ⟨s.pieces, .text (read ++ [c])⟩
  | .bracket =>
    if c = '/' then some ⟨s.pieces, .closing []⟩
    else if isNameChar c then some ⟨s.pieces, .opening [c]⟩
    else none
  | .closing name =>
    if isNameChar c then some ⟨s.pieces, .closing (name ++ [c])⟩
    else if c = '>' then some ⟨s.pieces ++ [.closing (String.ofList name)], .text []⟩
    else none
  | .opening name =>
    if isNameChar c then some ⟨s.pieces, .opening (name ++ [c])⟩ else goOn? s.pieces name [] c
  | .inside name attributes => goOn? s.pieces name attributes c
  | .key name attributes read =>
    if isNameChar c then some ⟨s.pieces, .key name attributes (read ++ [c])⟩
    else if c = '=' then some ⟨s.pieces, .equals name attributes read⟩
    else none
  | .equals name attributes key =>
    if c = '"' then some ⟨s.pieces, .value name attributes key []⟩ else none
  | .value name attributes key read =>
    if c = '"' then
      (Xml.unescape read).map fun v =>
        ⟨s.pieces, .inside name (attributes ++ [(String.ofList key, String.ofList v)])⟩
    else if c = '<' then none
    else some ⟨s.pieces, .value name attributes key (read ++ [c])⟩
  | .slash name attributes =>
    if c = '>' then some ⟨s.pieces ++ [.empty (String.ofList name) attributes], .text []⟩ else none

/-- The reader after some characters. -/
def run? (s : State) (cs : List Char) : Option State := cs.foldlM step? s

/-- All pieces at the end of a document, which is outside of tags. -/
def finish? (s : State) : Option (List Piece) :=
  match s.mode with
  | .text read => (text? read).map (s.pieces ++ ·)
  | _ => none

end Splitter

/-- The pieces of a document. -/
def Piece.split? (document : String) : Option (List Piece) :=
  (Splitter.run? ⟨[], .text []⟩ document.toList).bind Splitter.finish?

/-! ### What a reader should find -/

/-- The value without escapes. -/
def AttributeValue.content : AttributeValue → String
  | text s => s
  | verbatim s => s

/-- The attributes with their values without escapes. -/
def MarkupAttributes.content (attributes : MarkupAttributes) : List (String × String) :=
  attributes.map fun a => (a.1, a.2.content)

/-- The characters of attributes in a tag. -/
def MarkupAttributes.chars (attributes : MarkupAttributes) : List Char :=
  attributes.flatMap fun a => ' ' :: (a.1.toList ++ '=' :: '"' :: (a.2.render.toList ++ ['"']))

/-- The piece of a text; none if it is empty. -/
def Piece.words (s : String) : List Piece := if s.isEmpty then [] else [.text s]

namespace Markup

mutual

/-- The pieces of a part of a document. -/
def pieces : Markup → List Piece
  | text s => Piece.words s
  | empty name attributes => [.empty name attributes.content]
  | element name attributes content =>
    .opening name attributes.content :: piecesAll content ++ [.closing name]

/-- The pieces of several parts one after the other. -/
def piecesAll : List Markup → List Piece
  | [] => []
  | m :: rest => pieces m ++ piecesAll rest

end

/-- The text can stand as a name. -/
def IsName (s : String) : Prop := s.toList ≠ [] ∧ ∀ c ∈ s.toList, Splitter.isNameChar c = true

instance (s : String) : Decidable (IsName s) :=
  have : Decidable (∀ c ∈ s.toList, Splitter.isNameChar c = true) := List.decidableBAll _ s.toList
  inferInstanceAs (Decidable (_ ∧ _))

end Markup

/-- The value is escaped, or need not be. -/
def AttributeValue.Clean : AttributeValue → Prop
  | text _ => True
  | verbatim s => Xml.Plain s

instance (v : AttributeValue) : Decidable v.Clean :=
  match v with
  | .text _ => isTrue trivial
  | .verbatim s => inferInstanceAs (Decidable (Xml.Plain s))

/-- The attributes have names, and each is as it should be. -/
def MarkupAttributes.Formed (P : String × AttributeValue → Prop) (attributes : MarkupAttributes) : Prop :=
  ∀ a ∈ attributes, Markup.IsName a.1 ∧ P a

namespace MarkupAttributes

variable {P Q : String × AttributeValue → Prop} {attributes added : MarkupAttributes}

@[simp] theorem formed_nil : Formed P [] := List.forall_mem_nil _

theorem formed_cons_iff {key : String} {v : AttributeValue} (hkey : Markup.IsName key) :
    Formed P ((key, v) :: attributes) ↔ P (key, v) ∧ attributes.Formed P := by
  rw [Formed, List.forall_mem_cons, and_iff_right hkey]
  rfl

theorem formed_append_iff : Formed P (attributes ++ added) ↔ attributes.Formed P ∧ added.Formed P :=
  List.forall_mem_append

theorem Formed.mono (h : attributes.Formed P) (hPQ : ∀ a, P a → Q a) : attributes.Formed Q :=
  fun a ha => ⟨(h a ha).1, hPQ a (h a ha).2⟩

/-- The attributes have names, and their values are escaped or need not be. -/
def Clean (attributes : MarkupAttributes) : Prop := attributes.Formed fun a => a.2.Clean

namespace Clean

instance : Decidable attributes.Clean :=
  List.decidableBAll (fun a : String × AttributeValue => Markup.IsName a.1 ∧ a.2.Clean) attributes

theorem nil : Clean [] := formed_nil

theorem cons {key : String} {v : AttributeValue} (hkey : Markup.IsName key) (hv : v.Clean)
    (h : attributes.Clean) : Clean ((key, v) :: attributes) :=
  (formed_cons_iff hkey).mpr ⟨hv, h⟩

end Clean

end MarkupAttributes

namespace Markup

/-- The part of a document has names, and each attribute is as it should be; no two texts stand beside each other,
for no reader could tell them apart. -/
inductive Formed (P : String × AttributeValue → Prop) : Markup → Prop
  | empty {name : String} {attributes : MarkupAttributes} (hname : IsName name)
      (hattributes : attributes.Formed P) : Formed P (.empty name attributes)
  | leaf {name : String} {attributes : MarkupAttributes} (s : String) (hname : IsName name)
      (hattributes : attributes.Formed P) : Formed P (.element name attributes [.text s])
  | branch {name : String} {attributes : MarkupAttributes} {content : List Markup} (hname : IsName name)
      (hattributes : attributes.Formed P) (hcontent : ∀ m ∈ content, Formed P m) :
      Formed P (.element name attributes content)

variable {P Q : String × AttributeValue → Prop}

theorem formed_empty_iff {name : String} {attributes : MarkupAttributes} (hname : IsName name) :
    (empty name attributes).Formed P ↔ attributes.Formed P := by
  refine ⟨fun h => ?_, .empty hname⟩
  cases h with
  | empty _ hattributes => exact hattributes

theorem formed_leaf_iff {name : String} {attributes : MarkupAttributes} {s : String} (hname : IsName name) :
    (element name attributes [text s]).Formed P ↔ attributes.Formed P := by
  refine ⟨fun h => ?_, .leaf s hname⟩
  cases h with
  | leaf _ _ hattributes => exact hattributes
  | branch _ hattributes _ => exact hattributes

/-- An element whose content is not a single text. -/
theorem formed_element_iff {name : String} {attributes : MarkupAttributes} {content : List Markup}
    (hname : IsName name) (hcontent : ∀ s, content ≠ [text s]) :
    (element name attributes content).Formed P ↔ attributes.Formed P ∧ ∀ m ∈ content, m.Formed P := by
  refine ⟨fun h => ?_, fun h => .branch hname h.1 h.2⟩
  cases h with
  | leaf s _ _ => exact absurd rfl (hcontent s)
  | branch _ hattributes hparts => exact ⟨hattributes, hparts⟩

theorem Formed.mono {m : Markup} (h : m.Formed P) (hPQ : ∀ a, P a → Q a) : m.Formed Q := by
  induction h with
  | empty hname hattributes => exact .empty hname (hattributes.mono hPQ)
  | leaf s hname hattributes => exact .leaf s hname (hattributes.mono hPQ)
  | branch hname hattributes _ ih => exact .branch hname (hattributes.mono hPQ) ih

/-- All values are escaped, or need not be. -/
def Clean (m : Markup) : Prop := m.Formed fun a => a.2.Clean

end Markup

/-- A reader that goes on to the next quotation mark finds the value. -/
structure AttributeValue.Legible (v : AttributeValue) : Prop where
  unescape : Xml.unescape v.render.toList = some v.content.toList
  ne_of_mem : ∀ c ∈ v.render.toList, c ≠ '"' ∧ c ≠ '<'

theorem AttributeValue.Clean.legible {v : AttributeValue} (h : v.Clean) : v.Legible := by
  cases v with
  | text s => exact ⟨Xml.unescape_escape s, fun _ => Xml.ne_of_mem_escape⟩
  | verbatim s => exact ⟨Xml.Plain.unescape h, fun _ => Xml.Plain.ne_of_mem h⟩

/-- What is given word for word can be read if it can stand between quotation marks as it is. -/
theorem AttributeValue.legible_verbatim_iff {s : String} :
    (AttributeValue.verbatim s).Legible ↔ Xml.Quotable s := by
  constructor
  · rintro ⟨hunescape, hne⟩ c hc
    exact ⟨(hne c hc).1, (hne c hc).2, Xml.unescape_eq_self_iff.mp hunescape c hc⟩
  · intro h
    exact ⟨Xml.unescape_of_ne fun c hc => (h c hc).2.2, fun c hc => ⟨(h c hc).1, (h c hc).2.1⟩⟩

/-- All values can be read. -/
def Markup.Legible (m : Markup) : Prop := m.Formed fun a => a.2.Legible

theorem Markup.Clean.legible {m : Markup} (h : m.Clean) : m.Legible := h.mono fun _ ha => ha.legible

/-! ### The reader goes through what is written -/

namespace Splitter

open Markup

theorem run_cons (s : State) (c : Char) (cs : List Char) :
    run? s (c :: cs) = (step? s c).bind (run? · cs) :=
  List.foldlM_cons

theorem run_append (s : State) (xs ys : List Char) : run? s (xs ++ ys) = (run? s xs).bind (run? · ys) :=
  List.foldlM_append

/-- **What is only taken in.** If each of some characters is added to what has been read, all of them are. -/
theorem run_reading {mode : List Char → Mode} {p : Char → Prop}
    (hstep : ∀ pieces read c, p c → step? ⟨pieces, mode read⟩ c = some ⟨pieces, mode (read ++ [c])⟩)
    {cs : List Char} (hcs : ∀ c ∈ cs, p c) (pieces : List Piece) (read : List Char) :
    run? ⟨pieces, mode read⟩ cs = some ⟨pieces, mode (read ++ cs)⟩ := by
  induction cs generalizing read with
  | nil => rw [List.append_nil]; rfl
  | cons c cs ih =>
    rw [run_cons, hstep pieces read c (hcs c List.mem_cons_self), Option.bind_some,
      ih fun d hd => hcs d (List.mem_cons_of_mem c hd), List.append_assoc]
    rfl

variable (pieces : List Piece) (name : List Char) (attributes : List (String × String))

theorem run_opening {cs : List Char} (h : ∀ c ∈ cs, isNameChar c = true) (read : List Char) :
    run? ⟨pieces, .opening read⟩ cs = some ⟨pieces, .opening (read ++ cs)⟩ :=
  run_reading (fun _ _ _ hc => by simp [step?, hc]) h pieces read

theorem run_closing {cs : List Char} (h : ∀ c ∈ cs, isNameChar c = true) (read : List Char) :
    run? ⟨pieces, .closing read⟩ cs = some ⟨pieces, .closing (read ++ cs)⟩ :=
  run_reading (fun _ _ _ hc => by simp [step?, hc]) h pieces read

theorem run_key {cs : List Char} (h : ∀ c ∈ cs, isNameChar c = true) (read : List Char) :
    run? ⟨pieces, .key name attributes read⟩ cs = some ⟨pieces, .key name attributes (read ++ cs)⟩ :=
  run_reading (fun _ _ _ hc => by simp [step?, hc]) h pieces read

theorem run_value {cs : List Char} (h : ∀ c ∈ cs, c ≠ '"' ∧ c ≠ '<') (key read : List Char) :
    run? ⟨pieces, .value name attributes key read⟩ cs =
      some ⟨pieces, .value name attributes key (read ++ cs)⟩ :=
  run_reading (fun _ _ _ hc => by simp [step?, hc.1, hc.2]) h pieces read

theorem run_text {cs : List Char} (h : ∀ c ∈ cs, c ≠ '"' ∧ c ≠ '<') (read : List Char) :
    run? ⟨pieces, .text read⟩ cs = some ⟨pieces, .text (read ++ cs)⟩ :=
  run_reading (fun _ _ _ hc => by simp [step?, hc.2]) h pieces read

/-! ### Tags -/

theorem toList_openTag (tag : String) (added : MarkupAttributes) :
    (openTag tag added).toList = '<' :: (tag.toList ++ added.chars) := by
  rw [openTag, String.toList_append, String.toList_append, String.toList_join, MarkupAttributes.chars,
    List.flatMap_map]
  simp

/-- After its key and the sign between them, a value is read. -/
theorem run_attribute {key : String} (hkey : IsName key) (v : AttributeValue) (added : MarkupAttributes)
    (rest : List Char) :
    run? ⟨pieces, .inside name attributes⟩ (MarkupAttributes.chars ((key, v) :: added) ++ rest) =
      run? ⟨pieces, .value name attributes key.toList []⟩
        (v.render.toList ++ '"' :: (added.chars ++ rest)) := by
  have htext : MarkupAttributes.chars ((key, v) :: added) ++ rest =
      ' ' :: (key.toList ++ '=' :: '"' :: (v.render.toList ++ '"' :: (added.chars ++ rest))) := by
    simp [MarkupAttributes.chars]
  rw [htext, run_cons]
  show run? ⟨pieces, .key name attributes []⟩ _ = _
  rw [run_append, run_key _ _ _ hkey.2, Option.bind_some, List.nil_append, run_cons]
  show run? ⟨pieces, .equals name attributes key.toList⟩ _ = _
  rw [run_cons]
  rfl

theorem run_legible {v : AttributeValue} (hv : v.Legible) (key : String) (rest : List Char) :
    run? ⟨pieces, .value name attributes key.toList []⟩ (v.render.toList ++ '"' :: rest) =
      run? ⟨pieces, .inside name (attributes ++ [(key, v.content)])⟩ rest := by
  rw [run_append, run_value _ _ _ hv.ne_of_mem, Option.bind_some, List.nil_append, run_cons]
  show ((Xml.unescape v.render.toList).map _).bind _ = _
  rw [hv.unescape]
  simp only [Option.map_some, Option.bind_some, String.ofList_toList]

theorem run_attributes {added : MarkupAttributes} (h : added.Formed fun a => a.2.Legible) (rest : List Char) :
    run? ⟨pieces, .inside name attributes⟩ (added.chars ++ rest) =
      run? ⟨pieces, .inside name (attributes ++ added.content)⟩ rest := by
  induction added generalizing attributes with
  | nil => rw [show MarkupAttributes.content [] = [] from rfl, List.append_nil]; rfl
  | cons a added ih =>
    obtain ⟨⟨hkey, hvalue⟩, hadded⟩ := List.forall_mem_cons.mp h
    rw [run_attribute _ _ _ hkey, run_legible _ _ _ hvalue, ih _ hadded, List.append_assoc]
    rfl

/-- After the name of a tag, what is no part of the name is read as after a value. -/
theorem run_opening_eq {c : Char} (hc : isNameChar c = false) (rest : List Char) :
    run? ⟨pieces, .opening name⟩ (c :: rest) = run? ⟨pieces, .inside name []⟩ (c :: rest) := by
  rw [run_cons, run_cons]
  simp only [step?, hc, Bool.false_eq_true, if_false]

/-- After the name of a tag, its attributes are read. -/
theorem run_tagName {tag : String} (htag : IsName tag) (added : MarkupAttributes) {c : Char}
    (hc : isNameChar c = false) (rest : List Char) :
    run? ⟨pieces, .text []⟩ ((openTag tag added).toList ++ c :: rest) =
      run? ⟨pieces, .inside tag.toList []⟩ (added.chars ++ c :: rest) := by
  obtain ⟨hsome, hchars⟩ := htag
  obtain ⟨t, ts, htag⟩ := List.exists_cons_of_ne_nil hsome
  rw [htag, List.forall_mem_cons] at hchars
  have hslash : t ≠ '/' := by
    rintro rfl
    exact absurd hchars.1 (by decide)
  rw [toList_openTag, htag]
  show run? ⟨pieces, .text []⟩ ('<' :: t :: ((ts ++ added.chars) ++ c :: rest)) = _
  rw [run_cons]
  show run? ⟨pieces ++ [], .bracket⟩ _ = _
  rw [List.append_nil, run_cons]
  simp only [step?, hslash, if_false, hchars.1, if_true, Option.bind_some]
  rw [List.append_assoc, run_append, run_opening _ hchars.2, Option.bind_some, List.singleton_append]
  -- the first attribute begins with a blank, and so the name ends whether or not there is one
  cases added with
  | nil => exact run_opening_eq _ _ hc rest
  | cons a added => exact run_opening_eq _ _ rfl _

theorem run_openTag {tag : String} {added : MarkupAttributes} (htag : IsName tag)
    (hadded : added.Formed fun a => a.2.Legible) {c : Char} (hc : isNameChar c = false) (rest : List Char) :
    run? ⟨pieces, .text []⟩ ((openTag tag added).toList ++ c :: rest) =
      run? ⟨pieces, .inside tag.toList added.content⟩ (c :: rest) := by
  rw [run_tagName _ htag added hc, run_attributes _ _ _ hadded, List.nil_append]

theorem run_closeTag {tag : String} (htag : IsName tag) (read : List Char) :
    run? ⟨pieces, .text read⟩ ("</" ++ tag ++ ">").toList =
      (text? read).map fun t => ⟨pieces ++ t ++ [.closing tag], .text []⟩ := by
  have htext : ("</" ++ tag ++ ">").toList = '<' :: '/' :: (tag.toList ++ ['>']) := by simp
  rw [htext, run_cons]
  show ((text? read).map _).bind _ = _
  cases text? read with
  | none => rfl
  | some t =>
    simp only [Option.map_some, Option.bind_some]
    rw [run_cons]
    show run? ⟨pieces ++ t, .closing []⟩ _ = _
    rw [run_append, run_closing _ htag.2, Option.bind_some, List.nil_append, run_cons]
    show some (State.mk (pieces ++ t ++ [.closing (String.ofList tag.toList)]) _) = _
    rw [String.ofList_toList]

/-! ### Parts of documents -/

theorem text?_escape (s : String) : text? (Xml.escape s).toList = some (Piece.words s) := by
  rw [text?, Piece.words]
  cases h : s.toList with
  | nil =>
    have hempty : s.isEmpty = true := String.isEmpty_iff.mpr (String.toList_eq_nil_iff.mp h)
    rw [Xml.escape_eq_nil_iff.mpr h, hempty]
    rfl
  | cons c cs =>
    have hempty : s.isEmpty = false := by
      rw [← Bool.not_eq_true, String.isEmpty_iff]
      rintro rfl
      cases h
    have hescape : (Xml.escape s).toList ≠ [] := by
      rw [Ne, Xml.escape_eq_nil_iff, h]
      exact List.cons_ne_nil c cs
    rw [if_neg (by simpa using hescape), hempty, Xml.unescape_escape, Option.map_some, String.ofList_toList]
    rfl

theorem run_renderAll {content : List Markup}
    (h : ∀ m ∈ content, ∀ pieces : List Piece,
      run? ⟨pieces, .text []⟩ m.render.toList = some ⟨pieces ++ m.pieces, .text []⟩)
    (pieces : List Piece) :
    run? ⟨pieces, .text []⟩ (renderAll content).toList = some ⟨pieces ++ piecesAll content, .text []⟩ := by
  induction content generalizing pieces with
  | nil =>
    rw [piecesAll, List.append_nil]
    rfl
  | cons m content ih =>
    rw [renderAll, String.toList_append, run_append, h m List.mem_cons_self, Option.bind_some,
      ih fun m' hm' => h m' (List.mem_cons_of_mem m hm'), piecesAll, List.append_assoc]

/-- An element is read if its content is, up to the text with which the content ends. -/
theorem run_element {tag : String} {added : MarkupAttributes} {content : List Markup} (htag : IsName tag)
    (hadded : added.Formed fun a => a.2.Legible) {read : List Char} {inner last : List Piece}
    (hcontent : ∀ pieces : List Piece, run? ⟨pieces, .text []⟩ (renderAll content).toList =
      some ⟨pieces ++ inner, .text read⟩)
    (hend : text? read = some last) (hpieces : piecesAll content = inner ++ last) (pieces : List Piece) :
    run? ⟨pieces, .text []⟩ (element tag added content).render.toList =
      some ⟨pieces ++ (element tag added content).pieces, .text []⟩ := by
  have htext : (element tag added content).render.toList = (openTag tag added).toList ++
      '>' :: ((renderAll content).toList ++ ("</" ++ tag ++ ">").toList) := by
    simp [render]
  rw [htext, run_openTag _ htag hadded rfl, run_cons]
  show run? ⟨pieces ++ [.opening (String.ofList tag.toList) added.content], .text []⟩ _ = _
  rw [run_append, hcontent, Option.bind_some, run_closeTag _ htag, hend, Option.map_some, String.ofList_toList,
    Markup.pieces, hpieces]
  simp

/-- **The reader goes through what is written for a part** and finds its pieces. -/
theorem run_render {m : Markup} (h : m.Legible) (pieces : List Piece) :
    run? ⟨pieces, .text []⟩ m.render.toList = some ⟨pieces ++ m.pieces, .text []⟩ := by
  induction h generalizing pieces with
  | @empty tag added htag hadded =>
    rw [render, String.toList_append]
    show run? _ ((openTag tag added).toList ++ '/' :: ['>']) = _
    rw [run_openTag _ htag hadded rfl]
    show some (State.mk (pieces ++ [.empty (String.ofList tag.toList) added.content]) _) = _
    rw [String.ofList_toList, Markup.pieces]
  | @leaf tag added s htag hadded =>
    have hcontent (pieces : List Piece) : run? ⟨pieces, .text []⟩ (renderAll [text s]).toList =
        some ⟨pieces ++ [], .text (Xml.escape s).toList⟩ := by
      rw [renderAll, render, renderAll, String.append_empty, List.append_nil,
        run_text _ fun c hc => Xml.ne_of_mem_escape hc, List.nil_append]
    refine run_element htag hadded hcontent (text?_escape s) ?_ pieces
    simp [piecesAll, Markup.pieces]
  | @branch tag added content htag hadded _ ih =>
    have hend : text? [] = some [] := rfl
    refine run_element htag hadded (run_renderAll ih) hend ?_ pieces
    rw [List.append_nil]

end Splitter

/-- A document is split into its pieces if its values can be read. -/
theorem Piece.split?_of_legible {m : Markup} (h : m.Legible) : Piece.split? m.render = some m.pieces := by
  rw [split?, Splitter.run_render h, Option.bind_some]
  show some ([] ++ m.pieces ++ []) = _
  rw [List.nil_append, List.append_nil]

/-- **A document is split into its pieces**, with all values and texts as they were before they were escaped. -/
theorem Piece.split?_render {m : Markup} (h : m.Clean) : Piece.split? m.render = some m.pieces :=
  split?_of_legible h.legible

example : Piece.split? "<a b=\"1 &lt; 2\">x &amp;amp; y</a>" =
    some [.opening "a" [("b", "1 < 2")], .text "x &amp; y", .closing "a"] := by rfl

/-- A quotation mark that is not escaped ends the value, and what comes after it is refused. -/
example : Piece.split? "<a b=\"say \"so\"\"/>" = none := by rfl

end FlowTree
