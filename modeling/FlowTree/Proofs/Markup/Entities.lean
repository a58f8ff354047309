import FlowTree.Text.Xml
import Mathlib.Data.List.Basic
import Mathlib.Data.String.Basic

/-!
# Entities undone

What is written in a document is read back by putting a character in the place of each entity.

* **`Xml.unescape`** does so and refuses an ampersand that begins none of the five entities, which have a name
  between the ampersand and a semicolon.
* **`Xml.unescape_escape`** says that this gives back every text, **`Xml.ne_of_mem_escape`** that an escaped
  text has none of the characters that end it.
* **`Xml.escape_eq_replacements`** says that escaping is the replacement of the five characters one after the
  other in the whole text, if the ampersand is the first of them.
* **`Xml.Plain`** are the texts in which nothing has to be escaped.
-/

namespace FlowTree.Xml

/-- The character has a meaning in markup. -/
def isMark (c : Char) : Bool := c == '&' || c == '<' || c == '>' || c == '"' || c == '\''

theorem entity_of_not_isMark {c : Char} (h : isMark c = false) : entity c = [c] := by
  simp only [isMark, Bool.or_eq_false_iff, beq_eq_false_iff_ne] at h
  unfold entity
  split <;> simp_all

theorem eq_of_isMark {c : Char} (h : isMark c = true) :
    c = '&' ∨ c = '<' ∨ c = '>' ∨ c = '"' ∨ c = '\'' := by
  simpa [isMark, or_assoc] using h

/-! ### Reading entities -/

/-- The five entities by their names. -/
def names : List (String × Char) :=
  [("amp", '&'), ("lt", '<'), ("gt", '>'), ("quot", '"'), ("apos", '\'')]

/-- Reads on after an ampersand and the part of a name, or outside of entities: a semicolon ends a name, and a
name that is none of the five is refused. -/
def unescapeFrom : Option (List Char) → List Char → Option (List Char)
  | none, [] => some []
  | some _, [] => none
  | none, c :: rest =>
    if c = '&' then unescapeFrom (some []) rest else (unescapeFrom none rest).map (c :: ·)
  | some name, c :: rest =>
    if c = ';' then
      (names.lookup (String.ofList name)).bind fun d => (unescapeFrom none rest).map (d :: ·)
    else unescapeFrom (some (name ++ [c])) rest

/-- The text that has been escaped; nothing if an ampersand begins no entity. -/
def unescape (s : List Char) : Option (List Char) := unescapeFrom none s

theorem unescape_cons {c : Char} (h : c ≠ '&') (rest : List Char) :
    unescape (c :: rest) = (unescape rest).map (c :: ·) := by
  rw [unescape, unescapeFrom, if_neg h, unescape]

/-- What has no ampersand is read as it is. -/
theorem unescape_of_ne {cs : List Char} (h : ∀ c ∈ cs, c ≠ '&') : unescape cs = some cs := by
  induction cs with
  | nil => rfl
  | cons c cs ih =>
    obtain ⟨hc, hcs⟩ := List.forall_mem_cons.mp h
    rw [unescape_cons hc, ih hcs, Option.map_some]

/-- What is read is not longer than what is written. -/
theorem length_of_unescapeFrom {name : Option (List Char)} {cs v : List Char}
    (h : unescapeFrom name cs = some v) : v.length ≤ cs.length := by
  induction cs generalizing name v with
  | nil =>
    cases name with
    | none =>
      obtain rfl := Option.some.inj h
      exact le_rfl
    | some name => cases h
  | cons c cs ih =>
    cases name with
    | none =>
      rw [unescapeFrom] at h
      split at h
      · exact Nat.le_succ_of_le (ih h)
      · obtain ⟨w, hw, rfl⟩ := Option.map_eq_some_iff.mp h
        exact Nat.succ_le_succ (ih hw)
    | some name =>
      rw [unescapeFrom] at h
      split at h
      · obtain ⟨d, -, hd⟩ := Option.bind_eq_some_iff.mp h
        obtain ⟨w, hw, rfl⟩ := Option.map_eq_some_iff.mp hd
        exact Nat.succ_le_succ (ih hw)
      · exact Nat.le_succ_of_le (ih h)

/-- It is shorter if there was an entity. -/
theorem length_of_unescape {cs v : List Char} (h : unescape cs = some v) (hmem : '&' ∈ cs) :
    v.length < cs.length := by
  induction cs generalizing v with
  | nil => cases hmem
  | cons c cs ih =>
    by_cases hc : c = '&'
    · rw [unescape, unescapeFrom, if_pos hc] at h
      exact Nat.lt_succ_of_le (length_of_unescapeFrom h)
    · rw [unescape_cons hc] at h
      obtain ⟨w, hw, rfl⟩ := Option.map_eq_some_iff.mp h
      exact Nat.succ_lt_succ (ih hw ((List.mem_cons.mp hmem).resolve_left (Ne.symm hc)))

/-- So only what has no ampersand is read as it is. -/
theorem unescape_eq_self_iff {cs : List Char} : unescape cs = some cs ↔ ∀ c ∈ cs, c ≠ '&' := by
  refine ⟨fun h c hc heq => ?_, unescape_of_ne⟩
  exact lt_irrefl _ (length_of_unescape h (heq ▸ hc))

theorem unescape_entity_append (c : Char) (rest : List Char) :
    unescape (entity c ++ rest) = (unescape rest).map (c :: ·) := by
  cases h : isMark c with
  | false =>
    rw [entity_of_not_isMark h, List.singleton_append, unescape_cons]
    rintro rfl
    cases h
  | true => rcases eq_of_isMark h with rfl | rfl | rfl | rfl | rfl <;> rfl

/-- **Every text is read back.** -/
theorem unescape_escape (s : String) : unescape (escape s).toList = some s.toList := by
  rw [escape, String.toList_ofList]
  induction s.toList with
  | nil => rfl
  | cons c cs ih => rw [List.flatMap_cons, unescape_entity_append, ih, Option.map_some]

/-- An escaped text ends neither a value nor a text. -/
theorem ne_of_mem_escape {s : String} {c : Char} (h : c ∈ (escape s).toList) : c ≠ '"' ∧ c ≠ '<' := by
  rw [escape, String.toList_ofList, List.mem_flatMap] at h
  obtain ⟨d, -, hc⟩ := h
  cases hd : isMark d with
  | false =>
    rw [entity_of_not_isMark hd, List.mem_singleton] at hc
    subst hc
    constructor <;> rintro rfl <;> cases hd
  | true =>
    have hentity : (entity d).all (fun c => c ≠ '"' ∧ c ≠ '<') = true := by
      rcases eq_of_isMark hd with rfl | rfl | rfl | rfl | rfl <;> decide
    exact of_decide_eq_true (List.all_eq_true.mp hentity c hc)

theorem escape_eq_nil_iff {s : String} : (escape s).toList = [] ↔ s.toList = [] := by
  rw [escape, String.toList_ofList, List.flatMap_eq_nil_iff]
  constructor
  · intro h
    refine List.eq_nil_iff_forall_not_mem.mpr fun c hc => ?_
    have hentity := h c hc
    unfold entity at hentity
    split at hentity <;> simp at hentity
  · intro h c hc
    rw [h] at hc
    cases hc

/-! ### One replacement after the other -/

/-- The text with some characters in all places of one. -/
def replaceAll (c : Char) (new : List Char) (s : List Char) : List Char :=
  s.flatMap fun x => if x = c then new else [x]

/-- **Escaping is five replacements one after the other.**  The ampersand comes first, so the ampersands of the
entities that come in later stay as they are. -/
theorem escape_eq_replacements (s : String) :
    (escape s).toList = replaceAll '\'' "&apos;".toList (replaceAll '"' "&quot;".toList
      (replaceAll '>' "&gt;".toList (replaceAll '<' "&lt;".toList
        (replaceAll '&' "&amp;".toList s.toList)))) := by
  rw [escape, String.toList_ofList]
  simp only [replaceAll, List.flatMap_assoc]
  congr 1
  funext c
  cases h : isMark c with
  | false =>
    simp only [isMark, Bool.or_eq_false_iff, beq_eq_false_iff_ne] at h
    rw [entity_of_not_isMark (by simp [isMark, h])]
    simp only [h, if_false, List.flatMap_singleton]
  | true => rcases eq_of_isMark h with rfl | rfl | rfl | rfl | rfl <;> decide +kernel

/-! ### Text without marks -/

/-- Nothing in the text has to be escaped. -/
def Plain (s : String) : Prop := ∀ c ∈ s.toList, isMark c = false

-- character by character; there are also finitely many characters, and these would be gone through instead
instance (s : String) : Decidable (Plain s) := List.decidableBAll _ s.toList

theorem Plain.append {s t : String} (hs : Plain s) (ht : Plain t) : Plain (s ++ t) := by
  intro c hc
  rw [String.toList_append, List.mem_append] at hc
  exact hc.elim (hs c) (ht c)

theorem Plain.unescape {s : String} (h : Plain s) : unescape s.toList = some s.toList := by
  refine unescape_of_ne fun c hc => ?_
  rintro rfl
  cases h '&' hc

/-- The text can stand between quotation marks as it is. -/
def Quotable (s : String) : Prop := ∀ c ∈ s.toList, c ≠ '"' ∧ c ≠ '<' ∧ c ≠ '&'

instance (s : String) : Decidable (Quotable s) := List.decidableBAll _ s.toList

theorem Plain.ne_of_mem {s : String} (h : Plain s) {c : Char} (hc : c ∈ s.toList) : c ≠ '"' ∧ c ≠ '<' := by
  have hmark := h c hc
  constructor <;> rintro rfl <;> cases hmark

end FlowTree.Xml
