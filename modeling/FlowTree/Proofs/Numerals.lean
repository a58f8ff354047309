import FlowTree.Decimal.Numeral
import FlowTree.Proofs.Markup.Entities

/-!
# Numerals need no escape

Digits, signs, points, exponents and the names of the values without digits have no meaning in markup, so a
number can stand anywhere in a document as it is written.

* **`Decimal.IsNumeric`** are the characters of numerals; **`Decimal.Numeral.isNumeric_render`** and
  **`Decimal.Reading.plain_fixed`** say that there are no others.
* **`Printed.IsPlain`** are the numbers that are written without marks; **`Printed.isPlain_float`** says that
  those of a diagram are.
-/

namespace FlowTree

namespace Decimal

/-- A character of a numeral: a digit, a sign, the point or the mark of an exponent. -/
def IsNumeric (c : Char) : Prop := c.isDigit = true ∨ c ∈ ['-', '+', '.', 'e']

theorem IsNumeric.not_isMark {c : Char} (h : IsNumeric c) : Xml.isMark c = false := by
  rw [← Bool.not_eq_true]
  intro hmark
  rcases Xml.eq_of_isMark hmark with rfl | rfl | rfl | rfl | rfl <;> revert h <;> simp [IsNumeric]

theorem plain_ofList {cs : List Char} (h : ∀ c ∈ cs, IsNumeric c) : Xml.Plain (String.ofList cs) := by
  intro c hc
  rw [String.toList_ofList] at hc
  exact (h c hc).not_isMark

theorem isNumeric_zero : IsNumeric '0' := Or.inl rfl

theorem isNumeric_digits {n : Nat} {c : Char} (h : c ∈ Nat.toDigits 10 n) : IsNumeric c :=
  Or.inl (Nat.isDigit_of_mem_toDigits (by decide) (by decide) h)

theorem isNumeric_sign {negative : Bool} {c : Char} (h : c ∈ if negative then ['-'] else []) :
    IsNumeric c := by
  cases negative <;> simp_all [IsNumeric]

theorem mem_or_mem_of_mem_ite {b : Bool} {xs ys : List Char} {c : Char} (h : c ∈ if b then xs else ys) :
    c ∈ xs ∨ c ∈ ys := by
  cases b with
  | true => exact Or.inl h
  | false => exact Or.inr h

/-! ### Digits with a point or an exponent -/

theorem Numeral.isNumeric_positionalText {ds : List Char} (hds : ∀ c ∈ ds, IsNumeric c) (keepsFraction : Bool)
    (point : Int) : ∀ c ∈ positionalText keepsFraction ds point, IsNumeric c := by
  have hzero := isNumeric_zero
  have hpoint : IsNumeric '.' := by simp [IsNumeric]
  intro c hc
  unfold positionalText at hc
  split at hc
  · simp only [List.mem_append, List.mem_cons, List.not_mem_nil, or_false, List.mem_replicate] at hc
    rcases hc with ((rfl | rfl) | ⟨-, rfl⟩) | hc
    · exact hzero
    · exact hpoint
    · exact hzero
    · exact hds c hc
  · split at hc
    · simp only [List.mem_append, List.mem_replicate] at hc
      rcases hc with (hc | ⟨-, rfl⟩) | hc
      · exact hds c hc
      · exact hzero
      · split at hc <;> simp at hc
        rcases hc with rfl | rfl
        · exact hpoint
        · exact hzero
    · simp only [List.mem_append, List.mem_cons] at hc
      rcases hc with hc | rfl | hc
      · exact hds c (List.mem_of_mem_take hc)
      · exact hpoint
      · exact hds c (List.mem_of_mem_drop hc)

theorem Numeral.isNumeric_scientificText {ds : List Char} (hds : ∀ c ∈ ds, IsNumeric c) (exponent : Int) :
    ∀ c ∈ scientificText ds exponent, IsNumeric c := by
  intro c hc
  unfold scientificText at hc
  simp only [List.mem_append, List.mem_cons, List.not_mem_nil, or_false] at hc
  rcases hc with ((hc | hc) | rfl | rfl) | hc
  · exact hds c (List.mem_of_mem_take hc)
  · split at hc
    · cases hc
    · rcases List.mem_cons.mp hc with rfl | hc
      · simp [IsNumeric]
      · exact hds c (List.mem_of_mem_drop hc)
  · simp [IsNumeric]
  · split <;> simp [IsNumeric]
  · exact isNumeric_digits hc

theorem Numeral.plain_render (n : Numeral) (b : Binary) : Xml.Plain (n.render b) := by
  refine plain_ofList fun c hc => ?_
  rcases List.mem_append.mp hc with hc | hc
  · exact isNumeric_sign hc
  · rcases mem_or_mem_of_mem_ite hc with hc | hc
    · exact isNumeric_positionalText (fun _ h => isNumeric_digits h) _ _ c hc
    · exact isNumeric_scientificText (fun _ h => isNumeric_digits h) _ c hc

theorem plain_nanText : Xml.Plain nanText := by decide

theorem plain_infinityText (negative : Bool) : Xml.Plain (infinityText negative) := by
  cases negative <;> decide

theorem Reading.plain_plain (r : Reading) : Xml.Plain r.plain := by
  cases r with
  | nan => exact plain_nanText
  | infinite negative => exact plain_infinityText negative
  | finite b => exact Numeral.plain.plain_render b

theorem Reading.plain_fixed (places : Nat) (r : Reading) : Xml.Plain (r.fixed places) := by
  cases r with
  | nan => exact plain_nanText
  | infinite negative => exact plain_infinityText negative
  | finite b =>
    have hdigits : ∀ c ∈ paddedDigits (places + 1) (b.units places), IsNumeric c := by
      intro c hc
      rcases List.mem_append.mp hc with hc | hc
      · rw [List.eq_of_mem_replicate hc]
        exact isNumeric_zero
      · exact isNumeric_digits hc
    refine plain_ofList fun c hc => ?_
    rcases List.mem_append.mp hc with hc | hc
    · rcases List.mem_append.mp hc with hc | hc
      · exact isNumeric_sign hc
      · exact hdigits c (List.mem_of_mem_take hc)
    · split at hc
      · cases hc
      · rcases List.mem_cons.mp hc with rfl | hc
        · simp [IsNumeric]
        · exact hdigits c (List.mem_of_mem_drop hc)

end Decimal

/-- The numbers are written without any character that has a meaning in markup. -/
structure Printed.IsPlain (α : Type) [Printed α] : Prop where
  plain : ∀ x : α, Xml.Plain (Printed.plain x)
  fixed : ∀ (places : Nat) (x : α), Xml.Plain (Printed.fixed places x)

theorem Printed.isPlain_float : Printed.IsPlain Float where
  plain x := (Decimal.Reading.ofFloat x).plain_plain
  fixed places x := (Decimal.Reading.ofFloat x).plain_fixed places

end FlowTree
