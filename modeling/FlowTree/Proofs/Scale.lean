import FlowTree.Proofs.Exact
import FlowTree.Scale
import Mathlib.Data.List.Perm.Basic
import Mathlib.Data.List.ReduceOption
import Mathlib.Data.String.Basic
import Mathlib.Tactic.FieldSimp

/-!
# Widths of a series

The scale of an edge attribute is found by one walk over all runs, nodes and dates, and what it gives for a
value depends on nothing but the largest value of this walk.

* **`Series.edgeValues`** are the values of an attribute in a series, **`Series.peak`** is the largest one of
  them, or zero.
* **`EdgeScales.lookup_note`** says what noting values changes; **`EdgeScales.get?_of`** says that just the
  attributes that are mentioned have a scale, and that it leads up to the peak.
* **`EdgeScales.Gives`** says which width belongs to a value, **`EdgeScales.gives_width`** that the scales of a
  series give it; **`EdgeScales.Gives.mono`** compares two widths.
-/

namespace FlowTree

/-! ### Values of a series -/

namespace Series

section Values

variable {α : Type}

/-- What the trees of a series tell of edges, run by run and node by node. -/
def edgeEntries (trees : List (DatedTree α)) : List (String × List (Option α)) :=
  trees.flatMap fun t => t.tree.preorder.flatMap fun info => info.edgeData.entries

/-- The values that are told of one key; missing ones are left out. -/
def valuesOf (key : String) (entries : List (String × List (Option α))) : List α :=
  entries.flatMap fun e => if e.1 = key then e.2.reduceOption else []

theorem valuesOf_cons (key : String) (e : String × List (Option α))
    (entries : List (String × List (Option α))) :
    valuesOf key (e :: entries) = (if e.1 = key then e.2.reduceOption else []) ++ valuesOf key entries :=
  List.flatMap_cons

/-- All values of an attribute of edges over all runs, nodes and dates. -/
def edgeValues (trees : List (DatedTree α)) (key : String) : List α := valuesOf key (edgeEntries trees)

/-- Some node of some run reports the attribute for its edge, with whatever values. -/
def Mentions (trees : List (DatedTree α)) (key : String) : Prop :=
  ∃ t ∈ trees, ∃ info ∈ t.tree.preorder, key ∈ info.edgeData.keys

theorem mentions_iff {trees : List (DatedTree α)} {key : String} :
    Mentions trees key ↔ key ∈ (edgeEntries trees).map (·.1) := by
  rw [edgeEntries, List.map_flatMap, Mentions, List.mem_flatMap]
  refine exists_congr fun t => and_congr_right fun _ => ?_
  rw [List.map_flatMap, List.mem_flatMap]
  rfl

/-- A value that is told at some date is one of the series. -/
theorem mem_edgeValues {trees : List (DatedTree α)} {t : DatedTree α} (ht : t ∈ trees) {info : NodeInfo α}
    (hinfo : info ∈ t.tree.preorder) {key : String} {date : Nat} {value : α}
    (hvalue : info.edgeData.valueAt key date = some value) :
    Mentions trees key ∧ value ∈ edgeValues trees key := by
  rw [Attributes.valueAt, Option.join_eq_some_iff, Option.bind_eq_some_iff] at hvalue
  obtain ⟨values, hget, hdate⟩ := hvalue
  have hentry : (key, values) ∈ info.edgeData.entries := by
    obtain ⟨before, after, hsplit, -⟩ := List.lookup_eq_some_iff.mp hget
    rw [hsplit]
    exact List.mem_append_right before List.mem_cons_self
  refine ⟨⟨t, ht, info, hinfo, List.mem_map_of_mem hentry⟩, ?_⟩
  rw [edgeValues, valuesOf, List.mem_flatMap]
  refine ⟨(key, values), ?_, ?_⟩
  · exact List.mem_flatMap.mpr ⟨t, ht, List.mem_flatMap.mpr ⟨info, hinfo, hentry⟩⟩
  · rw [if_pos rfl, List.reduceOption_mem_iff]
    exact List.mem_of_getElem? hdate

/-- The order of the runs does not matter. -/
theorem edgeValues_perm {trees trees' : List (DatedTree α)} (h : trees.Perm trees') (key : String) :
    (edgeValues trees key).Perm (edgeValues trees' key) :=
  (h.flatMap_right _).flatMap_right _

theorem Mentions.perm {trees trees' : List (DatedTree α)} (h : trees.Perm trees') {key : String}
    (hkey : Mentions trees key) : Mentions trees' key := by
  obtain ⟨t, ht, hinfo⟩ := hkey
  exact ⟨t, h.mem_iff.mp ht, hinfo⟩

end Values

/-- The largest value of an attribute, or zero if none is above it. -/
def peak (trees : List (DatedTree ℚ)) (key : String) : ℚ := (edgeValues trees key).foldl max 0

theorem peak_perm {trees trees' : List (DatedTree ℚ)} (h : trees.Perm trees') (key : String) :
    peak trees key = peak trees' key :=
  (edgeValues_perm h key).foldl_eq 0

theorem peak_nonneg (trees : List (DatedTree ℚ)) (key : String) : 0 ≤ peak trees key :=
  (Scalar.le_foldl_max _ 0).1

/-- A value that no other one exceeds is the peak if it is positive. -/
theorem peak_eq {trees : List (DatedTree ℚ)} {key : String} {value : ℚ} (hpos : 0 < value)
    (hmem : value ∈ edgeValues trees key) (hmax : ∀ x ∈ edgeValues trees key, x ≤ value) :
    peak trees key = value := by
  refine le_antisymm ?_ ((Scalar.le_foldl_max _ 0).2 value hmem)
  rcases Scalar.foldl_max_mem (edgeValues trees key) 0 with hzero | hmem
  · rw [peak, hzero]
    exact hpos.le
  · exact hmax _ hmem

end Series

namespace EdgeScales

/-! ### Noting values -/

section Notes

variable {α : Type}

/-- Keys in ascending order, none of them twice. -/
def Ascending (notes : List (String × α)) : Prop := notes.Pairwise fun a b => a.1 < b.1

theorem lookup_cons (key : String) (e : String × α) (notes : List (String × α)) :
    (e :: notes).lookup key = if key = e.1 then some e.2 else notes.lookup key := by
  rw [List.lookup_cons]
  by_cases hkey : key = e.1
  · rw [if_pos hkey, hkey, beq_self_eq_true]
  · rw [if_neg hkey, beq_false_of_ne hkey]

theorem lookup_eq_none {notes : List (String × α)} {key : String} (h : ∀ e ∈ notes, key < e.1) :
    notes.lookup key = none := by
  rw [List.lookup_eq_none_iff]
  intro e he
  rw [bne_iff_ne]
  exact ne_of_lt (h e he)

variable [Scalar α]

/-- **Noting the values of one key** raises what is noted for it and leaves all other keys as they are. -/
theorem lookup_note {notes : List (String × α)} (h : Ascending notes) (key : String)
    (values : List (Option α)) (other : String) :
    (note key values notes).lookup other =
      if other = key then some (values.reduceOption.foldl Scalar.max ((notes.lookup key).getD Scalar.zero))
      else notes.lookup other := by
  induction notes with
  | nil => exact lookup_cons other (key, _) []
  | cons e notes ih =>
    obtain ⟨k, noted⟩ := e
    obtain ⟨hfirst, hrest⟩ := List.pairwise_cons.mp h
    rw [note]
    split
    · next hlt =>
      -- the key is new: it comes before all others
      have hnone : ((k, noted) :: notes).lookup key = none := by
        refine lookup_eq_none fun e he => ?_
        rcases List.mem_cons.mp he with rfl | he
        · exact hlt
        · exact lt_trans hlt (hfirst e he)
      rw [hnone, lookup_cons, Option.getD_none]
    · split
      · next hkey =>
        obtain rfl : key = k := beq_iff_eq.mp hkey
        simp only [lookup_cons, if_true, Option.getD_some]
        split <;> rfl
      · next hne =>
        have hne' : key ≠ k := fun heq => hne (beq_iff_eq.mpr heq)
        rw [lookup_cons, ih hrest, lookup_cons, lookup_cons, if_neg hne']
        by_cases hother : other = k
        · rw [if_pos hother, if_neg (hother ▸ Ne.symm hne'), if_pos hother]
        · rw [if_neg hother, if_neg hother]

theorem fst_mem_note {notes : List (String × α)} {key : String} {values : List (Option α)}
    {e : String × α} (he : e ∈ note key values notes) : e.1 = key ∨ ∃ e' ∈ notes, e'.1 = e.1 := by
  induction notes with
  | nil =>
    obtain rfl := List.mem_singleton.mp he
    exact Or.inl rfl
  | cons f notes ih =>
    obtain ⟨k, noted⟩ := f
    rw [note] at he
    split at he
    · rcases List.mem_cons.mp he with rfl | he
      · exact Or.inl rfl
      · exact Or.inr ⟨e, he, rfl⟩
    · split at he
      · rcases List.mem_cons.mp he with rfl | he
        · exact Or.inr ⟨_, List.mem_cons_self, rfl⟩
        · exact Or.inr ⟨e, List.mem_cons_of_mem _ he, rfl⟩
      · rcases List.mem_cons.mp he with rfl | he
        · exact Or.inr ⟨_, List.mem_cons_self, rfl⟩
        · refine (ih he).imp_right ?_
          rintro ⟨e', he', heq⟩
          exact ⟨e', List.mem_cons_of_mem _ he', heq⟩

theorem Ascending.note {notes : List (String × α)} (h : Ascending notes) (key : String)
    (values : List (Option α)) : Ascending (note key values notes) := by
  induction notes with
  | nil => exact List.pairwise_singleton _ _
  | cons e notes ih =>
    obtain ⟨k, noted⟩ := e
    obtain ⟨hfirst, hrest⟩ := List.pairwise_cons.mp h
    rw [EdgeScales.note]
    split
    · next hlt =>
      refine List.pairwise_cons.mpr ⟨fun e he => ?_, h⟩
      rcases List.mem_cons.mp he with rfl | he
      · exact hlt
      · exact lt_trans hlt (hfirst e he)
    · split
      · exact List.pairwise_cons.mpr ⟨hfirst, hrest⟩
      · next hlt hne =>
        refine List.pairwise_cons.mpr ⟨fun e he => ?_, ih hrest⟩
        rcases fst_mem_note he with heq | ⟨e', he', heq⟩
        · rw [heq]
          exact lt_of_le_of_ne (not_lt.mp hlt) fun heq => hne (beq_iff_eq.mpr heq.symm)
        · rw [← heq]
          exact hfirst e' he'

end Notes

/-- **What is noted in the end** for a key is the largest of what was noted before and of all its values. -/
theorem lookup_notes {notes : List (String × ℚ)} (h : Ascending notes)
    (entries : List (String × List (Option ℚ))) (key : String) :
    (entries.foldl (fun noted e => note e.1 e.2 noted) notes).lookup key =
      if key ∈ entries.map (·.1) then
        some ((Series.valuesOf key entries).foldl max ((notes.lookup key).getD 0))
      else notes.lookup key := by
  induction entries generalizing notes with
  | nil => rfl
  | cons e entries ih =>
    rw [List.foldl_cons, ih (h.note e.1 e.2), lookup_note h, Series.valuesOf_cons, List.foldl_append]
    simp only [List.map_cons, List.mem_cons, Scalar.max_eq, Scalar.zero_rat]
    by_cases hkey : key = e.1
    · simp only [hkey, if_true, true_or, Option.getD_some]
      split
      · rfl
      · next hnot =>
        have hnone : Series.valuesOf e.1 entries = [] := by
          rw [Series.valuesOf, List.flatMap_eq_nil_iff]
          intro e' he'
          rw [if_neg]
          exact fun heq => hnot (List.mem_map.mpr ⟨e', he', heq⟩)
        rw [hnone, List.foldl_nil]
    · rw [if_neg hkey, if_neg (Ne.symm hkey), List.foldl_nil]
      simp only [hkey, false_or]

/-! ### Scales of a series -/

theorem lookup_map_snd {β γ : Type} (f : β → γ) (l : List (String × β)) (key : String) :
    (l.map fun e => (e.1, f e.2)).lookup key = (l.lookup key).map f := by
  induction l with
  | nil => rfl
  | cons e l ih =>
    rw [List.map_cons, List.lookup_cons, List.lookup_cons, ih]
    split <;> rfl

open Classical in
/-- **The scales of a series.**  Just the attributes that are mentioned have one, up to the largest value. -/
theorem get?_of (trees : List (DatedTree ℚ)) (range : Extent ℚ) (key : String) :
    (of trees range).get? key =
      if Series.Mentions trees key then some (.upTo (Series.peak trees key) range) else none := by
  have hlargest : (largest trees).lookup key = _ :=
    lookup_notes List.Pairwise.nil (Series.edgeEntries trees) key
  rw [get?, of, lookup_map_snd (fun x => Scale.upTo x range), hlargest, Series.mentions_iff]
  split <;> rfl

/-! ### Widths -/

/-- The width that belongs to a value of an attribute: a fixed one if the series does not mention the attribute,
the low end of the range if no value is positive, and else the share of the range that the value has of the
largest one. -/
structure Gives (trees : List (DatedTree ℚ)) (range : Extent ℚ) (key : String) (value width : ℚ) :
    Prop where
  unknown : ¬Series.Mentions trees key → width = 2
  flat : Series.Mentions trees key → Series.peak trees key = 0 → width = range.low
  scaled : Series.Mentions trees key → 0 < Series.peak trees key →
    width = range.low + (range.high - range.low) * min 1 (max 0 (value / Series.peak trees key))

/-- **The scales of a series give each value its width.** -/
theorem gives_width (trees : List (DatedTree ℚ)) (range : Extent ℚ) (key : String) (value : ℚ) :
    Gives trees range key value ((of trees range).width key value) := by
  classical
  have hpeak := Series.peak_nonneg trees key
  refine ⟨fun hnot => ?_, fun hkey hzero => ?_, fun hkey hpos => ?_⟩
  · rw [width, get?_of, if_neg hnot]
    rfl
  · rw [width, get?_of, if_pos hkey, hzero]
    simp [Scale.apply, Scale.upTo]
  · rw [width, get?_of, if_pos hkey]
    simp [Scale.apply, Scale.upTo, not_le.mpr hpos, Scalar.clampUnit_eq]

namespace Gives

variable {trees trees' : List (DatedTree ℚ)} {range : Extent ℚ} {key : String}
  {value value' width width' : ℚ}

/-- The widths of an attribute that is mentioned stay in the range. -/
theorem mem_range (h : Gives trees range key value width) (hrange : range.low ≤ range.high)
    (hkey : Series.Mentions trees key) : range.low ≤ width ∧ width ≤ range.high := by
  rcases (Series.peak_nonneg trees key).eq_or_lt with hzero | hpos
  · rw [h.flat hkey hzero.symm]
    exact ⟨le_refl _, hrange⟩
  · have hspan := sub_nonneg.mpr hrange
    have hlow := mul_nonneg hspan (le_min zero_le_one (le_max_left 0 (value / Series.peak trees key)))
    have hhigh := mul_le_mul_of_nonneg_left
      (min_le_left (1 : ℚ) (max 0 (value / Series.peak trees key))) hspan
    rw [h.scaled hkey hpos]
    constructor <;> linarith

/-- **A larger value is never drawn thinner**, not even if the runs come in another order. -/
theorem mono (h : Gives trees range key value width) (h' : Gives trees' range key value' width')
    (hperm : trees.Perm trees') (hrange : range.low ≤ range.high) (hkey : Series.Mentions trees key)
    (hle : value ≤ value') : width ≤ width' := by
  have hpeak := Series.peak_perm hperm key
  rcases (Series.peak_nonneg trees key).eq_or_lt with hzero | hpos
  · rw [h.flat hkey hzero.symm, h'.flat (hkey.perm hperm) (hpeak ▸ hzero.symm)]
  · rw [h.scaled hkey hpos, h'.scaled (hkey.perm hperm) (hpeak ▸ hpos), ← hpeak]
    have hshare := div_le_div_of_nonneg_right hle hpos.le
    have hclamped := min_le_min_left (1 : ℚ) (max_le_max_left 0 hshare)
    have hspan := mul_le_mul_of_nonneg_left hclamped (sub_nonneg.mpr hrange)
    linarith

/-- The largest value is drawn as wide as can be if it is positive. -/
theorem eq_high (h : Gives trees range key value width) (hkey : Series.Mentions trees key)
    (hpos : 0 < value) (hmem : value ∈ Series.edgeValues trees key)
    (hmax : ∀ x ∈ Series.edgeValues trees key, x ≤ value) : width = range.high := by
  have hpeak := Series.peak_eq hpos hmem hmax
  rw [h.scaled hkey (hpeak ▸ hpos), hpeak, div_self hpos.ne', max_eq_right zero_le_one, min_self]
  ring

end Gives

end EdgeScales

end FlowTree
