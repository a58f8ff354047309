import FlowTree.Scene
import Mathlib.Data.String.Basic
import Mathlib.Data.List.Basic

/-!
# Elements by their keys

The elements of a scene stand in the order of their keys, so each key names at most one element, and
what a directive or the clock does to a scene is known key by key.

* **`ElementKey.before_trans`** and its companions say that keys are ordered strictly and totally.
* **`Scene.Ordered`** is the invariant of a scene.
* **`Scene.get?_modify`**, **`Scene.get?_add`** and **`Scene.Ordered.get?_advance`** say what is found
  under each key after a change.
-/

namespace FlowTree

attribute [ext] SceneElement

/-! ### The order of the keys -/

namespace ElementKey

theorem rank_inj {a b : ElementKind} (h : a.rank = b.rank) : a = b := by
  cases a <;> cases b <;> first | rfl | cases h

theorem before_iff {a b : ElementKey} :
    a.before b = true ↔ a.kind.rank < b.kind.rank ∨ a.kind.rank = b.kind.rank ∧ a.id < b.id := by
  simp [before]

theorem not_before_self (a : ElementKey) : ¬ a.before a = true := by
  rw [before_iff]
  rintro (h | ⟨-, h⟩)
  · exact lt_irrefl _ h
  · exact lt_irrefl a.id h

theorem before_trans {a b c : ElementKey} (hab : a.before b = true) (hbc : b.before c = true) :
    a.before c = true := by
  rw [before_iff] at *
  rcases hab with hab | ⟨hab, hid⟩
  · rcases hbc with hbc | ⟨hbc, -⟩ <;> exact Or.inl (by omega)
  · rcases hbc with hbc | ⟨hbc, hid'⟩
    · exact Or.inl (by omega)
    · exact Or.inr ⟨hab.trans hbc, lt_trans hid hid'⟩

theorem before_of_not_before {a b : ElementKey} (hne : a ≠ b) (h : ¬ a.before b = true) :
    b.before a = true := by
  rw [before_iff] at *
  push Not at h
  rcases Nat.lt_or_ge b.kind.rank a.kind.rank with hlt | hge
  · exact Or.inl hlt
  · have hrank : a.kind.rank = b.kind.rank := le_antisymm hge h.1
    refine Or.inr ⟨hrank.symm, lt_of_le_of_ne (h.2 hrank) ?_⟩
    intro hid
    have hkind := rank_inj hrank
    cases a
    cases b
    exact hne (congrArg₂ ElementKey.mk hkind hid.symm)

end ElementKey

namespace Scene

variable {α : Type}

/-- The elements stand in the order of drawing, no two with one key. -/
def Ordered (s : Scene α) : Prop := s.elements.Pairwise fun a b => a.key.before b.key = true

/-! ### Finding an element -/

theorem key_of_get? {s : Scene α} {key : ElementKey} {e : SceneElement α}
    (h : s.get? key = some e) : e.key = key := by
  simpa using List.find?_some h

theorem get?_eq_none_iff {s : Scene α} {key : ElementKey} :
    s.get? key = none ↔ ∀ e ∈ s.elements, e.key ≠ key := by
  simp [get?]

theorem isSome_get?_iff {s : Scene α} {key : ElementKey} :
    (s.get? key).isSome = true ↔ key ∈ s.elements.map (·.key) := by
  simp [get?, List.find?_isSome]

/-- In an ordered scene a key finds every element that has it. -/
theorem Ordered.get?_eq_some_iff {s : Scene α} (h : s.Ordered) {key : ElementKey}
    {e : SceneElement α} : s.get? key = some e ↔ e ∈ s.elements ∧ e.key = key := by
  constructor
  · intro hfound
    exact ⟨List.mem_of_find?_eq_some hfound, key_of_get? hfound⟩
  · rintro ⟨hmem, rfl⟩
    obtain ⟨l, r, hlr⟩ := List.append_of_mem hmem
    rw [get?, List.find?_eq_some_iff_append]
    refine ⟨by simp, l, r, hlr, ?_⟩
    intro a ha
    rw [Ordered, hlr, List.pairwise_append] at h
    have hbefore := h.2.2 a ha e List.mem_cons_self
    simp only [Bool.not_eq_true', beq_eq_false_iff_ne, ne_eq]
    intro heq
    rw [heq] at hbefore
    exact ElementKey.not_before_self _ hbefore

theorem Ordered.nodup_keys {s : Scene α} (h : s.Ordered) : (s.elements.map (·.key)).Nodup := by
  rw [List.nodup_iff_pairwise_ne, List.pairwise_map]
  refine h.imp ?_
  intro a b hab heq
  rw [heq] at hab
  exact ElementKey.not_before_self _ hab

theorem ordered_empty [Scalar α] : (empty : Scene α).Ordered := List.Pairwise.nil

/-! ### Changing an element -/

theorem Ordered.modify {s : Scene α} (h : s.Ordered) (key : ElementKey)
    {f : SceneElement α → SceneElement α} (hf : ∀ e, (f e).key = e.key) :
    (s.modify key f).Ordered := by
  rw [Ordered, Scene.modify, List.pairwise_map]
  refine h.imp ?_
  intro a b hab
  split <;> split <;> simpa only [hf] using hab

theorem get?_modify (s : Scene α) (key : ElementKey) {f : SceneElement α → SceneElement α}
    (hf : ∀ e, (f e).key = e.key) (k : ElementKey) :
    (s.modify key f).get? k = if k = key then (s.get? k).map f else s.get? k := by
  have hkeep : ((fun e : SceneElement α => e.key == k) ∘
      fun e => if e.key == key then f e else e) = fun e => e.key == k := by
    funext e
    simp only [Function.comp_apply]
    split
    · rw [hf]
    · rfl
  rw [get?, Scene.modify, List.find?_map, hkeep, ← get?]
  cases hfound : s.get? k with
  | none => split <;> rfl
  | some e =>
    have hkey := key_of_get? hfound
    by_cases hk : k = key
    · simp [hkey, hk]
    · simp [hkey, hk]

theorem modify_of_get?_eq_none {s : Scene α} {k : ElementKey} (h : s.get? k = none)
    (f : SceneElement α → SceneElement α) : s.modify k f = s := by
  rw [modify]
  congr 1
  refine (List.map_congr_left fun e he => ?_).trans s.elements.map_id
  exact if_neg (by simpa using get?_eq_none_iff.mp h e he)

/-! ### One more element -/

theorem mem_place {e a : SceneElement α} {l : List (SceneElement α)} :
    a ∈ place e l ↔ a = e ∨ a ∈ l := by
  induction l with
  | nil => simp [place]
  | cons b l ih =>
    rw [place]
    split
    · rw [List.mem_cons]
    · rw [List.mem_cons, ih, List.mem_cons, or_left_comm]

theorem pairwise_place {e : SceneElement α} {l : List (SceneElement α)}
    (h : l.Pairwise fun a b => a.key.before b.key = true) (he : ∀ a ∈ l, a.key ≠ e.key) :
    (place e l).Pairwise fun a b => a.key.before b.key = true := by
  induction l with
  | nil => exact List.pairwise_singleton _ _
  | cons b l ih =>
    have hb := List.pairwise_cons.mp h
    rw [place]
    split
    · next hbefore =>
      refine List.pairwise_cons.mpr ⟨?_, h⟩
      intro a ha
      rcases List.mem_cons.mp ha with rfl | ha
      · exact hbefore
      · exact ElementKey.before_trans hbefore (hb.1 a ha)
    · next hbefore =>
      refine List.pairwise_cons.mpr
        ⟨?_, ih hb.2 fun a ha => he a (List.mem_cons_of_mem b ha)⟩
      intro a ha
      rcases mem_place.mp ha with rfl | ha
      · exact ElementKey.before_of_not_before (he b List.mem_cons_self).symm hbefore
      · exact hb.1 a ha

theorem find?_place {e : SceneElement α} {l : List (SceneElement α)}
    (he : ∀ a ∈ l, a.key ≠ e.key) (k : ElementKey) :
    (place e l).find? (·.key == k) = if k = e.key then some e else l.find? (·.key == k) := by
  induction l with
  | nil =>
    by_cases hk : k = e.key
    · simp [place, hk]
    · simp [place, hk, Ne.symm hk]
  | cons b l ih =>
    rw [place]
    split
    · by_cases hk : k = e.key
      · simp [hk]
      · rw [List.find?_cons_of_neg (by simpa using Ne.symm hk), if_neg hk]
    · by_cases hb : b.key = k
      · have hk : k ≠ e.key := hb ▸ he b List.mem_cons_self
        rw [List.find?_cons_of_pos (by simpa using hb), List.find?_cons_of_pos (by simpa using hb),
          if_neg hk]
      · rw [List.find?_cons_of_neg (by simpa using hb), List.find?_cons_of_neg (by simpa using hb)]
        exact ih fun a ha => he a (List.mem_cons_of_mem b ha)

theorem Ordered.add {s : Scene α} (h : s.Ordered) {e : SceneElement α}
    (he : s.get? e.key = none) : (s.add e).Ordered :=
  pairwise_place h (get?_eq_none_iff.mp he)

theorem get?_add {s : Scene α} {e : SceneElement α} (he : s.get? e.key = none) (k : ElementKey) :
    (s.add e).get? k = if k = e.key then some e else s.get? k :=
  find?_place (get?_eq_none_iff.mp he) k

/-! ### Time -/

variable [Scalar α]

theorem key_advance {ms : α} {e e' : SceneElement α} (h : e.advance ms = some e') :
    e'.key = e.key := by
  simp only [SceneElement.advance] at h
  split at h
  · cases h
    rfl
  · split at h
    · split at h <;> cases h
      rfl
    · cases h
      rfl

theorem Ordered.advance {s : Scene α} (h : s.Ordered) (ms : α) : (s.advance ms).Ordered := by
  refine List.Pairwise.filterMap _ ?_ h
  intro a b hab a' ha b' hb
  rwa [key_advance ha, key_advance hb]

/-- The clock moves every element on its own. -/
theorem Ordered.get?_advance {s : Scene α} (h : s.Ordered) (ms : α) (k : ElementKey) :
    (s.advance ms).get? k =
      (s.get? k).bind (SceneElement.advance (Scalar.max ms Scalar.zero)) := by
  apply Option.ext
  intro e'
  rw [(h.advance ms).get?_eq_some_iff, Option.bind_eq_some_iff]
  constructor
  · rintro ⟨hmem, hkey⟩
    obtain ⟨e, he, hadvance⟩ := List.mem_filterMap.mp hmem
    exact ⟨e, h.get?_eq_some_iff.mpr ⟨he, (key_advance hadvance).symm.trans hkey⟩, hadvance⟩
  · rintro ⟨e, hfound, hadvance⟩
    obtain ⟨he, hkey⟩ := h.get?_eq_some_iff.mp hfound
    exact ⟨List.mem_filterMap.mpr ⟨e, he, hadvance⟩, (key_advance hadvance).trans hkey⟩

end Scene

end FlowTree
