import FlowTree.Proofs.Exact
import FlowTree.Proofs.Scene.Passes

/-!
# Scenes come to rest

With exact numbers a transition ends at its goal, so time changes nothing in what the elements come to,
and one round of settling brings all of them there.

* **`Visual.interpolate_one`** says that the end of a transition is its goal.
* **`Scene.Ordered.goal?_advance`** says that time leaves all goals as they are.
* **`Scene.Leaving`** says that every element about to go is on its way.
* **`Scene.isAnimating_settle`** and **`Scene.mem_settle_iff`** say what a settled scene consists of.
-/

namespace FlowTree

open Scalar

/-! ### The end of a transition -/

theorem Point.lerp_one (p q : Point ℚ) : p.lerp q 1 = q := by
  rw [Point.lerp, Scalar.lerp_one, Scalar.lerp_one]

theorem Curve.lerp_one (c d : Curve ℚ) : c.lerp d 1 = d := by
  rw [Curve.lerp, Point.lerp_one, Point.lerp_one]

theorem Visual.interpolate_one (a b : Visual ℚ) : a.interpolate b 1 = b := by
  cases a <;> cases b <;>
    simp only [interpolate, clampUnit_one, Point.lerp_one, Curve.lerp_one, Scalar.lerp_one]

namespace Transition

theorem progress_le_one (t : Transition ℚ) : t.progress ≤ 1 := by
  rw [progress]
  split
  · exact le_refl _
  · rw [min_rat]
    exact min_le_right _ _

/-- A transition whose time is over has come to its end. -/
theorem progress_eq_one {t : Transition ℚ} (h : t.duration ≤ t.elapsed) : t.progress = 1 := by
  rw [progress]
  split
  · rfl
  · next hpos =>
    rw [le_rat, decide_eq_true_eq, not_le] at hpos
    rw [min_rat]
    refine min_eq_right ?_
    rw [one_rat, le_div_iff₀ hpos, one_mul]
    exact h

end Transition

namespace SceneElement

/-- Time leaves what an element comes to as it is. -/
theorem goal?_advance (ms : ℚ) (e : SceneElement ℚ) :
    (e.advance ms).bind SceneElement.goal? = e.goal? := by
  obtain ⟨key, visual, exiting, transition⟩ := e
  cases transition with
  | none => rfl
  | some t =>
    rw [advance]
    simp only
    split
    · next hover =>
      have hshare : ({ t with elapsed := t.elapsed + ms } : Transition ℚ).progress = 1 := by
        rw [le_rat, decide_eq_true_eq] at hover
        exact le_antisymm (Transition.progress_le_one _) hover
      cases exiting with
      | true => rfl
      | false =>
        rw [hshare]
        simp only [Bool.false_eq_true, if_false, Visual.interpolate_one]
        rfl
    · cases exiting <;> rfl

/-- Enough time ends every transition. -/
theorem transition_advance {ms : ℚ} {e e' : SceneElement ℚ}
    (hms : ∀ t, e.transition = some t → t.remaining ≤ ms) (h : e.advance ms = some e') :
    e'.transition = none := by
  rw [advance] at h
  split at h
  · next hnone =>
    cases h
    exact hnone
  · next t ht =>
    have hover : ({ t with elapsed := t.elapsed + ms } : Transition ℚ).progress = 1 := by
      have hremaining := hms t ht
      rw [Transition.remaining] at hremaining
      refine Transition.progress_eq_one ?_
      show t.duration ≤ t.elapsed + ms
      linarith
    simp only [hover, le_rat, one_rat, le_refl, decide_true, if_true] at h
    split at h
    · cases h
    · cases h
      rfl

end SceneElement

namespace Scene

/-! ### Goals over time -/

theorem Ordered.goal?_advance {s : Scene ℚ} (h : s.Ordered) (ms : ℚ) (k : ElementKey) :
    (s.advance ms).goal? k = s.goal? k := by
  rw [goal?, goal?, h.get?_advance]
  cases s.get? k with
  | none => rfl
  | some e => exact SceneElement.goal?_advance _ e

theorem goal?_applyPass {s : Scene ℚ} (h : s.Ordered) {pass : Pass ℚ}
    (hnodup : (pass.map (·.key)).Nodup) {d : Directive ℚ} (hd : d ∈ pass) :
    (s.applyPass pass).goal? d.key = d.goal? := by
  rw [applyPass, (h.foldl pass).goal?_advance, goal?_foldl s hnodup hd]

theorem goal?_applyPass_of_not_mem {s : Scene ℚ} (h : s.Ordered) {pass : Pass ℚ}
    {k : ElementKey} (hk : k ∉ pass.map (·.key)) : (s.applyPass pass).goal? k = s.goal? k := by
  rw [applyPass, (h.foldl pass).goal?_advance, goal?_foldl_of_not_mem s hk]

/-! ### Elements about to go -/

/-- Every element about to go is on its way. -/
def Leaving {α : Type} (s : Scene α) : Prop :=
  ∀ k e, s.get? k = some e → e.exiting = true → e.transition.isSome = true

theorem leaving_empty : (empty : Scene ℚ).Leaving := by
  intro k e he
  simp [get?, empty] at he

theorem Leaving.apply {s : Scene ℚ} (h : s.Leaving) (d : Directive ℚ) : (s.apply d).Leaving := by
  intro k e he hexiting
  by_cases hk : k = d.key
  · rw [hk, get?_apply_key] at he
    -- all but an element that is placed at once are on their way
    cases hfound : s.get? d.key with
    | some e' =>
      rw [hfound] at he
      cases he
      cases d <;> rfl
    | none =>
      rw [hfound] at he
      cases d with
      | create key source goal duration =>
        cases he
        rfl
      | update key goal duration =>
        cases he
        cases hexiting
      | remove key toward duration => cases he
  · rw [get?_apply_of_ne s hk] at he
    exact h k e he hexiting

theorem Leaving.foldl {s : Scene ℚ} (h : s.Leaving) (pass : Pass ℚ) :
    (pass.foldl Scene.apply s).Leaving := by
  induction pass generalizing s with
  | nil => exact h
  | cons d pass ih => exact ih (h.apply d)

theorem Leaving.advance {s : Scene ℚ} (ho : s.Ordered) (h : s.Leaving) (ms : ℚ) :
    (s.advance ms).Leaving := by
  intro k e' he' hexiting
  rw [ho.get?_advance, Option.bind_eq_some_iff] at he'
  obtain ⟨e, he, hadvance⟩ := he'
  simp only [SceneElement.advance] at hadvance
  split at hadvance
  · obtain rfl := Option.some.inj hadvance
    exact h k e he hexiting
  · split at hadvance
    · split at hadvance
      · cases hadvance
      · next hstays =>
        cases hadvance
        exact absurd hexiting hstays
    · cases hadvance
      rfl

theorem Leaving.applyPass {s : Scene ℚ} (ho : s.Ordered) (h : s.Leaving) (pass : Pass ℚ) :
    (s.applyPass pass).Leaving :=
  (h.foldl pass).advance (ho.foldl pass) _

/-! ### Settling -/

theorem remaining_le {s : Scene ℚ} {e : SceneElement ℚ} (he : e ∈ s.elements)
    {t : Transition ℚ} (ht : e.transition = some t) : t.remaining ≤ s.longestRemaining := by
  rw [longestRemaining, Scalar.max_eq]
  refine (Scalar.le_foldl_max _ _).2 _ (List.mem_filterMap.mpr ⟨e, he, ?_⟩)
  rw [ht]
  rfl

/-- After as much time as the longest transition asks for, nothing moves. -/
theorem isAnimating_advance_longest (s : Scene ℚ) :
    (s.advance (Scalar.max s.longestRemaining Scalar.one)).isAnimating = false := by
  rw [isAnimating, List.any_eq_false]
  intro e' he'
  obtain ⟨e, he, hadvance⟩ := List.mem_filterMap.mp he'
  have hnone := SceneElement.transition_advance (fun t ht => ?_) hadvance
  · rw [SceneElement.isAnimating, hnone]
    exact Bool.false_ne_true
  · refine (remaining_le he ht).trans ?_
    rw [max_rat, max_rat]
    exact (le_max_left _ _).trans (le_max_left _ _)

theorem settle_of_still {s : Scene ℚ} (h : s.isAnimating = false) : s.settle = s := by
  rw [settle, settleWithin, h, if_neg Bool.false_ne_true]

theorem settle_of_moving {s : Scene ℚ} (h : s.isAnimating = true) :
    s.settle = s.advance (Scalar.max s.longestRemaining Scalar.one) := by
  rw [settle, settleWithin, if_pos h, settleWithin, isAnimating_advance_longest,
    if_neg Bool.false_ne_true]

/-- Settling is one step of the clock at most. -/
theorem settle_cases (s : Scene ℚ) :
    s.settle.isAnimating = false ∧ (s.settle = s ∨ ∃ ms, s.settle = s.advance ms) := by
  cases h : s.isAnimating with
  | true =>
    rw [settle_of_moving h]
    exact ⟨isAnimating_advance_longest s, Or.inr ⟨_, rfl⟩⟩
  | false =>
    rw [settle_of_still h]
    exact ⟨h, Or.inl rfl⟩

theorem isAnimating_settle (s : Scene ℚ) : s.settle.isAnimating = false := s.settle_cases.1

theorem Ordered.settle {s : Scene ℚ} (h : s.Ordered) : s.settle.Ordered := by
  rcases s.settle_cases.2 with heq | ⟨ms, heq⟩ <;> rw [heq]
  · exact h
  · exact h.advance ms

theorem Leaving.settle {s : Scene ℚ} (ho : s.Ordered) (h : s.Leaving) : s.settle.Leaving := by
  rcases s.settle_cases.2 with heq | ⟨ms, heq⟩ <;> rw [heq]
  · exact h
  · exact h.advance ho ms

theorem Ordered.goal?_settle {s : Scene ℚ} (h : s.Ordered) (k : ElementKey) :
    s.settle.goal? k = s.goal? k := by
  rcases s.settle_cases.2 with heq | ⟨ms, heq⟩ <;> rw [heq]
  exact h.goal?_advance ms k

/-- **A settled scene** consists of what its elements come to, at rest. -/
theorem mem_settle_iff {s : Scene ℚ} (ho : s.Ordered) (hl : s.Leaving) {e : SceneElement ℚ} :
    e ∈ s.settle.elements ↔
      s.goal? e.key = some e.visual ∧ e.exiting = false ∧ e.transition = none := by
  rw [← ho.goal?_settle, goal?, Option.bind_eq_some_iff]
  have hrest : ∀ e' ∈ s.settle.elements, e'.transition = none := by
    intro e' he'
    have hstill := List.any_eq_false.mp s.isAnimating_settle e' he'
    rwa [SceneElement.isAnimating, Option.isSome_iff_ne_none, not_not] at hstill
  have hstays : ∀ e' ∈ s.settle.elements, e'.exiting = false := by
    intro e' he'
    by_contra hexiting
    have hfound := ho.settle.get?_eq_some_iff.mpr ⟨he', rfl⟩
    have hmoves := hl.settle ho e'.key e' hfound (by simpa using hexiting)
    rw [hrest e' he'] at hmoves
    exact Bool.false_ne_true hmoves
  constructor
  · intro he
    refine ⟨⟨e, ho.settle.get?_eq_some_iff.mpr ⟨he, rfl⟩, ?_⟩, hstays e he, hrest e he⟩
    rw [SceneElement.goal?, hstays e he, SceneElement.target, hrest e he]
    rfl
  · rintro ⟨⟨e', he', hgoal⟩, hexiting, htransition⟩
    obtain ⟨hmem, hkey⟩ := ho.settle.get?_eq_some_iff.mp he'
    rw [SceneElement.goal?, hstays e' hmem, SceneElement.target, hrest e' hmem] at hgoal
    have hvisual : e'.visual = e.visual := by simpa using hgoal
    have heq : e' = e := SceneElement.ext hkey hvisual ((hstays e' hmem).trans hexiting.symm)
      ((hrest e' hmem).trans htransition.symm)
    exact heq ▸ hmem

end Scene

end FlowTree
