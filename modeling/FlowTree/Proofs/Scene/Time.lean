import FlowTree.Proofs.Scene.Rest
import Mathlib.Data.List.Induction

/-!
# Time in scenes

A transition knows where it began and how long ago, so what it shows at a moment does not depend on the
moments at which somebody looked before.  Times add up, and after enough time nothing moves.

* **`SceneElement.advance_of_over`** and **`SceneElement.advance_of_running`** are the two things that time
  does to a transition.
* **`Scene.Act`** lists what can happen to a scene, and **`Scene.after`** is the scene after some acts;
  **`Scene.leaving_after`** says that every element about to go is on its way.
* **`SceneElement.advance_bind`** says that times add up for one element, **`Scene.advance_advance`** says so
  for a scene; **`Scene.frames_ignore_cuts`** is what follows for any cut of a time.
* **`Scene.EndsIn`** is the loop that waits until nothing moves, without a bound for its rounds;
  **`Scene.endsIn_iff`** says that it ends in the settled scene, **`Scene.settling_ends`** what is left then.
-/

namespace FlowTree

open Scalar

/-! ### The two things that time does -/

/-- The transition some time later. -/
def Transition.wait (t : Transition ℚ) (ms : ℚ) : Transition ℚ := { t with elapsed := t.elapsed + ms }

namespace Transition

theorem wait_wait (t : Transition ℚ) (a b : ℚ) : (t.wait a).wait b = t.wait (a + b) := by
  simp only [wait, add_assoc]

@[simp] theorem wait_zero (t : Transition ℚ) : t.wait 0 = t := by
  simp only [wait, add_zero]

/-- A transition is over if it takes no time or its time has passed. -/
theorem one_le_progress_iff {t : Transition ℚ} :
    1 ≤ t.progress ↔ t.duration ≤ 0 ∨ t.duration ≤ t.elapsed := by
  rcases le_or_gt t.duration 0 with hnone | hpos
  · simp [progress, hnone]
  · have hquotient : t.progress = Min.min (t.elapsed / t.duration) 1 := by
      rw [progress, le_rat, zero_rat, decide_eq_false (not_le.mpr hpos), min_rat, one_rat]
      rfl
    rw [hquotient, le_min_iff, and_iff_left (le_refl _), le_div_iff₀ hpos, one_mul]
    simp [not_le.mpr hpos]

/-- What is over stays over. -/
theorem one_le_progress_wait {t : Transition ℚ} {a b : ℚ} (hb : 0 ≤ b)
    (h : 1 ≤ (t.wait a).progress) : 1 ≤ (t.wait (a + b)).progress := by
  rw [one_le_progress_iff] at h ⊢
  refine h.imp id fun hpassed => hpassed.trans ?_
  show t.elapsed + a ≤ t.elapsed + (a + b)
  linarith

end Transition

namespace SceneElement

variable {e : SceneElement ℚ} {t : Transition ℚ} {ms : ℚ}

theorem advance_of_idle (h : e.transition = none) : e.advance ms = some e := by
  rw [advance, h]

/-- A transition that is over leaves its goal, or nothing if it was an exit. -/
theorem advance_of_over (h : e.transition = some t) (hover : 1 ≤ (t.wait ms).progress) :
    e.advance ms =
      if e.exiting then none else some { e with visual := t.goal, transition := none } := by
  have hshare : (t.wait ms).progress = 1 := le_antisymm (Transition.progress_le_one _) hover
  rw [Transition.wait] at hshare
  simp only [advance, h, hshare, Visual.interpolate_one]
  simp

/-- A transition that goes on shows a share of its way. -/
theorem advance_of_running (h : e.transition = some t) (hruns : (t.wait ms).progress < 1) :
    e.advance ms = some
      { e with
        visual := t.source.interpolate t.goal (t.wait ms).progress
        transition := some (t.wait ms) } := by
  rw [Transition.wait] at hruns ⊢
  simp only [advance, h, le_rat, one_rat, decide_eq_false (not_le.mpr hruns)]
  simp

end SceneElement

/-! ### Acts -/

namespace Scene

section Acts

variable {α : Type}

/-- What can happen to a scene: one directive, a whole pass, or time. -/
inductive Act (α : Type) where
  | apply (d : Directive α)
  | pass (p : Pass α)
  | wait (ms : α)

/-- The act leaves no directive without the moment that ends a pass. -/
def Act.isWhole : Act α → Bool
  | .apply _ => false
  | _ => true

variable [Scalar α]

/-- The scene after one act. -/
def perform (s : Scene α) : Act α → Scene α
  | .apply d => s.apply d
  | .pass p => s.applyPass p
  | .wait ms => s.advance ms

/-- The scene that some acts make of the empty one. -/
def after (acts : List (Act α)) : Scene α := acts.foldl perform empty

theorem after_concat (acts : List (Act α)) (act : Act α) :
    after (acts ++ [act]) = (after acts).perform act := by
  rw [after, List.foldl_concat, after]

/-- What holds of the empty scene and outlasts every act holds after any acts. -/
theorem after_keeps {P : Scene α → Prop} (hempty : P empty)
    (hperform : ∀ s act, P s → P (s.perform act)) (acts : List (Act α)) : P (after acts) := by
  induction acts using List.reverseRecOn with
  | nil => exact hempty
  | append_singleton acts act ih =>
    rw [after_concat]
    exact hperform _ act ih

theorem ordered_after (acts : List (Act α)) : (after acts).Ordered := by
  refine after_keeps ordered_empty (fun s act h => ?_) acts
  cases act with
  | apply d => exact h.apply d
  | pass p => exact h.applyPass p
  | wait ms => exact h.advance ms

end Acts

/-- After any acts every element that is about to go is on its way. -/
theorem leaving_after (acts : List (Act ℚ)) {e : SceneElement ℚ} (he : e ∈ (after acts).elements)
    (hexiting : e.exiting = true) : e.isAnimating = true := by
  have hboth : (after acts).Ordered ∧ (after acts).Leaving := by
    refine after_keeps (P := fun s => s.Ordered ∧ s.Leaving) ⟨ordered_empty, leaving_empty⟩
      (fun s act h => ?_) acts
    obtain ⟨ho, hleaving⟩ := h
    cases act with
    | apply d => exact ⟨ho.apply d, hleaving.apply d⟩
    | pass p => exact ⟨ho.applyPass p, hleaving.applyPass ho p⟩
    | wait ms => exact ⟨ho.advance ms, hleaving.advance ho ms⟩
  exact hboth.2 e.key e (hboth.1.get?_eq_some_iff.mpr ⟨he, rfl⟩) hexiting

end Scene

/-! ### Times add up -/

namespace SceneElement

/-- **Times add up for one element**, whether its transition ends in the first time, in the second one or
in neither. -/
theorem advance_bind (e : SceneElement ℚ) {a b : ℚ} (hb : 0 ≤ b) :
    (e.advance a).bind (advance b) = e.advance (a + b) := by
  cases ht : e.transition with
  | none => rw [advance_of_idle ht, Option.bind_some, advance_of_idle ht, advance_of_idle ht]
  | some t =>
    rcases le_or_gt 1 (t.wait a).progress with hover | hruns
    · rw [advance_of_over ht hover, advance_of_over ht (Transition.one_le_progress_wait hb hover)]
      split
      · rfl
      · rw [Option.bind_some, advance_of_idle rfl]
    · rw [advance_of_running ht hruns, Option.bind_some]
      rcases le_or_gt 1 (t.wait (a + b)).progress with hover | hruns'
      · rw [advance_of_over ht hover, advance_of_over rfl (by rwa [Transition.wait_wait])]
        rfl
      · rw [advance_of_running ht hruns', advance_of_running rfl (by rwa [Transition.wait_wait])]
        simp only [Transition.wait_wait]
        rfl

end SceneElement

namespace Scene

theorem advance_eq {ms : ℚ} (hms : 0 ≤ ms) (s : Scene ℚ) :
    s.advance ms = ⟨s.elements.filterMap (SceneElement.advance ms), s.clock + ms⟩ := by
  simp only [advance, max_rat, zero_rat, max_eq_left hms]

theorem advance_advance (s : Scene ℚ) {a b : ℚ} (ha : 0 ≤ a) (hb : 0 ≤ b) :
    (s.advance a).advance b = s.advance (a + b) := by
  rw [advance_eq ha, advance_eq hb, advance_eq (add_nonneg ha hb), List.filterMap_filterMap, add_assoc]
  congr 2
  funext e
  exact e.advance_bind hb

theorem foldl_advance (cut : List ℚ) (s : Scene ℚ) {ms : ℚ} (hms : 0 ≤ ms)
    (hcut : ∀ ms' ∈ cut, 0 ≤ ms') : cut.foldl Scene.advance (s.advance ms) = s.advance (ms + cut.sum) := by
  induction cut generalizing ms with
  | nil => rw [List.foldl_nil, List.sum_nil, add_zero]
  | cons ms' cut ih =>
    have hms' : 0 ≤ ms' := hcut ms' List.mem_cons_self
    rw [List.foldl_cons, s.advance_advance hms hms', List.sum_cons, ← add_assoc]
    exact ih (add_nonneg hms hms') fun x hx => hcut x (List.mem_cons_of_mem ms' hx)

/-- **Frames ignore how time was cut.**  With exact numbers two times one after the other are their sum, and
however a time is cut into steps, the scene at the end is the same in all: elements, what they show and
come to, which of them are about to go, what is left of their transitions, and the clock.  So it is for
every scene, in particular for those that directives, passes and time lead to. -/
theorem frames_ignore_cuts (s : Scene ℚ) {a b : ℚ} (ha : 0 ≤ a) (hb : 0 ≤ b) :
    (s.advance a).advance b = s.advance (a + b) ∧
      ∀ cut : List ℚ, cut ≠ [] → (∀ ms ∈ cut, 0 ≤ ms) → cut.sum = a + b →
        cut.foldl Scene.advance s = s.advance (a + b) := by
  refine ⟨s.advance_advance ha hb, ?_⟩
  intro cut hsome hcut hsum
  cases cut with
  | nil => exact absurd rfl hsome
  | cons ms cut =>
    rw [List.sum_cons] at hsum
    rw [List.foldl_cons, ← hsum]
    exact foldl_advance cut s (hcut ms List.mem_cons_self)
      fun x hx => hcut x (List.mem_cons_of_mem ms hx)

/-- A well at some place of the first axis. -/
def wellAt (x : ℚ) : Visual ℚ :=
  .node
    { position := ⟨x, 0⟩, radius := 15, opacity := 1, label := "W", labelAnchor := .start, labelDx := 21,
      valueText := "NA", unitText := "", tooltip := "", kind := .well, hasChildren := false,
      collapsed := false }

/-- Two wells come; then one of them is asked to go and the other one to move at once. -/
def parting : List (Act ℚ) :=
  [.pass [.create ⟨.node, "R_V"⟩ (wellAt 0) (wellAt 100) 200,
      .create ⟨.node, "R_W"⟩ (wellAt 0) (wellAt 100) 200],
    .wait 250, .apply (.remove ⟨.node, "R_V"⟩ ⟨0, 0⟩ 150),
    .apply (.update ⟨.node, "R_W"⟩ (wellAt 50) 0)]

/-- One well is gone at the very end of the second time, and the other one has come to rest in the first. -/
theorem frames_ignore_cuts_parting :
    ((0 : ℚ) ≤ 100 ∧ (0 : ℚ) ≤ 50) ∧ ((after parting).advance 100).advance 50 = (after parting).advance 150 ∧
      [30, 0, 120].foldl Scene.advance (after parting) = (after parting).advance 150 ∧
      ((after parting).advance 100).elements.map (·.isAnimating) = [true, false] ∧
      ((after parting).advance 150).elements.map (·.key.id) = ["R_W"] := by
  have hsum : (100 + 50 : ℚ) = 150 := by norm_num
  obtain ⟨htwo, hcut⟩ := hsum ▸ frames_ignore_cuts (after parting) (a := 100) (b := 50) (by norm_num) (by norm_num)
  refine ⟨by norm_num, htwo, hcut [30, 0, 120] (by simp) (by simp) (by norm_num), ?_, ?_⟩
  · decide +kernel
  · decide +kernel

end Scene

/-! ### Enough time -/

namespace SceneElement

variable {e : SceneElement ℚ} {ms : ℚ}

/-- The element at rest, with the picture that it was coming to. -/
def arrived (e : SceneElement ℚ) : SceneElement ℚ := { key := e.key, visual := e.target }

/-- After as much time as the transition asks for, the element has arrived, or is gone if it was about to
go. -/
theorem advance_of_remaining_le (hleaving : e.exiting = true → e.isAnimating = true)
    (hms : ∀ t, e.transition = some t → t.remaining ≤ ms) :
    e.advance ms = if e.exiting then none else some e.arrived := by
  cases ht : e.transition with
  | none =>
    have hstays : e.exiting = false := by
      rw [← Bool.not_eq_true]
      intro hexiting
      simpa [isAnimating, ht] using hleaving hexiting
    rw [advance_of_idle ht, hstays, if_neg Bool.false_ne_true]
    exact congrArg some (SceneElement.ext rfl (by simp [arrived, target, ht]) hstays ht)
  | some t =>
    have hover : 1 ≤ (t.wait ms).progress := by
      refine Transition.one_le_progress_iff.mpr (Or.inr ?_)
      have hremaining := hms t ht
      show t.duration ≤ t.elapsed + ms
      rw [Transition.remaining] at hremaining
      linarith
    rw [advance_of_over ht hover]
    split
    · rfl
    · next hstays =>
      rw [Bool.not_eq_true] at hstays
      exact congrArg some (SceneElement.ext rfl (by simp [arrived, target, ht]) hstays rfl)

end SceneElement

namespace Scene

/-- After as much time as every transition asks for, the elements that were to stay have arrived, and no
others are left. -/
theorem elements_advance {s : Scene ℚ} {ms : ℚ}
    (hleaving : ∀ e ∈ s.elements, e.exiting = true → e.isAnimating = true)
    (hms : ∀ e ∈ s.elements, ∀ t, e.transition = some t → t.remaining ≤ ms) :
    (s.advance ms).elements = (s.elements.filter fun e => !e.exiting).map SceneElement.arrived := by
  have hlong : ∀ e ∈ s.elements, e.advance (Scalar.max ms Scalar.zero) =
      if e.exiting then none else some e.arrived := by
    intro e he
    refine SceneElement.advance_of_remaining_le (hleaving e he) fun t ht => (hms e he t ht).trans ?_
    rw [max_rat]
    exact le_max_left _ _
  show s.elements.filterMap _ = _
  rw [List.filterMap_congr hlong]
  generalize s.elements = l
  induction l with
  | nil => rfl
  | cons e l ih => cases hexiting : e.exiting <;> simp [hexiting, ih]

/-! ### The loop -/

/-- As long as something moves, the clock goes on by what the longest transition asks for, at least by one
millisecond; the loop ends in the second scene. -/
inductive EndsIn {α : Type} [Scalar α] : Scene α → Scene α → Prop
  | still {s : Scene α} (rests : s.isAnimating = false) : EndsIn s s
  | round {s s' : Scene α} (moves : s.isAnimating = true)
      (ends : EndsIn (s.advance (Scalar.max s.longestRemaining Scalar.one)) s') : EndsIn s s'

/-- **The loop ends** in the settled scene and in no other one, after one round at most. -/
theorem endsIn_iff {s s' : Scene ℚ} : s.EndsIn s' ↔ s' = s.settle := by
  have hround (s : Scene ℚ) := isAnimating_advance_longest s
  constructor
  · intro h
    induction h with
    | still rests => rw [settle_of_still rests]
    | round moves _ ih => rw [ih, settle_of_still (hround _), settle_of_moving moves]
  · rintro rfl
    cases h : s.isAnimating with
    | true =>
      rw [settle_of_moving h]
      exact .round h (.still (hround s))
    | false =>
      rw [settle_of_still h]
      exact .still h

/-- The first scene settles into the second one: the loop ends there and nothing moves; the elements that
were to stay have arrived, and no others are left; and so it is after any time that no transition
outlasts. -/
structure SettlesInto (s s' : Scene ℚ) : Prop where
  ends : ∀ s'', s.EndsIn s'' ↔ s'' = s'
  still : s'.isAnimating = false
  elements : s'.elements = (s.elements.filter fun e => !e.exiting).map SceneElement.arrived
  advance : ∀ ms : ℚ, 0 < ms → (∀ e ∈ s.elements, ∀ t, e.transition = some t → t.remaining ≤ ms) →
    s'.elements = (s.advance ms).elements

/-- **Settling ends.**  Whatever directives, passes and moments have led to a scene, no element that is about
to go is idle, and the scene settles: just the elements that were about to go are gone, and all others
show what they were coming to. -/
theorem settling_ends (acts : List (Act ℚ)) :
    (after acts).SettlesInto (after acts).settle ∧
      ∀ e ∈ (after acts).elements, e.exiting = true → e.isAnimating = true := by
  have hleaving : ∀ e ∈ (after acts).elements, e.exiting = true → e.isAnimating = true :=
    fun e he => leaving_after acts he
  generalize after acts = s at hleaving ⊢
  have helements : s.settle.elements =
      (s.elements.filter fun e => !e.exiting).map SceneElement.arrived := by
    cases hmoves : s.isAnimating with
    | true =>
      rw [settle_of_moving hmoves]
      refine elements_advance hleaving fun e he t ht => (remaining_le he ht).trans ?_
      rw [max_rat]
      exact le_max_left _ _
    | false =>
      have hidle : ∀ e ∈ s.elements, e.transition = none := by
        intro e he
        simpa [SceneElement.isAnimating] using List.any_eq_false.mp hmoves e he
      have harrived : (s.advance 0).elements = _ := elements_advance hleaving fun e he t ht => by
        rw [hidle e he] at ht
        cases ht
      rw [settle_of_still hmoves, ← harrived]
      show s.elements = s.elements.filterMap _
      rw [List.filterMap_congr fun e he => SceneElement.advance_of_idle (hidle e he),
        List.filterMap_some]
  exact ⟨⟨fun _ => endsIn_iff, s.isAnimating_settle, helements,
    fun ms _ hms => helements.trans (elements_advance hleaving hms).symm⟩, hleaving⟩

end Scene

end FlowTree
