import FlowTree.Proofs.Scene.Glue
import FlowTree.Proofs.Scene.Time

/-!
# Passes start from what is shown

A directive begins a transition at what its element shows, and a pass ends with a moment without length, at
which all elements are looked at anew.  That no element jumps at this moment rests on what a scene keeps: every
picture is the share of its way that its transition has come, also of the elements that the pass leaves alone.

* **`Visual.body`** is the place and the size that a picture has; **`Visual.body_interpolate_zero`** says
  that a way begins where it starts.
* **`SceneElement.Timely`** says that an element shows the share of its way that it has come, as all do after
  time has passed; **`SceneElement.Persists`** says that nothing jumps in a moment without length.
* **`SceneElement.Follows`** compares an element with the one it was; **`SceneElement.Follows.change`** is what
  one directive does, **`Scene.exists_follows_foldl`** what those of a pass do, however often they name it.
* **`Scene.passes_never_jump`** is what follows for a pass after any passes and times.
-/

namespace FlowTree

open Scalar

/-! ### Place and size -/

/-- The place and the size of a picture: those of a disc or of a line; a text has those of its edge. -/
inductive Visual.Body (α : Type) where
  | disc (position : Point α) (radius : α)
  | line (path : Curve α) (strokeWidth : α)
  | text

namespace Visual

variable {α : Type}

/-- Where and how large the picture is. -/
def body : Visual α → Body α
  | node v => .disc v.position v.radius
  | edge v => .line v.path v.strokeWidth
  | edgeLabel _ => .text

/-- The kind of elements that the picture is for. -/
def kind : Visual α → ElementKind
  | node _ => .node
  | edge _ => .edge
  | edgeLabel _ => .edgeLabel

theorem kind_of_body {a b : Visual α} (h : a.body = b.body) : a.kind = b.kind := by
  cases a <;> cases b <;> first | rfl | cases h

@[simp] theorem kind_withOpacity (a : Visual α) (x : α) : (a.withOpacity x).kind = a.kind := by
  cases a <;> rfl

@[simp] theorem body_withOpacity (a : Visual α) (x : α) : (a.withOpacity x).body = a.body := by
  cases a <;> rfl

@[simp] theorem opacity_withOpacity (a : Visual α) (x : α) : (a.withOpacity x).opacity = x := by
  cases a <;> rfl

@[simp] theorem kind_collapsedToward [Scalar α] (a : Visual α) (p : Point α) :
    (a.collapsedToward p).kind = a.kind := by
  cases a <;> rfl

end Visual

/-! ### The beginning of a way -/

theorem Scalar.lerp_zero (a b : ℚ) : lerp a b 0 = a := by
  rw [lerp, mul_zero, add_zero]

theorem Point.lerp_zero (p q : Point ℚ) : p.lerp q 0 = p := by
  rw [Point.lerp, Scalar.lerp_zero, Scalar.lerp_zero]

theorem Curve.lerp_zero (c d : Curve ℚ) : c.lerp d 0 = c := by
  rw [Curve.lerp, Point.lerp_zero, Point.lerp_zero]

theorem Scalar.clampUnit_zero : clampUnit (0 : ℚ) = 0 := by
  rw [clampUnit_eq]
  simp

namespace Visual

variable {a b : Visual ℚ}

theorem body_interpolate_zero (h : b.kind = a.kind) : (a.interpolate b 0).body = a.body := by
  cases a <;> cases b <;> cases h <;>
    simp only [interpolate, body, clampUnit_zero, Point.lerp_zero, Curve.lerp_zero, Scalar.lerp_zero]

theorem opacity_interpolate_zero (h : b.kind = a.kind) : (a.interpolate b 0).opacity = a.opacity := by
  cases a <;> cases b <;> cases h <;> simp only [interpolate, opacity, clampUnit_zero, Scalar.lerp_zero]

end Visual

/-! ### One element -/

namespace SceneElement

/-- The second element has the key, the place and the size of the first one, and shows itself as much, or
fully if it has been revived. -/
structure Follows (revived : Bool) (e e' : SceneElement ℚ) : Prop where
  key : e'.key = e.key
  body : e'.visual.body = e.visual.body
  opacity : e'.visual.opacity = if revived then 1 else e.visual.opacity

/-- In a moment without length the element neither goes nor jumps. -/
def Persists (e : SceneElement ℚ) : Prop := ∃ e', e.advance 0 = some e' ∧ Follows false e e'

/-- The element shows the share of its way that it has come, which is not all of it. -/
def Timely (e : SceneElement ℚ) : Prop :=
  ∀ t, e.transition = some t → e.visual = t.source.interpolate t.goal t.progress ∧ t.progress < 1

variable {e e' e'' : SceneElement ℚ} {ms : ℚ}

theorem follows_self : Follows false e e := ⟨rfl, rfl, rfl⟩

theorem Follows.trans {revived : Bool} (h : Follows revived e e') (h' : Follows false e' e'') :
    Follows revived e e'' :=
  ⟨h'.key.trans h.key, h'.body.trans h.body, h'.opacity.trans h.opacity⟩

/-- After time has passed, every element that is left is timely, whatever it was before. -/
theorem timely_advance (h : e.advance ms = some e') : e'.Timely := by
  intro t' ht'
  cases ht : e.transition with
  | none =>
    rw [advance_of_idle ht] at h
    cases h
    rw [ht] at ht'
    cases ht'
  | some t =>
    rcases le_or_gt 1 (t.wait ms).progress with hover | hruns
    · rw [advance_of_over ht hover] at h
      split at h
      · cases h
      · cases h
        cases ht'
    · rw [advance_of_running ht hruns] at h
      cases h
      cases ht'
      exact ⟨rfl, hruns⟩

/-- A timely element is the same after a moment without length. -/
theorem Timely.advance_zero (h : e.Timely) : e.advance 0 = some e := by
  cases ht : e.transition with
  | none => exact advance_of_idle ht
  | some t =>
    obtain ⟨hshown, hruns⟩ := h t ht
    rw [advance_of_running ht (by rwa [Transition.wait_zero]), Transition.wait_zero, ← hshown, ← ht]

theorem Timely.persists (h : e.Timely) : e.Persists := ⟨e, h.advance_zero, follows_self⟩

/-- A transition that takes time has come nowhere when it begins. -/
theorem advance_zero_begin (e : SceneElement ℚ) (goal : Visual ℚ) {duration : Nat} (h : 0 < duration) :
    (e.begin goal duration).advance 0 =
      some { e.begin goal duration with visual := e.visual.interpolate goal 0 } := by
  have hshare : (Transition.mk e.visual goal 0 (duration : ℚ)).progress = 0 := by
    have hpos : ¬ (duration : ℚ) ≤ 0 := not_le.mpr (Nat.cast_pos.mpr h)
    simp [Transition.progress, hpos, min_rat]
  have hbegin : (e.begin goal duration).transition = some ⟨e.visual, goal, 0, duration⟩ := rfl
  rw [advance_of_running hbegin (by rw [Transition.wait_zero, hshare]; norm_num), Transition.wait_zero, hshare]
  exact congrArg some (SceneElement.ext rfl rfl rfl hbegin.symm)

theorem persists_begin (e : SceneElement ℚ) {goal : Visual ℚ} {duration : Nat} (h : 0 < duration)
    (hkind : goal.kind = e.visual.kind) : (e.begin goal duration).Persists :=
  ⟨_, advance_zero_begin e goal h, rfl, Visual.body_interpolate_zero hkind,
    Visual.opacity_interpolate_zero hkind⟩

/-- **One directive** begins a way from where the element is. -/
theorem Follows.change {revived : Bool} (h : Follows revived e e') {d : Directive ℚ}
    (hduration : 0 < d.duration) (hkind : ∀ goal ∈ d.goal?, goal.kind = e.visual.kind) :
    Follows (revived || d.isCreate) e (d.change e') ∧ (d.change e').Persists := by
  have hkind' : e'.visual.kind = e.visual.kind := Visual.kind_of_body h.body
  cases d with
  | create key source goal duration =>
    refine ⟨⟨h.key, ?_, ?_⟩, persists_begin _ hduration ?_⟩
    · exact (Visual.body_withOpacity _ _).trans h.body
    · rw [Directive.isCreate, Bool.or_true, if_pos rfl]
      exact Visual.opacity_withOpacity _ _
    · rw [Visual.kind_withOpacity, hkind']
      exact hkind goal rfl
  | update key goal duration =>
    rw [show (Directive.update key goal duration).isCreate = false from rfl, Bool.or_false]
    exact ⟨⟨h.key, h.body, h.opacity⟩, persists_begin _ hduration ((hkind goal rfl).trans hkind'.symm)⟩
  | remove key toward duration =>
    rw [show (Directive.remove key toward duration).isCreate = false from rfl, Bool.or_false]
    exact ⟨⟨h.key, h.body, h.opacity⟩, persists_begin _ hduration (Visual.kind_collapsedToward _ _)⟩

end SceneElement

namespace Scene

variable {s : Scene ℚ} {pass : Pass ℚ}

/-! ### The elements that were there -/

/-- A pass names the element with the given key to be created. -/
def revives (pass : Pass ℚ) (key : ElementKey) : Bool := pass.any fun d => d.isCreate && d.key == key

/-- **The directives of a pass**, however often they name an element that is there, begin a way from where it
is. -/
theorem exists_follows_foldl {revived : Bool} {e e' : SceneElement ℚ} (hfound : s.get? e.key = some e')
    (h : e.Follows revived e') (hpersists : e'.Persists) (hduration : ∀ d ∈ pass, 0 < d.duration)
    (hkind : ∀ d ∈ pass, d.key = e.key → ∀ goal ∈ d.goal?, goal.kind = e.visual.kind) :
    ∃ e'', (pass.foldl Scene.apply s).get? e.key = some e'' ∧
      e.Follows (revived || revives pass e.key) e'' ∧ e''.Persists := by
  induction pass generalizing s e' revived with
  | nil =>
    rw [revives, List.any_nil, Bool.or_false]
    exact ⟨e', hfound, h, hpersists⟩
  | cons d pass ih =>
    have hduration' := fun d' hd' => hduration d' (List.mem_cons_of_mem d hd')
    have hkind' := fun d' hd' => hkind d' (List.mem_cons_of_mem d hd')
    rw [List.foldl_cons, revives, List.any_cons, ← Bool.or_assoc, ← revives]
    by_cases hkey : d.key = e.key
    · obtain ⟨hchange, hlasts⟩ := h.change (hduration d List.mem_cons_self) (hkind d List.mem_cons_self hkey)
      have hnext : (s.apply d).get? e.key = some (d.change e') := by
        rw [← hkey, get?_apply_key, hkey, hfound, Directive.effect]
      rw [hkey, beq_self_eq_true, Bool.and_true]
      exact ih hnext hchange hlasts hduration' hkind'
    · have hnext : (s.apply d).get? e.key = some e' := by
        rw [get?_apply_of_ne s (Ne.symm hkey), hfound]
      rw [beq_eq_false_iff_ne.mpr hkey, Bool.and_false, Bool.or_false]
      exact ih hnext h hpersists hduration' hkind'

/-! ### The elements that are there afterwards -/

/-- In a moment without length no element goes. -/
def Unfinished (s : Scene ℚ) : Prop := ∀ k e, s.get? k = some e → (e.advance 0).isSome = true

theorem Unfinished.apply (h : s.Unfinished) {d : Directive ℚ} (hduration : 0 < d.duration) :
    (s.apply d).Unfinished := by
  intro k e he
  by_cases hk : k = d.key
  · rw [hk, get?_apply_key] at he
    cases hfound : s.get? d.key with
    | some e' =>
      rw [hfound] at he
      cases he
      cases d <;> exact Option.isSome_of_mem (SceneElement.advance_zero_begin _ _ hduration)
    | none =>
      rw [hfound] at he
      cases d with
      | create key source goal duration =>
        cases he
        exact Option.isSome_of_mem (SceneElement.advance_zero_begin _ _ hduration)
      | update key goal duration =>
        cases he
        exact Option.isSome_of_mem (SceneElement.advance_of_idle rfl)
      | remove key toward duration => cases he
  · rw [get?_apply_of_ne s hk] at he
    exact h k e he

theorem Unfinished.foldl (h : s.Unfinished) (hduration : ∀ d ∈ pass, 0 < d.duration) :
    (pass.foldl Scene.apply s).Unfinished := by
  induction pass generalizing s with
  | nil => exact h
  | cons d pass ih =>
    exact ih (h.apply (hduration d List.mem_cons_self)) fun d' hd' =>
      hduration d' (List.mem_cons_of_mem d hd')

/-- Directives take no element away, and those that do not remove bring one if there is none. -/
theorem isSome_get?_foldl (s : Scene ℚ) (pass : Pass ℚ) (k : ElementKey) :
    ((pass.foldl Scene.apply s).get? k).isSome = true ↔
      (s.get? k).isSome = true ∨ ∃ d ∈ pass, d.key = k ∧ d.isRemove = false := by
  induction pass generalizing s with
  | nil => simp
  | cons d pass ih =>
    have hone : ((s.apply d).get? k).isSome = true ↔
        (s.get? k).isSome = true ∨ d.key = k ∧ d.isRemove = false := by
      by_cases hk : k = d.key
      · rw [hk, get?_apply_key]
        cases s.get? d.key <;> cases d <;> simp [Directive.effect, Directive.fresh?, Directive.isRemove]
      · rw [get?_apply_of_ne s hk, or_iff_left fun h => hk h.1.symm]
    rw [List.foldl_cons, ih, hone, or_assoc]
    simp only [List.exists_mem_cons_iff]

theorem clock_foldl (s : Scene ℚ) (pass : Pass ℚ) : (pass.foldl Scene.apply s).clock = s.clock := by
  induction pass generalizing s with
  | nil => rfl
  | cons d pass ih =>
    rw [List.foldl_cons, ih, apply_eq]
    cases s.get? d.key with
    | some e => rfl
    | none => cases d <;> rfl

/-! ### Passes after passes and times -/

/-- If the last act was a pass or a time, all elements are timely. -/
theorem timely_after {acts : List (Act ℚ)} (hwhole : ∀ act ∈ acts, act.isWhole = true) {k : ElementKey}
    {e : SceneElement ℚ} (he : (after acts).get? k = some e) : e.Timely := by
  have hadvance : ∀ (s : Scene ℚ) (ms : ℚ), s.Ordered → (s.advance ms).get? k = some e → e.Timely := by
    intro s ms ho hfound
    rw [ho.get?_advance, Option.bind_eq_some_iff] at hfound
    obtain ⟨e', -, he'⟩ := hfound
    exact SceneElement.timely_advance he'
  rcases List.eq_nil_or_concat acts with rfl | ⟨before, act, rfl⟩
  · cases he
  · rw [List.concat_eq_append] at he hwhole
    rw [after_concat] at he
    have ho := ordered_after before
    cases act with
    | apply d => cases hwhole (.apply d) (by simp)
    | pass p => exact hadvance _ _ (ho.foldl p) he
    | wait ms => exact hadvance _ ms ho he

/-- The second scene goes on from the first one with a pass: what was there is there and has not moved nor
changed its size or opacity, up to elements that the pass creates again, which are fully to be seen; what
is there besides is what the pass creates or places; and no time has passed. -/
structure GoesOn (pass : Pass ℚ) (s s' : Scene ℚ) : Prop where
  follows : ∀ e ∈ s.elements, ∃ e' ∈ s'.elements, e.Follows (revives pass e.key) e'
  unique : (s'.elements.map (·.key)).Nodup
  keys : ∀ k, k ∈ s'.elements.map (·.key) ↔
    k ∈ s.elements.map (·.key) ∨ ∃ d ∈ pass, d.key = k ∧ d.isRemove = false
  clock : s'.clock = s.clock

/-- **Passes never let an element jump.**  After any passes and times, let a pass come whose directives all
take time, and which has for elements that are there only goals of their own kind.  Then right after the
pass every element, whether it was at rest, on its way or about to go, and whether the pass names it
once, several times or not at all, is where it was and as it was. -/
theorem passes_never_jump (acts : List (Act ℚ)) (hwhole : ∀ act ∈ acts, act.isWhole = true)
    (pass : Pass ℚ) (hduration : ∀ d ∈ pass, 0 < d.duration)
    (hkind : ∀ e ∈ (after acts).elements, ∀ d ∈ pass, d.key = e.key →
      ∀ goal ∈ d.goal?, goal.kind = e.visual.kind) :
    GoesOn pass (after acts) ((after acts).applyPass pass) := by
  have ho := ordered_after acts
  have hfold := ho.foldl pass
  have hafter : ∀ k, ((after acts).applyPass pass).get? k =
      ((pass.foldl Scene.apply (after acts)).get? k).bind (SceneElement.advance 0) := by
    intro k
    rw [applyPass, hfold.get?_advance, max_rat, zero_rat, max_self]
  have hunfinished : (pass.foldl Scene.apply (after acts)).Unfinished := by
    refine Unfinished.foldl (fun k e he => ?_) hduration
    exact Option.isSome_of_mem (timely_after hwhole he).advance_zero
  constructor
  · intro e he
    have hfound := ho.get?_eq_some_iff.mpr ⟨he, rfl⟩
    obtain ⟨e₁, hfound₁, hfollows, e₂, hadvance, hstays⟩ := exists_follows_foldl hfound SceneElement.follows_self
      (timely_after hwhole hfound).persists hduration (hkind e he)
    have hfound₂ : ((after acts).applyPass pass).get? e.key = some e₂ := by
      rw [hafter, hfound₁, Option.bind_some, hadvance]
    exact ⟨e₂, ((ho.applyPass pass).get?_eq_some_iff.mp hfound₂).1, by simpa using hfollows.trans hstays⟩
  · exact (ho.applyPass pass).nodup_keys
  · intro k
    rw [← isSome_get?_iff, ← isSome_get?_iff, ← isSome_get?_foldl, hafter]
    cases hfound : (pass.foldl Scene.apply (after acts)).get? k with
    | none => rfl
    | some e => simpa using hunfinished k e hfound
  · show (pass.foldl Scene.apply (after acts)).clock + Scalar.max Scalar.zero Scalar.zero = _
    rw [clock_foldl, max_rat, max_self, zero_rat, add_zero]

/-- Three wells come, and before they have arrived one of them is asked to go. -/
def scattering : List (Act ℚ) :=
  [.pass (["R_U", "R_V", "R_W"].map fun id => .create ⟨.node, id⟩ (wellAt 0) (wellAt 100) 200),
    .wait 100, .pass [.remove ⟨.node, "R_V"⟩ ⟨0, 0⟩ 200], .wait 50]

/-- The leaving well is created again after one more wish to remove it, and another one is turned back. -/
def gathering : Pass ℚ :=
  [.remove ⟨.node, "R_V"⟩ ⟨0, 0⟩ 100, .create ⟨.node, "R_V"⟩ (wellAt 0) (wellAt 100) 200,
    .update ⟨.node, "R_W"⟩ (wellAt 0) 50, .update ⟨.node, "R_X"⟩ (wellAt 7) 50]

/-- The well that was almost gone is fully to be seen at once, yet where it was; so are one that is turned back
and one that the pass does not name. -/
theorem passes_never_jump_gathering :
    (∀ act ∈ scattering, act.isWhole = true) ∧ (∀ d ∈ gathering, 0 < d.duration) ∧
      (∀ e ∈ (after scattering).elements, ∀ d ∈ gathering, d.key = e.key →
        ∀ goal ∈ d.goal?, goal.kind = e.visual.kind) ∧
      GoesOn gathering (after scattering) ((after scattering).applyPass gathering) ∧
      (after scattering).elements.map (fun e => (e.key.id, e.exiting, e.visual.opacity)) =
        [("R_U", false, 1), ("R_V", true, 3 / 4), ("R_W", false, 1)] ∧
      ((after scattering).applyPass gathering).elements.map
          (fun e => (e.key.id, e.exiting, e.visual.opacity)) =
        [("R_U", false, 1), ("R_V", false, 1), ("R_W", false, 1), ("R_X", false, 1)] := by
  have hwhole : ∀ act ∈ scattering, act.isWhole = true := by decide
  have hduration : ∀ d ∈ gathering, 0 < d.duration := by decide
  have hkind : ∀ e ∈ (after scattering).elements, ∀ d ∈ gathering, d.key = e.key →
      ∀ goal ∈ d.goal?, goal.kind = e.visual.kind := by decide +kernel
  refine ⟨hwhole, hduration, hkind, passes_never_jump scattering hwhole gathering hduration hkind, ?_, ?_⟩
  · decide +kernel
  · decide +kernel

end Scene

end FlowTree
