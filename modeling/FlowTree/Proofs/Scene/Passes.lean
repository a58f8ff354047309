import FlowTree.Proofs.Scene.Keys

/-!
# What a pass does to a scene

A directive decides what the element with its key comes to, whatever the scene showed before, and
leaves all other elements as they are.

* **`Directive.effect`** is what a directive makes of an element or of its absence; **`Scene.get?_apply`**
  is its effect on a scene, **`Scene.get?_foldl`** that of a pass.
* **`Scene.goal?`** is what the element with a key comes to, if it stays; **`Scene.goal?_apply`** and
  **`Scene.goal?_foldl`** are the effects on it.
* **`Scene.Fits`** says that a directive finds its element in the state it assumes, **`Scene.Meets`**
  that all directives of a pass do, one after the other.
* **`Pass.Leads`** says which elements a pass assumes and which it leaves; **`Pass.Leads.meets`** and
  **`Pass.Leads.holds`** are what follows for a scene.
-/

namespace FlowTree

variable {α : Type}

/-- What the element of a directive comes to, if it stays. -/
def Directive.goal? : Directive α → Option (Visual α)
  | .create _ _ goal _ => some goal
  | .update _ goal _ => some goal
  | .remove .. => none

/-- What the element comes to; nothing if it is about to go. -/
def SceneElement.goal? (e : SceneElement α) : Option (Visual α) :=
  if e.exiting then none else some e.target

/-! ### The effect of a directive -/

namespace Directive

variable [Scalar α]

/-- What a directive adds if there is no element with its key. -/
def fresh? : Directive α → Option (SceneElement α)
  | .create key source goal duration =>
    some (SceneElement.begin { key := key, visual := source } goal duration)
  | .update key goal _ => some { key := key, visual := goal }
  | .remove .. => none

/-- What a directive makes of the element with its key. -/
def change : Directive α → SceneElement α → SceneElement α
  | .create _ _ goal duration, e =>
    { e with exiting := false, visual := e.visual.withOpacity Scalar.one }.begin goal duration
  | .update _ goal duration, e => { e with exiting := false }.begin goal duration
  | .remove _ toward duration, e =>
    { e with exiting := true }.begin (e.visual.collapsedToward toward) duration

/-- What a directive makes of the element with its key or of its absence. -/
def effect (d : Directive α) : Option (SceneElement α) → Option (SceneElement α)
  | some e => some (d.change e)
  | none => d.fresh?

theorem key_change (d : Directive α) (e : SceneElement α) : (d.change e).key = e.key := by
  cases d <;> rfl

theorem key_fresh? {d : Directive α} {e : SceneElement α} (h : d.fresh? = some e) :
    e.key = d.key := by
  cases d <;> cases h <;> rfl

/-- A directive settles what its element comes to, whatever was there before. -/
theorem goal?_effect (d : Directive α) (e? : Option (SceneElement α)) :
    (d.effect e?).bind SceneElement.goal? = d.goal? := by
  cases d <;> cases e? <;> rfl

end Directive

/-- Time neither brings back an element nor takes one that stays. -/
theorem SceneElement.isSome_goal?_advance [Scalar α] (ms : α) (e : SceneElement α) :
    ((e.advance ms).bind SceneElement.goal?).isSome = e.goal?.isSome := by
  obtain ⟨key, visual, exiting, transition⟩ := e
  cases transition with
  | none => rfl
  | some t =>
    cases exiting <;> simp only [advance] <;> split <;> rfl

namespace Scene

/-- What the element with the given key comes to; nothing if it is about to go. -/
def goal? (s : Scene α) (key : ElementKey) : Option (Visual α) :=
  (s.get? key).bind SceneElement.goal?

theorem isSome_goal?_iff {s : Scene α} {key : ElementKey} :
    (s.goal? key).isSome = true ↔ ∃ e, s.get? key = some e ∧ e.exiting = false := by
  rw [goal?, Option.isSome_bind, Option.any_eq_true]
  refine exists_congr fun e => and_congr_right fun _ => ?_
  rw [SceneElement.goal?]
  cases e.exiting <;> simp

/-! ### Assumptions of a directive -/

/-- The element is in the state that the directive assumes: what is to come is absent or about to go,
what is to change or to go is there to stay. -/
def Fits (s : Scene α) : Directive α → Prop
  | .create key .. => ∀ e, s.get? key = some e → e.exiting = true
  | .update key .. => ∃ e, s.get? key = some e ∧ e.exiting = false
  | .remove key .. => ∃ e, s.get? key = some e ∧ e.exiting = false

theorem fits_iff {s : Scene α} {d : Directive α} :
    s.Fits d ↔ (s.goal? d.key).isSome = !d.isCreate := by
  cases d with
  | create key source goal duration =>
    show (∀ e, s.get? key = some e → e.exiting = true) ↔ (s.goal? key).isSome = false
    rw [← Bool.not_eq_true, isSome_goal?_iff, not_exists]
    refine forall_congr' ?_
    intro e
    rw [not_and, Bool.not_eq_false]
  | update key goal duration => exact isSome_goal?_iff.symm
  | remove key toward duration => exact isSome_goal?_iff.symm

/-! ### One directive -/

variable [Scalar α]

/-- A directive changes an element or adds one. -/
theorem apply_eq (s : Scene α) (d : Directive α) :
    s.apply d = if (s.get? d.key).isSome then s.modify d.key d.change
      else d.fresh?.elim s s.add := by
  cases d with
  | create key source goal duration =>
    rw [apply, Directive.key]
    cases s.get? key <;> rfl
  | update key goal duration =>
    rw [apply, Directive.key]
    cases s.get? key <;> rfl
  | remove key toward duration =>
    rw [apply, Directive.key]
    cases hfound : s.get? key with
    | some e => rfl
    | none => exact modify_of_get?_eq_none hfound _

theorem Ordered.apply {s : Scene α} (h : s.Ordered) (d : Directive α) : (s.apply d).Ordered := by
  rw [apply_eq]
  cases hfound : s.get? d.key with
  | some e => exact h.modify d.key d.key_change
  | none =>
    cases hfresh : d.fresh? with
    | none => exact h
    | some e => exact h.add (Directive.key_fresh? hfresh ▸ hfound)

/-- **A directive is about the element with its key only.** -/
theorem get?_apply (s : Scene α) (d : Directive α) (k : ElementKey) :
    (s.apply d).get? k = if k = d.key then d.effect (s.get? d.key) else s.get? k := by
  rw [apply_eq]
  by_cases hk : k = d.key
  · rw [if_pos hk, hk]
    cases hfound : s.get? d.key with
    | some e =>
      rw [Option.isSome_some, if_pos rfl, get?_modify s d.key d.key_change, if_pos rfl, hfound]
      rfl
    | none =>
      rw [Option.isSome_none, if_neg Bool.false_ne_true, Directive.effect]
      cases hfresh : d.fresh? with
      | none => exact hfound
      | some e =>
        have hkey := Directive.key_fresh? hfresh
        rw [Option.elim_some, get?_add (hkey ▸ hfound), if_pos hkey.symm]
  · rw [if_neg hk]
    cases hfound : s.get? d.key with
    | some e =>
      rw [Option.isSome_some, if_pos rfl, get?_modify s d.key d.key_change, if_neg hk]
    | none =>
      rw [Option.isSome_none, if_neg Bool.false_ne_true]
      cases hfresh : d.fresh? with
      | none => rfl
      | some e =>
        have hkey := Directive.key_fresh? hfresh
        rw [Option.elim_some, get?_add (hkey ▸ hfound), if_neg (hkey ▸ hk)]

theorem get?_apply_key (s : Scene α) (d : Directive α) :
    (s.apply d).get? d.key = d.effect (s.get? d.key) := by
  rw [get?_apply, if_pos rfl]

theorem get?_apply_of_ne (s : Scene α) {d : Directive α} {k : ElementKey} (hk : k ≠ d.key) :
    (s.apply d).get? k = s.get? k := by
  rw [get?_apply, if_neg hk]

/-- **The effect of a directive.**  It settles what the element with its key comes to, whether that was
shown before, about to go or absent; all other elements keep their goals. -/
theorem goal?_apply (s : Scene α) (d : Directive α) (k : ElementKey) :
    (s.apply d).goal? k = if k = d.key then d.goal? else s.goal? k := by
  by_cases hk : k = d.key
  · rw [if_pos hk, hk, goal?, get?_apply_key, Directive.goal?_effect]
  · rw [if_neg hk, goal?, get?_apply_of_ne s hk, goal?]

/-! ### A pass -/

theorem Ordered.foldl {s : Scene α} (h : s.Ordered) (pass : Pass α) :
    (pass.foldl Scene.apply s).Ordered := by
  induction pass generalizing s with
  | nil => exact h
  | cons d pass ih => exact ih (h.apply d)

theorem Ordered.applyPass {s : Scene α} (h : s.Ordered) (pass : Pass α) :
    (s.applyPass pass).Ordered :=
  (h.foldl pass).advance Scalar.zero

theorem get?_foldl_of_not_mem (s : Scene α) {pass : Pass α} {k : ElementKey}
    (hk : k ∉ pass.map (·.key)) : (pass.foldl Scene.apply s).get? k = s.get? k := by
  induction pass generalizing s with
  | nil => rfl
  | cons d pass ih =>
    rw [List.map_cons, List.mem_cons, not_or] at hk
    rw [List.foldl_cons, ih (s.apply d) hk.2, get?_apply_of_ne s hk.1]

/-- **The effect of a pass** that has at most one directive for each key. -/
theorem get?_foldl (s : Scene α) {pass : Pass α} (hnodup : (pass.map (·.key)).Nodup)
    {d : Directive α} (hd : d ∈ pass) :
    (pass.foldl Scene.apply s).get? d.key = d.effect (s.get? d.key) := by
  induction pass generalizing s with
  | nil => simp at hd
  | cons d' pass ih =>
    rw [List.map_cons, List.nodup_cons] at hnodup
    rw [List.foldl_cons]
    rcases List.mem_cons.mp hd with rfl | hd
    · rw [get?_foldl_of_not_mem _ hnodup.1, get?_apply_key]
    · have hne : d.key ≠ d'.key := fun heq => hnodup.1 (heq ▸ List.mem_map_of_mem hd)
      rw [ih (s.apply d') hnodup.2 hd, get?_apply_of_ne s hne]

theorem goal?_foldl_of_not_mem (s : Scene α) {pass : Pass α} {k : ElementKey}
    (hk : k ∉ pass.map (·.key)) : (pass.foldl Scene.apply s).goal? k = s.goal? k := by
  rw [goal?, get?_foldl_of_not_mem s hk, goal?]

theorem goal?_foldl (s : Scene α) {pass : Pass α} (hnodup : (pass.map (·.key)).Nodup)
    {d : Directive α} (hd : d ∈ pass) : (pass.foldl Scene.apply s).goal? d.key = d.goal? := by
  rw [goal?, get?_foldl s hnodup hd, Directive.goal?_effect]

/-- Each directive of a pass, when its turn comes, finds its element in the state that it assumes. -/
def Meets (s : Scene α) : Pass α → Prop
  | [] => True
  | d :: pass => s.Fits d ∧ (s.apply d).Meets pass

/-- If no key occurs twice, it is enough that every directive fits the scene before the pass. -/
theorem meets_of_fits {s : Scene α} {pass : Pass α} (hnodup : (pass.map (·.key)).Nodup)
    (hfits : ∀ d ∈ pass, s.Fits d) : s.Meets pass := by
  induction pass generalizing s with
  | nil => trivial
  | cons d pass ih =>
    rw [List.map_cons, List.nodup_cons] at hnodup
    refine ⟨hfits d List.mem_cons_self, ih hnodup.2 ?_⟩
    intro d' hd'
    have hne : d'.key ≠ d.key := fun heq => hnodup.1 (heq ▸ List.mem_map_of_mem hd')
    rw [fits_iff, goal?_apply, if_neg hne, ← fits_iff]
    exact hfits d' (List.mem_cons_of_mem d hd')

/-! ### Time -/

theorem Ordered.isSome_goal?_advance {s : Scene α} (h : s.Ordered) (ms : α) (k : ElementKey) :
    ((s.advance ms).goal? k).isSome = (s.goal? k).isSome := by
  rw [goal?, goal?, h.get?_advance]
  cases s.get? k with
  | none => rfl
  | some e => exact SceneElement.isSome_goal?_advance _ e

/-! ### Passes from one set of elements to another -/

/-- The elements that are there to stay are those with the given keys. -/
def Holds (s : Scene α) (keys : List ElementKey) : Prop :=
  ∀ k, (s.goal? k).isSome = true ↔ k ∈ keys

theorem holds_empty : (empty : Scene α).Holds [] := fun k => by simp [goal?, get?, empty]

end Scene

/-- A pass with one directive at most for each key, which assumes the elements with the keys `old` and
leaves those with the keys `new`. -/
structure Pass.Leads (pass : Pass α) (old new : List ElementKey) : Prop where
  nodup : (pass.map (·.key)).Nodup
  isCreate_iff : ∀ d ∈ pass, d.isCreate = true ↔ d.key ∉ old
  goal_iff : ∀ d ∈ pass, d.goal?.isSome = true ↔ d.key ∈ new
  rest : ∀ k, k ∉ pass.map (·.key) → (k ∈ old ↔ k ∈ new)

namespace Pass.Leads

variable {pass : Pass α} {old new : List ElementKey}

/-- A directive is about an element that was there before or will be. -/
theorem mem_or_mem (h : pass.Leads old new) {k : ElementKey} (hk : k ∈ pass.map (·.key)) :
    k ∈ old ∨ k ∈ new := by
  obtain ⟨d, hd, rfl⟩ := List.mem_map.mp hk
  by_contra hneither
  rw [not_or, ← h.isCreate_iff d hd, ← h.goal_iff d hd] at hneither
  cases d with
  | create => exact hneither.2 rfl
  | update => exact hneither.2 rfl
  | remove => exact Bool.false_ne_true hneither.1

/-- The pass meets every scene that shows what it assumes. -/
theorem meets [Scalar α] (h : pass.Leads old new) {s : Scene α} (hs : s.Holds old) :
    s.Meets pass := by
  refine Scene.meets_of_fits h.nodup ?_
  intro d hd
  rw [Scene.fits_iff, Bool.eq_iff_iff, hs, Bool.not_eq_true', ← Bool.not_eq_true,
    h.isCreate_iff d hd, not_not]

/-- The pass leaves what it promises. -/
theorem holds [Scalar α] (h : pass.Leads old new) {s : Scene α} (ho : s.Ordered)
    (hs : s.Holds old) : (s.applyPass pass).Holds new := by
  intro k
  rw [Scene.applyPass, (ho.foldl pass).isSome_goal?_advance]
  by_cases hk : k ∈ pass.map (·.key)
  · obtain ⟨d, hd, rfl⟩ := List.mem_map.mp hk
    rw [Scene.goal?_foldl s h.nodup hd]
    exact h.goal_iff d hd
  · rw [Scene.goal?_foldl_of_not_mem s hk, hs]
    exact h.rest k hk

/-- Two passes about different elements, one after the other. -/
theorem append {pass' : Pass α} {old' new' : List ElementKey} (h : pass.Leads old new)
    (h' : pass'.Leads old' new') (side : ElementKey → Prop)
    (hside : ∀ k, k ∈ pass.map (·.key) ∨ k ∈ old ∨ k ∈ new → side k)
    (hside' : ∀ k, k ∈ pass'.map (·.key) ∨ k ∈ old' ∨ k ∈ new' → ¬ side k) :
    Leads (pass ++ pass') (old ++ old') (new ++ new') where
  nodup := by
    rw [List.map_append, List.nodup_append]
    refine ⟨h.nodup, h'.nodup, ?_⟩
    rintro k hk k' hk' rfl
    exact hside' k (Or.inl hk') (hside k (Or.inl hk))
  isCreate_iff d hd := by
    rw [List.mem_append, not_or]
    rcases List.mem_append.mp hd with hd | hd
    · have hother : d.key ∉ old' := fun hmem =>
        hside' _ (Or.inr (Or.inl hmem)) (hside _ (Or.inl (List.mem_map_of_mem hd)))
      rw [h.isCreate_iff d hd, and_iff_left hother]
    · have hother : d.key ∉ old := fun hmem =>
        hside' _ (Or.inl (List.mem_map_of_mem hd)) (hside _ (Or.inr (Or.inl hmem)))
      rw [h'.isCreate_iff d hd, and_iff_right hother]
  goal_iff d hd := by
    rw [List.mem_append]
    rcases List.mem_append.mp hd with hd | hd
    · have hother : d.key ∉ new' := fun hmem =>
        hside' _ (Or.inr (Or.inr hmem)) (hside _ (Or.inl (List.mem_map_of_mem hd)))
      rw [h.goal_iff d hd, or_iff_left hother]
    · have hother : d.key ∉ new := fun hmem =>
        hside' _ (Or.inl (List.mem_map_of_mem hd)) (hside _ (Or.inr (Or.inr hmem)))
      rw [h'.goal_iff d hd, or_iff_right hother]
  rest k hk := by
    rw [List.map_append, List.mem_append, not_or] at hk
    rw [List.mem_append, List.mem_append, h.rest k hk.1, h'.rest k hk.2]

end Pass.Leads

end FlowTree
