import FlowTree.Proofs.Scene.Passes
import Mathlib.Data.List.Nodup

/-!
# Directives about different elements

A directive changes the element with its key or adds one.  Changes of different elements do not disturb
each other, and every new element has its place in the order of drawing, so directives about different
elements commute and the order of a pass does not matter.

* **`Scene.place_place_of_ne`**, **`Scene.modify_modify_of_ne`** and **`Scene.add_modify_of_ne`** say so for
  the changes of a list of elements, which may stand in any order.
* **`Scene.apply_apply_of_ne`** says so for two directives, **`Scene.applyPass_perm`** for a pass.
-/

namespace FlowTree

variable {α : Type}

namespace Scene

/-! ### Changes of lists -/

theorem place_place_of_before {a b : SceneElement α} (hab : a.key.before b.key = true)
    (l : List (SceneElement α)) : place a (place b l) = place b (place a l) := by
  have hba : ¬ b.key.before a.key = true := fun hba =>
    ElementKey.not_before_self _ (ElementKey.before_trans hab hba)
  induction l with
  | nil => simp [place, hab, hba]
  | cons c l ih =>
    by_cases hbc : b.key.before c.key = true
    · have hac := ElementKey.before_trans hab hbc
      simp [place, hab, hba, hbc, hac]
    · by_cases hac : a.key.before c.key = true
      · simp [place, hba, hbc, hac]
      · simp [place, hbc, hac, ih]

/-- Two new elements are placed in any order. -/
theorem place_place_of_ne {a b : SceneElement α} (hne : a.key ≠ b.key)
    (l : List (SceneElement α)) : place a (place b l) = place b (place a l) := by
  by_cases hab : a.key.before b.key = true
  · exact place_place_of_before hab l
  · exact (place_place_of_before (ElementKey.before_of_not_before hne hab) l).symm

/-- An element is placed before or after others are changed. -/
theorem map_place {e : SceneElement α} {f : SceneElement α → SceneElement α}
    (hf : ∀ a, (f a).key = a.key) (he : f e = e) (l : List (SceneElement α)) :
    (place e l).map f = place e (l.map f) := by
  induction l with
  | nil => rw [place, List.map_singleton, he]; rfl
  | cons a l ih =>
    rw [place, List.map_cons, place, hf]
    split
    · rw [List.map_cons, List.map_cons, he]
    · rw [List.map_cons, ih]

theorem modify_modify_of_ne (s : Scene α) {k k' : ElementKey} (hne : k ≠ k')
    {f f' : SceneElement α → SceneElement α} (hf : ∀ e, (f e).key = e.key)
    (hf' : ∀ e, (f' e).key = e.key) :
    (s.modify k f).modify k' f' = (s.modify k' f').modify k f := by
  simp only [modify, List.map_map]
  congr 1
  refine List.map_congr_left fun e _ => ?_
  rw [Function.comp_apply, Function.comp_apply]
  by_cases hk : e.key = k
  · simp [hk, hne, hf]
  · by_cases hk' : e.key = k'
    · simp [hk', hne.symm, hf']
    · simp [hk, hk']

theorem add_modify_of_ne (s : Scene α) {e : SceneElement α} {k : ElementKey} (hne : e.key ≠ k)
    {f : SceneElement α → SceneElement α} (hf : ∀ e, (f e).key = e.key) :
    (s.add e).modify k f = (s.modify k f).add e := by
  rw [modify, add, modify, add, map_place]
  · intro a
    split
    · exact hf a
    · rfl
  · exact if_neg (by simpa using hne)

/-! ### Directives -/

variable [Scalar α]

/-- **Directives about different elements commute.** -/
theorem apply_apply_of_ne (s : Scene α) {d d' : Directive α} (hne : d.key ≠ d'.key) :
    (s.apply d).apply d' = (s.apply d').apply d := by
  rw [apply_eq (s.apply d), apply_eq (s.apply d'), get?_apply_of_ne s hne.symm,
    get?_apply_of_ne s hne, apply_eq s d, apply_eq s d']
  cases s.get? d.key with
  | some e =>
    cases s.get? d'.key with
    | some e' => exact modify_modify_of_ne s hne d.key_change d'.key_change
    | none =>
      cases hfresh : d'.fresh? with
      | none => rfl
      | some e' =>
        have hkey : e'.key ≠ d.key := Directive.key_fresh? hfresh ▸ hne.symm
        exact (add_modify_of_ne s hkey d.key_change).symm
  | none =>
    cases hfresh : d.fresh? with
    | none => cases s.get? d'.key <;> rfl
    | some e =>
      have hkey : e.key = d.key := Directive.key_fresh? hfresh
      cases s.get? d'.key with
      | some e' => exact add_modify_of_ne s (hkey ▸ hne) d'.key_change
      | none =>
        cases hfresh' : d'.fresh? with
        | none => rfl
        | some e' =>
          have hkeys : e'.key ≠ e.key := by
            rw [hkey, Directive.key_fresh? hfresh']
            exact hne.symm
          exact congrArg (Scene.mk · s.clock) (place_place_of_ne hkeys s.elements)

/-- **The order of a pass does not matter.** -/
theorem applyPass_perm (s : Scene α) {pass pass' : Pass α} (hnodup : (pass.map (·.key)).Nodup)
    (hperm : pass'.Perm pass) : s.applyPass pass' = s.applyPass pass := by
  rw [applyPass, applyPass, hperm.foldl_eq']
  intro d hd d' hd' s
  by_cases hkey : d.key = d'.key
  · have heq : d = d' :=
      List.inj_on_of_nodup_map hnodup (hperm.mem_iff.mp hd) (hperm.mem_iff.mp hd') hkey
    rw [heq]
  · exact apply_apply_of_ne s hkey

end Scene

end FlowTree
