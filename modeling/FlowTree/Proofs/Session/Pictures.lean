import FlowTree.Proofs.Session.Agreement

/-!
# What all elements show

What an element shows lies between pictures that directives have given: where it was created, where it was
sent, and what it folded into.  A property of all these pictures is one of everything that is ever shown,
if it lasts on the way from one picture to another one.

* **`Lasting`** are the properties that last; **`Scene.Only`** says that a scene shows nothing without the
  property, now or on the way, **`Directive.Only`** that a directive asks for nothing else.
* **`Scene.Only.applyPass`** and **`Scene.Only.advance`** keep it in a scene, **`Session.only_play`** in a
  session.
-/

namespace FlowTree

variable {α : Type}

/-! ### Pictures with a property -/

/-- What an element shows has the property, and so do both ends of its way. -/
structure SceneElement.Only (P : ElementKey → Visual α → Prop) (e : SceneElement α) : Prop where
  visual : P e.key e.visual
  way : ∀ t, e.transition = some t → P e.key t.source ∧ P e.key t.goal

/-- So it is for all elements of a scene. -/
def Scene.Only (P : ElementKey → Visual α → Prop) (s : Scene α) : Prop := ∀ e ∈ s.elements, e.Only P

variable [Scalar α]

/-- All that a directive asks for has the property, if what it folds has. -/
def Directive.Only (P : ElementKey → Visual α → Prop) : Directive α → Prop
  | .create key source goal _ => P key source ∧ P key goal
  | .update key goal _ => P key goal
  | .remove key toward _ => ∀ look, P key look → P key (look.collapsedToward toward)

/-- A property of pictures that lasts on the way from one to another one, and when an element that was
about to go reappears. -/
structure Lasting (P : ElementKey → Visual α → Prop) : Prop where
  interpolate : ∀ {key : ElementKey} {a b : Visual α}, P key a → P key b →
    ∀ share, P key (a.interpolate b share)
  reappear : ∀ {key : ElementKey} {a : Visual α}, P key a → P key (a.withOpacity Scalar.one)

variable {P : ElementKey → Visual α → Prop}

namespace SceneElement

theorem only_begin {e : SceneElement α} {goal : Visual α} (hvisual : P e.key e.visual)
    (hgoal : P e.key goal) (duration : Nat) : (e.begin goal duration).Only P :=
  ⟨hvisual, fun _ ht => Option.some.inj ht ▸ ⟨hvisual, hgoal⟩⟩

omit [Scalar α] in
theorem only_still {e : SceneElement α} (hvisual : P e.key e.visual) (hstill : e.transition = none) :
    e.Only P := by
  refine ⟨hvisual, fun t ht => ?_⟩
  rw [hstill] at ht
  cases ht

theorem Only.change (hP : Lasting P) {e : SceneElement α} (h : e.Only P) {d : Directive α}
    (hkey : e.key = d.key) (hd : d.Only P) : (d.change e).Only P := by
  cases d with
  | create key source goal duration =>
    cases hkey
    exact only_begin (e := { e with exiting := false, visual := e.visual.withOpacity Scalar.one })
      (hP.reappear h.visual) hd.2 duration
  | update key goal duration =>
    cases hkey
    exact only_begin (e := { e with exiting := false }) h.visual hd duration
  | remove key toward duration =>
    cases hkey
    exact only_begin (e := { e with exiting := true }) h.visual (hd _ h.visual) duration

theorem only_fresh? {d : Directive α} (hd : d.Only P) {e : SceneElement α} (he : d.fresh? = some e) :
    e.Only P := by
  cases d with
  | create key source goal duration =>
    cases he
    exact only_begin hd.1 hd.2 duration
  | update key goal duration =>
    cases he
    exact only_still hd rfl
  | remove key toward duration => cases he

theorem Only.advance (hP : Lasting P) {e e' : SceneElement α} (h : e.Only P) {ms : α}
    (he : e.advance ms = some e') : e'.Only P := by
  rw [SceneElement.advance] at he
  split at he
  · cases he
    exact h
  · next t ht =>
    obtain ⟨hsource, hgoal⟩ := h.way t ht
    have hvisual := hP.interpolate hsource hgoal
    simp only at he
    split at he
    · split at he <;> cases he
      exact only_still (hvisual _) rfl
    · cases he
      exact ⟨hvisual _, fun _ ht => Option.some.inj ht ▸ ⟨hsource, hgoal⟩⟩

end SceneElement

/-! ### Scenes -/

namespace Scene

variable {s : Scene α}

theorem only_empty : (empty : Scene α).Only P := fun _ he => nomatch he

theorem Only.apply (hP : Lasting P) (h : s.Only P) {d : Directive α} (hd : d.Only P) :
    (s.apply d).Only P := by
  rw [apply_eq]
  split
  · intro e he
    obtain ⟨e', he', rfl⟩ := List.mem_map.mp he
    split
    · next hkey => exact (h e' he').change hP (beq_iff_eq.mp hkey) hd
    · exact h e' he'
  · cases hfresh : d.fresh? with
    | none => exact h
    | some new =>
      intro e he
      rcases mem_place.mp he with rfl | he
      · exact SceneElement.only_fresh? hd hfresh
      · exact h e he

theorem Only.advance (hP : Lasting P) (h : s.Only P) (ms : α) : (s.advance ms).Only P := by
  intro e he
  obtain ⟨e', he', hadvance⟩ := List.mem_filterMap.mp he
  exact (h e' he').advance hP hadvance

/-- A pass that asks for nothing else leaves nothing else to be seen. -/
theorem Only.applyPass (hP : Lasting P) (h : s.Only P) {pass : Pass α} (hpass : ∀ d ∈ pass, d.Only P) :
    (s.applyPass pass).Only P := by
  refine Only.advance hP ?_ _
  induction pass generalizing s with
  | nil => exact h
  | cons d pass ih =>
    exact ih (h.apply hP (hpass d List.mem_cons_self)) fun d' hd' => hpass d' (List.mem_cons_of_mem d hd')

end Scene

/-! ### Sessions -/

/-- **Nothing else is ever shown** if no pass of a session asks for anything else. -/
theorem Session.only_play [Printed α] (hP : Lasting P) {doc : Document α} {settings : Settings α}
    {initial : InitialSelection} (hstart : ∀ d ∈ (Diagram.ofDocument doc initial settings).pass, d.Only P)
    (hanswer : ∀ steps st change, (play doc settings initial steps).diagram.answer st = some change →
      ∀ d ∈ change.pass, d.Only P)
    (steps : List (Step α)) : (play doc settings initial steps).scene.Only P := by
  refine (keeps_run (P := fun s => (∃ before, s = play doc settings initial before) ∧ s.scene.Only P)
    (fun s hs st => ?_) ⟨⟨[], rfl⟩, Scene.only_empty.applyPass hP hstart⟩ steps).2
  obtain ⟨⟨before, rfl⟩, honly⟩ := hs
  refine ⟨⟨before ++ [st], ?_⟩, ?_⟩
  · rw [play, play, run, run, List.foldl_append]
    rfl
  · exact keeps_step (P := fun s => s.scene.Only P) honly (fun ms => honly.advance hP ms)
      (fun st change h => honly.applyPass hP (hanswer before st change h)) st

end FlowTree
