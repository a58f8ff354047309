import FlowTree.Proofs.Attachment

/-!
# Edges with their labels

The label of an edge is an element of its own.  It is not mentioned when a tree is drawn anew, so its
transition may run on another clock than that of its edge.  Still both come and go together, for no pass
that asks one of them to go forgets the other one, and from then on their clocks agree.

* **`Coupled`** says that an edge and a label are there together and go together; **`Coupled.advance`** is
  what time does to them.
* **`Scene.Inscribed`** says it of all edges and labels of a scene.
* **`Pass.RemovesAlike`** are the passes that ask edges and labels alike to go,
  **`Scene.Inscribed.applyPass`** says that they keep a scene inscribed;
  **`View.removesAlike_reconcile`** and **`View.removesAlike_restyle`** say that all passes of a view are.
-/

namespace FlowTree

variable {α : Type}

/-! ### Clocks -/

/-- As much time of both transitions has passed, and both take the same time. -/
structure Transition.InTime (t u : Transition α) : Prop where
  elapsed : t.elapsed = u.elapsed
  duration : t.duration = u.duration

namespace SceneElement

/-- Neither of the elements is on its way, or both are and their clocks agree. -/
def InTime (e l : SceneElement α) : Prop := Option.Rel Transition.InTime e.transition l.transition

variable [Scalar α] {e l : SceneElement α}

theorem InTime.isOver_eq (h : e.InTime l) (ms : α) : e.isOver ms = l.isOver ms := by
  obtain ⟨key, visual, exiting, transition⟩ := e
  obtain ⟨key', visual', exiting', transition'⟩ := l
  cases h with
  | none => rfl
  | some h => simp only [isOver, Transition.progress, h.elapsed, h.duration]

theorem InTime.later (h : e.InTime l) (ms : α) : (e.later ms).InTime (l.later ms) := by
  obtain ⟨key, visual, exiting, transition⟩ := e
  obtain ⟨key', visual', exiting', transition'⟩ := l
  cases h with
  | none => exact .none
  | @some t u h =>
    have hshare : ({ t with elapsed := t.elapsed + ms } : Transition α).progress =
        ({ u with elapsed := u.elapsed + ms } : Transition α).progress := by
      simp only [Transition.progress, h.elapsed, h.duration]
    simp only [SceneElement.later, hshare, InTime]
    split
    · exact .none
    · exact .some ⟨congrArg (· + ms) h.elapsed, h.duration⟩

end SceneElement

/-! ### An edge and its label -/

/-- Both are there or both are absent; if one of them is about to go, so is the other one, and their clocks
agree. -/
def Coupled : Option (SceneElement α) → Option (SceneElement α) → Prop :=
  Option.Rel fun e l => e.exiting = l.exiting ∧ (e.exiting = true → e.InTime l)

theorem Coupled.isSome_eq {e? l? : Option (SceneElement α)} (h : Coupled e? l?) :
    e?.isSome = l?.isSome := by
  cases h <;> rfl

section Time

variable [Scalar α]

theorem Coupled.advance {e? l? : Option (SceneElement α)} (h : Coupled e? l?) (ms : α) :
    Coupled (e?.bind (SceneElement.advance ms)) (l?.bind (SceneElement.advance ms)) := by
  cases h with
  | none => exact .none
  | @some e l h =>
    obtain ⟨hexiting, hclock⟩ := h
    rw [Option.bind_some, Option.bind_some, SceneElement.advance_eq, SceneElement.advance_eq, ← hexiting]
    cases he : e.exiting with
    | false =>
      -- what stays stays, whatever the clocks say
      rw [Bool.and_false, Bool.and_false]
      refine .some ⟨?_, fun hlater => ?_⟩
      · rw [SceneElement.exiting_later, SceneElement.exiting_later, hexiting]
      · rw [SceneElement.exiting_later, he] at hlater
        cases hlater
    | true =>
      rw [(hclock he).isOver_eq]
      split
      · exact .none
      · refine .some ⟨?_, fun _ => (hclock he).later ms⟩
        rw [SceneElement.exiting_later, SceneElement.exiting_later, hexiting]

/-- Both are asked to go within the same time. -/
theorem Coupled.remove {e? l? : Option (SceneElement α)} (h : Coupled e? l?) (key key' : ElementKey)
    (p q : Point α) (ms : Nat) :
    Coupled ((Directive.remove key p ms).effect e?) ((Directive.remove key' q ms).effect l?) := by
  cases h with
  | none => exact .none
  | some h => exact .some ⟨rfl, fun _ => .some ⟨rfl, rfl⟩⟩

end Time

/-! ### Scenes -/

/-- Every edge has its label, and there are no other labels. -/
def Scene.Inscribed (s : Scene α) : Prop := ∀ id, Coupled (s.get? ⟨.edge, id⟩) (s.get? ⟨.edgeLabel, id⟩)

/-- An edge is asked to go if and only if its label is, within the same time. -/
def Pass.RemovesAlike (pass : Pass α) : Prop :=
  ∀ id ms, (∃ p, .remove ⟨.edge, id⟩ p ms ∈ pass) ↔ ∃ p, .remove ⟨.edgeLabel, id⟩ p ms ∈ pass

namespace Scene

variable [Scalar α] {s : Scene α}

theorem inscribed_empty : (empty : Scene α).Inscribed := fun _ => .none

theorem Inscribed.advance (ho : s.Ordered) (h : s.Inscribed) (ms : α) : (s.advance ms).Inscribed := by
  intro id
  rw [ho.get?_advance, ho.get?_advance]
  exact (h id).advance _

/-- **A pass that removes alike** keeps every edge with its label: of a node that is on show in the end both
are there to stay, and all others are asked to go together or left alone. -/
theorem Inscribed.applyPass (ho : s.Ordered) (h : s.Inscribed) {pass : Pass α} {old : List ElementKey}
    {new : List String} (hholds : s.Holds old) (hleads : pass.Leads old (keysOf new))
    (halike : pass.RemovesAlike) : (s.applyPass pass).Inscribed := by
  refine Inscribed.advance (ho.foldl pass) (fun id => ?_) _
  have hgoal : ∀ k, ((pass.foldl Scene.apply s).goal? k).isSome = true ↔ k ∈ keysOf new := by
    intro k
    rw [← (ho.foldl pass).isSome_goal?_advance Scalar.zero]
    exact hleads.holds ho hholds k
  by_cases hid : id ∈ new.tail
  · obtain ⟨e, he, hstays⟩ := isSome_goal?_iff.mp ((hgoal _).mpr (edge_mem_keysOf.mpr hid))
    obtain ⟨l, hl, hstays'⟩ := isSome_goal?_iff.mp ((hgoal _).mpr (edgeLabel_mem_keysOf.mpr hid))
    rw [he, hl]
    refine .some ⟨hstays.trans hstays'.symm, fun hexiting => ?_⟩
    rw [hstays] at hexiting
    cases hexiting
  · -- a directive about one of them can only ask it to go
    have hremove : ∀ {kind : ElementKind} {d : Directive α}, d ∈ pass → d.key = ⟨kind, id⟩ →
        ⟨kind, id⟩ ∉ keysOf new → ∃ p ms, d = .remove ⟨kind, id⟩ p ms := by
      intro kind d hd hkey hgone
      rw [← hkey, ← hleads.goal_iff d hd] at hgone
      cases d with
      | create => exact absurd rfl hgone
      | update => exact absurd rfl hgone
      | remove key p ms =>
        cases hkey
        exact ⟨p, ms, rfl⟩
    have hedge : ⟨.edge, id⟩ ∉ keysOf new := fun hmem => hid (edge_mem_keysOf.mp hmem)
    have hlabel : ⟨.edgeLabel, id⟩ ∉ keysOf new := fun hmem => hid (edgeLabel_mem_keysOf.mp hmem)
    by_cases hmem : ⟨.edge, id⟩ ∈ pass.map (·.key)
    · obtain ⟨d, hd, hkey⟩ := List.mem_map.mp hmem
      obtain ⟨p, ms, rfl⟩ := hremove hd hkey hedge
      obtain ⟨q, hd'⟩ := (halike id ms).mp ⟨p, hd⟩
      have he := get?_foldl s hleads.nodup hd
      have hl := get?_foldl s hleads.nodup hd'
      rw [Directive.key] at he hl
      rw [he, hl]
      exact (h id).remove _ _ p q ms
    · have hmem' : ⟨.edgeLabel, id⟩ ∉ pass.map (·.key) := by
        intro hthere
        obtain ⟨d, hd, hkey⟩ := List.mem_map.mp hthere
        obtain ⟨q, ms, rfl⟩ := hremove hd hkey hlabel
        obtain ⟨p, hd'⟩ := (halike id ms).mpr ⟨q, hd⟩
        exact hmem (List.mem_map_of_mem hd')
      rw [get?_foldl_of_not_mem s hmem, get?_foldl_of_not_mem s hmem']
      exact h id

end Scene

/-! ### The passes of a view -/

namespace View

variable [Scalar α] [Printed α] {v : View α}

/-- **A reconciliation** asks edges and labels alike to go. -/
theorem removesAlike_reconcile {old : Option (Hierarchy α)} {new : Hierarchy α}
    (hold : ∀ h, old = some h → h.Named) (hnew : new.Named) :
    (v.reconcile old new).pass.RemovesAlike := by
  have hremove : ∀ {kind : ElementKind} {id : String} {p : Point α} {ms : Nat}, kind ≠ .node →
      .remove ⟨kind, id⟩ p ms ∈ (v.reconcile old new).pass →
      ∃ s ∈ v.leaving old new, s.id ∉ new.ids ∧ s.inner = true ∧ s.id = id ∧ v.duration = ms := by
    intro kind id p ms hkind hd
    rcases (mem_reconcile hold hnew).mp hd with ⟨s, -, -, hd⟩ | ⟨s, -, -, hd⟩ | ⟨s, hs, hgone, hd⟩
    · rcases mem_elementsOf.mp hd with h | ⟨-, h | h⟩ <;> cases h
    · rcases mem_elementsOf.mp hd with h | ⟨-, h | h⟩ <;> cases h
    · rcases mem_elementsOf.mp hd with h | ⟨hinner, h | h⟩ <;> cases h
      · exact absurd rfl hkind
      · exact ⟨s, hs, hgone, hinner, rfl, rfl⟩
      · exact ⟨s, hs, hgone, hinner, rfl, rfl⟩
  intro id ms
  constructor
  · rintro ⟨p, hd⟩
    obtain ⟨s, hs, hgone, hinner, rfl, rfl⟩ := hremove ElementKind.noConfusion hd
    exact ⟨_, removes_subset hold hnew hs hgone (mem_elementsOf.mpr (Or.inr ⟨hinner, Or.inr rfl⟩))⟩
  · rintro ⟨p, hd⟩
    obtain ⟨s, hs, hgone, hinner, rfl, rfl⟩ := hremove ElementKind.noConfusion hd
    exact ⟨_, removes_subset hold hnew hs hgone (mem_elementsOf.mpr (Or.inr ⟨hinner, Or.inl rfl⟩))⟩

/-- **Drawing anew** asks nothing to go. -/
theorem removesAlike_restyle (v : View α) (h : Hierarchy α) : (v.restyle h).RemovesAlike := by
  have hremove : ∀ {key : ElementKey} {p : Point α} {ms : Nat}, .remove key p ms ∉ v.restyle h := by
    intro key p ms hd
    rcases List.mem_append.mp hd with hd | hd <;>
    · obtain ⟨s, -, heq⟩ := List.mem_map.mp hd
      cases heq
  intro id ms
  exact ⟨fun ⟨p, hd⟩ => absurd hd hremove, fun ⟨p, hd⟩ => absurd hd hremove⟩

end View

end FlowTree
