import FlowTree.Proofs.Hierarchy.Lineage
import FlowTree.Proofs.Reconcile

/-!
# Edges that move along with nodes

An edge and a node are elements of their own, each with its own transition.  They stay attached to each
other as long as both ends of their transitions are attached and their clocks agree.

* **`Visual.Meets`** says that an edge ends where a node is; every share of the way between two such
  pictures is such a picture (**`Visual.Meets.interpolate`**).
* **`SceneElement.Glued`** says that a node and an edge move along with each other;
  **`SceneElement.Glued.later`** and **`SceneElement.Glued.begin`** are what time and directives do to them.
* **`Scene.Attached`** says it of all edges and their own nodes, **`Scene.Hanging`** of all edges and the
  nodes above; both last as time passes.
* **`Pass.Paired`** are the passes that treat a node and its edge alike; **`Scene.Attached.applyPass`** says
  that they keep all edges attached.
-/

namespace FlowTree

variable {α : Type}

/-! ### Ends of edges -/

/-- The two ends of an edge. -/
inductive EdgeEnd where
  | child
  | parent

/-- The place of one end. -/
def Curve.tip (c : Curve α) : EdgeEnd → Point α
  | .child => c.child
  | .parent => c.parent

theorem Curve.tip_collapsed (p : Point α) (side : EdgeEnd) : (Curve.collapsed p).tip side = p := by
  cases side <;> rfl

theorem Curve.tip_lerp [Scalar α] (c d : Curve α) (t : α) (side : EdgeEnd) :
    (c.lerp d t).tip side = (c.tip side).lerp (d.tip side) t := by
  cases side <;> rfl

namespace Visual

/-- The first visual is a node, the second one an edge that ends where the node is. -/
def Meets (side : EdgeEnd) (n e : Visual α) : Prop :=
  ∃ look line, n = .node look ∧ e = .edge line ∧ line.path.tip side = look.position

variable {side : EdgeEnd} {n e n' e' : Visual α}

theorem Meets.withOpacity_left (h : Meets side n e) (a : α) : Meets side (n.withOpacity a) e := by
  obtain ⟨look, line, rfl, rfl, h⟩ := h
  exact ⟨_, _, rfl, rfl, h⟩

theorem Meets.withOpacity_right (h : Meets side n e) (a : α) : Meets side n (e.withOpacity a) := by
  obtain ⟨look, line, rfl, rfl, h⟩ := h
  exact ⟨_, _, rfl, rfl, h⟩

variable [Scalar α]

theorem Meets.interpolate (h : Meets side n e) (h' : Meets side n' e') (t : α) :
    Meets side (n.interpolate n' t) (e.interpolate e' t) := by
  obtain ⟨look, line, rfl, rfl, h⟩ := h
  obtain ⟨look', line', rfl, rfl, h'⟩ := h'
  refine ⟨_, _, rfl, rfl, ?_⟩
  rw [Curve.tip_lerp, h, h']

theorem Meets.collapsedToward (h : Meets side n e) (p : Point α) :
    Meets side (n.collapsedToward p) (e.collapsedToward p) := by
  obtain ⟨look, line, rfl, rfl, -⟩ := h
  exact ⟨_, _, rfl, rfl, Curve.tip_collapsed p side⟩

/-- The edge folds into the place to which the node goes. -/
theorem Meets.fold (h : Meets side n e) (look : NodeVisual α) :
    Meets side (.node look) (e.collapsedToward look.position) := by
  obtain ⟨-, line, -, rfl, -⟩ := h
  exact ⟨_, _, rfl, rfl, Curve.tip_collapsed _ side⟩

end Visual

/-! ### Two elements -/

/-- The time of a transition that a directive begins. -/
def Directive.duration : Directive α → Nat
  | create _ _ _ duration => duration
  | update _ _ duration => duration
  | remove _ _ duration => duration

variable [Scalar α]

/-- Two transitions with clocks that agree, between pictures in which the edge ends at the node. -/
structure Transition.Meets (side : EdgeEnd) (t u : Transition α) : Prop where
  source : t.source.Meets side u.source
  goal : t.goal.Meets side u.goal
  elapsed : t.elapsed = u.elapsed
  duration : t.duration = u.duration

/-- A directive that does not remove begins the way to its goal from what the element shows, up to the
opacity. -/
theorem Directive.exists_begin {d : Directive α} {goal : Visual α} (hd : d.goal? = some goal)
    (e : SceneElement α) :
    ∃ e' : SceneElement α, d.change e = e'.begin goal d.duration ∧ e'.exiting = false ∧
      (e'.visual = e.visual ∨ e'.visual = e.visual.withOpacity Scalar.one) := by
  cases d with
  | create key source g ms =>
    cases hd
    exact ⟨_, rfl, rfl, Or.inr rfl⟩
  | update key g ms =>
    cases hd
    exact ⟨_, rfl, rfl, Or.inl rfl⟩
  | remove key toward ms => cases hd

namespace SceneElement

/-- What the element shows after some time, and its transition then. -/
def later (ms : α) (e : SceneElement α) : SceneElement α :=
  match e.transition with
  | none => e
  | some t =>
    let t := { t with elapsed := t.elapsed + ms }
    { e with
      visual := t.source.interpolate t.goal t.progress
      transition := if Scalar.le Scalar.one t.progress then none else some t }

/-- The transition is over after some time. -/
def isOver (ms : α) (e : SceneElement α) : Bool :=
  match e.transition with
  | none => false
  | some t => Scalar.le Scalar.one { t with elapsed := t.elapsed + ms }.progress

theorem advance_eq (ms : α) (e : SceneElement α) :
    e.advance ms = if e.isOver ms && e.exiting then none else some (e.later ms) := by
  obtain ⟨key, visual, exiting, transition⟩ := e
  cases transition with
  | none => rfl
  | some t =>
    simp only [advance, isOver, later]
    split <;> cases exiting <;> simp_all

theorem exiting_later (ms : α) (e : SceneElement α) : (e.later ms).exiting = e.exiting := by
  rw [later]
  split <;> rfl

/-- The edge ends at the node and will do so until one of them gets another goal; it goes if the node
goes. -/
structure Glued (side : EdgeEnd) (n e : SceneElement α) : Prop where
  visual : n.visual.Meets side e.visual
  transition : Option.Rel (Transition.Meets side) n.transition e.transition
  exits : n.exiting = true → e.exiting = true

namespace Glued

variable {side : EdgeEnd} {n e : SceneElement α}

theorem isOver_eq (h : n.Glued side e) (ms : α) : n.isOver ms = e.isOver ms := by
  obtain ⟨key, visual, exiting, transition⟩ := n
  obtain ⟨key', visual', exiting', transition'⟩ := e
  have htransition := h.transition
  cases htransition with
  | none => rfl
  | some hmeets => simp only [isOver, Transition.progress, hmeets.elapsed, hmeets.duration]

/-- Time moves both along with each other. -/
theorem later (h : n.Glued side e) (ms : α) : (n.later ms).Glued side (e.later ms) := by
  have hexits : (n.later ms).exiting = true → (e.later ms).exiting = true := by
    rw [exiting_later, exiting_later]
    exact h.exits
  obtain ⟨key, visual, exiting, transition⟩ := n
  obtain ⟨key', visual', exiting', transition'⟩ := e
  have htransition := h.transition
  cases htransition with
  | none => exact h
  | @some t u hmeets =>
    have hshare : ({ t with elapsed := t.elapsed + ms } : Transition α).progress =
        ({ u with elapsed := u.elapsed + ms } : Transition α).progress := by
      simp only [Transition.progress, hmeets.elapsed, hmeets.duration]
    refine ⟨?_, ?_, hexits⟩
    · simp only [SceneElement.later, hshare]
      exact hmeets.source.interpolate hmeets.goal _
    · simp only [SceneElement.later, hshare]
      split
      · exact .none
      · exact .some ⟨hmeets.source, hmeets.goal, congrArg (· + ms) hmeets.elapsed, hmeets.duration⟩

/-- Transitions that begin together, from and to pictures in which the edge ends at the node. -/
theorem begin (hvisual : n.visual.Meets side e.visual) {goal goal' : Visual α}
    (hgoal : goal.Meets side goal') (hexits : n.exiting = true → e.exiting = true) (ms : Nat) :
    (n.begin goal ms).Glued side (e.begin goal' ms) :=
  ⟨hvisual, .some ⟨hvisual, hgoal, rfl, rfl⟩, hexits⟩

/-- Directives that do not remove give both new goals. -/
theorem retarget (h : n.Glued side e) {d d' : Directive α} {goal goal' : Visual α}
    (hd : d.goal? = some goal) (hd' : d'.goal? = some goal') (hgoal : goal.Meets side goal')
    (hduration : d.duration = d'.duration) : (d.change n).Glued side (d'.change e) := by
  obtain ⟨n', hn, hstays, hlook⟩ := Directive.exists_begin hd n
  obtain ⟨e', he, -, hline⟩ := Directive.exists_begin hd' e
  rw [hn, he, hduration]
  refine .begin ?_ hgoal (fun hexiting => ?_) _
  · have hmeets : n'.visual.Meets side e.visual := by
      rcases hlook with hlook | hlook <;> rw [hlook]
      · exact h.visual
      · exact h.visual.withOpacity_left _
    rcases hline with hline | hline <;> rw [hline]
    · exact hmeets
    · exact hmeets.withOpacity_right _
  · rw [hstays] at hexiting
    cases hexiting

end Glued

end SceneElement

/-! ### All edges of a scene -/

/-- If there is an edge, there is the node, and the edge is glued to it. -/
def Carries (side : EdgeEnd) (n? e? : Option (SceneElement α)) : Prop :=
  ∀ e, e? = some e → ∃ n, n? = some n ∧ n.Glued side e

theorem Carries.advance {side : EdgeEnd} {n? e? : Option (SceneElement α)} (h : Carries side n? e?)
    (ms : α) : Carries side (n?.bind (SceneElement.advance ms)) (e?.bind (SceneElement.advance ms)) := by
  intro e' he'
  obtain ⟨e, rfl, he⟩ := Option.bind_eq_some_iff.mp he'
  obtain ⟨n, rfl, hglued⟩ := h e rfl
  rw [SceneElement.advance_eq] at he
  split at he
  · cases he
  · next hstays =>
    obtain rfl := Option.some.inj he
    refine ⟨n.later ms, ?_, hglued.later ms⟩
    rw [Option.bind_some, SceneElement.advance_eq, if_neg]
    rw [Bool.and_eq_true, not_and] at hstays ⊢
    rw [hglued.isOver_eq]
    exact fun hover hexiting => hstays hover (hglued.exits hexiting)

/-- A node and its edge are both there or both absent, the edge is glued to the node, and they go
together. -/
def Twins : Option (SceneElement α) → Option (SceneElement α) → Prop :=
  Option.Rel fun n e => n.Glued .child e ∧ n.exiting = e.exiting

omit [Scalar α] in
theorem Twins.carries {n? e? : Option (SceneElement α)} (h : Twins n? e?) : Carries .child n? e? := by
  intro e he
  cases h with
  | none => cases he
  | @some n e' h => exact ⟨n, rfl, Option.some.inj he ▸ h.1⟩

theorem Twins.advance {n? e? : Option (SceneElement α)} (h : Twins n? e?) (ms : α) :
    Twins (n?.bind (SceneElement.advance ms)) (e?.bind (SceneElement.advance ms)) := by
  cases h with
  | none => exact .none
  | @some n e h =>
    obtain ⟨hglued, hexiting⟩ := h
    rw [Option.bind_some, Option.bind_some, SceneElement.advance_eq, SceneElement.advance_eq,
      hglued.isOver_eq, hexiting]
    split
    · exact .none
    · refine .some ⟨hglued.later ms, ?_⟩
      rw [SceneElement.exiting_later, SceneElement.exiting_later, hexiting]

namespace Scene

/-- Every node but a root has its edge attached, and there are no other edges. -/
structure Attached (s : Scene α) : Prop where
  twins : ∀ id, NodeId.separator ∈ id.toList → Twins (s.get? ⟨.node, id⟩) (s.get? ⟨.edge, id⟩)
  root : ∀ id, NodeId.separator ∉ id.toList → s.get? ⟨.edge, id⟩ = none

/-- Every edge ends at the node above its own. -/
def Hanging (s : Scene α) : Prop :=
  ∀ id, Carries .parent (s.get? ⟨.node, NodeId.cutAtLast id⟩) (s.get? ⟨.edge, id⟩)

omit [Scalar α] in
/-- An edge that is carried by a node ends where the node is. -/
theorem Ordered.exists_meets {s : Scene α} (ho : s.Ordered) {side : EdgeEnd} {id parent : String}
    (h : Carries side (s.get? ⟨.node, parent⟩) (s.get? ⟨.edge, id⟩)) {e : SceneElement α}
    (he : e ∈ s.elements) (hkey : e.key = ⟨.edge, id⟩) :
    ∃ n ∈ s.elements, n.key = ⟨.node, parent⟩ ∧ n.visual.Meets side e.visual := by
  obtain ⟨n, hn, hglued⟩ := h e (ho.get?_eq_some_iff.mpr ⟨he, hkey⟩)
  obtain ⟨hmem, hnkey⟩ := ho.get?_eq_some_iff.mp hn
  exact ⟨n, hmem, hnkey, hglued.visual⟩

omit [Scalar α] in
/-- An edge is of a node that is no root. -/
theorem Attached.separator_mem {s : Scene α} (ho : s.Ordered) (h : s.Attached) {id : String}
    {e : SceneElement α} (he : e ∈ s.elements) (hkey : e.key = ⟨.edge, id⟩) :
    NodeId.separator ∈ id.toList := by
  by_contra hid
  have hfound := ho.get?_eq_some_iff.mpr ⟨he, hkey⟩
  rw [h.root id hid] at hfound
  cases hfound

theorem attached_empty : (empty : Scene α).Attached :=
  ⟨fun _ _ => .none, fun _ _ => rfl⟩

theorem Attached.advance {s : Scene α} (ho : s.Ordered) (h : s.Attached) (ms : α) :
    (s.advance ms).Attached := by
  constructor
  · intro id hid
    rw [ho.get?_advance, ho.get?_advance]
    exact (h.twins id hid).advance _
  · intro id hid
    rw [ho.get?_advance, h.root id hid]
    rfl

theorem Hanging.advance {s : Scene α} (ho : s.Ordered) (h : s.Hanging) (ms : α) :
    (s.advance ms).Hanging := by
  intro id
  rw [ho.get?_advance, ho.get?_advance]
  exact (h id).advance _

end Scene

/-! ### Passes that treat a node and its edge alike -/

/-- The first directive does to a node what the second one does to its edge. -/
inductive Directive.Pairs : Directive α → Directive α → Prop
  | create {id : String} {source source' goal goal' : Visual α} {ms : Nat}
      (begins : source.Meets .child source') (ends : goal.Meets .child goal') :
      Pairs (.create ⟨.node, id⟩ source goal ms) (.create ⟨.edge, id⟩ source' goal' ms)
  | update {id : String} {goal goal' : Visual α} {ms : Nat} (ends : goal.Meets .child goal') :
      Pairs (.update ⟨.node, id⟩ goal ms) (.update ⟨.edge, id⟩ goal' ms)
  | remove {id : String} {toward : Point α} {ms : Nat} :
      Pairs (.remove ⟨.node, id⟩ toward ms) (.remove ⟨.edge, id⟩ toward ms)

namespace Directive.Pairs

variable {d d' : Directive α}

omit [Scalar α] in
theorem key_eq (h : d.Pairs d') : d.key = ⟨.node, d.key.id⟩ ∧ d'.key = ⟨.edge, d.key.id⟩ := by
  cases h <;> exact ⟨rfl, rfl⟩

/-- Twins stay twins. -/
theorem effect (h : d.Pairs d') {n? e? : Option (SceneElement α)} (ht : Twins n? e?) :
    Twins (d.effect n?) (d'.effect e?) := by
  cases ht with
  | none =>
    cases h with
    | create begins ends => exact .some ⟨⟨begins, .some ⟨begins, ends, rfl, rfl⟩, id⟩, rfl⟩
    | update ends => exact .some ⟨⟨ends, .none, id⟩, rfl⟩
    | remove => exact .none
  | @some n e ht =>
    have hvisual := ht.1.visual
    cases h with
    | create begins ends =>
      refine .some ⟨SceneElement.Glued.begin ?_ ends ?_ _, rfl⟩
      · exact (hvisual.withOpacity_left _).withOpacity_right _
      · exact id
    | update ends =>
      refine .some ⟨SceneElement.Glued.begin ?_ ends ?_ _, rfl⟩
      · exact hvisual
      · exact id
    | remove =>
      refine .some ⟨SceneElement.Glued.begin ?_ (hvisual.collapsedToward _) ?_ _, rfl⟩
      · exact hvisual
      · exact id

end Directive.Pairs

/-- Every directive about an edge comes with one about its node and the other way round, except for the
node of a root. -/
structure Pass.Paired (pass : Pass α) : Prop where
  ofNode : ∀ d ∈ pass, d.key.kind = .node → NodeId.separator ∈ d.key.id.toList →
    ∃ d' ∈ pass, d.Pairs d'
  ofEdge : ∀ d' ∈ pass, d'.key.kind = .edge →
    NodeId.separator ∈ d'.key.id.toList ∧ ∃ d ∈ pass, d.Pairs d'

/-- **A paired pass keeps all edges attached.** -/
theorem Scene.Attached.applyPass {s : Scene α} (ho : s.Ordered) (h : s.Attached) {pass : Pass α}
    (hnodup : (pass.map (·.key)).Nodup) (hpaired : pass.Paired) : (s.applyPass pass).Attached := by
  refine Attached.advance (ho.foldl pass) ?_ _
  have hedge : ∀ id, ⟨.edge, id⟩ ∈ pass.map (·.key) →
      NodeId.separator ∈ id.toList ∧ ⟨.node, id⟩ ∈ pass.map (·.key) := by
    intro id hmem
    obtain ⟨d', hd', hkey⟩ := List.mem_map.mp hmem
    obtain ⟨hid, d, hd, hpairs⟩ := hpaired.ofEdge d' hd' (by rw [hkey])
    have hkeys := hpairs.key_eq
    rw [hkey] at hid hkeys
    obtain rfl := key_inj hkeys.2
    exact ⟨hid, hkeys.1 ▸ List.mem_map_of_mem hd⟩
  constructor
  · intro id hid
    by_cases hmem : ⟨.node, id⟩ ∈ pass.map (·.key)
    · obtain ⟨d, hd, hkey⟩ := List.mem_map.mp hmem
      obtain ⟨d', hd', hpairs⟩ := hpaired.ofNode d hd (by rw [hkey]) (by rw [hkey]; exact hid)
      have hkey' := hpairs.key_eq.2
      rw [hkey] at hkey'
      rw [← hkey, ← hkey', Scene.get?_foldl s hnodup hd, Scene.get?_foldl s hnodup hd', hkey, hkey']
      exact hpairs.effect (h.twins id hid)
    · rw [Scene.get?_foldl_of_not_mem s hmem,
        Scene.get?_foldl_of_not_mem s fun hedges => hmem (hedge id hedges).2]
      exact h.twins id hid
  · intro id hid
    rw [Scene.get?_foldl_of_not_mem s fun hedges => hid (hedge id hedges).1]
    exact h.root id hid

end FlowTree
