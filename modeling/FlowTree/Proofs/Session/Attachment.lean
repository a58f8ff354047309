import FlowTree.Proofs.Attachment
import FlowTree.Proofs.Session.Kin

/-!
# Edges stay attached

In a session every edge ends at its own node at all times.  If the scene is at rest whenever a pass comes,
it also ends at the parent of this node.

* **`Diagram.pass_of_answer`** lists the passes with which a diagram answers.
* **`Session.Tied`** says that all edges are attached to their nodes; **`Session.Tied.run`** keeps it.
* **`Session.Faithful.shows`** says that a scene at rest shows the tree that has been drawn;
  **`Session.Calm`** that all passes come to such scenes, and **`Session.hanging_run`** what follows for the
  other ends.
* **`Diagram.HasParent`** says which node is the parent of which in some run;
  **`Session.edges_stay_attached`** is the result.
-/

namespace FlowTree

variable {α : Type}

/-! ### All passes of a diagram -/

namespace Diagram

theorem named_current {d : Diagram α} (hsteady : d.Steady) (hnamed : ∀ r ∈ d.runs, r.tree.Named) :
    d.current.Named := by
  rw [hsteady.current_eq]
  exact (hnamed _ d.shownRun_mem).prune

/-- A node of some run has this id, maybe folded away. -/
def Knows (d : Diagram α) (id : String) : Prop := ∃ r ∈ d.runs, id ∈ r.tree.tree.preorder.map (·.id)

theorem Knows.of_skeletons {d d' : Diagram α}
    (heq : d.runs.map (·.tree.skeleton) = d'.runs.map (·.tree.skeleton)) {id : String}
    (h : d.Knows id) : d'.Knows id := by
  have hids : ∀ k : Hierarchy α, k.tree.preorder.map (·.id) = k.skeleton.preorder.map (·.1) := by
    intro k
    rw [Hierarchy.skeleton, Tree.preorder_map, List.map_map]
    rfl
  obtain ⟨r, hr, hid⟩ := h
  have hskeleton : r.tree.skeleton ∈ d.runs.map (·.tree.skeleton) := List.mem_map_of_mem hr
  rw [heq] at hskeleton
  obtain ⟨r', hr', hsame⟩ := List.mem_map.mp hskeleton
  rw [hids, ← hsame, ← hids] at hid
  exact ⟨r', hr', hid⟩

theorem Steady.knows {d : Diagram α} (h : d.Steady) {id : String} (hid : id ∈ d.current.ids) :
    d.Knows id := by
  rw [h.current_eq, Hierarchy.ids_prune] at hid
  obtain ⟨n, hn, rfl⟩ := List.mem_map.mp hid
  exact ⟨_, d.shownRun_mem, List.mem_map_of_mem (Hierarchy.mem_tree_of_mem_descendants hn)⟩

/-- In some run the second node is the parent of the first one. -/
def HasParent (d : Diagram α) (id parent : String) : Prop :=
  ∃ r ∈ d.runs, ∃ s ∈ (Hierarchy.inContext r.tree.tree).preorder,
    s.id = id ∧ ∃ p, s.parent = some p ∧ p.id = parent

/-- The id of the parent is the same in all runs. -/
theorem HasParent.eq_cutAtLast {d : Diagram α} (hnamed : ∀ r ∈ d.runs, r.tree.Named)
    {id parent : String} (h : d.HasParent id parent) : parent = NodeId.cutAtLast id := by
  obtain ⟨r, hr, s, hs, rfl, p, hparent, rfl⟩ := h
  obtain ⟨above, hx, hhead, -⟩ := Hierarchy.lineage_of_map_eq (Hierarchy.map_inContext _) hs
  have hfollows := (hnamed r hr).lineal.follows hx
  rw [← hhead, hparent] at hfollows
  exact hfollows.cutAtLast_eq.symm

/-- All nodes but the roots have a parent. -/
theorem Knows.exists_parent {d : Diagram α} (hnamed : ∀ r ∈ d.runs, r.tree.Named) {id : String}
    (h : d.Knows id) (hinner : NodeId.separator ∈ id.toList) : ∃ parent, d.HasParent id parent := by
  obtain ⟨r, hr, hid⟩ := h
  obtain ⟨n, hn, rfl⟩ := List.mem_map.mp hid
  obtain ⟨above, hx⟩ := Tree.exists_mem_lineages hn
  have hfollows := (hnamed r hr).lineal.follows hx
  obtain ⟨s, hs, hnode, hparent, -⟩ :=
    Hierarchy.exists_spot_of_map_eq (Hierarchy.map_inContext r.tree.tree) hx
  cases above with
  | nil => exact absurd (hfollows.separator_mem_iff.mp hinner) Bool.false_ne_true
  | cons p above => exact ⟨p.id, r, hr, s, hs, congrArg Node.id hnode, p, hparent, rfl⟩

variable [Scalar α] [Printed α]

/-- A diagram answers with a reconciliation of what has been drawn and another tree, or by drawing the
tree on show anew. -/
theorem pass_of_answer {d : Diagram α} (hnamed : ∀ r ∈ d.runs, r.tree.Named) {st : Step α}
    {change : Change α} (hanswer : d.answer st = some change) :
    (∃ (v : View α) (new : Hierarchy α), new.Named ∧
        change.pass = (v.reconcile (some d.current) new).pass) ∨
      ∃ v : View α, change.pass = v.restyle d.shownRun.tree := by
  cases answers_of_answer hanswer with
  | @setDate date run index found events =>
    have hrun := Series.locate?_run_lt found
    exact Or.inl ⟨(d.withDate date run index hrun).view, _, hnamed _ (List.getElem_mem hrun), rfl⟩
  | @toggleBranch id toggle tree shown toggled events =>
    refine Or.inl ⟨d.view, tree, ?_, ?_⟩
    · exact (hnamed _ d.shownRun_mem).of_skeleton (Hierarchy.skeleton_toggle? toggled)
    · show ((d.withTree tree).view.reconcile _ (d.withTree tree).shownRun.tree).pass = _
      rw [shownRun_withTree]
      rfl
  | setEdgeAttribute key => exact Or.inr ⟨_, rfl⟩
  | setNodeAttribute key => exact Or.inr ⟨_, rfl⟩

theorem paired_answer {d : Diagram α} (hsteady : d.Steady) (hnamed : ∀ r ∈ d.runs, r.tree.Named)
    {st : Step α} {change : Change α} (hanswer : d.answer st = some change) : change.pass.Paired := by
  rcases pass_of_answer hnamed hanswer with ⟨v, new, hnew, hpass⟩ | ⟨v, hpass⟩
  · rw [hpass]
    exact View.paired_reconcile (fun _ hh => Option.some.inj hh ▸ named_current hsteady hnamed) hnew
  · rw [hpass]
    exact View.paired_restyle (hnamed _ d.shownRun_mem)

end Diagram

/-! ### Edges and their own nodes -/

namespace Session

section Own

variable [Scalar α] [Printed α]

omit [Printed α] in
/-- A pass brings elements of one kind only for nodes that it starts from or leads to. -/
theorem known_applyPass {P : String → Prop} {scene : Scene α} (ho : scene.Ordered) {kind : ElementKind}
    (h : ∀ id e, scene.get? ⟨kind, id⟩ = some e → P id) {pass : Pass α} {old new : List String}
    (hleads : pass.Leads (keysOf old) (keysOf new)) (hold : ∀ id ∈ old, P id)
    (hnew : ∀ id ∈ new, P id) :
    ∀ id e, (scene.applyPass pass).get? ⟨kind, id⟩ = some e → P id := by
  intro id e he
  rw [Scene.applyPass, (ho.foldl pass).get?_advance, Option.bind_eq_some_iff] at he
  obtain ⟨e', he', -⟩ := he
  by_cases hkey : ⟨kind, id⟩ ∈ pass.map (·.key)
  · rcases hleads.mem_or_mem hkey with hmem | hmem
    · exact hold id (mem_of_mem_keysOf hmem)
    · exact hnew id (mem_of_mem_keysOf hmem)
  · rw [Scene.get?_foldl_of_not_mem scene hkey] at he'
    exact h id e' he'

/-- Every element of one kind belongs to a node of the document. -/
def Known (s : Session α) (kind : ElementKind) : Prop :=
  ∀ id e, s.scene.get? ⟨kind, id⟩ = some e → s.diagram.Knows id

theorem known_start (doc : Document α) (initial : InitialSelection) (settings : Settings α)
    (kind : ElementKind) : (start doc initial settings).Known kind := by
  obtain ⟨hsteady, hleads⟩ := Diagram.start_spec doc initial settings
  have hfirst : (Diagram.ofDocument doc initial settings).pass.Leads (keysOf [])
      (keysOf (Diagram.ofDocument doc initial settings).diagram.current.ids) := hleads
  refine known_applyPass Scene.ordered_empty (fun id e he => ?_) hfirst (by simp)
    fun id hid => hsteady.knows hid
  cases he

theorem Known.follow {s : Session α} {doc : Document α} {settings : Settings α} {kind : ElementKind}
    (h : s.Known kind) (hagrees : s.Agrees) (hserves : s.diagram.Serves doc settings) {st : Step α}
    {change : Change α} (hanswer : s.diagram.answer st = some change) :
    (s.follow (some change)).Known kind := by
  obtain ⟨hsteady, hleads⟩ := Diagram.answer_spec hagrees.steady hanswer
  have hskeletons := hserves.skeletons.trans (hserves.answer hanswer).skeletons.symm
  refine known_applyPass hagrees.ordered (fun id e he => ?_) hleads (fun id hid => ?_)
    fun id hid => hsteady.knows hid
  · exact (h id e he).of_skeletons hskeletons
  · exact (hagrees.steady.knows hid).of_skeletons hskeletons

omit [Printed α] in
theorem Known.advance {s : Session α} {kind : ElementKind} (h : s.Known kind) (ho : s.scene.Ordered) (ms : α) :
    ({ s with scene := s.scene.advance ms } : Session α).Known kind := by
  intro id e he
  rw [ho.get?_advance, Option.bind_eq_some_iff] at he
  obtain ⟨e', he', -⟩ := he
  exact h id e' he'

/-- The scene agrees with the diagram, and all its edges are attached and of nodes of the document. -/
structure Tied (s : Session α) (doc : Document α) (settings : Settings α) : Prop where
  agrees : s.Agrees
  serves : s.diagram.Serves doc settings
  attached : s.scene.Attached
  known : s.Known .edge

theorem tied_start (doc : Document α) (initial : InitialSelection) (settings : Settings α) :
    (start doc initial settings).Tied doc settings := by
  obtain ⟨-, hleads⟩ := Diagram.start_spec doc initial settings
  refine ⟨agrees_start doc initial settings, Diagram.serves_start doc initial settings, ?_,
    known_start doc initial settings .edge⟩
  refine Scene.attached_empty.applyPass Scene.ordered_empty hleads.nodup ?_
  refine View.paired_reconcile (fun _ hh => nomatch hh) ?_
  exact Series.named_build doc.data settings.canvas _ (List.get_mem _ _)

theorem Tied.follow {s : Session α} {doc : Document α} {settings : Settings α}
    (h : s.Tied doc settings) {st : Step α} {change : Change α}
    (hanswer : s.diagram.answer st = some change) : (s.follow (some change)).Tied doc settings := by
  obtain ⟨-, hleads⟩ := Diagram.answer_spec h.agrees.steady hanswer
  have hpaired := Diagram.paired_answer h.agrees.steady h.serves.named hanswer
  exact ⟨h.agrees.follow hanswer, h.serves.answer hanswer,
    h.attached.applyPass h.agrees.ordered hleads.nodup hpaired, h.known.follow h.agrees h.serves hanswer⟩

/-- One step keeps all edges attached. -/
theorem Tied.step {s : Session α} {doc : Document α} {settings : Settings α}
    (h : s.Tied doc settings) (st : Step α) : (s.step st).Tied doc settings := by
  refine keeps_step (P := fun s => s.Tied doc settings) h (fun ms => ?_)
    (fun st change hanswer => h.follow hanswer) st
  exact ⟨h.agrees.step (.advance ms), h.serves, h.attached.advance h.agrees.ordered ms,
    h.known.advance h.agrees.ordered ms⟩

theorem Tied.run {s : Session α} {doc : Document α} {settings : Settings α}
    (h : s.Tied doc settings) (steps : List (Step α)) : (s.run steps).Tied doc settings :=
  keeps_run (P := fun s => s.Tied doc settings) (fun _ hs st => hs.step st) h steps

end Own

/-! ### Edges and the nodes above -/

section Above

variable [Scalar α] [Printed α]

/-- Nothing moves whenever a pass comes. -/
def Calm (s : Session α) : List (Step α) → Prop
  | [] => True
  | st :: steps =>
    ((s.diagram.answer st).isSome = true → s.scene.isAnimating = false) ∧ (s.step st).Calm steps

end Above

section Exact

variable [Printed ℚ]

/-- **A scene at rest shows the tree that has been drawn.** -/
theorem Faithful.shows {s : Session ℚ} (h : s.Faithful)
    (hdrawn : s.diagram.current = s.diagram.shownRun.tree.drawn s.diagram.canvas)
    (hstill : s.scene.isAnimating = false) : s.scene.Shows s.diagram.current.descendants := by
  have hrest : ∀ {key : ElementKey} {e : SceneElement ℚ}, s.scene.get? key = some e →
      e.transition = none ∧ e.exiting = false := by
    intro key e he
    have hnone : e.transition = none := by
      have hmoves := List.any_eq_false.mp hstill e (List.mem_of_find?_eq_some he)
      rwa [SceneElement.isAnimating, Option.isSome_iff_ne_none, not_not] at hmoves
    refine ⟨hnone, ?_⟩
    by_contra hexiting
    have hmoves := h.leaving key e he (by simpa using hexiting)
    rw [hnone] at hmoves
    exact Bool.false_ne_true hmoves
  constructor
  · intro n hn
    rw [hdrawn, Hierarchy.descendants_drawn, ← Hierarchy.spots_map_node, List.map_map] at hn
    obtain ⟨p, hp, rfl⟩ := List.mem_map.mp hn
    have hgoal := h.goals ⟨⟨.node, p.id⟩, s.diagram.view.settledNode p, false, none⟩
      (List.mem_append_left _ (List.mem_append_left _ (List.mem_map_of_mem hp)))
    obtain ⟨e, he, htarget⟩ := Option.bind_eq_some_iff.mp hgoal
    obtain ⟨htransition, hexiting⟩ := hrest he
    rw [SceneElement.goal?, hexiting, SceneElement.target, htransition] at htarget
    exact ⟨e, _, he, Option.some.inj htarget, rfl⟩
  · intro id hid
    have habsent : ∀ kind : ElementKind, ⟨kind, id⟩ ∉ keysOf s.diagram.current.ids →
        s.scene.get? ⟨kind, id⟩ = none := by
      intro kind hkey
      cases he : s.scene.get? ⟨kind, id⟩ with
      | none => rfl
      | some e =>
        rw [← h.agrees.holds, Scene.isSome_goal?_iff] at hkey
        exact absurd ⟨e, he, (hrest he).2⟩ hkey
    constructor
    · exact habsent .node fun hmem => hid (node_mem_keysOf.mp hmem)
    · refine habsent .edge fun hmem => hid ?_
      exact List.mem_of_mem_tail (edge_mem_keysOf.mp hmem)

/-- **An answer to a session at rest** keeps every edge at the parent. -/
theorem hanging_follow {s : Session ℚ} {doc : Document ℚ} {settings : Settings ℚ}
    {toggles : List (Nat × String)} (htied : s.Tied doc settings) (hfaithful : s.Faithful)
    (hrecalls : s.diagram.Recalls doc toggles) (hhanging : s.scene.Hanging)
    (hstill : s.scene.isAnimating = false) {st : Step ℚ} {change : Change ℚ}
    (hanswer : s.diagram.answer st = some change) : (s.scene.applyPass change.pass).Hanging := by
  have hsteady := htied.agrees.steady
  have hnamed := htied.serves.named
  have hshows := hfaithful.shows hrecalls.current_eq hstill
  rcases Diagram.pass_of_answer hnamed hanswer with ⟨v, new, hnew, hpass⟩ | ⟨v, hpass⟩
  · rw [hpass]
    refine View.hanging_reconcile (fun _ hh => Option.some.inj hh ▸ Diagram.named_current hsteady hnamed)
      hnew (fun o ho => ?_) htied.agrees.ordered hshows htied.attached hhanging
    have hrest : s.diagram.current.AtRest := by
      rw [hrecalls.current_eq]
      exact Hierarchy.atRest_drawn _ _
    exact (hrest o (Hierarchy.mem_tree_of_mem_descendants ho)).1
  · rw [hpass]
    refine View.hanging_restyle (hnamed _ s.diagram.shownRun_mem) htied.agrees.ordered ?_ hshows
      htied.attached hhanging
    show s.diagram.current.ids = _
    rw [hsteady.current_eq, Hierarchy.ids_prune]

theorem hanging_start (doc : Document ℚ) (initial : InitialSelection) (settings : Settings ℚ) :
    (start doc initial settings).scene.Hanging := by
  refine View.hanging_reconcile (fun _ hh => nomatch hh)
    (Series.named_build doc.data settings.canvas _ (List.get_mem _ _)) ?_ Scene.ordered_empty ?_
    Scene.attached_empty ?_
  · exact fun o ho => absurd ho List.not_mem_nil
  · exact ⟨fun n hn => absurd hn List.not_mem_nil, fun id _ => ⟨rfl, rfl⟩⟩
  · intro id e he
    cases he

/-- In a calm session every edge stays at the parent. -/
theorem hanging_run {s : Session ℚ} {doc : Document ℚ} {settings : Settings ℚ}
    {toggles : List (Nat × String)} (htied : s.Tied doc settings) (hfaithful : s.Faithful)
    (hrecalls : s.diagram.Recalls doc toggles) (hhanging : s.scene.Hanging) {steps : List (Step ℚ)}
    (hcalm : s.Calm steps) : (s.run steps).scene.Hanging := by
  induction steps generalizing s toggles with
  | nil => exact hhanging
  | cons st steps ih =>
    refine ih (htied.step st) (hfaithful.step st) (recalls_run hrecalls [st]) ?_ hcalm.2
    have hanswer : (s.follow (s.diagram.answer st)).scene.Hanging := by
      cases hchange : s.diagram.answer st with
      | none => exact hhanging
      | some change =>
        refine hanging_follow htied hfaithful hrecalls hhanging (hcalm.1 ?_) hchange
        rw [hchange]
        rfl
    cases st with
    | advance ms => exact hhanging.advance htied.agrees.ordered ms
    | _ => exact hanswer

end Exact

/-- **Edges stay attached.**  At any moment of any session, with numbers of any kind, every edge of the
scene ends exactly at the node of the same id, which is there too.  With exact numbers, if nothing moves
whenever a pass comes, it also ends at the node of its parent, which is there too as long as the edge
is. -/
theorem edges_stay_attached :
    (∀ (α : Type) [Scalar α] [Printed α] (doc : Document α) (settings : Settings α)
      (initial : InitialSelection) (steps : List (Step α)),
      ∀ e ∈ (play doc settings initial steps).scene.elements, e.key.kind = .edge →
        ∃ n ∈ (play doc settings initial steps).scene.elements,
          n.key = ⟨.node, e.key.id⟩ ∧ n.visual.Meets .child e.visual) ∧
    ∀ [Printed ℚ] (doc : Document ℚ) (settings : Settings ℚ) (initial : InitialSelection)
      (steps : List (Step ℚ)), (start doc initial settings).Calm steps →
      ∀ e ∈ (play doc settings initial steps).scene.elements, e.key.kind = .edge →
        (∃ parent, (play doc settings initial steps).diagram.HasParent e.key.id parent) ∧
        ∀ parent, (play doc settings initial steps).diagram.HasParent e.key.id parent →
          ∃ n ∈ (play doc settings initial steps).scene.elements,
            n.key = ⟨.node, parent⟩ ∧ n.visual.Meets .parent e.visual := by
  constructor
  · intro α _ _ doc settings initial steps e he hkind
    have h := (tied_start doc initial settings).run steps
    have hkey : e.key = ⟨.edge, e.key.id⟩ := by rw [← hkind]
    have hinner := h.attached.separator_mem h.agrees.ordered he hkey
    exact h.agrees.ordered.exists_meets (h.attached.twins e.key.id hinner).carries he hkey
  · intro _ doc settings initial steps hcalm e he hkind
    have h := (tied_start doc initial settings).run steps
    have hhanging := hanging_run (tied_start doc initial settings)
      (faithful_start doc initial settings) (Diagram.recalls_start doc initial settings)
      (hanging_start doc initial settings) hcalm
    have hkey : e.key = ⟨.edge, e.key.id⟩ := by rw [← hkind]
    have hinner := h.attached.separator_mem h.agrees.ordered he hkey
    have hknown := h.known e.key.id e (h.agrees.ordered.get?_eq_some_iff.mpr ⟨he, hkey⟩)
    refine ⟨hknown.exists_parent h.serves.named hinner, fun parent hparent => ?_⟩
    rw [hparent.eq_cutAtLast h.serves.named]
    exact h.agrees.ordered.exists_meets (hhanging e.key.id) he hkey

/-- A group is folded once the first pass has come to rest. -/
def folding : List (Step ℚ) := [.advance 1000, .toggleBranch "R_G", .advance 100]

/-- While the well of the group is on its way out, its edge still ends at the well and at the group. -/
theorem edges_stay_attached_folding :
    (start twoRuns {} .default).Calm folding ∧
      ∃ e ∈ (play twoRuns .default {} folding).scene.elements,
        e.key = ⟨.edge, "R_G_W"⟩ ∧ e.exiting = true ∧
        (∃ n ∈ (play twoRuns .default {} folding).scene.elements,
          n.key = ⟨.node, "R_G_W"⟩ ∧ n.visual.Meets .child e.visual) ∧
        ∃ n ∈ (play twoRuns .default {} folding).scene.elements,
          n.key = ⟨.node, "R_G"⟩ ∧ n.visual.Meets .parent e.visual := by
  have hcalm : (start twoRuns {} .default).Calm folding :=
    ⟨nofun, fun _ => by decide +kernel, nofun, trivial⟩
  have hexiting : ((play twoRuns .default {} folding).scene.elements.find?
      (·.key == ⟨.edge, "R_G_W"⟩)).map (·.exiting) = some true := by decide +kernel
  obtain ⟨e, hfound, hexiting⟩ := Option.map_eq_some_iff.mp hexiting
  have he := List.mem_of_find?_eq_some hfound
  have hkey : e.key = ⟨.edge, "R_G_W"⟩ := by simpa using List.find?_some hfound
  have hkind : e.key.kind = .edge := by rw [hkey]
  obtain ⟨hown, habove⟩ := edges_stay_attached
  have hchild := hown ℚ twoRuns .default {} folding e he hkind
  obtain ⟨⟨parent, hparent⟩, hnode⟩ := habove twoRuns .default {} folding hcalm e he hkind
  have hid : parent = "R_G" := by
    have hserves := serves_run (s := start twoRuns {} .default)
      (Diagram.serves_start twoRuns {} .default) folding
    rw [hparent.eq_cutAtLast hserves.named, hkey]
    decide +kernel
  rw [hkey] at hchild
  exact ⟨hcalm, e, he, hkey, hexiting, hchild, hid ▸ hnode parent hparent⟩

end Session

end FlowTree
