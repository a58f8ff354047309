import FlowTree.Proofs.Drawing
import FlowTree.Proofs.Inscription
import FlowTree.Proofs.Session.Attachment

/-!
# The elements of one node move in lockstep

A node, its edge and the label of the edge are three elements, each with a transition of its own.  In a
session they are there together and go together, so no label is ever without the path that it follows.

* **`Scene.Lockstep`** says so of a scene, **`Drawing.Complete`** of its picture; **`Scene.lockstep`** and
  **`Drawing.complete`** derive both from the invariants of scenes.
* **`View.suits_reconcile`** and **`View.suits_restyle`** say that passes ask for visuals of the right kind and
  for labels that follow the edge of their own id, **`Session.suits_play`** that nothing else is ever shown.
* **`Session.inscribed_play`** says that every edge keeps its label, and
  **`Session.elements_move_in_lockstep`** what follows.
-/

namespace FlowTree

variable {α : Type}

/-! ### Scenes in lockstep -/

namespace Scene

/-- There is an element with the given key. -/
def Has (s : Scene α) (key : ElementKey) : Prop := ∃ e ∈ s.elements, e.key = key

theorem Ordered.has_iff {s : Scene α} (ho : s.Ordered) {key : ElementKey} :
    s.Has key ↔ (s.get? key).isSome = true := by
  rw [Option.isSome_iff_exists]
  exact exists_congr fun e => ho.get?_eq_some_iff.symm

/-- An edge is there if and only if its label is, and then its node is there too.  All three are there to stay
or all are about to go, and whatever time passes, all three are left or none.  A label follows the edge of
its own id. -/
structure Lockstep [Scalar α] (s : Scene α) : Prop where
  edge_iff_label : ∀ id, s.Has ⟨.edge, id⟩ ↔ s.Has ⟨.edgeLabel, id⟩
  exiting : ∀ e ∈ s.elements, e.key.kind = .edge →
    (∃ l ∈ s.elements, l.key = ⟨.edgeLabel, e.key.id⟩ ∧ l.exiting = e.exiting) ∧
      ∃ n ∈ s.elements, n.key = ⟨.node, e.key.id⟩ ∧ n.exiting = e.exiting
  leaving : ∀ id, s.Has ⟨.edge, id⟩ → ∀ ms,
    ((s.advance ms).Has ⟨.edge, id⟩ ↔ (s.advance ms).Has ⟨.edgeLabel, id⟩) ∧
      ((s.advance ms).Has ⟨.edge, id⟩ ↔ (s.advance ms).Has ⟨.node, id⟩)
  follows : ∀ l ∈ s.elements, l.key.kind = .edgeLabel →
    ∃ look, l.visual = .edgeLabel look ∧ look.pathId = l.key.id

variable [Scalar α] {s : Scene α}

/-- **A scene is in lockstep** if its edges are attached to their nodes and have their labels. -/
theorem lockstep (ho : s.Ordered) (hattached : s.Attached) (hinscribed : s.Inscribed)
    (hsuits : s.Only Visual.Suits) : s.Lockstep where
  edge_iff_label id := by rw [ho.has_iff, ho.has_iff, (hinscribed id).isSome_eq]
  exiting e he hkind := by
    have hkey : e.key = ⟨.edge, e.key.id⟩ := by rw [← hkind]
    have hfound := ho.get?_eq_some_iff.mpr ⟨he, hkey⟩
    have hcoupled := hinscribed e.key.id
    have htwins := hattached.twins e.key.id (hattached.separator_mem ho he hkey)
    rw [hfound] at hcoupled htwins
    constructor
    · generalize hl : s.get? ⟨.edgeLabel, e.key.id⟩ = l? at hcoupled
      cases hcoupled with
      | some h =>
        obtain ⟨hmem, hkey⟩ := ho.get?_eq_some_iff.mp hl
        exact ⟨_, hmem, hkey, h.1.symm⟩
    · generalize hn : s.get? ⟨.node, e.key.id⟩ = n? at htwins
      cases htwins with
      | some h =>
        obtain ⟨hmem, hkey⟩ := ho.get?_eq_some_iff.mp hn
        exact ⟨_, hmem, hkey, h.2⟩
  leaving id hthere ms := by
    obtain ⟨e, he, hkey⟩ := hthere
    have hid := hattached.separator_mem ho he hkey
    have hcoupled := (hinscribed.advance ho ms) id
    have htwins := (hattached.advance ho ms).twins id hid
    rw [(ho.advance ms).has_iff, (ho.advance ms).has_iff, (ho.advance ms).has_iff, hcoupled.isSome_eq]
    refine ⟨Iff.rfl, ?_⟩
    rw [← hcoupled.isSome_eq]
    generalize (s.advance ms).get? ⟨.node, id⟩ = n?, (s.advance ms).get? ⟨.edge, id⟩ = e? at htwins
    cases htwins <;> exact Iff.rfl
  follows l hl hkind := by
    have hsuit := (hsuits l hl).visual
    obtain ⟨key, visual, exiting, transition⟩ := l
    cases hsuit with
    | node => cases hkind
    | edge => cases hkind
    | edgeLabel follows => exact ⟨_, rfl, follows⟩

end Scene

/-! ### Complete pictures -/

namespace Drawing

variable [Scalar α] [Printed α]

/-- The picture of a scene leaves nothing out: first come the edges, each with a path of its own, then their
labels in the same order, each once and along the path of the edge of the same id, then the nodes. -/
structure Complete (settings : Settings α) (s : Scene α) : Prop where
  layers : s.elements.map (fun e => (e.key, e.visual)) = (Layers.of s.elements).looks
  labels : (Layers.of s.elements).texts.map (·.1) = (Layers.of s.elements).lines.map (·.1)
  drawn : ∃ pathId : String → String,
    ((Layers.of s.elements).lines.map fun x => pathId x.1).Nodup ∧
      markup settings s = page settings
        ((Layers.of s.elements).lines.map
            (fun x => edge settings.theme settings.style.dashPattern (pathId x.1) x.2)
          ++ (Layers.of s.elements).texts.map (fun x => edgeLabel settings.theme (pathId x.1) x.2)
          ++ (Layers.of s.elements).discs.map fun x => node settings.theme x.1 x.2)

theorem complete (settings : Settings α) {s : Scene α} (ho : s.Ordered) (hinscribed : s.Inscribed)
    (hsuits : s.Only Visual.Suits) : Complete settings s := by
  have hvisual : ∀ e ∈ s.elements, e.visual.Suits e.key := fun e he => (hsuits e he).visual
  have hlabels : (Layers.of s.elements).texts.map (·.1) = (Layers.of s.elements).lines.map (·.1) := by
    refine Layers.map_texts_eq_map_lines hvisual ho fun id => ?_
    show s.Has _ ↔ s.Has _
    rw [ho.has_iff, ho.has_iff, (hinscribed id).isSome_eq]
  refine ⟨(Layers.looks_of hvisual ho).symm, hlabels, _, ?_,
    (markup_eq settings s).trans (congrArg (page settings) (parts_of_layers settings hvisual ho hlabels))⟩
  have hnodup := Paths.nodup_idOf_after
    ((Layers.pairwise_lines hvisual ho).imp fun hlt => ne_of_lt hlt)
  rwa [List.map_map] at hnodup

end Drawing

/-! ### Passes -/

namespace View

variable [Scalar α] [Printed α]

/-- **A reconciliation** asks for visuals of the right kind. -/
theorem suits_reconcile (v : View α) (old : Option (Hierarchy α)) (new : Hierarchy α) :
    ∀ d ∈ (v.reconcile old new).pass, d.Only Visual.Suits := by
  intro d hd
  have hremove : ∀ {target : String → Point α} {kind : ElementKind} {s : Spot α},
      (v.removeElement target kind s).Only Visual.Suits := fun _ h => h.collapsedToward _
  rw [pass_reconcile, List.mem_append, List.mem_append] at hd
  rcases hd with (hd | hd) | hd
  · rcases mem_phase.mp hd with ⟨s, -, -, rfl⟩ | ⟨s, -, -, rfl⟩ | ⟨s, -, -, rfl⟩
    · exact ⟨.node _ _, .node _ _⟩
    · exact .node _ _
    · exact hremove
  · rcases mem_phase.mp hd with ⟨s, -, -, rfl⟩ | ⟨s, -, -, rfl⟩ | ⟨s, -, -, rfl⟩
    · exact ⟨.edge _ _, .edge _ _⟩
    · exact .edge _ _
    · exact hremove
  · rcases mem_phase.mp hd with ⟨s, -, -, rfl⟩ | ⟨s, -, -, rfl⟩ | ⟨s, -, -, rfl⟩
    · exact ⟨.edgeLabel rfl, .edgeLabel rfl⟩
    · exact .edgeLabel rfl
    · exact hremove

/-- **So does drawing anew.** -/
theorem suits_restyle (v : View α) (h : Hierarchy α) : ∀ d ∈ v.restyle h, d.Only Visual.Suits := by
  intro d hd
  rcases List.mem_append.mp hd with hd | hd
  · obtain ⟨s, -, rfl⟩ := List.mem_map.mp hd
    exact .node _ _
  · obtain ⟨s, -, rfl⟩ := List.mem_map.mp hd
    exact .edge _ _

end View

/-! ### Sessions -/

namespace Session

variable [Scalar α] [Printed α]

/-- **Nothing is ever shown under a key of another kind**, and labels follow the edges of their own ids. -/
theorem suits_play (doc : Document α) (settings : Settings α) (initial : InitialSelection)
    (steps : List (Step α)) : (play doc settings initial steps).scene.Only Visual.Suits := by
  refine only_play Visual.lasting_suits (View.suits_reconcile _ none _) (fun before st change hanswer => ?_)
    steps
  have hnamed := ((tied_start doc initial settings).run before).serves.named
  rcases Diagram.pass_of_answer hnamed hanswer with
    ⟨v, new, -, hpass⟩ | ⟨v, hpass⟩
  · rw [hpass]
    exact v.suits_reconcile _ new
  · rw [hpass]
    exact v.suits_restyle _

theorem inscribed_start (doc : Document α) (initial : InitialSelection) (settings : Settings α) :
    (start doc initial settings).scene.Inscribed := by
  obtain ⟨-, hleads⟩ := Diagram.start_spec doc initial settings
  refine Scene.inscribed_empty.applyPass Scene.ordered_empty Scene.holds_empty hleads ?_
  refine View.removesAlike_reconcile (fun _ hh => nomatch hh) ?_
  exact Series.named_build doc.data settings.canvas _ (List.get_mem _ _)

/-- An answer keeps every edge with its label. -/
theorem inscribed_follow {s : Session α} {doc : Document α} {settings : Settings α}
    (htied : s.Tied doc settings) (h : s.scene.Inscribed) {st : Step α} {change : Change α}
    (hanswer : s.diagram.answer st = some change) : (s.follow (some change)).scene.Inscribed := by
  have hsteady := htied.agrees.steady
  have hnamed := htied.serves.named
  refine h.applyPass htied.agrees.ordered htied.agrees.holds (Diagram.answer_spec hsteady hanswer).2 ?_
  rcases Diagram.pass_of_answer hnamed hanswer with ⟨v, new, hnew, hpass⟩ | ⟨v, hpass⟩
  · rw [hpass]
    exact View.removesAlike_reconcile
      (fun _ hh => Option.some.inj hh ▸ Diagram.named_current hsteady hnamed) hnew
  · rw [hpass]
    exact v.removesAlike_restyle _

/-- **Every edge keeps its label** at all times. -/
theorem inscribed_play (doc : Document α) (settings : Settings α) (initial : InitialSelection)
    (steps : List (Step α)) : (play doc settings initial steps).scene.Inscribed := by
  refine (keeps_run (P := fun s => s.Tied doc settings ∧ s.scene.Inscribed) (fun s hs st => ?_)
    ⟨tied_start doc initial settings, inscribed_start doc initial settings⟩ steps).2
  refine ⟨hs.1.step st, ?_⟩
  exact keeps_step (P := fun s => s.scene.Inscribed) hs.2 (fun ms => hs.2.advance hs.1.agrees.ordered ms)
    (fun _ _ hanswer => inscribed_follow hs.1 hs.2 hanswer) st

/-- **The elements of one node move in lockstep**, in any session and at any moment, although labels are not
mentioned when a tree is drawn anew: an edge is there if and only if its label is, its node is there too, all
three are about to go or none is, and they disappear in one moment.  So every picture of the scene, with
whatever settings, shows every label once, along the path that is drawn for the edge of the same id, and no
two paths have the same name. -/
theorem elements_move_in_lockstep (doc : Document α) (settings : Settings α) (initial : InitialSelection)
    (steps : List (Step α)) :
    (play doc settings initial steps).scene.Lockstep ∧
      ∀ drawn : Settings α, Drawing.Complete drawn (play doc settings initial steps).scene := by
  have h := (tied_start doc initial settings).run steps
  have hinscribed := inscribed_play doc settings initial steps
  have hsuits := suits_play doc settings initial steps
  exact ⟨Scene.lockstep h.agrees.ordered h.attached hinscribed hsuits,
    fun drawn => Drawing.complete drawn h.agrees.ordered hinscribed hsuits⟩

end Session

end FlowTree
