import FlowTree.Drawing
import FlowTree.Proofs.Hierarchy.Places
import FlowTree.Proofs.Scene.Rest
import FlowTree.Proofs.Session.Agreement

/-!
# The picture at rest

Once a session has come to rest, its scene is the picture of the tree on show and remembers nothing of
the way that led to it.

* **`Diagram.portrait`** is this picture, computed afresh from the run on show and the selection.
* **`Diagram.Serves`** says that a diagram still shows its document with its settings.
* **`Diagram.Paints`** says that a pass aims every element at the new picture, unless its part of the old
  one stays; **`Diagram.answer_paints`** says so for every answer.
* **`Session.Faithful`** is the invariant of a session: every element is on its way to its part of the
  picture.
* **`Session.settle_forgets_history`** says what a scene at rest consists of, and that two sessions with the
  same selection and the same collapsed nodes end with the same picture.
-/

namespace FlowTree

section Pictures

variable {α : Type} [Scalar α] [Printed α]

/-! ### Pictures -/

namespace View

/-- The elements that show a list of nodes at rest, the root being the first one. -/
def portrait (v : View α) (spots : List (Spot α)) : List (SceneElement α) :=
  spots.map (fun s => { key := ⟨.node, s.id⟩, visual := v.settledNode s })
    ++ spots.tail.map (fun s => { key := ⟨.edge, s.id⟩, visual := .edge (v.settledEdge s) })
    ++ spots.tail.map fun s =>
      { key := ⟨.edgeLabel, s.id⟩, visual := .edgeLabel (edgeLabelVisual s Scalar.one) }

theorem map_key_portrait (v : View α) (spots : List (Spot α)) :
    (v.portrait spots).map (·.key) = keysOf (spots.map (·.id)) := by
  simp only [portrait, keysOf, List.map_append, List.map_map, ← List.map_tail]
  rfl

/-- Nothing of a picture is about to go or on its way. -/
theorem still_of_mem_portrait {v : View α} {spots : List (Spot α)} {e : SceneElement α}
    (he : e ∈ v.portrait spots) : e.exiting = false ∧ e.transition = none := by
  rw [portrait, List.mem_append, List.mem_append] at he
  rcases he with (he | he) | he <;>
  · obtain ⟨s, -, rfl⟩ := List.mem_map.mp he
    exact ⟨rfl, rfl⟩

/-- A picture shows what can be seen. -/
theorem portrait_congr (v : View α) {spots spots' : List (Spot α)}
    (h : spots.map Spot.sight = spots'.map Spot.sight) : v.portrait spots = v.portrait spots' := by
  have htail : spots.tail.map Spot.sight = spots'.tail.map Spot.sight := by
    rw [List.map_tail, List.map_tail, h]
  rw [portrait, portrait]
  congr 1
  · congr 1
    · refine Spot.map_eq_map (fun s s' hs => ?_) h
      rw [(Spot.sight_eq_iff.mp hs).1, v.settledNode_congr hs]
    · refine Spot.map_eq_map (fun s s' hs => ?_) htail
      rw [(Spot.sight_eq_iff.mp hs).1, v.settledEdge_congr hs]
  · refine Spot.map_eq_map (fun s s' hs => ?_) htail
    rw [(Spot.sight_eq_iff.mp hs).1, edgeLabelVisual_congr hs]

/-! ### What passes aim at -/

/-- Some directive of the pass aims the element at the given visual. -/
def Aims (pass : Pass α) (e : SceneElement α) : Prop :=
  ∃ d ∈ pass, d.key = e.key ∧ d.goal? = some e.visual

theorem sights_new (v : View α) (old : Option (Hierarchy α)) (new : Hierarchy α) :
    (v.reconcile old new).new.spots.map Spot.sight =
      (inherit ((old.map (·.descendants)).getD []) (new.layout v.canvas)).spots.map
        Spot.sight := by
  rw [reconcile, rest, Hierarchy.sights_updateShown]
  exact fun _ => ⟨rfl, rfl, rfl, rfl⟩

/-- **A reconciliation** aims every element of the new picture. -/
theorem aims_reconcile (v : View α) (old : Option (Hierarchy α)) (new : Hierarchy α) :
    ∀ e ∈ v.portrait (v.reconcile old new).new.spots, Aims (v.reconcile old new).pass e := by
  intro e he
  rw [v.portrait_congr (sights_new v old new), portrait, List.mem_append, List.mem_append] at he
  rcases he with (he | he) | he
  · obtain ⟨s, hs, rfl⟩ := List.mem_map.mp he
    obtain ⟨d, hd, hkey, hgoal⟩ := v.exists_mem_phase _ .node
      (fun s => ⟨show (v.createNode s).key = _ from rfl, rfl⟩)
      (fun s => ⟨show (v.updateNode s).key = _ from rfl, rfl⟩) hs
    exact ⟨d, List.mem_append_left _ (List.mem_append_left _ hd), hkey, hgoal⟩
  · obtain ⟨s, hs, rfl⟩ := List.mem_map.mp he
    obtain ⟨d, hd, hkey, hgoal⟩ := v.exists_mem_phase _ .edge
      (fun s => ⟨show (v.createEdge s).key = _ from rfl, rfl⟩)
      (fun s => ⟨show (v.updateEdge s).key = _ from rfl, rfl⟩) hs
    exact ⟨d, List.mem_append_left _ (List.mem_append_right _ hd), hkey, hgoal⟩
  · obtain ⟨s, hs, rfl⟩ := List.mem_map.mp he
    obtain ⟨d, hd, hkey, hgoal⟩ := v.exists_mem_phase _ .edgeLabel
      (fun s => ⟨show (v.createLabel s).key = _ from rfl, rfl⟩)
      (fun s => ⟨show (v.updateLabel s).key = _ from rfl, rfl⟩) hs
    exact ⟨d, List.mem_append_right _ hd, hkey, hgoal⟩

/-- **Drawing anew** aims the nodes and the edges; labels look the same with every selection. -/
theorem aims_restyle (v v' : View α) (h : Hierarchy α) :
    ∀ e ∈ v.portrait h.spots,
      Aims (v.restyle h) e ∨ e ∈ v'.portrait h.spots ∧ e.key ∉ (v.restyle h).map (·.key) := by
  intro e he
  rw [portrait, List.mem_append, List.mem_append] at he
  rcases he with (he | he) | he
  · obtain ⟨s, hs, rfl⟩ := List.mem_map.mp he
    exact Or.inl ⟨v.updateNode s, List.mem_append_left _ (List.mem_map_of_mem hs), rfl, rfl⟩
  · obtain ⟨s, hs, rfl⟩ := List.mem_map.mp he
    exact Or.inl ⟨v.updateEdge s, List.mem_append_right _ (List.mem_map_of_mem hs), rfl, rfl⟩
  · refine Or.inr ⟨List.mem_append_right _ he, ?_⟩
    obtain ⟨s, hs, rfl⟩ := List.mem_map.mp he
    intro hkey
    rw [restyle, List.map_append, List.map_map, List.map_map] at hkey
    rcases List.mem_append.mp hkey with hkey | hkey <;>
    · obtain ⟨s', -, heq⟩ := List.mem_map.mp hkey
      injection heq with hkind
      cases hkind

end View

/-- The picture of the run on show, placed and drawn afresh with the current selection. -/
def Diagram.portrait (d : Diagram α) : List (SceneElement α) :=
  d.view.portrait (d.shownRun.tree.layout d.canvas).spots

/-! ### What a diagram keeps of its document -/

namespace Diagram

/-- The diagram still shows the document with the settings it was made from: its tables and measures
are those of the beginning, and so are the ids and the informations of all runs. -/
structure Serves (d : Diagram α) (doc : Document α) (settings : Settings α) : Prop where
  scales : d.scales =
    .of doc.data ⟨settings.style.minStrokeWidth, settings.style.maxStrokeWidth⟩
  metadata : d.metadata = doc.metadata
  canvas : d.canvas = settings.canvas
  style : d.style = settings.style
  skeletons : d.runs.map (·.tree.skeleton) =
    (Series.build doc.data settings.canvas).map (·.tree.skeleton)

theorem Serves.render {d : Diagram α} {doc : Document α} {settings : Settings α}
    (h : d.Serves doc settings) (old : Option (Hierarchy α)) :
    (d.render old).diagram.Serves doc settings :=
  { h with
    skeletons := (skeletons_withTree (d.view.skeleton_new old d.shownRun.tree)).trans h.skeletons }

theorem serves_start (doc : Document α) (initial : InitialSelection) (settings : Settings α) :
    (ofDocument doc initial settings).diagram.Serves doc settings :=
  Serves.render ⟨rfl, rfl, rfl, rfl, rfl⟩ none

/-- Every answer keeps to the document. -/
theorem Serves.answer {d : Diagram α} {doc : Document α} {settings : Settings α}
    (h : d.Serves doc settings) {st : Step α} {change : Change α}
    (hanswer : d.answer st = some change) : change.diagram.Serves doc settings := by
  cases answers_of_answer hanswer with
  | setDate found events =>
    exact Serves.render (d := d.withDate _ _ _ (Series.locate?_run_lt found))
      ⟨h.scales, h.metadata, h.canvas, h.style, h.skeletons⟩ (some d.current)
  | @toggleBranch _ _ tree shown toggled events =>
    have hskeletons := skeletons_withTree (Hierarchy.skeleton_toggle? toggled)
    exact Serves.render (d := d.withTree tree)
      ⟨h.scales, h.metadata, h.canvas, h.style, hskeletons.trans h.skeletons⟩ (some d.current)
  | setEdgeAttribute key => exact ⟨h.scales, h.metadata, h.canvas, h.style, h.skeletons⟩
  | setNodeAttribute key => exact ⟨h.scales, h.metadata, h.canvas, h.style, h.skeletons⟩

end Diagram

theorem Session.serves_run {s : Session α} {doc : Document α} {settings : Settings α}
    (h : s.diagram.Serves doc settings) (steps : List (Step α)) :
    (s.run steps).diagram.Serves doc settings := by
  refine keeps_run (P := fun s => s.diagram.Serves doc settings) (fun s hs st => ?_) h steps
  exact keeps_step (P := fun s => s.diagram.Serves doc settings) hs (fun _ => hs)
    (fun _ _ hanswer => hs.answer hanswer) st

end Pictures

section Exact

variable [Printed ℚ]

/-! ### What answers aim at -/

namespace Diagram

/-- The tree on show is placed, and the pass aims every element at its part of the picture unless it has
been aimed at that part before. -/
structure Paints (before : List (SceneElement ℚ)) (d : Diagram ℚ) (pass : Pass ℚ) : Prop where
  placed : d.shownRun.tree.Placed d.canvas
  aims : ∀ e ∈ d.portrait, View.Aims pass e ∨ e ∈ before ∧ e.key ∉ pass.map (·.key)

theorem portrait_eq {d : Diagram ℚ} (h : d.shownRun.tree.Placed d.canvas) :
    d.portrait = d.view.portrait d.shownRun.tree.spots :=
  d.view.portrait_congr (Hierarchy.sights_layout h)

theorem placed_new (v : View ℚ) (old : Option (Hierarchy ℚ)) (new : Hierarchy ℚ) :
    (v.reconcile old new).new.Placed v.canvas := by
  refine Hierarchy.Placed.congr ?_ (Hierarchy.placed_layout new v.canvas)
  rw [View.reconcile, View.rest, Hierarchy.map_updateShown, View.inherit, Hierarchy.map_updateShown]
  · intro n
    split <;> rfl
  · exact fun _ => rfl

theorem render_paints (d : Diagram ℚ) (old : Option (Hierarchy ℚ))
    (before : List (SceneElement ℚ)) :
    Paints before (d.render old).diagram (d.render old).pass := by
  have htree : (d.render old).diagram.shownRun.tree =
      (d.view.reconcile old d.shownRun.tree).new := shownRun_withTree d _
  have hplaced : (d.render old).diagram.shownRun.tree.Placed (d.render old).diagram.canvas := by
    rw [htree]
    exact placed_new d.view old d.shownRun.tree
  refine ⟨hplaced, fun e he => Or.inl ?_⟩
  rw [portrait_eq hplaced, htree] at he
  exact d.view.aims_reconcile old d.shownRun.tree e he

theorem restyle_paints {d : Diagram ℚ} (h : d.shownRun.tree.Placed d.canvas) (v : View ℚ) :
    Paints (v.portrait d.shownRun.tree.spots) d.restyle.diagram d.restyle.pass := by
  refine ⟨h, ?_⟩
  intro e he
  have he' : e ∈ d.view.portrait d.shownRun.tree.spots := by
    rw [← portrait_eq h]
    exact he
  exact d.view.aims_restyle v d.shownRun.tree e he'

/-- **Every answer** aims at the new picture. -/
theorem answer_paints {d : Diagram ℚ} (h : d.shownRun.tree.Placed d.canvas) {st : Step ℚ}
    {change : Change ℚ} (hanswer : d.answer st = some change) :
    Paints d.portrait change.diagram change.pass := by
  cases answers_of_answer hanswer with
  | setDate found events =>
    exact (d.withDate _ _ _ (Series.locate?_run_lt found)).render_paints (some d.current) d.portrait
  | @toggleBranch _ _ tree shown toggled events =>
    exact (d.withTree tree).render_paints (some d.current) d.portrait
  | setEdgeAttribute key =>
    rw [portrait_eq h]
    exact restyle_paints (d := { d with selection := { d.selection with edgeKey := key } }) h d.view
  | setNodeAttribute key =>
    rw [portrait_eq h]
    exact restyle_paints (d := { d with selection := { d.selection with nodeKey := key } }) h d.view

end Diagram

/-! ### Elements on their way to the picture -/

namespace Session

/-- Every element is on its way to its part of the picture. -/
structure Faithful (s : Session ℚ) : Prop where
  agrees : s.Agrees
  leaving : s.scene.Leaving
  placed : s.diagram.shownRun.tree.Placed s.diagram.canvas
  goals : ∀ e ∈ s.diagram.portrait, s.scene.goal? e.key = some e.visual

/-- A pass that paints brings the scene on its way to the picture. -/
theorem goals_applyPass {scene : Scene ℚ} (ho : scene.Ordered) {before : List (SceneElement ℚ)}
    (hbefore : ∀ e ∈ before, scene.goal? e.key = some e.visual) {change : Change ℚ}
    (hnodup : (change.pass.map (·.key)).Nodup)
    (hpaints : Diagram.Paints before change.diagram change.pass) :
    ∀ e ∈ change.diagram.portrait,
      (scene.applyPass change.pass).goal? e.key = some e.visual := by
  intro e he
  rcases hpaints.aims e he with ⟨d, hd, hkey, hgoal⟩ | ⟨hmem, hkey⟩
  · rw [← hkey, Scene.goal?_applyPass ho hnodup hd, hgoal]
  · rw [Scene.goal?_applyPass_of_not_mem ho hkey, hbefore e hmem]

theorem faithful_start (doc : Document ℚ) (initial : InitialSelection) (settings : Settings ℚ) :
    (start doc initial settings).Faithful := by
  have hpaints : Diagram.Paints [] (Diagram.ofDocument doc initial settings).diagram
      (Diagram.ofDocument doc initial settings).pass :=
    Diagram.render_paints _ none []
  refine ⟨agrees_start doc initial settings, ?_, hpaints.placed, ?_⟩
  · exact Scene.leaving_empty.applyPass Scene.ordered_empty _
  · exact goals_applyPass Scene.ordered_empty (by simp)
      (Diagram.start_spec doc initial settings).2.nodup hpaints

theorem Faithful.follow {s : Session ℚ} (h : s.Faithful) {st : Step ℚ} {change : Change ℚ}
    (hanswer : s.diagram.answer st = some change) : (s.follow (some change)).Faithful := by
  have hpaints := Diagram.answer_paints h.placed hanswer
  exact ⟨h.agrees.follow hanswer, h.leaving.applyPass h.agrees.ordered _, hpaints.placed,
    goals_applyPass h.agrees.ordered h.goals
      (Diagram.answer_spec h.agrees.steady hanswer).2.nodup hpaints⟩

/-- One step keeps every element on its way. -/
theorem Faithful.step {s : Session ℚ} (h : s.Faithful) (st : Step ℚ) : (s.step st).Faithful := by
  refine keeps_step h (fun ms => ?_) (fun st change hanswer => h.follow hanswer) st
  refine ⟨h.agrees.step (.advance ms), h.leaving.advance h.agrees.ordered ms, h.placed, ?_⟩
  intro e he
  show (s.scene.advance ms).goal? e.key = _
  rw [h.agrees.ordered.goal?_advance]
  exact h.goals e he

theorem Faithful.run {s : Session ℚ} (h : s.Faithful) (steps : List (Step ℚ)) :
    (s.run steps).Faithful :=
  keeps_run (fun _ hs st => hs.step st) h steps

/-! ### Rest -/

/-- The picture has an element for every element of the tree that has been drawn. -/
theorem Faithful.map_key_portrait {s : Session ℚ} (h : s.Faithful) :
    s.diagram.portrait.map (·.key) = keysOf s.diagram.current.ids := by
  rw [Diagram.portrait_eq h.placed, View.map_key_portrait, Hierarchy.spots_map_id,
    h.agrees.steady.current_eq, Hierarchy.ids_prune]

theorem Faithful.nodup_portrait {s : Session ℚ} (h : s.Faithful) :
    (s.diagram.portrait.map (·.key)).Nodup := by
  rw [h.map_key_portrait]
  exact nodup_keysOf h.agrees.steady.ids_nodup

/-- **At rest the scene is the picture.** -/
theorem Faithful.settle_perm {s : Session ℚ} (h : s.Faithful) :
    s.scene.settle.elements.Perm s.diagram.portrait := by
  have hordered : s.scene.settle.Ordered := h.agrees.ordered.settle
  have hnodup : s.scene.settle.elements.Nodup := by
    refine List.Pairwise.imp ?_ hordered
    rintro a b hbefore rfl
    exact ElementKey.not_before_self _ hbefore
  rw [List.perm_ext_iff_of_nodup hnodup (List.Nodup.of_map _ h.nodup_portrait)]
  intro e
  rw [Scene.mem_settle_iff h.agrees.ordered h.leaving]
  constructor
  · rintro ⟨hgoal, hexiting, htransition⟩
    have hkey : e.key ∈ s.diagram.portrait.map (·.key) := by
      rw [h.map_key_portrait, ← h.agrees.holds, hgoal]
      rfl
    obtain ⟨e', he', heq⟩ := List.mem_map.mp hkey
    have hgoal' := h.goals e' he'
    obtain ⟨hexiting', htransition'⟩ := View.still_of_mem_portrait he'
    rw [heq, hgoal, Option.some.injEq] at hgoal'
    have hsame : e' = e := SceneElement.ext heq hgoal'.symm (hexiting'.trans hexiting.symm)
      (htransition'.trans htransition.symm)
    exact hsame ▸ he'
  · intro he
    exact ⟨h.goals e he, View.still_of_mem_portrait he⟩

omit [Printed ℚ] in
/-- Scenes in order with the same elements list them alike. -/
theorem elements_eq_of_perm {s s' : Scene ℚ} (h : s.Ordered) (h' : s'.Ordered)
    (hperm : s.elements.Perm s'.elements) : s.elements = s'.elements := by
  refine List.Perm.eq_of_pairwise ?_ h h' hperm
  intro a b _ _ hab hba
  exact absurd (ElementKey.before_trans hab hba) (ElementKey.not_before_self _)

/-- Diagrams of one document with the same selection and the same collapsed nodes have one picture. -/
theorem portrait_congr {d d' : Diagram ℚ} {doc : Document ℚ} {settings : Settings ℚ}
    (h : d.Serves doc settings) (h' : d'.Serves doc settings) (hsteady : d.Steady)
    (hselection : d.selection = d'.selection)
    (hcollapsed : ∀ id,
      id ∈ d.shownRun.tree.collapsedIds ↔ id ∈ d'.shownRun.tree.collapsedIds) :
    d.portrait = d'.portrait := by
  have hview : d.view = d'.view := by
    rw [Diagram.view, Diagram.view, hselection, h.scales, h.metadata, h.canvas, h.style, h'.scales,
      h'.metadata, h'.canvas, h'.style]
  have hskeleton : d.shownRun.tree.skeleton = d'.shownRun.tree.skeleton :=
    Diagram.skeleton_shownRun_eq (h.skeletons.trans h'.skeletons.symm) hselection
  have houtline : d.shownRun.tree.outline = d'.shownRun.tree.outline :=
    Hierarchy.outline_congr (hsteady.distinct _ d.shownRun_mem) hskeleton hcollapsed
  rw [Diagram.portrait, Diagram.portrait, hview, h.canvas, h'.canvas]
  exact d'.view.portrait_congr (Hierarchy.sights_layout_congr houtline settings.canvas)

/-- **The picture at rest does not remember the way.**  Once a session has settled, its scene consists
of the picture of the run on show, drawn afresh with the current selection: one element for every
element of the tree that has been drawn, none of them about to go or on its way.  So two sessions over
one document that end with the same selection and the same collapsed nodes end with the same elements
and the same drawing. -/
theorem settle_forgets_history (doc : Document ℚ) (settings : Settings ℚ)
    (initial initial' : InitialSelection) (steps steps' : List (Step ℚ)) :
    ((play doc settings initial steps).scene.settle.elements.Perm
        (play doc settings initial steps).diagram.portrait ∧
      ((play doc settings initial steps).scene.settle.elements.map (·.key)).Perm
        (play doc settings initial steps).diagram.current.elementKeys ∧
      ∀ e ∈ (play doc settings initial steps).scene.settle.elements,
        e.exiting = false ∧ e.isAnimating = false) ∧
    ((play doc settings initial steps).diagram.selection =
        (play doc settings initial' steps').diagram.selection →
      (∀ id, id ∈ (play doc settings initial steps).diagram.shownRun.tree.collapsedIds ↔
        id ∈ (play doc settings initial' steps').diagram.shownRun.tree.collapsedIds) →
      (play doc settings initial steps).scene.settle.elements =
          (play doc settings initial' steps').scene.settle.elements ∧
        Drawing.svg settings (play doc settings initial steps).scene.settle =
          Drawing.svg settings (play doc settings initial' steps').scene.settle) := by
  have h := (faithful_start doc initial settings).run steps
  have h' := (faithful_start doc initial' settings).run steps'
  refine ⟨⟨h.settle_perm, ?_, ?_⟩, fun hselection hcollapsed => ?_⟩
  · have hkeys := h.settle_perm.map (·.key)
    rw [h.map_key_portrait, h.agrees.steady.current_eq] at hkeys
    rw [play, h.agrees.steady.current_eq]
    exact hkeys.trans (Hierarchy.elementKeys_prune _).symm
  · intro e he
    obtain ⟨-, hexiting, htransition⟩ :=
      (Scene.mem_settle_iff h.agrees.ordered h.leaving).mp he
    rw [SceneElement.isAnimating, htransition]
    exact ⟨hexiting, rfl⟩
  · have hserves := serves_run (s := start doc initial settings)
      (Diagram.serves_start doc initial settings) steps
    have hserves' := serves_run (s := start doc initial' settings)
      (Diagram.serves_start doc initial' settings) steps'
    have hportrait := portrait_congr hserves hserves' h.agrees.steady hselection hcollapsed
    have helements : (play doc settings initial steps).scene.settle.elements =
        (play doc settings initial' steps').scene.settle.elements := by
      refine elements_eq_of_perm h.agrees.ordered.settle h'.agrees.ordered.settle ?_
      refine h.settle_perm.trans ?_
      rw [hportrait]
      exact h'.settle_perm.symm
    refine ⟨helements, ?_⟩
    rw [Drawing.svg, Drawing.svg, Drawing.markup, Drawing.markup, helements]

end Session

end Exact

namespace Session

/-- A root that has been folded and unfolded, with a look at an unknown date in between, and one that has
been left alone end with the same elements and the same drawing. -/
theorem settle_forgets_history_refolded :
    (play pair .default {}
          [.toggleBranch "R", .advance 100, .setDate "2", .toggleBranch "R"]).scene.settle.elements =
        (play pair .default { date := "9" } []).scene.settle.elements ∧
      Drawing.svg .default (play pair .default {}
          [.toggleBranch "R", .advance 100, .setDate "2", .toggleBranch "R"]).scene.settle =
        Drawing.svg .default (play pair .default { date := "9" } []).scene.settle := by
  have hselection :
      (play pair .default {}
          [.toggleBranch "R", .advance 100, .setDate "2", .toggleBranch "R"]).diagram.selection =
        (play pair .default { date := "9" } []).diagram.selection := by
    decide +kernel
  have hcollapsed :
      (play pair .default {} [.toggleBranch "R", .advance 100, .setDate "2",
          .toggleBranch "R"]).diagram.shownRun.tree.collapsedIds =
        (play pair .default { date := "9" } []).diagram.shownRun.tree.collapsedIds := by
    decide +kernel
  exact (settle_forgets_history pair .default {} { date := "9" } _ _).2 hselection
    fun id => by rw [hcollapsed]

end Session

end FlowTree
