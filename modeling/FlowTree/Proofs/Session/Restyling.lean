import FlowTree.Proofs.Session.Sound
import FlowTree.Proofs.Unread

/-!
# Drawing anew and drawing in full

A change of attributes draws the tree on show anew, without placing it and without a look at what was drawn
before.  It gives the same directives as a full pass over the same tree, which only adds the labels, and
these look as they did when they were mentioned last.

* **`View.pass_of_same`** is the full pass over a tree that is drawn already.
* **`Session.drawings`** are the full passes of a sequence of changes, **`Pass.lastMention`** finds the last
  directive about an element in them.
* **`Diagram.Labelled`** says that every label has last been sent where it is at rest;
  **`Diagram.labelled_render`** establishes it and **`Session.labelled_play`** keeps it.
* **`Session.restyling_agrees_with_drawing`** compares the two passes.
-/

namespace FlowTree

variable {α : Type}

/-! ### Full passes over the same tree -/

namespace View

/-- If the same nodes are on show before and after, nothing comes and nothing goes. -/
theorem phase_of_same (v : View α) (target : String → Point α) (kind : ElementKind)
    (create update : Spot α → Directive α) {old new : List (Spot α)}
    (h : old.map (·.id) = new.map (·.id)) :
    v.phase target kind create update old new = new.map update := by
  have hcreate : new.filter (fun s => !(old.map (·.id)).contains s.id) = [] := by
    rw [List.filter_eq_nil_iff]
    intro s hs
    simpa [h] using ⟨s, hs, rfl⟩
  have hupdate : new.filter (fun s => (old.map (·.id)).contains s.id) = new := by
    rw [List.filter_eq_self]
    intro s hs
    simpa [h] using ⟨s, hs, rfl⟩
  have hremove : old.filter (fun s => !(new.map (·.id)).contains s.id) = [] := by
    rw [List.filter_eq_nil_iff]
    intro s hs
    simpa [← h] using ⟨s, hs, rfl⟩
  simp only [phase]
  rw [hcreate, hupdate, hremove, List.map_nil, List.map_nil, List.nil_append, List.append_nil]

variable [Scalar α]

theorem sights_coming (v : View α) (old : Option (Hierarchy α)) {new : Hierarchy α}
    (hplaced : new.Placed v.canvas) :
    (v.coming old new).map Spot.sight = new.spots.map Spot.sight := by
  refine (Hierarchy.sights_updateShown (fun n => ?_) (new.layout v.canvas)).trans
    (Hierarchy.sights_layout hplaced)
  split <;> exact ⟨rfl, rfl, rfl, rfl⟩

variable [Printed α]

/-- **The full pass over a tree that is drawn already** is that of drawing anew with the labels added. -/
theorem pass_of_same (v : View α) {old new : Hierarchy α} (hids : old.ids = new.ids)
    (hplaced : new.Placed v.canvas) :
    (v.reconcile (some old) new).pass = v.restyle new ++ new.spots.tail.map v.updateLabel := by
  have hsame : (v.leaving (some old) new).map (·.id) = (v.coming (some old) new).map (·.id) := by
    rw [map_id_leaving, map_id_coming]
    exact hids
  have hsameTail : (v.leaving (some old) new).tail.map (·.id) =
      (v.coming (some old) new).tail.map (·.id) := by
    rw [List.map_tail, List.map_tail, hsame]
  have hsights := v.sights_coming (some old) hplaced
  have hsightsTail : (v.coming (some old) new).tail.map Spot.sight = new.spots.tail.map Spot.sight := by
    rw [List.map_tail, List.map_tail, hsights]
  rw [pass_reconcile]
  show v.phase _ _ _ _ _ _ ++ v.phase _ _ _ _ _ _ ++ v.phase _ _ _ _ _ _ = _
  rw [v.phase_of_same _ _ _ _ hsame, v.phase_of_same _ _ _ _ hsameTail,
    v.phase_of_same _ _ _ _ hsameTail, restyle,
    Spot.map_eq_map (fun _ _ => v.updateNode_congr) hsights,
    Spot.map_eq_map (fun _ _ => v.updateEdge_congr) hsightsTail,
    Spot.map_eq_map (fun _ _ => v.updateLabel_congr) hsightsTail]

/-- Drawing anew leaves the labels alone and creates and removes nothing. -/
theorem isUpdate_of_mem_restyle {v : View α} {h : Hierarchy α} {d : Directive α} (hd : d ∈ v.restyle h) :
    d.isUpdate = true ∧ d.key.kind ≠ .edgeLabel := by
  rcases List.mem_append.mp hd with hd | hd
  · obtain ⟨s, -, rfl⟩ := List.mem_map.mp hd
    exact ⟨rfl, ElementKind.noConfusion⟩
  · obtain ⟨s, -, rfl⟩ := List.mem_map.mp hd
    exact ⟨rfl, ElementKind.noConfusion⟩

end View

/-- Directives about other elements and about those of one kind can be told apart again. -/
theorem Pass.parts_of_append {p q : Pass α} {kind : ElementKind} (hp : ∀ d ∈ p, d.key.kind ≠ kind)
    (hq : ∀ d ∈ q, d.key.kind = kind) :
    (p ++ q).filter (fun d => d.key.kind ≠ kind) = p ∧ ofKind (p ++ q) kind = q := by
  constructor
  · rw [List.filter_append, List.filter_eq_self.mpr fun d hd => ?_,
      List.filter_eq_nil_iff.mpr fun d hd => ?_, List.append_nil]
    · simpa using hq d hd
    · simpa using hp d hd
  · rw [ofKind, List.filter_append, List.filter_eq_nil_iff.mpr fun d hd => ?_,
      List.filter_eq_self.mpr fun d hd => ?_, List.nil_append]
    · simpa using hq d hd
    · simpa using hp d hd

/-! ### The last mention of a label -/

/-- The last directive about an element in a sequence of passes. -/
def Pass.lastMention (passes : List (Pass α)) (key : ElementKey) : Option (Directive α) :=
  passes.reverse.findSome? fun p => p.find? key

theorem Pass.lastMention_concat (passes : List (Pass α)) (p : Pass α) (key : ElementKey) :
    lastMention (passes ++ [p]) key = (p.find? key).or (lastMention passes key) := by
  rw [lastMention, List.reverse_append, List.findSome?_append]
  simp [lastMention]

variable [Scalar α] [Printed α]

/-- The pass of a step that draws a run in full; none if the step fails or asks for something else. -/
def Diagram.drawing? (d : Diagram α) : Step α → Option (Pass α)
  | .setDate date => (d.answer (.setDate date)).map (·.pass)
  | .toggleBranch id => (d.answer (.toggleBranch id)).map (·.pass)
  | _ => none

/-- The full passes of a session: the first one, and those with which dates and toggles are answered. -/
def Session.drawings (doc : Document α) (settings : Settings α) (initial : InitialSelection)
    (steps : List (Step α)) : List (Pass α) :=
  (Diagram.ofDocument doc initial settings).pass ::
    (start doc initial settings).record Diagram.drawing? steps

namespace Diagram

/-- Every label on show has last been sent where it is at rest. -/
def Labelled (d : Diagram α) (passes : List (Pass α)) : Prop :=
  ∀ s ∈ d.shownRun.tree.spots.tail, ∃ last, Pass.lastMention passes ⟨.edgeLabel, s.id⟩ = some last ∧
    last.goal? = some (.edgeLabel (View.edgeLabelVisual s Scalar.one))

/-- A full pass mentions all labels. -/
theorem labelled_render {d : Diagram α} (hd : ∀ r ∈ d.runs, r.tree.Named) (before : Option (Hierarchy α))
    (hbefore : (View.oldIds before).Nodup) (passes : List (Pass α)) :
    (d.render before).diagram.Labelled (passes ++ [(d.render before).pass]) := by
  have hnodup := (render_spec (fun r hr => (hd r hr).distinct) hbefore).2.nodup
  intro s hs
  have htree : (d.render before).diagram.shownRun.tree =
      (d.view.reconcile before d.shownRun.tree).new := shownRun_withTree d _
  rw [htree] at hs
  obtain ⟨last, hmem, hkey, hgoal⟩ := d.view.aims_reconcile before d.shownRun.tree
    { key := ⟨.edgeLabel, s.id⟩, visual := .edgeLabel (View.edgeLabelVisual s Scalar.one) }
    (List.mem_append_right _ (List.mem_map_of_mem hs))
  refine ⟨last, ?_, hgoal⟩
  have hfind : (d.render before).pass.find? last.key = some last :=
    find?_of_nodup_map (fun dir : Directive α => dir.key) hnodup hmem
  rw [hkey] at hfind
  rw [Pass.lastMention_concat, hfind, Option.some_or]

/-- Every answer keeps the labels where they were sent last. -/
theorem Labelled.answer {d : Diagram α} (hd : d.Sound) {passes : List (Pass α)} (h : d.Labelled passes)
    {st : Step α} {change : Change α} (hanswer : d.answer st = some change) :
    change.diagram.Labelled (passes ++ (d.drawing? st).toList) := by
  have hnodup : (View.oldIds (some d.current)).Nodup := Hierarchy.ids_nodup hd.current_named.distinct
  cases answers_of_answer hanswer with
  | @setDate date _ _ found events =>
    have hdrawing : d.drawing? (.setDate date) = _ := congrArg (Option.map fun c : Change α => c.pass) hanswer
    rw [hdrawing]
    exact labelled_render (d := d.withDate _ _ _ (Series.locate?_run_lt found)) hd.named _ hnodup passes
  | @toggleBranch id _ tree shown toggled events =>
    have hdrawing : d.drawing? (.toggleBranch id) = _ := congrArg (Option.map fun c : Change α => c.pass) hanswer
    rw [hdrawing]
    refine labelled_render (d := d.withTree tree) (forall_withTree hd.named ?_) _ hnodup passes
    exact hd.shown_named.of_skeleton (Hierarchy.skeleton_toggle? toggled)
  | setEdgeAttribute key =>
    have hdrawing : d.drawing? (.setEdgeAttribute key) = none := rfl
    rw [hdrawing, Option.toList_none, List.append_nil]
    exact h
  | setNodeAttribute key =>
    have hdrawing : d.drawing? (.setNodeAttribute key) = none := rfl
    rw [hdrawing, Option.toList_none, List.append_nil]
    exact h

end Diagram

/-- **At all times** every label on show has last been sent where it is at rest. -/
theorem Session.labelled_play (doc : Document α) (settings : Settings α) (initial : InitialSelection)
    (steps : List (Step α)) :
    (play doc settings initial steps).diagram.Labelled (drawings doc settings initial steps) := by
  have hstart : (start doc initial settings).diagram.Labelled
      ([] ++ [(Diagram.ofDocument doc initial settings).pass]) :=
    Diagram.labelled_render (Series.named_build doc.data settings.canvas) none List.nodup_nil []
  refine (keeps_record Diagram.drawing? (P := fun d passes => d.Sound ∧ d.Labelled passes)
    (fun _ _ _ _ hd hanswer => ⟨hd.1.answer hanswer, hd.2.answer hd.1 hanswer⟩) (fun d st hnone => ?_)
    ⟨sound_play doc settings initial [], hstart⟩ steps).2
  cases st with
  | setDate date => rw [Diagram.drawing?, hnone]; rfl
  | toggleBranch id => rw [Diagram.drawing?, hnone]; rfl
  | _ => rfl

/-! ### Both passes -/

namespace Diagram

/-- The date on show is chosen again. -/
theorem Sound.pass_setDate {d : Diagram α} (h : d.Sound) {full : Change α}
    (hfull : d.setDate d.selection.date = .ok full) (hrun : full.diagram.selection.run = d.selection.run)
    (hindex : full.diagram.selection.dateIndex = d.selection.dateIndex) :
    full.pass = d.restyle.pass ++ d.shownRun.tree.spots.tail.map d.view.updateLabel := by
  have hanswer : d.answer (.setDate d.selection.date) = some full := by
    rw [Diagram.answer, hfull]
    rfl
  cases answers_of_answer hanswer with
  | @setDate _ run index found events =>
    obtain rfl : run = d.selection.run := hrun
    obtain rfl : index = d.selection.dateIndex := hindex
    exact d.view.pass_of_same h.ids_eq h.placed

end Diagram

namespace Session

/-- **Drawing anew agrees with drawing in full.**  Take any sequence of changes, then another attribute, of
edges or of nodes, and then the date on show once more.  If the date is still found where it was, the first
pass consists of the directives of the second one for nodes and edges, in the same order.  The second one
only changes elements, and all it adds is one directive for each label, with the look that this label was
sent to by the last of the full passes that mentioned it. -/
theorem restyling_agrees_with_drawing (doc : Document α) (settings : Settings α)
    (initial : InitialSelection) (steps : List (Step α)) {key : String} {fast full : Change α}
    (hfast : fast = (play doc settings initial steps).diagram.setEdgeAttribute key ∨
      fast = (play doc settings initial steps).diagram.setNodeAttribute key)
    (hfull : fast.diagram.setDate fast.diagram.selection.date = .ok full)
    (hrun : full.diagram.selection.run = fast.diagram.selection.run)
    (hindex : full.diagram.selection.dateIndex = fast.diagram.selection.dateIndex) :
    fast.pass = full.pass.filter (fun d => d.key.kind ≠ .edgeLabel) ∧
      full.pass = fast.pass ++ full.pass.ofKind .edgeLabel ∧
      (∀ d ∈ full.pass, d.isUpdate = true) ∧
      (full.pass.ofKind .edgeLabel).map (·.key) =
        (play doc settings initial steps).diagram.current.ids.tail.map (ElementKey.mk .edgeLabel) ∧
      ∀ d ∈ full.pass.ofKind .edgeLabel, ∃ last look,
        Pass.lastMention (drawings doc settings initial steps) d.key = some last ∧
          last.goal? = some look ∧ d.goal? = some look := by
  have hsound := sound_play doc settings initial steps
  have hlabels := labelled_play doc settings initial steps
  generalize (play doc settings initial steps).diagram = d at *
  -- the diagram is as before up to one of the attributes
  obtain ⟨k, rfl, hk, hcurrent, hshown⟩ : ∃ k : Diagram α, fast = k.restyle ∧ k.Sound ∧
      k.current = d.current ∧ k.shownRun = d.shownRun := by
    rcases hfast with rfl | rfl
    · exact ⟨_, rfl, ⟨hsound.named, hsound.listed, hsound.current_eq, hsound.pruned⟩, rfl, rfl⟩
    · exact ⟨_, rfl, ⟨hsound.named, hsound.listed, hsound.current_eq, hsound.pruned⟩, rfl, rfl⟩
  have hpass : full.pass = k.restyle.pass ++ k.shownRun.tree.spots.tail.map k.view.updateLabel :=
    hk.pass_setDate hfull hrun hindex
  have hrestyle : ∀ dir ∈ k.restyle.pass, dir.isUpdate = true ∧ dir.key.kind ≠ .edgeLabel :=
    fun dir hdir => View.isUpdate_of_mem_restyle hdir
  have hlabel : ∀ dir ∈ k.shownRun.tree.spots.tail.map k.view.updateLabel,
      dir.isUpdate = true ∧ dir.key.kind = .edgeLabel := by
    intro dir hdir
    obtain ⟨s, -, rfl⟩ := List.mem_map.mp hdir
    exact ⟨rfl, rfl⟩
  obtain ⟨hothers, hkind⟩ := Pass.parts_of_append (fun dir hdir => (hrestyle dir hdir).2)
    (fun dir hdir => (hlabel dir hdir).2)
  rw [← hpass] at hothers hkind
  rw [hothers, hkind]
  refine ⟨rfl, hpass, fun dir hdir => ?_, ?_, fun dir hdir => ?_⟩
  · rw [hpass] at hdir
    rcases List.mem_append.mp hdir with hdir | hdir
    · exact (hrestyle dir hdir).1
    · exact (hlabel dir hdir).1
  · rw [← hcurrent, hk.ids_eq, ← Hierarchy.spots_map_id, ← List.map_tail, List.map_map, List.map_map]
    rfl
  · obtain ⟨s, hs, rfl⟩ := List.mem_map.mp hdir
    rw [hshown] at hs
    obtain ⟨last, hlast, hgoal⟩ := hlabels s hs
    exact ⟨last, _, hlast, hgoal, rfl⟩

/-- A group is folded and another attribute of edges is drawn; the label of the group has been mentioned
last when it was folded. -/
theorem restyling_agrees_with_drawing_folded :
    ∃ full,
      ((play twoRuns .default {} [.toggleBranch "R_G"]).diagram.setEdgeAttribute "flow").diagram.setDate
          "1" = .ok full ∧
      (full.pass.ofKind .edgeLabel).map (·.key) = [⟨.edgeLabel, "R_G"⟩] ∧
      full.pass =
        ((play twoRuns .default {} [.toggleBranch "R_G"]).diagram.setEdgeAttribute "flow").pass
          ++ full.pass.ofKind .edgeLabel := by
  have hselection : (((play twoRuns .default {} [.toggleBranch "R_G"]).diagram.setEdgeAttribute
      "flow").diagram.setDate "1").toOption.map (·.diagram.selection) =
        some ((play twoRuns .default {} [.toggleBranch "R_G"]).diagram.setEdgeAttribute
          "flow").diagram.selection := by decide +kernel
  have hdate : ((play twoRuns .default {} [.toggleBranch "R_G"]).diagram.setEdgeAttribute
      "flow").diagram.selection.date = "1" := by decide +kernel
  have hids : (play twoRuns .default {} [.toggleBranch "R_G"]).diagram.current.ids = ["R", "R_G"] := by
    decide +kernel
  cases hfull : ((play twoRuns .default {} [.toggleBranch "R_G"]).diagram.setEdgeAttribute
      "flow").diagram.setDate "1" with
  | error e =>
    rw [hfull] at hselection
    cases hselection
  | ok full =>
    rw [hfull] at hselection
    have hsame := Option.some.inj hselection
    obtain ⟨-, happend, -, hkeys, -⟩ := restyling_agrees_with_drawing twoRuns .default {}
      [.toggleBranch "R_G"] (Or.inl rfl) (by rw [hdate]; exact hfull) (congrArg Selection.run hsame)
      (congrArg Selection.dateIndex hsame)
    rw [hids] at hkeys
    exact ⟨full, rfl, hkeys, happend⟩

end Session

end FlowTree
