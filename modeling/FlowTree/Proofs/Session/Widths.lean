import FlowTree.Proofs.Hierarchy.Listing
import FlowTree.Proofs.Scale
import FlowTree.Proofs.Session.Sound

/-!
# Edges show the series

Whatever is on show, an edge is as wide as the value of its child is large within the whole series: the
widths of two edges can be compared even if they belong to other dates, other runs or other sessions.

* **`Directive.looks`** is what a directive shows; **`View.Draws`** says that the edges of a pass are those of
  a hierarchy, **`Diagram.drawsShown_answer`** that those of an answer are the ones of the tree on show.
* **`Session.Changes`** are the changes of all sessions over a document, **`EdgeTo`** finds the child of an
  edge in the document.
* **`Session.widths_follow_series`** is what follows.
-/

namespace FlowTree

variable {α : Type}

/-- What a directive shows of its element: where it begins and what it is sent to. -/
def Directive.looks : Directive α → List (Visual α)
  | .create _ source goal _ => [source, goal]
  | .update _ goal _ => [goal]
  | .remove .. => []

namespace Hierarchy

/-- What is known of the nodes on show is part of the skeleton. -/
theorem mem_skeleton_of_mem_spots {h : Hierarchy α} {s : Spot α} (hs : s ∈ h.spots) :
    (s.id, s.node.info) ∈ h.skeleton.preorder := by
  have hnode : s.node ∈ h.descendants := by
    rw [← spots_map_node]
    exact List.mem_map_of_mem hs
  rw [skeleton, Tree.preorder_map]
  exact List.mem_map_of_mem (mem_tree_of_mem_descendants hnode)

end Hierarchy

variable [Scalar α]

/-- The value of the selected attribute at the date on show; zero stands for a missing one. -/
def Diagram.edgeValue (d : Diagram α) (info : NodeInfo α) : α :=
  (info.edgeData.valueAt d.selection.edgeKey d.selection.dateIndex).getD Scalar.zero

variable [Printed α]

/-! ### Edges of a pass -/

namespace View

/-- All edges of a pass lead to nodes on show other than the root, and look like it. -/
def Draws (v : View α) (h : Hierarchy α) (pass : Pass α) : Prop :=
  ∀ dir ∈ pass, ∀ look, Visual.edge look ∈ dir.looks →
    ∃ s ∈ h.spots.tail, dir.key = ⟨.edge, s.id⟩ ∧ ∃ path, look = v.edgeVisual s path

theorem draws_reconcile (v : View α) (old : Option (Hierarchy α)) (new : Hierarchy α) :
    v.Draws (inherit (oldNodes old) (new.layout v.canvas)) (v.reconcile old new).pass := by
  intro dir hdir look hlook
  rcases List.mem_append.mp hdir with hdir | hdir
  · rcases List.mem_append.mp hdir with hdir | hdir
    -- a node shows no edge
    · rcases mem_phase.mp hdir with ⟨s, -, -, rfl⟩ | ⟨s, -, -, rfl⟩ | ⟨s, -, -, rfl⟩ <;>
        simp [createNode, updateNode, removeElement, settledNode, Directive.looks] at hlook
    · rcases mem_phase.mp hdir with ⟨s, hs, -, rfl⟩ | ⟨s, hs, -, rfl⟩ | ⟨s, -, -, rfl⟩
      · refine ⟨s, hs, rfl, ?_⟩
        simp only [createEdge, Directive.looks, List.mem_cons, List.not_mem_nil, or_false,
          Visual.edge.injEq] at hlook
        rcases hlook with rfl | rfl
        · exact ⟨_, rfl⟩
        · exact ⟨_, rfl⟩
      · refine ⟨s, hs, rfl, settledPath s, ?_⟩
        simpa [updateEdge, settledEdge, Directive.looks] using hlook
      · simp [removeElement, Directive.looks] at hlook
  -- nor does a label
  · rcases mem_phase.mp hdir with ⟨s, -, -, rfl⟩ | ⟨s, -, -, rfl⟩ | ⟨s, -, -, rfl⟩ <;>
      simp [createLabel, updateLabel, removeElement, Directive.looks] at hlook

theorem draws_restyle (v : View α) (h : Hierarchy α) : v.Draws h (v.restyle h) := by
  intro dir hdir look hlook
  rcases List.mem_append.mp hdir with hdir | hdir
  · obtain ⟨s, -, rfl⟩ := List.mem_map.mp hdir
    simp [updateNode, settledNode, Directive.looks] at hlook
  · obtain ⟨s, hs, rfl⟩ := List.mem_map.mp hdir
    refine ⟨s, hs, rfl, settledPath s, ?_⟩
    simpa [updateEdge, settledEdge, Directive.looks] using hlook

end View

namespace Diagram

/-- The edges of a pass are those of the tree on show. -/
def DrawsShown (d : Diagram α) (pass : Pass α) : Prop :=
  ∃ h : Hierarchy α, h.skeleton = d.shownRun.tree.skeleton ∧ h.ids = d.current.ids ∧ d.view.Draws h pass

theorem drawsShown_render (d : Diagram α) (before : Option (Hierarchy α)) :
    (d.render before).diagram.DrawsShown (d.render before).pass := by
  have htree : (d.render before).diagram.shownRun.tree = (d.view.reconcile before d.shownRun.tree).new :=
    shownRun_withTree d _
  have hids : (d.render before).diagram.current.ids = d.shownRun.tree.ids := by
    show (d.view.reconcile before d.shownRun.tree).new.prune.ids = _
    rw [Hierarchy.ids_prune, View.ids_new]
  refine ⟨View.inherit (View.oldNodes before) (d.shownRun.tree.layout d.canvas), ?_, ?_,
    d.view.draws_reconcile before d.shownRun.tree⟩
  · rw [htree, View.skeleton_new, Hierarchy.skeleton, View.inherit, Hierarchy.map_updateShown,
      Hierarchy.map_layout]
    · rfl
    · exact fun _ _ => rfl
    · intro n
      split <;> rfl
  · rw [hids, ← Hierarchy.spots_map_id]
    exact View.map_id_coming d.view before d.shownRun.tree

theorem drawsShown_restyle {d : Diagram α} (h : d.Steady) : d.restyle.diagram.DrawsShown d.restyle.pass := by
  refine ⟨d.shownRun.tree, rfl, ?_, d.view.draws_restyle d.shownRun.tree⟩
  show _ = d.current.ids
  rw [h.current_eq, Hierarchy.ids_prune]

/-- **Every answer** draws the edges of the tree on show. -/
theorem drawsShown_answer {d : Diagram α} (h : d.Steady) {st : Step α} {change : Change α}
    (hanswer : d.answer st = some change) : change.diagram.DrawsShown change.pass := by
  cases answers_of_answer hanswer with
  | setDate found events => exact drawsShown_render (d.withDate _ _ _ (Series.locate?_run_lt found)) _
  | @toggleBranch _ _ tree shown toggled events => exact drawsShown_render (d.withTree tree) _
  | setEdgeAttribute key =>
    exact drawsShown_restyle (d := { d with selection := { d.selection with edgeKey := key } })
      ⟨h.distinct, h.current_eq⟩
  | setNodeAttribute key =>
    exact drawsShown_restyle (d := { d with selection := { d.selection with nodeKey := key } })
      ⟨h.distinct, h.current_eq⟩

omit [Printed α] in
/-- The tree of the run on show is that of the document. -/
theorem Serves.skeleton_shownRun {d : Diagram α} {doc : Document α} {settings : Settings α}
    (h : d.Serves doc settings) :
    ∃ t, (Series.orNoData doc.data)[d.selection.run]? = some t ∧
      d.shownRun.tree.skeleton = (Hierarchy.ofTree t.tree).skeleton := by
  have hrun : (d.runs.map (·.tree.skeleton))[d.selection.run]? = some d.shownRun.tree.skeleton := by
    rw [List.getElem?_map, getElem?_shownRun]
    rfl
  rw [h.skeletons, Series.build, List.map_map, List.getElem?_map, Option.map_eq_some_iff] at hrun
  obtain ⟨t, ht, heq⟩ := hrun
  exact ⟨t, ht, heq.symm.trans (Series.skeleton_runOf settings.canvas t)⟩

end Diagram

/-! ### Sessions -/

/-- The widths that strokes may have. -/
def Settings.strokeRange (settings : Settings α) : Extent α :=
  ⟨settings.style.minStrokeWidth, settings.style.maxStrokeWidth⟩

/-- A directive of a change shows an edge, and `child` is what the document tells of its lower end: the id
and the information of a node of the tree on show, other than its root. -/
structure EdgeTo (doc : Document α) (change : Change α) (dir : Directive α) (look : EdgeVisual α)
    (child : String × NodeInfo α) : Prop where
  asked : dir ∈ change.pass
  shows : Visual.edge look ∈ dir.looks
  key_eq : dir.key = ⟨.edge, child.1⟩
  of_run : ∃ t, (Series.orNoData doc.data)[change.diagram.selection.run]? = some t ∧
    child ∈ (Hierarchy.ofTree t.tree).skeleton.preorder
  shown : child.1 ∈ change.diagram.current.ids.tail

namespace Session

/-- The changes of all sessions over a document: a first drawing, and whatever is answered later. -/
inductive Changes (doc : Document α) (settings : Settings α) : Change α → Prop
  | first (initial : InitialSelection) : Changes doc settings (Diagram.ofDocument doc initial settings)
  | later (initial : InitialSelection) (steps : List (Step α)) {st : Step α} {change : Change α}
      (hanswer : (play doc settings initial steps).diagram.answer st = some change) :
      Changes doc settings change

namespace Changes

variable {doc : Document α} {settings : Settings α} {change : Change α}

theorem serves (h : Changes doc settings change) : change.diagram.Serves doc settings := by
  cases h with
  | first initial => exact Diagram.serves_start doc initial settings
  | later initial steps hanswer =>
    exact (serves_run (s := start doc initial settings)
      (Diagram.serves_start doc initial settings) steps).answer hanswer

theorem drawsShown (h : Changes doc settings change) : change.diagram.DrawsShown change.pass := by
  cases h with
  | first initial => exact Diagram.drawsShown_render _ none
  | later initial steps hanswer =>
    exact Diagram.drawsShown_answer ((agrees_start doc initial settings).run steps).steady hanswer

/-- **Every edge leads to a child.** -/
theorem exists_edgeTo (h : Changes doc settings change) {dir : Directive α} (hdir : dir ∈ change.pass)
    {look : EdgeVisual α} (hlook : Visual.edge look ∈ dir.looks) :
    ∃ child, EdgeTo doc change dir look child ∧
      ∃ s : Spot α, s.node.info = child.2 ∧ ∃ path, look = change.diagram.view.edgeVisual s path := by
  obtain ⟨k, hskeleton, hids, hdraws⟩ := h.drawsShown
  obtain ⟨t, ht, htree⟩ := h.serves.skeleton_shownRun
  obtain ⟨s, hs, hkey, hvisual⟩ := hdraws dir hdir look hlook
  have hchild : (s.id, s.node.info) ∈ (Hierarchy.ofTree t.tree).skeleton.preorder := by
    rw [← htree, ← hskeleton]
    exact Hierarchy.mem_skeleton_of_mem_spots (List.mem_of_mem_tail hs)
  have hshown : s.id ∈ change.diagram.current.ids.tail := by
    rw [← hids, ← Hierarchy.spots_map_id, ← List.map_tail]
    exact List.mem_map_of_mem hs
  exact ⟨(s.id, s.node.info), ⟨hdir, hlook, hkey, ⟨t, ht, hchild⟩, hshown⟩, s, rfl, hvisual⟩

/-- The id names the child, so the edge looks like it. -/
theorem look_eq (h : Changes doc settings change) {dir : Directive α} {look : EdgeVisual α}
    {child : String × NodeInfo α} (hedge : EdgeTo doc change dir look child) :
    ∃ s : Spot α, s.node.info = child.2 ∧ ∃ path, look = change.diagram.view.edgeVisual s path := by
  obtain ⟨child', hedge', hlook⟩ := h.exists_edgeTo hedge.asked hedge.shows
  obtain ⟨t, ht, hchild⟩ := hedge.of_run
  obtain ⟨t', ht', hchild'⟩ := hedge'.of_run
  obtain rfl : t = t' := Option.some.inj (ht.symm.trans ht')
  have hnodup : ((Hierarchy.ofTree t.tree).skeleton.preorder.map (·.1)).Nodup :=
    (Hierarchy.distinct_iff _).mp (Hierarchy.ids_ofTree_nodup t.tree)
  have hid : child.1 = child'.1 := key_inj (hedge.key_eq.symm.trans hedge'.key_eq)
  rwa [List.inj_on_of_nodup_map hnodup hchild hchild' hid]

end Changes

end Session

section Exact

/-- A positive value of a child is one of the series. -/
theorem EdgeTo.mem_edgeValues {doc : Document ℚ} {change : Change ℚ} {dir : Directive ℚ}
    {look : EdgeVisual ℚ} {child : String × NodeInfo ℚ} (h : EdgeTo doc change dir look child)
    (hpos : 0 < change.diagram.edgeValue child.2) :
    Series.Mentions doc.data change.diagram.selection.edgeKey ∧
      change.diagram.edgeValue child.2 ∈
        Series.edgeValues doc.data change.diagram.selection.edgeKey := by
  obtain ⟨t, ht, hchild⟩ := h.of_run
  have hinfo : child.2 ∈ t.tree.preorder := by
    have hmap : (Hierarchy.ofTree t.tree).tree.map (·.info) = t.tree := Hierarchy.map_info_grow _ _
    rw [Hierarchy.skeleton, Tree.preorder_map] at hchild
    obtain ⟨n, hn, rfl⟩ := List.mem_map.mp hchild
    rw [← hmap, Tree.preorder_map]
    exact List.mem_map_of_mem hn
  rw [Diagram.edgeValue] at hpos ⊢
  cases hvalue : child.2.edgeData.valueAt change.diagram.selection.edgeKey
      change.diagram.selection.dateIndex with
  | none =>
    rw [hvalue] at hpos
    exact absurd hpos (lt_irrefl (0 : ℚ))
  | some value =>
    rw [Option.getD_some]
    refine Series.mem_edgeValues ?_ hinfo hvalue
    have hmem := List.mem_of_getElem? ht
    rw [Series.orNoData] at hmem
    split at hmem
    · -- the stand-in for an empty series tells no values
      obtain rfl := List.mem_singleton.mp hmem
      rw [DatedTree.noData, Tree.preorder_node] at hinfo
      obtain hchild := List.mem_singleton.mp hinfo
      rw [hchild] at hvalue
      cases hvalue
    · exact hmem

namespace Session

variable [Printed ℚ]

/-- **Widths follow the series.**  Take any change of any session over a document, and any edge that its pass
shows.  It leads to a child of the tree on show.  It is dashed just if the value of this child is not
positive, and it is as wide as the scale of the whole series has it.  As for the attributes that the series
mentions, the width stays in the range, and it is the largest one if no value of the series is larger and the
value is positive; if two edges show the same attribute, be it on other dates, in other runs, with other
nodes folded or in a session over the runs in another order, equal values have equal widths and a larger value
is never drawn thinner. -/
theorem widths_follow_series (doc : Document ℚ) (settings : Settings ℚ)
    (hrange : settings.strokeRange.low ≤ settings.strokeRange.high) :
    (∀ change, Changes doc settings change → ∀ dir ∈ change.pass, ∀ look,
      Visual.edge look ∈ dir.looks → ∃ child, EdgeTo doc change dir look child) ∧
    (∀ change dir look child, Changes doc settings change → EdgeTo doc change dir look child →
      (look.dashed = true ↔ change.diagram.edgeValue child.2 ≤ 0) ∧
      EdgeScales.Gives doc.data settings.strokeRange change.diagram.selection.edgeKey
        (change.diagram.edgeValue child.2) look.strokeWidth ∧
      (Series.Mentions doc.data change.diagram.selection.edgeKey →
        settings.strokeRange.low ≤ look.strokeWidth ∧
          look.strokeWidth ≤ settings.strokeRange.high) ∧
      (0 < change.diagram.edgeValue child.2 →
        (∀ value ∈ Series.edgeValues doc.data change.diagram.selection.edgeKey,
          value ≤ change.diagram.edgeValue child.2) →
        look.strokeWidth = settings.strokeRange.high)) ∧
    ∀ (doc' : Document ℚ) (settings' : Settings ℚ), doc.data.Perm doc'.data →
      settings'.strokeRange = settings.strokeRange →
      ∀ change dir look child, Changes doc settings change → EdgeTo doc change dir look child →
      ∀ change' dir' look' child', Changes doc' settings' change' →
        EdgeTo doc' change' dir' look' child' →
      change'.diagram.selection.edgeKey = change.diagram.selection.edgeKey →
      Series.Mentions doc.data change.diagram.selection.edgeKey →
        (change.diagram.edgeValue child.2 = change'.diagram.edgeValue child'.2 →
          look.strokeWidth = look'.strokeWidth) ∧
        (change.diagram.edgeValue child.2 ≤ change'.diagram.edgeValue child'.2 →
          look.strokeWidth ≤ look'.strokeWidth) := by
  have hlook : ∀ {doc : Document ℚ} {settings : Settings ℚ} {change dir look child},
      Changes doc settings change → EdgeTo doc change dir look child →
      (look.dashed = true ↔ change.diagram.edgeValue child.2 ≤ 0) ∧
      EdgeScales.Gives doc.data settings.strokeRange change.diagram.selection.edgeKey
        (change.diagram.edgeValue child.2) look.strokeWidth := by
    intro doc settings change dir look child h hedge
    obtain ⟨s, hinfo, path, rfl⟩ := h.look_eq hedge
    rw [← hinfo]
    refine ⟨decide_eq_true_iff, ?_⟩
    have hscales : change.diagram.view.scales = .of doc.data settings.strokeRange := h.serves.scales
    rw [View.edgeVisual, hscales]
    exact EdgeScales.gives_width _ _ _ _
  refine ⟨fun change h dir hdir look hshows => ?_, fun change dir look child h hedge => ?_, ?_⟩
  · obtain ⟨child, hedge, -⟩ := h.exists_edgeTo hdir hshows
    exact ⟨child, hedge⟩
  · obtain ⟨hdashed, hgives⟩ := hlook h hedge
    refine ⟨hdashed, hgives, hgives.mem_range hrange, fun hpos hmax => ?_⟩
    obtain ⟨hkey, hmem⟩ := hedge.mem_edgeValues hpos
    exact hgives.eq_high hkey hpos hmem hmax
  · intro doc' settings' hperm hsame change dir look child h hedge change' dir' look' child' h' hedge'
      hkey hmentions
    have hgives := (hlook h hedge).2
    have hgives' := (hlook h' hedge').2
    rw [hsame, hkey] at hgives'
    refine ⟨fun heq => ?_, hgives.mono hgives' hperm hrange hmentions⟩
    exact le_antisymm (hgives.mono hgives' hperm hrange hmentions heq.le)
      (hgives'.mono hgives hperm.symm hrange (hmentions.perm hperm) heq.ge)

end Session

end Exact

namespace Session

/-- A well whose flow is first small, then not known, and then large; at first a second one takes in. -/
def flows : Document ℚ where
  data := [
    ⟨["1"], .node { label := "R" } [
      .node { label := "A", edgeData := ⟨[("oil", [some 10])]⟩ } [],
      .node { label := "B", edgeData := ⟨[("oil", [some (-5)])]⟩ } []]⟩,
    ⟨["2", "3"], .node { label := "R" } [
      .node { label := "A", edgeData := ⟨[("oil", [none, some 40])]⟩ } []]⟩]

/-- The look is that of an edge. -/
def isEdge : Visual ℚ → Bool
  | .edge _ => true
  | _ => false

/-- The drawing of some date, with the flow of oil on the edges. -/
def flowsOn (date : String) : Change ℚ := Diagram.ofDocument flows { edgeKey := "oil", date := date } .default

/-- The edge of the first well is as wide as can be where its flow is large, and not wider where it is small. -/
theorem widths_follow_series_flows :
    ∃ dir look child dir' look' child',
      EdgeTo flows (flowsOn "3") dir look child ∧ EdgeTo flows (flowsOn "1") dir' look' child' ∧
      child.1 = "R_A" ∧ child'.1 = "R_A" ∧ look.strokeWidth = 100 ∧ look'.strokeWidth ≤ look.strokeWidth := by
  have hrange : (Settings.default : Settings ℚ).strokeRange.low ≤ Settings.default.strokeRange.high := by
    decide +kernel
  obtain ⟨hexists, hgives, hcompare⟩ := widths_follow_series flows .default hrange
  have hedge : ∀ date ∈ ["1", "3"],
      ∃ dir look child, EdgeTo flows (flowsOn date) dir look child ∧ child.1 = "R_A" := by
    intro date hdate
    have hfound : ∀ date ∈ ["1", "3"], ∃ dir ∈ (flowsOn date).pass, dir.key = ⟨.edge, "R_A"⟩ ∧
        ∃ visual ∈ dir.looks, isEdge visual = true := by
      decide +kernel
    obtain ⟨dir, hdir, hkey, visual, hvisual, hkind⟩ := hfound date hdate
    cases visual with
    | edge look =>
      obtain ⟨child, hchild⟩ := hexists _ (.first _) dir hdir look hvisual
      exact ⟨dir, look, child, hchild, key_inj (hchild.key_eq.symm.trans hkey)⟩
    | node look => cases hkind
    | edgeLabel look => cases hkind
  have hvalue : ∀ date ∈ ["1", "3"], ∀ dir look child, EdgeTo flows (flowsOn date) dir look child →
      child.1 = "R_A" → (flowsOn date).diagram.edgeValue child.2 = if date = "3" then 40 else 10 := by
    intro date hdate dir look child h
    obtain ⟨t, ht, hchild⟩ := h.of_run
    have hall : ∀ date ∈ ["1", "3"], ∀ t ∈ (Series.orNoData flows.data)[(flowsOn date).diagram.selection.run]?,
        ∀ child ∈ (Hierarchy.ofTree t.tree).skeleton.preorder, child.1 = "R_A" →
          (flowsOn date).diagram.edgeValue child.2 = if date = "3" then 40 else 10 := by
      decide +kernel
    exact hall date hdate t ht child hchild
  obtain ⟨dir, look, child, hwide, hid⟩ := hedge "3" (by simp)
  obtain ⟨dir', look', child', hthin, hid'⟩ := hedge "1" (by simp)
  have hlarge := hvalue "3" (by simp) dir look child hwide hid
  have hsmall := hvalue "1" (by simp) dir' look' child' hthin hid'
  have hpos : 0 < (flowsOn "3").diagram.edgeValue child.2 := by
    rw [hlarge]
    decide
  have hkey : (flowsOn "3").diagram.selection.edgeKey = (flowsOn "1").diagram.selection.edgeKey := by
    decide +kernel
  refine ⟨dir, look, child, dir', look', child', hwide, hthin, hid, hid', ?_, ?_⟩
  · refine (hgives (flowsOn "3") dir look child (.first _) hwide).2.2.2 hpos ?_
    rw [hlarge]
    decide +kernel
  · refine (hcompare flows .default (.refl _) rfl (flowsOn "1") dir' look' child' (.first _) hthin
      (flowsOn "3") dir look child (.first _) hwide hkey (hkey ▸ (hwide.mem_edgeValues hpos).1)).2 ?_
    rw [hlarge, hsmall]
    decide

end Session

end FlowTree
