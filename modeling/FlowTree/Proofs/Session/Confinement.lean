import FlowTree.Proofs.Confinement
import FlowTree.Proofs.Session.Sound

/-!
# Sessions stay in the room for the tree

The tree that has been drawn is at rest where it was placed, so it is in the room for the tree.  The other
runs are not: they may never have been placed, or hold places that nobody has seen for long.  Of them a pass
takes only where the root begins.

* **`Diagram.Rooted`** says that all roots begin in the room; **`Diagram.rooted_render`** and
  **`Diagram.Rooted.answer`** keep it.
* **`Diagram.Sound.holds_current`** says so of the tree that has been drawn, **`Diagram.within_render`** and
  **`Diagram.Rooted.within_answer`** of the passes.
* **`Session.elements_stay_in_the_room`** is what follows for everything that is ever shown.
-/

namespace FlowTree

theorem Settings.roomy_canvas (settings : Settings ℚ) : settings.canvas.Roomy := Canvas.roomy_of _ _ _ _

/-- Roots of new runs begin in the middle of the left side. -/
theorem Series.holds_root_build {canvas : Canvas ℚ} (hroomy : canvas.Roomy) (trees : List (DatedTree ℚ)) :
    ∀ r ∈ build trees canvas, canvas.Holds r.tree.root.start := by
  intro r hr
  obtain ⟨t, -, rfl⟩ := List.mem_map.mp hr
  exact hroomy.holds_rootOrigin

namespace Diagram

/-- The roots of all runs begin in the room for the tree. -/
def Rooted (d : Diagram ℚ) : Prop := ∀ r ∈ d.runs, d.canvas.Holds r.tree.root.start

/-- What has been drawn is in the room for the tree. -/
theorem Sound.holds_current {d : Diagram ℚ} (h : d.Sound) (hroomy : d.canvas.Roomy) :
    ∀ o ∈ View.oldNodes (some d.current), d.canvas.Holds o.start ∧ d.canvas.Holds o.finish := by
  intro o ho
  replace ho : o ∈ (d.shownRun.tree.drawn d.canvas).descendants := h.current_eq ▸ ho
  rw [Hierarchy.descendants_drawn] at ho
  obtain ⟨n, hn, rfl⟩ := List.mem_map.mp ho
  have hplace := Hierarchy.holds_layout hroomy d.shownRun.tree n
    ((Tree.breadthFirst_perm _).mem_iff.mp hn)
  exact ⟨hplace, hplace⟩

variable [Printed ℚ] {d : Diagram ℚ}

/-! ### Drawing the run on show -/

/-- **Drawing the run on show** puts its root where it was placed. -/
theorem rooted_render (hroomy : d.canvas.Roomy) (h : d.Rooted) (before : Option (Hierarchy ℚ)) :
    (d.render before).diagram.Rooted := by
  refine forall_withTree (P := fun k => d.canvas.Holds k.root.start) h ?_
  have hroot : (d.view.reconcile before d.shownRun.tree).new.root.start =
      (d.shownRun.tree.layout d.canvas).root.finish := by
    rw [← Hierarchy.value_shown, View.shown_new, Tree.value_map, Hierarchy.value_shown]
    rfl
  rw [hroot, ← Hierarchy.value_shown]
  refine Hierarchy.holds_layout hroomy d.shownRun.tree _ ?_
  rw [Tree.preorder_eq_cons]
  exact List.mem_cons_self

/-- **Its pass stays in the room.** -/
theorem within_render (hroomy : d.canvas.Roomy) (hnamed : ∀ r ∈ d.runs, r.tree.Named) (h : d.Rooted)
    {before : Option (Hierarchy ℚ)} (hbefore : ∀ k, before = some k → k.Named)
    (hplaces : ∀ o ∈ View.oldNodes before, d.canvas.Holds o.start ∧ d.canvas.Holds o.finish) :
    ∀ dir ∈ (d.render before).pass, dir.Only fun _ look => look.Within d.canvas :=
  View.within_reconcile (v := d.view) hroomy hbefore (hnamed _ d.shownRun_mem) hplaces
    (h _ d.shownRun_mem)

/-! ### Answers -/

omit [Printed ℚ] in
theorem Rooted.withTree_toggle (h : d.Rooted) {id : String} {toggle : Toggle} {tree : Hierarchy ℚ}
    (toggled : d.shownRun.tree.toggle? id = some (toggle, tree)) : (d.withTree tree).Rooted := by
  refine forall_withTree (P := fun k => d.canvas.Holds k.root.start) h ?_
  rw [Hierarchy.start_root_toggle? toggled]
  exact h _ d.shownRun_mem

theorem Rooted.answer (hroomy : d.canvas.Roomy) (h : d.Rooted) {st : Step ℚ} {change : Change ℚ}
    (hanswer : d.answer st = some change) : change.diagram.Rooted := by
  cases answers_of_answer hanswer with
  | setDate found events =>
    exact rooted_render (d := d.withDate _ _ _ (Series.locate?_run_lt found)) hroomy h _
  | @toggleBranch _ _ tree shown toggled events =>
    exact rooted_render (d := d.withTree tree) hroomy (h.withTree_toggle toggled) _
  | setEdgeAttribute key => exact h
  | setNodeAttribute key => exact h

/-- **The pass of every answer stays in the room.** -/
theorem Rooted.within_answer (hroomy : d.canvas.Roomy) (hsound : d.Sound) (h : d.Rooted) {st : Step ℚ}
    {change : Change ℚ} (hanswer : d.answer st = some change) :
    ∀ dir ∈ change.pass, dir.Only fun _ look => look.Within d.canvas := by
  have hcurrent : ∀ k, some d.current = some k → k.Named :=
    fun _ hk => Option.some.inj hk ▸ hsound.current_named
  have hplaces := hsound.holds_current hroomy
  cases answers_of_answer hanswer with
  | setDate found events =>
    exact within_render (d := d.withDate _ _ _ (Series.locate?_run_lt found)) hroomy hsound.named h
      hcurrent hplaces
  | @toggleBranch _ _ tree shown toggled events =>
    refine within_render (d := d.withTree tree) hroomy ?_ (h.withTree_toggle toggled) hcurrent hplaces
    exact forall_withTree hsound.named
      (hsound.shown_named.of_skeleton (Hierarchy.skeleton_toggle? toggled))
  | setEdgeAttribute key =>
    exact View.within_restyle (v := view { d with selection := { d.selection with edgeKey := key } })
      hroomy hsound.placed
  | setNodeAttribute key =>
    exact View.within_restyle (v := view { d with selection := { d.selection with nodeKey := key } })
      hroomy hsound.placed

/-! ### The first pass -/

theorem rooted_start (doc : Document ℚ) (initial : InitialSelection) (settings : Settings ℚ) :
    (ofDocument doc initial settings).diagram.Rooted := by
  refine rooted_render settings.roomy_canvas ?_ none
  exact Series.holds_root_build settings.roomy_canvas doc.data

theorem within_start (doc : Document ℚ) (initial : InitialSelection) (settings : Settings ℚ) :
    ∀ dir ∈ (ofDocument doc initial settings).pass,
      dir.Only fun _ look => look.Within settings.canvas := by
  refine within_render settings.roomy_canvas (Series.named_build doc.data settings.canvas) ?_
    (fun _ hk => nomatch hk) (fun o ho => absurd ho List.not_mem_nil)
  exact Series.holds_root_build settings.roomy_canvas doc.data

end Diagram

/-! ### Sessions -/

namespace Session

section Exact

variable [Printed ℚ]

/-- **All roots begin in the room** at all times. -/
theorem rooted_play (doc : Document ℚ) (settings : Settings ℚ) (initial : InitialSelection)
    (steps : List (Step ℚ)) :
    (play doc settings initial steps).diagram.canvas = settings.canvas ∧
      (play doc settings initial steps).diagram.Rooted := by
  have h := keeps_run (P := fun s => s.diagram.Serves doc settings ∧ s.diagram.Rooted)
    (s := start doc initial settings) (fun s hs st => ?_)
    ⟨Diagram.serves_start doc initial settings, Diagram.rooted_start doc initial settings⟩ steps
  · exact ⟨h.1.canvas, h.2⟩
  · refine keeps_step (P := fun s => s.diagram.Serves doc settings ∧ s.diagram.Rooted) hs (fun _ => hs)
      (fun _ change hanswer => ⟨hs.1.answer hanswer, hs.2.answer ?_ hanswer⟩) st
    rw [hs.1.canvas]
    exact settings.roomy_canvas

/-- **Elements stay in the room for the tree.**  In any session with exact numbers and at any moment, every
node and both ends of every edge are in the rectangle that the margins leave, and every opacity lies between
zero and one.  So it is in the middle of interrupted ways too, whatever trees and runs the points were taken
from. -/
theorem elements_stay_in_the_room (doc : Document ℚ) (settings : Settings ℚ) (initial : InitialSelection)
    (steps : List (Step ℚ)) :
    ∀ e ∈ (play doc settings initial steps).scene.elements, e.visual.Within settings.canvas := by
  have honly := only_play (Visual.lasting_within settings.canvas)
    (Diagram.within_start doc initial settings) (fun before st change hanswer => ?_) steps
  · exact fun e he => (honly e he).visual
  · obtain ⟨hcanvas, hrooted⟩ := rooted_play doc settings initial before
    have hsound := sound_play doc settings initial before
    rw [← hcanvas]
    refine hrooted.within_answer ?_ hsound hanswer
    rw [hcanvas]
    exact settings.roomy_canvas

end Exact

/-- A group is folded, and another run without the well of the group is chosen before the well has gone. -/
def cutShort : List (Step ℚ) :=
  [.advance 1000, .toggleBranch "R_G", .advance 100, .setDate "2", .advance 50]

/-- The well is still to be seen, faint and on its second way, and it is in the room. -/
theorem elements_stay_in_the_room_cutShort :
    ∃ e ∈ (play twoRuns .default {} cutShort).scene.elements,
      e.key = ⟨.node, "R_G_W"⟩ ∧ e.exiting = true ∧ e.visual.opacity = 1 / 4 ∧
        e.visual.Within (Settings.default : Settings ℚ).canvas := by
  have hlook : ((play twoRuns .default {} cutShort).scene.elements.find? (·.key == ⟨.node, "R_G_W"⟩)).map
      (fun e => (e.exiting, e.visual.opacity)) = some (true, 1 / 4) := by decide +kernel
  obtain ⟨e, hfound, heq⟩ := Option.map_eq_some_iff.mp hlook
  obtain ⟨hexiting, hopacity⟩ := Prod.mk.inj heq
  have he := List.mem_of_find?_eq_some hfound
  exact ⟨e, he, by simpa using List.find?_some hfound, hexiting, hopacity,
    elements_stay_in_the_room twoRuns .default {} cutShort e he⟩

end Session

end FlowTree
