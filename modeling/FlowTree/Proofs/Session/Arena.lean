import FlowTree.Proofs.Hierarchy.Listing
import FlowTree.Proofs.Session.Sound
import Mathlib.Data.List.Forall2

/-!
# Runs hold their trees

Whatever is asked of a diagram, each of its runs goes on to hold the tree of its date, on show or not: folding
moves lists of children back and forth and drawing moves nodes, but nothing is lost, doubled or renamed.

* **`Diagram.Sound.represents`** says so of a diagram in order that shows its document.
* **`Session.runs_represent_trees`** says so of every diagram in use, and what the drawn tree has to do with
  the run on show.
-/

namespace FlowTree

variable {α : Type} [Scalar α]

/-- Each run holds the tree of its date. -/
theorem Diagram.Sound.represents {d : Diagram α} (h : d.Sound) {doc : Document α}
    {settings : Settings α} (hserves : d.Serves doc settings) :
    List.Forall₂ (fun r t => r.tree.Represents t.tree) d.runs (Series.orNoData doc.data) := by
  have hskeletons := hserves.skeletons
  rw [Series.build, List.map_map, ← List.forall₂_eq_eq_eq, List.forall₂_map_left_iff,
    List.forall₂_map_right_iff] at hskeletons
  refine (((List.forall₂_and_left _ _).mpr ⟨h.listed, hskeletons⟩)).imp fun r t hboth => ?_
  obtain ⟨hlisting, heq⟩ := hboth
  refine Hierarchy.represents_of_skeleton ?_ hlisting
  exact heq.trans (Series.skeleton_runOf settings.canvas t)

namespace Session

variable [Printed α]

/-- **Each run holds its tree, at all times.**  After any sequence of changes the runs are, one for one,
faithful listings of the trees of the document, whatever is folded in them and whichever is on show.  What
has been drawn is the part of the run on show that is not folded away, and there each node is visible and
where it belongs. -/
theorem runs_represent_trees (doc : Document α) (settings : Settings α) (initial : InitialSelection)
    (steps : List (Step α)) :
    List.Forall₂ (fun r t => r.tree.Represents t.tree) (play doc settings initial steps).diagram.runs
        (Series.orNoData doc.data) ∧
      (play doc settings initial steps).diagram.current =
        (play doc settings initial steps).diagram.shownRun.tree.prune ∧
      ∀ n ∈ (play doc settings initial steps).diagram.current.tree.preorder,
        n.start = n.finish ∧ n.visible = true := by
  have h := sound_play doc settings initial steps
  have hserves := serves_run (s := start doc initial settings)
    (Diagram.serves_start doc initial settings) steps
  exact ⟨h.represents hserves, h.pruned, fun n hn => ⟨(h.atRest n hn).2.1, (h.atRest n hn).1⟩⟩

end Session

end FlowTree
