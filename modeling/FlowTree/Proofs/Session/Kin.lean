import FlowTree.Proofs.Hierarchy.Refolding
import FlowTree.Proofs.Kin
import FlowTree.Proofs.Session.History

/-!
# Changes follow the kin

What a change brings grows out of the nearest ancestor that was drawn before, and what it takes away folds
into the nearest ancestor that is still drawn, however often runs have been switched and nodes been folded
before.

* **`Diagram.Serves.named`** says that in all runs the ids name the nodes.
* **`Diagram.followsKin_render`** says it for the drawing of a run, **`Session.passes_follow_kin`** for
  whatever a diagram answers.
-/

namespace FlowTree

variable {α : Type} [Scalar α] [Printed α]

/-- Folding and unfolding leaves the root where it begins. -/
theorem Hierarchy.start_root_toggle? {α : Type} {h h' : Hierarchy α} {id : String} {toggle : Toggle}
    (ht : h.toggle? id = some (toggle, h')) : h'.root.start = h.root.start := by
  rw [tree_of_toggle? ht]
  exact start_root_refold id h

namespace Diagram

omit [Printed α] in
/-- In every run the ids name the nodes. -/
theorem Serves.named {d : Diagram α} {doc : Document α} {settings : Settings α}
    (h : d.Serves doc settings) : ∀ r ∈ d.runs, r.tree.Named := by
  intro r hr
  have hskeleton : r.tree.skeleton ∈ d.runs.map (·.tree.skeleton) := List.mem_map_of_mem hr
  rw [h.skeletons] at hskeleton
  obtain ⟨r', hr', heq⟩ := List.mem_map.mp hskeleton
  exact (Series.named_build _ _ r' hr').of_skeleton heq.symm

/-- Drawing the run on show. -/
theorem followsKin_render {d : Diagram α} {old : Hierarchy α} (hold : old.Named) (hrest : old.AtRest)
    (hshown : d.shownRun.tree.Named) :
    (d.render (some old)).pass.FollowsKin old (d.render (some old)).diagram.current
      d.shownRun.tree.root.start := by
  have hcurrent : (d.render (some old)).diagram.current = d.shownRun.tree.drawn d.canvas :=
    d.view.prune_new (some old) d.shownRun.tree
  rw [hcurrent]
  exact View.followsKin_reconcile hold hrest hshown

/-- Drawing anew neither creates nor removes anything. -/
theorem followsKin_restyle (d : Diagram α) (old new : Hierarchy α) (rootStart : Point α) :
    d.restyle.pass.FollowsKin old new rootStart := by
  have hupdates : ∀ dir ∈ d.restyle.pass, dir.isUpdate = true := by
    intro dir hd
    rcases List.mem_append.mp hd with hd | hd
    · obtain ⟨s, -, rfl⟩ := List.mem_map.mp hd
      rfl
    · obtain ⟨s, -, rfl⟩ := List.mem_map.mp hd
      rfl
  constructor
  · exact fun _ _ _ hd => absurd (hupdates _ hd) Bool.false_ne_true
  · exact fun _ _ _ _ hd => absurd (hupdates _ hd) Bool.false_ne_true
  · exact fun _ _ _ _ hd => absurd (hupdates _ hd) Bool.false_ne_true

end Diagram

namespace Session

/-- **Changes follow the kin.**  Take any sequence of changes and the next one, whatever it is.  Each
element that its pass removes is of a node that was drawn and is no longer, so it has a target: it folds
into the place of the nearest ancestor that is drawn now, or into the place of the old root if there is
none.  Each node that its pass creates begins at the place of the nearest ancestor that was drawn, or, if
there is none, where the root of the run that is shown now stood in this run before; its edge begins at
the same point, without length. -/
theorem passes_follow_kin (doc : Document α) (settings : Settings α) (initial : InitialSelection)
    (steps : List (Step α)) {st : Step α} {change : Change α}
    (hanswer : (play doc settings initial steps).diagram.answer st = some change) :
    ∃ r, (play doc settings initial steps).diagram.runs[change.diagram.selection.run]? = some r ∧
      change.pass.FollowsKin (play doc settings initial steps).diagram.current
        change.diagram.current r.tree.root.start := by
  have hnamed := (serves_run (s := start doc initial settings)
    (Diagram.serves_start doc initial settings) steps).named
  have hcurrent := (recalls_run (s := start doc initial settings)
    (Diagram.recalls_start doc initial settings) steps).current_eq
  rw [play] at hanswer ⊢
  generalize (start doc initial settings).run steps = s at *
  have hshown := hnamed _ s.diagram.shownRun_mem
  have hold : s.diagram.current.Named := by
    rw [hcurrent]
    exact hshown.drawn s.diagram.canvas
  have hrest : s.diagram.current.AtRest := by
    rw [hcurrent]
    exact Hierarchy.atRest_drawn _ _
  cases Diagram.answers_of_answer hanswer with
  | @setDate date run index found events =>
    have hrun := Series.locate?_run_lt found
    refine ⟨s.diagram.runs[run], List.getElem?_eq_getElem hrun, ?_⟩
    exact Diagram.followsKin_render (d := s.diagram.withDate date run index hrun) hold hrest
      (hnamed _ (List.getElem_mem hrun))
  | @toggleBranch id toggle tree shown toggled events =>
    have htree := Diagram.shownRun_withTree s.diagram tree
    have hskeleton : (s.diagram.withTree tree).shownRun.tree.skeleton =
        s.diagram.shownRun.tree.skeleton := by
      rw [htree]
      exact Hierarchy.skeleton_toggle? toggled
    have hfollows := Diagram.followsKin_render hold hrest (hshown.of_skeleton hskeleton)
    rw [htree, Hierarchy.start_root_toggle? toggled] at hfollows
    exact ⟨_, s.diagram.getElem?_shownRun, hfollows⟩
  | setEdgeAttribute key =>
    exact ⟨_, s.diagram.getElem?_shownRun, Diagram.followsKin_restyle _ _ _ _⟩
  | setNodeAttribute key =>
    exact ⟨_, s.diagram.getElem?_shownRun, Diagram.followsKin_restyle _ _ _ _⟩

/-- A root is folded and unfolded again: the well below the group grows out of the root, because the group
was not drawn either. -/
theorem passes_follow_kin_regrown :
    ∃ change r, (play twoRuns .default {} [.toggleBranch "R"]).diagram.answer (.toggleBranch "R") =
        some change ∧
      (play twoRuns .default {} [.toggleBranch "R"]).diagram.runs[change.diagram.selection.run]? =
        some r ∧
      (change.pass.filter (·.isCreate)).map (·.key) =
        [⟨.node, "R_G"⟩, ⟨.node, "R_G_W"⟩, ⟨.edge, "R_G"⟩, ⟨.edge, "R_G_W"⟩, ⟨.edgeLabel, "R_G"⟩,
          ⟨.edgeLabel, "R_G_W"⟩] ∧
      (change.diagram.current.kin? (play twoRuns .default {} [.toggleBranch "R"]).diagram.current
        "R_G_W").map (·.id) = some "R" ∧
      change.pass.FollowsKin (play twoRuns .default {} [.toggleBranch "R"]).diagram.current
        change.diagram.current r.tree.root.start := by
  have hsome : ((play twoRuns .default {} [.toggleBranch "R"]).diagram.answer
      (.toggleBranch "R")).isSome = true := by decide +kernel
  obtain ⟨change, hanswer⟩ := Option.isSome_iff_exists.mp hsome
  have hkeys : ((play twoRuns .default {} [.toggleBranch "R"]).diagram.answer
      (.toggleBranch "R")).map (fun c => ((c.pass.filter (·.isCreate)).map (·.key),
        (c.diagram.current.kin? (play twoRuns .default {} [.toggleBranch "R"]).diagram.current
          "R_G_W").map (·.id))) =
      some ([⟨.node, "R_G"⟩, ⟨.node, "R_G_W"⟩, ⟨.edge, "R_G"⟩, ⟨.edge, "R_G_W"⟩, ⟨.edgeLabel, "R_G"⟩,
        ⟨.edgeLabel, "R_G_W"⟩], some "R") := by decide +kernel
  rw [hanswer] at hkeys
  obtain ⟨hcreated, hkin⟩ := Prod.mk.inj (Option.some.inj hkeys)
  obtain ⟨r, hrun, hfollows⟩ := passes_follow_kin twoRuns .default {} [.toggleBranch "R"] hanswer
  exact ⟨change, r, hanswer, hrun, hcreated, hkin, hfollows⟩

end Session

end FlowTree
