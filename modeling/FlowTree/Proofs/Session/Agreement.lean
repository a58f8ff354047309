import FlowTree.Diagram
import FlowTree.Proofs.Exact
import FlowTree.Proofs.Reconcile
import FlowTree.Scene

/-!
# A diagram and its scene agree

A session is a diagram together with the scene to which all its passes go.  Whatever is asked of the
diagram, and however much time passes in between, the scene holds just the elements of the tree that
the diagram takes for drawn.

* **`Session.play`** plays any sequence of changes and moments from the beginning;
  **`Session.keeps_step`** and **`Session.keeps_run`** reduce what holds all along to time and answers,
  **`Session.keeps_record`** does so for what holds along with notes of the way.
* **`Diagram.Answers`** lists the ways in which a diagram answers.
* **`Diagram.Steady`** is the invariant of the diagram; **`Diagram.answer_spec`** says that each answer
  keeps it and what its pass leads to.
* **`Session.Agrees`** is the invariant of both; **`Session.Agrees.step`** and **`Session.Agrees.run`**
  keep it, and **`Session.passes_meet_scene`** is what follows.
-/

namespace FlowTree

variable {α : Type}

/-! ### Elements of a hierarchy -/

namespace Hierarchy

/-- All nodes but the root. -/
def lower (h : Hierarchy α) : List (Node α) := h.tree.children.flatMap Tree.preorder

/-- The keys of the elements that show a hierarchy: a node for each of its nodes, an edge and its label
for each but the root. -/
def elementKeys (h : Hierarchy α) : List ElementKey :=
  h.nodes.map (fun n => ⟨.node, n.id⟩) ++ h.lower.map (fun n => ⟨.edge, n.id⟩)
    ++ h.lower.map fun n => ⟨.edgeLabel, n.id⟩

theorem nodes_prune_map_id (h : Hierarchy α) : h.prune.nodes.map (·.id) = h.prune.ids := by
  rw [nodes_prune, ids_prune, List.map_map]
  rfl

/-- The root is listed first. -/
theorem lower_prune_perm (h : Hierarchy α) : h.prune.lower.Perm h.prune.nodes.tail := by
  have hperm := Tree.breadthFirst_perm h.prune.tree
  rw [Tree.breadthFirst_eq_cons, Tree.preorder_eq_cons] at hperm
  have htail := (List.perm_cons _).mp hperm
  have hlower : h.prune.tree.preorder.tail = h.prune.lower := by
    rw [lower]
    cases h.prune.tree with
    | node v cs => rw [Tree.preorder_node]; rfl
  rw [hlower] at htail
  exact htail.symm

theorem elementKeys_prune (h : Hierarchy α) : h.prune.elementKeys.Perm (keysOf h.prune.ids) := by
  have hlower (kind : ElementKind) : (h.prune.lower.map fun n => ElementKey.mk kind n.id).Perm
      (h.prune.ids.tail.map (ElementKey.mk kind)) := by
    rw [← nodes_prune_map_id, ← List.map_tail, List.map_map]
    exact (lower_prune_perm h).map _
  rw [elementKeys, keysOf]
  refine List.Perm.append (List.Perm.append (List.Perm.of_eq ?_) (hlower _)) (hlower _)
  rw [← nodes_prune_map_id, List.map_map]
  rfl

end Hierarchy

/-! ### Sessions -/

/-- What can happen to a diagram and its scene: a change is asked for, or time passes. -/
inductive Step (α : Type) where
  | setDate (date : String)
  | toggleBranch (id : String)
  | setEdgeAttribute (key : String)
  | setNodeAttribute (key : String)
  | advance (ms : α)

/-- A diagram and the scene to which its passes are applied. -/
structure Session (α : Type) where
  diagram : Diagram α
  scene : Scene α

/-! ### Invariants -/

namespace Diagram

theorem shownRun_mem (d : Diagram α) : d.shownRun ∈ d.runs := List.get_mem _ _

/-- In every run the ids are distinct, and what has been drawn is what the run on show shows. -/
structure Steady (d : Diagram α) : Prop where
  distinct : ∀ r ∈ d.runs, r.tree.Distinct
  current_eq : d.current = d.shownRun.tree.prune

theorem shownRun_withTree (d : Diagram α) (tree : Hierarchy α) :
    (d.withTree tree).shownRun.tree = tree := by
  simp [shownRun, withTree]

/-- What holds of all trees holds of them with another one that it holds of. -/
theorem forall_withTree {P : Hierarchy α → Prop} {d : Diagram α} (hd : ∀ r ∈ d.runs, P r.tree)
    {tree : Hierarchy α} (htree : P tree) : ∀ r ∈ (d.withTree tree).runs, P r.tree := by
  intro r hr
  obtain ⟨i, hi⟩ := List.getElem?_of_mem hr
  rw [withTree, List.getElem?_modify, Option.map_eq_map, Option.map_eq_some_iff] at hi
  obtain ⟨r', hr', rfl⟩ := hi
  split
  · exact htree
  · exact hd r' (List.mem_of_getElem? hr')

theorem skeletons_withTree {d : Diagram α} {tree : Hierarchy α}
    (h : tree.skeleton = d.shownRun.tree.skeleton) :
    (d.withTree tree).runs.map (·.tree.skeleton) = d.runs.map (·.tree.skeleton) := by
  apply List.ext_getElem?
  intro i
  rw [withTree, List.getElem?_map, List.getElem?_map, List.getElem?_modify]
  by_cases hi : d.selection.run = i
  · have hrun : d.runs[i]? = some d.shownRun := hi ▸ List.getElem?_eq_getElem d.run_lt
    rw [hrun]
    simp [hi, h]
  · simp [hi]

theorem skeleton_shownRun_eq {d d' : Diagram α}
    (hruns : d.runs.map (·.tree.skeleton) = d'.runs.map (·.tree.skeleton))
    (hselection : d.selection = d'.selection) :
    d.shownRun.tree.skeleton = d'.shownRun.tree.skeleton := by
  have hget : ∀ k : Diagram α, (k.runs.map (·.tree.skeleton))[k.selection.run]? =
      some k.shownRun.tree.skeleton := by
    intro k
    rw [List.getElem?_map, List.getElem?_eq_getElem k.run_lt]
    rfl
  have heq := hget d
  rw [hruns, hselection, hget d'] at heq
  exact (Option.some.inj heq).symm

theorem Steady.ids_nodup {d : Diagram α} (h : d.Steady) : d.current.ids.Nodup := by
  rw [h.current_eq, Hierarchy.ids_prune]
  exact Hierarchy.ids_nodup (h.distinct _ d.shownRun_mem)

end Diagram

namespace Session

/-- The scene holds the elements of what the diagram takes for drawn. -/
structure Agrees (s : Session α) : Prop where
  steady : s.diagram.Steady
  ordered : s.scene.Ordered
  holds : s.scene.Holds (keysOf s.diagram.current.ids)

theorem Agrees.mem_iff {s : Session α} (h : s.Agrees) (key : ElementKey) :
    (∃ e ∈ s.scene.elements, e.key = key ∧ e.exiting = false) ↔
      key ∈ s.diagram.current.elementKeys := by
  rw [h.steady.current_eq, (Hierarchy.elementKeys_prune _).mem_iff, ← h.steady.current_eq,
    ← h.holds key, Scene.isSome_goal?_iff]
  refine exists_congr ?_
  intro e
  rw [h.ordered.get?_eq_some_iff, and_assoc]

end Session

variable [Scalar α] [Printed α]

/-- The answer of a diagram; none if the change cannot be made or if only time passes. -/
def Diagram.answer (d : Diagram α) : Step α → Option (Change α)
  | .setDate date => (d.setDate date).toOption
  | .toggleBranch id => (d.toggleBranch id).toOption
  | .setEdgeAttribute key => some (d.setEdgeAttribute key)
  | .setNodeAttribute key => some (d.setNodeAttribute key)
  | .advance _ => none

namespace Session

/-- A new diagram, its first pass applied to a scene without elements. -/
def start (doc : Document α) (initial : InitialSelection) (settings : Settings α) : Session α :=
  let change := Diagram.ofDocument doc initial settings
  ⟨change.diagram, Scene.empty.applyPass change.pass⟩

/-- The session after an answer; nothing happens without one. -/
def follow (s : Session α) : Option (Change α) → Session α
  | none => s
  | some change => ⟨change.diagram, s.scene.applyPass change.pass⟩

/-- The session after one step. -/
def step (s : Session α) : Step α → Session α
  | .advance ms => { s with scene := s.scene.advance ms }
  | st => s.follow (s.diagram.answer st)

/-- The session after a sequence of steps. -/
def run (s : Session α) (steps : List (Step α)) : Session α := steps.foldl step s

/-- A session from its beginning. -/
def play (doc : Document α) (settings : Settings α) (initial : InitialSelection)
    (steps : List (Step α)) : Session α :=
  (start doc initial settings).run steps

/-- What time and every answer keep, a step keeps. -/
theorem keeps_step {P : Session α → Prop} {s : Session α} (h : P s)
    (htime : ∀ ms, P { s with scene := s.scene.advance ms })
    (hfollow : ∀ st change, s.diagram.answer st = some change → P (s.follow (some change)))
    (st : Step α) : P (s.step st) := by
  have hanswer : P (s.follow (s.diagram.answer st)) := by
    cases hchange : s.diagram.answer st with
    | none => exact h
    | some change => exact hfollow st change hchange
  cases st with
  | advance ms => exact htime ms
  | setDate date => exact hanswer
  | toggleBranch id => exact hanswer
  | setEdgeAttribute key => exact hanswer
  | setNodeAttribute key => exact hanswer

/-- What every step keeps, a run keeps. -/
theorem keeps_run {P : Session α → Prop} (hstep : ∀ s, P s → ∀ st, P (s.step st)) {s : Session α}
    (h : P s) (steps : List (Step α)) : P (s.run steps) := by
  induction steps generalizing s with
  | nil => exact h
  | cons st steps ih => exact ih (hstep s h st)

end Session

namespace Session

variable {β : Type}

/-- The notes that are taken of a sequence of steps, each of the diagram as it is before the step. -/
def record (note : Diagram α → Step α → Option β) (s : Session α) : List (Step α) → List β
  | [] => []
  | st :: steps => (note s.diagram st).toList ++ (s.step st).record note steps

/-- What every answer keeps along with the notes that are taken of it, a run keeps. -/
theorem keeps_record (note : Diagram α → Step α → Option β) {P : Diagram α → List β → Prop}
    (hanswer : ∀ d notes st change, P d notes → d.answer st = some change →
      P change.diagram (notes ++ (note d st).toList))
    (hnothing : ∀ d st, d.answer st = none → note d st = none) {s : Session α} {notes : List β}
    (h : P s.diagram notes) (steps : List (Step α)) :
    P (s.run steps).diagram (notes ++ s.record note steps) := by
  induction steps generalizing s notes with
  | nil =>
    rw [record, List.append_nil]
    exact h
  | cons st steps ih =>
    rw [record, ← List.append_assoc]
    refine ih ?_
    have hfollow : P (s.follow (s.diagram.answer st)).diagram (notes ++ (note s.diagram st).toList) := by
      cases hchange : s.diagram.answer st with
      | some change => exact hanswer _ _ _ _ h hchange
      | none =>
        rw [hnothing _ _ hchange, Option.toList_none, List.append_nil]
        exact h
    cases st with
    | advance ms => exact hfollow
    | setDate date => exact hfollow
    | toggleBranch id => exact hfollow
    | setEdgeAttribute key => exact hfollow
    | setNodeAttribute key => exact hfollow

end Session

/-! ### The diagram -/

namespace Diagram

/-- The ways to answer: the run on show is drawn after another date has been chosen or a node has been
folded or unfolded, or it is drawn anew with another attribute.  What is reported is left open. -/
inductive Answers (d : Diagram α) : Step α → Change α → Prop
  | setDate {date : String} {run index : Nat} (found : Series.locate? d.runs date = some (run, index))
      (events : List Event) :
      d.Answers (.setDate date)
        { (d.withDate date run index (Series.locate?_run_lt found)).render (some d.current) with
          events := events }
  | toggleBranch {id : String} {toggle : Toggle} {tree : Hierarchy α}
      (shown : d.current.contains id = true)
      (toggled : d.shownRun.tree.toggle? id = some (toggle, tree)) (events : List Event) :
      d.Answers (.toggleBranch id)
        { (d.withTree tree).render (some d.current) with events := events }
  | setEdgeAttribute (key : String) :
      d.Answers (.setEdgeAttribute key)
        (restyle { d with selection := { d.selection with edgeKey := key } })
  | setNodeAttribute (key : String) :
      d.Answers (.setNodeAttribute key)
        (restyle { d with selection := { d.selection with nodeKey := key } })

theorem answers_of_answer {d : Diagram α} {st : Step α} {change : Change α}
    (h : d.answer st = some change) : d.Answers st change := by
  cases st with
  | setDate date =>
    simp only [answer, setDate] at h
    split at h
    · cases h
    · next run index found =>
      cases h
      exact .setDate found _
  | toggleBranch id =>
    simp only [answer, toggleBranch] at h
    split at h
    · cases h
    · next toggle tree htoggle =>
      cases h
      split at htoggle
      · next shown => exact .toggleBranch shown htoggle _
      · cases htoggle
  | setEdgeAttribute key =>
    cases h
    exact .setEdgeAttribute key
  | setNodeAttribute key =>
    cases h
    exact .setNodeAttribute key
  | advance ms => cases h

/-- Drawing the run on show. -/
theorem render_spec {d : Diagram α} (hd : ∀ r ∈ d.runs, r.tree.Distinct)
    {before : Option (Hierarchy α)} (hbefore : (View.oldIds before).Nodup) :
    (d.render before).diagram.Steady ∧
      (d.render before).pass.Leads (keysOf (View.oldIds before))
        (keysOf (d.render before).diagram.current.ids) := by
  have hshown := hd _ d.shownRun_mem
  have hskeleton := d.view.skeleton_new before d.shownRun.tree
  have hids : (d.render before).diagram.current.ids = d.shownRun.tree.ids := by
    show (d.view.reconcile before d.shownRun.tree).new.prune.ids = _
    rw [Hierarchy.ids_prune, View.ids_new]
  refine ⟨⟨forall_withTree hd (hshown.of_skeleton hskeleton), ?_⟩, ?_⟩
  · show _ = (d.withTree _).shownRun.tree.prune
    rw [shownRun_withTree]
    rfl
  · rw [hids]
    exact View.leads_reconcile d.view hbefore (Hierarchy.ids_nodup hshown)

/-- Drawing the tree on show anew. -/
theorem restyle_spec {d : Diagram α} (h : d.Steady) :
    d.restyle.diagram.Steady ∧
      d.restyle.pass.Leads (keysOf d.current.ids) (keysOf d.restyle.diagram.current.ids) := by
  refine ⟨h, ?_⟩
  have hids : d.current.ids = d.shownRun.tree.ids := by rw [h.current_eq, Hierarchy.ids_prune]
  show (d.view.restyle d.shownRun.tree).Leads (keysOf d.current.ids) (keysOf d.current.ids)
  rw [hids]
  exact View.leads_restyle d.view (Hierarchy.ids_nodup (h.distinct _ d.shownRun_mem))

theorem start_spec (doc : Document α) (initial : InitialSelection) (settings : Settings α) :
    (ofDocument doc initial settings).diagram.Steady ∧
      (ofDocument doc initial settings).pass.Leads []
        (keysOf (ofDocument doc initial settings).diagram.current.ids) :=
  render_spec (Series.distinct_build doc.data settings.canvas) List.nodup_nil

/-- **Every answer** keeps the diagram steady, and its pass leads from what was drawn to what is drawn
now. -/
theorem answer_spec {d : Diagram α} (h : d.Steady) {st : Step α} {change : Change α}
    (hanswer : d.answer st = some change) :
    change.diagram.Steady ∧
      change.pass.Leads (keysOf d.current.ids) (keysOf change.diagram.current.ids) := by
  cases answers_of_answer hanswer with
  | setDate found events =>
    exact render_spec (d := d.withDate _ _ _ (Series.locate?_run_lt found)) h.distinct h.ids_nodup
  | @toggleBranch _ _ tree shown toggled events =>
    have htree : tree.Distinct :=
      (h.distinct _ d.shownRun_mem).of_skeleton (Hierarchy.skeleton_toggle? toggled)
    exact render_spec (d := d.withTree tree) (forall_withTree h.distinct htree) h.ids_nodup
  | setEdgeAttribute key =>
    exact restyle_spec (d := { d with selection := { d.selection with edgeKey := key } })
      ⟨h.distinct, h.current_eq⟩
  | setNodeAttribute key =>
    exact restyle_spec (d := { d with selection := { d.selection with nodeKey := key } })
      ⟨h.distinct, h.current_eq⟩

end Diagram

/-! ### Diagram and scene -/

namespace Session

theorem agrees_start (doc : Document α) (initial : InitialSelection) (settings : Settings α) :
    (start doc initial settings).Agrees := by
  obtain ⟨hsteady, hleads⟩ := Diagram.start_spec doc initial settings
  exact ⟨hsteady, Scene.ordered_empty.applyPass _, hleads.holds Scene.ordered_empty Scene.holds_empty⟩

theorem Agrees.follow {s : Session α} (h : s.Agrees) {st : Step α} {change : Change α}
    (hanswer : s.diagram.answer st = some change) : (s.follow (some change)).Agrees := by
  obtain ⟨hsteady, hleads⟩ := Diagram.answer_spec h.steady hanswer
  exact ⟨hsteady, h.ordered.applyPass _, hleads.holds h.ordered h.holds⟩

/-- One step keeps diagram and scene in agreement. -/
theorem Agrees.step {s : Session α} (h : s.Agrees) (st : Step α) : (s.step st).Agrees := by
  refine keeps_step h (fun ms => ?_) (fun st change hanswer => h.follow hanswer) st
  refine ⟨h.steady, h.ordered.advance ms, ?_⟩
  intro k
  show ((s.scene.advance ms).goal? k).isSome = true ↔ _
  rw [h.ordered.isSome_goal?_advance]
  exact h.holds k

theorem Agrees.run {s : Session α} (h : s.Agrees) (steps : List (Step α)) :
    (s.run steps).Agrees :=
  keeps_run (fun _ hs st => hs.step st) h steps

/-- **Diagram and scene agree at all times.**  The first pass meets the empty scene; after any sequence
of changes and moments, whatever the diagram answers next meets the scene as it is then, and the
elements that are there to stay are just those of the tree that has been drawn. -/
theorem passes_meet_scene (doc : Document α) (settings : Settings α) (initial : InitialSelection)
    (steps : List (Step α)) :
    Scene.empty.Meets (Diagram.ofDocument doc initial settings).pass ∧
      (∀ st change, (play doc settings initial steps).diagram.answer st = some change →
        (play doc settings initial steps).scene.Meets change.pass) ∧
      ∀ key,
        (∃ e ∈ (play doc settings initial steps).scene.elements,
          e.key = key ∧ e.exiting = false) ↔
          key ∈ (play doc settings initial steps).diagram.current.elementKeys := by
  have h := (agrees_start doc initial settings).run steps
  refine ⟨?_, ?_, h.mem_iff⟩
  · refine (Diagram.start_spec doc initial settings).2.meets ?_
    intro k
    simp [Scene.goal?, Scene.get?, Scene.empty]
  · intro st change hanswer
    exact (Diagram.answer_spec h.steady hanswer).2.meets h.holds

/-- Exact numbers, written as fractions. -/
instance fractions : Printed ℚ where
  plain q := toString q
  fixed _ q := toString q
  rounded q := toString q

/-- A root with one child, on one date. -/
def pair : Document ℚ where
  data := [⟨["1"], .node { label := "R" } [.node { label := "W" } []]⟩]

/-- A root is folded and, while its child is still on the way out, unfolded again: the pass that brings
back the child meets the scene. -/
theorem passes_meet_scene_revived :
    ∃ change,
      (play pair .default {} [.toggleBranch "R", .advance 100]).diagram.answer (.toggleBranch "R") =
        some change ∧
      ((play pair .default {} [.toggleBranch "R", .advance 100]).scene.get? ⟨.node, "R_W"⟩).map
        (·.exiting) = some true ∧
      (change.pass.filter (·.isCreate)).map (·.key) =
        [⟨.node, "R_W"⟩, ⟨.edge, "R_W"⟩, ⟨.edgeLabel, "R_W"⟩] ∧
      (play pair .default {} [.toggleBranch "R", .advance 100]).scene.Meets change.pass := by
  have hsome : ((play pair .default {} [.toggleBranch "R", .advance 100]).diagram.answer
      (.toggleBranch "R")).isSome = true := by decide +kernel
  obtain ⟨change, hanswer⟩ := Option.isSome_iff_exists.mp hsome
  have hkeys : ((play pair .default {} [.toggleBranch "R", .advance 100]).diagram.answer
      (.toggleBranch "R")).map (fun c => (c.pass.filter (·.isCreate)).map (·.key)) =
        some [⟨.node, "R_W"⟩, ⟨.edge, "R_W"⟩, ⟨.edgeLabel, "R_W"⟩] := by decide +kernel
  rw [hanswer] at hkeys
  exact ⟨change, hanswer, by decide +kernel, Option.some.inj hkeys,
    (passes_meet_scene pair .default {} _).2.1 _ _ hanswer⟩

end Session

end FlowTree
