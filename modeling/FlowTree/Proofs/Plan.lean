import FlowTree.Proofs.Hierarchy.Folding
import FlowTree.Proofs.Reconcile
import FlowTree.Proofs.Scene.Commute

/-!
# The plan of a pass

Which directives a reconciliation gives, and in which order, follows from the ids of the nodes on show
before and after, whatever the hierarchies remember besides.

* **`plan`** lists what is to be done with which element.
* **`View.map_action_phase`** says that the directives for one kind of elements follow the plan.
* **`Hierarchy.Made`** are the hierarchies that can be made of trees; **`Hierarchy.Made.distinct`** says that
  their ids are distinct.
* **`View.pass_follows_plan`** says it for whole passes, and that the order of a pass does not matter to a
  scene.
-/

namespace FlowTree

variable {α : Type}

/-! ### Plans -/

/-- What is to be done with an element. -/
inductive Action where
  | create
  | update
  | remove
  deriving DecidableEq, Repr

/-- What a directive is to do. -/
def Directive.action : Directive α → Action
  | .create .. => .create
  | .update .. => .update
  | .remove .. => .remove

/-- What is to be done with the elements of one kind when nodes with the ids `new` come after nodes with
the ids `old`. -/
def planOf (kind : ElementKind) (old new : List String) : List (Action × ElementKey) :=
  (new.filter fun id => id ∉ old).map (fun id => (.create, ⟨kind, id⟩))
    ++ (new.filter fun id => id ∈ old).map (fun id => (.update, ⟨kind, id⟩))
    ++ (old.filter fun id => id ∉ new).map (fun id => (.remove, ⟨kind, id⟩))

/-- What is to be done with all elements: the nodes come first, then the edges and then their labels, of
which the root, the first node of each list, has none. -/
def plan (old new : List String) : List (Action × ElementKey) :=
  planOf .node old new ++ planOf .edge old.tail new.tail ++ planOf .edgeLabel old.tail new.tail

namespace View

/-- **The directives for one kind of elements follow the plan.** -/
theorem map_action_phase (v : View α) (target : String → Point α) {kind : ElementKind}
    {create update : Spot α → Directive α}
    (hcreate : ∀ s, ((create s).action, (create s).key) = (.create, ⟨kind, s.id⟩))
    (hupdate : ∀ s, ((update s).action, (update s).key) = (.update, ⟨kind, s.id⟩))
    (old new : List (Spot α)) :
    (v.phase target kind create update old new).map (fun d => (d.action, d.key)) =
      planOf kind (old.map (·.id)) (new.map (·.id)) := by
  have hremove : ∀ s, ((v.removeElement target kind s).action, (v.removeElement target kind s).key) =
      (Action.remove, ⟨kind, s.id⟩) := fun _ => rfl
  simp only [phase, planOf, List.map_append, List.map_map, List.filter_map, Function.comp_def,
    hcreate, hupdate, hremove, List.contains_eq_mem, decide_not]

theorem map_action_reconcile [Scalar α] [Printed α] (v : View α) (old : Option (Hierarchy α))
    (new : Hierarchy α) :
    (v.reconcile old new).pass.map (fun d => (d.action, d.key)) = plan (oldIds old) new.ids := by
  rw [← ids_moving v ((old.map (·.descendants)).getD []) new,
    ← ids_leaving (new.layout v.canvas).descendants old, plan, ← List.map_tail, ← List.map_tail,
    reconcile]
  simp only [List.map_append]
  rw [map_action_phase, map_action_phase, map_action_phase]
  all_goals exact fun _ => rfl

end View

/-! ### Hierarchies made of trees -/

namespace Hierarchy

variable [Scalar α]

/-- The hierarchies that are made of the trees of documents by folding, unfolding, pruning, placing and
by any other change of places and of marks of visibility. -/
inductive Made : Hierarchy α → Prop
  | ofTree (t : Tree (NodeInfo α)) : Made (ofTree t)
  | toggle {h h' : Hierarchy α} {id : String} {toggle : Toggle} (made : Made h)
      (toggled : h.toggle? id = some (toggle, h')) : Made h'
  | prune {h : Hierarchy α} (made : Made h) : Made h.prune
  | layout {h : Hierarchy α} (made : Made h) (canvas : Canvas α) : Made (h.layout canvas)
  | mark {h h' : Hierarchy α} (made : Made h) (listing : h'.listing = h.listing)
      (frame : h'.frame = h.frame) : Made h'

/-- Whatever is made of a tree has distinct ids. -/
theorem Made.distinct {h : Hierarchy α} (hmade : h.Made) : h.Distinct := by
  induction hmade with
  | ofTree t => exact ids_ofTree_nodup t
  | toggle made toggled ih => exact ih.of_skeleton (skeleton_toggle? toggled)
  | prune made ih => exact ih.prune
  | layout made canvas ih => exact ih.of_skeleton (map_layout (fun _ _ => rfl) _ canvas)
  | mark made listing frame ih => exact ih.of_skeleton (skeleton_congr frame)

end Hierarchy

namespace View

variable [Scalar α] [Printed α]

/-- **A pass follows the plan.**  A reconciliation gives exactly the directives of the plan in its order,
for any view and any hierarchies, of which the old one may be missing.  So no element has two directives,
and every scene, whatever it holds, comes out the same if they are carried out in another order. -/
theorem pass_follows_plan (v : View α) {old : Option (Hierarchy α)} {new : Hierarchy α}
    (hold : ∀ h, old = some h → h.Made) (hnew : new.Made) :
    (v.reconcile old new).pass.map (fun d => (d.action, d.key)) =
        plan ((old.map (·.ids)).getD []) new.ids ∧
      ((v.reconcile old new).pass.map (·.key)).Nodup ∧
      ∀ (scene : Scene α) (pass : Pass α), pass.Perm (v.reconcile old new).pass →
        scene.applyPass pass = scene.applyPass (v.reconcile old new).pass := by
  have holdIds : (oldIds old).Nodup := by
    cases old with
    | none => exact List.nodup_nil
    | some h => exact Hierarchy.ids_nodup (hold h rfl).distinct
  have hnodup := (v.leads_reconcile holdIds (Hierarchy.ids_nodup hnew.distinct)).nodup
  exact ⟨v.map_action_reconcile old new, hnodup,
    fun scene pass hperm => scene.applyPass_perm hnodup hperm⟩

end View

/-! ### An example of a plan -/

namespace Hierarchy

/-- A root with a group, which hides its only well, and a well. -/
def grouped : Hierarchy Float :=
  ((ofTree (.node { label := "R" }
    [.node { label := "G" } [.node { label := "W" } []], .node { label := "X" } []])).toggleAll
      ["R_G"]).prune

/-- A root with the well and another group. -/
def regrouped : Hierarchy Float :=
  ofTree (.node { label := "R" }
    [.node { label := "X" } [], .node { label := "Y" } [.node { label := "Z" } []]])

theorem Made.toggleAll {α : Type} [Scalar α] {h : Hierarchy α} (made : h.Made)
    (ids : List String) : (h.toggleAll ids).Made := by
  induction ids generalizing h with
  | nil => exact made
  | cons id ids ih =>
    refine ih ?_
    show (((h.toggle? id).map (·.2)).getD h).Made
    cases ht : h.toggle? id with
    | none => exact made
    | some found => exact made.toggle ht

end Hierarchy

namespace View

/-- A view without attributes. -/
def bare : View Float where
  dateIndex := 0
  edgeKey := ""
  nodeKey := ""
  scales := {}
  metadata := {}
  canvas := Settings.default.canvas
  style := .default

/-- The group goes, the other one comes with its well, root and well stay; any order will do, the reverse
one for instance. -/
theorem pass_follows_plan_regrouped :
    (Hierarchy.grouped.Made ∧ Hierarchy.regrouped.Made) ∧
      (bare.reconcile (some .grouped) .regrouped).pass.map (fun d => (d.action, d.key)) =
        [(.create, ⟨.node, "R_Y"⟩), (.create, ⟨.node, "R_Y_Z"⟩), (.update, ⟨.node, "R"⟩),
          (.update, ⟨.node, "R_X"⟩), (.remove, ⟨.node, "R_G"⟩), (.create, ⟨.edge, "R_Y"⟩),
          (.create, ⟨.edge, "R_Y_Z"⟩), (.update, ⟨.edge, "R_X"⟩), (.remove, ⟨.edge, "R_G"⟩),
          (.create, ⟨.edgeLabel, "R_Y"⟩), (.create, ⟨.edgeLabel, "R_Y_Z"⟩),
          (.update, ⟨.edgeLabel, "R_X"⟩), (.remove, ⟨.edgeLabel, "R_G"⟩)] ∧
      ∀ scene : Scene Float,
        scene.applyPass (bare.reconcile (some .grouped) .regrouped).pass.reverse =
          scene.applyPass (bare.reconcile (some .grouped) .regrouped).pass := by
  have hold : Hierarchy.grouped.Made := ((Hierarchy.Made.ofTree _).toggleAll ["R_G"]).prune
  have hnew : Hierarchy.regrouped.Made := .ofTree _
  obtain ⟨hplan, -, horder⟩ := pass_follows_plan bare
    (fun h (hh : some Hierarchy.grouped = some h) => Option.some.inj hh ▸ hold) hnew
  refine ⟨⟨hold, hnew⟩, hplan.trans ?_, fun scene => horder scene _ (List.reverse_perm _)⟩
  decide +kernel

end View

end FlowTree
