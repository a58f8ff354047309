import FlowTree.Hierarchy.Spot
import FlowTree.Proofs.Hierarchy.Changes

/-!
# What can be seen of a hierarchy

A node in its surroundings is drawn from little: its id, its information, its place, the place of its
parent, and whether it has children and hides them.

* **`Spot.sight`** is what is drawn of a node at rest.
* **`Hierarchy.spots_map_id`** says that the spots are the nodes on show.
* **`Hierarchy.collapsedIds`** are the nodes that hide their children.
* **`Hierarchy.outline`** is a hierarchy up to places and passing marks; **`Hierarchy.sights_congr`** says
  that the outline and the places on show decide all that can be seen.
-/

namespace FlowTree

variable {α : Type}

/-- What is drawn of a node at rest. -/
structure Sight (α : Type) where
  id : String
  info : NodeInfo α
  finish : Point α
  parentFinish : Option (Point α)
  hasChildren : Bool
  collapsed : Bool

/-- What is drawn of a node in its surroundings. -/
def Spot.sight (s : Spot α) : Sight α :=
  ⟨s.id, s.node.info, s.node.finish, s.parent.map (·.finish), s.hasChildren, s.collapsed⟩

namespace Spot

theorem sight_eq_iff {s s' : Spot α} :
    s.sight = s'.sight ↔ s.id = s'.id ∧ s.node.info = s'.node.info ∧
      s.node.finish = s'.node.finish ∧ s.parent.map (·.finish) = s'.parent.map (·.finish) ∧
      s.hasChildren = s'.hasChildren ∧ s.collapsed = s'.collapsed := by
  rw [sight, sight, Sight.mk.injEq]

/-- What reads only what can be seen is the same for lists that look alike. -/
theorem map_eq_map {γ : Type} {g : Spot α → γ} (hg : ∀ s s' : Spot α, s.sight = s'.sight → g s = g s')
    {l l' : List (Spot α)} (h : l.map sight = l'.map sight) : l.map g = l'.map g := by
  induction l generalizing l' with
  | nil =>
    obtain rfl := List.map_eq_nil_iff.mp h.symm
    rfl
  | cons s l ih =>
    obtain ⟨s', l', rfl, hs, hl⟩ := List.map_eq_cons_iff.mp h.symm
    rw [List.map_cons, List.map_cons, hg s s' hs.symm, ih hl.symm]

end Spot

namespace Hierarchy

/-! ### Surroundings -/

/-- Each node with its surroundings, the root being below a node with its anchor. -/
def contextAt (above : Option (Node α × Node α)) (t : Tree (Node α)) : Tree (Spot α) :=
  Tree.fold (γ := Option (Node α × Node α) → Tree (Spot α))
    (fun n cs above =>
      let anchor := match above with
        | none => n
        | some (_, anchor) => if n.visible then n else anchor
      .node ⟨n, above.map (·.1), anchor, !cs.isEmpty⟩ (cs.map fun c => c (some (n, anchor))))
    t above

/-- The anchor of a node below another one. -/
def anchorBelow (above : Option (Node α × Node α)) (n : Node α) : Node α :=
  match above with
  | none => n
  | some (_, anchor) => if n.visible then n else anchor

theorem inContext_eq (t : Tree (Node α)) : inContext t = contextAt none t := rfl

theorem contextAt_node (above : Option (Node α × Node α)) (n : Node α)
    (cs : List (Tree (Node α))) :
    contextAt above (.node n cs) =
      .node ⟨n, above.map (·.1), anchorBelow above n, !cs.isEmpty⟩
        (cs.map (contextAt (some (n, anchorBelow above n)))) := by
  rw [contextAt, Tree.fold_node, List.isEmpty_map]
  exact congrArg (Tree.node _) (List.map_map ..)

/-- Forgetting the surroundings gives back the tree. -/
theorem map_node_contextAt (above : Option (Node α × Node α)) (t : Tree (Node α)) :
    (contextAt above t).map (·.node) = t := by
  induction t generalizing above with
  | node n cs ih =>
    rw [contextAt_node, Tree.map_node, List.map_map]
    congr 1
    exact (List.map_congr_left fun c hc => ih c hc _).trans cs.map_id

/-- The spots are the nodes on show. -/
theorem spots_map_node (h : Hierarchy α) : h.spots.map (·.node) = h.descendants := by
  rw [spots, ← Tree.breadthFirst_map,
    Tree.map_cut (fun s : Spot α => s.node) (fun n => n.folded), inContext_eq, map_node_contextAt]
  rfl

theorem spots_map_id (h : Hierarchy α) : h.spots.map (·.id) = h.ids := by
  rw [ids, ← spots_map_node, List.map_map]
  rfl

/-! ### Outlines -/

/-- The ids and the informations of a tree, and which nodes hide their children. -/
def outlineOf (t : Tree (Node α)) : Tree (String × NodeInfo α × Bool) :=
  Tree.fold (fun n cs => .node (n.id, n.info, n.folded && !cs.isEmpty) cs) t

theorem outlineOf_node (n : Node α) (cs : List (Tree (Node α))) :
    outlineOf (.node n cs) =
      .node (n.id, n.info, n.folded && !cs.isEmpty) (cs.map outlineOf) := by
  rw [outlineOf, Tree.fold_node, List.isEmpty_map]
  rfl

/-- The outline of a hierarchy. -/
def outline (h : Hierarchy α) : Tree (String × NodeInfo α × Bool) := outlineOf h.tree

/-- The outline depends on the ids, the informations and the folded nodes. -/
theorem outlineOf_congr {t t' : Tree (Node α)}
    (h : (t.map fun n => (n.id, n.info, n.folded)) = t'.map fun n => (n.id, n.info, n.folded)) :
    outlineOf t = outlineOf t' := by
  have hfold : ∀ s : Tree (Node α), outlineOf s =
      Tree.fold (fun (v : String × NodeInfo α × Bool) cs =>
          .node (v.1, v.2.1, v.2.2 && !cs.isEmpty) cs)
        (s.map fun n => (n.id, n.info, n.folded)) := by
    intro s
    rw [Tree.fold_map]
    rfl
  rw [hfold, hfold, h]

/-- Two trees with one outline show their children alike. -/
theorem folded_eq_of_outline {n n' : Node α} {cs cs' : List (Tree (Node α))}
    (h : outlineOf (.node n cs) = outlineOf (.node n' cs')) (hne : cs ≠ []) :
    n.folded = n'.folded := by
  rw [outlineOf_node, outlineOf_node, Tree.node.injEq] at h
  have hlength := congrArg List.length h.2
  rw [List.length_map, List.length_map] at hlength
  have hne' : cs' ≠ [] := by
    rintro rfl
    exact hne (List.eq_nil_of_length_eq_zero hlength)
  have hcollapsed := congrArg (fun v => v.2.2) h.1
  rwa [List.isEmpty_eq_false_iff.mpr hne, List.isEmpty_eq_false_iff.mpr hne', Bool.not_false,
    Bool.and_true, Bool.and_true] at hcollapsed

/-- **The outline and the places on show decide what can be seen.** -/
theorem sightsAt_congr {t t' : Tree (Node α)} {above above' : Option (Node α × Node α)}
    (houtline : outlineOf t = outlineOf t')
    (hfinish : (t.cut (·.folded)).map (·.finish) = (t'.cut (·.folded)).map (·.finish))
    (habove : (above.map (·.1.finish)) = above'.map (·.1.finish)) :
    ((contextAt above t).cut (·.node.folded)).map Spot.sight =
      ((contextAt above' t').cut (·.node.folded)).map Spot.sight := by
  induction t generalizing t' above above' with
  | node n cs ih =>
    obtain ⟨n', cs'⟩ := t'
    have hparts := houtline
    rw [outlineOf_node, outlineOf_node, Tree.node.injEq] at hparts
    obtain ⟨hroot, hchildren⟩ := hparts
    simp only [Tree.cut_node, Tree.map_node, Tree.node.injEq] at hfinish
    have hlength := congrArg List.length hchildren
    rw [List.length_map, List.length_map] at hlength
    have hempty : cs.isEmpty = cs'.isEmpty := by
      cases cs <;> cases cs' <;> simp at hlength ⊢
    simp only [Prod.mk.injEq] at hroot
    rw [contextAt_node, contextAt_node, Tree.cut_node, Tree.cut_node, Tree.map_node, Tree.map_node]
    congr 1
    · refine Spot.sight_eq_iff.mpr ⟨hroot.1, hroot.2.1, hfinish.1, ?_, ?_, hroot.2.2⟩
      · rw [Option.map_map, Option.map_map]
        exact habove
      · rw [hempty]
    · by_cases hnil : cs = []
      · have hnil' : cs' = [] := by
          rw [hnil] at hlength
          exact List.eq_nil_of_length_eq_zero hlength.symm
        rw [hnil, hnil']
        simp
      · -- only where there are children does the outline tell whether they are folded away
        have hfolded := folded_eq_of_outline houtline hnil
        have hrest := hfinish.2
        rw [← hfolded] at hrest
        simp only [← hfolded]
        by_cases hf : n.folded = true
        · simp [hf]
        · simp only [hf, Bool.false_eq_true, if_false, List.map_map] at hrest ⊢
          apply List.ext_getElem
          · simpa using hlength
          · intro i h₁ h₂
            rw [List.length_map] at h₁ h₂
            have hout := congrArg (fun l => l[i]?) hchildren
            have hfin := congrArg (fun l => l[i]?) hrest
            simp only [List.getElem?_map, List.getElem?_eq_getElem h₁, List.getElem?_eq_getElem h₂,
              Option.map_some, Option.some.injEq] at hout hfin
            rw [List.getElem_map, List.getElem_map]
            exact ih _ (List.getElem_mem h₁) hout hfin (congrArg some hfinish.1)

/-- The nodes that hide their children, themselves on show or not. -/
def collapsedIds (h : Hierarchy α) : List String :=
  ((inContext h.tree).preorder.filter (·.collapsed)).map (·.id)

theorem outlineOf_eq_map (above : Option (Node α × Node α)) (t : Tree (Node α)) :
    outlineOf t = (contextAt above t).map fun s => (s.id, s.node.info, s.collapsed) := by
  induction t generalizing above with
  | node n cs ih =>
    rw [outlineOf_node, contextAt_node, Tree.map_node, List.map_map]
    congr 1
    exact List.map_congr_left fun c hc => ih c hc _

theorem preorder_inContext_map_id (h : Hierarchy α) :
    (inContext h.tree).preorder.map (·.id) = h.tree.preorder.map (·.id) := by
  have hnodes := congrArg Tree.preorder (map_node_contextAt none h.tree)
  rw [Tree.preorder_map] at hnodes
  rw [← hnodes, List.map_map]
  rfl

/-- In a hierarchy with distinct ids a node is known by its id. -/
theorem collapsed_iff {h : Hierarchy α} (hd : h.Distinct) {s : Spot α}
    (hs : s ∈ (inContext h.tree).preorder) : s.collapsed = true ↔ s.id ∈ h.collapsedIds := by
  rw [collapsedIds, List.mem_map]
  constructor
  · exact fun hc => ⟨s, List.mem_filter.mpr ⟨hs, hc⟩, rfl⟩
  · rintro ⟨s', hs', hid⟩
    obtain ⟨hmem, hc⟩ := List.mem_filter.mp hs'
    have hnodup : ((inContext h.tree).preorder.map (·.id)).Nodup := by
      rw [preorder_inContext_map_id]
      exact hd
    rwa [List.inj_on_of_nodup_map hnodup hmem hs hid] at hc

theorem outline_eq_skeleton_map {h : Hierarchy α} (hd : h.Distinct) :
    h.outline = h.skeleton.map fun v => (v.1, v.2, decide (v.1 ∈ h.collapsedIds)) := by
  have hskeleton : h.skeleton = (inContext h.tree).map fun s => (s.id, s.node.info) := by
    rw [skeleton, inContext_eq]
    conv_lhs => rw [← map_node_contextAt none h.tree, Tree.map_map]
    rfl
  rw [outline, outlineOf_eq_map none, hskeleton, Tree.map_map, ← inContext_eq]
  refine Tree.map_congr ?_
  intro s hs
  have hcollapsed := collapsed_iff hd hs
  show (s.id, s.node.info, s.collapsed) = (s.id, s.node.info, decide (s.id ∈ h.collapsedIds))
  simp only [← hcollapsed, Bool.decide_eq_true]

/-- Hierarchies with the same ids and informations and the same collapsed nodes have one outline. -/
theorem outline_congr {h h' : Hierarchy α} (hd : h.Distinct) (hskeleton : h.skeleton = h'.skeleton)
    (hcollapsed : ∀ id, id ∈ h.collapsedIds ↔ id ∈ h'.collapsedIds) : h.outline = h'.outline := by
  rw [outline_eq_skeleton_map hd, outline_eq_skeleton_map (hd.of_skeleton hskeleton.symm), hskeleton]
  simp only [hcollapsed]

theorem sights_congr {h h' : Hierarchy α} (houtline : h.outline = h'.outline)
    (hfinish : h.shown.map (·.finish) = h'.shown.map (·.finish)) :
    h.spots.map Spot.sight = h'.spots.map Spot.sight := by
  rw [spots, spots, ← Tree.breadthFirst_map, ← Tree.breadthFirst_map, inContext_eq, inContext_eq,
    sightsAt_congr houtline hfinish rfl]

/-- The places on show depend on the places and on what is folded. -/
theorem map_finish_shown_congr {h h' : Hierarchy α}
    (heq : (h.tree.map fun n => (n.finish, n.folded)) =
      h'.tree.map fun n => (n.finish, n.folded)) :
    h.shown.map (·.finish) = h'.shown.map (·.finish) := by
  have hfinish : ∀ k : Hierarchy α, k.shown.map (·.finish) =
      ((k.tree.map fun n => (n.finish, n.folded)).cut (·.2)).map (·.1) := by
    intro k
    rw [← Tree.map_cut (fun n : Node α => (n.finish, n.folded)) (·.2), Tree.map_map]
    rfl
  rw [hfinish, hfinish, heq]

/-- Marks that only a pass reads cannot be seen. -/
theorem sights_updateShown {f : Node α → Node α}
    (hf : ∀ n, (f n).id = n.id ∧ (f n).info = n.info ∧ (f n).finish = n.finish ∧
      (f n).folded = n.folded) (h : Hierarchy α) :
    (h.updateShown f).spots.map Spot.sight = h.spots.map Spot.sight := by
  refine sights_congr ?_ ?_
  · refine outlineOf_congr (map_updateShown (fun n => ?_) h)
    rw [(hf n).1, (hf n).2.1, (hf n).2.2.2]
  · refine map_finish_shown_congr (map_updateShown (fun n => ?_) h)
    rw [(hf n).2.2.1, (hf n).2.2.2]

end Hierarchy

end FlowTree
