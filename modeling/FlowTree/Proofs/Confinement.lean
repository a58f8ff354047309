import FlowTree.Proofs.Attachment
import FlowTree.Proofs.Hierarchy.Bounds
import FlowTree.Proofs.Session.Pictures

/-!
# Passes stay in the room for the tree

All points of a pass are places of nodes: where a node of one of the two trees belongs, where a node that was
drawn before stood, or where the root of the new tree begins.  If these are in the room for the tree, so is
everything that the pass asks for, and everything in between.

* **`Visual.Within`** says that a visual is in the room and no more than opaque; **`Visual.lasting_within`** says
  that this lasts.
* **`View.holds_start_anchor`** and **`View.holds_finish_anchor`** say where new elements grow out of and where
  old ones fold into.
* **`View.within_reconcile`** and **`View.within_restyle`** say so of whole passes.
-/

namespace FlowTree

/-! ### Visuals in the room -/

/-- The places that a visual shows: that of a node, both ends of an edge. -/
def Visual.places {α : Type} : Visual α → List (Point α)
  | .node look => [look.position]
  | .edge look => [look.path.child, look.path.parent]
  | .edgeLabel _ => []

/-- The visual is in the room for the tree, and its opacity lies between zero and one. -/
structure Visual.Within (canvas : Canvas ℚ) (look : Visual ℚ) : Prop where
  places : ∀ p ∈ look.places, canvas.Holds p
  opacity_nonneg : 0 ≤ look.opacity
  opacity_le : look.opacity ≤ 1

theorem Canvas.Holds.lerp {canvas : Canvas ℚ} {p q : Point ℚ} (hp : canvas.Holds p) (hq : canvas.Holds q)
    {t : ℚ} (ht : 0 ≤ t) (ht' : t ≤ 1) : canvas.Holds (p.lerp q t) :=
  ⟨Scalar.le_lerp hp.left hq.left ht ht', Scalar.lerp_le hp.right hq.right ht ht',
    Scalar.le_lerp hp.top hq.top ht ht', Scalar.lerp_le hp.bottom hq.bottom ht ht'⟩

namespace Visual

variable {canvas : Canvas ℚ}

theorem within_node {look : NodeVisual ℚ} (hposition : canvas.Holds look.position)
    (hopacity : 0 ≤ look.opacity ∧ look.opacity ≤ 1) : (Visual.node look).Within canvas :=
  ⟨fun _ hp => List.mem_singleton.mp hp ▸ hposition, hopacity.1, hopacity.2⟩

theorem within_edge {look : EdgeVisual ℚ} (hchild : canvas.Holds look.path.child)
    (hparent : canvas.Holds look.path.parent) (hopacity : 0 ≤ look.opacity ∧ look.opacity ≤ 1) :
    (Visual.edge look).Within canvas := by
  refine ⟨fun p hp => ?_, hopacity.1, hopacity.2⟩
  rcases List.mem_pair.mp hp with rfl | rfl
  · exact hchild
  · exact hparent

theorem within_edgeLabel {look : EdgeLabelVisual ℚ} (hopacity : 0 ≤ look.opacity ∧ look.opacity ≤ 1) :
    (Visual.edgeLabel look).Within canvas :=
  ⟨fun _ hp => absurd hp List.not_mem_nil, hopacity.1, hopacity.2⟩

theorem Within.withOpacity {look : Visual ℚ} (h : look.Within canvas) {a : ℚ} (ha : 0 ≤ a ∧ a ≤ 1) :
    (look.withOpacity a).Within canvas := by
  cases look <;> exact ⟨h.places, ha.1, ha.2⟩

/-- **On the way between two visuals in the room** nothing leaves it. -/
theorem Within.interpolate {a b : Visual ℚ} (ha : a.Within canvas) (hb : b.Within canvas) (share : ℚ) :
    (a.interpolate b share).Within canvas := by
  obtain ⟨ht, ht'⟩ := Scalar.clampUnit_mem share
  have hopacity : 0 ≤ Scalar.lerp a.opacity b.opacity (Scalar.clampUnit share) ∧
      Scalar.lerp a.opacity b.opacity (Scalar.clampUnit share) ≤ 1 :=
    ⟨Scalar.le_lerp ha.opacity_nonneg hb.opacity_nonneg ht ht',
      Scalar.lerp_le ha.opacity_le hb.opacity_le ht ht'⟩
  cases a with
  | node look =>
    cases b with
    | node look' =>
      refine within_node ?_ hopacity
      exact (ha.places _ List.mem_cons_self).lerp (hb.places _ List.mem_cons_self) ht ht'
    | edge => exact hb
    | edgeLabel => exact hb
  | edge look =>
    cases b with
    | edge look' =>
      have hsecond : ∀ {p q : Point ℚ}, q ∈ [p, q] := fun {p q} => List.mem_cons_of_mem p List.mem_cons_self
      refine within_edge ?_ ?_ hopacity
      · exact (ha.places _ List.mem_cons_self).lerp (hb.places _ List.mem_cons_self) ht ht'
      · exact (ha.places _ hsecond).lerp (hb.places _ hsecond) ht ht'
    | node => exact hb
    | edgeLabel => exact hb
  | edgeLabel look =>
    cases b with
    | edgeLabel look' => exact within_edgeLabel hopacity
    | node => exact hb
    | edge => exact hb

theorem Within.collapsedToward {look : Visual ℚ} (h : look.Within canvas) {p : Point ℚ}
    (hp : canvas.Holds p) : (look.collapsedToward p).Within canvas := by
  have hzero : (0 : ℚ) ≤ Scalar.zero ∧ (Scalar.zero : ℚ) ≤ 1 := ⟨le_refl _, zero_le_one⟩
  cases look with
  | node look => exact within_node hp hzero
  | edge look => exact within_edge hp hp hzero
  | edgeLabel look => exact within_edgeLabel hzero

theorem lasting_within (canvas : Canvas ℚ) : Lasting fun _ (look : Visual ℚ) => look.Within canvas where
  interpolate ha hb share := ha.interpolate hb share
  reappear ha := ha.withOpacity ⟨zero_le_one, le_refl _⟩

end Visual

/-! ### Anchors -/

/-- An anchor is the node or one of its ancestors, and if it is not visible, it is the root. -/
theorem Hierarchy.exists_anchorOf {α : Type} (f : Node α → Node α) (n : Node α) (above : List (Node α)) :
    ∃ m ∈ n :: above, anchorOf (f n) (above.map f) = f m ∧
      ((f m).visible = true ∨ m = above.getLast?.getD n) := by
  induction above generalizing n with
  | nil => exact ⟨n, List.mem_cons_self, rfl, Or.inr rfl⟩
  | cons p above ih =>
    rw [List.map_cons, anchorOf, List.getLast?_cons, Option.getD_some]
    cases hvisible : (f n).visible with
    | true => exact ⟨n, List.mem_cons_self, rfl, Or.inl hvisible⟩
    | false =>
      obtain ⟨m, hm, hanchor, hroot⟩ := ih p
      exact ⟨m, List.mem_cons_of_mem n hm, hanchor, hroot⟩

namespace View

section Places

variable {v : View ℚ} {old : Option (Hierarchy ℚ)} {new : Hierarchy ℚ} {s : Spot ℚ}

/-- A node of the new tree and its parent go to places in the room. -/
theorem holds_coming (hroomy : v.canvas.Roomy) (hs : s ∈ v.coming old new) :
    v.canvas.Holds s.node.finish ∧ v.canvas.Holds ((s.parent.map (·.finish)).getD .origin) := by
  obtain ⟨n, above, hx, hnode, hparent, -⟩ := lineage_of_mem_coming hs
  have hplaces := Hierarchy.holds_layout hroomy new
  constructor
  · rw [hnode, (inheritance_keeps _ n).2.2]
    exact hplaces n (Tree.fst_mem_of_mem_lineages hx)
  · rw [hparent]
    cases above with
    | nil => exact hroomy.holds_origin
    | cons p above =>
      show v.canvas.Holds (inheritance (oldNodes old) p).finish
      rw [(inheritance_keeps _ p).2.2]
      exact hplaces p (Tree.mem_of_mem_lineages hx (by simp))

/-- **New elements grow out of a place in the room**: of a node that was drawn before, or where the root of
the new tree begins. -/
theorem holds_start_anchor (hold : ∀ o ∈ oldNodes old, v.canvas.Holds o.start)
    (hroot : v.canvas.Holds new.root.start) (hs : s ∈ v.coming old new) :
    v.canvas.Holds s.anchor.start := by
  obtain ⟨n, above, hx, -, -, hanchor⟩ := lineage_of_mem_coming hs
  obtain ⟨m, -, heq, hvisible⟩ := Hierarchy.exists_anchorOf (inheritance (oldNodes old)) n above
  rw [hanchor, heq]
  cases hfound : (oldNodes old).find? (·.id == m.id) with
  | some o =>
    rw [inheritance, hfound]
    exact hold o (List.mem_of_find?_eq_some hfound)
  | none =>
    -- a node without an old one is not visible, so it is the root
    rw [inheritance, hfound] at hvisible ⊢
    have hm : m = (new.layout v.canvas).root := by
      rw [hvisible.resolve_left Bool.false_ne_true, Tree.getLast_lineages hx, Hierarchy.value_shown]
    show v.canvas.Holds m.start
    rw [hm, Hierarchy.start_root_layout]
    exact hroot

/-- **Old elements fold into a place in the room**: where a node goes that stays, or where one was. -/
theorem holds_finish_anchor (hroomy : v.canvas.Roomy) (hold : ∀ o ∈ oldNodes old, v.canvas.Holds o.finish)
    (hs : s ∈ v.leaving old new) : v.canvas.Holds s.anchor.finish := by
  obtain ⟨h, rfl, -⟩ := mem_leaving_iff.mp hs
  obtain ⟨n, above, hx, -, -, hanchor⟩ := lineage_of_mem_leaving hs
  obtain ⟨m, hm, heq, -⟩ :=
    Hierarchy.exists_anchorOf (bequest (new.layout v.canvas).descendants) n above
  rw [hanchor, heq, bequest]
  split
  · next k hfound =>
    refine Hierarchy.holds_layout hroomy new k ?_
    exact (Tree.breadthFirst_perm _).mem_iff.mp (List.mem_of_find?_eq_some hfound)
  · exact hold m ((Tree.breadthFirst_perm _).mem_iff.mpr (Tree.mem_of_mem_lineages hx hm))

end Places

/-! ### Passes -/

variable [Printed ℚ] {v : View ℚ}

/-- Elements at rest are in the room if their nodes are. -/
theorem within_settled {s : Spot ℚ} (hnode : v.canvas.Holds s.node.finish)
    (hparent : v.canvas.Holds ((s.parent.map (·.finish)).getD .origin)) :
    (v.settledNode s).Within v.canvas ∧ (Visual.edge (v.settledEdge s)).Within v.canvas :=
  ⟨Visual.within_node hnode ⟨zero_le_one, le_refl _⟩,
    Visual.within_edge hnode hparent ⟨zero_le_one, le_refl _⟩⟩

/-- **A reconciliation stays in the room** if both trees do. -/
theorem within_reconcile {old : Option (Hierarchy ℚ)} {new : Hierarchy ℚ} (hroomy : v.canvas.Roomy)
    (hold : ∀ h, old = some h → h.Named) (hnew : new.Named)
    (hplaces : ∀ o ∈ oldNodes old, v.canvas.Holds o.start ∧ v.canvas.Holds o.finish)
    (hroot : v.canvas.Holds new.root.start) :
    ∀ d ∈ (v.reconcile old new).pass, d.Only fun _ look => look.Within v.canvas := by
  intro d hd
  have hone : (0 : ℚ) ≤ Scalar.one ∧ (Scalar.one : ℚ) ≤ 1 := ⟨zero_le_one, le_refl _⟩
  have hzero : (0 : ℚ) ≤ Scalar.zero ∧ (Scalar.zero : ℚ) ≤ 1 := ⟨le_refl _, zero_le_one⟩
  rcases (mem_reconcile hold hnew).mp hd with ⟨s, hs, -, hd⟩ | ⟨s, hs, -, hd⟩ | ⟨s, hs, -, hd⟩
  · obtain ⟨hnode, hparent⟩ := holds_coming hroomy hs
    have hstart := holds_start_anchor (fun o ho => (hplaces o ho).1) hroot hs
    obtain ⟨hsettled, hsettled'⟩ := within_settled hnode hparent
    rcases mem_elementsOf.mp hd with rfl | ⟨-, rfl | rfl⟩
    · exact ⟨Visual.within_node hstart hone, hsettled⟩
    · exact ⟨Visual.within_edge hstart hstart hone, hsettled'⟩
    · exact ⟨Visual.within_edgeLabel hzero, Visual.within_edgeLabel hone⟩
  · obtain ⟨hnode, hparent⟩ := holds_coming hroomy hs
    obtain ⟨hsettled, hsettled'⟩ := within_settled hnode hparent
    rcases mem_elementsOf.mp hd with rfl | ⟨-, rfl | rfl⟩
    · exact hsettled
    · exact hsettled'
    · exact Visual.within_edgeLabel hone
  · have hfinish := holds_finish_anchor hroomy (fun o ho => (hplaces o ho).2) hs
    rcases mem_elementsOf.mp hd with rfl | ⟨-, rfl | rfl⟩ <;>
    · exact fun look hlook => hlook.collapsedToward hfinish

/-- **So does drawing anew** if the tree does. -/
theorem within_restyle {h : Hierarchy ℚ} (hroomy : v.canvas.Roomy) (hplaced : h.Placed v.canvas) :
    ∀ d ∈ v.restyle h, d.Only fun _ look => look.Within v.canvas := by
  have hspot : ∀ s ∈ h.spots, (v.settledNode s).Within v.canvas ∧
      (Visual.edge (v.settledEdge s)).Within v.canvas := by
    intro s hs
    obtain ⟨above, hx, hparent, -⟩ := Hierarchy.lineage_of_mem_spots hs
    refine within_settled (hplaced.holds hroomy _ (Tree.fst_mem_of_mem_lineages hx)) ?_
    rw [hparent]
    cases above with
    | nil => exact hroomy.holds_origin
    | cons p above => exact hplaced.holds hroomy p (Tree.mem_of_mem_lineages hx (by simp))
  intro d hd
  rcases List.mem_append.mp hd with hd | hd
  · obtain ⟨s, hs, rfl⟩ := List.mem_map.mp hd
    exact (hspot s hs).1
  · obtain ⟨s, hs, rfl⟩ := List.mem_map.mp hd
    exact (hspot s (List.mem_of_mem_tail hs)).2

end View

end FlowTree
