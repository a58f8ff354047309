import FlowTree.Proofs.Hierarchy.Lineage
import FlowTree.Proofs.Reconcile

/-!
# Where elements come from and where they go

An element that comes grows out of the nearest ancestor that was on show before, one that goes folds into
the nearest ancestor that stays.  A reconciliation finds these ancestors by marks that it leaves on the
nodes of both trees; here they are found in the trees as they are drawn before and after.

* **`Hierarchy.kin?`** is the nearest ancestor of a node in another tree; **`Hierarchy.exitPoint`** and
  **`Hierarchy.entryPoint`** are the points in question.
* **`Hierarchy.field_anchorOf`** says what marks lead an anchor to this ancestor.
* **`View.leaving`** and **`View.coming`** are the nodes of the two trees with the marks;
  **`View.finish_anchor_leaving`** and **`View.start_anchor_coming`** say where their anchors are.
* **`View.mem_reconcile`** tells what a reconciliation does node by node, and
  **`View.followsKin_reconcile`** where its directives lead.
-/

namespace FlowTree

variable {α γ : Type}

/-- With distinct keys an element is found by its key. -/
theorem find?_of_nodup_map {β κ : Type} [BEq κ] [LawfulBEq κ] (key : β → κ) {l : List β}
    (h : (l.map key).Nodup) {x : β} (hx : x ∈ l) : l.find? (key · == key x) = some x := by
  cases hfound : l.find? (key · == key x) with
  | none =>
    rw [List.find?_eq_none] at hfound
    exact absurd (beq_self_eq_true (key x)) (hfound x hx)
  | some y =>
    have hkey : key y = key x := by simpa using List.find?_some hfound
    rw [List.inj_on_of_nodup_map h (List.mem_of_find?_eq_some hfound) hx hkey]

theorem mem_of_find?_id {l : List (Node α)} {id : String} {n : Node α}
    (h : l.find? (·.id == id) = some n) : n ∈ l ∧ n.id = id :=
  ⟨List.mem_of_find?_eq_some h, by simpa using List.find?_some h⟩

theorem find?_id_eq_none_iff {l : List (Node α)} {id : String} :
    l.find? (·.id == id) = none ↔ id ∉ l.map (·.id) := by
  rw [List.find?_eq_none, List.mem_map, not_exists]
  refine forall_congr' fun n => ?_
  rw [not_and, beq_iff_eq]

namespace Hierarchy

/-! ### Kin in another tree -/

/-- The ancestors of the node with the given id, the nearest one first. -/
def ancestors (h : Hierarchy α) (id : String) : List (Node α) :=
  ((h.tree.lineages.preorder.find? (·.1.id == id)).map (·.2)).getD []

/-- The node on show with the given id. -/
def node? (h : Hierarchy α) (id : String) : Option (Node α) := h.descendants.find? (·.id == id)

/-- The node of another tree with the id of the nearest ancestor whose id is on show there. -/
def kin? (h other : Hierarchy α) (id : String) : Option (Node α) :=
  (h.ancestors id).findSome? fun a => other.node? a.id

/-- Where the elements of a node end that is in the old tree only: where its nearest ancestor that stays
goes to, or where the old root was bound for. -/
def exitPoint (old new : Hierarchy α) (id : String) : Point α :=
  ((old.kin? new id).getD old.root).finish

/-- Where the elements of a node begin that is in the new tree only: where its nearest ancestor that was
on show is, or, if none was, where the root of the new tree stood. -/
def entryPoint (old new : Hierarchy α) (rootStart : Point α) (id : String) : Point α :=
  ((new.kin? old id).map (·.start)).getD rootStart

theorem ancestors_eq {h : Hierarchy α} (hd : h.Distinct) {n : Node α} {above : List (Node α)}
    (hx : (n, above) ∈ h.tree.lineages.preorder) : h.ancestors n.id = above := by
  have hids : (h.tree.lineages.preorder.map (·.1.id)).Nodup := by
    have hnodes : h.tree.lineages.preorder.map (·.1.id) = h.tree.preorder.map (·.id) := by
      conv_rhs => rw [← Tree.map_fst_lineages h.tree, Tree.preorder_map, List.map_map]
      rfl
    rw [hnodes]
    exact hd
  rw [ancestors, find?_of_nodup_map (·.1.id) hids hx]
  rfl

/-- **Marks that lead an anchor to the kin.**  Let the marks `f` make just those nodes visible that have
kin and carry over to them a property of the kin.  Then the anchor of a node without kin has the property
of the nearest ancestor with kin, or that of the root. -/
theorem field_anchorOf {f : Node α → Node α} (kin : Node α → Option (Node α)) (field : Node α → γ)
    {n : Node α} {above : List (Node α)}
    (hsome : ∀ m ∈ n :: above, ∀ k, kin m = some k → (f m).visible = true ∧ field (f m) = field k)
    (hnone : ∀ m ∈ n :: above, kin m = none → (f m).visible = false ∧ field (f m) = field m)
    (hn : kin n = none) :
    field (anchorOf (f n) (above.map f)) =
      field ((above.findSome? kin).getD (above.getLast?.getD n)) := by
  induction above generalizing n with
  | nil => exact (hnone n List.mem_cons_self hn).2
  | cons p above ih =>
    rw [List.map_cons, anchorOf, (hnone n List.mem_cons_self hn).1, if_neg Bool.false_ne_true,
      List.findSome?_cons, List.getLast?_cons, Option.getD_some]
    cases hp : kin p with
    | none =>
      exact ih (fun m hm => hsome m (List.mem_cons_of_mem n hm))
        (fun m hm => hnone m (List.mem_cons_of_mem n hm)) hp
    | some k =>
      obtain ⟨hvisible, hfield⟩ := hsome p (by simp) k hp
      have hanchor : anchorOf (f p) (above.map f) = f p := by
        cases above with
        | nil => rfl
        | cons q above => rw [List.map_cons, anchorOf, if_pos hvisible]
      rw [hanchor, hfield, Option.getD_some]

theorem mem_tree_of_mem_descendants {h : Hierarchy α} {n : Node α} (hn : n ∈ h.descendants) :
    n ∈ h.tree.preorder :=
  (Tree.preorder_cut_sublist _ h.tree).subset ((Tree.breadthFirst_perm h.shown).mem_iff.mp hn)

variable [Scalar α]

theorem node?_drawn (h : Hierarchy α) (canvas : Canvas α) (id : String) :
    (h.drawn canvas).node? id = ((h.layout canvas).node? id).map Node.rested := by
  rw [node?, descendants_drawn, List.find?_map]
  rfl

/-- Placing leaves the root where it begins. -/
theorem start_root_layout (h : Hierarchy α) (canvas : Canvas α) :
    (h.layout canvas).root.start = h.root.start := by
  have hstart := congrArg Tree.value (map_layout (g := fun n => n.start) (fun _ _ => rfl) h canvas)
  rwa [Tree.value_map, Tree.value_map] at hstart

end Hierarchy

/-! ### The marks of a reconciliation -/

/-- What a pass from an old tree to a new one removes and creates follows the kin: only elements of nodes
that go are removed, which all have a target, and they fold into the exit point of their node; a new node
grows out of its entry point, and its edge is a line without length at the same point. -/
structure Pass.FollowsKin (pass : Pass α) (old new : Hierarchy α) (rootStart : Point α) :
    Prop where
  remove : ∀ key toward ms, .remove key toward ms ∈ pass →
    key.id ∈ (KeyDiff.of old.ids new.ids).exiting ∧ toward = old.exitPoint new key.id
  createNode : ∀ id source goal ms, .create ⟨.node, id⟩ source goal ms ∈ pass →
    ∃ look, source = .node look ∧ look.position = old.entryPoint new rootStart id
  createEdge : ∀ id source goal ms, .create ⟨.edge, id⟩ source goal ms ∈ pass →
    ∃ look, source = .edge look ∧ look.path = .collapsed (old.entryPoint new rootStart id)

namespace View

/-- The nodes that were on show before. -/
def oldNodes (old : Option (Hierarchy α)) : List (Node α) := (old.map (·.descendants)).getD []

theorem map_id_oldNodes (old : Option (Hierarchy α)) : (oldNodes old).map (·.id) = oldIds old := by
  cases old <;> rfl

/-- What a node of the old tree takes over from the new one. -/
def bequest (new : List (Node α)) (o : Node α) : Node α :=
  match new.find? (·.id == o.id) with
  | some n => { o with finish := n.finish }
  | none => { o with visible := false }

/-- What a node of the new tree takes over from the old one. -/
def inheritance (old : List (Node α)) (n : Node α) : Node α :=
  match old.find? (·.id == n.id) with
  | some o => { n with start := o.start, visible := o.visible }
  | none => { n with visible := false }

theorem bequest_keeps (new : List (Node α)) (o : Node α) :
    (bequest new o).id = o.id ∧ (bequest new o).folded = o.folded := by
  rw [bequest]
  split <;> exact ⟨rfl, rfl⟩

theorem inheritance_keeps (old : List (Node α)) (n : Node α) :
    (inheritance old n).id = n.id ∧ (inheritance old n).folded = n.folded ∧
      (inheritance old n).finish = n.finish := by
  rw [inheritance]
  split <;> exact ⟨rfl, rfl, rfl⟩

variable [Scalar α]

/-- The nodes of the old tree with the marks of a reconciliation. -/
def leaving (v : View α) (old : Option (Hierarchy α)) (new : Hierarchy α) : List (Spot α) :=
  ((old.map (bequeath (new.layout v.canvas).descendants)).map (·.spots)).getD []

/-- The nodes of the new tree with the marks of a reconciliation. -/
def coming (v : View α) (old : Option (Hierarchy α)) (new : Hierarchy α) : List (Spot α) :=
  (inherit (oldNodes old) (new.layout v.canvas)).spots

theorem map_id_leaving (v : View α) (old : Option (Hierarchy α)) (new : Hierarchy α) :
    (v.leaving old new).map (·.id) = oldIds old := ids_leaving _ old

theorem map_id_coming (v : View α) (old : Option (Hierarchy α)) (new : Hierarchy α) :
    (v.coming old new).map (·.id) = new.ids := ids_moving v _ new

/-- The surroundings of an old node. -/
theorem lineage_of_mem_leaving {v : View α} {old new : Hierarchy α} {s : Spot α}
    (hs : s ∈ v.leaving (some old) new) :
    ∃ n above, (n, above) ∈ old.shown.lineages.preorder ∧
      s.node = bequest (new.layout v.canvas).descendants n ∧
      s.parent = above.head?.map (bequest (new.layout v.canvas).descendants) ∧
      s.anchor = Hierarchy.anchorOf (bequest (new.layout v.canvas).descendants n)
        (above.map (bequest (new.layout v.canvas).descendants)) :=
  Hierarchy.lineage_of_mem_updateShown (fun n => (bequest_keeps _ n).2) hs

/-- The surroundings of a new node. -/
theorem lineage_of_mem_coming {v : View α} {old : Option (Hierarchy α)} {new : Hierarchy α}
    {s : Spot α} (hs : s ∈ v.coming old new) :
    ∃ n above, (n, above) ∈ (new.layout v.canvas).shown.lineages.preorder ∧
      s.node = inheritance (oldNodes old) n ∧ s.parent = above.head?.map (inheritance (oldNodes old)) ∧
      s.anchor = Hierarchy.anchorOf (inheritance (oldNodes old) n)
        (above.map (inheritance (oldNodes old))) :=
  Hierarchy.lineage_of_mem_updateShown (fun n => (inheritance_keeps _ n).2.1) hs

/-- **Where an old node folds into** if it goes. -/
theorem finish_anchor_leaving {v : View α} {old new : Hierarchy α} (hold : old.Named)
    (hrest : old.AtRest) {s : Spot α} (hs : s ∈ v.leaving (some old) new) (hgone : s.id ∉ new.ids) :
    s.anchor.finish = old.exitPoint (new.drawn v.canvas) s.id := by
  obtain ⟨n, above, hx, hnode, -, hanchor⟩ := lineage_of_mem_leaving hs
  rw [hrest.shown_eq] at hx
  have hid : s.id = n.id := by rw [Spot.id, hnode, (bequest_keeps _ n).1]
  have hkin : ∀ m : Node α, (new.drawn v.canvas).node? m.id =
      ((new.layout v.canvas).descendants.find? (·.id == m.id)).map Node.rested :=
    fun m => new.node?_drawn v.canvas m.id
  have hroot : above.getLast?.getD n = old.root := Tree.getLast_lineages hx
  rw [hid, Hierarchy.exitPoint, Hierarchy.kin?, Hierarchy.ancestors_eq hold.distinct hx, hanchor,
    ← hroot]
  refine Hierarchy.field_anchorOf (fun a => (new.drawn v.canvas).node? a.id) (·.finish) ?_ ?_ ?_
  · intro m hm k hk
    rw [hkin, Option.map_eq_some_iff] at hk
    obtain ⟨k, hk, rfl⟩ := hk
    rw [bequest, hk]
    exact ⟨(hrest m (Tree.mem_of_mem_lineages hx hm)).1, rfl⟩
  · intro m _ hm
    rw [hkin, Option.map_eq_none_iff] at hm
    rw [bequest, hm]
    exact ⟨rfl, rfl⟩
  · rw [hkin, Option.map_eq_none_iff]
    rw [← Hierarchy.ids_layout new v.canvas, hid] at hgone
    exact find?_id_eq_none_iff.mpr hgone

/-- **Where a new node grows out of** if it comes. -/
theorem start_anchor_coming {v : View α} {old new : Hierarchy α} (hnew : new.Named)
    (hrest : old.AtRest) {s : Spot α} (hs : s ∈ v.coming (some old) new) (hfresh : s.id ∉ old.ids) :
    s.anchor.start = old.entryPoint (new.drawn v.canvas) new.root.start s.id := by
  obtain ⟨n, above, hx, hnode, -, hanchor⟩ := lineage_of_mem_coming hs
  have hid : s.id = n.rested.id := by rw [Spot.id, hnode, (inheritance_keeps _ n).1]; rfl
  have hdrawn : (n.rested, above.map Node.rested) ∈
      (new.drawn v.canvas).tree.lineages.preorder := by
    rw [Hierarchy.drawn_eq, Tree.lineages_map, Tree.preorder_map]
    exact List.mem_map_of_mem hx
  have hroot : (above.getLast?.getD n).start = new.root.start := by
    rw [Tree.getLast_lineages hx, Hierarchy.shown, Tree.value_cut]
    exact Hierarchy.start_root_layout new v.canvas
  have hkin : (above.map Node.rested).findSome? (fun a => old.node? a.id) =
      above.findSome? fun a => old.node? a.id := List.findSome?_map
  have hpoint : (Hierarchy.anchorOf (inheritance old.descendants n)
        (above.map (inheritance old.descendants))).start =
      ((above.findSome? fun a => old.node? a.id).getD (above.getLast?.getD n)).start := by
    refine Hierarchy.field_anchorOf (fun a => old.node? a.id) (·.start) ?_ ?_ ?_
    · intro m _ k hk
      rw [Hierarchy.node?] at hk
      obtain ⟨hmem, -⟩ := mem_of_find?_id hk
      rw [inheritance, hk]
      exact ⟨(hrest k (Hierarchy.mem_tree_of_mem_descendants hmem)).1, rfl⟩
    · intro m _ hm
      rw [Hierarchy.node?] at hm
      rw [inheritance, hm]
      exact ⟨rfl, rfl⟩
    · rw [hid] at hfresh
      exact find?_id_eq_none_iff.mpr hfresh
  rw [hid, Hierarchy.entryPoint, Hierarchy.kin?,
    Hierarchy.ancestors_eq (hnew.drawn v.canvas).distinct hdrawn, hanchor, hkin]
  refine hpoint.trans ?_
  cases above.findSome? fun a => old.node? a.id with
  | none => exact hroot
  | some k => rfl

/-! ### The directives of a reconciliation -/

section Directives

variable [Printed α]

/-- What to do with the elements of one node: something with the node, and with edge and label unless it
is the root. -/
def elementsOf (node edge label : Spot α → Directive α) (s : Spot α) : Pass α :=
  node s :: if s.inner then [edge s, label s] else []

def creates (v : View α) : Spot α → Pass α := elementsOf v.createNode v.createEdge v.createLabel

def updates (v : View α) : Spot α → Pass α := elementsOf v.updateNode v.updateEdge v.updateLabel

def removes (v : View α) : Spot α → Pass α :=
  elementsOf (v.foldElement .node) (v.foldElement .edge) (v.foldElement .edgeLabel)

omit [Scalar α] [Printed α] in
theorem distinct_oldIds {old : Option (Hierarchy α)} (hold : ∀ h, old = some h → h.Named) :
    (oldIds old).Nodup ∧ Rooted (oldIds old) := by
  cases old with
  | none => exact ⟨List.nodup_nil, fun id hid => absurd hid List.not_mem_nil⟩
  | some h =>
    have hnamed := hold h rfl
    exact ⟨Hierarchy.ids_nodup hnamed.distinct, Hierarchy.rooted_ids hnamed.lineal hnamed.distinct⟩

omit [Scalar α] [Printed α] in
theorem mem_elementsOf {node edge label : Spot α → Directive α} {s : Spot α} {d : Directive α} :
    d ∈ elementsOf node edge label s ↔ d = node s ∨ s.inner = true ∧ (d = edge s ∨ d = label s) := by
  rw [elementsOf, List.mem_cons]
  cases s.inner <;> simp

omit [Scalar α] [Printed α] in
theorem mem_tail_iff {spots : List (Spot α)} (hnodup : (spots.map (·.id)).Nodup)
    (hrooted : Rooted (spots.map (·.id))) {s : Spot α} :
    s ∈ spots.tail ↔ s ∈ spots ∧ s.inner = true := by
  rw [Spot.inner, decide_eq_true_eq]
  constructor
  · intro hs
    have hid : s.id ∈ (spots.map (·.id)).tail := by
      rw [← List.map_tail]
      exact List.mem_map_of_mem hs
    exact ⟨List.mem_of_mem_tail hs, (hrooted.mem_tail_iff.mp hid).2⟩
  · rintro ⟨hs, hseparator⟩
    have hid : s.id ∈ (spots.map (·.id)).tail :=
      hrooted.mem_tail_iff.mpr ⟨List.mem_map_of_mem hs, hseparator⟩
    rw [← List.map_tail] at hid
    obtain ⟨s', hs', heq⟩ := List.mem_map.mp hid
    exact List.inj_on_of_nodup_map hnodup (List.mem_of_mem_tail hs') hs heq ▸ hs'

omit [Scalar α] [Printed α] in
/-- The directives for elements that the root does not have are about the other nodes. -/
theorem mem_phase_tail {v : View α} {target : String → Point α} {kind : ElementKind}
    {create update : Spot α → Directive α} {old new : List (Spot α)} (hold : (old.map (·.id)).Nodup)
    (hnew : (new.map (·.id)).Nodup)
    (hrold : Rooted (old.map (·.id))) (hrnew : Rooted (new.map (·.id))) {d : Directive α} :
    d ∈ v.phase target kind create update old.tail new.tail ↔
      (∃ s ∈ new, s.inner = true ∧ s.id ∉ old.map (·.id) ∧ d = create s) ∨
        (∃ s ∈ new, s.inner = true ∧ s.id ∈ old.map (·.id) ∧ d = update s) ∨
          ∃ s ∈ old, s.inner = true ∧ s.id ∉ new.map (·.id) ∧ d = v.removeElement target kind s := by
  have hids {l : List (Spot α)} (h : Rooted (l.map (·.id))) (s : Spot α) (hs : s.inner = true) :
      s.id ∈ l.tail.map (·.id) ↔ s.id ∈ l.map (·.id) := by
    rw [Spot.inner, decide_eq_true_eq] at hs
    rw [List.map_tail, h.mem_tail_iff, and_iff_left hs]
  rw [mem_phase]
  simp only [mem_tail_iff hold hrold, mem_tail_iff hnew hrnew, and_assoc]
  refine or_congr ?_ (or_congr ?_ ?_)
  · exact exists_congr fun s => and_congr_right fun _ => and_congr_right fun hinner => by
      rw [hids hrold s hinner]
  · exact exists_congr fun s => and_congr_right fun _ => and_congr_right fun hinner => by
      rw [hids hrold s hinner]
  · exact exists_congr fun s => and_congr_right fun _ => and_congr_right fun hinner => by
      rw [hids hrnew s hinner]

theorem pass_reconcile (v : View α) (old : Option (Hierarchy α)) (new : Hierarchy α) :
    (v.reconcile old new).pass =
      let target := exitTarget (exitTargets (v.leaving old new) (v.coming old new))
      v.phase target .node v.createNode v.updateNode (v.leaving old new) (v.coming old new)
        ++ v.phase target .edge v.createEdge v.updateEdge (v.leaving old new).tail
          (v.coming old new).tail
        ++ v.phase target .edgeLabel v.createLabel v.updateLabel (v.leaving old new).tail
          (v.coming old new).tail := rfl

/-- **A reconciliation node by node.**  Each node that comes, stays or goes has its elements come, stay or
go with it. -/
theorem mem_reconcile {v : View α} {old : Option (Hierarchy α)} {new : Hierarchy α}
    (hold : ∀ h, old = some h → h.Named) (hnew : new.Named) {d : Directive α} :
    d ∈ (v.reconcile old new).pass ↔
      (∃ s ∈ v.coming old new, s.id ∉ oldIds old ∧ d ∈ v.creates s) ∨
        (∃ s ∈ v.coming old new, s.id ∈ oldIds old ∧ d ∈ v.updates s) ∨
          ∃ s ∈ v.leaving old new, s.id ∉ new.ids ∧ d ∈ v.removes s := by
  obtain ⟨hnodup, hrooted⟩ := distinct_oldIds hold
  have hnodup' := Hierarchy.ids_nodup hnew.distinct
  have hrooted' := Hierarchy.rooted_ids hnew.lineal hnew.distinct
  rw [← v.map_id_leaving old new] at hnodup hrooted ⊢
  rw [← v.map_id_coming old new] at hnodup' hrooted' ⊢
  have hfold : ∀ kind, ∀ s ∈ v.leaving old new, s.id ∉ (v.coming old new).map (·.id) →
      v.removeElement (exitTarget (exitTargets (v.leaving old new) (v.coming old new))) kind s =
        v.foldElement kind s :=
    fun kind s hs hgone => v.removeElement_eq_foldElement kind hnodup hs hgone
  rw [pass_reconcile, List.mem_append, List.mem_append, mem_phase,
    mem_phase_tail hnodup hnodup' hrooted hrooted', mem_phase_tail hnodup hnodup' hrooted hrooted']
  simp only [creates, updates, removes, mem_elementsOf, and_or_left, exists_or]
  grind

/-- **A reconciliation follows the kin.** -/
theorem followsKin_reconcile {v : View α} {old new : Hierarchy α} (hold : old.Named)
    (hrest : old.AtRest) (hnew : new.Named) :
    (v.reconcile (some old) new).pass.FollowsKin old (new.drawn v.canvas) new.root.start := by
  have hmem {d : Directive α} := mem_reconcile (v := v) (d := d)
    (fun _ hh => Option.some.inj hh ▸ hold) hnew
  have hcreate {key : ElementKey} {source goal : Visual α} {ms : Nat}
      (hd : .create key source goal ms ∈ (v.reconcile (some old) new).pass) :
      ∃ s ∈ v.coming (some old) new, .create key source goal ms ∈ v.creates s ∧
        s.anchor.start = old.entryPoint (new.drawn v.canvas) new.root.start s.id := by
    rcases hmem.mp hd with ⟨s, hs, hfresh, hd⟩ | ⟨s, -, -, hd⟩ | ⟨s, -, -, hd⟩
    · exact ⟨s, hs, hd, start_anchor_coming hnew hrest hs hfresh⟩
    · rcases mem_elementsOf.mp hd with h | ⟨-, h | h⟩ <;> cases h
    · rcases mem_elementsOf.mp hd with h | ⟨-, h | h⟩ <;> cases h
  constructor
  · intro key toward ms hd
    obtain ⟨s, hs, hgone, hd⟩ : ∃ s ∈ v.leaving (some old) new, s.id ∉ new.ids ∧
        .remove key toward ms ∈ v.removes s := by
      rcases hmem.mp hd with ⟨s, -, -, hd⟩ | ⟨s, -, -, hd⟩ | hd
      · rcases mem_elementsOf.mp hd with h | ⟨-, h | h⟩ <;> cases h
      · rcases mem_elementsOf.mp hd with h | ⟨-, h | h⟩ <;> cases h
      · exact hd
    have hid : key.id = s.id ∧ toward = s.anchor.finish := by
      rcases mem_elementsOf.mp hd with h | ⟨-, h | h⟩ <;> cases h <;> exact ⟨rfl, rfl⟩
    have hthere : s.id ∈ old.ids := by
      show s.id ∈ oldIds (some old)
      rw [← v.map_id_leaving (some old) new]
      exact List.mem_map_of_mem hs
    rw [hid.1, hid.2, KeyDiff.of, List.mem_filter, Hierarchy.ids_drawn]
    exact ⟨⟨hthere, by simpa using hgone⟩, finish_anchor_leaving hold hrest hs hgone⟩
  · intro id source goal ms hd
    obtain ⟨s, -, hd, hstart⟩ := hcreate hd
    rcases mem_elementsOf.mp hd with h | ⟨-, h | h⟩ <;> cases h
    exact ⟨_, rfl, hstart⟩
  · intro id source goal ms hd
    obtain ⟨s, -, hd, hstart⟩ := hcreate hd
    rcases mem_elementsOf.mp hd with h | ⟨-, h | h⟩ <;> cases h
    exact ⟨_, rfl, congrArg Curve.collapsed hstart⟩

end Directives

end View

end FlowTree
