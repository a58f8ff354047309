import FlowTree.Proofs.Arena.Exchange
import FlowTree.Proofs.Arena.Placing

/-!
# Passes between arrays

* **`Arena.reconcile`** is a reconciliation of trees in arrays, with tables for the ids; **`Arena.restyle`** draws such
  a tree anew.
* **`Hierarchy.directives_arena`** says that every directive finds its node.
* **`Hierarchy.reconcile_arena`** and **`Hierarchy.restyle_arena`** say that nothing goes wrong and that the passes are
  those of `View.reconcile` and `View.restyle`.
-/

namespace FlowTree

variable {α : Type} [Scalar α] [Printed α]

omit [Scalar α] [Printed α] in
/-- The node at rest. -/
def Node.settled (n : Node α) : Node α := { n with start := n.finish, visible := true }

namespace Arena

/-- The directives for one kind of elements. -/
def phase (v : View α) (a : Arena α) (index : List (String × ℕ)) (targets : List (String × Point α))
    (kind : ElementKind) (create update : Spot α → Directive α) (diff : KeyDiff String) : Checked (Pass α) := do
  let creates ← diff.entering.mapM fun id => do
    let i ← Checked.lookup index id
    let s ← a.lookUp i
    return create s
  let updates ← diff.updating.mapM fun id => do
    let i ← Checked.lookup index id
    let s ← a.look i
    return update s
  let removes := diff.exiting.map fun id =>
    Directive.remove ⟨kind, id⟩ ((Checked.find? targets id).getD .origin) v.duration
  return creates ++ updates ++ removes

/-- All directives of a pass. -/
def directives (v : View α) (a : Arena α) (index : List (String × ℕ)) (targets : List (String × Point α))
    (nodes edges : KeyDiff String) : Checked (Pass α) := do
  let nodePass ← a.phase v index targets .node v.createNode v.updateNode nodes
  let edgePass ← a.phase v index targets .edge v.createEdge v.updateEdge edges
  let labelPass ← a.phase v index targets .edgeLabel v.createLabel v.updateLabel edges
  return nodePass ++ edgePass ++ labelPass

/-- The pass from the tree that was drawn last, if any, to the next one. -/
def reconcile (v : View α) (old : Option (Arena α)) (new : Arena α) :
    Checked (Option (Arena α) × Arena α × Pass α × Event) := do
  let new ← new.layout v.canvas
  let (newOrder, newIds) ← new.listing
  let index := newIds.zip newOrder
  let (oldOrder, oldIds) ← match old with
    | none => pure ([], [])
    | some a => a.listing
  let new ← newOrder.foldlM (stamp Node.hidden) new
  let (old, new) ← match old with
    | none => pure (none, new)
    | some a => do
      let (a, new) ← (oldOrder.zip oldIds).foldlM (exchange index) (a, new)
      pure (some a, new)
  let oldInner ← Checked.from? oldIds (min oldIds.length 1)
  let newInner ← Checked.from? newIds 1
  let nodes := KeyDiff.of oldIds newIds
  let edges := KeyDiff.of oldInner newInner
  let (old, targets) ← match old with
    | none => pure (none, [])
    | some a => do
      let (a, targets) ← a.retire (oldIds.zip oldOrder) nodes.exiting
      pure (some a, targets)
  let pass ← new.directives v index targets nodes edges
  let new ← newOrder.foldlM (stamp Node.settled) new
  return (old, new, pass,
    .reconciled nodes.entering.length nodes.updating.length nodes.exiting.length v.dateIndex)

/-- The pass that draws a tree at rest anew without moving it. -/
def restyle (v : View α) (a : Arena α) : Checked (Pass α) := do
  let order ← a.descendants
  let nodePass ← order.mapM fun i => do
    let s ← a.look i
    return v.updateNode s
  let edgePass ← (order.filter (· != 0)).mapM fun i => do
    let s ← a.look i
    return v.updateEdge s
  return nodePass ++ edgePass

end Arena

namespace Hierarchy

/-! ### Directives -/

omit [Printed α] in
/-- For one kind of elements all nodes are found. -/
theorem phase_arena (v : View α) {h : Hierarchy α} (hd : h.Distinct) {l : List (List ℕ × Spot α)}
    (hl : ∀ x ∈ l, x ∈ h.sites) (old : List (Spot α)) {targets : List (String × Point α)}
    (htargets : (targets.map (·.1)).Nodup) (kind : ElementKind) {create update : Spot α → Directive α}
    (hcreate : ∀ s s' : Spot α, s.outset = s'.outset → create s = create s')
    (hupdate : ∀ s s' : Spot α, s.sight = s'.sight → update s = update s') :
    h.arena.phase v h.index targets kind create update (KeyDiff.of (old.map (·.id)) (l.map (·.2.id))) =
      .ok (v.phase (View.exitTarget targets) kind create update old (l.map (·.2))) := by
  have hfilter : ∀ (p : String → Bool), (l.map (·.2.id)).filter p = (l.filter fun x => p x.2.id).map (·.2.id) := by
    intro p
    rw [List.filter_map]
    rfl
  have hspots : ∀ (p : String → Bool) (f : Spot α → Directive α),
      ((l.map (·.2)).filter fun s => p s.id).map f = (l.filter fun x => p x.2.id).map fun x => f x.2 := by
    intro p f
    rw [List.filter_map, List.map_map]
    rfl
  have hids : (l.map (·.2)).map (·.id) = l.map (·.2.id) := List.map_map ..
  have hcreates : ∀ x ∈ l, (do
      let i ← Checked.lookup h.index x.2.id
      let s ← h.arena.lookUp i
      return create s) = Except.ok (create x.2) := by
    intro x hx
    obtain ⟨s, hs, houtset⟩ := lookUp_arena (hl x hx)
    rw [lookup_site hd (hl x hx), Checked.ok_bind, hs, Checked.ok_bind, hcreate _ _ houtset]
    rfl
  have hupdates : ∀ x ∈ l, (do
      let i ← Checked.lookup h.index x.2.id
      let s ← h.arena.look i
      return update s) = Except.ok (update x.2) := by
    intro x hx
    obtain ⟨s, hs, hsight⟩ := look_arena (hl x hx)
    rw [lookup_site hd (hl x hx), Checked.ok_bind, hs, Checked.ok_bind, hupdate _ _ hsight]
    rfl
  simp only [Arena.phase, KeyDiff.of, hfilter]
  rw [Checked.mapM_eq fun x hx => hcreates x (List.mem_filter.mp hx).1, Checked.ok_bind,
    Checked.mapM_eq fun x hx => hupdates x (List.mem_filter.mp hx).1, Checked.ok_bind, View.phase]
  have hremoves : ((old.map (·.id)).filter fun id => !(l.map (·.2.id)).contains id).map (fun id =>
      Directive.remove ⟨kind, id⟩ ((Checked.find? targets id).getD .origin) v.duration) =
        (old.filter fun s => !(l.map (·.2.id)).contains s.id).map (v.removeElement (View.exitTarget targets) kind) := by
    rw [List.filter_map, List.map_map]
    refine List.map_congr_left fun s _ => ?_
    rw [Function.comp_apply, Checked.find?_eq_lookup htargets]
    rfl
  simp only [hids, hremoves, hspots (fun id => !(old.map (·.id)).contains id),
    hspots fun id => (old.map (·.id)).contains id]
  rfl

/-- **Every directive finds its node.** -/
theorem directives_arena (v : View α) {h : Hierarchy α} (hd : h.Distinct) (old : List (Spot α))
    (hold : (old.map (·.id)).Nodup) :
    h.arena.directives v h.index (View.exitTargets old h.spots) (KeyDiff.of (old.map (·.id)) h.ids)
        (KeyDiff.of (old.map (·.id)).tail h.ids.tail) =
      let target := View.exitTarget (View.exitTargets old h.spots)
      .ok (v.phase target .node v.createNode v.updateNode old h.spots
        ++ v.phase target .edge v.createEdge v.updateEdge old.tail h.spots.tail
        ++ v.phase target .edgeLabel v.createLabel v.updateLabel old.tail h.spots.tail) := by
  have htargets : ((View.exitTargets old h.spots).map (·.1)).Nodup := by
    rw [View.map_fst_exitTargets]
    exact hold.filter _
  have hinner : ∀ x ∈ h.sites.tail, x ∈ h.sites := fun _ => List.mem_of_mem_tail
  rw [Arena.directives, ids_eq_sites, ← List.map_tail, ← List.map_tail,
    phase_arena v hd (fun _ hx => hx) old htargets .node (fun _ _ => v.createNode_congr)
      (fun _ _ => v.updateNode_congr), Checked.ok_bind,
    phase_arena v hd hinner old.tail htargets .edge (fun _ _ => v.createEdge_congr) (fun _ _ => v.updateEdge_congr),
    Checked.ok_bind,
    phase_arena v hd hinner old.tail htargets .edgeLabel (fun _ _ => v.createLabel_congr)
      (fun _ _ => v.updateLabel_congr), Checked.ok_bind, List.map_tail, map_snd_sites]
  rfl

/-! ### Reconciliations -/

omit [Scalar α] [Printed α] in
theorem stamps_settled : Stamps (Node.settled (α := α)) := ⟨fun _ => rfl, fun _ => rfl⟩

omit [Scalar α] [Printed α] in
theorem ids_ne_nil (h : Hierarchy α) : h.ids ≠ [] := by
  rw [ids, descendants, Tree.breadthFirst_eq_cons]
  exact List.cons_ne_nil _ _

omit [Scalar α] [Printed α] in
theorem drop_min_one {β : Type} (l : List β) : l.drop (min l.length 1) = l.tail := by
  cases l <;> simp

omit [Scalar α] [Printed α] in
/-- All but the root are found. -/
theorem from?_ids (h : Hierarchy α) : Checked.from? h.ids 1 = .ok h.ids.tail := by
  rw [Checked.from?_eq (List.length_pos_iff.mpr h.ids_ne_nil), List.drop_one]

omit [Scalar α] [Printed α] in
theorem from?_min (ids : List String) : Checked.from? ids (min ids.length 1) = .ok ids.tail := by
  rw [Checked.from?_eq (Nat.min_le_left _ _), drop_min_one]

/-- **A reconciliation in arrays** goes through. -/
theorem reconcile_arena (v : View α) {old : Option (Hierarchy α)} {new : Hierarchy α}
    (hold : ∀ h, old = some h → h.Distinct) (hnew : new.Distinct) :
    Arena.reconcile v (old.map arena) new.arena =
      .ok ((v.reconcile old new).old.map arena, (v.reconcile old new).new.arena, (v.reconcile old new).pass,
        (v.reconcile old new).event) := by
  have hplaced : (new.layout v.canvas).Distinct := hnew.of_skeleton (skeleton_congr (frame_layout new v.canvas))
  have hlayout := layout_arena new v.canvas
  rw [View.reconcile]
  generalize new.layout v.canvas = placed at hplaced hlayout ⊢
  -- the new tree with what it takes over has the table of the placed tree
  have hstamps := stamps_inheritance ((old.map (·.descendants)).getD [])
  have hmoving := hstamps.distinct hplaced
  have hindex := (hstamps.index placed).symm
  have hids := (hstamps.ids placed).symm
  have horder := (hstamps.order placed).symm
  have hinherit : placed.updateShown (View.inheritance ((old.map (·.descendants)).getD [])) =
      View.inherit ((old.map (·.descendants)).getD []) placed := rfl
  rw [hinherit] at hmoving hindex hids horder
  have hrest : ∀ h : Hierarchy α, h.onShow.breadthFirst.foldlM (Arena.stamp Node.settled) h.arena =
      .ok (View.rest h).arena := stamps_arena stamps_settled
  cases old with
  | none =>
    have hhidden : placed.updateShown Node.hidden = View.inherit [] placed := rfl
    have hdirectives := directives_arena v hmoving [] List.nodup_nil
    simp only [Option.map_none, Option.getD_none] at *
    generalize View.inherit [] placed = moving at *
    have htable : moving.ids.zip moving.onShow.breadthFirst = moving.index := rfl
    have hpass : moving.arena.directives v moving.index [] (KeyDiff.of [] moving.ids)
        (KeyDiff.of [].tail moving.ids.tail) = _ := hdirectives
    simp only [Arena.reconcile, hlayout, listing_arena, Checked.ok_bind, Checked.pure_eq,
      stamps_arena stamps_hidden, hhidden, from?_min, from?_ids]
    simp only [hids, horder, htable, hpass, Checked.ok_bind, hrest, spots_map_id, List.map_nil]
  | some old =>
    have hdistinct := hold old rfl
    have hexchange := exchange_arena hdistinct hplaced
    simp only [Option.map_some, Option.getD_some] at *
    generalize View.inherit old.descendants placed = moving at *
    have htable : placed.ids.zip placed.onShow.breadthFirst = placed.index := rfl
    have hspots : moving.spots.map (·.id) = placed.descendants.map (·.id) := by
      rw [spots_map_id, ← hids]
      rfl
    have hretire := retire_arena hdistinct hspots
    have hleft := (stamps_bequest placed.descendants).ids old
    have hspots' : (View.bequeath placed.descendants old).spots.map (·.id) = old.ids := by
      rw [spots_map_id]
      exact hleft
    have hdirectives := directives_arena v hmoving (View.bequeath placed.descendants old).spots
      (hspots' ▸ ids_nodup hdistinct)
    have hgone : (old.updateShown (aimed placed.descendants)).arena.retire (old.ids.zip old.onShow.breadthFirst)
        (KeyDiff.of old.ids placed.ids).exiting = _ := hretire
    simp only [Arena.reconcile, hlayout, listing_arena, Checked.ok_bind, Checked.pure_eq,
      stamps_arena stamps_hidden, htable, hexchange, from?_min, from?_ids, hgone]
    rw [hspots'] at hdirectives
    simp only [hindex, hids, horder, hdirectives, Checked.ok_bind, hrest, hspots', spots_map_id]

omit [Scalar α] [Printed α] in
/-- All but the root are not at the first position. -/
theorem filter_onShow (h : Hierarchy α) :
    h.onShow.breadthFirst.filter (· != 0) = h.sites.tail.map fun x => h.place x.1 := by
  have hnodup := h.nodup_onShow
  rw [Tree.breadthFirst_eq_cons, value_onShow, List.nodup_cons] at hnodup
  rw [List.map_tail, ← onShow_eq_sites, Tree.breadthFirst_eq_cons, value_onShow, List.filter_cons_of_neg (by simp),
    List.tail_cons, List.filter_eq_self]
  intro i hi
  rw [bne_iff_ne]
  rintro rfl
  exact hnodup.1 hi

/-- **Drawing anew in arrays** goes through. -/
theorem restyle_arena (v : View α) (h : Hierarchy α) : h.arena.restyle v = .ok (v.restyle h) := by
  have hlook : ∀ {f : Spot α → Directive α}, (∀ s s' : Spot α, s.sight = s'.sight → f s = f s') →
      ∀ x ∈ h.sites, (do
        let s ← h.arena.look (h.place x.1)
        return f s) = Except.ok (f x.2) := by
    intro f hf x hx
    obtain ⟨s, hs, hsight⟩ := look_arena hx
    rw [hs, Checked.ok_bind, hf _ _ hsight]
    rfl
  rw [Arena.restyle, descendants_arena, Checked.ok_bind, filter_onShow, onShow_eq_sites,
    Checked.mapM_eq (hlook fun _ _ => v.updateNode_congr), Checked.ok_bind,
    Checked.mapM_eq fun x hx => hlook (fun _ _ => v.updateEdge_congr) x (List.mem_of_mem_tail hx), Checked.ok_bind,
    View.restyle, ← map_snd_sites, ← List.map_tail, List.map_map, List.map_map]
  rfl

end Hierarchy

end FlowTree
