import FlowTree.Proofs.Arena.Marks
import FlowTree.Proofs.Unread
import Mathlib.Algebra.Order.BigOperators.Group.List

/-!
# Surroundings in arrays

In an array the parent of a node is read at its position, and the nearest visible ancestor is found by following
the positions of the parents.

* **`Arena.closestVisible`** follows them; **`Arena.look`** and **`Arena.lookUp`** read all that a directive needs.
* **`Hierarchy.sites`** are the nodes on show with their surroundings and their paths.
* **`Hierarchy.look_arena`** and **`Hierarchy.lookUp_arena`** say that at the positions of these paths everything is
  found, **`Hierarchy.anchor_arena`** that the way up comes to an end at the anchor.
-/

namespace FlowTree

variable {α : Type}

namespace Arena

/-- The nearest visible position on the way to the root, or the root. -/
def closestVisible (a : Arena α) : (rounds : ℕ) → (i : ℕ) → Checked ℕ
  | 0, _ => .error .rounds
  | rounds + 1, i => do
    let s ← Checked.get a i
    match s.parent with
    | some p => if s.node.visible then return i else closestVisible a rounds p
    | none => return i

/-- The node there. -/
def anchor (a : Arena α) (i : ℕ) : Checked (Node α) := do
  let j ← a.closestVisible a.length i
  let s ← Checked.get a j
  return s.node

/-- The node at a position with its surroundings; it is its own anchor. -/
def look (a : Arena α) (i : ℕ) : Checked (Spot α) := do
  let s ← Checked.get a i
  let parent ← s.parent.mapM (Checked.get a)
  return { node := { s.node with folded := s.collapsed }
           parent := parent.map (·.node)
           anchor := s.node
           hasChildren := s.hasChildren }

/-- The node at a position with its surroundings and its anchor. -/
def lookUp (a : Arena α) (i : ℕ) : Checked (Spot α) := do
  let s ← a.look i
  let anchor ← a.anchor i
  return { s with anchor := anchor }

end Arena

/-- A path is shorter than there are nodes. -/
theorem Tree.length_lt_size {β : Type} {t s : Tree β} {path : List ℕ} (hat : t.at? path = some s) :
    path.length < t.size := by
  induction path generalizing t with
  | nil =>
    obtain ⟨v, cs⟩ := t
    rw [size_node]
    exact Nat.succ_pos _
  | cons i path ih =>
    obtain ⟨v, cs⟩ := t
    obtain ⟨c, hc, hs⟩ := at?_cons_eq_some_iff.mp hat
    have hle : c.size ≤ (cs.map size).sum :=
      List.single_le_sum (fun _ _ => Nat.zero_le _) _ (List.mem_map_of_mem (List.mem_of_getElem? hc))
    rw [size_node, List.length_cons]
    exact Nat.succ_lt_succ ((ih hs).trans_le hle)

namespace Hierarchy

/-! ### The way up -/

/-- The node at the end of a path has its surroundings from those above it, as the array has. -/
theorem surroundings {h : Hierarchy α} {path : List ℕ} {n : Node α} {cs : List (Tree (Node α))}
    (hat : h.tree.at? path = some (.node n cs)) :
    ∃ above, (inContext h.tree).at? path = some (contextAt above (.node n cs)) ∧
      (∃ parent, (h.slotOf (path, n, cs.length)).parent.mapM (Checked.get h.arena) = .ok parent ∧
        parent.map (·.node.finish) = above.map (·.1.finish)) ∧
      ∀ rounds, path.length < rounds → ∃ i s, h.arena.closestVisible rounds (h.place path) = .ok i ∧
        h.arena[i]? = some s ∧ s.node = { anchorBelow above n with folded := false } := by
  have hget := getElem?_arena hat
  induction path using List.reverseRecOn generalizing n cs with
  | nil =>
    refine ⟨none, ?_, ⟨none, rfl, rfl⟩, ?_⟩
    · rw [inContext_eq, Tree.at?_nil, ← Option.some.inj hat]
    · rintro (_ | rounds) hrounds
      · exact absurd hrounds (Nat.not_lt_zero _)
      · refine ⟨_, _, ?_, hget, rfl⟩
        rw [Arena.closestVisible, Checked.get_eq hget]
        rfl
  | append_singleton path i ih =>
    have hsplit := hat
    rw [Tree.at?_append, Option.bind_eq_some_iff] at hsplit
    obtain ⟨⟨m, ds⟩, hm, hchild⟩ := hsplit
    have hgetm := getElem?_arena hm
    obtain ⟨above, hcontext, -, hup⟩ := ih hm hgetm
    have hparent : (h.slotOf (path ++ [i], n, cs.length)).parent = some (h.place path) := by
      rw [slotOf, List.dropLast_concat]
      exact if_neg (by simp)
    refine ⟨some (m, anchorBelow above m), ?_, ⟨some (h.slotOf (path, m, ds.length)).plain, ?_, rfl⟩, ?_⟩
    · obtain ⟨c, hc, hnil⟩ := Tree.at?_cons_eq_some_iff.mp hchild
      rw [Tree.at?_append, hcontext, Option.bind_some, contextAt_node, Tree.at?_cons, List.getElem?_map, hc,
        Option.some.inj hnil]
      rfl
    · rw [hparent, Option.mapM_some, Checked.get_eq hgetm]
      rfl
    · rintro (_ | rounds) hrounds
      · exact absurd hrounds (Nat.not_lt_zero _)
      · have hplain : (h.slotOf (path ++ [i], n, cs.length)).plain.parent = some (h.place path) := hparent
        rw [Arena.closestVisible, Checked.get_eq hget, Checked.ok_bind, hplain]
        show ∃ j s, (if n.visible then _ else _) = _ ∧ _
        cases hvisible : n.visible with
        | true =>
          refine ⟨_, _, if_pos rfl, hget, ?_⟩
          rw [anchorBelow, if_pos hvisible]
          rfl
        | false =>
          -- whoever is not visible is passed over, and the way up goes on from the parent
          rw [List.length_append] at hrounds
          obtain ⟨j, s, hj, hs, hnode⟩ := hup rounds (Nat.lt_of_succ_lt_succ hrounds)
          refine ⟨j, s, (if_neg Bool.false_ne_true).trans hj, hs, ?_⟩
          rw [hnode, anchorBelow, if_neg (by rw [hvisible]; exact Bool.false_ne_true)]

/-! ### The nodes on show -/

/-- The nodes on show with their surroundings, level by level, each with its path. -/
def sites (h : Hierarchy α) : List (List ℕ × Spot α) :=
  ((inContext h.tree).cut fun s => s.node.folded).located.breadthFirst

theorem map_snd_sites (h : Hierarchy α) : h.sites.map (·.2) = h.spots := Tree.map_snd_located_breadthFirst _

theorem ids_eq_sites (h : Hierarchy α) : h.ids = h.sites.map (·.2.id) := by
  rw [← spots_map_id, ← map_snd_sites, List.map_map]
  rfl

theorem located_eq_sites (h : Hierarchy α) :
    h.shown.located.breadthFirst = h.sites.map fun x => (x.1, x.2.node) := by
  have hnodes : h.shown = ((inContext h.tree).cut fun s => s.node.folded).map (·.node) := by
    rw [Tree.map_cut (fun s : Spot α => s.node) (·.folded), inContext_eq, map_node_contextAt]
    rfl
  rw [sites, hnodes, Tree.located_eq, Tree.locatedAt_map, Tree.breadthFirst_map]
  rfl

theorem onShow_eq_sites (h : Hierarchy α) : h.onShow.breadthFirst = h.sites.map fun x => h.place x.1 := by
  rw [breadthFirst_onShow, located_eq_sites, List.map_map]
  rfl

theorem exists_of_mem_sites {h : Hierarchy α} {x : List ℕ × Spot α} (hx : x ∈ h.sites) :
    ∃ cs, h.tree.at? x.1 = some (.node x.2.node cs) ∧
      ∃ t, (inContext h.tree).at? x.1 = some t ∧ t.value = x.2 := by
  obtain ⟨u, hu, hvalue⟩ := Tree.mem_located_breadthFirst_iff.mp hx
  obtain ⟨t, ht, rfl⟩ := Tree.exists_of_at?_cut hu
  rw [Tree.value_cut] at hvalue
  have htree := congrArg (fun s => s.at? x.1) (map_node_contextAt none h.tree)
  simp only [Tree.at?_map, ← inContext_eq, ht, Option.map_some] at htree
  obtain ⟨s, ts⟩ := t
  rw [Tree.map_node] at htree
  exact ⟨_, by rw [← htree, ← hvalue]; rfl, _, ht, hvalue⟩

/-- What stands at the position of a node on show. -/
theorem get_site {h : Hierarchy α} {x : List ℕ × Spot α} (hx : x ∈ h.sites) :
    ∃ s, h.arena[h.place x.1]? = some s ∧ s.node = { x.2.node with folded := false } := by
  obtain ⟨cs, hat, -⟩ := exists_of_mem_sites hx
  exact ⟨_, getElem?_arena hat, rfl⟩

/-- Different nodes on show have different positions. -/
theorem site_inj {h : Hierarchy α} {x y : List ℕ × Spot α} (hx : x ∈ h.sites) (hy : y ∈ h.sites)
    (heq : h.place x.1 = h.place y.1) : x = y := by
  obtain ⟨cs, hat, t, ht, hvalue⟩ := exists_of_mem_sites hx
  obtain ⟨-, -, u, hu, hvalue'⟩ := exists_of_mem_sites hy
  have hpath := place_inj hat heq
  rw [← hpath, ht] at hu
  exact Prod.ext hpath (by rw [← hvalue, ← hvalue', Option.some.inj hu])

/-- Where nodes are folded away the array has hidden children. -/
theorem marks_slotOf (h : Hierarchy α) (path : List ℕ) (n : Node α) (count : ℕ) :
    (h.slotOf (path, n, count)).hasChildren = decide (count ≠ 0) ∧
      (h.slotOf (path, n, count)).collapsed = (n.folded && decide (count ≠ 0)) := by
  cases count with
  | zero => cases hfolded : n.folded <;> simp [slotOf, Slot.hasChildren, Slot.collapsed, hfolded]
  | succ count => cases hfolded : n.folded <;> simp [slotOf, Slot.hasChildren, Slot.collapsed, hfolded]

/-- **A node on show is found** as it can be seen. -/
theorem look_arena {h : Hierarchy α} {x : List ℕ × Spot α} (hx : x ∈ h.sites) :
    ∃ s, h.arena.look (h.place x.1) = .ok s ∧ s.sight = x.2.sight := by
  obtain ⟨cs, hat, t, ht, hvalue⟩ := exists_of_mem_sites hx
  obtain ⟨above, hcontext, ⟨parent, hparent, hfinish⟩, -⟩ := surroundings hat
  have hplain : (h.slotOf (x.1, x.2.node, cs.length)).plain.parent.mapM (Checked.get h.arena) = .ok parent := hparent
  rw [hcontext, contextAt_node] at ht
  have hspot := hvalue.symm.trans (congrArg Tree.value (Option.some.inj ht)).symm
  obtain ⟨hchildren, hcollapsed⟩ := h.marks_slotOf x.1 x.2.node cs.length
  have hempty : decide (cs.length ≠ 0) = !cs.isEmpty := by cases cs <;> rfl
  simp only [Arena.look, Checked.get_eq (getElem?_arena hat), Checked.ok_bind, hplain]
  refine ⟨_, rfl, ?_⟩
  rw [Spot.sight_eq_iff]
  rw [hempty] at hchildren hcollapsed
  have hx₂ : x.2.parent = above.map (·.1) ∧ x.2.hasChildren = !cs.isEmpty := by
    rw [hspot]
    exact ⟨rfl, rfl⟩
  refine ⟨rfl, rfl, rfl, ?_, ?_, ?_⟩
  · rw [hx₂.1, Option.map_map, Option.map_map]
    exact hfinish
  · exact hchildren.trans hx₂.2.symm
  · show ((h.slotOf (x.1, x.2.node, cs.length)).collapsed && (h.slotOf (x.1, x.2.node, cs.length)).hasChildren) = _
    rw [Spot.collapsed, hx₂.2, hchildren, hcollapsed, Bool.and_assoc, Bool.and_self]

/-- **The way up** from a node on show ends at its anchor. -/
theorem anchor_arena {h : Hierarchy α} {x : List ℕ × Spot α} (hx : x ∈ h.sites) :
    h.arena.anchor (h.place x.1) = .ok { x.2.anchor with folded := false } := by
  obtain ⟨cs, hat, t, ht, hvalue⟩ := exists_of_mem_sites hx
  obtain ⟨above, hcontext, -, hup⟩ := surroundings hat
  rw [hcontext, contextAt_node] at ht
  have hspot := hvalue.symm.trans (congrArg Tree.value (Option.some.inj ht)).symm
  obtain ⟨i, s, hi, hs, hnode⟩ := hup h.arena.length (by
    rw [length_arena]
    exact Tree.length_lt_size hat)
  rw [Arena.anchor, hi, Checked.ok_bind, Checked.get_eq hs, Checked.ok_bind, hnode, hspot]
  rfl

/-- **A new node is found** with all that a directive reads. -/
theorem lookUp_arena {h : Hierarchy α} {x : List ℕ × Spot α} (hx : x ∈ h.sites) :
    ∃ s, h.arena.lookUp (h.place x.1) = .ok s ∧ s.outset = x.2.outset := by
  obtain ⟨s, hs, hsight⟩ := look_arena hx
  rw [Arena.lookUp, hs, Checked.ok_bind, anchor_arena hx]
  exact ⟨_, rfl, congrArg (·, x.2.anchor.start) hsight⟩

end Hierarchy

end FlowTree
