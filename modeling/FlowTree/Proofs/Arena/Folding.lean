import FlowTree.Proofs.Arena.Listing
import FlowTree.Proofs.Kin

/-!
# Pruning, finding and folding in arrays

* **`Arena.prune`** copies the nodes on show and numbers them anew; **`Hierarchy.prune_arena`** says that every
  relative on show has a new number and that the copy is the array of the pruned hierarchy.
* **`Arena.find?`** looks for an id; **`Hierarchy.find?_arena`** compares it with the search in a hierarchy.
* **`Arena.toggle`** folds or unfolds the children of the node at a position; **`Hierarchy.toggle_arena`** says
  that it does so to the node that is found.
-/

namespace FlowTree

variable {α : Type}

namespace Arena

/-- The nodes on show, numbered anew level by level. -/
def prune (a : Arena α) : Checked (Arena α) := do
  let order ← a.descendants
  let numbers := order.zipIdx
  order.mapM fun i => do
    let s ← Checked.get a i
    let children ← s.children.mapM (Checked.lookup numbers)
    return { s with parent := s.parent.bind (Checked.find? numbers), children := children, hidden := [] }

/-- The position of the node with the given id. -/
def find? (a : Arena α) (id : String) : Option ℕ := a.findIdx? (·.node.id == id)

/-- Folds or unfolds the children of the node at a position. -/
def toggle (a : Arena α) (i : ℕ) : Checked (Toggle × Arena α) := do
  let s ← Checked.get a i
  if !s.children.isEmpty then
    let folded ← Checked.modify a i fun s => { s with children := [], hidden := s.children }
    return (.collapsed, folded)
  else if !s.hidden.isEmpty then
    let unfolded ← Checked.modify a i fun s => { s with children := s.hidden, hidden := [] }
    return (.expanded, unfolded)
  else return (.leaf, a)

end Arena

namespace Hierarchy

/-! ### Pruning -/

section Prune

variable (h : Hierarchy α)

/-- The nodes on show level by level, each with its path and the number of its children on show. -/
def shownEntries : List (List ℕ × Node α × ℕ) := h.shown.counted.located.breadthFirst

variable {h}

theorem mem_shownEntries_iff {path : List ℕ} {n : Node α} {count : ℕ} :
    (path, n, count) ∈ h.shownEntries ↔ ∃ cs, h.shown.at? path = some (.node n cs) ∧ cs.length = count := by
  rw [shownEntries, Tree.mem_located_breadthFirst_iff, Tree.exists_at?_counted_iff]

theorem breadthFirst_onShow_eq : h.onShow.breadthFirst = h.shownEntries.map fun x => h.place x.1 := by
  have hlocated : h.shown.located = h.shown.counted.located.map fun x => (x.1, x.2.1) := by
    conv_lhs => rw [← Tree.map_fst_counted h.shown, Tree.located_eq, Tree.locatedAt_map]
    rfl
  rw [breadthFirst_onShow, hlocated, Tree.breadthFirst_map, List.map_map]
  rfl

theorem entries_prune :
    h.prune.entries = h.shownEntries.map fun x => (x.1, { x.2.1 with folded := false }, x.2.2) := by
  have hplaces : places h.prune.tree =
      h.shown.counted.located.map fun x => (x.1, { x.2.1 with folded := false }, x.2.2) := by
    rw [places_eq, Hierarchy.prune, Tree.counted_map, Tree.located_eq, Tree.locatedAt_map]
    rfl
  show (places h.prune.tree).breadthFirst = _
  rw [hplaces, Tree.breadthFirst_map]
  rfl

theorem paths_prune : h.prune.paths = h.shownEntries.map (·.1) := by
  rw [paths, entries_prune, List.map_map]
  rfl

/-- Every node on show has a new number. -/
theorem find?_numbers {path : List ℕ} {t : Tree (Node α)} (hat : h.shown.at? path = some t) :
    Checked.find? h.onShow.breadthFirst.zipIdx (h.place path) = some (h.prune.place path) := by
  have hnodup : (h.onShow.breadthFirst.zipIdx.map (·.1)).Nodup := by
    rw [List.zipIdx_map_fst]
    exact h.nodup_onShow
  have hmem : path ∈ h.prune.paths := by
    obtain ⟨n, cs⟩ := t
    rw [paths_prune]
    exact List.mem_map.mpr ⟨(path, n, cs.length), mem_shownEntries_iff.mpr ⟨cs, hat, rfl⟩, rfl⟩
  have hplace : h.prune.paths[h.prune.place path]? = some path := List.getElem?_idxOf hmem
  rw [paths_prune, List.getElem?_map, Option.map_eq_some_iff] at hplace
  obtain ⟨x, hx, rfl⟩ := hplace
  rw [Checked.find?_eq_some_iff hnodup, List.mk_mem_zipIdx_iff_getElem?, breadthFirst_onShow_eq,
    List.getElem?_map, hx, Option.map_some]

theorem lookup_numbers {path : List ℕ} {t : Tree (Node α)} (hat : h.shown.at? path = some t) :
    Checked.lookup h.onShow.breadthFirst.zipIdx (h.place path) = .ok (h.prune.place path) := by
  rw [Checked.lookup, find?_numbers hat, Checked.present_some]

/-- **Pruning in an array** finds a new number for every relative on show. -/
theorem prune_arena (h : Hierarchy α) : h.arena.prune = .ok h.prune.arena := by
  have hcopy : h.prune.arena = h.shownEntries.map fun x =>
      (h.prune.slotOf (x.1, { x.2.1 with folded := false }, x.2.2)).plain := by
    rw [arena, slots_eq, entries_prune, List.map_map, List.map_map]
    rfl
  rw [Arena.prune, descendants_arena, Checked.ok_bind, hcopy]
  simp only [breadthFirst_onShow_eq (h := h)]
  refine Checked.mapM_eq ?_
  rintro ⟨path, n, count⟩ hmem
  obtain ⟨cs, hat, rfl⟩ := mem_shownEntries_iff.mp hmem
  obtain ⟨ds, -, hget, hchildren⟩ := getElem?_shown hat
  have hnumbers : ((h.slotOf (path, n, ds.length)).plain.children).mapM
      (Checked.lookup (h.shownEntries.map fun x => h.place x.1).zipIdx) =
        .ok ((List.range cs.length).map fun i => h.prune.place (path ++ [i])) := by
    show ((h.slotOf (path, n, ds.length)).children).mapM _ = _
    rw [hchildren, ← breadthFirst_onShow_eq]
    exact Checked.mapM_eq fun i hi => lookup_numbers (Tree.at?_concat hat (List.mem_range.mp hi))
  have hparent : (h.slotOf (path, n, ds.length)).plain.parent.bind
      (Checked.find? (h.shownEntries.map fun x => h.place x.1).zipIdx) =
        if path.isEmpty then none else some (h.prune.place path.dropLast) := by
    obtain ⟨s, hs⟩ := Tree.exists_at?_dropLast hat
    rw [← breadthFirst_onShow_eq, Slot.plain, slotOf]
    show (if path.isEmpty then none else some (h.place path.dropLast)).bind _ = _
    split
    · rfl
    · exact find?_numbers hs
  rw [Checked.get_eq hget, Checked.ok_bind, hnumbers, Checked.ok_bind, hparent]
  rfl

end Prune

/-! ### Finding -/

theorem map_node_arena (h : Hierarchy α) : h.arena.map (·.node.id) = h.nodes.map (·.id) := by
  rw [← map_node_slots, arena, List.map_map, List.map_map]
  rfl

/-- **Finding in an array** is finding in the listing. -/
theorem find?_arena (h : Hierarchy α) (id : String) : h.arena.find? id = h.find? id := by
  have hmap : ∀ {β : Type} (f : β → String) (l : List β),
      l.findIdx? (fun x => f x == id) = (l.map f).findIdx? (· == id) := by
    intro β f l
    rw [List.findIdx?_map]
    rfl
  rw [Arena.find?, Hierarchy.find?, hmap (fun s : Slot α => s.node.id), map_node_arena,
    hmap fun n : Node α => n.id]

/-! ### Folding -/

theorem plain_reverse (id : String) (x : Node α × ℕ) :
    ({ (reverse id x).1 with folded := false } : Node α) = { x.1 with folded := false } := by
  rw [reverse]
  split <;> rfl

/-- Folding or unfolding a node exchanges its two lists of children. -/
theorem arena_refold (id : String) (h : Hierarchy α) :
    (h.refold id).arena = h.arena.map fun s =>
      if s.node.id = id then { s with children := s.hidden, hidden := s.children } else s := by
  rw [arena, arena, slots_eq, slots_eq, entries_refold, List.map_map, List.map_map, List.map_map,
    List.map_map]
  refine List.map_congr_left fun x _ => ?_
  have hnode : (h.slotOf x).node = x.2.1 := rfl
  simp only [Function.comp_apply, slotOf_refold, Slot.plain, hnode]
  by_cases hid : x.2.1.id = id
  · simp [hid, plain_reverse]
  · simp [hid, hnode]

theorem mem_branches {t s : Tree (Node α)} {path : List ℕ} (hat : t.at? path = some s) : s ∈ branches t := by
  induction path generalizing t with
  | nil =>
    obtain rfl := Option.some.inj hat
    obtain ⟨n, cs⟩ := t
    rw [branches_node]
    exact List.mem_cons_self
  | cons i path ih =>
    obtain ⟨n, cs⟩ := t
    obtain ⟨c, hc, hs⟩ := Tree.at?_cons_eq_some_iff.mp hat
    rw [branches_node]
    exact List.mem_cons_of_mem _ (List.mem_flatMap.mpr ⟨c, List.mem_of_getElem? hc, ih hs⟩)

/-- The subtree at the end of a path is found by the id of its root. -/
theorem branch?_of_at? {h : Hierarchy α} (hd : h.Distinct) {path : List ℕ} {s : Tree (Node α)}
    (hat : h.tree.at? path = some s) : h.branch? s.value.id = some s := by
  refine find?_of_nodup_map (fun t : Tree (Node α) => t.value.id) ?_ (mem_branches hat)
  have hids := congrArg (List.map (·.id)) (map_value_branches h.tree)
  rw [List.map_map] at hids
  exact hids ▸ hd

/-- A change of the slot of a node that exchanges its two lists of children folds or unfolds the node, which is the
only one with its id. -/
theorem modify_arena_eq_refold {h : Hierarchy α} (hd : h.Distinct) {id : String} {i : ℕ} (hi : h.find? id = some i)
    {s : Slot α} (hs : h.arena[i]? = some s) (hid : s.node.id = id) {f : Slot α → Slot α}
    (hf : f s = { s with children := s.hidden, hidden := s.children }) :
    h.arena.modify i f = (h.refold id).arena := by
  rw [arena_refold]
  apply List.ext_getElem?
  intro j
  rw [List.getElem?_modify, List.getElem?_map]
  by_cases hij : i = j
  · subst hij
    simp [hs, hid, hf]
  · cases hj : h.arena[j]? with
    | none => rfl
    | some r =>
      have hne : r.node.id ≠ id := by
        intro heq
        rw [arena, List.getElem?_map, Option.map_eq_some_iff] at hj
        obtain ⟨r', hr', rfl⟩ := hj
        have hfound := find?_eq_some hd hr'
        rw [show r'.node.id = id from heq, hi] at hfound
        exact hij (Option.some.inj hfound)
      simp [hij, hne]

/-- **Folding in an array** folds the node that is found. -/
theorem toggle_arena {h : Hierarchy α} (hd : h.Distinct) {id : String} {i : ℕ} (hi : h.find? id = some i) :
    ∃ toggle, h.toggle? id = some (toggle, h.refold id) ∧
      h.arena.toggle i = .ok (toggle, (h.refold id).arena) := by
  obtain ⟨hlt, hid, -⟩ := List.findIdx?_eq_some_iff_getElem.mp hi
  have hlength : i < h.slots.length := by rwa [← List.length_map (·.node), map_node_slots]
  obtain ⟨path, n, cs, hat, rfl, -⟩ := exists_of_getElem? (List.getElem?_eq_getElem hlength)
  have hn : n.id = id := by
    have hnode := getElem?_nodes hat
    rw [List.getElem?_eq_getElem hlt, Option.some.injEq] at hnode
    simpa [hnode] using hid
  subst hn
  refine ⟨toggleOf (.node n cs), ?_, ?_⟩
  · have hbranch : h.branch? n.id = some (.node n cs) := branch?_of_at? hd hat
    rw [toggle?, hbranch]
    rfl
  · have hget := getElem?_arena hat
    have hplace : h.place path < h.arena.length := (List.getElem?_eq_some_iff.mp hget).1
    rw [Arena.toggle, Checked.get_eq hget, Checked.ok_bind, toggleOf, Checked.modify_eq hplace,
      Checked.modify_eq hplace]
    rcases cs with _ | ⟨c, cs⟩
    · -- there is nothing to exchange
      have hsame : h.arena = (h.refold n.id).arena := by
        rw [← modify_arena_eq_refold hd hi hget rfl (f := id), List.modify_id]
        cases hfolded : n.folded <;> simp [slotOf, Slot.plain, hfolded]
      rw [← hsame]
      cases hfolded : n.folded <;> simp [slotOf, Slot.plain, hfolded]
    · cases hfolded : n.folded with
      | false =>
        rw [← modify_arena_eq_refold hd hi hget rfl (f := fun s => { s with children := [], hidden := s.children })]
        · simp [slotOf, Slot.plain, hfolded]
        · simp [slotOf, Slot.plain, hfolded]
      | true =>
        rw [← modify_arena_eq_refold hd hi hget rfl (f := fun s => { s with children := s.hidden, hidden := [] })]
        · simp [slotOf, Slot.plain, hfolded]
        · simp [slotOf, Slot.plain, hfolded]

end Hierarchy

end FlowTree
