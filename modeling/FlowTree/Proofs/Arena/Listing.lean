import FlowTree.Proofs.Arena.Walk
import FlowTree.Proofs.Hierarchy.Reached

/-!
# Hierarchies in arrays

The listing of a hierarchy is an array in which every node names the positions of its parent and of its children,
those on show and those that are folded away.

* **`Arena.descendants`** and **`Arena.height`** walk over such an array.
* **`Hierarchy.arena`** is the array of a hierarchy; **`Hierarchy.getElem?_shown`** says what stands at the
  position of a node on show.
* **`Hierarchy.onShow`** is the tree of the positions on show.
* **`Hierarchy.descendants_arena`** and **`Hierarchy.height_arena`** say that nothing goes wrong on the walks and
  what they find.
-/

namespace FlowTree

variable {α : Type}

/-- The nodes of a hierarchy in an array. -/
abbrev Arena (α : Type) := List (Hierarchy.Slot α)

namespace Arena

/-- The positions of the children on show. -/
def below (a : Arena α) (i : ℕ) : Option (List ℕ) := a[i]?.map (·.children)

/-- The positions on show, level by level. -/
def descendants (a : Arena α) : Checked (List ℕ) := visit a.below a.length [0]

/-- The number of levels on show below the root. -/
def height (a : Arena α) : Checked ℕ := do
  let root ← Checked.get a 0
  let order ← a.descendants
  let depths ← order.mapM fun i => do
    let s ← Checked.get a i
    Checked.minus s.depth root.depth
  return depths.max?.getD 0

end Arena

namespace Tree

variable {β : Type}

/-- Some path is as long as the tree is high. -/
theorem exists_length_eq_height (t : Tree β) : ∃ x ∈ t.located.breadthFirst, x.1.length = t.height := by
  have hpos : 0 < t.levels.length := by
    rw [lt_length_levels_iff, level_zero]
    exact List.cons_ne_nil _ _
  have hlevel : t.located.level t.height ≠ [] := by
    have hne : t.level t.height ≠ [] := lt_length_levels_iff.mp (Nat.sub_lt hpos Nat.one_pos)
    rw [← map_snd_level []] at hne
    exact fun hnil => hne (by rw [← located_eq, hnil, List.map_nil])
  obtain ⟨x, hx⟩ := List.exists_mem_of_ne_nil _ hlevel
  refine ⟨x, ?_, (length_of_mem_level hx).trans (Nat.zero_add _)⟩
  have hlt := lt_length_levels_iff.mpr hlevel
  rw [level_of_levels (List.getElem?_eq_getElem hlt)] at hx
  exact List.mem_flatten.mpr ⟨_, List.getElem_mem hlt, hx⟩

theorem mem_located_breadthFirst_iff {t : Tree β} {p : List ℕ} {v : β} :
    (p, v) ∈ t.located.breadthFirst ↔ ∃ s, t.at? p = some s ∧ s.value = v := by
  rw [(breadthFirst_perm _).mem_iff, mem_located_iff]

end Tree

namespace Hierarchy

/-- The node without the mark that its children are folded away; the lists of children tell. -/
def Slot.plain (s : Slot α) : Slot α := { s with node := { s.node with folded := false } }

/-- The array of a hierarchy. -/
def arena (h : Hierarchy α) : Arena α := h.slots.map Slot.plain

/-- The tree of the positions on show. -/
def onShow (h : Hierarchy α) : Tree ℕ := h.shown.located.map fun x => h.place x.1

/-! ### What stands at a position -/

theorem length_arena (h : Hierarchy α) : h.arena.length = h.tree.preorder.length := by
  rw [arena, List.length_map, length_slots]

theorem getElem?_arena {h : Hierarchy α} {path : List ℕ} {n : Node α} {cs : List (Tree (Node α))}
    (hat : h.tree.at? path = some (.node n cs)) :
    h.arena[h.place path]? = some (h.slotOf (path, n, cs.length)).plain := by
  rw [arena, List.getElem?_map, getElem?_place hat, Option.map_some]

/-- What stands at a position depends on the node alone if the positions are given. -/
theorem eq_arena {h : Hierarchy α} {a : Arena α} (hlength : a.length = h.tree.preorder.length)
    (hslots : ∀ path n cs, h.tree.at? path = some (.node n cs) →
      a[h.place path]? = some (h.slotOf (path, n, cs.length)).plain) : a = h.arena := by
  apply List.ext_getElem?
  intro i
  rcases Nat.lt_or_ge i h.arena.length with hi | hi
  · have hslot : i < h.slots.length := by rwa [arena, List.length_map] at hi
    obtain ⟨path, n, cs, hat, rfl, -⟩ := exists_of_getElem? (List.getElem?_eq_getElem hslot)
    rw [hslots path n cs hat, getElem?_arena hat]
  · rw [List.getElem?_eq_none hi, List.getElem?_eq_none (by rwa [hlength, ← length_arena])]

/-- **A node on show** stands at the position of its path with the positions of its children on show. -/
theorem getElem?_shown {h : Hierarchy α} {path : List ℕ} {n : Node α} {cs : List (Tree (Node α))}
    (hat : h.shown.at? path = some (.node n cs)) :
    ∃ ds, h.tree.at? path = some (.node n ds) ∧
      h.arena[h.place path]? = some (h.slotOf (path, n, ds.length)).plain ∧
      (h.slotOf (path, n, ds.length)).children =
        (List.range cs.length).map fun i => h.place (path ++ [i]) := by
  obtain ⟨⟨m, ds⟩, htree, heq⟩ := Tree.exists_of_at?_cut hat
  rw [Tree.cut_node, Tree.node.injEq] at heq
  obtain ⟨rfl, rfl⟩ := heq
  refine ⟨ds, htree, getElem?_arena htree, ?_⟩
  rw [slotOf]
  cases n.folded <;> simp

/-! ### The tree of the positions on show -/

theorem value_onShow (h : Hierarchy α) : h.onShow.value = 0 := by
  rw [onShow, Tree.value_map, Tree.located_eq, Tree.value_locatedAt, place_nil]

theorem breadthFirst_onShow (h : Hierarchy α) :
    h.onShow.breadthFirst = h.shown.located.breadthFirst.map fun x => h.place x.1 :=
  Tree.breadthFirst_map _ _

theorem size_onShow_le (h : Hierarchy α) : h.onShow.size ≤ h.arena.length := by
  have hshown : h.shown.located.preorder.length = h.shown.preorder.length := by
    conv_rhs => rw [← Tree.map_snd_located_preorder, List.length_map]
  rw [Tree.size, onShow, Tree.preorder_map, List.length_map, hshown, length_arena]
  exact (Tree.preorder_cut_sublist _ _).length_le

/-- A position on show is that of the end of a path on show. -/
theorem mem_onShow_iff {h : Hierarchy α} {i : ℕ} :
    i ∈ h.onShow.breadthFirst ↔ ∃ path t, h.shown.at? path = some t ∧ h.place path = i := by
  rw [breadthFirst_onShow, List.mem_map]
  constructor
  · rintro ⟨⟨path, n⟩, hmem, rfl⟩
    obtain ⟨t, ht, -⟩ := Tree.mem_located_breadthFirst_iff.mp hmem
    exact ⟨path, t, ht, rfl⟩
  · rintro ⟨path, t, ht, rfl⟩
    exact ⟨(path, t.value), Tree.mem_located_breadthFirst_iff.mpr ⟨t, ht, rfl⟩, rfl⟩

/-- Of different nodes on show the positions are different. -/
theorem nodup_onShow (h : Hierarchy α) : h.onShow.breadthFirst.Nodup := by
  have hpaths : (h.shown.located.breadthFirst.map (·.1)).Nodup := by
    rw [((Tree.breadthFirst_perm _).map _).nodup_iff]
    exact Tree.paths_nodup _
  have hplaces : h.onShow.breadthFirst = (h.shown.located.breadthFirst.map (·.1)).map h.place := by
    rw [breadthFirst_onShow, List.map_map]
    rfl
  rw [hplaces]
  refine hpaths.map_on ?_
  intro p hp q _ heq
  obtain ⟨⟨path, n⟩, hmem, rfl⟩ := List.mem_map.mp hp
  obtain ⟨t, ht, -⟩ := Tree.mem_located_breadthFirst_iff.mp hmem
  obtain ⟨s, hs, -⟩ := Tree.exists_of_at?_cut ht
  exact place_inj hs heq

theorem hangs_locatedAt {h : Hierarchy α} {path : List ℕ} {t : Tree (Node α)}
    (hat : h.shown.at? path = some t) :
    Hangs h.arena.below ((t.locatedAt path).map fun x => h.place x.1) := by
  induction t generalizing path with
  | node n cs ih =>
    rw [Tree.locatedAt_node, Tree.map_node]
    obtain ⟨ds, -, hget, hchildren⟩ := getElem?_shown hat
    refine .node ?_ ?_
    · rw [Arena.below, hget, Option.map_some]
      refine congrArg some (hchildren.trans ?_)
      apply List.ext_getElem
      · simp
      · intro i h₁ h₂
        simp
    · intro c hc
      obtain ⟨located, hlocated, rfl⟩ := List.mem_map.mp hc
      obtain ⟨i, hi, rfl⟩ := List.mem_mapIdx.mp hlocated
      exact ih _ (List.getElem_mem hi) (Tree.at?_concat hat hi)

/-! ### Walks -/

/-- **The nodes on show** are found level by level. -/
theorem descendants_arena (h : Hierarchy α) : h.arena.descendants = .ok h.onShow.breadthFirst := by
  have hangs : Hangs h.arena.below h.onShow := hangs_locatedAt rfl
  have hwalk := visit_root hangs h.size_onShow_le
  rwa [value_onShow] at hwalk

/-- What is found at the position of a node on show. -/
theorem get_shown {h : Hierarchy α} {x : List ℕ × Node α} (hx : x ∈ h.shown.located.breadthFirst) :
    ∃ s, Checked.get h.arena (h.place x.1) = .ok s ∧ s.node = { x.2 with folded := false } ∧
      s.depth = x.1.length := by
  obtain ⟨⟨n, cs⟩, hat, hvalue⟩ := Tree.mem_located_breadthFirst_iff.mp hx
  obtain ⟨ds, -, hget, -⟩ := getElem?_shown hat
  exact ⟨_, Checked.get_eq hget, by rw [← hvalue]; rfl, rfl⟩

/-- **The height** is found without going below zero. -/
theorem height_arena (h : Hierarchy α) : h.arena.height = .ok h.height := by
  obtain ⟨root, hroot, -, hdepth⟩ := get_shown (h := h)
    (Tree.mem_located_breadthFirst_iff.mpr ⟨h.shown, rfl, rfl⟩ : ([], h.shown.value) ∈ _)
  have hdepths : h.onShow.breadthFirst.mapM (fun i => do
      let s ← Checked.get h.arena i
      Checked.minus s.depth root.depth) = .ok (h.shown.located.breadthFirst.map (·.1.length)) := by
    rw [breadthFirst_onShow]
    refine Checked.mapM_eq fun x hx => ?_
    obtain ⟨s, hs, -, hs'⟩ := get_shown hx
    rw [hs, Checked.ok_bind, hs', hdepth]
    exact Checked.minus_eq (Nat.zero_le _)
  have hmax : (h.shown.located.breadthFirst.map (·.1.length)).max? = some h.height := by
    rw [List.max?_eq_some_iff]
    constructor
    · obtain ⟨x, hx, hlength⟩ := Tree.exists_length_eq_height h.shown
      exact List.mem_map.mpr ⟨x, hx, hlength⟩
    · intro k hk
      obtain ⟨x, hx, rfl⟩ := List.mem_map.mp hk
      exact Tree.length_le_height hx
  rw [place_nil] at hroot
  rw [Arena.height, hroot, Checked.ok_bind, descendants_arena, Checked.ok_bind, hdepths, Checked.ok_bind, hmax]
  rfl

end Hierarchy

end FlowTree
