import Mathlib.Algebra.GroupWithZero.Nat
import Mathlib.Algebra.Order.BigOperators.Group.List
import Mathlib.Algebra.Order.Group.Nat
import FlowTree.Proofs.Arena.Checked
import FlowTree.Proofs.Mirror

/-!
# Walks over arrays

A tree can be kept in an array in which every entry names the positions of its children.  Whoever follows them
from the first entry on with a queue comes to all nodes, level by level, in as many rounds as there are nodes.

* **`Tree.rowLevels`** are the levels of a row of trees; **`Tree.rowLevels_eq_cons`** says how they go on.
* **`Hangs`** says that an array holds a tree of positions.
* **`visit`** is the walk with a queue; **`visit_eq`** says that it lists a row level by level and
  **`visit_root`** that it lists one tree.
-/

namespace FlowTree

namespace Tree

variable {β : Type}

/-! ### Rows of trees -/

@[simp] theorem besideLevels_nil_right (ls : List (List β)) : besideLevels ls [] = ls := by
  cases ls <;> rfl

theorem besideLevels_assoc (ks ls rs : List (List β)) :
    besideLevels (besideLevels ks ls) rs = besideLevels ks (besideLevels ls rs) := by
  induction ks generalizing ls rs with
  | nil => rfl
  | cons k ks ih =>
    cases ls with
    | nil => rfl
    | cons l ls =>
      cases rs with
      | nil => rfl
      | cons r rs => simp only [besideLevels, List.append_assoc, ih]

/-- The values of a row of trees, level by level. -/
def rowLevels (ts : List (Tree β)) : List (List β) := (ts.map levels).foldr besideLevels []

theorem rowLevels_append (ts us : List (Tree β)) :
    rowLevels (ts ++ us) = besideLevels (rowLevels ts) (rowLevels us) := by
  induction ts with
  | nil => rfl
  | cons t ts ih =>
    rw [rowLevels, rowLevels, List.cons_append, List.map_cons, List.map_cons, List.foldr_cons, List.foldr_cons,
      besideLevels_assoc, ← rowLevels, ← rowLevels, ih]

theorem rowLevels_singleton (t : Tree β) : rowLevels [t] = t.levels := besideLevels_nil_right _

/-- Below the first level of a row stand the children of all its trees. -/
theorem rowLevels_eq_cons {ts : List (Tree β)} (h : ts ≠ []) :
    rowLevels ts = ts.map value :: rowLevels (ts.flatMap children) := by
  induction ts with
  | nil => exact absurd rfl h
  | cons t ts ih =>
    obtain ⟨v, cs⟩ := t
    rw [← List.singleton_append, rowLevels_append, rowLevels_singleton, levels_node, List.flatMap_append,
      rowLevels_append, List.flatMap_singleton]
    cases ts with
    | nil => simp [rowLevels, value, children]
    | cons u us => rw [ih (List.cons_ne_nil u us)]; rfl

theorem flatten_rowLevels (ts : List (Tree β)) :
    (rowLevels ts).flatten = ts.map value ++ (rowLevels (ts.flatMap children)).flatten := by
  cases ts with
  | nil => rfl
  | cons t ts => rw [rowLevels_eq_cons (List.cons_ne_nil t ts), List.flatten_cons]

theorem size_node (v : β) (cs : List (Tree β)) : (node v cs).size = (cs.map size).sum + 1 := by
  rw [size, preorder_node, List.length_cons, List.length_flatMap]
  rfl

/-- A subtree is smaller than the tree. -/
theorem size_lt_of_mem (v : β) {cs : List (Tree β)} {c : Tree β} (hc : c ∈ cs) : c.size < (node v cs).size := by
  rw [size_node]
  exact Nat.lt_succ_of_le (List.single_le_sum (fun _ _ => Nat.zero_le _) _ (List.mem_map_of_mem hc))

end Tree

/-! ### Trees of positions -/

/-- Every position of the tree has the values of its children below it. -/
inductive Hangs (below : ℕ → Option (List ℕ)) : Tree ℕ → Prop
  | node {i : ℕ} {cs : List (Tree ℕ)} (children : below i = some (cs.map Tree.value))
    (deeper : ∀ c ∈ cs, Hangs below c) : Hangs below (.node i cs)

theorem Hangs.below_value {below : ℕ → Option (List ℕ)} {t : Tree ℕ} (h : Hangs below t) :
    below t.value = some (t.children.map Tree.value) := by
  cases h with
  | node hchildren _ => exact hchildren

theorem Hangs.of_mem_children {below : ℕ → Option (List ℕ)} {t c : Tree ℕ} (h : Hangs below t)
    (hc : c ∈ t.children) : Hangs below c := by
  cases h with
  | node _ hdeeper => exact hdeeper c hc

/-- Lists the positions in a queue and all below them; in every round one position leaves the queue and its
children join it. -/
def visit (below : ℕ → Option (List ℕ)) : (rounds : ℕ) → (queue : List ℕ) → Checked (List ℕ)
  | _, [] => .ok []
  | 0, _ :: _ => .error .rounds
  | rounds + 1, i :: queue => do
    let children ← Checked.present .position (below i)
    let rest ← visit below rounds (queue ++ children)
    return i :: rest

section Visit

variable {below : ℕ → Option (List ℕ)}

/-- The trees `ts` still stand in the queue, and behind them the children `us` of those that have left it. -/
theorem visit_level {ts us : List (Tree ℕ)} (hts : ∀ t ∈ ts, Hangs below t) (hus : ∀ u ∈ us, Hangs below u)
    {rounds : ℕ} (hrounds : ((ts ++ us).map Tree.size).sum ≤ rounds) :
    visit below rounds ((ts ++ us).map Tree.value) =
      .ok (ts.map Tree.value ++ (Tree.rowLevels (us ++ ts.flatMap Tree.children)).flatten) := by
  induction rounds generalizing ts us with
  | zero =>
    have hnil : ts ++ us = [] := by
      rcases hall : ts ++ us with _ | ⟨⟨v, cs⟩, rest⟩
      · rfl
      · rw [hall, List.map_cons, List.sum_cons, Tree.size_node] at hrounds
        omega
    rw [List.append_eq_nil_iff] at hnil
    obtain ⟨rfl, rfl⟩ := hnil
    rfl
  | succ rounds ih =>
    -- one position leaves the queue
    have hstep : ∀ {t : Tree ℕ} {ts us : List (Tree ℕ)}, (∀ s ∈ t :: ts, Hangs below s) →
        (∀ u ∈ us, Hangs below u) → (((t :: ts) ++ us).map Tree.size).sum ≤ rounds + 1 →
          visit below (rounds + 1) (((t :: ts) ++ us).map Tree.value) =
            .ok ((t :: ts).map Tree.value ++
              (Tree.rowLevels (us ++ (t :: ts).flatMap Tree.children)).flatten) := by
      intro t ts us hts hus hrounds
      obtain ⟨v, cs⟩ := t
      have hroot := hts _ List.mem_cons_self
      have hrest := @ih ts (us ++ cs) (fun s hs => hts s (List.mem_cons_of_mem _ hs)) (by
          intro u hu
          rcases List.mem_append.mp hu with hu | hu
          · exact hus u hu
          · exact hroot.of_mem_children hu) (by
          simp only [List.cons_append, List.map_cons, List.sum_cons, List.map_append, List.sum_append,
            Tree.size_node] at hrounds ⊢
          omega)
      rw [List.cons_append, List.map_cons, visit, hroot.below_value, Checked.present_some, Checked.ok_bind]
      simp only [List.map_append, List.append_assoc, Tree.children, Tree.value] at hrest ⊢
      rw [hrest, Checked.ok_bind]
      simp [Tree.children, Tree.value]
    cases ts with
    | cons t ts => exact hstep hts hus hrounds
    | nil =>
      cases us with
      | nil => rfl
      | cons u us =>
        have hnext := @hstep u us [] hus (fun _ h => absurd h List.not_mem_nil) (by simpa using hrounds)
        rw [List.append_nil] at hnext
        rw [List.nil_append, hnext, List.map_nil, List.nil_append, List.flatMap_nil, List.append_nil,
          List.nil_append, Tree.flatten_rowLevels (u :: us)]

/-- **The walk with a queue** lists a row of trees level by level. -/
theorem visit_eq {ts : List (Tree ℕ)} (hts : ∀ t ∈ ts, Hangs below t) {rounds : ℕ}
    (hrounds : (ts.map Tree.size).sum ≤ rounds) :
    visit below rounds (ts.map Tree.value) = .ok (Tree.rowLevels ts).flatten := by
  have hlevel := @visit_level below ts [] hts (fun _ h => absurd h List.not_mem_nil) rounds
    (by rwa [List.append_nil])
  rw [List.append_nil, List.nil_append, ← Tree.flatten_rowLevels] at hlevel
  exact hlevel

/-- Starting from the root it lists the tree. -/
theorem visit_root {t : Tree ℕ} (ht : Hangs below t) {rounds : ℕ} (hrounds : t.size ≤ rounds) :
    visit below rounds [t.value] = .ok t.breadthFirst := by
  have hlist := @visit_eq below [t] (fun s hs => List.mem_singleton.mp hs ▸ ht) rounds (by simpa using hrounds)
  rwa [Tree.rowLevels_singleton] at hlist

end Visit

end FlowTree
