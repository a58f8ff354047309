import FlowTree.Proofs.Paths
import FlowTree.Proofs.Tidy.Closed

/-!
# Subtrees of a tidy tree

A subtree is drawn once and then only moved as a whole, so all that a tidy tree says about the nodes below a node, seen
from that node, is what the tidy tree of its subtree says.

* **`Tidy.coordinate?`** is the coordinate of the node at the end of a path.
* **`Tidy.at?_breadths`** finds the tidy tree of a subtree in that of the whole.
* **`Tidy.coordinate?_append`** says so of the coordinates, **`Tidy.coordinate?_children`** where the outer children of a
  node stand.
-/

namespace FlowTree.Tidy

variable {γ : Type}

/-- The coordinate of the node at the end of a path. -/
def coordinate? {α : Type} [Scalar α] (t : Tree γ) (path : List ℕ) : Option α :=
  ((breadths t : Tree α).at? path).map Tree.value

theorem at?_shift (d : ℚ) (t : Tree ℚ) (path : List ℕ) : (shift d t).at? path = (t.at? path).map (shift d) :=
  Tree.at?_map _ t path

/-- **Below a node stands the tidy tree of its subtree**, moved as a whole. -/
theorem at?_breadths {t s : Tree γ} {path : List ℕ} (h : t.at? path = some s) :
    ∃ d : ℚ, (breadths t).at? path = some (shift d (breadths s)) := by
  induction path generalizing t with
  | nil =>
    obtain rfl := Option.some.inj h
    exact ⟨0, by rw [shift_zero]; rfl⟩
  | cons i path ih =>
    obtain ⟨v, cs⟩ := t
    obtain ⟨c, hc, hs⟩ := Tree.at?_cons_eq_some_iff.mp h
    obtain ⟨height, hbelow⟩ := exists_below (cs.map breadths)
    obtain ⟨d, hd⟩ := ih hs
    -- the child is moved to its place, and the subtree with it
    rw [breadths_node v cs hbelow, Tree.at?_cons, List.getElem?_mapIdx, List.getElem?_map, hc]
    simp only [Option.map_some, Option.bind_some, at?_shift, hd, shift_shift]
    exact ⟨_, rfl⟩

/-- The root stands at zero. -/
theorem coordinate?_nil (t : Tree γ) : coordinate? t [] = some (0 : ℚ) := by
  rw [coordinate?, Tree.at?_nil, Option.map_some, value_breadths]

/-- **Seen from a node**, the nodes below it stand where the tidy tree of its subtree has them. -/
theorem coordinate?_append {t s : Tree γ} {path : List ℕ} (h : t.at? path = some s) :
    ∃ d : ℚ, coordinate? t path = some d ∧ ∀ q, coordinate? t (path ++ q) = (coordinate? s q).map (· + d) := by
  obtain ⟨d, hd⟩ := at?_breadths h
  have hall : ∀ q, coordinate? t (path ++ q) = (coordinate? s q).map (· + d) := by
    intro q
    rw [coordinate?, coordinate?, Tree.at?_append, hd, Option.bind_some, at?_shift, Option.map_map, Option.map_map]
    congr 1
    funext u
    exact value_shift d u
  refine ⟨d, ?_, hall⟩
  have hroot := hall []
  rwa [List.append_nil, coordinate?_nil, Option.map_some, zero_add] at hroot

/-- **The outer children of a node** stand equally far from it, to both sides. -/
theorem coordinate?_children (v : γ) {cs : List (Tree γ)} (hne : cs ≠ []) :
    ∃ x : ℚ, coordinate? (.node v cs) [0] = some (-x) ∧ coordinate? (.node v cs) [cs.length - 1] = some x := by
  obtain ⟨height, hbelow⟩ := exists_below (cs.map breadths)
  have hpos := List.length_pos_iff.mpr hne
  let far : ℚ := place (cs.map breadths) height cs.length (cs.length - 1)
  have hchild : ∀ j < cs.length, coordinate? (.node v cs) [j] =
      some (place (cs.map breadths) height cs.length j - far / 2) := by
    intro j hj
    rw [coordinate?, breadths_node v cs hbelow, Tree.at?_cons, List.getElem?_mapIdx, List.getElem?_map,
      List.getElem?_eq_getElem hj, Option.map_some, Option.map_some, Option.bind_some, Tree.at?_nil, Option.map_some,
      value_shift, value_breadths, zero_add]
  refine ⟨far / 2, ?_, ?_⟩
  · rw [hchild 0 hpos, place_zero, zero_sub]
  · rw [hchild _ (Nat.sub_lt hpos Nat.one_pos), ← show far = _ from rfl, sub_half]

end FlowTree.Tidy
