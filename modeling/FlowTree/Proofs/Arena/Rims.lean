import FlowTree.Proofs.Arena.Joining
import FlowTree.Proofs.Tidy.Frame

/-!
# The rims of subtrees in an array

The rims of a row of subtrees are the first and the last cell of each of its levels.

* **`leftmost`** and **`rightmost`** are the cells of the rims.
* **`Rims`** says that a chain of cells runs along a rim, one level with each step.
* **`OnRims`** says that the outlines of a row, threads included, are its rims; **`OnRims.concat`** that they still are
  when one more subtree has been set beside the row.
-/

namespace FlowTree.Tidy

variable {α : Type}

/-! ### Levels -/

/-- The cells of one level of a row of subtrees, whose roots are the first level. -/
def levelOf (ts : List Wires) (k : ℕ) : List ℕ := (ts.flatMap fun t => t.level k).map (·.1)

/-- The first cell of a level. -/
def leftmost (ts : List Wires) (k : ℕ) : Option ℕ := (levelOf ts k).head?

/-- The last cell of a level. -/
def rightmost (ts : List Wires) (k : ℕ) : Option ℕ := (levelOf ts k).getLast?

/-- The number of levels of a row of subtrees. -/
def depth (ts : List Wires) : ℕ := (Tree.rowLevels ts).length

theorem levelOf_append (ts us : List Wires) (k : ℕ) : levelOf (ts ++ us) k = levelOf ts k ++ levelOf us k := by
  rw [levelOf, List.flatMap_append, List.map_append, levelOf, levelOf]

theorem levelOf_zero (ts : List Wires) : levelOf ts 0 = ts.map top := by
  induction ts with
  | nil => rfl
  | cons t ts ih => rw [← List.singleton_append, levelOf_append, ih, levelOf]; simp [top]

theorem levelOf_node (x : ℕ × ℕ) (cs : List Wires) (k : ℕ) : levelOf [.node x cs] (k + 1) = levelOf cs k := by
  rw [levelOf, List.flatMap_singleton, Tree.level_succ, levelOf]

theorem leftmost_append (ts us : List Wires) (k : ℕ) :
    leftmost (ts ++ us) k = (leftmost ts k).or (leftmost us k) := by
  rw [leftmost, levelOf_append, List.head?_append, leftmost, leftmost]

theorem rightmost_append (ts us : List Wires) (k : ℕ) :
    rightmost (ts ++ us) k = (rightmost us k).or (rightmost ts k) := by
  rw [rightmost, levelOf_append, List.getLast?_append, rightmost, rightmost]

theorem leftmost_zero (ts : List Wires) : leftmost ts 0 = ts.head?.map top := by
  rw [leftmost, levelOf_zero, List.head?_map]

theorem rightmost_zero (ts : List Wires) : rightmost ts 0 = ts.getLast?.map top := by
  rw [rightmost, levelOf_zero, List.getLast?_map]

theorem leftmost_node (x : ℕ × ℕ) (cs : List Wires) (k : ℕ) : leftmost [.node x cs] (k + 1) = leftmost cs k := by
  rw [leftmost, levelOf_node, leftmost]

theorem rightmost_node (x : ℕ × ℕ) (cs : List Wires) (k : ℕ) : rightmost [.node x cs] (k + 1) = rightmost cs k := by
  rw [rightmost, levelOf_node, rightmost]

/-- The levels that a row has are those with a cell on them. -/
theorem lt_depth_iff {ts : List Wires} {k : ℕ} : k < depth ts ↔ levelOf ts k ≠ [] := by
  have hlevels : (Tree.node (0, 0) ts : Wires).levels = [(0, 0)] :: Tree.rowLevels ts := Tree.levels_node _ _
  have hlt := @Tree.lt_length_levels_iff _ (Tree.node (0, 0) ts : Wires) (k + 1)
  rwa [hlevels, List.length_cons, Nat.add_lt_add_iff_right, Tree.level_succ, ne_eq, ← List.map_eq_nil_iff] at hlt

theorem isSome_leftmost {ts : List Wires} {k : ℕ} : (leftmost ts k).isSome ↔ k < depth ts := by
  rw [lt_depth_iff, leftmost, List.isSome_head?]

theorem isSome_rightmost {ts : List Wires} {k : ℕ} : (rightmost ts k).isSome ↔ k < depth ts := by
  rw [lt_depth_iff, rightmost, List.getLast?_isSome]

theorem mem_slots_of_mem_levelOf {ts : List Wires} {k x : ℕ} (hx : x ∈ levelOf ts k) : ∃ t ∈ ts, x ∈ slots t := by
  obtain ⟨v, hv, rfl⟩ := List.mem_map.mp hx
  obtain ⟨t, ht, hv⟩ := List.mem_flatMap.mp hv
  refine ⟨t, ht, List.mem_map_of_mem ((Tree.breadthFirst_perm t).mem_iff.mp ?_)⟩
  rw [Tree.level] at hv
  cases hk : t.levels[k]? with
  | none => rw [hk] at hv; exact absurd hv List.not_mem_nil
  | some l => rw [hk] at hv; exact List.mem_flatten.mpr ⟨l, List.mem_of_getElem? hk, hv⟩

/-- Below the first level there are no roots. -/
theorem mem_inner_of_mem_levelOf {t : Wires} {k x : ℕ} (hx : x ∈ levelOf [t] (k + 1)) : x ∈ inner t := by
  obtain ⟨v, cs⟩ := t
  rw [levelOf_node] at hx
  obtain ⟨c, hc, hx⟩ := mem_slots_of_mem_levelOf hx
  exact List.mem_flatMap.mpr ⟨c, hc, hx⟩

/-! ### Chains along a rim -/

/-- The chain from `x` on runs along a rim: `mark k` is the cell after `k` steps. -/
def Rims (next : ℕ → Option ℕ) (x : ℕ) (mark : ℕ → Option ℕ) : Prop :=
  ∃ xs, Leads next x xs ∧ ∀ k, (x :: xs)[k]? = mark k

namespace Rims

variable {next next' : ℕ → Option ℕ} {x y : ℕ} {mark : ℕ → Option ℕ} {xs : List ℕ}

theorem start (h : Rims next x mark) : mark 0 = some x := by
  obtain ⟨xs, -, hmark⟩ := h
  exact (hmark 0).symm

theorem next_eq (h : Rims next x mark) : next x = mark 1 := by
  obtain ⟨xs, hxs, hmark⟩ := h
  rw [hxs.next_eq, ← hmark 1, List.getElem?_cons_succ, List.head?_eq_getElem?]

/-- One level deeper. -/
theorem step (h : Rims next x mark) (hy : next x = some y) : Rims next y fun k => mark (k + 1) := by
  obtain ⟨xs, hxs, hmark⟩ := h
  cases xs with
  | nil => exact absurd (hxs.symm.trans hy) (by simp)
  | cons z xs =>
    obtain rfl := Option.some.inj (hxs.1.symm.trans hy)
    exact ⟨xs, hxs.2, fun k => hmark (k + 1)⟩

theorem congr (h : Rims next x mark) (heq : ∀ k y, mark k = some y → next' y = next y) : Rims next' x mark := by
  obtain ⟨xs, hxs, hmark⟩ := h
  refine ⟨xs, hxs.congr fun y hy => ?_, hmark⟩
  obtain ⟨k, hk⟩ := List.getElem?_of_mem hy
  exact heq k y ((hmark k).symm.trans hk)

/-- One cell more in front. -/
theorem above {mark' : ℕ → Option ℕ} (hnext : next x = mark 0) (h : ∀ y, mark 0 = some y → Rims next y mark)
    (hend : mark 0 = none → ∀ k, mark k = none) (hroot : mark' 0 = some x) (hbelow : ∀ k, mark' (k + 1) = mark k) :
    Rims next x mark' := by
  cases hy : mark 0 with
  | none =>
    refine ⟨[], hnext.trans hy, fun k => ?_⟩
    cases k with
    | zero => exact hroot.symm
    | succ k => rw [hbelow, hend hy]; rfl
  | some y =>
    obtain ⟨ys, hys, hmark⟩ := h y hy
    refine ⟨y :: ys, ⟨hnext.trans hy, hys⟩, fun k => ?_⟩
    cases k with
    | zero => exact hroot.symm
    | succ k => rw [hbelow, ← hmark]; rfl

/-- There is only one chain along a rim. -/
theorem getElem?_eq (h : Rims next x mark) (hxs : Leads next x xs) (k : ℕ) : (x :: xs)[k]? = mark k := by
  obtain ⟨ys, hys, hmark⟩ := h
  rw [hxs.unique hys, hmark]

end Rims

/-- Where one list ends the other goes on. -/
theorem getElem?_append_rest (xs ys : List ℕ) (k : ℕ) : (xs ++ ys.drop xs.length)[k]? = xs[k]?.or ys[k]? := by
  rw [getElem?_append_drop]
  split
  · next hk => rw [List.getElem?_eq_getElem hk, Option.some_or]
  · next hk => rw [List.getElem?_eq_none (Nat.not_lt.mp hk), Option.none_or]

/-- The outlines of a row of subtrees are its rims. -/
structure OnRims (net : Net α) (ts : List Wires) : Prop where
  left : ∀ o, ts.head? = some o → Rims net.nextLeft (top o) (leftmost ts)
  right : ∀ y, ts.getLast? = some y → Rims net.nextRight (top y) (rightmost ts)

namespace OnRims

variable {net net' : Net α} {ts : List Wires} {t : Wires}

theorem nil (net : Net α) : OnRims net [] where
  left o ho := by simp at ho
  right y hy := by simp at hy

theorem of_links (h : OnRims net ts) (heq : net'.map Cell.links = net.map Cell.links) : OnRims net' ts where
  left o ho := Net.nextLeft_congr heq ▸ h.left o ho
  right y hy := Net.nextRight_congr heq ▸ h.right y hy

/-- It is enough to know the cells of the row. -/
theorem congr (h : OnRims net ts) (heq : ∀ t ∈ ts, ∀ x ∈ slots t, net'[x]? = net[x]?) : OnRims net' ts := by
  have hcell : ∀ {k x : ℕ}, x ∈ levelOf ts k → net'[x]? = net[x]? := fun hx => by
    obtain ⟨t, ht, hx⟩ := mem_slots_of_mem_levelOf hx
    exact heq t ht _ hx
  exact {
    left := fun o ho => (h.left o ho).congr fun k y hy => Net.nextLeft_of_cell (hcell (List.mem_of_head? hy))
    right := fun o ho => (h.right o ho).congr fun k y hy => Net.nextRight_of_cell (hcell (List.mem_of_getLast? hy)) }

/-- **The rims of a node** are the node and the rims of its children. -/
theorem node {x : ℕ × ℕ} {cs : List Wires} {c : Cell α} (hc : net[x.1]? = some c) (hchildren : c.children = cs.map top)
    (hthread : c.thread = none) (h : OnRims net cs) : OnRims net [.node x cs] where
  left o ho := by
    obtain rfl := Option.some.inj ho
    refine .above ?_ (fun y hy => ?_) (fun hnil k => ?_) (leftmost_zero _) (leftmost_node x cs)
    · show net.nextLeft x.1 = _
      rw [leftmost_zero, ← List.head?_map, ← hchildren, Net.nextLeft, hc, Option.bind_some, hthread, Option.or_none]
    · rw [leftmost_zero] at hy
      obtain ⟨o, ho, rfl⟩ := Option.map_eq_some_iff.mp hy
      exact h.left o ho
    · rw [leftmost_zero, Option.map_eq_none_iff, List.head?_eq_none_iff] at hnil
      rw [hnil]
      rfl
  right y hy := by
    obtain rfl := Option.some.inj hy
    refine .above ?_ (fun y hy => ?_) (fun hnil k => ?_) (rightmost_zero _) (rightmost_node x cs)
    · show net.nextRight x.1 = _
      rw [rightmost_zero, ← List.getLast?_map, ← hchildren, Net.nextRight, hc, Option.bind_some, hthread,
        Option.or_none]
    · rw [rightmost_zero] at hy
      obtain ⟨o, ho, rfl⟩ := Option.map_eq_some_iff.mp hy
      exact h.right o ho
    · rw [rightmost_zero, Option.map_eq_none_iff, List.getLast?_eq_none_iff] at hnil
      rw [hnil]
      rfl

/-- **The rims of a row with one more subtree** go on where one of the two ends. -/
theorem concat {o y : Wires} (ho : ts.head? = some o) {xs ys zs us : List ℕ}
    (hleft : Leads net'.nextLeft (top o) (zs ++ ys.drop zs.length))
    (hright : Leads net'.nextRight (top t) (us ++ xs.drop us.length))
    (hxs : ∀ k, (top y :: xs)[k]? = rightmost ts k) (hys : ∀ k, (top t :: ys)[k]? = leftmost [t] k)
    (hzs : ∀ k, (top o :: zs)[k]? = leftmost ts k) (hus : ∀ k, (top t :: us)[k]? = rightmost [t] k) :
    OnRims net' (ts ++ [t]) where
  left o' ho' := by
    rw [List.head?_append, ho] at ho'
    obtain rfl := Option.some.inj ho'
    refine ⟨_, hleft, fun k => ?_⟩
    rw [leftmost_append, ← hzs, ← hys, ← getElem?_append_rest]
    rfl
  right y' hy' := by
    rw [List.getLast?_concat] at hy'
    obtain rfl := Option.some.inj hy'
    refine ⟨_, hright, fun k => ?_⟩
    rw [rightmost_append, ← hxs, ← hus, ← getElem?_append_rest]
    rfl

end OnRims

end FlowTree.Tidy
