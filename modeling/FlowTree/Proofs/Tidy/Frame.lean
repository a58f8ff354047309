import FlowTree.Proofs.Exact
import FlowTree.Proofs.Walks
import Mathlib.Data.List.GetD
import Mathlib.Tactic.Linarith

/-!
# Room between placed trees

What it means that trees of places stand beside each other, and how the outlines of a row bound it.

* **`Tidy.Roomy`** says that all siblings in a tree keep their distance, with all that hangs below them.
* **`Tidy.Outlined`** says that two lists of places bound the levels of a tree, **`Tidy.Framed`** that
  they bound the levels of a row of trees.  The right bound tells below which tree it lies.
* **`Tidy.Framed.concat`** is the step that sets one more tree beside a row, **`Tidy.Framed.crown`** the
  one that sets a root above a row.
-/

namespace FlowTree.Tidy

/-! ### Moved trees -/

/-- A tree of places moved as a whole. -/
def shift (d : ℚ) (t : Tree ℚ) : Tree ℚ := t.map (· + d)

@[simp] theorem value_shift (d : ℚ) (t : Tree ℚ) : (shift d t).value = t.value + d := by
  rw [shift, Tree.value_map]

theorem shift_node (d v : ℚ) (cs : List (Tree ℚ)) :
    shift d (.node v cs) = .node (v + d) (cs.map (shift d)) := by
  rw [shift, Tree.map_node]
  rfl

theorem shift_shift (d e : ℚ) (t : Tree ℚ) : shift e (shift d t) = shift (d + e) t := by
  rw [shift, shift, shift, Tree.map_map]
  congr 1
  funext x
  exact add_assoc x d e

theorem shift_zero (t : Tree ℚ) : shift 0 t = t := by
  induction t with
  | node v cs ih =>
    rw [shift_node, add_zero]
    congr 1
    exact (List.map_congr_left ih).trans cs.map_id

theorem mem_level_shift {d : ℚ} {t : Tree ℚ} {k : ℕ} {x : ℚ} :
    x ∈ (shift d t).level k ↔ ∃ y ∈ t.level k, y + d = x := by
  rw [shift, Tree.level_map, List.mem_map]

/-! ### Trees that keep their distance -/

/-- One tree stands to the left of another one: their roots keep one unit, all other nodes of one
level keep two. -/
structure Beside (a b : Tree ℚ) : Prop where
  roots : a.value + 1 ≤ b.value
  below : ∀ k : ℕ, ∀ x ∈ a.level (k + 1), ∀ y ∈ b.level (k + 1), x + 2 ≤ y

/-- Everywhere in the tree siblings stand beside each other. -/
inductive Roomy : Tree ℚ → Prop
  | node {v : ℚ} {cs : List (Tree ℚ)} :
      (∀ c ∈ cs, Roomy c) → cs.Pairwise Beside → Roomy (.node v cs)

theorem Beside.shift {a b : Tree ℚ} (h : Beside a b) {d e : ℚ} (hde : d ≤ e) :
    Beside (shift d a) (shift e b) := by
  refine ⟨?_, ?_⟩
  · have hroots := h.roots
    rw [value_shift, value_shift]
    linarith
  · intro k x hx y hy
    obtain ⟨x', hx', rfl⟩ := mem_level_shift.mp hx
    obtain ⟨y', hy', rfl⟩ := mem_level_shift.mp hy
    have hbelow := h.below k x' hx' y' hy'
    linarith

theorem Roomy.shift (d : ℚ) {t : Tree ℚ} (h : Roomy t) : Roomy (shift d t) := by
  induction t with
  | node v cs ih =>
    cases h with
    | node hroomy hbeside =>
      rw [shift_node]
      refine Roomy.node (fun c hc => ?_) ?_
      · obtain ⟨c', hc', rfl⟩ := List.mem_map.mp hc
        exact ih c' hc' (hroomy c' hc')
      · rw [List.pairwise_map]
        exact hbeside.imp fun h => h.shift (le_refl d)

/-- All trees of a row stand to the right of its first one. -/
theorem eq_or_beside_first {row : List (Tree ℚ)} (h : row.Pairwise Beside) {first s : Tree ℚ}
    (hfirst : row.head? = some first) (hs : s ∈ row) : s = first ∨ Beside first s := by
  cases row with
  | nil => simp at hs
  | cons a rest =>
    obtain rfl : a = first := by simpa using hfirst
    rcases List.mem_cons.mp hs with rfl | hs
    · exact Or.inl rfl
    · exact Or.inr (List.rel_of_pairwise_cons h hs)

/-- All trees of a row stand to the left of its last one. -/
theorem eq_or_beside_last {row : List (Tree ℚ)} (h : row.Pairwise Beside) {last s : Tree ℚ}
    (hlast : row.getLast? = some last) (hs : s ∈ row) : s = last ∨ Beside s last := by
  obtain ⟨rest, rfl⟩ := List.getLast?_eq_some_iff.mp hlast
  rcases List.mem_append.mp hs with hs | hs
  · exact Or.inr ((List.pairwise_append.mp h).2.2 s hs last (List.mem_singleton_self _))
  · exact Or.inl (List.mem_singleton.mp hs)

/-! ### Bounds -/

/-- Two lists of places bound what hangs below the root of a tree, level by level. -/
structure Outlined (t : Tree ℚ) (left right : List ℚ) : Prop where
  roomy : Roomy t
  left_le : ∀ k : ℕ, ∀ x ∈ t.level (k + 1), ∃ l : ℚ, left[k]? = some l ∧ l ≤ x
  le_right : ∀ k : ℕ, ∀ x ∈ t.level (k + 1), ∃ r : ℚ, right[k]? = some r ∧ x ≤ r
  length : left.length = right.length
  ordered : ∀ (k : ℕ) (l r : ℚ), left[k]? = some l → right[k]? = some r → l ≤ r

/-- Two lists of places bound what hangs below the roots of a row of trees, level by level.  Each
place on the right lies below the tree with the given index or further right than that tree. -/
structure Framed (row : List (Tree ℚ)) (left : List ℚ) (right : List (ℕ × ℚ)) : Prop where
  roomy : ∀ t ∈ row, Roomy t
  beside : row.Pairwise Beside
  left_le : ∀ t ∈ row, ∀ k : ℕ, ∀ x ∈ t.level (k + 1), ∃ l : ℚ, left[k]? = some l ∧ l ≤ x
  le_right : ∀ (j : ℕ) (t : Tree ℚ), row[j]? = some t → ∀ k : ℕ, ∀ x ∈ t.level (k + 1),
    ∃ q : ℕ × ℚ, right[k]? = some q ∧ j ≤ q.1 ∧ x ≤ q.2
  owner_lt : ∀ q ∈ right, q.1 < row.length
  length : left.length = right.length
  ordered : ∀ (k : ℕ) (l : ℚ) (q : ℕ × ℚ), left[k]? = some l → right[k]? = some q → l ≤ q.2

theorem Outlined.shift {t : Tree ℚ} {left right : List ℚ} (h : Outlined t left right) (d : ℚ) :
    Outlined (shift d t) (left.map (· + d)) (right.map (· + d)) where
  roomy := h.roomy.shift d
  left_le k x hx := by
    obtain ⟨y, hy, rfl⟩ := mem_level_shift.mp hx
    obtain ⟨l, hl, hle⟩ := h.left_le k y hy
    exact ⟨l + d, by rw [List.getElem?_map, hl]; rfl, by linarith⟩
  le_right k x hx := by
    obtain ⟨y, hy, rfl⟩ := mem_level_shift.mp hx
    obtain ⟨r, hr, hle⟩ := h.le_right k y hy
    exact ⟨r + d, by rw [List.getElem?_map, hr]; rfl, by linarith⟩
  length := by rw [List.length_map, List.length_map, h.length]
  ordered k l r hl hr := by
    rw [List.getElem?_map, Option.map_eq_some_iff] at hl hr
    obtain ⟨l, hl, rfl⟩ := hl
    obtain ⟨r, hr, rfl⟩ := hr
    have hle := h.ordered k l r hl hr
    linarith

/-- A leaf needs no bounds. -/
theorem Outlined.leaf (v : ℚ) : Outlined (.node v []) [] [] where
  roomy := Roomy.node (by simp) List.Pairwise.nil
  left_le k x hx := by simp at hx
  le_right k x hx := by simp at hx
  length := rfl
  ordered k l r hl := by simp at hl

/-! ### One more tree -/

/-- No tree of a row bounds the levels above one of its nodes less far to the right than itself. -/
theorem Framed.owner_le {row : List (Tree ℚ)} {left : List ℚ} {right : List (ℕ × ℚ)}
    (h : Framed row left right) {j : ℕ} {t : Tree ℚ} (ht : row[j]? = some t) {k : ℕ} {x : ℚ}
    (hx : x ∈ t.level (k + 1)) : ∀ i ≤ k, ∀ q : ℕ × ℚ, right[i]? = some q → j ≤ q.1 := by
  intro i hik q hq
  obtain ⟨y, hy⟩ := Tree.exists_mem_level (Nat.succ_le_succ hik) hx
  obtain ⟨q', hq', hj, -⟩ := h.le_right j t ht i y hy
  rw [hq] at hq'
  exact Option.some.inj hq' ▸ hj

/-- A list that goes on into what another list has beyond its end. -/
theorem getElem?_append_drop {γ : Type} (l r : List γ) (k : ℕ) :
    (l ++ r.drop l.length)[k]? = if k < l.length then l[k]? else r[k]? := by
  split
  · next hk => exact List.getElem?_append_left hk
  · next hk =>
    rw [List.getElem?_append_right (by omega), List.getElem?_drop]
    congr 1
    omega

/-- What is moved when a tree is set beside a row: the tree itself by `far`, each tree of the row by a
part of it that grows along the row. -/
structure Parting (row : List (Tree ℚ)) (right : List (ℕ × ℚ)) (left : List ℚ) (part : ℕ → ℚ)
    (far : ℚ) : Prop where
  nonneg : ∀ j, 0 ≤ part j
  mono : ∀ i j, i ≤ j → j < row.length → part i ≤ part j
  le_far : ∀ j, part j ≤ far
  /-- On each level that both sides reach there is room. -/
  clear : ∀ (j k : ℕ), (∀ i ≤ k, ∀ q : ℕ × ℚ, right[i]? = some q → j ≤ q.1) →
    ∀ (q : ℕ × ℚ) (l : ℚ), right[k]? = some q → left[k]? = some l → q.2 + 2 + part j ≤ l + far
  /-- A tree that reaches below the level where the walk ends stays. -/
  still : ∀ j : ℕ, (∀ k < left.length, ∀ q : ℕ × ℚ, right[k]? = some q → j ≤ q.1) → part j = 0

variable {row : List (Tree ℚ)} {left l r : List ℚ} {right : List (ℕ × ℚ)} {t : Tree ℚ}
  {part : ℕ → ℚ} {far : ℚ}

/-- A row with its trees moved, and one more tree. -/
def parted (row : List (Tree ℚ)) (t : Tree ℚ) (part : ℕ → ℚ) (far : ℚ) : List (Tree ℚ) :=
  row.mapIdx (fun j s => shift (part j) s) ++ [shift far t]

theorem mem_parted {s : Tree ℚ} :
    s ∈ parted row t part far ↔
      (∃ (j : ℕ) (s₀ : Tree ℚ), row[j]? = some s₀ ∧ s = shift (part j) s₀) ∨ s = shift far t := by
  rw [parted, List.mem_append, List.mem_singleton, List.mem_mapIdx]
  refine or_congr_left ⟨?_, ?_⟩
  · rintro ⟨j, hj, rfl⟩
    exact ⟨j, row[j], List.getElem?_eq_getElem hj, rfl⟩
  · rintro ⟨j, s₀, hs, rfl⟩
    obtain ⟨hj, rfl⟩ := List.getElem?_eq_some_iff.mp hs
    exact ⟨j, hj, rfl⟩

theorem getElem?_parted {j : ℕ} {s : Tree ℚ} (h : (parted row t part far)[j]? = some s) :
    (∃ s₀ : Tree ℚ, row[j]? = some s₀ ∧ s = shift (part j) s₀) ∨
      j = row.length ∧ s = shift far t := by
  rw [parted] at h
  rcases Nat.lt_or_ge j row.length with hj | hj
  · rw [List.getElem?_append_left (by simpa using hj), List.getElem?_mapIdx,
      Option.map_eq_some_iff] at h
    obtain ⟨s₀, hs, rfl⟩ := h
    exact Or.inl ⟨s₀, hs, rfl⟩
  · rw [List.getElem?_append_right (by simpa using hj), List.length_mapIdx] at h
    obtain ⟨hk, hs⟩ := List.getElem?_eq_some_iff.mp h
    rw [List.length_singleton] at hk
    exact Or.inr ⟨by omega, by simpa using hs.symm⟩

/-- Every tree of the row stands to the left of the new tree. -/
theorem Framed.beside_new (hf : Framed row left right) (ho : Outlined t l r)
    (hroot : ∀ s ∈ row, s.value + 1 ≤ t.value) (hp : Parting row right l part far) {j : ℕ}
    {s : Tree ℚ} (hs : row[j]? = some s) : Beside (shift (part j) s) (shift far t) := by
  refine ⟨?_, ?_⟩
  · have hvalue := hroot s (List.mem_of_getElem? hs)
    have hpart := hp.le_far j
    rw [value_shift, value_shift]
    linarith
  · intro k x hx y hy
    obtain ⟨x', hx', rfl⟩ := mem_level_shift.mp hx
    obtain ⟨y', hy', rfl⟩ := mem_level_shift.mp hy
    obtain ⟨q, hq, -, hxq⟩ := hf.le_right j s hs k x' hx'
    obtain ⟨w, hw, hwy⟩ := ho.left_le k y' hy'
    have hclear := hp.clear j k (hf.owner_le hs hx') q w hq hw
    linarith

theorem Framed.pairwise_parted (hf : Framed row left right) (ho : Outlined t l r)
    (hroot : ∀ s ∈ row, s.value + 1 ≤ t.value) (hp : Parting row right l part far) :
    (parted row t part far).Pairwise Beside := by
  rw [parted, List.pairwise_append]
  refine ⟨?_, List.pairwise_singleton _ _, ?_⟩
  · rw [List.pairwise_iff_getElem]
    intro i j hi hj hij
    rw [List.length_mapIdx] at hi hj
    rw [List.getElem_mapIdx, List.getElem_mapIdx]
    exact ((List.pairwise_iff_getElem.mp hf.beside) i j hi hj hij).shift (hp.mono i j hij.le hj)
  · intro s hs s' hs'
    obtain rfl := List.mem_singleton.mp hs'
    obtain ⟨j, hj, rfl⟩ := List.mem_mapIdx.mp hs
    exact hf.beside_new ho hroot hp (List.getElem?_eq_getElem hj)

/-- On a level that both sides reach, the new tree lies to the right of the row. -/
theorem Parting.right_le (hp : Parting row right l part far) {k : ℕ} {q : ℕ × ℚ} {w : ℚ}
    (hq : right[k]? = some q) (hw : l[k]? = some w) : q.2 ≤ w + far := by
  have hclear := hp.clear 0 k (fun _ _ _ _ => Nat.zero_le _) q w hq hw
  have hpart := hp.nonneg 0
  linarith

/-- The left bound of the row with the new tree. -/
def leftBound (left l : List ℚ) (far : ℚ) : List ℚ := left ++ (l.map (· + far)).drop left.length

/-- The right bound of the row with the new tree, which is the one at `index`. -/
def rightBound (right : List (ℕ × ℚ)) (r : List ℚ) (index : ℕ) (far : ℚ) : List (ℕ × ℚ) :=
  r.map (fun x => (index, x + far)) ++ right.drop r.length

theorem getElem?_leftBound (k : ℕ) :
    (leftBound left l far)[k]? = if k < left.length then left[k]? else l[k]?.map (· + far) := by
  rw [leftBound, getElem?_append_drop, List.getElem?_map]

theorem getElem?_rightBound (index k : ℕ) :
    (rightBound right r index far)[k]? =
      if k < r.length then r[k]?.map (fun x => (index, x + far)) else right[k]? := by
  have hdrop := getElem?_append_drop (r.map fun x => (index, x + far)) right k
  rw [List.length_map, List.getElem?_map] at hdrop
  exact hdrop

/-- The left bound of the row holds for each of its trees. -/
theorem Framed.leftBound_le_old (hf : Framed row left right) (hp : Parting row right l part far) {j : ℕ}
    {s : Tree ℚ} (hs : row[j]? = some s) {k : ℕ} {y : ℚ} (hy : y ∈ s.level (k + 1)) :
    ∃ w : ℚ, (leftBound left l far)[k]? = some w ∧ w ≤ y + part j := by
  obtain ⟨w, hw, hwy⟩ := hf.left_le s (List.mem_of_getElem? hs) k y hy
  have hpart := hp.nonneg j
  rw [getElem?_leftBound, if_pos (List.getElem?_eq_some_iff.mp hw).1]
  exact ⟨w, hw, by linarith⟩

/-- On a level that the row reaches the new tree lies to the right of it, and further down bounds itself. -/
theorem Framed.leftBound_le_new (hf : Framed row left right) (ho : Outlined t l r)
    (hp : Parting row right l part far) {k : ℕ} {y : ℚ} (hy : y ∈ t.level (k + 1)) :
    ∃ w : ℚ, (leftBound left l far)[k]? = some w ∧ w ≤ y + far := by
  obtain ⟨w, hw, hwy⟩ := ho.left_le k y hy
  rw [getElem?_leftBound]
  split
  · next hk =>
    have hk' : k < right.length := hf.length ▸ hk
    have hle := hf.ordered k left[k] right[k] (List.getElem?_eq_getElem hk)
      (List.getElem?_eq_getElem hk')
    have hfar := hp.right_le (List.getElem?_eq_getElem hk') hw
    exact ⟨left[k], List.getElem?_eq_getElem hk, by linarith⟩
  · rw [hw]
    exact ⟨w + far, rfl, by linarith⟩

/-- A tree of the row stays left of the new tree as far as that reaches; one that reaches further down stays where
it is, and so does its bound. -/
theorem Framed.le_rightBound_old (hf : Framed row left right) (ho : Outlined t l r)
    (hp : Parting row right l part far) {j : ℕ} {s : Tree ℚ} (hs : row[j]? = some s) {k : ℕ} {y : ℚ}
    (hy : y ∈ s.level (k + 1)) :
    ∃ q : ℕ × ℚ, (rightBound right r row.length far)[k]? = some q ∧ j ≤ q.1 ∧ y + part j ≤ q.2 := by
  obtain ⟨q, hq, hjq, hyq⟩ := hf.le_right j s hs k y hy
  have howner := hf.owner_le hs hy
  rw [getElem?_rightBound]
  split
  · next hk =>
    have hk' : k < l.length := ho.length ▸ hk
    have hclear := hp.clear j k howner q l[k] hq (List.getElem?_eq_getElem hk')
    have hle := ho.ordered k l[k] r[k] (List.getElem?_eq_getElem hk')
      (List.getElem?_eq_getElem hk)
    have hj := (List.getElem?_eq_some_iff.mp hs).1
    rw [List.getElem?_eq_getElem hk]
    exact ⟨(row.length, r[k] + far), rfl, hj.le, by show y + part j ≤ r[k] + far; linarith⟩
  · next hk =>
    rw [← ho.length] at hk
    rw [hp.still j fun i hi => howner i (by omega), add_zero]
    exact ⟨q, hq, hjq, hyq⟩

/-- The right bound of the row with the new tree is nowhere left of its left bound. -/
theorem Framed.bounds_ordered (hf : Framed row left right) (ho : Outlined t l r)
    (hp : Parting row right l part far) {index k : ℕ} {w : ℚ} {q : ℕ × ℚ}
    (hw : (leftBound left l far)[k]? = some w) (hq : (rightBound right r index far)[k]? = some q) : w ≤ q.2 := by
  rw [getElem?_leftBound] at hw
  rw [getElem?_rightBound] at hq
  split at hw
  · next hk =>
    have hk' : k < right.length := hf.length ▸ hk
    have hle := hf.ordered k w right[k] hw (List.getElem?_eq_getElem hk')
    split at hq
    · next hk₂ =>
      obtain ⟨x, hx, rfl⟩ := Option.map_eq_some_iff.mp hq
      have hk₃ : k < l.length := ho.length ▸ hk₂
      have hfar := hp.right_le (List.getElem?_eq_getElem hk') (List.getElem?_eq_getElem hk₃)
      have hle' := ho.ordered k l[k] x (List.getElem?_eq_getElem hk₃) hx
      show w ≤ x + far
      linarith
    · exact hf.ordered k w q hw hq
  · next hk =>
    obtain ⟨y, hy, rfl⟩ := Option.map_eq_some_iff.mp hw
    have hk₂ := (List.getElem?_eq_some_iff.mp hy).1
    rw [if_pos (ho.length ▸ hk₂)] at hq
    obtain ⟨x, hx, rfl⟩ := Option.map_eq_some_iff.mp hq
    have hle := ho.ordered k y x hy hx
    show y + far ≤ x + far
    linarith

/-- **One more tree beside a row.**  The bounds of the row are those of its trees and go on into those
of the new tree where that one is deeper; the right bound is the one of the new tree as far as that
reaches. -/
theorem Framed.concat (hf : Framed row left right) (ho : Outlined t l r)
    (hroot : ∀ s ∈ row, s.value + 1 ≤ t.value) (hp : Parting row right l part far) :
    Framed (parted row t part far) (leftBound left l far)
      (rightBound right r row.length far) where
  roomy s hs := by
    rcases mem_parted.mp hs with ⟨j, s₀, hs₀, rfl⟩ | rfl
    · exact (hf.roomy s₀ (List.mem_of_getElem? hs₀)).shift _
    · exact ho.roomy.shift _
  beside := hf.pairwise_parted ho hroot hp
  left_le s hs k x hx := by
    rcases mem_parted.mp hs with ⟨j, s₀, hs₀, rfl⟩ | rfl
    · obtain ⟨y, hy, rfl⟩ := mem_level_shift.mp hx
      exact hf.leftBound_le_old hp hs₀ hy
    · obtain ⟨y, hy, rfl⟩ := mem_level_shift.mp hx
      exact hf.leftBound_le_new ho hp hy
  le_right j s hs k x hx := by
    rcases getElem?_parted hs with ⟨s₀, hs₀, rfl⟩ | ⟨rfl, rfl⟩
    · obtain ⟨y, hy, rfl⟩ := mem_level_shift.mp hx
      exact hf.le_rightBound_old ho hp hs₀ hy
    · obtain ⟨y, hy, rfl⟩ := mem_level_shift.mp hx
      obtain ⟨w, hw, hyw⟩ := ho.le_right k y hy
      rw [getElem?_rightBound, if_pos (List.getElem?_eq_some_iff.mp hw).1, hw]
      exact ⟨(row.length, w + far), rfl, le_refl _, by show y + far ≤ w + far; linarith⟩
  owner_lt q hq := by
    have hlength : (parted row t part far).length = row.length + 1 := by simp [parted]
    rw [hlength]
    rcases List.mem_append.mp hq with hq | hq
    · obtain ⟨x, -, rfl⟩ := List.mem_map.mp hq
      exact Nat.lt_succ_self _
    · exact Nat.lt_succ_of_lt (hf.owner_lt q (List.mem_of_mem_drop hq))
  length := by
    have hlr := hf.length
    have hlr' := ho.length
    simp only [leftBound, rightBound, List.length_append, List.length_drop, List.length_map]
    omega
  ordered _ _ _ hw hq := hf.bounds_ordered ho hp hw hq

/-! ### A root above a row -/

/-- No root of a row is left of its first one. -/
theorem Framed.first_le (hf : Framed row left right) {first : Tree ℚ} (hfirst : row.head? = some first) {s : Tree ℚ}
    (hs : s ∈ row) : first.value ≤ s.value := by
  rcases eq_or_beside_first hf.beside hfirst hs with rfl | hbeside
  · exact le_refl _
  · have hroots := hbeside.roots
    linarith

/-- No root of a row is right of its last one. -/
theorem Framed.le_last (hf : Framed row left right) {last : Tree ℚ} (hlast : row.getLast? = some last) {s : Tree ℚ}
    (hs : s ∈ row) : s.value ≤ last.value := by
  rcases eq_or_beside_last hf.beside hlast hs with rfl | hbeside
  · exact le_refl _
  · have hroots := hbeside.roots
    linarith

/-- **A root above a row.**  Its outlines begin with the roots of the row's ends. -/
theorem Framed.crown (hf : Framed row left right) {first last : Tree ℚ}
    (hfirst : row.head? = some first) (hlast : row.getLast? = some last) (v : ℚ) :
    Outlined (.node v row) (first.value :: left) (last.value :: right.map (·.2)) where
  roomy := Roomy.node hf.roomy hf.beside
  left_le k x hx := by
    rw [Tree.level_succ] at hx
    obtain ⟨s, hs, hx⟩ := List.mem_flatMap.mp hx
    cases k with
    | zero =>
      obtain rfl : x = s.value := by simpa using hx
      exact ⟨first.value, rfl, hf.first_le hfirst hs⟩
    | succ k => exact hf.left_le s hs k x hx
  le_right k x hx := by
    rw [Tree.level_succ] at hx
    obtain ⟨s, hs, hx⟩ := List.mem_flatMap.mp hx
    cases k with
    | zero =>
      obtain rfl : x = s.value := by simpa using hx
      exact ⟨last.value, rfl, hf.le_last hlast hs⟩
    | succ k =>
      obtain ⟨j, hj⟩ := List.getElem?_of_mem hs
      obtain ⟨q, hq, -, hxq⟩ := hf.le_right j s hj k x hx
      exact ⟨q.2, by rw [List.getElem?_cons_succ, List.getElem?_map, hq]; rfl, hxq⟩
  length := by rw [List.length_cons, List.length_cons, List.length_map, hf.length]
  ordered k w x hw hx := by
    cases k with
    | zero =>
      obtain rfl : first.value = w := by simpa using hw
      obtain rfl : last.value = x := by simpa using hx
      exact hf.first_le hfirst (List.mem_of_getLast? hlast)
    | succ k =>
      rw [List.getElem?_cons_succ, List.getElem?_map, Option.map_eq_some_iff] at hx
      obtain ⟨q, hq, rfl⟩ := hx
      exact hf.ordered k w q hw hq

end FlowTree.Tidy
