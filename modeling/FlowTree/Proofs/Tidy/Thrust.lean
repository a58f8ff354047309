import FlowTree.Proofs.Tidy.Frame
import Mathlib.Algebra.BigOperators.Intervals
import Mathlib.Tactic.FieldSimp

/-!
# How far siblings are thrust apart

Which pushes there are between the subtrees of a row, and how far they go, does not depend on the side from
which the row is made.  Two subtrees face each other on a level if both reach it and none between them does.
What a level asks of them is compared with the distance that the levels above ask for, and no level further
down nor any subtree further out has a say in this distance.

* **`Tidy.Facing`** says that two trees face each other on a level, **`Tidy.span`** is the distance that the
  levels above ask for, and **`Tidy.thrust`** is what is missing.
* **`Tidy.place`** is where the tree at an index stands in the end: each thrust moves all trees between its
  two ends by equal steps, and those beyond as a whole.
* **`Tidy.thrusts_eq`** says what is missing when one more tree is set beside a row that has been made so far.
-/

namespace FlowTree.Tidy

open Finset

/-! ### Sums over pairs -/

/-- The sum over all pairs of indices below `n`, the smaller one first. -/
def pairSum (n : ℕ) (g : ℕ → ℕ → ℚ) : ℚ := ∑ d ∈ range n, ∑ c ∈ range d, g c d

theorem pairSum_succ (n : ℕ) (g : ℕ → ℕ → ℚ) :
    pairSum (n + 1) g = pairSum n g + ∑ c ∈ range n, g c n :=
  sum_range_succ _ n

theorem pairSum_congr {n : ℕ} {g g' : ℕ → ℕ → ℚ} (h : ∀ c d, c < d → d < n → g c d = g' c d) :
    pairSum n g = pairSum n g' :=
  sum_congr rfl fun d hd => sum_congr rfl fun c hc => h c d (mem_range.mp hc) (mem_range.mp hd)

theorem pairSum_add (n : ℕ) (g g' : ℕ → ℕ → ℚ) :
    pairSum n (fun c d => g c d + g' c d) = pairSum n g + pairSum n g' := by
  simp only [pairSum, sum_add_distrib]

theorem pairSum_sub (n : ℕ) (g g' : ℕ → ℕ → ℚ) :
    pairSum n (fun c d => g c d - g' c d) = pairSum n g - pairSum n g' := by
  simp only [pairSum, sum_sub_distrib]

/-- Pairs whose larger index is not below `m` may be left out if nothing comes from them. -/
theorem pairSum_of_le {m n : ℕ} (hmn : m ≤ n) {g : ℕ → ℕ → ℚ} (h : ∀ c d, m ≤ d → g c d = 0) :
    pairSum n g = pairSum m g := by
  induction n, hmn using Nat.le_induction with
  | base => rfl
  | succ n hmn ih =>
    rw [pairSum_succ, ih, sum_eq_zero fun c _ => h c n hmn, add_zero]

/-- The pairs can be counted from the other end. -/
theorem pairSum_reflect (n : ℕ) (g : ℕ → ℕ → ℚ) :
    pairSum n g = pairSum n fun c d => g (n - 1 - d) (n - 1 - c) := by
  have hsquare : ∀ g : ℕ → ℕ → ℚ,
      pairSum n g = ∑ d ∈ range n, ∑ c ∈ range n, if c < d then g c d else 0 := by
    intro g
    refine sum_congr rfl fun d hd => ?_
    rw [← sum_filter]
    refine sum_congr ?_ fun _ _ => rfl
    ext c
    rw [mem_range] at hd
    simp only [mem_range, mem_filter]
    omega
  rw [hsquare, hsquare, ← sum_range_reflect, sum_comm, ← sum_range_reflect]
  refine sum_congr rfl fun c hc => sum_congr rfl fun d hd => ?_
  rw [mem_range] at hc hd
  by_cases hcd : d < c
  · rw [if_pos (by omega), if_pos hcd]
  · rw [if_neg (by omega), if_neg hcd]

/-! ### Facing trees -/

section Row

variable (ts : List (Tree ℚ))

/-- The tree at an index reaches a level below its root. -/
def Reaches (k j : ℕ) : Prop := ∃ t : Tree ℚ, ts[j]? = some t ∧ t.level (k + 1) ≠ []

/-- The first place of a level of the tree at an index. -/
def firstAt (k j : ℕ) : ℚ := (ts[j]?.bind fun t => (t.level (k + 1)).head?).getD 0

/-- The last place of a level of the tree at an index. -/
def lastAt (k j : ℕ) : ℚ := (ts[j]?.bind fun t => (t.level (k + 1)).getLast?).getD 0

/-- Two trees reach a level, and none between them does. -/
structure Facing (k a b : ℕ) : Prop where
  lt : a < b
  left : Reaches ts k a
  right : Reaches ts k b
  between : ∀ c, a < c → c < b → ¬Reaches ts k c

open Classical in
/-- What is missing between two trees on a level if they stand so far from each other. -/
noncomputable def lackAt (k a b : ℕ) (distance : ℚ) : ℚ :=
  if Facing ts k a b then max 0 (lastAt ts k a - firstAt ts k b + 2 - distance) else 0

/-- The distance of two trees that the levels above a level ask for. -/
noncomputable def span : ℕ → ℕ → ℕ → ℚ
  | 0, a, b => b - a
  | k + 1, a, b =>
    span k a b + pairSum (b + 1) fun c d => if a ≤ c then lackAt ts k c d (span k c d) else 0

/-- What a level asks for beyond that. -/
noncomputable def thrust (k a b : ℕ) : ℚ := lackAt ts k a b (span ts k a b)

variable {ts}

/-- A tree that reaches a level reaches those above. -/
theorem Reaches.mono {i k j : ℕ} (h : Reaches ts k j) (hik : i ≤ k) : Reaches ts i j := by
  obtain ⟨t, ht, hne⟩ := h
  obtain ⟨x, hx⟩ := List.exists_mem_of_ne_nil _ hne
  obtain ⟨y, hy⟩ := Tree.exists_mem_level (Nat.succ_le_succ hik) hx
  exact ⟨t, ht, List.ne_nil_of_mem hy⟩

theorem thrust_eq_zero {k a b : ℕ} (h : ¬Facing ts k a b) : thrust ts k a b = 0 := if_neg h

theorem thrust_of_facing {k a b : ℕ} (h : Facing ts k a b) :
    thrust ts k a b = max 0 (lastAt ts k a - firstAt ts k b + 2 - span ts k a b) := if_pos h

/-- The levels above a level, one after the other. -/
theorem span_eq (k a b : ℕ) :
    span ts k a b = (b : ℚ) - a +
      pairSum (b + 1) fun c d => if a ≤ c then ∑ i ∈ range k, thrust ts i c d else 0 := by
  induction k generalizing a b with
  | zero => simp [span, pairSum]
  | succ k ih =>
    rw [span, ih, add_assoc, ← pairSum_add]
    congr 1
    refine pairSum_congr fun c d _ _ => ?_
    split
    · rw [sum_range_succ, thrust]
    · exact add_zero 0

/-! ### Where the trees stand -/

/-- The part of a thrust from `a` to `b` by which the tree at `j` is moved. -/
def ramp (a b j : ℕ) : ℚ := if j ≤ a then 0 else if b ≤ j then 1 else ((j : ℚ) - a) / ((b : ℚ) - a)

variable (ts)

/-- What all levels above `height` ask for between two trees. -/
noncomputable def force (height a b : ℕ) : ℚ := ∑ i ∈ range height, thrust ts i a b

/-- Where the tree at `j` stands in the row of the first `m` trees. -/
noncomputable def place (height m j : ℕ) : ℚ :=
  j + pairSum m fun c d => force ts height c d * ramp c d j

/-- No tree reaches the level `height`. -/
def Below (height : ℕ) : Prop := ∀ k j, Reaches ts k j → k < height

variable {ts}

theorem place_succ (height m j : ℕ) :
    place ts height (m + 1) j =
      place ts height m j + ∑ c ∈ range m, force ts height c m * ramp c m j := by
  rw [place, pairSum_succ, ← add_assoc]
  rfl

/-- The last tree is moved by all thrusts. -/
theorem place_last {height m : ℕ} :
    place ts height (m + 1) m = (m : ℚ) + pairSum (m + 1) (force ts height) := by
  rw [place]
  congr 1
  refine pairSum_congr fun c d hcd hd => ?_
  rw [ramp, if_neg (by omega), if_pos (by omega), mul_one]

/-- The first tree stands still. -/
theorem place_zero (height m : ℕ) : place ts height m 0 = 0 := by
  have hzero : pairSum m (fun c d => force ts height c d * ramp c d 0) = pairSum m fun _ _ => 0 := by
    refine pairSum_congr fun c d _ _ => ?_
    rw [ramp, if_pos (Nat.zero_le c), mul_zero]
  rw [place, hzero]
  simp [pairSum]

/-- **The distance that one more tree has to a tree that faces it**, before the level on which they face each
other is looked at, is the one that the levels above ask for. -/
theorem span_of_facing {height k a m : ℕ} (hbelow : Below ts height) (h : Facing ts k a (m + 1)) :
    span ts k a (m + 1) =
      place ts height (m + 1) m + 1 - place ts height (m + 1) a +
        ∑ i ∈ range k, ∑ c ∈ range (m + 1), thrust ts i c (m + 1) := by
  -- a tree that is further right than the facing one ends above this level
  have hshort : ∀ {i c d : ℕ}, a < d → d < m + 1 → k ≤ i → ¬Facing ts i c d := fun had hd hki hfacing =>
    h.between _ had hd (hfacing.right.mono hki)
  -- and no tree further left faces one that is further right
  have hcross : ∀ {i c d : ℕ}, c < a → a < d → d ≤ m + 1 → i ≤ k → ¬Facing ts i c d :=
    fun hca had hd hik hfacing => hfacing.between a hca had (h.left.mono hik)
  have hrow : pairSum (m + 1) (fun c d => if a ≤ c then ∑ i ∈ range k, thrust ts i c d else 0) =
      pairSum (m + 1) (force ts height) -
        pairSum (m + 1) fun c d => force ts height c d * ramp c d a := by
    rw [← pairSum_sub]
    refine pairSum_congr fun c d hcd hd => ?_
    by_cases hac : a ≤ c
    · have hforce : force ts height c d = ∑ i ∈ range k, thrust ts i c d := by
        refine (sum_subset (range_subset_range.mpr (hbelow k a h.left).le) fun i _ hi => ?_).symm
        rw [mem_range, not_lt] at hi
        exact thrust_eq_zero (hshort (by omega) hd hi)
      rw [if_pos hac, ramp, if_pos hac, mul_zero, sub_zero, hforce]
    · rw [if_neg hac, ramp, if_neg hac]
      by_cases hda : d ≤ a
      · rw [if_pos hda, mul_one, sub_self]
      · have hforce : force ts height c d = 0 := by
          refine sum_eq_zero fun i _ => thrust_eq_zero ?_
          rcases Nat.le_total i k with hik | hki
          · exact hcross (by omega) (by omega) (by omega) hik
          · exact hshort (by omega) hd hki
        rw [hforce, zero_mul, sub_zero]
  have hnew : (∑ c ∈ range (m + 1), if a ≤ c then ∑ i ∈ range k, thrust ts i c (m + 1) else 0) =
      ∑ i ∈ range k, ∑ c ∈ range (m + 1), thrust ts i c (m + 1) := by
    rw [sum_comm]
    refine sum_congr rfl fun c _ => ?_
    split
    · rfl
    · refine (sum_eq_zero fun i hi => thrust_eq_zero ?_).symm
      exact hcross (by omega) h.lt le_rfl (mem_range.mp hi).le
  rw [span_eq, pairSum_succ, hrow, hnew, place_last, place]
  push_cast
  ring

/-- **What is missing between one more tree and the row.** -/
theorem thrusts_eq {height k a m : ℕ} (hbelow : Below ts height) (h : Facing ts k a (m + 1)) :
    thrust ts k a (m + 1) =
      max 0 (lastAt ts k a + place ts height (m + 1) a -
        (firstAt ts k (m + 1) + (place ts height (m + 1) m + 1) +
          ∑ i ∈ range k, ∑ c ∈ range (m + 1), thrust ts i c (m + 1)) + 2) := by
  rw [thrust_of_facing h, span_of_facing hbelow h]
  congr 1
  ring

/-- Only one tree of the row faces one more tree on a level. -/
theorem sum_thrust_of_facing {k a m : ℕ} (h : Facing ts k a m) (weight : ℕ → ℚ) :
    ∑ c ∈ range m, thrust ts k c m * weight c = thrust ts k a m * weight a := by
  refine sum_eq_single a (fun c hc hca => ?_) fun ha => absurd (mem_range.mpr h.lt) ha
  rw [thrust_eq_zero, zero_mul]
  intro hfacing
  rcases Nat.lt_or_gt_of_ne hca with hlt | hgt
  · exact hfacing.between a hlt h.lt h.left
  · exact h.between c hgt (mem_range.mp hc) hfacing.left

end Row

end FlowTree.Tidy
