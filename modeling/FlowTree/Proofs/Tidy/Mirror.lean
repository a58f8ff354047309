import FlowTree.Proofs.Mirror
import FlowTree.Proofs.Tidy.Closed

/-!
# Tidy trees and their mirror images

A tidy tree is drawn from left to right, but nothing in it tells so: the trees that face each other in a row
are those that face each other in its mirror image, they are thrust apart as far, and the parts of the trees in
between add up to the whole.

* **`Tidy.turned`** is the mirror image of a tree of places, **`Tidy.turnedRow`** that of a row of such trees.
* **`Tidy.span_turnedRow`** says that the levels above a level ask for the same distance from both sides,
  **`Tidy.place_turnedRow`** that the trees of a row stand as far from its one end as from the other.
* **`Tidy.breadths_mirror`** is the induction over the tree.
-/

namespace FlowTree.Tidy

open Finset

/-- The mirror image of a tree of places. -/
def turned (t : Tree ℚ) : Tree ℚ := t.mirror.map (- ·)

theorem turned_node (v : ℚ) (cs : List (Tree ℚ)) :
    turned (.node v cs) = .node (-v) (cs.map turned).reverse := by
  rw [turned, Tree.mirror_node, Tree.map_node, List.map_reverse, List.map_map]
  rfl

theorem level_turned (t : Tree ℚ) (k : ℕ) : (turned t).level k = ((t.level k).map (- ·)).reverse := by
  rw [turned, Tree.level_map, Tree.level_mirror, List.map_reverse]

theorem turned_shift (d : ℚ) (t : Tree ℚ) : turned (shift d t) = shift (-d) (turned t) := by
  rw [turned, turned, shift, shift, ← Tree.map_mirror, Tree.map_map, Tree.map_map]
  congr 1
  funext x
  exact neg_add x d

@[simp] theorem value_turned (t : Tree ℚ) : (turned t).value = -t.value := by
  rw [turned, Tree.value_map, Tree.value_mirror]

theorem height_turned (t : Tree ℚ) : (turned t).height = t.height := by
  rw [turned, Tree.height, Tree.levels_map, List.length_map, ← Tree.height, Tree.height_mirror]

theorem Beside.turned {a b : Tree ℚ} (h : Beside a b) : Beside (turned b) (turned a) := by
  refine ⟨?_, fun k x hx y hy => ?_⟩
  · have hroots := h.roots
    rw [value_turned, value_turned]
    linarith
  · rw [level_turned, List.mem_reverse, List.mem_map] at hx hy
    obtain ⟨x, hx, rfl⟩ := hx
    obtain ⟨y, hy, rfl⟩ := hy
    have hbelow := h.below k y hy x hx
    linarith

theorem Roomy.turned {t : Tree ℚ} (h : Roomy t) : Roomy (turned t) := by
  induction t with
  | node v cs ih =>
    cases h with
    | node hroomy hbeside =>
      rw [turned_node]
      refine Roomy.node (fun c hc => ?_) ?_
      · obtain ⟨d, hd, rfl⟩ := List.mem_map.mp (List.mem_reverse.mp hc)
        exact ih d hd (hroomy d hd)
      · rw [List.pairwise_reverse, List.pairwise_map]
        exact hbeside.imp Beside.turned

/-! ### Rows -/

section Row

variable (ts : List (Tree ℚ))

/-- The row seen from the other side. -/
def turnedRow : List (Tree ℚ) := (ts.map turned).reverse

variable {ts}

theorem getElem?_turnedRow {j : ℕ} (hj : j < ts.length) :
    (turnedRow ts)[j]? = ts[ts.length - 1 - j]?.map turned := by
  rw [turnedRow, List.getElem?_reverse (by rwa [List.length_map]), List.length_map, List.getElem?_map]

theorem reaches_turnedRow {k j : ℕ} (hj : j < ts.length) :
    Reaches (turnedRow ts) k j ↔ Reaches ts k (ts.length - 1 - j) := by
  have hlevel : ∀ t : Tree ℚ, (turned t).level (k + 1) ≠ [] ↔ t.level (k + 1) ≠ [] := fun t => by
    rw [level_turned, ne_eq, List.reverse_eq_nil_iff, List.map_eq_nil_iff]
  rw [Reaches, Reaches, getElem?_turnedRow hj]
  constructor
  · rintro ⟨s, hs, hne⟩
    obtain ⟨t, ht, rfl⟩ := Option.map_eq_some_iff.mp hs
    exact ⟨t, ht, (hlevel t).mp hne⟩
  · rintro ⟨t, ht, hne⟩
    exact ⟨turned t, by rw [ht]; rfl, (hlevel t).mpr hne⟩

theorem firstAt_turnedRow (k : ℕ) {j : ℕ} (hj : j < ts.length) :
    firstAt (turnedRow ts) k j = -lastAt ts k (ts.length - 1 - j) := by
  rw [firstAt, lastAt, getElem?_turnedRow hj]
  cases ts[ts.length - 1 - j]? with
  | none => exact neg_zero.symm
  | some t =>
    show (((turned t).level (k + 1)).head?).getD 0 = -((t.level (k + 1)).getLast?).getD 0
    rw [level_turned, List.head?_reverse, List.getLast?_map]
    cases (t.level (k + 1)).getLast? with
    | none => exact neg_zero.symm
    | some x => rfl

theorem lastAt_turnedRow (k : ℕ) {j : ℕ} (hj : j < ts.length) :
    lastAt (turnedRow ts) k j = -firstAt ts k (ts.length - 1 - j) := by
  rw [lastAt, firstAt, getElem?_turnedRow hj]
  cases ts[ts.length - 1 - j]? with
  | none => exact neg_zero.symm
  | some t =>
    show (((turned t).level (k + 1)).getLast?).getD 0 = -((t.level (k + 1)).head?).getD 0
    rw [level_turned, List.getLast?_reverse, List.head?_map]
    cases (t.level (k + 1)).head? with
    | none => exact neg_zero.symm
    | some x => rfl

/-- Trees that face each other do so from both sides. -/
theorem facing_turnedRow {k a b : ℕ} (hb : b < ts.length) (hab : a < b) :
    Facing (turnedRow ts) k a b ↔ Facing ts k (ts.length - 1 - b) (ts.length - 1 - a) := by
  constructor
  · intro h
    refine ⟨by omega, (reaches_turnedRow hb).mp h.right, (reaches_turnedRow (by omega)).mp h.left,
      fun c hc hc' hreach => ?_⟩
    refine h.between (ts.length - 1 - c) (by omega) (by omega) ((reaches_turnedRow (by omega)).mpr ?_)
    rwa [show ts.length - 1 - (ts.length - 1 - c) = c by omega]
  · intro h
    refine ⟨hab, (reaches_turnedRow (by omega)).mpr h.right, (reaches_turnedRow hb).mpr h.left,
      fun c hc hc' hreach => ?_⟩
    exact h.between (ts.length - 1 - c) (by omega) (by omega) ((reaches_turnedRow (by omega)).mp hreach)

theorem lackAt_turnedRow (k : ℕ) {a b : ℕ} (hb : b < ts.length) (hab : a < b) (distance : ℚ) :
    lackAt (turnedRow ts) k a b distance = lackAt ts k (ts.length - 1 - b) (ts.length - 1 - a) distance := by
  rw [lackAt, lackAt, firstAt_turnedRow k hb, lastAt_turnedRow k (by omega : a < ts.length)]
  by_cases h : Facing (turnedRow ts) k a b
  · rw [if_pos h, if_pos ((facing_turnedRow hb hab).mp h)]
    congr 1
    ring
  · rw [if_neg h, if_neg (mt (facing_turnedRow hb hab).mpr h)]

/-- The pairs within a stretch, counted among all pairs of the row. -/
theorem pairSum_stretch {n a b : ℕ} (hb : b < n) (g : ℕ → ℕ → ℚ) :
    pairSum (b + 1) (fun c d => if a ≤ c then g c d else 0) =
      pairSum n fun c d => if a ≤ c ∧ d ≤ b then g c d else 0 := by
  rw [pairSum_of_le (Nat.succ_le_of_lt hb) fun c d hd => if_neg fun h => by omega]
  refine pairSum_congr fun c d _ hd => ?_
  by_cases ha : a ≤ c
  · rw [if_pos ha, if_pos ⟨ha, by omega⟩]
  · rw [if_neg ha, if_neg fun h => ha h.1]

/-- **The levels above a level ask for the same distance from both sides.** -/
theorem span_turnedRow (k : ℕ) {a b : ℕ} (hb : b < ts.length) (hab : a < b) :
    span (turnedRow ts) k a b = span ts k (ts.length - 1 - b) (ts.length - 1 - a) := by
  induction k generalizing a b with
  | zero =>
    rw [span, span, Nat.sub_sub, Nat.sub_sub, Nat.cast_sub (by omega), Nat.cast_sub (by omega)]
    push_cast
    ring
  | succ k ih =>
    rw [span, span, ih hb hab, pairSum_stretch hb, pairSum_stretch (n := ts.length) (by omega), pairSum_reflect]
    congr 1
    refine pairSum_congr fun c d hcd hd => ?_
    by_cases h : ts.length - 1 - b ≤ c ∧ d ≤ ts.length - 1 - a
    · have hc : ts.length - 1 - (ts.length - 1 - c) = c := by omega
      have hd : ts.length - 1 - (ts.length - 1 - d) = d := by omega
      rw [if_pos h, if_pos (by omega), ih (by omega) (by omega), lackAt_turnedRow k (by omega) (by omega), hc, hd]
    · rw [if_neg h, if_neg (by omega)]

theorem force_turnedRow (height : ℕ) {a b : ℕ} (hb : b < ts.length) (hab : a < b) :
    force (turnedRow ts) height a b = force ts height (ts.length - 1 - b) (ts.length - 1 - a) := by
  refine sum_congr rfl fun k _ => ?_
  rw [thrust, thrust, lackAt_turnedRow k hb hab, span_turnedRow k hb hab]

/-- What a thrust moves on its one side it does not move on the other. -/
theorem ramp_reflect {n c d j : ℕ} (hcd : c < d) (hd : d < n) (hj : j < n) :
    ramp (n - 1 - d) (n - 1 - c) (n - 1 - j) = 1 - ramp c d j := by
  rw [ramp, ramp]
  by_cases hjc : j ≤ c
  · rw [if_neg (by omega), if_pos (by omega), if_pos hjc, sub_zero]
  · by_cases hdj : d ≤ j
    · rw [if_pos (by omega), if_neg hjc, if_pos hdj, sub_self]
    · have hpos : (0 : ℚ) < (d : ℚ) - c := by
        rw [sub_pos]
        exact_mod_cast hcd
      rw [if_neg (by omega), if_neg (by omega), if_neg hjc, if_neg hdj, Nat.sub_sub, Nat.sub_sub, Nat.sub_sub,
        Nat.cast_sub (by omega), Nat.cast_sub (by omega), Nat.cast_sub (by omega)]
      push_cast
      rw [sub_sub_sub_cancel_left, sub_sub_sub_cancel_left, add_sub_add_left_eq_sub, add_sub_add_left_eq_sub,
        eq_sub_iff_add_eq, ← add_div, sub_add_sub_cancel, div_self hpos.ne']

/-- **The trees of a row stand as far from its one end as from the other.** -/
theorem place_turnedRow (height : ℕ) {j : ℕ} (hj : j < ts.length) :
    place (turnedRow ts) height ts.length j =
      place ts height ts.length (ts.length - 1) - place ts height ts.length (ts.length - 1 - j) := by
  have hreflect : pairSum ts.length (fun c d => force (turnedRow ts) height c d * ramp c d j) =
      pairSum ts.length (force ts height) -
        pairSum ts.length fun c d => force ts height c d * ramp c d (ts.length - 1 - j) := by
    rw [pairSum_reflect, ← pairSum_sub]
    refine pairSum_congr fun c d hcd hd => ?_
    have hc : ts.length - 1 - (ts.length - 1 - c) = c := by omega
    have hd' : ts.length - 1 - (ts.length - 1 - d) = d := by omega
    have hj' : ts.length - 1 - (ts.length - 1 - j) = j := by omega
    have hramp := ramp_reflect hcd hd (by omega : ts.length - 1 - j < ts.length)
    rw [hj'] at hramp
    rw [force_turnedRow height (by omega) (by omega), hc, hd', hramp, mul_one_sub]
  have hlast : place ts height ts.length (ts.length - 1) =
      ((ts.length - 1 : ℕ) : ℚ) + pairSum ts.length (force ts height) := by
    obtain ⟨m, hm⟩ := Nat.exists_eq_succ_of_ne_zero (Nat.ne_zero_of_lt hj)
    rw [hm]
    exact place_last
  rw [hlast, place, place, hreflect, Nat.cast_sub (by omega : j ≤ ts.length - 1)]
  ring

theorem below_turnedRow {height : ℕ} (h : Below ts height) : Below (turnedRow ts) height := by
  intro k j hreach
  have hj : j < ts.length := by
    obtain ⟨t, ht, -⟩ := hreach
    have hlt := (List.getElem?_eq_some_iff.mp ht).1
    rwa [turnedRow, List.length_reverse, List.length_map] at hlt
  exact h k _ ((reaches_turnedRow hj).mp hreach)

end Row

/-- **The tidy tree of a mirror image** is the mirror image of the tidy tree. -/
theorem breadths_mirror {γ : Type} (t : Tree γ) : (breadths t.mirror : Tree ℚ) = turned (breadths t) := by
  induction t with
  | node v cs ih =>
    obtain ⟨height, hbelow⟩ := exists_below (cs.map breadths)
    have hrow : (cs.map Tree.mirror).reverse.map breadths = turnedRow (cs.map breadths) := by
      rw [turnedRow, List.map_reverse, List.map_map, List.map_map]
      congr 1
      exact List.map_congr_left ih
    have hlength : (cs.map (breadths (α := ℚ))).length = cs.length := List.length_map _
    have hplace : ∀ j < cs.length, place (turnedRow (cs.map breadths)) height cs.length j =
        place (cs.map breadths) height cs.length (cs.length - 1) -
          place (cs.map breadths) height cs.length (cs.length - 1 - j) := by
      intro j hj
      rw [← hlength] at hj ⊢
      exact place_turnedRow height hj
    rw [Tree.mirror_node, breadths_node _ _ (hrow ▸ below_turnedRow hbelow), breadths_node v cs hbelow, turned_node,
      neg_zero, hrow, List.length_reverse, List.length_map]
    congr 1
    apply List.ext_getElem?
    intro j
    rw [List.getElem?_mapIdx]
    rcases Nat.lt_or_ge j cs.length with hj | hj
    · have hshift : place (turnedRow (cs.map breadths)) height cs.length j -
          place (turnedRow (cs.map breadths)) height cs.length (cs.length - 1) / 2 =
          -(place (cs.map breadths) height cs.length (cs.length - 1 - j) -
            place (cs.map breadths) height cs.length (cs.length - 1) / 2) := by
        rw [hplace j hj, hplace _ (by omega), Nat.sub_self, place_zero]
        ring
      rw [getElem?_turnedRow (by rwa [hlength]), List.getElem?_reverse (by simpa using hj)]
      simp only [List.length_map, List.length_mapIdx, List.getElem?_map, List.getElem?_mapIdx, Option.map_map, hshift]
      congr 1
      funext c
      exact (turned_shift _ (breadths c)).symm
    · rw [List.getElem?_eq_none (by simpa [turnedRow] using hj), List.getElem?_eq_none (by simpa using hj)]
      rfl

end FlowTree.Tidy
