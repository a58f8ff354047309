import FlowTree.Proofs.Tidy.Edge
import FlowTree.Proofs.Tidy.Thrust
import Mathlib.Algebra.BigOperators.Ring.Finset

/-!
# Where the subtrees of a row stand

Row by row, the walks down facing outlines and the sweeps over siblings come to the places that the thrusts
between the subtrees ask for.

* **`Tidy.sum_pushes`** adds up the pushes of a walk, each with a weight for the sibling that it starts from.
* **`Tidy.Laid`** says that the first subtrees of a row stand at their places, **`Tidy.Laid.add`** that one more
  subtree keeps it so.
* **`Tidy.breadths_node`** is the tidy tree of a node from those of its children.
-/

namespace FlowTree.Tidy

open Finset

/-! ### Pushes -/

theorem pushOf_sum (owner : ℕ) (lack : ℚ) (weight : ℕ → ℚ) :
    ((pushOf owner lack).map fun p => p.2 * weight p.1).sum = max 0 lack * weight owner := by
  unfold pushOf
  split
  · next h => rw [List.map_singleton, List.sum_singleton, max_eq_right h.le]
  · next h => rw [List.map_nil, List.sum_nil, max_eq_left (not_lt.mp h), zero_mul]

theorem total_pushOf (owner : ℕ) (lack : ℚ) : total (pushOf owner lack) = max 0 lack := by
  have hsum := pushOf_sum owner lack fun _ => 1
  rw [mul_one] at hsum
  rw [← hsum]
  simp only [total, mul_one]

/-- **The pushes of a walk.**  If each level finds missing what the pushes of the levels above have left, the
pushes add up to what all levels find missing. -/
theorem sum_pushes {row : List (ℕ × Slot ℚ)} {new rowOuter newOuter : Outline ℚ}
    (hrow : rowOuter.length = row.length) (hnew : newOuter.length = new.length) (sums : Sums ℚ)
    (missing weighted weight : ℕ → ℚ)
    (hmissing : ∀ (k : ℕ) (x y : ℚ), (walk sums.rowInner (row.map (·.2)))[k]? = some x →
      (walk sums.newInner new)[k]? = some y →
      missing k = max 0 (x - (y + ∑ i ∈ range k, missing i) + 2))
    (hweighted : ∀ (k : ℕ) (q : ℕ × Slot ℚ), row[k]? = some q → k < new.length →
      weighted k = missing k * weight q.1) :
    ((contact row new rowOuter newOuter sums).pushes.map fun p => p.2 * weight p.1).sum =
      ∑ k ∈ range (min row.length new.length), weighted k := by
  induction row generalizing new rowOuter newOuter sums missing weighted with
  | nil => simp [contact_nil]
  | cons ra row ih =>
    obtain ⟨owner, a⟩ := ra
    cases new with
    | nil => simp [contact_nil_new]
    | cons b new =>
      obtain ⟨c, rowOuter, rfl⟩ := List.exists_cons_of_length_eq_add_one hrow
      obtain ⟨d, newOuter, rfl⟩ := List.exists_cons_of_length_eq_add_one hnew
      have hfirst : missing 0 = max 0 (overlap a b sums) := by
        rw [hmissing 0 _ _ rfl rfl, sum_range_zero, add_zero, overlap]
        congr 1
        ring
      have hrest := ih (by simpa using hrow) (by simpa using hnew)
        (sums.next a b c d (total (pushOf owner (overlap a b sums)))) (fun k => missing (k + 1))
        (fun k => weighted (k + 1)) ?_ ?_
      · rw [contact_cons]
        simp only [List.map_append, List.sum_append, hrest, pushOf_sum, List.length_cons]
        rw [Nat.add_min_add_right, sum_range_succ', ← hfirst, add_comm,
          hweighted 0 (owner, a) rfl (Nat.succ_pos _)]
      · intro k x y hx hy
        rw [Sums.next_newInner, walk_add, List.getElem?_map, Option.map_eq_some_iff] at hy
        obtain ⟨y, hy, rfl⟩ := hy
        rw [hmissing (k + 1) x y hx hy, sum_range_succ', hfirst, total_pushOf]
        congr 1
        ring
      · intro k q hq hk
        exact hweighted (k + 1) q hq (Nat.succ_lt_succ hk)

/-! ### The tidy tree of a node -/

/-- The middle between the roots of the first and of the last tree of a row. -/
def midway (row : List (Tree ℚ)) : ℚ :=
  ((row.head?.map Tree.value).getD 0 + (row.getLast?.map Tree.value).getD 0) / 2

/-- The places below a root are those of the row around its middle. -/
theorem Forest.places_crown {f : Forest ℚ} (hf : f.Sound) (beside : Option ℚ) :
    (f.crown beside).figure.places =
      shift (f.crown beside).slot.prelim (.node 0 (f.row.map (shift (-midway f.row)))) := by
  rcases crown_eq hf beside with ⟨hnil, hleaf⟩ | ⟨oldest, youngest, slot, ho, hy, hslot, habove⟩
  · have hrow : f.row = [] := List.eq_nil_of_length_eq_zero (by rw [length_row, hnil]; rfl)
    rw [hleaf, hrow, Drawn.figure, Figure.places_eq, shift_node, zero_add]
    rfl
  · have hmidway : midway f.row = slot.prelim - slot.modifier := by
      rw [midway, hf.head?_row (head?_figures ho), getLast?_row (getLast?_figures hy), hslot]
      show (oldest.figure.places.value + youngest.figure.places.value) / 2 = _
      rw [Figure.value_places, Figure.value_places]
      rfl
    rw [habove, Drawn.figure, above, places_above, hmidway, shift_node, shift_node, List.map_map]
    congr 1
    · ring
    · refine List.map_congr_left fun t _ => ?_
      rw [Function.comp, shift_shift]
      congr 1
      ring

/-- **The tidy tree of a node** is the row of its children around its middle. -/
theorem breadths_node_row {γ : Type} (v : γ) (cs : List (Tree γ)) :
    breadths (.node v cs) = .node 0 ((rowOf cs).row.map (shift (-midway (rowOf cs).row))) := by
  have hcrown := Forest.places_crown (sound_rowOf cs) none
  rw [breadths_eq, draw_node, ← rowOf, hcrown, shift_shift, add_neg_cancel, shift_zero]

/-- What is drawn is the tidy tree, moved as a whole. -/
theorem places_draw {γ : Type} (t : Tree γ) (beside : Option ℚ) :
    (draw t beside).figure.places = shift (draw t beside).slot.prelim (breadths t) := by
  cases t with
  | node v cs =>
    rw [breadths_node_row, draw_node]
    exact Forest.places_crown (sound_rowOf cs) beside

theorem value_breadths {γ : Type} (t : Tree γ) : (breadths t : Tree ℚ).value = 0 := by
  cases t with
  | node v cs =>
    rw [breadths_node_row]
    rfl

/-! ### Rows that stand at their places -/

section Row

variable {ts row : List (Tree ℚ)} {height m : ℕ} {base : ℚ}

theorem firstAt_eq {k j : ℕ} {t : Tree ℚ} {x : ℚ} (ht : ts[j]? = some t)
    (hx : (t.level (k + 1)).head? = some x) : firstAt ts k j = x := by
  rw [firstAt, ht, Option.bind_some, hx]
  rfl

theorem lastAt_eq {k j : ℕ} {t : Tree ℚ} {x : ℚ} (ht : ts[j]? = some t)
    (hx : (t.level (k + 1)).getLast? = some x) : lastAt ts k j = x := by
  rw [lastAt, ht, Option.bind_some, hx]
  rfl

/-- A row of the first `m` trees, each at its place. -/
def Laid (ts : List (Tree ℚ)) (height m : ℕ) (base : ℚ) (row : List (Tree ℚ)) : Prop :=
  row = (ts.take m).mapIdx fun j t => shift (base + place ts height m j) t

theorem Laid.getElem? (h : Laid ts height m base row) {j : ℕ} (hj : j < m) :
    row[j]? = ts[j]?.map (shift (base + place ts height m j)) := by
  rw [h, List.getElem?_mapIdx, List.getElem?_take, if_pos hj]

theorem Laid.exists_of_getElem? (h : Laid ts height m base row) {j : ℕ} {s : Tree ℚ} (hs : row[j]? = some s) :
    j < m ∧ ∃ t : Tree ℚ, ts[j]? = some t ∧ s = shift (base + place ts height m j) t := by
  have hj : j < m := by
    have hlt := (List.getElem?_eq_some_iff.mp hs).1
    rw [h, List.length_mapIdx, List.length_take] at hlt
    omega
  rw [h.getElem? hj] at hs
  obtain ⟨t, ht, hshift⟩ := Option.map_eq_some_iff.mp hs
  exact ⟨hj, t, ht, hshift.symm⟩

/-- A tree reaches the levels that it reaches at its place. -/
theorem Laid.reaches_iff (h : Laid ts height m base row) {k j : ℕ} (hj : j < m) :
    Reaches ts k j ↔ Reaches row k j := by
  rw [Reaches, Reaches, h.getElem? hj]
  constructor
  · rintro ⟨t, ht, hne⟩
    refine ⟨_, by rw [ht]; rfl, ?_⟩
    rw [level_shift, ne_eq, List.map_eq_nil_iff]
    exact hne
  · rintro ⟨s, hs, hne⟩
    obtain ⟨t, ht, rfl⟩ := Option.map_eq_some_iff.mp hs
    rw [level_shift, ne_eq, List.map_eq_nil_iff] at hne
    exact ⟨t, ht, hne⟩

theorem Laid.length (h : Laid ts height m base row) (hm : m ≤ ts.length) : row.length = m := by
  rw [h, List.length_mapIdx, List.length_take, Nat.min_eq_left hm]

variable {f : Forest ℚ} {d : Drawn ℚ} {t : Tree ℚ}

/-- **Facing outlines.**  On each level that both reach, one more tree faces the tree of the row below which
the right outline lies, and the outlines show the last place of the one and the first place of the other. -/
theorem Laid.facing (hl : Laid ts height m base f.row) (hf : f.Sound) (he : f.Exact) (hd : d.Exact)
    (ht : ts[m]? = some t) (hplaces : d.figure.places = shift d.slot.prelim t) {k : ℕ} {q : ℕ × ℚ} {y : ℚ}
    (hq : f.rightPlaces[k]? = some q) (hy : (walk d.slot.modifier d.left)[k]? = some y) :
    Facing ts k q.1 m ∧ q.2 = lastAt ts k q.1 + (base + place ts height m q.1) ∧
      y = firstAt ts k m + d.slot.prelim := by
  obtain ⟨s, hs, hlast⟩ := Rimmed.right he k q hq
  obtain ⟨hlt, t', ht', rfl⟩ := hl.exists_of_getElem? hs
  rw [level_shift, List.getLast?_map] at hlast
  obtain ⟨x, hx, hxq⟩ := Option.map_eq_some_iff.mp hlast
  have hfirst : (t.level (k + 1)).head?.map (· + d.slot.prelim) = some y := by
    rw [← List.head?_map, ← level_shift, ← hplaces, ← Edged.left hd, hy]
  obtain ⟨y', hy', hyy⟩ := Option.map_eq_some_iff.mp hfirst
  refine ⟨⟨hlt, ⟨t', ht', List.ne_nil_of_mem (List.mem_of_getLast? hx)⟩,
    ⟨t, ht, List.ne_nil_of_mem (List.mem_of_head? hy')⟩, fun c hqc hcm hreach => ?_⟩, ?_, ?_⟩
  · -- the right outline would lie below the tree in between
    obtain ⟨s, hs, hne⟩ := (hl.reaches_iff hcm).mp hreach
    obtain ⟨z, hz⟩ := List.exists_mem_of_ne_nil _ hne
    exact absurd (hf.framed.owner_le hs hz k le_rfl q hq) (not_le.mpr hqc)
  · rw [lastAt_eq ht' hx, ← hxq]
  · rw [firstAt_eq ht hy', ← hyy]

/-- Whatever tree of the row one more tree faces, both outlines reach the level. -/
theorem Laid.lt_of_facing (hl : Laid ts height m base f.row) (hf : f.Sound) (hd : d.Sound) (ht : ts[m]? = some t)
    (hplaces : d.figure.places = shift d.slot.prelim t) {k c : ℕ} (h : Facing ts k c m) :
    k < min f.right.length d.left.length := by
  obtain ⟨s, hs, hne⟩ := (hl.reaches_iff h.lt).mp h.left
  obtain ⟨x, hx⟩ := List.exists_mem_of_ne_nil _ hne
  obtain ⟨q, hq, -⟩ := hf.framed.le_right c s hs k x hx
  obtain ⟨t', ht', hne'⟩ := h.right
  obtain rfl := Option.some.inj (ht.symm.trans ht')
  obtain ⟨y, hy⟩ := List.exists_mem_of_ne_nil _ hne'
  obtain ⟨l, hl', -⟩ := Outlined.left_le hd k (y + d.slot.prelim) (by
    rw [hplaces, level_shift]
    exact List.mem_map_of_mem hy)
  have hright := (List.getElem?_eq_some_iff.mp hq).1
  have hleft := (List.getElem?_eq_some_iff.mp hl').1
  rw [Forest.length_rightPlaces] at hright
  rw [length_walk] at hleft
  exact lt_min hright hleft

section Meeting

variable (hl : Laid ts height m base f.row) (hf : f.Sound) (he : f.Exact) (hde : d.Exact) (ht : ts[m]? = some t)
  (hplaces : d.figure.places = shift d.slot.prelim t) {youngest : Sibling ℚ}
  (hy : f.siblings.getLast? = some youngest)
include hl hf he hde ht hplaces hy

/-- The right outline is found by walking down from the youngest tree of the row. -/
theorem Laid.facing_youngest {k : ℕ} {q : ℕ × Slot ℚ} {x y : ℚ} (hq : f.right[k]? = some q)
    (hx : (walk youngest.modifier (f.right.map (·.2)))[k]? = some x)
    (hy' : (walk d.slot.modifier d.left)[k]? = some y) :
    Facing ts k q.1 m ∧ x = lastAt ts k q.1 + (base + place ts height m q.1) ∧
      y = firstAt ts k m + d.slot.prelim := by
  refine hl.facing hf he hde ht hplaces (q := (q.1, x)) ?_ hy'
  rw [Forest.rightPlaces_eq (Forest.getLast?_figures hy), List.getElem?_zip_eq_some, List.getElem?_map, hq]
  exact ⟨rfl, hx⟩

/-- The outlines face each other on no more levels than there are. -/
theorem Laid.min_length_le (hbelow : Below ts height) : min f.right.length d.left.length ≤ height := by
  by_contra hlt
  rw [not_le, lt_min_iff] at hlt
  have hx : height < (walk youngest.modifier (f.right.map (·.2))).length := by
    rw [length_walk, List.length_map]
    exact hlt.1
  have hy' : height < (walk d.slot.modifier d.left).length := by
    rw [length_walk]
    exact hlt.2
  obtain ⟨hfacing, -⟩ := hl.facing_youngest hf he hde ht hplaces hy (List.getElem?_eq_getElem hlt.1)
    (List.getElem?_eq_getElem hx) (List.getElem?_eq_getElem hy')
  exact lt_irrefl _ (hbelow _ _ hfacing.left)

end Meeting

/-- **The pushes of one more tree** are its thrusts from the trees of the row. -/
theorem Laid.sum_meeting (hl : Laid ts height (m + 1) base f.row) (hf : f.Sound) (he : f.Exact) (hd : d.Sound)
    (hde : d.Exact) (hbelow : Below ts height) (ht : ts[m + 1]? = some t)
    (hplaces : d.figure.places = shift d.slot.prelim t)
    (hprelim : d.slot.prelim = base + place ts height (m + 1) m + 1) {youngest : Sibling ℚ}
    (hy : f.siblings.getLast? = some youngest) (oldest : Sibling ℚ) (weight : ℕ → ℚ) :
    ((f.meeting d oldest youngest).pushes.map fun p => p.2 * weight p.1).sum =
      ∑ c ∈ range (m + 1), force ts height c (m + 1) * weight c := by
  have hdepth := hl.min_length_le hf he hde ht hplaces hy hbelow
  have hforce : ∑ c ∈ range (m + 1), force ts height c (m + 1) * weight c =
      ∑ k ∈ range height, ∑ c ∈ range (m + 1), thrust ts k c (m + 1) * weight c := by
    simp only [force, sum_mul]
    exact sum_comm
  rw [Forest.meeting, hforce, sum_pushes hf.length_left hd.length _
    (fun k => ∑ c ∈ range (m + 1), thrust ts k c (m + 1))
    (fun k => ∑ c ∈ range (m + 1), thrust ts k c (m + 1) * weight c)]
  · refine sum_subset (range_subset_range.mpr hdepth) fun k _ hk => sum_eq_zero fun c _ => ?_
    rw [thrust_eq_zero, zero_mul]
    intro hfacing
    exact hk (mem_range.mpr (hl.lt_of_facing hf hd ht hplaces hfacing))
  · intro k x y hx hy'
    have hk : k < f.right.length := by
      have hlt := (List.getElem?_eq_some_iff.mp hx).1
      rwa [length_walk, List.length_map] at hlt
    obtain ⟨hfacing, hx', hy''⟩ := hl.facing_youngest hf he hde ht hplaces hy (List.getElem?_eq_getElem hk) hx hy'
    have hone := sum_thrust_of_facing hfacing fun _ => 1
    simp only [mul_one] at hone
    rw [hone, thrusts_eq hbelow hfacing, hx', hy'', hprelim]
    congr 1
    ring
  · intro k q hq hk
    have hx : k < (walk youngest.modifier (f.right.map (·.2))).length := by
      rw [length_walk, List.length_map]
      exact (List.getElem?_eq_some_iff.mp hq).1
    have hy' : k < (walk d.slot.modifier d.left).length := by rwa [length_walk]
    obtain ⟨hfacing, -⟩ := hl.facing_youngest hf he hde ht hplaces hy hq (List.getElem?_eq_getElem hx)
      (List.getElem?_eq_getElem hy')
    have hone := sum_thrust_of_facing hfacing fun _ => 1
    simp only [mul_one] at hone
    rw [hone, sum_thrust_of_facing hfacing]

theorem share_eq_ramp {a b j : ℕ} (hj : j < b) (d : ℚ) : share a b d j = d * ramp a b j := by
  rw [share, ramp]
  by_cases ha : j ≤ a
  · rw [if_neg (by omega), if_pos ha, mul_zero]
  · rw [if_pos ⟨by omega, hj⟩, if_neg ha, if_neg (by omega), mul_div_assoc]

/-- The youngest tree of the row stands at its place. -/
theorem Laid.youngest_prelim (hl : Laid ts height (m + 1) base f.row) (hzero : ∀ t ∈ ts, t.value = 0)
    (hlength : f.siblings.length = m + 1) {youngest : Sibling ℚ} (hy : f.siblings.getLast? = some youngest) :
    youngest.prelim = base + place ts height (m + 1) m := by
  have hlast := Forest.getLast?_row (Forest.getLast?_figures hy)
  rw [List.getLast?_eq_getElem?, Forest.length_row, hlength, Nat.add_sub_cancel] at hlast
  obtain ⟨-, t, ht, hshift⟩ := hl.exists_of_getElem? hlast
  rw [← zero_add (base + _), ← hzero t (List.mem_of_getElem? ht), ← value_shift, ← hshift]
  exact (Figure.value_places youngest.figure).symm

/-- One more tree stands one unit right of the last one and then all forces on it further. -/
theorem place_next (ts : List (Tree ℚ)) (height m : ℕ) :
    place ts height (m + 2) (m + 1) =
      place ts height (m + 1) m + 1 + ∑ c ∈ range (m + 1), force ts height c (m + 1) := by
  rw [place_last, place_last, pairSum_succ]
  push_cast
  ring

/-- **One more subtree** stands at its place, and the trees of the row still do. -/
theorem Laid.add (hl : Laid ts height (m + 1) base f.row) (hf : f.Sound) (he : f.Exact) (hd : d.Sound)
    (hde : d.Exact) (hbelow : Below ts height) (hzero : ∀ t ∈ ts, t.value = 0) (ht : ts[m + 1]? = some t)
    (hplaces : d.figure.places = shift d.slot.prelim t)
    (hroot : ∀ y, f.lastPrelim? = some y → d.slot.prelim = y + 1) : Laid ts height (m + 2) base (f.add d).row := by
  have hm := (List.getElem?_eq_some_iff.mp ht).1
  have hlength : f.siblings.length = m + 1 := by rw [← Forest.length_row, hl.length hm.le]
  have hne : f.siblings ≠ [] := List.ne_nil_of_length_eq_add_one hlength
  obtain ⟨oldest, ho⟩ : ∃ oldest, f.siblings.head? = some oldest := ⟨_, List.head?_eq_some_head hne⟩
  obtain ⟨youngest, hy⟩ : ∃ youngest, f.siblings.getLast? = some youngest :=
    ⟨_, List.getLast?_eq_some_getLast hne⟩
  have hprelim : d.slot.prelim = base + place ts height (m + 1) m + 1 := by
    rw [← hl.youngest_prelim hzero hlength hy]
    exact hroot _ (by rw [Forest.lastPrelim?, hy]; rfl)
  have hsum := hl.sum_meeting hf he hd hde hbelow ht hplaces hprelim hy oldest
  have hpart : ∀ j < m + 1, shares (f.meeting d oldest youngest).pushes f.siblings.length j =
      ∑ c ∈ range (m + 1), force ts height c (m + 1) * ramp c (m + 1) j := by
    intro j hj
    rw [← hsum, shares, hlength]
    exact congrArg List.sum (List.map_congr_left fun p _ => share_eq_ramp hj p.2)
  have hfar : total (f.meeting d oldest youngest).pushes =
      ∑ c ∈ range (m + 1), force ts height c (m + 1) := by
    have hone := hsum fun _ => 1
    simp only [mul_one] at hone
    exact hone
  rw [Laid, (Forest.add_added hf hd ho hy).row_eq (shares_self _ _), parted, hfar, hplaces, List.take_add_one, ht,
    Option.toList_some, List.mapIdx_append]
  congr 1
  · apply List.ext_getElem?
    intro j
    rw [List.getElem?_mapIdx, List.getElem?_mapIdx]
    rcases Nat.lt_or_ge j (m + 1) with hj | hj
    · rw [hl.getElem? hj, List.getElem?_take, if_pos hj, Option.map_map, hpart j hj]
      congr 1
      funext s
      rw [Function.comp, shift_shift, place_succ height (m + 1), add_assoc]
    · rw [List.getElem?_eq_none (by rw [hl.length hm.le]; exact hj), List.getElem?_eq_none]
      · rfl
      · rw [List.length_take]
        omega
  · rw [List.mapIdx_singleton, shift_shift, List.length_take, Nat.min_eq_left hm.le, zero_add, place_next, hprelim]
    congr 2
    ring

end Row

/-- **All subtrees of a row stand at their places.** -/
theorem laid_rowOf {γ : Type} (cs : List (Tree γ)) {height : ℕ} (hbelow : Below (cs.map breadths) height) :
    ∃ base : ℚ, Laid (cs.map breadths) height cs.length base (rowOf cs).row := by
  cases cs with
  | nil => exact ⟨0, rfl⟩
  | cons c cs =>
    have hzero : ∀ t ∈ (c :: cs).map breadths, (t : Tree ℚ).value = 0 := by
      intro t ht
      obtain ⟨c', -, rfl⟩ := List.mem_map.mp ht
      exact value_breadths c'
    -- the first `m + 1` subtrees, one after the other
    have hrow : ∀ m < (c :: cs).length, Laid ((c :: cs).map breadths) height (m + 1)
        (draw c none).slot.prelim (rowOf ((c :: cs).take (m + 1))).row := by
      intro m hm
      induction m with
      | zero =>
        have hadded := Forest.add_first (d := draw c none) Forest.sound_nil rfl
        have hone : rowOf ((c :: cs).take 1) = Forest.add {} (draw c none) := rfl
        rw [Laid, hone, hadded.row_eq rfl, parted, shift_zero, places_draw]
        show [shift _ _] = [shift (_ + place _ height 1 0) _]
        rw [place_zero, add_zero]
      | succ m ih =>
        have hget : (c :: cs)[m + 1]? = some (c :: cs)[m + 1] := List.getElem?_eq_getElem hm
        have hdrawn := draw_fits (c :: cs)[m + 1] (rowOf ((c :: cs).take (m + 1))).lastPrelim?
        rw [List.take_add_one, hget, Option.toList_some, rowOf_concat]
        refine (ih (by omega)).add (sound_rowOf _) (exact_rowOf _) hdrawn.sound (draw_exact _ _) hbelow hzero ?_
          (places_draw _ _) hdrawn.root
        rw [List.getElem?_map, hget]
        rfl
    have hall := hrow cs.length (Nat.lt_succ_self _)
    rw [← List.length_cons, List.take_length] at hall
    exact ⟨_, hall⟩

/-- Some level is not reached by any tree of a row. -/
theorem exists_below (ts : List (Tree ℚ)) : ∃ height, Below ts height := by
  refine ⟨(ts.map fun t => t.levels.length).sum, ?_⟩
  rintro k j ⟨t, ht, hne⟩
  have hlevels : k + 1 < t.levels.length := by
    by_contra hle
    exact hne (by rw [Tree.level, List.getElem?_eq_none (not_lt.mp hle)]; rfl)
  have hsum := List.single_le_sum (fun _ _ => Nat.zero_le _) _
    (List.mem_map_of_mem (f := fun t : Tree ℚ => t.levels.length) (List.mem_of_getElem? ht))
  exact (Nat.lt_of_succ_lt hlevels).trans_le hsum

/-- **The tidy tree of a node from those of its children.**  Each of them is moved to its place, seen from the
middle between the first and the last one. -/
theorem breadths_node {γ : Type} (v : γ) (cs : List (Tree γ)) {height : ℕ}
    (hbelow : Below (cs.map breadths) height) :
    (breadths (.node v cs) : Tree ℚ) = .node 0 ((cs.map breadths).mapIdx fun j t =>
      shift (place (cs.map breadths) height cs.length j -
        place (cs.map breadths) height cs.length (cs.length - 1) / 2) t) := by
  obtain ⟨base, hl⟩ := laid_rowOf cs hbelow
  rw [breadths_node_row]
  congr 1
  rcases Nat.eq_zero_or_pos cs.length with hnil | hpos
  · rw [List.length_eq_zero_iff.mp hnil]
    rfl
  · have hvalue : ∀ j < cs.length, ((rowOf cs).row[j]?.map Tree.value).getD 0 =
        base + place (cs.map breadths) height cs.length j := by
      intro j hj
      rw [hl.getElem? hj, List.getElem?_map, List.getElem?_eq_getElem hj]
      show (shift _ (breadths cs[j])).value = _
      rw [value_shift, value_breadths, zero_add]
    have hmidway : midway (rowOf cs).row =
        base + place (cs.map breadths) height cs.length (cs.length - 1) / 2 := by
      rw [midway, List.head?_eq_getElem?, List.getLast?_eq_getElem?, hl.length (by rw [List.length_map]),
        hvalue 0 hpos, hvalue _ (Nat.sub_lt hpos Nat.one_pos), place_zero]
      ring
    have htake : (cs.map breadths).take cs.length = (cs.map breadths : List (Tree ℚ)) :=
      List.take_of_length_le (by rw [List.length_map])
    rw [hmidway, hl, htake]
    apply List.ext_getElem?
    intro j
    rw [List.getElem?_map, List.getElem?_mapIdx, List.getElem?_mapIdx, Option.map_map]
    congr 1
    funext t
    rw [Function.comp, shift_shift]
    congr 1
    ring

end FlowTree.Tidy
