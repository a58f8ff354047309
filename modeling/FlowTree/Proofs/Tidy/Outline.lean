import FlowTree.Proofs.Tidy.Spread

/-!
# Walking down an outline

The nodes of an outline know their places only up to the sums of the modifiers above them.

* **`Tidy.walk`** lists the places along an outline; **`Tidy.endSum`** is the sum at its end.
* **`Tidy.walk_widenEnd`** says that a widened end leads on into another outline.
* **`Tidy.contact_spec`** says what a walk down facing outlines leaves, sums up and pushes from.
* **`Tidy.contact_clear`** says that after all pushes there is room on every level that both outlines
  reach, also beside siblings that get a part of the pushes.
-/

namespace FlowTree.Tidy

/-! ### Places along an outline -/

/-- The places of the nodes of an outline whose first node is moved by `m`. -/
def walk (m : ℚ) : Outline ℚ → List ℚ
  | [] => []
  | s :: below => (s.prelim + m) :: walk (m + s.modifier) below

/-- What the nodes after the end of an outline are moved by. -/
def endSum (m : ℚ) (o : Outline ℚ) : ℚ := m + (o.map (·.modifier)).sum

@[simp] theorem endSum_nil (m : ℚ) : endSum m [] = m := by simp [endSum]

theorem endSum_cons (m : ℚ) (s : Slot ℚ) (o : Outline ℚ) :
    endSum m (s :: o) = endSum (m + s.modifier) o := by
  simp only [endSum, List.map_cons, List.sum_cons, add_assoc]

theorem endSum_add (m d : ℚ) (o : Outline ℚ) : endSum (m + d) o = endSum m o + d := by
  simp only [endSum]
  ring

@[simp] theorem length_walk (m : ℚ) (o : Outline ℚ) : (walk m o).length = o.length := by
  induction o generalizing m with
  | nil => rfl
  | cons s o ih => rw [walk, List.length_cons, List.length_cons, ih]

theorem walk_append (m : ℚ) (o r : Outline ℚ) :
    walk m (o ++ r) = walk m o ++ walk (endSum m o) r := by
  induction o generalizing m with
  | nil => rw [endSum_nil]; rfl
  | cons s o ih => rw [List.cons_append, walk, walk, ih, endSum_cons, List.cons_append]

theorem walk_add (m d : ℚ) (o : Outline ℚ) : walk (m + d) o = (walk m o).map (· + d) := by
  induction o generalizing m with
  | nil => rfl
  | cons s o ih =>
    rw [walk, walk, List.map_cons, ← ih, add_right_comm m s.modifier d, add_assoc s.prelim m d]

/-- Walking the rest of an outline is the rest of the walk. -/
theorem walk_drop (m : ℚ) (o : Outline ℚ) (k : ℕ) :
    walk (endSum m (o.take k)) (o.drop k) = (walk m o).drop k := by
  conv_rhs => rw [← List.take_append_drop k o, walk_append]
  rcases Nat.le_total k o.length with hk | hk
  · rw [List.drop_left' (by rw [length_walk, List.length_take]; omega)]
  · rw [List.drop_eq_nil_of_le hk, walk, List.append_nil,
      List.drop_eq_nil_of_le (by rw [length_walk, List.length_take]; omega)]

theorem prelim_widenEnd (gap : ℚ) (top : Slot ℚ) (o : Outline ℚ) :
    (widenEnd gap top o).1.prelim = top.prelim := by
  cases o <;> rfl

theorem walk_widenEnd (gap : ℚ) (top : Slot ℚ) (o r : Outline ℚ) :
    walk (widenEnd gap top o).1.modifier ((widenEnd gap top o).2 ++ r) =
      walk top.modifier o ++ walk (endSum top.modifier o + gap) r := by
  induction o generalizing top with
  | nil => rw [endSum_nil]; rfl
  | cons s o ih =>
    show ((widenEnd gap s o).1.prelim + top.modifier)
        :: walk (top.modifier + (widenEnd gap s o).1.modifier) ((widenEnd gap s o).2 ++ r)
      = (s.prelim + top.modifier) :: walk (top.modifier + s.modifier) o
        ++ walk (endSum top.modifier (s :: o) + gap) r
    rw [prelim_widenEnd, add_comm top.modifier (widenEnd gap s o).1.modifier, walk_add, ih,
      List.map_append, ← walk_add, ← walk_add, endSum_cons, add_comm top.modifier s.modifier,
      endSum_add, add_right_comm (endSum s.modifier o) gap top.modifier, List.cons_append]

/-- Only the top of an empty outline is changed by widening its end. -/
theorem widenEnd_fst (gap : ℚ) (top : Slot ℚ) {o : Outline ℚ} (h : o ≠ []) :
    (widenEnd gap top o).1 = top := by
  cases o with
  | nil => exact absurd rfl h
  | cons s o => rfl

/-! ### Contact -/

/-- How far two facing nodes are from the room they need. -/
def overlap (a b : Slot ℚ) (sums : Sums ℚ) : ℚ :=
  a.prelim + sums.rowInner - b.prelim - sums.newInner + 2

/-- The sums one level further down, after a push by `p`. -/
def Sums.next (sums : Sums ℚ) (a b c d : Slot ℚ) (p : ℚ) : Sums ℚ where
  rowInner := sums.rowInner + a.modifier
  newInner := sums.newInner + p + b.modifier
  rowOuter := sums.rowOuter + c.modifier
  newOuter := sums.newOuter + p + d.modifier

theorem Sums.next_newInner (sums : Sums ℚ) (a b c d : Slot ℚ) (p : ℚ) :
    (sums.next a b c d p).newInner = sums.newInner + b.modifier + p :=
  add_right_comm _ _ _

theorem Sums.next_newOuter (sums : Sums ℚ) (a b c d : Slot ℚ) (p : ℚ) :
    (sums.next a b c d p).newOuter = sums.newOuter + d.modifier + p :=
  add_right_comm _ _ _

/-- The push that one level asks for. -/
def pushOf (owner : ℕ) (lack : ℚ) : List (ℕ × ℚ) := if 0 < lack then [(owner, lack)] else []

theorem contact_cons (owner : ℕ) (a b c d : Slot ℚ) (row : List (ℕ × Slot ℚ))
    (new rowOuter newOuter : Outline ℚ) (sums : Sums ℚ) :
    contact ((owner, a) :: row) (b :: new) (c :: rowOuter) (d :: newOuter) sums =
      let lack := overlap a b sums
      let rest := contact row new rowOuter newOuter (sums.next a b c d (total (pushOf owner lack)))
      { rest with pushes := pushOf owner lack ++ rest.pushes } := by
  have hlack : a.prelim + sums.rowInner - b.prelim - sums.newInner + cousinGap =
    overlap a b sums := rfl
  simp only [contact, hlack, Scalar.lt_rat, Scalar.zero_rat, pushOf, decide_eq_true_eq]
  by_cases h : 0 < overlap a b sums
  · simp [h, total, Sums.next]
  · simp [h, total, Sums.next]

theorem contact_nil (new rowOuter newOuter : Outline ℚ) (sums : Sums ℚ) :
    contact [] new rowOuter newOuter sums = ⟨[], sums, [], new, rowOuter, newOuter⟩ := rfl

theorem contact_nil_new (row : List (ℕ × Slot ℚ)) (rowOuter newOuter : Outline ℚ)
    (sums : Sums ℚ) :
    contact row [] rowOuter newOuter sums = ⟨[], sums, row, [], rowOuter, newOuter⟩ := by
  cases row <;> rfl

/-- What a walk down facing outlines comes to. -/
structure Contact.Spec (row : List (ℕ × Slot ℚ)) (new rowOuter newOuter : Outline ℚ)
    (sums : Sums ℚ) (c : Contact ℚ) : Prop where
  restRow : c.rowInner = row.drop new.length
  restNew : c.newInner = new.drop row.length
  restRowOuter : c.rowOuter = rowOuter.drop new.length
  restNewOuter : c.newOuter = newOuter.drop row.length
  sumRowInner : c.sums.rowInner = endSum sums.rowInner ((row.map (·.2)).take new.length)
  sumNewInner : c.sums.newInner = endSum sums.newInner (new.take row.length) + total c.pushes
  sumRowOuter : c.sums.rowOuter = endSum sums.rowOuter (rowOuter.take new.length)
  sumNewOuter : c.sums.newOuter = endSum sums.newOuter (newOuter.take row.length) + total c.pushes
  pushed : ∀ p ∈ c.pushes, 0 < p.2 ∧ ∃ i < new.length, ∃ q, row[i]? = some q ∧ q.1 = p.1

theorem shares_append (l r : List (ℕ × ℚ)) (index j : ℕ) :
    shares (l ++ r) index j = shares l index j + shares r index j := by
  rw [shares, List.map_append, List.sum_append, shares, shares]

theorem total_append (l r : List (ℕ × ℚ)) : total (l ++ r) = total l + total r := by
  rw [total, List.map_append, List.sum_append, total, total]

theorem mem_pushOf {owner : ℕ} {lack : ℚ} {p : ℕ × ℚ} (h : p ∈ pushOf owner lack) :
    0 < p.2 ∧ p.1 = owner := by
  unfold pushOf at h
  split at h
  · next hlack =>
    obtain rfl := List.mem_singleton.mp h
    exact ⟨hlack, rfl⟩
  · simp at h

theorem lack_le_total (owner : ℕ) (lack : ℚ) : lack ≤ total (pushOf owner lack) := by
  unfold pushOf
  split
  · simp [total]
  · next h => simpa [total] using h

theorem contact_spec {row : List (ℕ × Slot ℚ)} {new rowOuter newOuter : Outline ℚ}
    (hrow : rowOuter.length = row.length) (hnew : newOuter.length = new.length) (sums : Sums ℚ) :
    Contact.Spec row new rowOuter newOuter sums (contact row new rowOuter newOuter sums) := by
  induction row generalizing new rowOuter newOuter sums with
  | nil =>
    obtain rfl := List.eq_nil_of_length_eq_zero hrow
    rw [contact_nil]
    constructor <;> simp [total]
  | cons ra row ih =>
    obtain ⟨owner, a⟩ := ra
    cases new with
    | nil =>
      obtain rfl := List.eq_nil_of_length_eq_zero hnew
      rw [contact_nil_new]
      constructor <;> simp [total]
    | cons b new =>
      obtain ⟨c, rowOuter, rfl⟩ := List.exists_cons_of_length_eq_add_one hrow
      obtain ⟨d, newOuter, rfl⟩ := List.exists_cons_of_length_eq_add_one hnew
      have spec := ih (by simpa using hrow) (by simpa using hnew)
        (sums.next a b c d (total (pushOf owner (overlap a b sums))))
      rw [contact_cons]
      constructor
      · simpa using spec.restRow
      · simpa using spec.restNew
      · simpa using spec.restRowOuter
      · simpa using spec.restNewOuter
      · simpa [endSum_cons, Sums.next] using spec.sumRowInner
      · have h := spec.sumNewInner
        rw [Sums.next_newInner, endSum_add] at h
        simp only [h, total_append, List.length_cons, List.take_succ_cons, endSum_cons]
        ring
      · simpa [endSum_cons, Sums.next] using spec.sumRowOuter
      · have h := spec.sumNewOuter
        rw [Sums.next_newOuter, endSum_add] at h
        simp only [h, total_append, List.length_cons, List.take_succ_cons, endSum_cons]
        ring
      · intro p hp
        rcases List.mem_append.mp hp with hp | hp
        · obtain ⟨hpos, howner⟩ := mem_pushOf hp
          exact ⟨hpos, 0, by simp, (owner, a), rfl, howner.symm⟩
        · obtain ⟨hpos, i, hi, q, hq, hpq⟩ := spec.pushed p hp
          exact ⟨hpos, i + 1, by simpa using hi, q, hq, hpq⟩

/-- The longer one of two facing outlines goes on after the walk. -/
theorem Contact.Spec.deeper_eq {row : List (ℕ × Slot ℚ)} {new rowOuter newOuter : Outline ℚ}
    {sums : Sums ℚ} {c : Contact ℚ} (h : Contact.Spec row new rowOuter newOuter sums c)
    (hrow : rowOuter.length = row.length) (hnew : newOuter.length = new.length) :
    c.deeper =
      if new.length < row.length then .row (row.drop new.length)
      else if row.length < new.length then .new (new.drop row.length) else .neither := by
  have hempty {γ : Type} {l : List γ} {k : ℕ} (hk : l.length ≤ k) : l.drop k = [] :=
    List.drop_eq_nil_of_le hk
  rcases Nat.lt_trichotomy new.length row.length with hlt | heq | hgt
  · rw [if_pos hlt, Contact.deeper, h.restRow, h.restNew, h.restNewOuter, hempty (l := new) hlt.le,
      hempty (l := newOuter) (by omega), List.drop_eq_getElem_cons hlt]
    rfl
  · rw [if_neg (by omega), if_neg (by omega), Contact.deeper, h.restRow, h.restNew,
      hempty (l := row) (by omega), hempty (l := new) (by omega)]
  · rw [if_neg (by omega), if_pos hgt, Contact.deeper, h.restRow, h.restNew, h.restRowOuter,
      hempty (l := row) hgt.le, hempty (l := rowOuter) (by omega), List.drop_eq_getElem_cons hgt]
    rfl

/-- **After all pushes there is room.**  On a level that both outlines reach, the new subtree stands
two units to the right of the row, even if the row itself is moved by what the sibling at `j` gets of
the pushes, provided that no node down to that level belongs to a sibling before `j`. -/
theorem contact_clear {index j k : ℕ} {row : List (ℕ × Slot ℚ)} {new rowOuter newOuter : Outline ℚ}
    (hrow : rowOuter.length = row.length) (hnew : newOuter.length = new.length) (sums : Sums ℚ)
    (howner : ∀ i ≤ k, ∀ q, row[i]? = some q → j ≤ q.1) {x y : ℚ}
    (hx : (walk sums.rowInner (row.map (·.2)))[k]? = some x)
    (hy : (walk sums.newInner new)[k]? = some y) :
    x + 2 + shares (contact row new rowOuter newOuter sums).pushes index j ≤
      y + total (contact row new rowOuter newOuter sums).pushes := by
  induction row generalizing new rowOuter newOuter sums k y with
  | nil => simp [walk] at hx
  | cons ra row ih =>
    obtain ⟨owner, a⟩ := ra
    cases new with
    | nil => simp [walk] at hy
    | cons b new =>
      obtain ⟨c, rowOuter, rfl⟩ := List.exists_cons_of_length_eq_add_one hrow
      obtain ⟨d, newOuter, rfl⟩ := List.exists_cons_of_length_eq_add_one hnew
      have hrow' : rowOuter.length = row.length := by simpa using hrow
      have hnew' : newOuter.length = new.length := by simpa using hnew
      have hjowner : j ≤ owner := howner 0 (Nat.zero_le k) (owner, a) rfl
      have hfirst : shares (pushOf owner (overlap a b sums)) index j = 0 :=
        shares_eq_zero (fun p hp => (mem_pushOf hp).2 ▸ hjowner) index
      rw [contact_cons]
      simp only [shares_append, total_append, hfirst, zero_add]
      have hpushed : ∀ p ∈ (contact row new rowOuter newOuter
          (sums.next a b c d (total (pushOf owner (overlap a b sums))))).pushes, 0 ≤ p.2 :=
        fun p hp => ((contact_spec hrow' hnew' _).pushed p hp).1.le
      cases k with
      | zero =>
        -- the push of this level makes room, and no later one takes any of it back
        have hrest := shares_le_total hpushed index j
        have hgap := lack_le_total owner (overlap a b sums)
        have hlack : overlap a b sums =
          a.prelim + sums.rowInner - b.prelim - sums.newInner + 2 := rfl
        simp only [List.map_cons, walk, List.getElem?_cons_zero, Option.some.injEq] at hx hy
        linarith
      | succ k =>
        -- further down the new outline has been moved by the push of this level
        have hy' : (walk (sums.next a b c d (total (pushOf owner (overlap a b sums)))).newInner
            new)[k]? = some (y + total (pushOf owner (overlap a b sums))) := by
          rw [Sums.next_newInner, walk_add, List.getElem?_map]
          rw [walk, List.getElem?_cons_succ] at hy
          rw [hy]
          rfl
        have hrest := ih hrow' hnew' _ (fun i hi q hq => howner (i + 1) (by omega) q hq) hx hy'
        linarith

end FlowTree.Tidy
