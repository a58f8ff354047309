import FlowTree.Proofs.Tidy.Spread
import FlowTree.Proofs.Arena.Checked

/-!
# Ramps

Any pushes among the siblings of a row may be recorded before one sweep carries them out, however they nest or
overlap.  Each of them is a ramp: nothing moves up to the sibling that it starts from, from there on every sibling
moves one step further than the one before, and the pushed sibling moves all the way.

* **`Tidy.Move`** is a push between two siblings, **`Tidy.moveAll`** records some pushes.
* **`Tidy.spread_moveAll`** says what the sweep adds, **`Tidy.map_figure_moveAll`** what has been moved before it.
* **`Move.lift`** is how far a push moves each sibling in the end; **`Tidy.map_figure_settled`** says that lifts add up.
* **`Move.Widens`** says what a push does to the gaps of a row, **`Tidy.widens_moveAll`** that each of some pushes
  does so, whatever is recorded before it and after it.
-/

namespace FlowTree.Tidy

/-- A push among `n` siblings: the one at `wide` moves by `shift` away from the older one at `fixed`. -/
structure Move (n : ℕ) where
  fixed : Fin n
  wide : Fin n
  lt : fixed < wide
  shift : ℚ

/-- The row after some pushes, recorded one after the other. -/
def moveAll {n : ℕ} (moves : List (Move n)) (row : List (Sibling ℚ)) : List (Sibling ℚ) :=
  moves.foldl (fun row m => moveSubtree m.fixed m.wide m.shift row) row

@[simp] theorem length_moveAll {n : ℕ} (moves : List (Move n)) (row : List (Sibling ℚ)) :
    (moveAll moves row).length = row.length := by
  induction moves generalizing row with
  | nil => rfl
  | cons m moves ih => rw [moveAll, List.foldl_cons, ← moveAll, ih, length_moveSubtree]

/-! ### What the sweep adds -/

/-- Without moves the sweep hands on nothing. -/
theorem sweep_of_still {l : List (Sibling ℚ)} (hl : ∀ s ∈ l, s.change = 0 ∧ s.shift = 0) :
    sway l = 0 ∧ pull l = 0 := by
  induction l with
  | nil => exact ⟨rfl, rfl⟩
  | cons s l ih =>
    obtain ⟨hsway, hpull⟩ := ih fun x hx => hl x (List.mem_cons_of_mem s hx)
    obtain ⟨hchange, hshift⟩ := hl s List.mem_cons_self
    rw [sway_cons, pull_cons, hsway, hpull, hchange, hshift]
    exact ⟨add_zero 0, by ring⟩

theorem pending_of_still {l : List (Sibling ℚ)} (hl : ∀ s ∈ l, s.change = 0 ∧ s.shift = 0) (k : ℕ) :
    pending l k = 0 :=
  (sweep_of_still fun s hs => hl s (List.mem_of_mem_drop hs)).2

variable {row : List (Sibling ℚ)}

/-- What the sweep will add are the shares of all pushes. -/
theorem pending_moveAll (hrow : ∀ s ∈ row, s.change = 0 ∧ s.shift = 0) (moves : List (Move row.length)) (k : ℕ) :
    pending (moveAll moves row) k = (moves.map fun m => share m.fixed m.wide m.shift k).sum := by
  have hadd : pending (moveAll moves row) k =
      pending row k + (moves.map fun m => share m.fixed m.wide m.shift k).sum :=
    pending_foldl (fun m : Move row.length => (m.fixed : ℕ)) (fun m => (m.wide : ℕ)) Move.shift
      (fun m _ => ⟨m.lt, m.wide.isLt⟩) k
  rw [hadd, pending_of_still hrow, zero_add]

/-- **The sweep adds the shares of all pushes** to the place of every sibling and to that of what hangs below. -/
theorem spread_moveAll (hrow : ∀ s ∈ row, s.change = 0 ∧ s.shift = 0) (moves : List (Move row.length)) :
    spread (moveAll moves row) = (moveAll moves row).mapIdx fun k s =>
      s.moveBy ((moves.map fun m => share m.fixed m.wide m.shift k).sum) := by
  rw [spread_eq_mapIdx]
  congr 1
  funext k s
  rw [pending_moveAll hrow]

/-! ### How far siblings are moved -/

namespace Move

variable {n : ℕ} (m : Move n)

/-- How far the sibling at `k` moves at once. -/
def jump (k : ℕ) : ℚ := if k = m.wide then m.shift else 0

/-- How far the sibling at `k` moves in the end. -/
def lift (k : ℕ) : ℚ := m.jump k + share m.fixed m.wide m.shift k

theorem width_pos : (0 : ℚ) < (m.wide : ℕ) - (m.fixed : ℕ) := by
  rw [sub_pos]
  exact_mod_cast m.lt

variable {m}

/-- The ramp rises from the sibling that the push starts from to the pushed one. -/
theorem lift_eq {k : ℕ} (hf : m.fixed ≤ k) (hw : k ≤ m.wide) :
    m.lift k = m.shift * (k - (m.fixed : ℕ)) / ((m.wide : ℕ) - (m.fixed : ℕ)) := by
  have hlt : (m.fixed : ℕ) < m.wide := m.lt
  have hpos := m.width_pos
  rw [lift, jump, share]
  rcases Nat.eq_or_lt_of_le hw with rfl | hkw
  · rw [if_pos rfl, if_neg (by omega), add_zero, mul_div_assoc, div_self hpos.ne', mul_one]
  · rw [if_neg (by omega), zero_add]
    rcases Nat.eq_or_lt_of_le hf with rfl | hfk
    · rw [if_neg (by omega), sub_self, mul_zero, zero_div]
    · rw [if_pos ⟨hfk, hkw⟩]

/-- Nothing moves up to the sibling that the push starts from. -/
theorem lift_of_le {k : ℕ} (h : k ≤ m.fixed) : m.lift k = 0 := by
  have hlt : (m.fixed : ℕ) < m.wide := m.lt
  rw [lift, jump, if_neg (by omega), share_eq_zero h, add_zero]

/-- Nor does anything beyond the pushed sibling. -/
theorem lift_of_lt {k : ℕ} (h : m.wide < k) : m.lift k = 0 := by
  rw [lift, jump, if_neg (by omega), share, if_neg (by omega), add_zero]

/-- All steps of the ramp are equal. -/
theorem lift_succ {k : ℕ} (hf : m.fixed ≤ k) (hw : k < m.wide) :
    m.lift (k + 1) = m.lift k + m.shift / ((m.wide : ℕ) - (m.fixed : ℕ)) := by
  rw [lift_eq (by omega) hw, lift_eq hf hw.le]
  push_cast
  ring

end Move

/-- What has been moved before the sweep are the pushed siblings. -/
theorem map_figure_moveAll {n : ℕ} (moves : List (Move n)) (row : List (Sibling ℚ)) :
    (moveAll moves row).map Sibling.figure =
      (row.map Sibling.figure).mapIdx fun k => moveFigure ((moves.map fun m => m.jump k).sum) := by
  induction moves generalizing row with
  | nil =>
    apply List.ext_getElem?
    intro k
    simp [moveAll, moveFigure_zero]
  | cons m moves ih =>
    rw [moveAll, List.foldl_cons, ← moveAll, ih, moveSubtree_eq, map_figure_note, map_figure_note, moveFigure_zero,
      List.modify_id, Checked.modify_eq_mapIdx, List.mapIdx_mapIdx]
    congr 1
    funext k x
    rw [List.map_cons, List.sum_cons, ← moveFigure_moveFigure, Move.jump]
    by_cases hk : k = m.wide
    · simp [hk]
    · simp [hk, moveFigure_zero]

/-- What the sweep moves. -/
theorem map_figure_spread (l : List (Sibling ℚ)) :
    (spread l).map Sibling.figure = (l.map Sibling.figure).mapIdx fun k => moveFigure (pending l k) := by
  apply List.ext_getElem?
  intro k
  rw [spread_eq_mapIdx, List.getElem?_map, List.getElem?_mapIdx, List.getElem?_mapIdx, List.getElem?_map,
    Option.map_map, Option.map_map]
  rfl

/-- **The lifts of all pushes add up.** -/
theorem map_figure_settled (hrow : ∀ s ∈ row, s.change = 0 ∧ s.shift = 0) (moves : List (Move row.length)) :
    (spread (moveAll moves row)).map Sibling.figure =
      (row.map Sibling.figure).mapIdx fun k => moveFigure ((moves.map fun m => m.lift k).sum) := by
  rw [map_figure_spread, map_figure_moveAll, List.mapIdx_mapIdx]
  congr 1
  funext k
  rw [pending_moveAll hrow, moveFigure_moveFigure, ← List.sum_map_add]
  rfl

/-! ### What one push does -/

/-- What a push does in the end: the siblings stand as in `row` without it and as in `row'` with it. -/
structure Move.Widens {n : ℕ} (m : Move n) (row row' : List (Sibling ℚ)) : Prop where
  /-- The sibling that it starts from and all older ones stay in place. -/
  older : ∀ k : ℕ, k ≤ m.fixed → row'[k]?.map Sibling.figure = row[k]?.map Sibling.figure
  /-- Every gap from there to the pushed sibling gets wider by the same step. -/
  between : ∀ k : ℕ, m.fixed ≤ k → k < m.wide → ∃ a b a' b', row[k]? = some a ∧ row[k + 1]? = some b ∧
    row'[k]? = some a' ∧ row'[k + 1]? = some b' ∧
      b'.prelim - a'.prelim = b.prelim - a.prelim + m.shift / ((m.wide : ℕ) - (m.fixed : ℕ)) ∧
      b'.modifier - a'.modifier = b.modifier - a.modifier + m.shift / ((m.wide : ℕ) - (m.fixed : ℕ))
  /-- Younger siblings than the pushed one stay in place. -/
  younger : ∀ k : ℕ, m.wide < k → row'[k]?.map Sibling.figure = row[k]?.map Sibling.figure

/-- A row that is lifted by a ramp. -/
theorem Move.widens_of_lift {n : ℕ} {m : Move n} {row row' : List (Sibling ℚ)} (hlength : row.length = n)
    (h : row'.map Sibling.figure = (row.map Sibling.figure).mapIdx fun k => moveFigure (m.lift k)) :
    m.Widens row row' := by
  have hfigure : ∀ k : ℕ, row'[k]?.map Sibling.figure =
      (row[k]?.map Sibling.figure).map (moveFigure (m.lift k)) := by
    intro k
    have hk := congrArg (·[k]?) h
    simpa only [List.getElem?_map, List.getElem?_mapIdx] using hk
  have hstay : ∀ k : ℕ, m.lift k = 0 → row'[k]?.map Sibling.figure = row[k]?.map Sibling.figure := by
    intro k hk
    rw [hfigure, hk, moveFigure_zero, Option.map_id_fun, id_eq]
  have hmoved : ∀ k : ℕ, k < n → ∃ a a', row[k]? = some a ∧ row'[k]? = some a' ∧
      a'.prelim = a.prelim + m.lift k ∧ a'.modifier = a.modifier + m.lift k := by
    intro k hk
    have ha := List.getElem?_eq_getElem (hlength ▸ hk : k < row.length)
    have ha' := hfigure k
    rw [ha, Option.map_some, Option.map_some, Option.map_eq_some_iff] at ha'
    obtain ⟨a', ha', hmove⟩ := ha'
    have hslot : a'.toSlot = row[k].toSlot.moveBy (m.lift k) := congrArg Prod.fst hmove
    exact ⟨row[k], a', ha, ha', congrArg Slot.prelim hslot, congrArg Slot.modifier hslot⟩
  refine ⟨fun k hk => hstay k (lift_of_le hk), fun k hf hw => ?_, fun k hk => hstay k (lift_of_lt hk)⟩
  have hn : (m.wide : ℕ) < n := m.wide.isLt
  obtain ⟨a, a', ha, ha', hprelim, hmodifier⟩ := hmoved k (by omega)
  obtain ⟨b, b', hb, hb', hprelim', hmodifier'⟩ := hmoved (k + 1) (by omega)
  refine ⟨a, b, a', b', ha, hb, ha', hb', ?_, ?_⟩
  · rw [hprelim, hprelim', lift_succ hf hw]
    ring
  · rw [hmodifier, hmodifier', lift_succ hf hw]
    ring

/-- **Every push widens the gaps evenly**, whatever else is recorded before it and after it. -/
theorem widens_moveAll (hrow : ∀ s ∈ row, s.change = 0 ∧ s.shift = 0) (before after : List (Move row.length))
    (m : Move row.length) :
    m.Widens (spread (moveAll (before ++ after) row)) (spread (moveAll (before ++ m :: after) row)) := by
  have hlength : (spread (moveAll (before ++ after) row)).length = row.length := by
    rw [spread_eq_mapIdx, List.length_mapIdx, length_moveAll]
  refine Move.widens_of_lift hlength ?_
  rw [map_figure_settled hrow, map_figure_settled hrow, List.mapIdx_mapIdx]
  congr 1
  funext k
  rw [moveFigure_moveFigure, List.map_append, List.map_append, List.map_cons, List.sum_append, List.sum_append,
    List.sum_cons]
  congr 1
  ring

end FlowTree.Tidy
