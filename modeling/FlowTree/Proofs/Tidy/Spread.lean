import FlowTree.Layout.Tidy
import FlowTree.Proofs.Exact
import Mathlib.Algebra.BigOperators.Group.List.Basic
import Mathlib.Algebra.Order.BigOperators.Group.List
import Mathlib.Tactic.FieldSimp
import Mathlib.Tactic.Positivity

/-!
# Pushes and what they move in the end

A push of a sibling is recorded at its two ends only, and one sweep over the siblings carries out what
it means for those in between.

* **`Tidy.pending`** is what the sweep will add to the place of one sibling;
  **`Tidy.spread_eq_mapIdx`** says that the sweep adds just that.
* **`Tidy.share`** is the part of a push that a sibling between its ends gets.
* **`Tidy.pending_moveSubtree`** says that recording a push adds its share to what is pending,
  **`Tidy.pending_foldl`** that the shares of several pushes add up.
* **`Tidy.shares_le_total`** and **`Tidy.shares_mono`** say that pushes only widen gaps.
-/

namespace FlowTree.Tidy

/-! ### The sweep -/

/-- The node with all below it at another place. -/
def Slot.moveBy (d : ℚ) (s : Slot ℚ) : Slot ℚ := ⟨s.prelim + d, s.modifier + d⟩

/-- The sibling with all below it at another place. -/
def Sibling.moveBy (d : ℚ) (s : Sibling ℚ) : Sibling ℚ := { s with toSlot := s.toSlot.moveBy d }

/-- What the sweep hands on to the next older sibling. -/
def pull (l : List (Sibling ℚ)) : ℚ := (spreadFrom l).2.1

/-- The sum of the changes, by which what is handed on grows at each step. -/
def sway (l : List (Sibling ℚ)) : ℚ := (spreadFrom l).2.2

theorem sway_nil : sway [] = 0 := rfl

theorem sway_cons (s : Sibling ℚ) (l : List (Sibling ℚ)) : sway (s :: l) = sway l + s.change := rfl

theorem pull_cons (s : Sibling ℚ) (l : List (Sibling ℚ)) :
    pull (s :: l) = pull l + (s.shift + (sway l + s.change)) := rfl

/-- What the sweep will add to the place of the sibling at `j`. -/
def pending (l : List (Sibling ℚ)) (j : ℕ) : ℚ := pull (l.drop (j + 1))

theorem spread_eq_mapIdx (l : List (Sibling ℚ)) :
    spread l = l.mapIdx fun j s => s.moveBy (pending l j) := by
  induction l with
  | nil => rfl
  | cons s l ih =>
    show s.moveBy (pull l) :: spread l = _
    rw [ih, List.mapIdx_cons]
    rfl

/-! ### Recording a push -/

/-- Adds to the change and to the shift of a sibling, and moves it by `d`. -/
def Sibling.note (c h d : ℚ) (s : Sibling ℚ) : Sibling ℚ :=
  { s.moveBy d with change := s.change + c, shift := s.shift + h }

theorem sway_note {l : List (Sibling ℚ)} {i : ℕ} (hi : i < l.length) (c h d : ℚ) :
    sway (l.modify i (Sibling.note c h d)) = sway l + c := by
  induction l generalizing i with
  | nil => simp at hi
  | cons s l ih =>
    cases i with
    | zero =>
      rw [List.modify_zero_cons, sway_cons, sway_cons, Sibling.note]
      ring
    | succ i =>
      rw [List.modify_succ_cons, sway_cons, sway_cons, ih (by simpa using hi)]
      ring

theorem pull_note {l : List (Sibling ℚ)} {i : ℕ} (hi : i < l.length) (c h d : ℚ) :
    pull (l.modify i (Sibling.note c h d)) = pull l + (h + c * (i + 1)) := by
  induction l generalizing i with
  | nil => simp at hi
  | cons s l ih =>
    cases i with
    | zero =>
      rw [List.modify_zero_cons, pull_cons, pull_cons, Sibling.note]
      push_cast
      ring
    | succ i =>
      have hi' : i < l.length := by simpa using hi
      rw [List.modify_succ_cons, pull_cons, pull_cons, ih hi', sway_note hi']
      push_cast
      ring

theorem pending_note {l : List (Sibling ℚ)} {i : ℕ} (hi : i < l.length) (c h d : ℚ) (j : ℕ) :
    pending (l.modify i (Sibling.note c h d)) j =
      pending l j + if j < i then h + c * ((i : ℚ) - j) else 0 := by
  rw [pending, pending]
  split
  · next hj =>
    have hdrop : i - (j + 1) < (l.drop (j + 1)).length := by
      rw [List.length_drop]
      omega
    rw [List.drop_modify_of_ge _ _ _ _ (by omega), pull_note hdrop, Nat.cast_sub (by omega)]
    push_cast
    ring
  · next hj => rw [List.drop_modify_of_lt _ _ _ _ (by omega), add_zero]

/-- The part of a push from `fixed` to `wide` that the sibling at `j` gets. -/
def share (fixed wide : ℕ) (shift : ℚ) (j : ℕ) : ℚ :=
  if fixed < j ∧ j < wide then shift * ((j : ℚ) - fixed) / ((wide : ℚ) - fixed) else 0

/-- A push is noted at its two ends. -/
theorem moveSubtree_eq (fixed wide : ℕ) (shift : ℚ) (l : List (Sibling ℚ)) :
    moveSubtree fixed wide shift l =
      (l.modify wide (Sibling.note (-(shift / ((wide : ℚ) - fixed))) shift shift)).modify fixed
        (Sibling.note (shift / ((wide : ℚ) - fixed)) 0 0) := by
  have hwide : (fun s : Sibling ℚ =>
      { s with
        change := s.change - shift / (Scalar.ofNat wide - Scalar.ofNat fixed)
        shift := s.shift + shift
        prelim := s.prelim + shift
        modifier := s.modifier + shift }) =
      Sibling.note (-(shift / ((wide : ℚ) - fixed))) shift shift := by
    funext s
    simp only [Sibling.note, Sibling.moveBy, Slot.moveBy, sub_eq_add_neg, Scalar.ofNat_rat]
  have hfixed : (fun s : Sibling ℚ =>
      { s with change := s.change + shift / (Scalar.ofNat wide - Scalar.ofNat fixed) }) =
      Sibling.note (shift / ((wide : ℚ) - fixed)) 0 0 := by
    funext s
    simp only [Sibling.note, Sibling.moveBy, Slot.moveBy, add_zero, Scalar.ofNat_rat]
  rw [moveSubtree, hwide, hfixed]

@[simp] theorem length_moveSubtree (fixed wide : ℕ) (shift : ℚ) (l : List (Sibling ℚ)) :
    (moveSubtree fixed wide shift l).length = l.length := by
  rw [moveSubtree_eq, List.length_modify, List.length_modify]

/-- Recording a push adds to what is pending the share of each sibling between its ends. -/
theorem pending_moveSubtree {fixed wide : ℕ} {l : List (Sibling ℚ)} (hf : fixed < wide)
    (hw : wide < l.length) (shift : ℚ) (j : ℕ) :
    pending (moveSubtree fixed wide shift l) j = pending l j + share fixed wide shift j := by
  have hpos : (0 : ℚ) < (wide : ℚ) - fixed := by
    rw [sub_pos]
    exact_mod_cast hf
  rw [moveSubtree_eq, pending_note (by rw [List.length_modify]; omega), pending_note hw, share]
  rcases Nat.lt_or_ge j fixed with hjf | hjf
  · rw [if_pos (by omega), if_pos hjf, if_neg (by omega)]
    field_simp
    ring
  · rcases Nat.lt_or_ge j wide with hjw | hjw
    · rw [if_pos hjw, if_neg (by omega)]
      rcases Nat.eq_or_lt_of_le hjf with rfl | hlt
      · rw [if_neg (by omega)]
        field_simp
        ring
      · rw [if_pos ⟨hlt, hjw⟩]
        field_simp
        ring
    · rw [if_neg (by omega), if_neg (by omega), if_neg (by omega)]
      ring

/-- Pushes that are recorded one after the other add up what they add one by one. -/
theorem pending_foldl {β : Type} (fixed wide : β → ℕ) (shift : β → ℚ) {pushes : List β} {l : List (Sibling ℚ)}
    (hp : ∀ p ∈ pushes, fixed p < wide p ∧ wide p < l.length) (j : ℕ) :
    pending (pushes.foldl (fun row p => moveSubtree (fixed p) (wide p) (shift p) row) l) j =
      pending l j + (pushes.map fun p => share (fixed p) (wide p) (shift p) j).sum := by
  induction pushes generalizing l with
  | nil => simp
  | cons p pushes ih =>
    obtain ⟨hf, hw⟩ := hp p List.mem_cons_self
    have htail := ih (l := moveSubtree (fixed p) (wide p) (shift p) l) fun q hq => by
      rw [length_moveSubtree]
      exact hp q (List.mem_cons_of_mem p hq)
    rw [List.foldl_cons, htail, pending_moveSubtree hf hw, List.map_cons, List.sum_cons, add_assoc]

/-! ### Recording all pushes of a new sibling -/

/-- The row after the pushes of the sibling at `index`, each from a sibling further left. -/
def record (pushes : List (ℕ × ℚ)) (index : ℕ) (l : List (Sibling ℚ)) : List (Sibling ℚ) :=
  pushes.foldl (fun row p => moveSubtree p.1 index p.2 row) l

/-- What the sibling at `j` gets of all pushes. -/
def shares (pushes : List (ℕ × ℚ)) (index j : ℕ) : ℚ :=
  (pushes.map fun p => share p.1 index p.2 j).sum

/-- How far the pushed sibling itself moves. -/
def total (pushes : List (ℕ × ℚ)) : ℚ := (pushes.map (·.2)).sum

theorem pending_record {pushes : List (ℕ × ℚ)} {index : ℕ} (hp : ∀ p ∈ pushes, p.1 < index)
    {l : List (Sibling ℚ)} (hi : index < l.length) (j : ℕ) :
    pending (record pushes index l) j = pending l j + shares pushes index j :=
  pending_foldl Prod.fst (fun _ => index) Prod.snd (fun p hmem => ⟨hp p hmem, hi⟩) j

/-- The root of a drawn subtree and the trees below. -/
abbrev Figure := Slot ℚ × List (Tree (Slot ℚ))

/-- What is drawn of a sibling. -/
def Sibling.figure (s : Sibling ℚ) : Figure := (s.toSlot, s.below)

/-- A figure at another place. -/
def moveFigure (d : ℚ) (x : Figure) : Figure := (x.1.moveBy d, x.2)

theorem moveFigure_zero : moveFigure 0 = id := by
  funext x
  simp only [moveFigure, Slot.moveBy, add_zero]
  rfl

theorem moveFigure_moveFigure (d e : ℚ) : moveFigure e ∘ moveFigure d = moveFigure (d + e) := by
  funext x
  simp only [Function.comp_apply, moveFigure, Slot.moveBy, add_assoc]

theorem map_figure_note (c h d : ℚ) (i : ℕ) (l : List (Sibling ℚ)) :
    (l.modify i (Sibling.note c h d)).map Sibling.figure =
      (l.map Sibling.figure).modify i (moveFigure d) := by
  apply List.ext_getElem?
  intro k
  rw [List.getElem?_map, List.getElem?_modify, List.getElem?_modify, List.getElem?_map]
  cases l[k]? with
  | none => rfl
  | some s => split <;> rfl

/-- Pushes move nothing at once but the pushed sibling. -/
theorem map_figure_record (pushes : List (ℕ × ℚ)) (index : ℕ) (l : List (Sibling ℚ)) :
    (record pushes index l).map Sibling.figure =
      (l.map Sibling.figure).modify index (moveFigure (total pushes)) := by
  induction pushes generalizing l with
  | nil =>
    rw [total, List.map_nil, List.sum_nil, moveFigure_zero, List.modify_id]
    rfl
  | cons p pushes ih =>
    rw [record, List.foldl_cons, ← record, ih, moveSubtree_eq, map_figure_note, map_figure_note,
      moveFigure_zero, List.modify_id, List.modify_modify_eq, moveFigure_moveFigure]
    rfl

/-! ### Pushes only widen gaps -/

theorem share_eq_zero {fixed wide j : ℕ} (h : j ≤ fixed) (shift : ℚ) :
    share fixed wide shift j = 0 := by
  rw [share, if_neg (by omega)]

theorem share_nonneg {shift : ℚ} (hs : 0 ≤ shift) (fixed wide j : ℕ) :
    0 ≤ share fixed wide shift j := by
  unfold share
  split
  · next h =>
    have hj : (fixed : ℚ) ≤ j := by exact_mod_cast h.1.le
    have hw : (fixed : ℚ) ≤ wide := by exact_mod_cast (h.1.trans h.2).le
    exact div_nonneg (mul_nonneg hs (sub_nonneg.mpr hj)) (sub_nonneg.mpr hw)
  · exact le_refl 0

/-- The parts of a push grow from the fixed end on. -/
theorem share_mono {shift : ℚ} (hs : 0 ≤ shift) (fixed : ℕ) {wide j k : ℕ} (hjk : j ≤ k)
    (hk : k < wide) : share fixed wide shift j ≤ share fixed wide shift k := by
  rcases Nat.lt_or_ge fixed j with hj | hj
  · rw [share, share, if_pos ⟨hj, by omega⟩, if_pos ⟨by omega, hk⟩]
    have hpos : (0 : ℚ) < (wide : ℚ) - fixed := by
      rw [sub_pos]
      exact_mod_cast (by omega : fixed < wide)
    have hcast : (j : ℚ) ≤ k := by exact_mod_cast hjk
    exact div_le_div_of_nonneg_right (mul_le_mul_of_nonneg_left (by linarith) hs) hpos.le
  · rw [share_eq_zero hj]
    exact share_nonneg hs _ _ _

/-- No part is larger than the push. -/
theorem share_le {shift : ℚ} (hs : 0 ≤ shift) (fixed wide j : ℕ) :
    share fixed wide shift j ≤ shift := by
  unfold share
  split
  · next h =>
    have hpos : (0 : ℚ) < (wide : ℚ) - fixed := by
      rw [sub_pos]
      exact_mod_cast h.1.trans h.2
    have hcast : (j : ℚ) ≤ wide := by exact_mod_cast h.2.le
    rw [div_le_iff₀ hpos]
    exact mul_le_mul_of_nonneg_left (by linarith) hs
  · exact hs

theorem shares_mono {pushes : List (ℕ × ℚ)} (hp : ∀ p ∈ pushes, 0 ≤ p.2) {index j k : ℕ}
    (hjk : j ≤ k) (hk : k < index) : shares pushes index j ≤ shares pushes index k :=
  List.sum_le_sum fun p hmem => share_mono (hp p hmem) p.1 hjk hk

theorem shares_nonneg {pushes : List (ℕ × ℚ)} (hp : ∀ p ∈ pushes, 0 ≤ p.2) (index j : ℕ) :
    0 ≤ shares pushes index j := by
  apply List.sum_nonneg
  rintro x hx
  obtain ⟨p, hmem, rfl⟩ := List.mem_map.mp hx
  exact share_nonneg (hp p hmem) _ _ _

theorem shares_le_total {pushes : List (ℕ × ℚ)} (hp : ∀ p ∈ pushes, 0 ≤ p.2) (index j : ℕ) :
    shares pushes index j ≤ total pushes :=
  List.sum_le_sum fun p hmem => share_le (hp p hmem) p.1 index j

theorem shares_eq_zero {pushes : List (ℕ × ℚ)} {j : ℕ} (h : ∀ p ∈ pushes, j ≤ p.1) (index : ℕ) :
    shares pushes index j = 0 := by
  apply List.sum_eq_zero
  rintro x hx
  obtain ⟨p, hmem, rfl⟩ := List.mem_map.mp hx
  exact share_eq_zero (h p hmem) _

/-- The pushed sibling gets no part on top of the push. -/
theorem shares_self (pushes : List (ℕ × ℚ)) (index : ℕ) : shares pushes index index = 0 := by
  apply List.sum_eq_zero
  rintro x hx
  obtain ⟨p, -, rfl⟩ := List.mem_map.mp hx
  rw [share, if_neg (by omega)]

/-! ### A new sibling -/

theorem sway_concat {s : Sibling ℚ} (hc : s.change = 0) (l : List (Sibling ℚ)) :
    sway (l ++ [s]) = sway l := by
  induction l with
  | nil => rw [List.nil_append, sway_cons, hc, add_zero]
  | cons x l ih => rw [List.cons_append, sway_cons, sway_cons, ih]

theorem pull_concat {s : Sibling ℚ} (hc : s.change = 0) (hs : s.shift = 0)
    (l : List (Sibling ℚ)) : pull (l ++ [s]) = pull l := by
  induction l with
  | nil => rw [List.nil_append, pull_cons, hc, hs, sway_nil, add_zero, add_zero, add_zero]
  | cons x l ih => rw [List.cons_append, pull_cons, pull_cons, ih, sway_concat hc]

/-- A sibling without moves leaves what is pending as it is. -/
theorem pending_concat {s : Sibling ℚ} (hc : s.change = 0) (hs : s.shift = 0)
    (l : List (Sibling ℚ)) (j : ℕ) : pending (l ++ [s]) j = pending l j := by
  rcases Nat.lt_or_ge j l.length with hj | hj
  · rw [pending, List.drop_append_of_le_length hj, pull_concat hc hs, pending]
  · rw [pending, pending, List.drop_eq_nil_of_le (by simp; omega),
      List.drop_eq_nil_of_le (by omega)]

theorem pending_of_le {l : List (Sibling ℚ)} {j : ℕ} (h : l.length ≤ j + 1) : pending l j = 0 := by
  rw [pending, List.drop_eq_nil_of_le h]
  rfl

end FlowTree.Tidy
