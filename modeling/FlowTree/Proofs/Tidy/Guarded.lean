import FlowTree.Proofs.Arena.Contact
import FlowTree.Proofs.Guarded
import FlowTree.Proofs.Tidy.Edge

/-!
# Tidy trees without divisions by zero

Only moving a subtree divides by a number that is not fixed: by the number of steps from the sibling that a push starts
from to the one that is pushed.  A push always starts from an older sibling, so drawing with guarded numbers is drawing
with exact ones.

* **`Tidy.moveSubtree_guarded`** needs an older sibling to start from; **`Tidy.Forest.add_guarded`** finds one for every
  push.
* **`Tidy.draw_guarded`** is the induction over the tree, **`Tidy.breadths_guarded`** the outcome for its coordinates.
-/

namespace FlowTree.Tidy

open Guarded

/-! ### Drawings in guarded numbers -/

/-- The slot in guarded numbers. -/
def Slot.guarded (s : Slot ℚ) : Slot Guarded := ⟨number s.prelim, number s.modifier⟩

/-- The sibling in guarded numbers. -/
def Sibling.guarded (s : Sibling ℚ) : Sibling Guarded :=
  { s.toSlot.guarded with
    change := number s.change
    shift := number s.shift
    below := s.below.map (Tree.map Slot.guarded) }

/-- The drawing in guarded numbers. -/
def Drawn.guarded (d : Drawn ℚ) : Drawn Guarded :=
  ⟨d.slot.guarded, d.below.map (Tree.map Slot.guarded), d.left.map Slot.guarded, d.right.map Slot.guarded⟩

/-- The row in guarded numbers. -/
def Forest.guarded (f : Forest ℚ) : Forest Guarded :=
  ⟨f.siblings.map Sibling.guarded, f.left.map Slot.guarded, f.right.map (Prod.map id Slot.guarded)⟩

/-- The sums in guarded numbers. -/
def Sums.guarded (s : Sums ℚ) : Sums Guarded :=
  ⟨number s.rowInner, number s.newInner, number s.rowOuter, number s.newOuter⟩

/-- What a walk finds, in guarded numbers. -/
def Contact.guarded (c : Contact ℚ) : Contact Guarded where
  pushes := c.pushes.map (Prod.map id number)
  sums := c.sums.guarded
  rowInner := c.rowInner.map (Prod.map id Slot.guarded)
  newInner := c.newInner.map Slot.guarded
  rowOuter := c.rowOuter.map Slot.guarded
  newOuter := c.newOuter.map Slot.guarded

/-- The deeper outline in guarded numbers. -/
def Deeper.guarded : Deeper ℚ → Deeper Guarded
  | .row rest => .row (rest.map (Prod.map id Slot.guarded))
  | .new rest => .new (rest.map Slot.guarded)
  | .neither => .neither

/-! ### Outlines -/

theorem widenEnd_guarded (gap : ℚ) (top : Slot ℚ) (o : Outline ℚ) :
    widenEnd (number gap) top.guarded (o.map Slot.guarded) =
      ((widenEnd gap top o).1.guarded, (widenEnd gap top o).2.map Slot.guarded) := by
  induction o generalizing top with
  | nil => rfl
  | cons s o ih =>
    simp only [List.map_cons, widenEnd, ih]

theorem overlap_guarded (sums : Sums ℚ) (a b : Slot ℚ) :
    sums.guarded.overlap a.guarded b.guarded = number (sums.overlap a b) := rfl

theorem kept_guarded (sums : Sums ℚ) (a b : Slot ℚ) :
    sums.guarded.kept a.guarded b.guarded = (sums.kept a b).guarded := by
  rw [Sums.kept, Sums.kept, apply_ite Sums.guarded, overlap_guarded, zero_number, lt_number]
  rfl

theorem contact_guarded (row : List (ℕ × Slot ℚ)) (new rowOuter newOuter : Outline ℚ) (sums : Sums ℚ) :
    contact (row.map (Prod.map id Slot.guarded)) (new.map Slot.guarded) (rowOuter.map Slot.guarded)
        (newOuter.map Slot.guarded) sums.guarded =
      (contact row new rowOuter newOuter sums).guarded := by
  induction row generalizing new rowOuter newOuter sums with
  | nil => rfl
  | cons q row ih =>
    rcases new with _ | ⟨b, new⟩
    · rfl
    rcases rowOuter with _ | ⟨c, rowOuter⟩
    · rfl
    rcases newOuter with _ | ⟨d, newOuter⟩
    · rfl
    have hrest := ih new rowOuter newOuter ((sums.kept q.2 b).below q.2 b c d)
    rw [List.map_cons, List.map_cons, List.map_cons, List.map_cons, contact_step, contact_step, Prod.map_snd,
      kept_guarded, overlap_guarded, zero_number, lt_number]
    simp only
    split
    · exact congrArg (fun c : Contact Guarded => { c with pushes := (q.1, number (sums.overlap q.2 b)) :: c.pushes })
        hrest
    · exact hrest

theorem deeper_guarded (c : Contact ℚ) : c.guarded.deeper = c.deeper.guarded := by
  obtain ⟨pushes, sums, rowInner, newInner, rowOuter, newOuter⟩ := c
  rcases rowInner with _ | ⟨q, rowInner⟩ <;> rcases newInner with _ | ⟨s, newInner⟩
  · rfl
  · cases rowOuter <;> rfl
  · cases newOuter <;> rfl
  · rfl

/-! ### Rows -/

theorem modify_guarded {g : Sibling ℚ → Sibling ℚ} {g' : Sibling Guarded → Sibling Guarded}
    (hg : ∀ s, g' s.guarded = (g s).guarded) (row : List (Sibling ℚ)) (i : ℕ) :
    (row.map Sibling.guarded).modify i g' = (row.modify i g).map Sibling.guarded := by
  apply List.ext_getElem?
  intro j
  simp only [List.getElem?_modify, List.getElem?_map]
  cases row[j]? with
  | none => rfl
  | some s => split <;> simp [hg]

/-- **A push from an older sibling** divides by a number of steps that is not zero. -/
theorem moveSubtree_guarded {fixed wide : ℕ} (hlt : fixed < wide) (shift : ℚ) (row : List (Sibling ℚ)) :
    moveSubtree fixed wide (number shift) (row.map Sibling.guarded) =
      (moveSubtree fixed wide shift row).map Sibling.guarded := by
  have hsteps : (wide : ℚ) - fixed ≠ 0 := sub_ne_zero.mpr (by exact_mod_cast hlt.ne')
  have hchange : number shift / (Scalar.ofNat wide - Scalar.ofNat fixed) =
      number (shift / (Scalar.ofNat wide - Scalar.ofNat fixed)) := number_div shift hsteps
  rw [moveSubtree, moveSubtree, hchange]
  refine (congrArg (List.modify · fixed _) (modify_guarded ?_ row wide)).trans (modify_guarded ?_ _ fixed)
  · exact fun _ => rfl
  · exact fun _ => rfl

theorem pushes_guarded {pushes : List (ℕ × ℚ)} {index : ℕ} (hp : ∀ p ∈ pushes, p.1 < index)
    (row : List (Sibling ℚ)) :
    (pushes.map (Prod.map id number)).foldl (fun row p => moveSubtree p.1 index p.2 row) (row.map Sibling.guarded) =
      (pushes.foldl (fun row p => moveSubtree p.1 index p.2 row) row).map Sibling.guarded := by
  induction pushes generalizing row with
  | nil => rfl
  | cons p pushes ih =>
    rw [List.map_cons, List.foldl_cons, List.foldl_cons, Prod.map_snd, Prod.map_fst, id,
      moveSubtree_guarded (hp p List.mem_cons_self), ih fun q hq => hp q (List.mem_cons_of_mem p hq)]

theorem setSlot_guarded (index : ℕ) (slot : Slot ℚ) (row : List (Sibling ℚ)) :
    Forest.setSlot index slot.guarded (row.map Sibling.guarded) =
      (Forest.setSlot index slot row).map Sibling.guarded :=
  modify_guarded (fun _ => rfl) row index

theorem slotOf_guarded (s : Option (Sibling ℚ)) (top : Slot ℚ) :
    ((s.map Sibling.guarded).map (·.toSlot)).getD top.guarded = ((s.map (·.toSlot)).getD top).guarded := by
  cases s <;> rfl

theorem own_guarded (index : ℕ) (o : Outline ℚ) :
    (o.map Slot.guarded).map (fun s => (index, s)) = (o.map fun s => (index, s)).map (Prod.map id Slot.guarded) := by
  rw [List.map_map, List.map_map]
  rfl

/-- The siblings and a new one after the pushes of the walk between them. -/
theorem pushed_guarded {f : Forest ℚ} {d : Drawn ℚ} (hf : f.Sound) (hd : d.Sound) (oldest youngest : Sibling ℚ) :
    (f.meeting d oldest youngest).guarded.pushes.foldl (fun row p => moveSubtree p.1 f.siblings.length p.2 row)
        (f.guarded.siblings ++
          [{ d.guarded.slot with change := Scalar.zero, shift := Scalar.zero, below := d.guarded.below }]) =
      (f.pushed d (f.meeting d oldest youngest).pushes).map Sibling.guarded := by
  have hrow := pushes_guarded (Forest.owner_lt_of_push hf hd oldest youngest)
    (f.siblings ++ [{ d.slot with change := 0, shift := 0, below := d.below }])
  rw [List.map_append] at hrow
  exact hrow

/-- **One more subtree** joins a row in guarded numbers as it does in exact ones. -/
theorem Forest.add_guarded {f : Forest ℚ} {d : Drawn ℚ} (hf : f.Sound) (hd : d.Sound) :
    f.guarded.add d.guarded = (f.add d).guarded := by
  cases hy : f.siblings.getLast? with
  | none =>
    obtain ⟨siblings, left, right⟩ := f
    obtain rfl : siblings = [] := List.getLast?_eq_none_iff.mp hy
    simp [Forest.add, Forest.guarded, Drawn.guarded, Sibling.guarded, Slot.guarded]
  | some youngest =>
    obtain ⟨oldest, ho⟩ : ∃ oldest, f.siblings.head? = some oldest :=
      ⟨_, List.head?_eq_some_head (List.ne_nil_of_mem (List.mem_of_getLast? hy))⟩
    have ho' : f.guarded.siblings.head? = some oldest.guarded := by rw [Forest.guarded, List.head?_map, ho]; rfl
    have hy' : f.guarded.siblings.getLast? = some youngest.guarded := by rw [Forest.guarded, List.getLast?_map, hy]; rfl
    have hlength : f.guarded.siblings.length = f.siblings.length := List.length_map _
    have hmeet : contact f.guarded.right d.guarded.left f.guarded.left d.guarded.right
        ⟨youngest.guarded.modifier, d.guarded.slot.modifier, oldest.guarded.modifier, d.guarded.slot.modifier⟩ =
          (f.meeting d oldest youngest).guarded :=
      contact_guarded f.right d.left f.left d.right
        ⟨youngest.modifier, d.slot.modifier, oldest.modifier, d.slot.modifier⟩
    have hpushed : (f.meeting d oldest youngest).pushes.foldl (fun row p => moveSubtree p.1 f.siblings.length p.2 row)
        (f.siblings ++ [{ d.slot with change := Scalar.zero, shift := Scalar.zero, below := d.below }]) =
          f.pushed d (f.meeting d oldest youngest).pushes := rfl
    have hright : d.guarded.right = d.right.map Slot.guarded := rfl
    have hleft : f.guarded.left = f.left.map Slot.guarded := rfl
    rw [Forest.add, Forest.add, ho', hy', ho, hy]
    simp only [hmeet, hlength, ← meeting.eq_1, deeper_guarded, pushed_guarded hf hd, hpushed]
    generalize f.meeting d oldest youngest = c
    generalize f.pushed d c.pushes = row
    -- which outline goes on does not depend on the numbers
    cases c.deeper with
    | row rest =>
      have hgap : c.guarded.sums.rowInner - c.guarded.sums.newOuter = number (c.sums.rowInner - c.sums.newOuter) := rfl
      have htop := slotOf_guarded row[f.siblings.length]? d.slot
      rw [← List.getElem?_map] at htop
      simp only [Deeper.guarded, hgap, hright]
      rw [show d.guarded.slot = d.slot.guarded from rfl, htop, widenEnd_guarded, setSlot_guarded, own_guarded,
        ← List.map_append]
      rfl
    | new rest =>
      have hgap : c.guarded.sums.newInner - c.guarded.sums.rowOuter = number (c.sums.newInner - c.sums.rowOuter) := rfl
      have htop := slotOf_guarded row.head? oldest.toSlot
      rw [← List.head?_map] at htop
      simp only [Deeper.guarded, hgap, hright, hleft]
      rw [show oldest.guarded.toSlot = oldest.toSlot.guarded from rfl, htop, widenEnd_guarded, setSlot_guarded,
        own_guarded, ← List.map_append]
      rfl
    | neither =>
      simp only [Deeper.guarded, hright]
      rw [own_guarded]
      rfl

theorem spreadFrom_guarded (row : List (Sibling ℚ)) :
    spreadFrom (row.map Sibling.guarded) =
      ((spreadFrom row).1.map Sibling.guarded, number (spreadFrom row).2.1, number (spreadFrom row).2.2) := by
  induction row with
  | nil => rfl
  | cons s row ih =>
    rw [List.map_cons, spreadFrom, ih]
    rfl

theorem spread_guarded (row : List (Sibling ℚ)) :
    spread (row.map Sibling.guarded) = (spread row).map Sibling.guarded :=
  congrArg Prod.fst (spreadFrom_guarded row)

theorem Forest.crown_guarded (f : Forest ℚ) (beside : Option ℚ) :
    f.guarded.crown (beside.map number) = (f.crown beside).guarded := by
  have hspread : spread f.guarded.siblings = (spread f.siblings).map Sibling.guarded := spread_guarded f.siblings
  rw [Forest.crown, Forest.crown, hspread, List.head?_map, List.getLast?_map]
  generalize spread f.siblings = row
  cases row with
  | nil => cases beside <;> rfl
  | cons first row =>
    obtain ⟨last, hlast⟩ : ∃ last, (first :: row).getLast? = some last :=
      ⟨_, List.getLast?_eq_some_getLast (List.cons_ne_nil first row)⟩
    have hmiddle : (first.guarded.prelim + last.guarded.prelim) / Scalar.two =
        number ((first.prelim + last.prelim) / Scalar.two) := number_half _
    have hbelow : ((first :: row).map Sibling.guarded).map (fun s => Tree.node s.toSlot s.below) =
        ((first :: row).map fun s => Tree.node s.toSlot s.below).map (Tree.map Slot.guarded) := by
      rw [List.map_map, List.map_map]
      exact List.map_congr_left fun s _ => (Tree.map_node Slot.guarded s.toSlot s.below).symm
    have hright : (f.guarded.right).map (·.2) = (f.right.map (·.2)).map Slot.guarded := by
      rw [Forest.guarded, List.map_map, List.map_map]
      rfl
    rw [hlast]
    simp only [List.head?_cons, Option.map_some, hmiddle, hbelow, hright]
    cases beside <;> rfl

/-! ### Whole trees -/

section Tree

variable {γ : Type}

theorem lastPrelim?_guarded (f : Forest ℚ) : f.guarded.lastPrelim? = f.lastPrelim?.map number := by
  rw [Forest.lastPrelim?, Forest.lastPrelim?, Forest.guarded, List.getLast?_map, Option.map_map, Option.map_map]
  rfl

/-- **Drawing in guarded numbers** is drawing in exact ones. -/
theorem draw_guarded (t : Tree γ) (beside : Option ℚ) : draw t (beside.map number) = (draw t beside).guarded := by
  induction t generalizing beside with
  | node v cs ih =>
    have hrow : ∀ before : List (Tree γ), before ⊆ cs →
        before.foldl (fun (f : Forest Guarded) c => f.add (draw c f.lastPrelim?)) {} = (rowOf before).guarded := by
      intro before hsub
      induction before using List.reverseRecOn with
      | nil => rfl
      | append_singleton before c ihrow =>
        rw [List.foldl_append, ihrow fun _ hc => hsub (List.mem_append_left _ hc), rowOf_concat, List.foldl_cons,
          List.foldl_nil, lastPrelim?_guarded, ih c (hsub (List.mem_append_right before List.mem_cons_self)),
          Forest.add_guarded (sound_rowOf before) (draw_fits c _).sound]
    rw [draw_node, draw_node, hrow cs (List.Subset.refl cs), Forest.crown_guarded]
    rfl

theorem settle_guarded (t : Tree (Slot ℚ)) (offset : ℚ) :
    settle (t.map Slot.guarded) (number offset) = (settle t offset).map number := by
  induction t generalizing offset with
  | node s cs ih =>
    rw [Tree.map_node, settle_node, settle_node, Tree.map_node, List.map_map, List.map_map]
    congr 1
    exact List.map_congr_left fun c hc => ih c hc _

/-- **The coordinates are found without a division by zero.** -/
theorem breadths_guarded (t : Tree γ) : (breadths t : Tree Guarded) = (breadths t : Tree ℚ).map number := by
  have hdraw : (draw t none : Drawn Guarded) = (draw t none).guarded := draw_guarded t none
  rw [breadths, breadths, hdraw, ← settle_guarded, Tree.map_node]
  rfl

end Tree

end FlowTree.Tidy
