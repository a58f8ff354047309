import FlowTree.Proofs.Arena.Standing
import FlowTree.Proofs.Tidy.Ramps

/-!
# Pushes among the children of a cell

* **`Net.Family`** says that the children of a cell are the siblings of a row; **`Net.moveAll`** records some pushes
  among them.
* **`Net.Family.moveSubtree`** and **`Net.Family.executeShifts`** say that a push and the sweep are those of the row.
* **`pushes_widen_gaps_evenly`** says what becomes of a row by any pushes and the sweep.
-/

namespace FlowTree.Tidy

variable {α : Type}

/-- A cell alone. -/
def lone (x : ℕ) : Wires := .node (x, 0) []

theorem map_top_lone (cs : List ℕ) : (cs.map lone).map top = cs := by
  rw [List.map_map]
  exact List.map_id cs

namespace Net

/-- The children of `v`, numbered one after the other, hold the places and the moves of the siblings of a row. -/
structure Family (net : Net α) (v : ℕ) (cs : List ℕ) (row : List (Sibling α)) : Prop where
  children : net[v]?.map (·.children) = some cs
  nodup : cs.Nodup
  numbers : cs.map (fun x => net[x]?.map (·.number)) = (List.range cs.length).map some
  siblings : cs.map net.data? = row.map fun s => some s.data

namespace Family

variable {net net' : Net α} {v : ℕ} {cs : List ℕ} {row row' : List (Sibling α)} (h : net.Family v cs row)
include h

theorem rowAt : RowAt net (cs.map lone) row := by
  rw [RowAt, List.map_map]
  exact h.siblings

theorem length : cs.length = row.length := by
  have hlength := h.rowAt.length
  rwa [List.length_map] at hlength

/-- A child has its number. -/
theorem exists_cell {k x : ℕ} (hx : cs[k]? = some x) : ∃ c, net[x]? = some c ∧ c.number = k := by
  have hk := congrArg (·[k]?) h.numbers
  have hlt := (List.getElem?_eq_some_iff.mp hx).1
  simp only [List.getElem?_map, hx, List.getElem?_range hlt, Option.map_some, Option.some.injEq] at hk
  exact Option.map_eq_some_iff.mp hk

/-- Changes of the children that keep all relatives. -/
theorem change (hwithin : Within net net' cs) (hrow : RowAt net' (cs.map lone) row') : net'.Family v cs row' := by
  have hjoint : ∀ x : ℕ, net'[x]?.map (·.toJoint) = net[x]?.map (·.toJoint) := by
    intro x
    rw [← List.getElem?_map, hwithin.joints, List.getElem?_map]
  have hmap : ∀ {β : Type} (g : Joint → β) (x : ℕ),
      net'[x]?.map (fun c => g c.toJoint) = net[x]?.map fun c => g c.toJoint := by
    intro β g x
    have hx := congrArg (Option.map g) (hjoint x)
    rwa [Option.map_map, Option.map_map] at hx
  refine ⟨(hmap Joint.children v).trans h.children, h.nodup, ?_, ?_⟩
  · rw [← h.numbers]
    exact List.map_congr_left fun x _ => hmap Joint.number x
  · rw [RowAt, List.map_map] at hrow
    exact hrow

variable [Scalar α]

/-- **A push** of two children. -/
theorem moveSubtree {i j f w : ℕ} (hf : cs[i]? = some f) (hw : cs[j]? = some w) (hne : i ≠ j) (shift : α) :
    ∃ net', net.moveSubtree f w shift = .ok net' ∧ Within net net' cs ∧
      net'.Family v cs (Tidy.moveSubtree i j shift row) := by
  obtain ⟨a, ha, hanumber⟩ := h.exists_cell hf
  obtain ⟨b, hb, hbnumber⟩ := h.exists_cell hw
  have hlone : ∀ {k x : ℕ}, cs[k]? = some x → (cs.map lone)[k]? = some (lone x) := by
    intro k x hx
    rw [List.getElem?_map, hx, Option.map_some]
  have hnodup : ((cs.map lone).map top).Nodup := (map_top_lone cs).symm ▸ h.nodup
  let change := shift / (Scalar.ofNat j - Scalar.ofNat i)
  have hwithin : Within net (net.pushApart f w change shift) cs :=
    ((Within.modify (g := Cell.pushed change shift) (fun _ => rfl) (List.mem_of_getElem? hw)).trans
      (Within.modify (g := Cell.braced change) (fun _ => rfl) (List.mem_of_getElem? hf))).trans
      (Within.modify (g := Cell.movedBy shift) (fun _ => rfl) (List.mem_of_getElem? hw))
  refine ⟨net.pushApart f w change shift, ?_, hwithin, h.change hwithin ?_⟩
  · rw [moveSubtree_of_cells ha hb, hanumber, hbnumber]
  · exact rowAt_pushApart h.rowAt hnodup (hlone hf) (hlone hw) hne shift

/-- **The sweep** over all children. -/
theorem executeShifts :
    ∃ net', net.executeShifts v = .ok net' ∧ Within net net' cs ∧ net'.Family v cs (spread row) := by
  obtain ⟨c, hc, hchildren⟩ := Option.map_eq_some_iff.mp h.children
  rw [← map_top_lone cs] at hchildren
  obtain ⟨net', hrun, hrow, hmoved⟩ := executeShifts_eq hc hchildren h.rowAt ((map_top_lone cs).symm ▸ h.nodup)
  have hwithin := hmoved.within
  rw [map_top_lone] at hwithin
  exact ⟨net', hrun, hwithin, h.change hwithin hrow⟩

end Family

/-- The cells after some pushes among the cells `cs`, recorded one after the other. -/
def moveAll {n : ℕ} (cs : List ℕ) (moves : List (Move n)) (net : Net ℚ) : Checked (Net ℚ) :=
  moves.foldlM (fun net m => do
    let fixed ← Checked.get cs m.fixed
    let wide ← Checked.get cs m.wide
    net.moveSubtree fixed wide m.shift) net

/-- **Any pushes** among the children. -/
theorem Family.moveAll {net : Net ℚ} {v : ℕ} {cs : List ℕ} {row : List (Sibling ℚ)} (h : net.Family v cs row)
    {n : ℕ} (hn : cs.length = n) (moves : List (Move n)) :
    ∃ net', net.moveAll cs moves = .ok net' ∧ Within net net' cs ∧ net'.Family v cs (Tidy.moveAll moves row) := by
  subst hn
  induction moves generalizing net row with
  | nil => exact ⟨net, rfl, .refl net cs, h⟩
  | cons m moves ih =>
    have hf := List.getElem?_eq_getElem m.fixed.isLt
    have hw := List.getElem?_eq_getElem m.wide.isLt
    obtain ⟨net₁, hmove, hwithin, hfamily⟩ := h.moveSubtree hf hw (Nat.ne_of_lt m.lt) m.shift
    obtain ⟨net', hrest, hwithin', hfamily'⟩ := ih hfamily
    refine ⟨net', ?_, hwithin.trans hwithin', hfamily'⟩
    rw [Net.moveAll, List.foldlM_cons, Checked.get_eq hf, Checked.ok_bind, Checked.get_eq hw, Checked.ok_bind, hmove,
      Checked.ok_bind]
    exact hrest

end Net

/-! ### Any pushes and the sweep -/

/-- **Pushes widen gaps evenly.**  Among siblings without moves any pushes away from older ones may be recorded.  Only
the pushed siblings move at once; the sweep adds to the place of each sibling, and to that of all below it, its shares
of the pushes between whose ends it stands.  So each push, whatever is recorded before it and after it, widens all gaps
between its ends by equal steps, and leaves the sibling that it starts from, the older ones and those beyond the pushed
one in place.  The cells of an array go through the same, and no other cell changes. -/
theorem pushes_widen_gaps_evenly {row : List (Sibling ℚ)} (hrow : ∀ s ∈ row, s.change = 0 ∧ s.shift = 0)
    (moves : List (Move row.length)) :
    (moveAll moves row).map Sibling.figure =
        (row.map Sibling.figure).mapIdx (fun k => moveFigure ((moves.map fun m => m.jump k).sum)) ∧
      spread (moveAll moves row) = (moveAll moves row).mapIdx (fun k s =>
        s.moveBy ((moves.map fun m => share m.fixed m.wide m.shift k).sum)) ∧
      (∀ before m after, moves = before ++ m :: after →
        m.Widens (spread (moveAll (before ++ after) row)) (spread (moveAll moves row))) ∧
      ∀ (net : Net ℚ) (v : ℕ) (cs : List ℕ), net.Family v cs row →
        ∃ net₁ net₂, net.moveAll cs moves = .ok net₁ ∧ net₁.executeShifts v = .ok net₂ ∧
          net₁.Family v cs (moveAll moves row) ∧ net₂.Family v cs (spread (moveAll moves row)) ∧
            Within net net₂ cs := by
  refine ⟨map_figure_moveAll moves row, spread_moveAll hrow moves, ?_, ?_⟩
  · rintro before m after rfl
    exact widens_moveAll hrow before after m
  · intro net v cs hfamily
    obtain ⟨net₁, hmoves, hwithin, hfamily₁⟩ := hfamily.moveAll hfamily.length moves
    obtain ⟨net₂, hsweep, hwithin', hfamily₂⟩ := hfamily₁.executeShifts
    exact ⟨net₁, net₂, hmoves, hsweep, hfamily₁, hfamily₂, hwithin.trans hwithin'⟩

/-- Four siblings without moves. -/
def fourSiblings : List (Sibling ℚ) :=
  [0, 1, 2, 7].map fun place =>
    { prelim := place, modifier := place, change := 0, shift := 0, below := [] }

/-- The third one is pushed away from the first one. -/
def firstPush : Move fourSiblings.length := ⟨⟨0, by decide⟩, ⟨2, by decide⟩, by decide, 4⟩

/-- The fourth one is pushed away from the first one, so that the push before lies inside. -/
def outerPush : Move fourSiblings.length := ⟨⟨0, by decide⟩, ⟨3, by decide⟩, by decide, 6⟩

/-- The fourth one is pushed away from the second one, across the younger end of the first push. -/
def innerPush : Move fourSiblings.length := ⟨⟨1, by decide⟩, ⟨3, by decide⟩, by decide, 2⟩

/-- A cell with four children. -/
def fourCells : Net ℚ :=
  { Cell.fresh 0 none none 0 with children := [1, 2, 3, 4] } ::
    fourSiblings.mapIdx fun k s =>
      { Cell.fresh (k + 1) (some k) (some 0) k with prelim := s.prelim, modifier := s.modifier }

/-- Three pushes that overlap. -/
theorem pushes_widen_gaps_evenly_crossing :
    (∀ s ∈ fourSiblings, s.change = 0 ∧ s.shift = 0) ∧
      (moveAll [firstPush, outerPush, innerPush] fourSiblings).map (·.prelim) = [0, 1, 6, 15] ∧
      (spread (moveAll [firstPush, outerPush, innerPush] fourSiblings)).map (·.prelim) = [0, 5, 11, 15] ∧
      outerPush.Widens (spread (moveAll [firstPush, innerPush] fourSiblings))
        (spread (moveAll [firstPush, outerPush, innerPush] fourSiblings)) ∧
      fourCells.Family 0 [1, 2, 3, 4] fourSiblings ∧
        ∃ net₁ net₂, fourCells.moveAll [1, 2, 3, 4] [firstPush, outerPush, innerPush] = .ok net₁ ∧
          net₁.executeShifts 0 = .ok net₂ ∧
          net₂.Family 0 [1, 2, 3, 4] (spread (moveAll [firstPush, outerPush, innerPush] fourSiblings)) := by
  have hrow : ∀ s ∈ fourSiblings, s.change = 0 ∧ s.shift = 0 := by decide +kernel
  have hfamily : fourCells.Family 0 [1, 2, 3, 4] fourSiblings := ⟨by decide +kernel, by decide, by decide +kernel, rfl⟩
  obtain ⟨hmoved, hsweep, hwidens, hcells⟩ := pushes_widen_gaps_evenly hrow [firstPush, outerPush, innerPush]
  refine ⟨hrow, ?_, ?_, hwidens [firstPush] outerPush [innerPush] rfl, hfamily, ?_⟩
  · have hplaces := congrArg (List.map fun x : Figure => x.1.prelim) hmoved
    rw [List.map_map] at hplaces
    exact hplaces.trans (by decide +kernel)
  · rw [hsweep]
    decide +kernel
  · obtain ⟨net₁, net₂, hrun, hshifted, -, hfamily₂, -⟩ := hcells fourCells 0 [1, 2, 3, 4] hfamily
    exact ⟨net₁, net₂, hrun, hshifted, hfamily₂⟩

end FlowTree.Tidy
