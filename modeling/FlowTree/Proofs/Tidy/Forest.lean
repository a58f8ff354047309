import FlowTree.Proofs.Tidy.Frame
import FlowTree.Proofs.Tidy.Outline
import FlowTree.Proofs.Tidy.Shape

/-!
# Setting a subtree beside its older siblings

One subtree after the other joins a row; the row is sound if it keeps its distances after all moves
that are still to be carried out, and if its outlines bound it there.

* **`Tidy.Forest.row`** is the row after the recorded moves.
* **`Tidy.Forest.Sound`** is the invariant of a row, **`Tidy.Drawn.Sound`** that of a drawn subtree.
* **`Tidy.Forest.Added`** says what a new subtree does to a row: the trees of the row part, and each
  outline goes on into the deeper one; **`Tidy.Forest.exists_added`** says that every new subtree does.
* **`Tidy.Forest.Sound.add`** and **`Tidy.Forest.Sound.crown`** keep the invariants.
-/

namespace FlowTree.Tidy

/-! ### Places -/

theorem settle_add (t : Tree (Slot ℚ)) (o d : ℚ) : settle t (o + d) = shift d (settle t o) := by
  induction t generalizing o with
  | node s cs ih =>
    rw [settle_node, settle_node, shift_node, List.map_map, add_assoc]
    congr 1
    refine List.map_congr_left ?_
    intro c hc
    rw [← add_assoc]
    exact ih c hc _

/-- The places of a figure. -/
def Figure.places (x : Figure) : Tree ℚ := settle (.node x.1 x.2) 0

theorem Figure.places_eq (x : Figure) :
    x.places = .node x.1.prelim (x.2.map fun c => settle c x.1.modifier) := by
  rw [places, settle_node, add_zero, add_zero]

@[simp] theorem Figure.value_places (x : Figure) : x.places.value = x.1.prelim := by
  rw [places_eq]
  rfl

theorem places_moveFigure (d : ℚ) (x : Figure) :
    (moveFigure d x).places = shift d x.places := by
  rw [Figure.places_eq, Figure.places_eq, shift_node, List.map_map]
  show Tree.node _ (x.2.map fun c => settle c (x.1.modifier + d)) = _
  congr 1
  exact List.map_congr_left fun c _ => settle_add c _ _

/-- Widening the end of an outline moves nothing that has been drawn. -/
theorem places_widenEnd (gap : ℚ) (top : Slot ℚ) {o : Outline ℚ} {below : List (Tree (Slot ℚ))}
    (h : o = [] → below = []) :
    Figure.places ((widenEnd gap top o).1, below) = Figure.places (top, below) := by
  by_cases ho : o = []
  · rw [Figure.places_eq, Figure.places_eq, h ho, prelim_widenEnd]
    rfl
  · rw [widenEnd_fst gap top ho]

/-! ### The invariants -/

namespace Forest

/-- What is drawn of the siblings. -/
def figures (f : Forest ℚ) : List Figure := f.siblings.map Sibling.figure

/-- The places of the siblings with all below them after the recorded moves. -/
def row (f : Forest ℚ) : List (Tree ℚ) :=
  (f.figures.map Figure.places).mapIdx fun j t => shift (pending f.siblings j) t

/-- The places along the left outline. -/
def leftPlaces (f : Forest ℚ) : List ℚ :=
  walk ((f.figures.head?.map (·.1.modifier)).getD 0) f.left

/-- The places along the right outline, each with the sibling below which it lies. -/
def rightPlaces (f : Forest ℚ) : List (ℕ × ℚ) :=
  (f.right.map (·.1)).zip
    (walk ((f.figures.getLast?.map (·.1.modifier)).getD 0) (f.right.map (·.2)))

/-- After the recorded moves the siblings keep their distances, and the outlines bound them. -/
structure Sound (f : Forest ℚ) : Prop where
  framed : Framed f.row f.leftPlaces f.rightPlaces
  /-- The oldest sibling stays where it is. -/
  still : pending f.siblings 0 = 0

@[simp] theorem length_figures (f : Forest ℚ) : f.figures.length = f.siblings.length :=
  List.length_map _

@[simp] theorem length_row (f : Forest ℚ) : f.row.length = f.siblings.length := by
  rw [row, List.length_mapIdx, List.length_map, length_figures]

theorem length_rightPlaces (f : Forest ℚ) : f.rightPlaces.length = f.right.length := by
  rw [rightPlaces, List.length_zip, length_walk, List.length_map, List.length_map, Nat.min_self]

theorem Sound.length_left {f : Forest ℚ} (h : f.Sound) : f.left.length = f.right.length := by
  have hlength := h.framed.length
  rwa [leftPlaces, length_walk, length_rightPlaces] at hlength

/-- The oldest sibling stands where it was drawn. -/
theorem Sound.head?_row {f : Forest ℚ} (h : f.Sound) {x : Figure}
    (hx : f.figures.head? = some x) : f.row.head? = some x.places := by
  rw [List.head?_eq_getElem?] at hx ⊢
  rw [row, List.getElem?_mapIdx, List.getElem?_map, hx, h.still]
  exact congrArg some (shift_zero _)

/-- The youngest sibling stands where it was drawn. -/
theorem getLast?_row {f : Forest ℚ} {x : Figure} (hx : f.figures.getLast? = some x) :
    f.row.getLast? = some x.places := by
  obtain ⟨l, hl⟩ := List.getLast?_eq_some_iff.mp hx
  have hlength : f.siblings.length = l.length + 1 := by
    rw [← length_figures, hl, List.length_append, List.length_singleton]
  have hlast : pending f.siblings l.length = 0 := pending_of_le hlength.le
  rw [row, hl, List.map_append, List.mapIdx_append, List.length_map]
  show (_ ++ [shift (pending f.siblings (0 + l.length)) x.places]).getLast? = _
  rw [List.getLast?_concat, zero_add, hlast, shift_zero]

/-- The row without siblings. -/
theorem sound_nil : Sound {} where
  framed :=
    { roomy := by simp [row, figures]
      beside := List.Pairwise.nil
      left_le := by simp [row, figures]
      le_right := by simp [row, figures]
      owner_lt := by simp [rightPlaces]
      length := rfl
      ordered := by simp [leftPlaces, walk] }
  still := rfl

end Forest

/-- What is drawn of a subtree. -/
def Drawn.figure (d : Drawn ℚ) : Figure := (d.slot, d.below)

/-- The outlines bound what has been drawn. -/
def Drawn.Sound (d : Drawn ℚ) : Prop :=
  Outlined d.figure.places (walk d.slot.modifier d.left) (walk d.slot.modifier d.right)

theorem Drawn.Sound.length {d : Drawn ℚ} (h : d.Sound) : d.right.length = d.left.length := by
  have hlength := Outlined.length h
  rw [length_walk, length_walk] at hlength
  exact hlength.symm

/-- Nothing hangs below a root without a second level. -/
theorem below_eq_nil {x : Figure} (h : ∀ y, y ∉ x.places.level 1) : x.2 = [] := by
  rw [List.eq_nil_iff_forall_not_mem]
  intro c hc
  refine h (settle c x.1.modifier).value ?_
  rw [Figure.places_eq, Tree.level_succ, List.flatMap_map]
  exact List.mem_flatMap.mpr ⟨c, hc, by simp⟩

theorem Drawn.Sound.below_eq_nil {d : Drawn ℚ} (h : d.Sound) (hr : d.right = []) :
    d.below = [] := by
  refine Tidy.below_eq_nil (x := d.figure) ?_
  intro y hy
  obtain ⟨r, hr', -⟩ := h.le_right 0 y hy
  rw [hr] at hr'
  simp [walk] at hr'

theorem Forest.Sound.below_eq_nil {f : Forest ℚ} (h : f.Sound) (hl : f.left = []) {x : Figure}
    (hx : f.figures.head? = some x) : x.2 = [] := by
  refine Tidy.below_eq_nil ?_
  intro y hy
  have hfirst := List.mem_of_head? (h.head?_row hx)
  obtain ⟨l, hl', -⟩ := h.framed.left_le _ hfirst 0 y hy
  rw [Forest.leftPlaces, hl] at hl'
  simp [walk] at hl'

/-! ### The pushes of a new sibling -/

namespace Forest

/-- The siblings and a new one after the pushes that set it apart. -/
def pushed (f : Forest ℚ) (d : Drawn ℚ) (pushes : List (ℕ × ℚ)) : List (Sibling ℚ) :=
  record pushes f.siblings.length
    (f.siblings ++ [{ d.slot with change := 0, shift := 0, below := d.below }])

theorem modify_concat {γ : Type} (l : List γ) (x : γ) (g : γ → γ) :
    (l ++ [x]).modify l.length g = l ++ [g x] := by
  induction l with
  | nil => rfl
  | cons y l ih =>
    rw [List.cons_append, List.length_cons, List.modify_succ_cons, ih, List.cons_append]

theorem figures_pushed (f : Forest ℚ) (d : Drawn ℚ) (pushes : List (ℕ × ℚ)) :
    (f.pushed d pushes).map Sibling.figure =
      f.figures ++ [moveFigure (total pushes) d.figure] := by
  rw [pushed, map_figure_record, List.map_append, ← figures, ← length_figures]
  exact modify_concat _ _ _

theorem pending_pushed {f : Forest ℚ} {d : Drawn ℚ} {pushes : List (ℕ × ℚ)}
    (hp : ∀ p ∈ pushes, p.1 < f.siblings.length) (j : ℕ) :
    pending (f.pushed d pushes) j =
      pending f.siblings j + shares pushes f.siblings.length j := by
  rw [pushed, pending_record hp (by simp), pending_concat rfl rfl]

theorem pull_setSlot (i : ℕ) (slot : Slot ℚ) (l : List (Sibling ℚ)) :
    pull (setSlot i slot l) = pull l ∧ sway (setSlot i slot l) = sway l := by
  induction l generalizing i with
  | nil =>
    rw [setSlot, List.modify_nil]
    exact ⟨rfl, rfl⟩
  | cons s l ih =>
    cases i with
    | zero => exact ⟨rfl, rfl⟩
    | succ i =>
      obtain ⟨hpull, hsway⟩ := ih i
      show pull (s :: setSlot i slot l) = _ ∧ sway (s :: setSlot i slot l) = _
      rw [pull_cons, sway_cons, pull_cons, sway_cons, hpull, hsway]
      exact ⟨rfl, rfl⟩

/-- Another slot changes none of the recorded moves. -/
theorem pending_setSlot (i : ℕ) (slot : Slot ℚ) (l : List (Sibling ℚ)) (j : ℕ) :
    pending (setSlot i slot l) j = pending l j := by
  rw [pending, pending]
  rcases Nat.lt_or_ge i (j + 1) with hi | hi
  · rw [setSlot, List.drop_modify_of_lt _ _ _ _ hi]
  · rw [setSlot, List.drop_modify_of_ge _ _ _ _ hi, ← setSlot, (pull_setSlot _ _ _).1]

theorem figures_setSlot (i : ℕ) (slot : Slot ℚ) (l : List (Sibling ℚ)) :
    (setSlot i slot l).map Sibling.figure =
      (l.map Sibling.figure).modify i fun x => (slot, x.2) := by
  apply List.ext_getElem?
  intro k
  rw [List.getElem?_map, setSlot, List.getElem?_modify, List.getElem?_modify, List.getElem?_map]
  cases l[k]? with
  | none => rfl
  | some s => split <;> rfl

/-! ### What a new subtree does to a row -/

/-- A row with one more subtree: the older trees move by their parts, the new one by `far`, and the
outlines go on into the deeper one. -/
structure Added (f : Forest ℚ) (d : Drawn ℚ) (part : ℕ → ℚ) (far : ℚ) (g : Forest ℚ) : Prop where
  places : g.figures.map Figure.places = f.figures.map Figure.places ++ [shift far d.figure.places]
  moves : ∀ j, pending g.siblings j = pending f.siblings j + part j
  left : g.leftPlaces = leftBound f.leftPlaces (walk d.slot.modifier d.left) far
  right : g.rightPlaces =
    rightBound f.rightPlaces (walk d.slot.modifier d.right) f.siblings.length far

/-- The walk between a row and a new subtree. -/
def meeting (f : Forest ℚ) (d : Drawn ℚ) (oldest youngest : Sibling ℚ) : Contact ℚ :=
  contact f.right d.left f.left d.right
    ⟨youngest.modifier, d.slot.modifier, oldest.modifier, d.slot.modifier⟩

theorem leftPlaces_eq {f : Forest ℚ} {x : Figure} (h : f.figures.head? = some x) :
    f.leftPlaces = walk x.1.modifier f.left := by
  rw [leftPlaces, h]
  rfl

theorem rightPlaces_eq {f : Forest ℚ} {x : Figure} (h : f.figures.getLast? = some x) :
    f.rightPlaces = (f.right.map (·.1)).zip (walk x.1.modifier (f.right.map (·.2))) := by
  rw [rightPlaces, h]
  rfl

theorem zip_const {γ δ : Type} (index : ℕ) {o : List γ} {l : List δ} (h : o.length = l.length) :
    (o.map fun _ => index).zip l = l.map fun y => (index, y) := by
  apply List.ext_getElem
  · simp [h]
  · intro i h₁ h₂
    simp

/-- The right places, when all of the outline lies below the sibling at `index`. -/
theorem rightPlaces_own {f : Forest ℚ} {x : Figure} {index : ℕ} {o : Outline ℚ}
    (h : f.figures.getLast? = some x) (hright : f.right = o.map fun s => (index, s)) :
    f.rightPlaces = (walk x.1.modifier o).map fun y => (index, y) := by
  rw [rightPlaces_eq h, hright, List.map_map, List.map_map]
  show (o.map fun _ => index).zip (walk x.1.modifier (o.map id)) = _
  rw [List.map_id, zip_const index (length_walk _ _).symm]

section Cases

variable {f : Forest ℚ} {d : Drawn ℚ} {oldest youngest : Sibling ℚ}

theorem head?_figures (ho : f.siblings.head? = some oldest) :
    f.figures.head? = some oldest.figure := by
  rw [figures, List.head?_map, ho]
  rfl

theorem getLast?_figures (hy : f.siblings.getLast? = some youngest) :
    f.figures.getLast? = some youngest.figure := by
  rw [figures, List.getLast?_map, hy]
  rfl

theorem meeting_spec (hf : f.Sound) (hd : d.Sound) (oldest youngest : Sibling ℚ) :
    Contact.Spec f.right d.left f.left d.right
      ⟨youngest.modifier, d.slot.modifier, oldest.modifier, d.slot.modifier⟩
      (f.meeting d oldest youngest) :=
  contact_spec hf.length_left hd.length _

/-- Every push starts from a sibling of the row. -/
theorem owner_lt_of_push (hf : f.Sound) (hd : d.Sound) (oldest youngest : Sibling ℚ) :
    ∀ p ∈ (f.meeting d oldest youngest).pushes, p.1 < f.siblings.length := by
  intro p hp
  obtain ⟨-, i, -, q, hq, hpq⟩ := (meeting_spec hf hd oldest youngest).pushed p hp
  obtain ⟨hi, -⟩ := List.getElem?_eq_some_iff.mp hq
  have hi' : i < f.rightPlaces.length := by rwa [length_rightPlaces]
  have howner : f.rightPlaces[i].1 = p.1 := by
    rw [← hpq]
    simp only [rightPlaces, List.getElem_zip, List.getElem_map]
    rw [(List.getElem?_eq_some_iff.mp hq).2]
  rw [← howner, ← length_row]
  exact hf.framed.owner_lt _ (List.getElem_mem hi')

theorem head?_pushed (ho : f.siblings.head? = some oldest) (pushes : List (ℕ × ℚ))
    (left : Outline ℚ) (right : List (ℕ × Slot ℚ)) :
    (figures ⟨f.pushed d pushes, left, right⟩).head? = some oldest.figure := by
  rw [figures, figures_pushed, List.head?_append, head?_figures ho]
  rfl

theorem getLast?_pushed (pushes : List (ℕ × ℚ)) (left : Outline ℚ) (right : List (ℕ × Slot ℚ)) :
    (figures ⟨f.pushed d pushes, left, right⟩).getLast? =
      some (moveFigure (total pushes) d.figure) := by
  rw [figures, figures_pushed, List.getLast?_concat]

theorem slot_pushed (f : Forest ℚ) (d : Drawn ℚ) (pushes : List (ℕ × ℚ)) :
    ((f.pushed d pushes)[f.siblings.length]?.map (·.toSlot)).getD d.slot =
      d.slot.moveBy (total pushes) := by
  have hfigure : ((f.pushed d pushes)[f.siblings.length]?).map Sibling.figure =
      some (moveFigure (total pushes) d.figure) := by
    rw [← List.getElem?_map, figures_pushed, ← length_figures, List.getElem?_concat_length]
  obtain ⟨s, hs, hfig⟩ := Option.map_eq_some_iff.mp hfigure
  rw [hs]
  exact congrArg Prod.fst hfig

theorem slot_oldest (ho : f.siblings.head? = some oldest) (pushes : List (ℕ × ℚ)) :
    ((f.pushed d pushes).head?.map (·.toSlot)).getD oldest.toSlot = oldest.toSlot := by
  have hfigure : ((f.pushed d pushes).head?).map Sibling.figure = some oldest.figure := by
    rw [← List.head?_map]
    exact head?_pushed ho pushes [] []
  obtain ⟨s, hs, hfig⟩ := Option.map_eq_some_iff.mp hfigure
  rw [hs]
  exact congrArg Prod.fst hfig

/-- A row whose left outline is not shorter than that of the new subtree keeps it. -/
theorem leftBound_of_le (hf : f.Sound) (hle : d.left.length ≤ f.right.length) (far : ℚ) :
    leftBound f.leftPlaces (walk d.slot.modifier d.left) far = f.leftPlaces := by
  rw [leftBound, List.drop_eq_nil_of_le, List.append_nil]
  rwa [List.length_map, length_walk, leftPlaces, length_walk, hf.length_left]

/-- A new subtree that is not shallower than the row hides the row's right outline. -/
theorem rightBound_of_le (hd : d.Sound) (hle : f.right.length ≤ d.left.length) (index : ℕ)
    (far : ℚ) :
    rightBound f.rightPlaces (walk d.slot.modifier d.right) index far =
      (walk (d.slot.modifier + far) d.right).map fun y => (index, y) := by
  rw [rightBound, List.drop_eq_nil_of_le, List.append_nil, walk_add, List.map_map]
  · rfl
  · rwa [length_rightPlaces, length_walk, hd.length]

/-- Neither outline goes on: the row and the new subtree are equally deep. -/
theorem added_neither (hf : f.Sound) (hd : d.Sound) (ho : f.siblings.head? = some oldest)
    {pushes : List (ℕ × ℚ)} (hp : ∀ p ∈ pushes, p.1 < f.siblings.length)
    (hlength : d.left.length = f.right.length) :
    Added f d (shares pushes f.siblings.length) (total pushes)
      ⟨f.pushed d pushes, f.left, d.right.map fun s => (f.siblings.length, s)⟩ where
  places := by
    rw [figures, figures_pushed, List.map_append, List.map_singleton, places_moveFigure]
  moves := pending_pushed hp
  left := by
    rw [leftBound_of_le hf hlength.le, leftPlaces_eq (head?_figures ho)]
    exact leftPlaces_eq (head?_pushed ho _ _ _)
  right := by
    rw [rightBound_of_le hd hlength.ge]
    exact rightPlaces_own (getLast?_pushed _ _ _) rfl

/-- The row is deeper: the right outline of the new subtree goes on into that of the row. -/
theorem added_row (hf : f.Sound) (hd : d.Sound) (ho : f.siblings.head? = some oldest)
    (hy : f.siblings.getLast? = some youngest) {pushes : List (ℕ × ℚ)}
    (hp : ∀ p ∈ pushes, p.1 < f.siblings.length) (gap : ℚ)
    (hgap : endSum (d.slot.modifier + total pushes) d.right + gap =
      endSum youngest.modifier ((f.right.map (·.2)).take d.left.length))
    (hlt : d.left.length < f.right.length) :
    Added f d (shares pushes f.siblings.length) (total pushes)
      ⟨setSlot f.siblings.length (widenEnd gap (d.slot.moveBy (total pushes)) d.right).1
          (f.pushed d pushes),
        f.left,
        (widenEnd gap (d.slot.moveBy (total pushes)) d.right).2.map
          (fun s => (f.siblings.length, s)) ++ f.right.drop d.left.length⟩ := by
  have hfigures : ∀ left right, figures
      ⟨setSlot f.siblings.length (widenEnd gap (d.slot.moveBy (total pushes)) d.right).1
        (f.pushed d pushes), left, right⟩ =
      f.figures ++ [((widenEnd gap (d.slot.moveBy (total pushes)) d.right).1, d.below)] := by
    intro left right
    rw [figures, figures_setSlot, figures_pushed, ← length_figures, modify_concat]
    rfl
  constructor
  · rw [hfigures, List.map_append, List.map_singleton, places_widenEnd _ _ hd.below_eq_nil]
    rw [← places_moveFigure]
    rfl
  · intro j
    rw [pending_setSlot, pending_pushed hp]
  · rw [leftBound_of_le hf hlt.le, leftPlaces_eq (head?_figures ho)]
    refine leftPlaces_eq (x := oldest.figure) ?_
    rw [hfigures, List.head?_append, head?_figures ho]
    rfl
  · have hwalk : walk (widenEnd gap (d.slot.moveBy (total pushes)) d.right).1.modifier
        ((widenEnd gap (d.slot.moveBy (total pushes)) d.right).2 ++
          (f.right.map (·.2)).drop d.left.length) =
        walk (d.slot.modifier + total pushes) d.right ++
          (walk youngest.modifier (f.right.map (·.2))).drop d.left.length := by
      rw [walk_widenEnd, ← walk_drop, ← hgap]
      rfl
    have hown : ((widenEnd gap (d.slot.moveBy (total pushes)) d.right).2.map
        fun _ => f.siblings.length).zip (walk (d.slot.modifier + total pushes) d.right) =
        (walk (d.slot.modifier + total pushes) d.right).map fun y => (f.siblings.length, y) :=
      zip_const _ (by rw [length_widenEnd, length_walk])
    rw [rightPlaces_eq (by rw [hfigures, List.getLast?_concat]), rightBound,
      rightPlaces_eq (getLast?_figures hy), List.zip, List.drop_zipWith, length_walk, hd.length]
    simp only [List.map_append, List.map_map, List.map_drop]
    show ((widenEnd gap (d.slot.moveBy (total pushes)) d.right).2.map
        (fun _ => f.siblings.length) ++ (f.right.map (·.1)).drop d.left.length).zip
      (walk _ ((widenEnd gap (d.slot.moveBy (total pushes)) d.right).2.map id ++ _)) = _
    rw [List.map_id, hwalk, List.zip_append (by simp), hown, walk_add, List.map_map]
    rfl

/-- The new subtree is deeper: the left outline of the row goes on into that of the new subtree. -/
theorem added_new (hf : f.Sound) (hd : d.Sound) (ho : f.siblings.head? = some oldest)
    {pushes : List (ℕ × ℚ)} (hp : ∀ p ∈ pushes, p.1 < f.siblings.length) (gap : ℚ)
    (hgap : endSum oldest.modifier f.left + gap =
      endSum d.slot.modifier (d.left.take f.right.length) + total pushes)
    (hlt : f.right.length < d.left.length) :
    Added f d (shares pushes f.siblings.length) (total pushes)
      ⟨setSlot 0 (widenEnd gap oldest.toSlot f.left).1 (f.pushed d pushes),
        (widenEnd gap oldest.toSlot f.left).2 ++ d.left.drop f.right.length,
        d.right.map fun s => (f.siblings.length, s)⟩ := by
  obtain ⟨rest, hrest⟩ : ∃ rest, f.figures = oldest.figure :: rest := by
    have hhead := head?_figures ho
    cases hcases : f.figures with
    | nil => simp [hcases] at hhead
    | cons x rest => exact ⟨rest, by simpa [hcases] using hhead⟩
  have hfigures : ∀ left right, figures
      ⟨setSlot 0 (widenEnd gap oldest.toSlot f.left).1 (f.pushed d pushes), left, right⟩ =
      ((widenEnd gap oldest.toSlot f.left).1, oldest.below) ::
        (rest ++ [moveFigure (total pushes) d.figure]) := by
    intro left right
    rw [figures, figures_setSlot, figures_pushed, hrest, List.cons_append, List.modify_zero_cons]
    rfl
  have hbelow : f.left = [] → oldest.below = [] := fun hl => hf.below_eq_nil hl (head?_figures ho)
  have hlast : ∀ left right, (figures
      ⟨setSlot 0 (widenEnd gap oldest.toSlot f.left).1 (f.pushed d pushes), left, right⟩).getLast? =
      some (moveFigure (total pushes) d.figure) := by
    intro left right
    rw [hfigures, ← List.cons_append, List.getLast?_concat]
  constructor
  · rw [hfigures, hrest, List.map_cons, List.map_append, List.map_singleton, places_moveFigure,
      places_widenEnd _ _ hbelow]
    rfl
  · intro j
    rw [pending_setSlot, pending_pushed hp]
  · have hdrop : (walk d.slot.modifier d.left).drop f.right.length =
        walk (endSum d.slot.modifier (d.left.take f.right.length)) (d.left.drop f.right.length) :=
      (walk_drop _ _ _).symm
    rw [leftPlaces_eq (by rw [hfigures]; rfl), leftBound, leftPlaces_eq (head?_figures ho),
      walk_widenEnd, hgap, walk_add, length_walk, hf.length_left, ← List.map_drop, hdrop]
    rfl
  · rw [rightBound_of_le hd hlt.le]
    exact rightPlaces_own (hlast _ _) rfl

end Cases

/-- **One more subtree beside a row.**  The pushes decide how far each tree moves. -/
theorem add_added {f : Forest ℚ} {d : Drawn ℚ} (hf : f.Sound) (hd : d.Sound)
    {oldest youngest : Sibling ℚ} (ho : f.siblings.head? = some oldest)
    (hy : f.siblings.getLast? = some youngest) :
    Added f d (shares (f.meeting d oldest youngest).pushes f.siblings.length)
      (total (f.meeting d oldest youngest).pushes) (f.add d) := by
  have hspec := meeting_spec hf hd oldest youngest
  have hp := owner_lt_of_push hf hd oldest youngest
  have hdeeper := hspec.deeper_eq hf.length_left hd.length
  have htop := slot_pushed f d (f.meeting d oldest youngest).pushes
  have hold := slot_oldest (d := d) ho (f.meeting d oldest youngest).pushes
  rw [add, ho, hy]
  rcases Nat.lt_trichotomy d.left.length f.right.length with hlt | heq | hgt
  · rw [if_pos hlt] at hdeeper
    have hadded := added_row hf hd ho hy hp
      ((f.meeting d oldest youngest).sums.rowInner -
        (f.meeting d oldest youngest).sums.newOuter) ?_ hlt
    · simp only [← meeting.eq_1, hdeeper]
      rw [← htop] at hadded
      exact hadded
    · have htake : d.right.take f.right.length = d.right :=
        List.take_of_length_le (by rw [hd.length]; omega)
      rw [hspec.sumRowInner, hspec.sumNewOuter, htake, endSum_add]
      ring
  · rw [if_neg (by omega), if_neg (by omega)] at hdeeper
    simp only [← meeting.eq_1, hdeeper]
    exact added_neither hf hd ho hp heq
  · rw [if_neg (by omega), if_pos hgt] at hdeeper
    have hadded := added_new hf hd ho hp
      ((f.meeting d oldest youngest).sums.newInner -
        (f.meeting d oldest youngest).sums.rowOuter) ?_ hgt
    · simp only [← meeting.eq_1, hdeeper]
      rw [← hold] at hadded
      exact hadded
    · have htake : f.left.take d.left.length = f.left :=
        List.take_of_length_le (by rw [hf.length_left]; omega)
      rw [hspec.sumNewInner, hspec.sumRowOuter, htake]
      ring

/-- The row after one more subtree. -/
theorem Added.row_eq {f g : Forest ℚ} {d : Drawn ℚ} {part : ℕ → ℚ} {far : ℚ}
    (h : Added f d part far g) (hpart : part f.siblings.length = 0) :
    g.row = parted f.row d.figure.places part far := by
  rw [row, h.places, List.mapIdx_append, parted, row, List.mapIdx_mapIdx]
  congr 1
  · congr 1
    funext j t
    rw [h.moves]
    exact (shift_shift _ _ t).symm
  · -- nothing moves the youngest sibling
    have hlast : pending f.siblings f.siblings.length = 0 := pending_of_le (Nat.le_succ _)
    show [shift (pending g.siblings (0 + (f.figures.map Figure.places).length)) _] = _
    rw [List.length_map, length_figures, zero_add, h.moves, hlast, hpart, zero_add, shift_zero]

/-- The parts and the way of a new subtree set it apart from the row. -/
theorem parting_meeting {f : Forest ℚ} {d : Drawn ℚ} (hf : f.Sound) (hd : d.Sound)
    {oldest youngest : Sibling ℚ} (hy : f.siblings.getLast? = some youngest) :
    Parting f.row f.rightPlaces (walk d.slot.modifier d.left)
      (shares (f.meeting d oldest youngest).pushes f.siblings.length)
      (total (f.meeting d oldest youngest).pushes) := by
  have hspec := meeting_spec hf hd oldest youngest
  have hpos : ∀ p ∈ (f.meeting d oldest youngest).pushes, 0 ≤ p.2 :=
    fun p hp => (hspec.pushed p hp).1.le
  have hplaces := rightPlaces_eq (getLast?_figures hy)
  -- an owner on the right outline is one of the right places
  have howner : ∀ (i : ℕ) (q : ℕ × Slot ℚ), f.right[i]? = some q →
      ∃ x : ℚ, f.rightPlaces[i]? = some (q.1, x) := by
    intro i q hq
    have hi : i < (walk youngest.modifier (f.right.map (·.2))).length := by
      rw [length_walk, List.length_map]
      exact (List.getElem?_eq_some_iff.mp hq).1
    refine ⟨(walk youngest.modifier (f.right.map (·.2)))[i], ?_⟩
    rw [hplaces, List.getElem?_zip_eq_some, List.getElem?_map, hq]
    exact ⟨rfl, List.getElem?_eq_getElem hi⟩
  constructor
  · exact fun j => shares_nonneg hpos _ j
  · intro i j hij hj
    rw [length_row] at hj
    exact shares_mono hpos hij hj
  · exact fun j => shares_le_total hpos _ j
  · intro j k hj q l hq hl
    rw [hplaces, List.getElem?_zip_eq_some] at hq
    refine contact_clear hf.length_left hd.length _ ?_ hq.2 hl
    intro i hik p hp
    obtain ⟨x, hx⟩ := howner i p hp
    exact hj i hik _ hx
  · intro j hj
    refine shares_eq_zero ?_ _
    intro p hp
    obtain ⟨-, i, hi, q, hq, hpq⟩ := hspec.pushed p hp
    obtain ⟨x, hx⟩ := howner i q hq
    rw [← hpq]
    exact hj i (by rwa [length_walk]) _ hx

/-- A row without siblings has no outlines. -/
theorem Sound.right_eq_nil {f : Forest ℚ} (hf : f.Sound) (h : f.siblings = []) : f.right = [] := by
  refine List.eq_nil_of_length_eq_zero ?_
  rw [← length_rightPlaces, List.length_eq_zero_iff, List.eq_nil_iff_forall_not_mem]
  intro q hq
  have hlt := hf.framed.owner_lt q hq
  rw [length_row, h] at hlt
  exact Nat.not_lt_zero _ hlt

/-- The first subtree of a row. -/
theorem add_first {f : Forest ℚ} {d : Drawn ℚ} (hf : f.Sound) (h : f.siblings = []) :
    Added f d (fun _ => 0) 0 (f.add d) := by
  have hright := hf.right_eq_nil h
  have hleft : f.left = [] := List.eq_nil_of_length_eq_zero (by rw [hf.length_left, hright]; rfl)
  have hadd : f.add d =
      ⟨[{ d.slot with change := 0, shift := 0, below := d.below }], d.left,
        d.right.map fun s => (0, s)⟩ := by
    rw [add, h]
    rfl
  constructor
  · rw [hadd, figures, figures, h, shift_zero]
    rfl
  · intro j
    rw [hadd, pending_of_le (Nat.succ_le_succ (Nat.zero_le j)), h, pending_of_le (Nat.zero_le _),
      add_zero]
  · rw [hadd, leftPlaces_eq (x := d.figure) rfl, leftBound, leftPlaces, hleft]
    simp [walk, Drawn.figure]
  · rw [hadd, rightPlaces_own (x := d.figure) (o := d.right) rfl rfl, rightBound, rightPlaces,
      hright, h]
    simp [Drawn.figure]

/-- The root of a subtree set beside the youngest sibling is clear of all siblings. -/
theorem root_clear {f : Forest ℚ} {d : Drawn ℚ} (hf : f.Sound)
    (hroot : ∀ y, f.lastPrelim? = some y → d.slot.prelim = y + 1) :
    ∀ s ∈ f.row, s.value + 1 ≤ d.figure.places.value := by
  intro s hs
  have hne : f.siblings ≠ [] := by
    intro hnil
    rw [row, figures, hnil] at hs
    simp at hs
  have hy := List.getLast?_eq_some_getLast hne
  have hprelim := hroot (f.siblings.getLast hne).prelim (by rw [lastPrelim?, hy]; rfl)
  have hlast := getLast?_row (getLast?_figures hy)
  have hvalue : (f.siblings.getLast hne).figure.places.value =
    (f.siblings.getLast hne).prelim := Figure.value_places _
  rw [Figure.value_places]
  show s.value + 1 ≤ d.slot.prelim
  rw [hprelim, ← hvalue]
  have hle := hf.framed.le_last hlast hs
  linarith

/-- **One more subtree beside a row.**  It sets all older trees apart by parts of its own way; the oldest
sibling stays. -/
theorem exists_added {f : Forest ℚ} {d : Drawn ℚ} (hf : f.Sound) (hd : d.Sound) :
    ∃ part far, Parting f.row f.rightPlaces (walk d.slot.modifier d.left) part far ∧
      Added f d part far (f.add d) ∧ part 0 = 0 ∧ part f.siblings.length = 0 := by
  by_cases hnil : f.siblings = []
  · refine ⟨fun _ => 0, 0, ?_, add_first hf hnil, rfl, rfl⟩
    have hright : f.rightPlaces = [] := by rw [rightPlaces, hf.right_eq_nil hnil]; rfl
    rw [hright]
    exact
      { nonneg := fun _ => le_refl 0
        mono := fun _ _ _ _ => le_refl 0
        le_far := fun _ => le_refl 0
        clear := by simp
        still := fun _ _ => rfl }
  · have ho := List.head?_eq_some_head hnil
    have hy := List.getLast?_eq_some_getLast hnil
    exact ⟨_, _, parting_meeting hf hd hy, add_added hf hd ho hy,
      shares_eq_zero (fun p _ => Nat.zero_le p.1) _, shares_self _ _⟩

/-- **Keeping the row sound.**  A sound subtree, whose root is set beside the youngest sibling, joins a
sound row. -/
theorem Sound.add {f : Forest ℚ} {d : Drawn ℚ} (hf : f.Sound) (hd : d.Sound)
    (hroot : ∀ y, f.lastPrelim? = some y → d.slot.prelim = y + 1) : (f.add d).Sound := by
  obtain ⟨part, far, hp, ha, hfirst, hlast⟩ := exists_added hf hd
  constructor
  · rw [ha.row_eq hlast, ha.left, ha.right, ← length_row]
    exact hf.framed.concat hd (root_clear hf hroot) hp
  · rw [ha.moves, hf.still, hfirst, add_zero]

/-- The sweep carries out what is pending. -/
theorem map_places_spread (f : Forest ℚ) :
    (spread f.siblings).map (fun s => s.figure.places) = f.row := by
  apply List.ext_getElem?
  intro j
  rw [row, figures, spread_eq_mapIdx, List.getElem?_map, List.getElem?_mapIdx,
    List.getElem?_mapIdx, List.getElem?_map, List.getElem?_map]
  cases f.siblings[j]? with
  | none => rfl
  | some s => exact congrArg some (places_moveFigure _ s.figure)

theorem head?_spread {f : Forest ℚ} (hf : f.Sound) {s : Sibling ℚ}
    (hs : f.siblings.head? = some s) : (spread f.siblings).head? = some s := by
  rw [List.head?_eq_getElem?] at hs ⊢
  rw [spread_eq_mapIdx, List.getElem?_mapIdx, hs, hf.still]
  simp [Sibling.moveBy, Slot.moveBy]

theorem getLast?_spread {f : Forest ℚ} {s : Sibling ℚ} (hs : f.siblings.getLast? = some s) :
    (spread f.siblings).getLast? = some s := by
  have hlast : pending f.siblings (f.siblings.length - 1) = 0 := pending_of_le (by omega)
  rw [List.getLast?_eq_getElem?] at hs ⊢
  rw [spread_eq_mapIdx, List.length_mapIdx, List.getElem?_mapIdx, hs, hlast]
  simp [Sibling.moveBy, Slot.moveBy]

/-- The places below a root are those of the row, moved as a whole. -/
theorem places_above (f : Forest ℚ) (slot : Slot ℚ) :
    Figure.places (slot, (spread f.siblings).map fun s => .node s.toSlot s.below) =
      shift slot.modifier (.node (slot.prelim - slot.modifier) f.row) := by
  have hrow : (spread f.siblings).map (fun s => settle (.node s.toSlot s.below) slot.modifier) =
      f.row.map (shift slot.modifier) := by
    rw [← map_places_spread, List.map_map]
    refine List.map_congr_left ?_
    intro s _
    show settle (.node s.toSlot s.below) slot.modifier =
      shift slot.modifier (settle (.node s.toSlot s.below) 0)
    rw [← settle_add, zero_add]
  rw [Figure.places_eq, shift_node, sub_add_cancel, List.map_map]
  exact congrArg _ hrow

/-- What is drawn of a root above a row. -/
def above (f : Forest ℚ) (oldest youngest : Sibling ℚ) (slot : Slot ℚ) : Drawn ℚ where
  slot := slot
  below := (spread f.siblings).map fun s => .node s.toSlot s.below
  left := oldest.toSlot :: f.left
  right := youngest.toSlot :: f.right.map (·.2)

theorem walk_above (m : ℚ) (s : Sibling ℚ) (o : Outline ℚ) :
    walk m (s.toSlot :: o) = (s.figure.places.value :: walk s.modifier o).map (· + m) := by
  rw [walk, List.map_cons, ← walk_add, Figure.value_places, add_comm m]
  rfl

/-- Whatever slot the root above a sound row gets, it moves the row and its outlines as a whole. -/
theorem outlines_above {f : Forest ℚ} {oldest youngest : Sibling ℚ}
    (ho : f.siblings.head? = some oldest) (hy : f.siblings.getLast? = some youngest) (slot : Slot ℚ) :
    walk slot.modifier (f.above oldest youngest slot).left =
        (oldest.figure.places.value :: f.leftPlaces).map (· + slot.modifier) ∧
      walk slot.modifier (f.above oldest youngest slot).right =
        (youngest.figure.places.value :: f.rightPlaces.map (·.2)).map (· + slot.modifier) := by
  rw [leftPlaces_eq (head?_figures ho), rightPlaces_eq (getLast?_figures hy),
    List.map_snd_zip (by simp)]
  exact ⟨walk_above _ _ _, walk_above _ _ _⟩

theorem sound_above {f : Forest ℚ} (hf : f.Sound) {oldest youngest : Sibling ℚ}
    (ho : f.siblings.head? = some oldest) (hy : f.siblings.getLast? = some youngest)
    (slot : Slot ℚ) : (f.above oldest youngest slot).Sound := by
  have houtlined := (hf.framed.crown (hf.head?_row (head?_figures ho))
    (getLast?_row (getLast?_figures hy)) (slot.prelim - slot.modifier)).shift slot.modifier
  obtain ⟨hleft, hright⟩ := outlines_above ho hy slot
  rw [Drawn.Sound, Drawn.figure]
  show Outlined (Figure.places (slot, _)) (walk slot.modifier _) (walk slot.modifier _)
  rw [hleft, hright, above, places_above]
  exact houtlined

/-- **A root above a row** is a leaf if there is no row, and else stands as far from the middle of the row as
its slot says. -/
theorem crown_eq {f : Forest ℚ} (hf : f.Sound) (beside : Option ℚ) :
    (f.siblings = [] ∧ f.crown beside = ⟨⟨(beside.map (· + siblingGap)).getD 0, 0⟩, [], [], []⟩) ∨
      ∃ oldest youngest slot, f.siblings.head? = some oldest ∧ f.siblings.getLast? = some youngest ∧
        slot.prelim - slot.modifier = (oldest.prelim + youngest.prelim) / 2 ∧
        f.crown beside = f.above oldest youngest slot := by
  by_cases hnil : f.siblings = []
  · refine Or.inl ⟨hnil, ?_⟩
    rw [Forest.crown, hnil]
    rfl
  · have ho := List.head?_eq_some_head hnil
    have hy := List.getLast?_eq_some_getLast hnil
    refine Or.inr ⟨_, _, (f.crown beside).slot, ho, hy, ?_, ?_⟩
    · rw [Forest.crown, head?_spread hf ho, getLast?_spread hy]
      cases beside with
      | none => exact sub_zero _
      | some y => exact sub_sub_cancel _ _
    · rw [Forest.crown, head?_spread hf ho, getLast?_spread hy]
      rfl

/-- **A root above a sound row.** -/
theorem Sound.crown {f : Forest ℚ} (hf : f.Sound) (beside : Option ℚ) :
    (f.crown beside).Sound := by
  rcases crown_eq hf beside with ⟨-, hleaf⟩ | ⟨oldest, youngest, slot, ho, hy, -, habove⟩
  · rw [hleaf]
    exact Outlined.leaf _
  · rw [habove]
    exact sound_above hf ho hy slot

/-- The root stands one unit to the right of its older sibling. -/
theorem prelim_crown (f : Forest ℚ) (y : ℚ) : (f.crown (some y)).slot.prelim = y + 1 := by
  rw [Forest.crown]
  split <;> rfl

end Forest

end FlowTree.Tidy
