import FlowTree.Proofs.Arena.Outlines

/-!
# Walks down the outlines in an array

* **`Adjoins`** says that a subtree is the next one in a row, **`Owned`** that the sibling below which a cell of the
  facing outline hangs is found.
* **`Net.moveSubtree_eq`** and **`Net.keepApart_eq`** say what a push does to the row.
* **`Net.round_eq`** is one level of the way down.  **`Net.descend_eq`** says that nothing goes wrong on all of it, and
  that what is found and recorded is what `contact` finds.
-/

namespace FlowTree.Tidy

variable {α : Type}

/-! ### Changes of siblings -/

namespace Sibling

variable [Scalar α]

/-- The younger one of two siblings after a push, which adds to the steps between them. -/
def pushed (change shift : α) (s : Sibling α) : Sibling α :=
  { s with change := s.change - change, shift := s.shift + shift }

/-- The older one of two siblings after a push. -/
def braced (change : α) (s : Sibling α) : Sibling α := { s with change := s.change + change }

/-- The sibling and all below it moved. -/
def movedBy (d : α) (s : Sibling α) : Sibling α := { s with prelim := s.prelim + d, modifier := s.modifier + d }

end Sibling

namespace Cell

theorem data_eq_iff {c : Cell α} {s : Sibling α} :
    c.data = s.data ↔ c.prelim = s.prelim ∧ c.modifier = s.modifier ∧ c.change = s.change ∧
    c.shift = s.shift := by
  obtain ⟨_, ⟨_, _⟩, _, _, _, _, _⟩ := c
  obtain ⟨⟨_, _⟩, _, _, _⟩ := s
  simp [data, Sibling.data, and_assoc]

theorem links_claimed (v : ℕ) (c : Cell α) : (c.claimed v).links = c.links := rfl

theorem data_claimed (v : ℕ) (c : Cell α) : (c.claimed v).data = c.data := rfl

variable [Scalar α]

theorem links_pushed (change shift : α) (c : Cell α) : (c.pushed change shift).links = c.links := rfl

theorem links_braced (change : α) (c : Cell α) : (c.braced change).links = c.links := rfl

theorem links_movedBy (d : α) (c : Cell α) : (c.movedBy d).links = c.links := rfl

theorem data_pushed (change shift : α) (c : Cell α) (s : Sibling α) (h : c.data = s.data) :
    (c.pushed change shift).data = (s.pushed change shift).data := by
  rw [data_eq_iff] at h ⊢
  exact ⟨h.1, h.2.1, congrArg (· - change) h.2.2.1, congrArg (· + shift) h.2.2.2⟩

theorem data_braced (change : α) (c : Cell α) (s : Sibling α) (h : c.data = s.data) :
    (c.braced change).data = (s.braced change).data := by
  rw [data_eq_iff] at h ⊢
  exact ⟨h.1, h.2.1, congrArg (· + change) h.2.2.1, h.2.2.2⟩

theorem data_movedBy (d : α) (c : Cell α) (s : Sibling α) (h : c.data = s.data) :
    (c.movedBy d).data = (s.movedBy d).data := by
  rw [data_eq_iff] at h ⊢
  exact ⟨congrArg (· + d) h.1, congrArg (· + d) h.2.1, h.2.2.1, h.2.2.2⟩

end Cell

/-- A push changes the younger sibling before and after the older one. -/
theorem moveSubtree_eq_modify [Scalar α] {fixed wide : ℕ} (hne : fixed ≠ wide) (shift : α) (row : List (Sibling α)) :
    moveSubtree fixed wide shift row =
      ((row.modify wide (Sibling.pushed (shift / (Scalar.ofNat wide - Scalar.ofNat fixed)) shift)).modify fixed
        (Sibling.braced (shift / (Scalar.ofNat wide - Scalar.ofNat fixed)))).modify wide (Sibling.movedBy shift) := by
  apply List.ext_getElem?
  intro i
  simp only [moveSubtree, List.getElem?_modify, Option.map_eq_map, Option.map_map]
  congr 1
  funext s
  by_cases hw : wide = i
  · have hf : fixed ≠ i := hw ▸ hne
    simp [hw, hf, Sibling.pushed, Sibling.movedBy]
  · by_cases hf : fixed = i <;> simp [hw, hf, Sibling.braced]

/-! ### What a walk down the outlines finds -/

namespace Sums

variable [Scalar α]

/-- How far two facing cells are from the least distance. -/
def overlap (sums : Sums α) (a b : Slot α) : α :=
  a.prelim + sums.rowInner - b.prelim - sums.newInner + cousinGap

/-- The sums after a push if there is one. -/
def kept (sums : Sums α) (a b : Slot α) : Sums α :=
  if Scalar.lt Scalar.zero (sums.overlap a b) then
    { sums with newInner := sums.newInner + sums.overlap a b, newOuter := sums.newOuter + sums.overlap a b }
  else sums

/-- The sums one level deeper. -/
def below (sums : Sums α) (a b c d : Slot α) : Sums α where
  rowInner := sums.rowInner + a.modifier
  newInner := sums.newInner + b.modifier
  rowOuter := sums.rowOuter + c.modifier
  newOuter := sums.newOuter + d.modifier

end Sums

/-- The pushes of a walk recorded at a row. -/
def recorded [Scalar α] (pushes : List (ℕ × α)) (index : ℕ) (row : List (Sibling α)) : List (Sibling α) :=
  pushes.foldl (fun row p => moveSubtree p.1 index p.2 row) row

/-- One step of the walk. -/
theorem contact_step [Scalar α] (e : ℕ × Slot α) (b c d : Slot α) (row : List (ℕ × Slot α))
    (new rowOuter newOuter : Outline α) (sums : Sums α) :
    contact (e :: row) (b :: new) (c :: rowOuter) (d :: newOuter) sums =
      let rest := contact row new rowOuter newOuter ((sums.kept e.2 b).below e.2 b c d)
      if Scalar.lt Scalar.zero (sums.overlap e.2 b) then
        { rest with pushes := (e.1, sums.overlap e.2 b) :: rest.pushes } else rest := by
  obtain ⟨owner, a⟩ := e
  rfl

theorem contact_row_ended [Scalar α] (ni ro no : Outline α) (sums : Sums α) :
    contact [] ni ro no sums = ⟨[], sums, [], ni, ro, no⟩ := rfl

theorem contact_new_ended [Scalar α] (ri : List (ℕ × Slot α)) (ro no : Outline α) (sums : Sums α) :
    contact ri [] ro no sums = ⟨[], sums, ri, [], ro, no⟩ := by
  cases ri <;> rfl

/-! ### Rows of subtrees -/

section Row

variable {us : List Wires} (h : (us.flatMap slots).Nodup)
include h

theorem index_eq_of_mem_slots {i j : ℕ} {u w : Wires} (hu : us[i]? = some u) (hw : us[j]? = some w) {x : ℕ}
    (hx : x ∈ slots u) (hx' : x ∈ slots w) : i = j := by
  have hpairwise := List.pairwise_iff_getElem.mp (List.nodup_flatMap.mp h).2
  obtain ⟨hi, rfl⟩ := List.getElem?_eq_some_iff.mp hu
  obtain ⟨hj, rfl⟩ := List.getElem?_eq_some_iff.mp hw
  rcases Nat.lt_trichotomy i j with hlt | heq | hlt
  · exact absurd hx' fun hx' => hpairwise i j hi hj hlt hx hx'
  · exact heq
  · exact absurd hx fun hx => hpairwise j i hj hi hlt hx' hx

theorem nodup_tops : (us.map top).Nodup := by
  rw [List.nodup_iff_pairwise_ne, List.pairwise_map]
  refine (List.nodup_flatMap.mp h).2.imp fun {u w} hdisjoint heq => ?_
  exact hdisjoint (top_mem_slots u) (heq ▸ top_mem_slots w)

theorem ne_top_of_mem_inner {u w : Wires} (hu : u ∈ us) (hw : w ∈ us) {x : ℕ} (hx : x ∈ inner u) : x ≠ top w := by
  rintro rfl
  obtain ⟨i, hi⟩ := List.getElem?_of_mem hu
  obtain ⟨j, hj⟩ := List.getElem?_of_mem hw
  obtain rfl := index_eq_of_mem_slots h hi hj (mem_slots_of_mem_inner hx) (top_mem_slots w)
  obtain rfl := Option.some.inj (hi.symm.trans hj)
  have hnodup := (List.nodup_flatMap.mp h).1 u hu
  rw [slots_eq, List.nodup_cons] at hnodup
  exact hnodup.1 hx

end Row

/-- The subtree `t` is the next one in the row `ts` below the cell `p`. -/
structure Adjoins (net : Net α) (p : ℕ) (ts : List Wires) (t : Wires) : Prop where
  wired : ∀ k u, (ts ++ [t])[k]? = some u → Wired net p k u
  nodup : ((ts ++ [t]).flatMap slots).Nodup
  above : p ∉ (ts ++ [t]).flatMap slots

namespace Adjoins

variable {net net' : Net α} {p : ℕ} {ts : List Wires} {t : Wires}

theorem congr (h : Adjoins net p ts t) (heq : net'.map Cell.links = net.map Cell.links) : Adjoins net' p ts t :=
  ⟨fun k u hu => (h.wired k u hu).congr (Net.joints_congr heq), h.nodup, h.above⟩

theorem getElem?_new : (ts ++ [t])[ts.length]? = some t := List.getElem?_concat_length

theorem getElem?_old {k : ℕ} {o : Wires} (ho : ts[k]? = some o) : (ts ++ [t])[k]? = some o := by
  rw [List.getElem?_append_left (List.getElem?_eq_some_iff.mp ho).1, ho]

/-- The cells of the row are no cells of the new subtree. -/
theorem not_mem_new (h : Adjoins net p ts t) {u : Wires} (hu : u ∈ ts) {x : ℕ} (hx : x ∈ slots u) : x ∉ slots t := by
  intro hx'
  obtain ⟨k, hk⟩ := List.getElem?_of_mem hu
  have heq := index_eq_of_mem_slots h.nodup (getElem?_old hk) getElem?_new hx hx'
  exact Nat.ne_of_lt (List.getElem?_eq_some_iff.mp hk).1 heq

theorem not_mem_inner_new (h : Adjoins net p ts t) {k : ℕ} {o : Wires} (ho : ts[k]? = some o) {x : ℕ}
    (hx : x ∈ inner o) : x ∉ inner t := fun hx' =>
  h.not_mem_new (List.mem_of_getElem? ho) (mem_slots_of_mem_inner hx) (mem_slots_of_mem_inner hx')

theorem ne_top (h : Adjoins net p ts t) {k : ℕ} {u : Wires} (hu : (ts ++ [t])[k]? = some u) {x : ℕ} (hx : x ∈ inner u) :
    ∀ w ∈ ts ++ [t], x ≠ top w :=
  fun _ hw => ne_top_of_mem_inner h.nodup (List.mem_of_getElem? hu) hw hx

theorem parentOf_top (h : Adjoins net p ts t) {k : ℕ} {u : Wires} (hu : (ts ++ [t])[k]? = some u) :
    Net.parentOf net (top u) = .ok p := by
  obtain ⟨c, hc, hjoint⟩ := (h.wired k u hu).joint
  rw [Net.parentOf, Checked.get_eq hc, Checked.ok_bind, show c.parent = some p from congrArg Joint.parent hjoint]
  rfl

theorem parentOf_inner (h : Adjoins net p ts t) {k : ℕ} {u : Wires} (hu : (ts ++ [t])[k]? = some u) {x : ℕ}
    (hx : x ∈ inner u) : ∃ y, Net.parentOf net x = .ok y ∧ y ∈ slots u := by
  obtain ⟨c, y, hc, hparent, hy⟩ := (h.wired k u hu).parent_mem hx
  refine ⟨y, ?_, hy⟩
  rw [Net.parentOf, Checked.get_eq hc, Checked.ok_bind, hparent]
  rfl

theorem ne_above (h : Adjoins net p ts t) {k : ℕ} {u : Wires} (hu : (ts ++ [t])[k]? = some u) {y : ℕ}
    (hy : y ∈ slots u) : y ≠ p := by
  rintro rfl
  exact h.above (List.mem_flatMap.mpr ⟨u, List.mem_of_getElem? hu, hy⟩)

end Adjoins

/-- A cell of the facing outline of a row, with the sibling below which it hangs: it refers to this sibling, or into
its subtree if the sibling is the one to be assumed. -/
structure Owned (net : Net α) (default : ℕ) (ts : List Wires) (x : ℕ) (e : ℕ × Slot α) : Prop where
  slot : net.slot? x = some e.2
  owner : ∃ o a, ts[e.1]? = some o ∧ x ∈ inner o ∧ net.ancestor? x = some a ∧
    (a = top o ∨ a ∈ inner o ∧ default = top o)

theorem Owned.of_cell {net net' : Net α} {default : ℕ} {ts : List Wires} {x : ℕ} {e : ℕ × Slot α}
    (h : Owned net default ts x e) (hslot : net'.slot? x = net.slot? x)
    (hancestor : net'.ancestor? x = net.ancestor? x) : Owned net' default ts x e := by
  obtain ⟨o, a, ho, hin, ha, hor⟩ := h.owner
  exact ⟨hslot.trans h.slot, o, a, ho, hin, hancestor.trans ha, hor⟩

section Pushed

variable {net : Net α} {p : ℕ} {ts : List Wires} {t : Wires}

/-- What a walk down the outlines leaves alone: the relatives and the threads of all cells, the numbers of all cells
but the roots of the row, and whatever is not in the row. -/
structure Pushed (net net' : Net α) (ts : List Wires) (t : Wires) : Prop where
  links : net'.map Cell.links = net.map Cell.links
  data : ∀ x, (∀ u ∈ ts ++ [t], x ≠ top u) → net'.data? x = net.data? x
  outside : ∀ x, x ∉ (ts ++ [t]).flatMap slots → net'[x]? = net[x]?

theorem Pushed.refl (net : Net α) (ts : List Wires) (t : Wires) : Pushed net net ts t :=
  ⟨rfl, fun _ _ => rfl, fun _ _ => rfl⟩

theorem Pushed.trans {net net₁ net₂ : Net α} (h : Pushed net net₁ ts t) (h' : Pushed net₁ net₂ ts t) :
    Pushed net net₂ ts t :=
  ⟨h'.links.trans h.links, fun x hx => (h'.data x hx).trans (h.data x hx),
    fun x hx => (h'.outside x hx).trans (h.outside x hx)⟩

/-- A change of a cell of the row that keeps what has to be kept. -/
theorem Pushed.modify {g : Cell α → Cell α} (hg : ∀ c, (g c).links = c.links) {x : ℕ}
    (hx : x ∈ (ts ++ [t]).flatMap slots)
    (hdata : ∀ y, (∀ u ∈ ts ++ [t], y ≠ top u) → Net.data? (net.modify x g) y = net.data? y) :
    Pushed net (net.modify x g) ts t where
  links := map_modify_of_keeps hg net x
  data := hdata
  outside y hy := by
    have hne : x ≠ y := fun heq => hy (heq ▸ hx)
    rw [List.getElem?_modify]
    simp [hne]

theorem Pushed.slot? {net' : Net α} (h : Pushed net net' ts t) (hb : Adjoins net p ts t) {k : ℕ} {u : Wires}
    (hu : (ts ++ [t])[k]? = some u) {x : ℕ} (hx : x ∈ inner u) : net'.slot? x = net.slot? x := by
  rw [Net.slot?_eq, Net.slot?_eq, h.data x (hb.ne_top hu hx)]

theorem Owned.of_pushed {net' : Net α} {default x : ℕ} {e : ℕ × Slot α}
    (h : Owned net default ts x e) (hb : Adjoins net p ts t) (hp : Pushed net net' ts t)
    (hancestor : ∀ x, x ∉ inner t → net'.ancestor? x = net.ancestor? x) : Owned net' default ts x e := by
  obtain ⟨o, -, ho, hin, -⟩ := h.owner
  exact h.of_cell (hp.slot? hb (Adjoins.getElem?_old ho) hin) (hancestor x (hb.not_mem_inner_new ho hin))

end Pushed

namespace Net

variable {net : Net α} {p : ℕ} {ts : List Wires} {t : Wires}

/-- **The sibling is found.** -/
theorem nextAncestor_eq (hb : Adjoins net p ts t) {default x k : ℕ} {o : Wires} (ho : ts[k]? = some o) {a : ℕ}
    (ha : net.ancestor? x = some a) (hor : a = top o ∨ a ∈ inner o ∧ default = top o) :
    net.nextAncestor x (top t) default = .ok (top o) := by
  obtain ⟨c, hc, rfl⟩ := Option.map_eq_some_iff.mp ha
  rw [nextAncestor, Checked.get_eq hc, Checked.ok_bind, hb.parentOf_top Adjoins.getElem?_new]
  rcases hor with heq | ⟨hinner, hdefault⟩
  · rw [heq, hb.parentOf_top (Adjoins.getElem?_old ho), Checked.ok_bind, Checked.ok_bind, beq_self_eq_true, if_pos rfl]
    rfl
  · obtain ⟨y, hy, hmem⟩ := hb.parentOf_inner (Adjoins.getElem?_old ho) hinner
    have hne : (y == p) = false := beq_false_of_ne (hb.ne_above (Adjoins.getElem?_old ho) hmem)
    rw [hy, Checked.ok_bind, Checked.ok_bind, hne, if_neg Bool.false_ne_true, hdefault]
    rfl

variable [Scalar α]

/-- Cells below different siblings are cousins. -/
theorem separation_inner (hb : Adjoins net p ts t) {k : ℕ} {o : Wires} (ho : ts[k]? = some o) {x y : ℕ}
    (hx : x ∈ inner o) (hy : y ∈ inner t) : net.separation x y = .ok cousinGap := by
  obtain ⟨a, i, ha, hi, hio⟩ := (hb.wired k o (Adjoins.getElem?_old ho)).parent_mem hx
  obtain ⟨b, j, hb', hj, hjt⟩ := (hb.wired _ t Adjoins.getElem?_new).parent_mem hy
  have hne : i ≠ j := by
    rintro rfl
    exact hb.not_mem_new (List.mem_of_getElem? ho) hio hjt
  rw [separation, Checked.get_eq ha, Checked.get_eq hb', Checked.ok_bind, Checked.ok_bind, hi, hj]
  have hbeq : (some i == some j) = false := by simpa using hne
  rw [hbeq]
  rfl

/-- Siblings have one parent. -/
theorem separation_tops (hb : Adjoins net p ts t) {k : ℕ} {o : Wires} (ho : ts[k]? = some o) :
    net.separation (top t) (top o) = .ok siblingGap := by
  obtain ⟨a, ha, hjoint⟩ := (hb.wired _ t Adjoins.getElem?_new).joint
  obtain ⟨b, hb', hjoint'⟩ := (hb.wired k o (Adjoins.getElem?_old ho)).joint
  rw [separation, Checked.get_eq ha, Checked.get_eq hb', Checked.ok_bind, Checked.ok_bind,
    show a.parent = some p from congrArg Joint.parent hjoint,
    show b.parent = some p from congrArg Joint.parent hjoint', beq_self_eq_true]
  rfl

/-! ### Pushes -/

/-- The cells after a push, which changes the younger sibling before and after the older one. -/
def pushApart (net : Net α) (fixed wide : ℕ) (change shift : α) : Net α :=
  ((net.modify wide (Cell.pushed change shift)).modify fixed (Cell.braced change)).modify wide (Cell.movedBy shift)

theorem moveSubtree_of_cells {net : Net α} {fixed wide : ℕ} {f w : Cell α} (hf : net[fixed]? = some f)
    (hw : net[wide]? = some w) (shift : α) :
    net.moveSubtree fixed wide shift =
      .ok (net.pushApart fixed wide (shift / (Scalar.ofNat w.number - Scalar.ofNat f.number)) shift) := by
  have hflt := (List.getElem?_eq_some_iff.mp hf).1
  have hwlt := (List.getElem?_eq_some_iff.mp hw).1
  rw [moveSubtree, Checked.get_eq hw, Checked.ok_bind, Checked.get_eq hf, Checked.ok_bind]
  show Checked.modify net _ _ >>= _ = _
  rw [Checked.modify_eq hwlt, Checked.ok_bind, Checked.modify_eq (by rwa [List.length_modify]), Checked.ok_bind,
    Checked.modify_eq (by rwa [List.length_modify, List.length_modify]), pushApart]

/-- A push of two roots is a push of two siblings. -/
theorem rowAt_pushApart {net : Net α} {ts : List Wires} {row : List (Sibling α)} (hrow : RowAt net ts row)
    (hnodup : (ts.map top).Nodup) {i j : ℕ} {o t : Wires} (ho : ts[i]? = some o) (ht : ts[j]? = some t) (hne : i ≠ j)
    (shift : α) :
    RowAt (net.pushApart (top o) (top t) (shift / (Scalar.ofNat j - Scalar.ofNat i)) shift) ts
      (Tidy.moveSubtree i j shift row) := by
  rw [moveSubtree_eq_modify hne]
  exact ((hrow.modify hnodup ht (Cell.data_pushed _ shift)).modify hnodup ho (Cell.data_braced _)).modify hnodup ht
    (Cell.data_movedBy shift)

/-- **A push** is recorded at the two siblings. -/
theorem moveSubtree_eq (hb : Adjoins net p ts t) {row : List (Sibling α)} (hrow : RowAt net (ts ++ [t]) row) {k : ℕ}
    {o : Wires} (ho : ts[k]? = some o) (shift : α) :
    ∃ net', net.moveSubtree (top o) (top t) shift = .ok net' ∧ Pushed net net' ts t ∧
      (∀ x, net'.ancestor? x = net.ancestor? x) ∧
        RowAt net' (ts ++ [t]) (Tidy.moveSubtree k ts.length shift row) := by
  obtain ⟨w, hw, hwide⟩ := (hb.wired _ t Adjoins.getElem?_new).joint
  obtain ⟨f, hf, hfixed⟩ := (hb.wired k o (Adjoins.getElem?_old ho)).joint
  have hne : k ≠ ts.length := Nat.ne_of_lt (List.getElem?_eq_some_iff.mp ho).1
  have hnumbers : w.number = ts.length ∧ f.number = k :=
    ⟨congrArg Joint.number hwide, congrArg Joint.number hfixed⟩
  let change := shift / (Scalar.ofNat ts.length - Scalar.ofNat k)
  have htmem : top t ∈ (ts ++ [t]).flatMap slots :=
    List.mem_flatMap.mpr ⟨t, List.mem_concat_self, top_mem_slots t⟩
  have homem : top o ∈ (ts ++ [t]).flatMap slots :=
    List.mem_flatMap.mpr ⟨o, List.mem_append_left _ (List.mem_of_getElem? ho), top_mem_slots o⟩
  have htop : ∀ (net : Net α) (g : Cell α → Cell α) (y : ℕ), (∀ u ∈ ts ++ [t], y ≠ top u) →
      data? (net.modify (top t) g) y = net.data? y := fun _ _ y hy =>
    data?_modify (hy t List.mem_concat_self)
  refine ⟨net.pushApart (top o) (top t) change shift, ?_, ?_, ?_,
    rowAt_pushApart hrow (nodup_tops hb.nodup) (Adjoins.getElem?_old ho) Adjoins.getElem?_new hne shift⟩
  · rw [moveSubtree_of_cells hf hw, hnumbers.1, hnumbers.2]
  · refine ((Pushed.modify (Cell.links_pushed change shift) htmem (htop _ _)).trans (Pushed.modify
      (Cell.links_braced change) homem fun y hy => ?_)).trans
      (Pushed.modify (Cell.links_movedBy shift) htmem (htop _ _))
    exact data?_modify (hy o (List.mem_append_left _ (List.mem_of_getElem? ho)))
  · intro x
    have hkeeps : ∀ c : Cell α, (c.pushed change shift).ancestor = c.ancestor ∧
        (c.braced change).ancestor = c.ancestor ∧ (c.movedBy shift).ancestor = c.ancestor :=
      fun _ => ⟨rfl, rfl, rfl⟩
    rw [pushApart, ancestor?_modify_of_keeps fun c => (hkeeps c).2.2, ancestor?_modify_of_keeps fun c => (hkeeps c).2.1,
      ancestor?_modify_of_keeps fun c => (hkeeps c).1]

/-- **Overlapping cells** make a push that starts from the sibling below which the one of the row hangs. -/
theorem keepApart_eq (hb : Adjoins net p ts t) {row : List (Sibling α)} (hrow : RowAt net (ts ++ [t]) row)
    {default : ℕ} (feet : Feet) {e : ℕ × Slot α} (hx : Owned net default ts feet.rowInner e) {b : Slot α}
    (hy : net.slot? feet.newInner = some b) (hinner : feet.newInner ∈ inner t) (sums : Sums α) :
    ∃ net', net.keepApart (top t) default feet sums = .ok (net', sums.kept e.2 b) ∧ Pushed net net' ts t ∧
      (∀ x, net'.ancestor? x = net.ancestor? x) ∧
        RowAt net' (ts ++ [t]) (if Scalar.lt Scalar.zero (sums.overlap e.2 b) then
          Tidy.moveSubtree e.1 ts.length (sums.overlap e.2 b) row else row) := by
  obtain ⟨o, a, ho, hin, ha, hor⟩ := hx.owner
  obtain ⟨cx, hcx, hslot⟩ := exists_of_slot? hx.slot
  obtain ⟨cy, hcy, hslot'⟩ := exists_of_slot? hy
  have hoverlap : cx.prelim + sums.rowInner - cy.prelim - sums.newInner + cousinGap = sums.overlap e.2 b := by
    rw [Sums.overlap, ← hslot, ← hslot']
  rw [keepApart, Checked.get_eq hcx, Checked.get_eq hcy, Checked.ok_bind, Checked.ok_bind,
    separation_inner hb ho hin hinner, Checked.ok_bind]
  simp only [hoverlap, Sums.kept]
  by_cases hpush : Scalar.lt Scalar.zero (sums.overlap e.2 b) = true
  · obtain ⟨net', hmove, hpushed, hancestor, hrow'⟩ := moveSubtree_eq hb hrow ho (sums.overlap e.2 b)
    refine ⟨net', ?_, hpushed, hancestor, by rwa [if_pos hpush]⟩
    rw [if_pos hpush, if_pos hpush, nextAncestor_eq hb ho ha hor, Checked.ok_bind, hmove, Checked.ok_bind]
    rfl
  · refine ⟨net, ?_, .refl net ts t, fun _ => rfl, by rwa [if_neg hpush]⟩
    rw [if_neg hpush, if_neg hpush]
    rfl

theorem addModifiers_eq (feet : Feet) {a b c d : Slot α} (ha : net.slot? feet.rowInner = some a)
    (hb : net.slot? feet.newInner = some b) (hc : net.slot? feet.rowOuter = some c)
    (hd : net.slot? feet.newOuter = some d) (sums : Sums α) :
    net.addModifiers feet sums = .ok (sums.below a b c d) := by
  obtain ⟨ca, hca, rfl⟩ := exists_of_slot? ha
  obtain ⟨cb, hcb, rfl⟩ := exists_of_slot? hb
  obtain ⟨cc, hcc, rfl⟩ := exists_of_slot? hc
  obtain ⟨cd, hcd, rfl⟩ := exists_of_slot? hd
  rw [addModifiers, Checked.get_eq hca, Checked.get_eq hcb, Checked.get_eq hcc, Checked.get_eq hcd]
  rfl

/-! ### The way down -/

/-- The four outlines that can still be walked down from some cells: the chains of their cells, and what stands in
these. -/
structure Ahead (net : Net α) (default : ℕ) (ts : List Wires) (t : Wires) (feet : Feet) (xs ys zs us : List ℕ)
    (ri : List (ℕ × Slot α)) (ni ro no : Outline α) : Prop where
  rowInner : Leads net.nextRight feet.rowInner xs
  newInner : Leads net.nextLeft feet.newInner ys
  rowOuter : Leads net.nextLeft feet.rowOuter zs
  newOuter : Leads net.nextRight feet.newOuter us
  owned : List.Forall₂ (Owned net default ts) xs ri
  newInnerSlots : ys.map net.slot? = ni.map some
  rowOuterSlots : zs.map net.slot? = ro.map some
  newOuterSlots : us.map net.slot? = no.map some
  newInnerInside : ∀ y ∈ ys, y ∈ inner t
  rowOuterInside : ∀ z ∈ zs, ∃ u ∈ ts, z ∈ inner u
  newOuterInside : ∀ u ∈ us, u ∈ inner t
  rowEven : xs.length = zs.length
  newEven : ys.length = us.length
  there : feet.rowInner < net.length ∧ feet.newInner < net.length ∧ feet.rowOuter < net.length ∧
    feet.newOuter < net.length

omit [Scalar α] in
theorem lt_length_of_slot? {net : Net α} {x : ℕ} {s : Slot α} (h : net.slot? x = some s) : x < net.length := by
  obtain ⟨c, hc, -⟩ := exists_of_slot? h
  exact (List.getElem?_eq_some_iff.mp hc).1

omit [Scalar α] in
/-- One level deeper. -/
theorem Ahead.next {net : Net α} {default : ℕ} {feet : Feet} {x y z u : ℕ} {xs ys zs us : List ℕ} {e : ℕ × Slot α}
    {b c d : Slot α} {ri : List (ℕ × Slot α)} {ni ro no : Outline α}
    (h : Ahead net default ts t feet (x :: xs) (y :: ys) (z :: zs) (u :: us) (e :: ri) (b :: ni) (c :: ro) (d :: no)) :
    Ahead net default ts t ⟨x, y, z, u⟩ xs ys zs us ri ni ro no := by
  have hb := List.cons.inj h.newInnerSlots
  have hc := List.cons.inj h.rowOuterSlots
  have hd := List.cons.inj h.newOuterSlots
  have hx := List.forall₂_cons.mp h.owned
  exact {
    rowInner := h.rowInner.2
    newInner := h.newInner.2
    rowOuter := h.rowOuter.2
    newOuter := h.newOuter.2
    owned := hx.2
    newInnerSlots := hb.2
    rowOuterSlots := hc.2
    newOuterSlots := hd.2
    newInnerInside := fun w hw => h.newInnerInside w (List.mem_cons_of_mem y hw)
    rowOuterInside := fun w hw => h.rowOuterInside w (List.mem_cons_of_mem z hw)
    newOuterInside := fun w hw => h.newOuterInside w (List.mem_cons_of_mem u hw)
    rowEven := Nat.succ.inj h.rowEven
    newEven := Nat.succ.inj h.newEven
    there := ⟨lt_length_of_slot? hx.1.slot, lt_length_of_slot? hb.1, lt_length_of_slot? hc.1,
      lt_length_of_slot? hd.1⟩ }

omit [Scalar α] in
/-- Where both inner outlines go on, so do all four. -/
theorem Ahead.exists_cons {net : Net α} {default : ℕ} {feet : Feet} {x y : ℕ} {xs ys zs us : List ℕ}
    {ri : List (ℕ × Slot α)} {ni ro no : Outline α}
    (h : Ahead net default ts t feet (x :: xs) (y :: ys) zs us ri ni ro no) :
    ∃ z zs' u us' e ri' b ni' c ro' d no', zs = z :: zs' ∧ us = u :: us' ∧ ri = e :: ri' ∧ ni = b :: ni' ∧
      ro = c :: ro' ∧ no = d :: no' := by
  obtain ⟨z, zs, rfl⟩ := List.exists_cons_of_length_eq_add_one h.rowEven.symm
  obtain ⟨u, us, rfl⟩ := List.exists_cons_of_length_eq_add_one h.newEven.symm
  obtain ⟨e, ri, -, -, rfl⟩ := List.forall₂_cons_left_iff.mp h.owned
  obtain ⟨b, ni, rfl, -, -⟩ := List.map_eq_cons_iff.mp h.newInnerSlots.symm
  obtain ⟨c, ro, rfl, -, -⟩ := List.map_eq_cons_iff.mp h.rowOuterSlots.symm
  obtain ⟨d, no, rfl, -, -⟩ := List.map_eq_cons_iff.mp h.newOuterSlots.symm
  exact ⟨z, zs, u, us, e, ri, b, ni, c, ro, d, no, rfl, rfl, rfl, rfl, rfl, rfl⟩

omit [Scalar α] in
theorem ancestor?_claimed {net : Net α} {u : ℕ} (hu : u < net.length) (a v : ℕ) :
    ancestor? (net.modify u (Cell.claimed a)) v = if v = u then some a else net.ancestor? v := by
  by_cases hv : v = u
  · subst hv
    rw [ancestor?, List.getElem?_modify, List.getElem?_eq_getElem hu]
    simp [Cell.claimed]
  · rw [ancestor?_modify hv, if_neg hv]

omit [Scalar α] in
/-- A claim inside the new subtree does not show outside of it. -/
theorem ancestor?_outside {net net' : Net α} {u a : ℕ} (hu : u ∈ inner t)
    (h : ∀ v, net'.ancestor? v = if v = u then some a else net.ancestor? v) {v : ℕ} (hv : v ∉ inner t) :
    net'.ancestor? v = net.ancestor? v := by
  have hne : v ≠ u := fun heq => hv (heq ▸ hu)
  rw [h, if_neg hne]

omit [Scalar α] in
theorem pushed_claimed (net : Net α) (ts : List Wires) {u : ℕ} (hu : u ∈ inner t) :
    Pushed net (net.modify u (Cell.claimed (top t))) ts t :=
  .modify (Cell.links_claimed _) (List.mem_flatMap.mpr ⟨t, List.mem_concat_self, mem_slots_of_mem_inner hu⟩) fun v _ =>
    data?_modify_of_keeps (Cell.data_claimed _) v

/-- **One level of the way down**: the outer cell of the new subtree is claimed for its root, the subtree is pushed
away if it comes too close, and the modifiers of the level are added up. -/
theorem round_eq {net₀ : Net α} (hb : Adjoins net₀ p ts t) {default : ℕ} {feet : Feet} {x y z u : ℕ}
    {xs ys zs us : List ℕ} {e : ℕ × Slot α} {b c d : Slot α} {ri : List (ℕ × Slot α)} {ni ro no : Outline α}
    (ha : Ahead net₀ default ts t feet (x :: xs) (y :: ys) (z :: zs) (u :: us) (e :: ri) (b :: ni) (c :: ro) (d :: no))
    {net : Net α} (hpushed : Pushed net₀ net ts t) (hancestor : ∀ x, x ∉ inner t → net.ancestor? x = net₀.ancestor? x)
    {row : List (Sibling α)} (hrow : RowAt net (ts ++ [t]) row) (sums : Sums α) :
    ∃ net', keepApart (net.modify u (Cell.claimed (top t))) (top t) default ⟨x, y, z, u⟩ sums =
        .ok (net', sums.kept e.2 b) ∧
      net'.addModifiers ⟨x, y, z, u⟩ (sums.kept e.2 b) = .ok ((sums.kept e.2 b).below e.2 b c d) ∧
      Pushed net₀ net' ts t ∧ (∀ v, net'.ancestor? v = if v = u then some (top t) else net.ancestor? v) ∧
      RowAt net' (ts ++ [t]) (if Scalar.lt Scalar.zero (sums.overlap e.2 b) then
        Tidy.moveSubtree e.1 ts.length (sums.overlap e.2 b) row else row) := by
  have hx := (List.forall₂_cons.mp ha.owned).1
  have hy := (List.cons.inj ha.newInnerSlots).1
  have hz := (List.cons.inj ha.rowOuterSlots).1
  have hu := (List.cons.inj ha.newOuterSlots).1
  have hyin := ha.newInnerInside y List.mem_cons_self
  have huin := ha.newOuterInside u List.mem_cons_self
  obtain ⟨w, hw, hzin⟩ := ha.rowOuterInside z List.mem_cons_self
  obtain ⟨k, hk⟩ := List.getElem?_of_mem hw
  obtain ⟨o, -, ho, hxin, -⟩ := hx.owner
  have hult : u < net.length := length_congr hpushed.links ▸ lt_length_of_slot? hu
  have hclaimed := hpushed.trans (pushed_claimed net ts huin)
  have houtside : ∀ v, v ∉ inner t → ancestor? (net.modify u (Cell.claimed (top t))) v = net₀.ancestor? v :=
    fun v hv => (ancestor?_outside huin (ancestor?_claimed hult (top t)) hv).trans (hancestor v hv)
  obtain ⟨net', hkeep, hkept, hsame, hrow'⟩ := keepApart_eq (hb.congr hclaimed.links)
    (hrow.congr fun v _ => data?_modify_of_keeps (Cell.data_claimed _) (top v)) ⟨x, y, z, u⟩
    (hx.of_pushed hb hclaimed houtside) ((hclaimed.slot? hb Adjoins.getElem?_new hyin).trans hy) hyin sums
  have hp := hclaimed.trans hkept
  refine ⟨net', hkeep, ?_, hp, fun v => (hsame v).trans (ancestor?_claimed hult (top t) v), hrow'⟩
  exact addModifiers_eq ⟨x, y, z, u⟩ ((hp.slot? hb (Adjoins.getElem?_old ho) hxin).trans hx.slot)
    ((hp.slot? hb Adjoins.getElem?_new hyin).trans hy) ((hp.slot? hb (Adjoins.getElem?_old hk) hzin).trans hz)
    ((hp.slot? hb Adjoins.getElem?_new huin).trans hu) (sums.kept e.2 b)

/-- **Nothing goes wrong on the way down.** -/
theorem descend_eq {net₀ : Net α} (hb : Adjoins net₀ p ts t) {default : ℕ} {feet : Feet} {xs ys zs us : List ℕ}
    {ri : List (ℕ × Slot α)} {ni ro no : Outline α} (ha : Ahead net₀ default ts t feet xs ys zs us ri ni ro no)
    {net : Net α} (hpushed : Pushed net₀ net ts t) (hancestor : ∀ x, x ∉ inner t → net.ancestor? x = net₀.ancestor? x)
    {row : List (Sibling α)} (hrow : RowAt net (ts ++ [t]) row) {rounds : ℕ}
    (hrounds : min xs.length ys.length < rounds) (sums : Sums α) :
    ∃ net' feet', net.descend (top t) default rounds feet sums = .ok (net',
        ⟨feet', (contact ri ni ro no sums).sums, (xs.drop ys.length).head?, (ys.drop xs.length).head?⟩) ∧
      Pushed net₀ net' ts t ∧ RowAt net' (ts ++ [t]) (recorded (contact ri ni ro no sums).pushes ts.length row) ∧
      (∀ x, net'.ancestor? x = if x ∈ us.take xs.length then some (top t) else net.ancestor? x) ∧
      feet'.newOuter = (us.take xs.length).getLastD feet.newOuter ∧
      feet'.rowOuter = (zs.take ys.length).getLastD feet.rowOuter := by
  induction rounds generalizing feet xs ys zs us ri ni ro no net row sums with
  | zero => exact absurd hrounds (Nat.not_lt_zero _)
  | succ rounds ih =>
    have hlength := length_congr hpushed.links
    obtain ⟨hri, hni, hro, hno⟩ := ha.there
    have hright := nextRight_congr hpushed.links
    have hleft := nextLeft_congr hpushed.links
    rw [descend, stepRight_eq (hlength ▸ hri), stepLeft_eq (hlength ▸ hni), Checked.ok_bind, Checked.ok_bind, hright,
      hleft, ha.rowInner.next_eq, ha.newInner.next_eq]
    rcases xs with _ | ⟨x, xs⟩
    · -- the row has ended
      obtain rfl := List.forall₂_nil_left_iff.mp ha.owned
      refine ⟨net, feet, ?_, hpushed, hrow, fun w => ?_, rfl, ?_⟩
      · rw [contact_row_ended]
        cases ys <;> rfl
      · simp
      · rw [List.eq_nil_of_length_eq_zero ha.rowEven.symm]
        simp
    · rcases ys with _ | ⟨y, ys⟩
      · -- the new subtree has ended
        obtain rfl := List.map_eq_nil_iff.mp ha.newInnerSlots.symm
        rw [contact_new_ended]
        refine ⟨net, feet, rfl, hpushed, hrow, fun w => ?_, ?_, rfl⟩
        · rw [List.eq_nil_of_length_eq_zero ha.newEven.symm]
          simp
        · rw [List.eq_nil_of_length_eq_zero ha.newEven.symm]
          simp
      · -- both go on, and so does the way down
        obtain ⟨z, zs, u, us, e, ri, b, ni, c, ro, d, no, rfl, rfl, rfl, rfl, rfl, rfl⟩ := ha.exists_cons
        have hult : u < net.length := hlength ▸ lt_length_of_slot? (List.cons.inj ha.newOuterSlots).1
        obtain ⟨net₁, hkeep, hadd, hp, hanc, hrow₁⟩ := round_eq hb ha hpushed hancestor hrow sums
        have houtside : ∀ v, v ∉ inner t → net₁.ancestor? v = net₀.ancestor? v := fun v hv =>
          (ancestor?_outside (ha.newOuterInside u List.mem_cons_self) hanc hv).trans (hancestor v hv)
        have hfewer : min xs.length ys.length < rounds := by
          simp only [List.length_cons] at hrounds
          omega
        obtain ⟨net', feet', hdescend, hp', hrow', hanc', houter, hrowOuter⟩ := ih ha.next hp houtside hrow₁ hfewer
          ((sums.kept e.2 b).below e.2 b c d)
        rw [contact_step]
        refine ⟨net', feet', ?_, hp', ?_, fun v => ?_, ?_, ?_⟩
        · simp only [List.head?_cons, List.length_cons, List.drop_succ_cons]
          rw [stepLeft_eq (hlength ▸ hro), stepRight_eq (hlength ▸ hno), Checked.ok_bind, Checked.ok_bind, hright,
            hleft, ha.rowOuter.next_eq, ha.newOuter.next_eq]
          simp only [List.head?_cons]
          rw [Checked.modify_eq hult, Checked.ok_bind, hkeep, Checked.ok_bind]
          simp only [hadd, Checked.ok_bind, hdescend]
          split <;> rfl
        · by_cases hpush : Scalar.lt Scalar.zero (sums.overlap e.2 b) = true
          · rw [if_pos hpush] at hrow'
            simpa only [hpush, if_true, recorded, List.foldl_cons] using hrow'
          · rw [if_neg hpush] at hrow'
            simpa only [hpush, Bool.false_eq_true, if_false] using hrow'
        · rw [hanc', hanc, List.length_cons, List.take_succ_cons]
          by_cases hv : v = u <;> by_cases hmem : v ∈ us.take xs.length <;> simp [hv, hmem]
        · rw [houter, List.length_cons, List.take_succ_cons, List.getLastD_cons]
        · rw [hrowOuter, List.length_cons, List.take_succ_cons, List.getLastD_cons]

end Net

end FlowTree.Tidy
