import FlowTree.Proofs.Arena.Contact

/-!
# Rows of drawn subtrees in an array

* **`Reads`** says that the cells below a root hold the places of a drawn tree, and what moves the children if there
  are any.
* **`DrawnAt`** says that the cells of a subtree hold its drawing, outlines included; **`Row`** says so of a row of
  subtrees that have been set beside each other.
* **`Row.congr`** says that it is enough to know the cells of the row.
-/

namespace FlowTree.Tidy

variable {α : Type}

/-! ### The ends of a walk down the outlines -/

section Contact

variable [Scalar α]

/-- What is left of each outline. -/
theorem contact_rest {ri : List (ℕ × Slot α)} {ni ro no : Outline α} (hrow : ri.length = ro.length)
    (hnew : ni.length = no.length) (sums : Sums α) :
    (contact ri ni ro no sums).rowInner = ri.drop ni.length ∧ (contact ri ni ro no sums).newInner = ni.drop ri.length ∧
      (contact ri ni ro no sums).rowOuter = ro.drop ni.length ∧
      (contact ri ni ro no sums).newOuter = no.drop ri.length := by
  induction ri generalizing ni ro no sums with
  | nil =>
    obtain rfl := List.eq_nil_of_length_eq_zero hrow.symm
    simp [contact_row_ended]
  | cons e ri ih =>
    obtain ⟨c, ro, rfl⟩ := List.exists_cons_of_length_eq_add_one hrow.symm
    cases ni with
    | nil =>
      obtain rfl := List.eq_nil_of_length_eq_zero hnew.symm
      simp [contact_new_ended]
    | cons b ni =>
      obtain ⟨d, no, rfl⟩ := List.exists_cons_of_length_eq_add_one hnew.symm
      have hrest := ih (Nat.succ.inj hrow) (Nat.succ.inj hnew) ((sums.kept e.2 b).below e.2 b c d)
      rw [contact_step]
      simp only [List.length_cons, List.drop_succ_cons]
      split <;> exact hrest

variable {f : Forest α} {d : Drawn α} {oldest youngest : Sibling α}

/-- The walk between a row and a new subtree. -/
def meetingOf (f : Forest α) (d : Drawn α) (oldest youngest : Sibling α) : Contact α :=
  contact f.right d.left f.left d.right ⟨youngest.modifier, d.slot.modifier, oldest.modifier, d.slot.modifier⟩

/-- A subtree as the youngest one of a row. -/
def Drawn.sibling (d : Drawn α) : Sibling α :=
  { d.slot with change := Scalar.zero, shift := Scalar.zero, below := d.below }

/-- The row after the pushes. -/
def pushedRow (f : Forest α) (d : Drawn α) (oldest youngest : Sibling α) : List (Sibling α) :=
  recorded (meetingOf f d oldest youngest).pushes f.siblings.length (f.siblings ++ [d.sibling])

/-- The slot of one sibling of a row. -/
def slotIn (row : List (Sibling α)) (i : ℕ) (otherwise : Slot α) : Slot α :=
  (row[i]?.map (·.toSlot)).getD otherwise

omit [Scalar α] in
theorem RowAt.slotIn {net : Net α} {ts : List Wires} {row : List (Sibling α)} (h : RowAt net ts row) {i : ℕ} {t : Wires}
    (ht : ts[i]? = some t) (otherwise : Slot α) : net.slot? (top t) = some (slotIn row i otherwise) := by
  obtain ⟨s, hs, hdata⟩ := h.exists_sibling ht
  rw [Net.slot?_eq, hdata, Tidy.slotIn, hs]
  rfl

theorem add_nil (h : f.siblings = []) :
    f.add d = { siblings := [d.sibling], left := d.left, right := d.right.map fun s => (0, s) } := by
  rw [Forest.add, h]
  rfl

variable (ho : f.siblings.head? = some oldest) (hy : f.siblings.getLast? = some youngest)
  (hf : f.left.length = f.right.length) (hd : d.left.length = d.right.length)
include ho hy hf hd

/-- The row reaches deeper. -/
theorem add_row (hlt : d.left.length < f.right.length) :
    f.add d =
      let widened := widenEnd ((meetingOf f d oldest youngest).sums.rowInner -
          (meetingOf f d oldest youngest).sums.newOuter)
        (slotIn (pushedRow f d oldest youngest) f.siblings.length d.slot) d.right
      { siblings := Forest.setSlot f.siblings.length widened.1 (pushedRow f d oldest youngest)
        left := f.left
        right := widened.2.map (fun s => (f.siblings.length, s)) ++ f.right.drop d.left.length } := by
  obtain ⟨hri, hni, -, hno⟩ := contact_rest hf.symm hd
    ⟨youngest.modifier, d.slot.modifier, oldest.modifier, d.slot.modifier⟩
  have hdeeper : (meetingOf f d oldest youngest).deeper = .row (f.right.drop d.left.length) := by
    obtain ⟨e, rest, hdrop⟩ := List.exists_cons_of_length_pos
      (l := f.right.drop d.left.length) (by rw [List.length_drop]; omega)
    rw [Contact.deeper, meetingOf, hri, hni, hno, hdrop, List.drop_eq_nil_of_le (by omega),
      List.drop_eq_nil_of_le (by omega)]
    rfl
  rw [Forest.add, ho, hy]
  simp only [← meetingOf.eq_1, hdeeper]
  rfl

/-- The new subtree reaches deeper. -/
theorem add_new (hlt : f.right.length < d.left.length) :
    f.add d =
      let widened := widenEnd ((meetingOf f d oldest youngest).sums.newInner -
          (meetingOf f d oldest youngest).sums.rowOuter)
        (slotIn (pushedRow f d oldest youngest) 0 oldest.toSlot) f.left
      { siblings := Forest.setSlot 0 widened.1 (pushedRow f d oldest youngest)
        left := widened.2 ++ d.left.drop f.right.length
        right := d.right.map fun s => (f.siblings.length, s) } := by
  obtain ⟨hri, hni, hro, -⟩ := contact_rest hf.symm hd
    ⟨youngest.modifier, d.slot.modifier, oldest.modifier, d.slot.modifier⟩
  have hdeeper : (meetingOf f d oldest youngest).deeper = .new (d.left.drop f.right.length) := by
    obtain ⟨e, rest, hdrop⟩ := List.exists_cons_of_length_pos
      (l := d.left.drop f.right.length) (by rw [List.length_drop]; omega)
    rw [Contact.deeper, meetingOf, hri, hni, hro, hdrop, List.drop_eq_nil_of_le (by omega),
      List.drop_eq_nil_of_le (by omega)]
    rfl
  rw [Forest.add, ho, hy, slotIn, ← List.head?_eq_getElem?]
  simp only [← meetingOf.eq_1, hdeeper]
  rfl

/-- Both reach equally deep. -/
theorem add_neither (heq : d.left.length = f.right.length) :
    f.add d =
      { siblings := pushedRow f d oldest youngest
        left := f.left
        right := d.right.map fun s => (f.siblings.length, s) } := by
  obtain ⟨hri, hni, -, -⟩ := contact_rest hf.symm hd
    ⟨youngest.modifier, d.slot.modifier, oldest.modifier, d.slot.modifier⟩
  have hdeeper : (meetingOf f d oldest youngest).deeper = .neither := by
    rw [Contact.deeper, meetingOf, hri, hni, List.drop_eq_nil_of_le (by omega), List.drop_eq_nil_of_le (by omega)]
  rw [Forest.add, ho, hy]
  simp only [← meetingOf.eq_1, hdeeper]
  rfl

end Contact

/-! ### Cells that are the same -/

namespace Net

section Cell

variable {net net' : Net α} {x : ℕ} (h : net'[x]? = net[x]?)
include h

theorem data?_congr : net'.data? x = net.data? x := by rw [data?, data?, h]

theorem slot?_congr : net'.slot? x = net.slot? x := by rw [slot?, slot?, h]

theorem ancestor?_congr : net'.ancestor? x = net.ancestor? x := by rw [ancestor?, ancestor?, h]

theorem nextLeft_of_cell : net'.nextLeft x = net.nextLeft x := by rw [nextLeft, nextLeft, h]

theorem nextRight_of_cell : net'.nextRight x = net.nextRight x := by rw [nextRight, nextRight, h]

end Cell

end Net

/-! ### What the cells hold -/

/-- The cells of a subtree hold the places of a drawn tree, and what moves the children where there are any. -/
inductive Reads (net : Net α) : Wires → Tree (Slot α) → Prop
  | node {x : ℕ × ℕ} {cs : List Wires} {s a : Slot α} {ds : List (Tree (Slot α))} (slot : net.slot? x.1 = some a)
    (place : a.prelim = s.prelim) (moves : cs ≠ [] → a.modifier = s.modifier) (length : cs.length = ds.length)
    (deeper : ∀ (k : ℕ) (c : Wires) (d : Tree (Slot α)), cs[k]? = some c → ds[k]? = some d → Reads net c d) :
    Reads net (.node x cs) (.node s ds)

/-- So do those of a row of subtrees. -/
structure ReadsAll (net : Net α) (cs : List Wires) (ds : List (Tree (Slot α))) : Prop where
  length : cs.length = ds.length
  reads : ∀ (k : ℕ) (c : Wires) (d : Tree (Slot α)), cs[k]? = some c → ds[k]? = some d → Reads net c d

/-- The cell holds the same slot, or it is a leaf and has the same place. -/
def Eased (net net' : Net α) (x : ℕ) : Prop :=
  net'.slot? x = net.slot? x ∨
    net.nextLeft x = none ∧ (net'.slot? x).map (·.prelim) = (net.slot? x).map (·.prelim)

theorem Reads.congr {net net' : Net α} {t : Wires} {d : Tree (Slot α)} (h : Reads net t d) {p k : ℕ}
    (hw : Wired net p k t) (heq : ∀ x ∈ slots t, Eased net net' x) : Reads net' t d := by
  induction h generalizing p k with
  | @node x cs s a ds hslot hplace hmoves hlength _ ih =>
    rw [slots_node] at heq
    have hdeeper : ∀ (k : ℕ) (c : Wires) (d : Tree (Slot α)), cs[k]? = some c → ds[k]? = some d →
        Reads net' c d := by
      intro k c d hc hd
      exact ih k c d hc hd (hw.child hc) fun y hy => heq y
        (List.mem_cons_of_mem _ (List.mem_flatMap.mpr ⟨c, List.mem_of_getElem? hc, hy⟩))
    rcases heq x.1 List.mem_cons_self with hsame | ⟨hleaf, hprelim⟩
    · exact .node (hsame.trans hslot) hplace hmoves hlength hdeeper
    · rw [hslot, Option.map_some] at hprelim
      obtain ⟨b, hb, hba⟩ := Option.map_eq_some_iff.mp hprelim
      refine .node hb (hba.trans hplace) (fun hne => absurd ?_ hne) hlength hdeeper
      obtain ⟨c, hc, hjoint⟩ := hw.joint
      have hchildren : c.children = cs.map top := congrArg Joint.children hjoint
      rw [Net.nextLeft, show net[x.1]? = some c from hc, Option.bind_some, hchildren, Option.or_eq_none_iff,
        List.head?_eq_none_iff, List.map_eq_nil_iff] at hleaf
      exact hleaf.1

theorem ReadsAll.congr {net net' : Net α} {t : Wires} {ds : List (Tree (Slot α))} (h : ReadsAll net t.children ds)
    {p k : ℕ} (hw : Wired net p k t) (heq : ∀ x ∈ inner t, Eased net net' x) : ReadsAll net' t.children ds :=
  ⟨h.length, fun k c d hc hd => (h.reads k c d hc hd).congr (hw.child hc) fun x hx =>
    heq x (List.mem_flatMap.mpr ⟨c, List.mem_of_getElem? hc, hx⟩)⟩

/-- The cells of a subtree hold its drawing. -/
structure DrawnAt [Scalar α] (net : Net α) (t : Wires) (d : Drawn α) : Prop where
  root : net.data? (top t) = some (d.slot, Scalar.zero, Scalar.zero)
  below : ReadsAll net t.children d.below
  left : ∃ zs, Leads net.nextLeft (top t) zs ∧ zs.map net.slot? = d.left.map some ∧ ∀ z ∈ zs, z ∈ inner t
  right : ∃ us, Leads net.nextRight (top t) us ∧ us.map net.slot? = d.right.map some ∧ ∀ u ∈ us, u ∈ inner t
  own : net.ancestor? (top t) = some (top t)
  ancestors : ∀ x ∈ inner t, ∃ a ∈ inner t, net.ancestor? x = some a
  even : d.left.length = d.right.length

/-- The cells of a row of subtrees hold the row as it has been set up. -/
structure Row (net : Net α) (ts : List Wires) (f : Forest α) (default : ℕ) : Prop where
  siblings : RowAt net ts f.siblings
  below : ∀ (k : ℕ) (t : Wires) (ds : List (Tree (Slot α))), ts[k]? = some t →
    (f.siblings.map (·.below))[k]? = some ds → ReadsAll net t.children ds
  left : ∀ o, ts.head? = some o → ∃ zs, Leads net.nextLeft (top o) zs ∧ zs.map net.slot? = f.left.map some ∧
    ∀ z ∈ zs, ∃ u ∈ ts, z ∈ inner u
  right : ∀ y, ts.getLast? = some y → ∃ xs, Leads net.nextRight (top y) xs ∧
    List.Forall₂ (Owned net default ts) xs f.right
  ancestors : ∀ t ∈ ts, ∀ x ∈ slots t, ∃ a ∈ slots t, net.ancestor? x = some a
  even : f.left.length = f.right.length

section Congr

variable {net net' : Net α} {ts : List Wires} {t : Wires}

theorem slots_congr {xs : List ℕ} (heq : ∀ x ∈ xs, net'[x]? = net[x]?) : xs.map net'.slot? = xs.map net.slot? :=
  List.map_congr_left fun x hx => Net.slot?_congr (heq x hx)

theorem inside_of_owned {default : ℕ} {xs : List ℕ} {o : List (ℕ × Slot α)}
    (h : List.Forall₂ (Owned net default ts) xs o) : ∀ x ∈ xs, ∃ u ∈ ts, x ∈ inner u := by
  induction h with
  | nil => exact fun x hx => absurd hx List.not_mem_nil
  | cons howned _ ih =>
    intro x hx
    rcases List.mem_cons.mp hx with rfl | hx
    · obtain ⟨u, -, hu, hin, -⟩ := howned.owner
      exact ⟨u, List.mem_of_getElem? hu, hin⟩
    · exact ih x hx

theorem slots_of_owned {default : ℕ} {xs : List ℕ} {o : List (ℕ × Slot α)}
    (h : List.Forall₂ (Owned net default ts) xs o) : xs.map net.slot? = (o.map (·.2)).map some := by
  induction h with
  | nil => rfl
  | cons howned _ ih => rw [List.map_cons, howned.slot, ih, List.map_cons, List.map_cons]

/-- It is enough to know the cells of the row. -/
theorem Row.congr {f : Forest α} {default p : ℕ} (h : Row net ts f default)
    (hw : ∀ (k : ℕ) (t : Wires), ts[k]? = some t → Wired net p k t)
    (heq : ∀ t ∈ ts, ∀ x ∈ slots t, net'[x]? = net[x]?) : Row net' ts f default := by
  have htop : ∀ t ∈ ts, net'[top t]? = net[top t]? := fun t ht => heq t ht _ (top_mem_slots t)
  have hinner : ∀ t ∈ ts, ∀ x ∈ inner t, net'[x]? = net[x]? := fun t ht x hx =>
    heq t ht x (mem_slots_of_mem_inner hx)
  refine ⟨?_, ?_, ?_, ?_, ?_, h.even⟩
  · exact h.siblings.congr fun t ht => Net.data?_congr (htop t ht)
  · intro k t ds ht hds
    exact (h.below k t ds ht hds).congr (hw k t ht) fun x hx =>
      .inl (Net.slot?_congr (hinner t (List.mem_of_getElem? ht) x hx))
  · intro o ho
    obtain ⟨zs, hzs, hleft, hzin⟩ := h.left o ho
    have hcells : ∀ z ∈ zs, net'[z]? = net[z]? := by
      intro z hz
      obtain ⟨u, hu, hzu⟩ := hzin z hz
      exact hinner u hu z hzu
    refine ⟨zs, hzs.congr fun x hx => Net.nextLeft_of_cell ?_, by rw [slots_congr hcells, hleft], hzin⟩
    rcases List.mem_cons.mp hx with rfl | hx
    · exact htop o (List.mem_of_head? ho)
    · exact hcells x hx
  · intro y hy
    obtain ⟨xs, hxs, howned⟩ := h.right y hy
    refine ⟨xs, hxs.congr fun x hx => Net.nextRight_of_cell ?_, howned.imp fun x e howner => ?_⟩
    · rcases List.mem_cons.mp hx with rfl | hx
      · exact htop y (List.mem_of_getLast? hy)
      · obtain ⟨u, hu, hxu⟩ := inside_of_owned howned x hx
        exact hinner u hu x hxu
    · obtain ⟨o, -, ho, hin, -⟩ := howner.owner
      have hcell := hinner o (List.mem_of_getElem? ho) x hin
      exact howner.of_cell (Net.slot?_congr hcell) (Net.ancestor?_congr hcell)
  · intro t ht x hx
    obtain ⟨a, ha, hanc⟩ := h.ancestors t ht x hx
    exact ⟨a, ha, (Net.ancestor?_congr (heq t ht x hx)).trans hanc⟩

/-- The row without subtrees. -/
theorem Row.nil (net : Net α) (default : ℕ) : Row net [] {} default where
  siblings := rfl
  below k t ds ht := by simp at ht
  left o ho := by simp at ho
  right y hy := by simp at hy
  ancestors t ht := absurd ht List.not_mem_nil
  even := rfl

end Congr

end FlowTree.Tidy
