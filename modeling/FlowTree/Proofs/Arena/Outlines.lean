import FlowTree.Proofs.Arena.Wiring
import FlowTree.Proofs.Tidy.Shape

/-!
# Outlines in an array

An outline is a chain of cells, each leading to the next one over its first or last child or over a thread.

* **`Leads`** says that a chain starts at a cell; **`Leads.nodup`** says that no chain comes back to one of its cells,
  **`Leads.extend`** that a chain can be made longer at its end.
* **`Cell.data`** are the numbers of a cell that siblings share, **`Cell.links`** its references that only threads
  change.
* **`RowAt`** says that the roots of a row of subtrees hold the numbers of some siblings.
-/

namespace FlowTree.Tidy

variable {α : Type}

/-! ### Chains -/

/-- From `x` on one comes to the cells of the list, one after the other, and no further. -/
def Leads (next : ℕ → Option ℕ) : ℕ → List ℕ → Prop
  | x, [] => next x = none
  | x, y :: ys => next x = some y ∧ Leads next y ys

namespace Leads

variable {next next' : ℕ → Option ℕ} {x : ℕ} {xs ys : List ℕ}

theorem next_eq (h : Leads next x xs) : next x = xs.head? := by
  cases xs with
  | nil => exact h
  | cons y ys => exact h.1

theorem unique (h : Leads next x xs) (h' : Leads next x ys) : xs = ys := by
  induction xs generalizing x ys with
  | nil =>
    cases ys with
    | nil => rfl
    | cons z zs => exact absurd (h.symm.trans h'.1) (by simp)
  | cons y xs ih =>
    cases ys with
    | nil => exact absurd (h.1.symm.trans h') (by simp)
    | cons z zs =>
      obtain rfl := Option.some.inj (h.1.symm.trans h'.1)
      rw [ih h.2 h'.2]

/-- From a later cell of a chain on the rest is shorter. -/
theorem of_mem (h : Leads next x xs) {y : ℕ} (hy : y ∈ xs) : ∃ zs, Leads next y zs ∧ zs.length < xs.length := by
  induction xs generalizing x with
  | nil => exact absurd hy List.not_mem_nil
  | cons z xs ih =>
    rcases List.mem_cons.mp hy with rfl | hy
    · exact ⟨xs, h.2, Nat.lt_succ_self _⟩
    · obtain ⟨zs, hzs, hlt⟩ := ih h.2 hy
      exact ⟨zs, hzs, Nat.lt_succ_of_lt hlt⟩

/-- **No chain comes back** to one of its cells. -/
theorem nodup (h : Leads next x xs) : (x :: xs).Nodup := by
  induction xs generalizing x with
  | nil => exact List.nodup_singleton x
  | cons y xs ih =>
    refine List.nodup_cons.mpr ⟨fun hx => ?_, ih h.2⟩
    obtain ⟨zs, hzs, hlt⟩ := h.of_mem hx
    rw [h.unique hzs] at hlt
    exact Nat.lt_irrefl _ hlt

/-- A chain of positions in an array is shorter than the array. -/
theorem length_lt (h : Leads next x xs) {n : ℕ} (hlt : ∀ y ∈ x :: xs, y < n) : xs.length < n := by
  have hle := (List.subperm_of_subset h.nodup fun y hy => List.mem_range.mpr (hlt y hy)).length_le
  rwa [List.length_range, List.length_cons] at hle

theorem congr (h : Leads next x xs) (heq : ∀ y ∈ x :: xs, next' y = next y) : Leads next' x xs := by
  induction xs generalizing x with
  | nil => exact (heq x List.mem_cons_self).trans h
  | cons y xs ih =>
    exact ⟨(heq x List.mem_cons_self).trans h.1, ih h.2 fun z hz => heq z (List.mem_cons_of_mem x hz)⟩

/-- **A chain goes on** where its last cell leads to another chain. -/
theorem extend (h : Leads next x xs) (heq : ∀ y ∈ x :: xs, y ≠ xs.getLastD x → next' y = next y)
    (hend : Leads next' (xs.getLastD x) ys) : Leads next' x (xs ++ ys) := by
  induction xs generalizing x with
  | nil => exact hend
  | cons y xs ih =>
    rw [List.getLastD_cons] at heq hend
    have hne : x ≠ xs.getLastD y := by
      rintro rfl
      exact (List.nodup_cons.mp h.nodup).1 List.getLastD_mem_cons
    exact ⟨(heq x List.mem_cons_self hne).trans h.1, ih h.2 (fun z hz => heq z (List.mem_cons_of_mem x hz)) hend⟩

end Leads

/-! ### What a cell holds -/

namespace Cell

/-- The numbers of a cell. -/
def data (c : Cell α) : Slot α × α × α := (c.toSlot, c.change, c.shift)

/-- The references of a cell to its relatives and to the next cell of its outline. -/
def links (c : Cell α) : Joint × Option ℕ := (c.toJoint, c.thread)

end Cell

namespace Net

/-- The place of a cell and the shift of everything below it. -/
def slot? (net : Net α) (x : ℕ) : Option (Slot α) := net[x]?.map (·.toSlot)

/-- The numbers of a cell. -/
def data? (net : Net α) (x : ℕ) : Option (Slot α × α × α) := net[x]?.map Cell.data

theorem slot?_eq (net : Net α) (x : ℕ) : net.slot? x = (net.data? x).map (·.1) := by
  rw [slot?, data?, Option.map_map]
  rfl

/-- The cell that a cell takes for its ancestor. -/
def ancestor? (net : Net α) (x : ℕ) : Option ℕ := net[x]?.map (·.ancestor)

theorem exists_of_slot? {net : Net α} {x : ℕ} {s : Slot α} (h : net.slot? x = some s) :
    ∃ c, net[x]? = some c ∧ c.toSlot = s := Option.map_eq_some_iff.mp h

/-! ### What depends on the references alone -/

section Links

variable {net net' : Net α} (heq : net'.map Cell.links = net.map Cell.links)
include heq

theorem links_getElem? (x : ℕ) : net'[x]?.map Cell.links = net[x]?.map Cell.links := by
  rw [← List.getElem?_map, heq, List.getElem?_map]

theorem length_congr : net'.length = net.length := by
  have hlength := congrArg List.length heq
  rwa [List.length_map, List.length_map] at hlength

theorem joints_congr : net'.map (·.toJoint) = net.map (·.toJoint) := by
  have hjoints := congrArg (List.map (·.1)) heq
  rwa [List.map_map, List.map_map] at hjoints

theorem nextLeft_congr : net'.nextLeft = net.nextLeft := by
  have hnext : ∀ (k : Net α) (x : ℕ), k.nextLeft x =
      (k[x]?.map Cell.links).bind fun l => l.1.children.head?.or l.2 := by
    intro k x
    rw [nextLeft]
    cases k[x]? <;> rfl
  funext x
  rw [hnext, hnext, links_getElem? heq]

theorem nextRight_congr : net'.nextRight = net.nextRight := by
  have hnext : ∀ (k : Net α) (x : ℕ), k.nextRight x =
      (k[x]?.map Cell.links).bind fun l => l.1.children.getLast?.or l.2 := by
    intro k x
    rw [nextRight]
    cases k[x]? <;> rfl
  funext x
  rw [hnext, hnext, links_getElem? heq]

end Links

theorem stepLeft_eq {net : Net α} {x : ℕ} (hx : x < net.length) : net.stepLeft x = .ok (net.nextLeft x) := by
  rw [stepLeft, nextLeft, Checked.get_eq (List.getElem?_eq_getElem hx), List.getElem?_eq_getElem hx]
  rfl

theorem stepRight_eq {net : Net α} {x : ℕ} (hx : x < net.length) : net.stepRight x = .ok (net.nextRight x) := by
  rw [stepRight, nextRight, Checked.get_eq (List.getElem?_eq_getElem hx), List.getElem?_eq_getElem hx]
  rfl

/-! ### Changes of one cell -/

section Modify

variable {net : Net α} {x : ℕ} {g : Cell α → Cell α}

theorem data?_modify {y : ℕ} (hne : y ≠ x) : data? (net.modify x g) y = net.data? y := by
  rw [data?, data?, List.getElem?_modify]
  simp [Ne.symm hne]

theorem data?_modify_of_keeps (hg : ∀ c, (g c).data = c.data) (y : ℕ) : data? (net.modify x g) y = net.data? y := by
  rw [data?, data?, ← List.getElem?_map, map_modify_of_keeps hg, List.getElem?_map]

theorem ancestor?_modify {y : ℕ} (hne : y ≠ x) : ancestor? (net.modify x g) y = net.ancestor? y := by
  rw [ancestor?, ancestor?, List.getElem?_modify]
  simp [Ne.symm hne]

theorem ancestor?_modify_of_keeps (hg : ∀ c, (g c).ancestor = c.ancestor) (y : ℕ) :
    ancestor? (net.modify x g) y = net.ancestor? y := by
  rw [ancestor?, ancestor?, ← List.getElem?_map, map_modify_of_keeps hg, List.getElem?_map]

end Modify

end Net

/-- What becomes of some cells: all relatives stay, and so does every other cell. -/
structure Within (net net' : Net α) (xs : List ℕ) : Prop where
  joints : net'.map (·.toJoint) = net.map (·.toJoint)
  outside : ∀ x, x ∉ xs → net'[x]? = net[x]?

namespace Within

variable {net net₁ net₂ : Net α} {xs ys : List ℕ}

theorem refl (net : Net α) (xs : List ℕ) : Within net net xs := ⟨rfl, fun _ _ => rfl⟩

theorem trans (h : Within net net₁ xs) (h' : Within net₁ net₂ xs) : Within net net₂ xs :=
  ⟨h'.joints.trans h.joints, fun x hx => (h'.outside x hx).trans (h.outside x hx)⟩

theorem mono (h : Within net net₁ xs) (hsub : xs ⊆ ys) : Within net net₁ ys :=
  ⟨h.joints, fun x hx => h.outside x fun hxs => hx (hsub hxs)⟩

/-- A change of one of the cells that keeps its relatives. -/
theorem modify {g : Cell α → Cell α} (hg : ∀ c, (g c).toJoint = c.toJoint) {v : ℕ} (hv : v ∈ xs) :
    Within net (net.modify v g) xs where
  joints := map_modify_of_keeps hg net v
  outside _ hx := List.getElem?_modify_ne _ _ fun heq => hx (heq ▸ hv)

end Within

/-! ### Rows -/

/-- The numbers of a sibling. -/
def Sibling.data (s : Sibling α) : Slot α × α × α := (s.toSlot, s.change, s.shift)

/-- The roots of a row of subtrees hold the numbers of some siblings. -/
def RowAt (net : Net α) (ts : List Wires) (row : List (Sibling α)) : Prop :=
  ts.map (fun t => net.data? (top t)) = row.map fun s => some s.data

namespace RowAt

variable {net net' : Net α} {ts : List Wires} {row : List (Sibling α)}

theorem length (h : RowAt net ts row) : ts.length = row.length := by
  have hlength := congrArg List.length h
  rwa [List.length_map, List.length_map] at hlength

theorem exists_sibling (h : RowAt net ts row) {k : ℕ} {t : Wires} (ht : ts[k]? = some t) :
    ∃ s, row[k]? = some s ∧ net.data? (top t) = some s.data := by
  have hk := congrArg (·[k]?) h
  simp only [List.getElem?_map, ht, Option.map_some] at hk
  obtain ⟨s, hs, hdata⟩ := Option.map_eq_some_iff.mp hk.symm
  exact ⟨s, hs, hdata.symm⟩

theorem congr (h : RowAt net ts row) (heq : ∀ t ∈ ts, net'.data? (top t) = net.data? (top t)) :
    RowAt net' ts row := by
  rw [RowAt, ← h]
  exact List.map_congr_left heq

/-- A change of one root is a change of one sibling. -/
theorem modify (h : RowAt net ts row) (hnodup : (ts.map top).Nodup) {i : ℕ} {t : Wires} (ht : ts[i]? = some t)
    {g : Cell α → Cell α} {f : Sibling α → Sibling α}
    (hg : ∀ c s, c.data = s.data → (g c).data = (f s).data) :
    RowAt (net.modify (top t) g) ts (row.modify i f) := by
  apply List.ext_getElem?
  intro k
  have hk := congrArg (·[k]?) h
  simp only [List.getElem?_map] at hk
  rw [List.getElem?_map, List.getElem?_map, List.getElem?_modify, Option.map_eq_map]
  cases hu : ts[k]? with
  | none =>
    rw [hu] at hk
    have hnone := Option.map_eq_none_iff.mp hk.symm
    rw [hnone]
    rfl
  | some u =>
    rw [hu, Option.map_some] at hk
    obtain ⟨s, hs, hdata⟩ := Option.map_eq_some_iff.mp hk.symm
    rw [hs, Option.map_some, Option.map_some, Option.map_some]
    by_cases hik : i = k
    · subst hik
      obtain rfl := Option.some.inj (ht.symm.trans hu)
      obtain ⟨c, hc, hcdata⟩ := Option.map_eq_some_iff.mp hdata.symm
      rw [Net.data?, List.getElem?_modify, hc]
      simp [hg c s hcdata]
    · have hne : top u ≠ top t := by
        intro heq
        refine hik ?_
        have hi : (ts.map top)[i]? = some (top t) := by rw [List.getElem?_map, ht, Option.map_some]
        have hk : (ts.map top)[k]? = some (top t) := by rw [List.getElem?_map, hu, Option.map_some, heq]
        exact (List.getElem?_inj (List.getElem?_eq_some_iff.mp hi).1 hnodup).mp (hi.trans hk.symm)
      rw [Net.data?_modify hne, ← hdata, if_neg hik]

end RowAt

end FlowTree.Tidy
