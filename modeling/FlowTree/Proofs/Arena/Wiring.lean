import FlowTree.Proofs.Arena.Net
import FlowTree.Proofs.Arena.Walk

/-!
# The cells of a tidy tree

* **`Wires`** are trees whose nodes know their cell and the position that it stands for; **`slots`** are the cells of
  such a tree.
* **`Fresh`** says that the cells of a tree have just been laid out, **`Wired`** that the relatives agree with it.
* **`build_root`** says that all cells are laid out, one after the other and depth first.
-/

namespace FlowTree.Tidy

variable {α : Type}

/-- A tree whose nodes know their cell and the position that it stands for. -/
abbrev Wires := Tree (ℕ × ℕ)

/-- The cell of the root. -/
def top (t : Wires) : ℕ := t.value.1

/-- The cells of a tree. -/
def slots (t : Wires) : List ℕ := t.preorder.map (·.1)

/-- The cells below the root. -/
def inner (t : Wires) : List ℕ := t.children.flatMap slots

theorem slots_node (x : ℕ × ℕ) (cs : List Wires) : slots (.node x cs) = x.1 :: cs.flatMap slots := by
  rw [slots, Tree.preorder_node, List.map_cons, List.map_flatMap]
  rfl

theorem slots_eq (t : Wires) : slots t = top t :: inner t := by
  obtain ⟨x, cs⟩ := t
  exact slots_node x cs

theorem top_mem_slots (t : Wires) : top t ∈ slots t := by
  rw [slots_eq]
  exact List.mem_cons_self

theorem mem_slots_of_mem_inner {t : Wires} {x : ℕ} (hx : x ∈ inner t) : x ∈ slots t := by
  rw [slots_eq]
  exact List.mem_cons_of_mem _ hx

/-- The cells of a tree refer to their relatives in it. -/
inductive Wired (net : Net α) : (parent number : ℕ) → Wires → Prop
  | node {parent number : ℕ} {x : ℕ × ℕ} {cs : List Wires}
    (cell : net[x.1]?.map (·.toJoint) = some ⟨some x.2, some parent, cs.map top, number⟩)
    (deeper : ∀ k c, cs[k]? = some c → Wired net x.1 k c) : Wired net parent number (.node x cs)

theorem Wired.joint {net : Net α} {parent number : ℕ} {t : Wires} (h : Wired net parent number t) :
    ∃ c, net[top t]? = some c ∧
      c.toJoint = ⟨some t.value.2, some parent, t.children.map top, number⟩ := by
  cases h with
  | node hcell _ =>
    obtain ⟨c, hc, hjoint⟩ := Option.map_eq_some_iff.mp hcell
    exact ⟨c, hc, hjoint⟩

theorem Wired.child {net : Net α} {parent number : ℕ} {t : Wires} (h : Wired net parent number t) {k : ℕ}
    {c : Wires} (hc : t.children[k]? = some c) : Wired net (top t) k c := by
  cases h with
  | node _ hdeeper => exact hdeeper k c hc

theorem Wired.congr {net net' : Net α} (heq : net'.map (·.toJoint) = net.map (·.toJoint)) {parent number : ℕ}
    {t : Wires} (h : Wired net parent number t) : Wired net' parent number t := by
  induction h with
  | node hcell _ ih =>
    refine .node ?_ ih
    rw [← hcell, ← List.getElem?_map, heq, List.getElem?_map]

/-- The parent of a cell below the root is a cell of the tree. -/
theorem Wired.parent_mem {net : Net α} {parent number : ℕ} {t : Wires} (h : Wired net parent number t) {x : ℕ}
    (hx : x ∈ inner t) : ∃ c y, net[x]? = some c ∧ c.parent = some y ∧ y ∈ slots t := by
  induction h with
  | @node parent number x cs _ hdeeper ih =>
    obtain ⟨d, hd, hx⟩ := List.mem_flatMap.mp hx
    obtain ⟨k, hk⟩ := List.getElem?_of_mem hd
    rw [slots_eq, List.mem_cons] at hx
    rcases hx with rfl | hx
    · obtain ⟨c, hc, hjoint⟩ := (hdeeper k d hk).joint
      exact ⟨c, _, hc, congrArg Joint.parent hjoint, top_mem_slots (.node x cs)⟩
    · obtain ⟨c, y, hc, hparent, hy⟩ := ih k d hk hx
      refine ⟨c, y, hc, hparent, mem_slots_of_mem_inner ?_⟩
      exact List.mem_flatMap.mpr ⟨d, hd, hy⟩

section Fresh

variable [Scalar α]

/-- The cells of a tree have just been laid out. -/
inductive Fresh (net : Net α) : (parent number : ℕ) → Wires → Prop
  | node {parent number : ℕ} {x : ℕ × ℕ} {cs : List Wires}
    (cell : net[x.1]? = some { Cell.fresh x.1 (some x.2) (some parent) number with children := cs.map top })
    (deeper : ∀ k c, cs[k]? = some c → Fresh net x.1 k c) : Fresh net parent number (.node x cs)

variable {net net' : Net α} {parent number : ℕ} {t : Wires}

theorem Fresh.wired (h : Fresh net parent number t) : Wired net parent number t := by
  induction h with
  | node hcell _ ih =>
    refine .node ?_ ih
    rw [hcell]
    rfl

/-- It is enough to know the cells of the tree. -/
theorem Fresh.congr (heq : ∀ x ∈ slots t, net'[x]? = net[x]?) (h : Fresh net parent number t) :
    Fresh net' parent number t := by
  induction h with
  | @node parent number x cs hcell _ ih =>
    rw [slots_node] at heq
    refine .node ((heq _ List.mem_cons_self).trans hcell) fun k c hc => ih k c hc fun y hy => heq y ?_
    exact List.mem_cons_of_mem _ (List.mem_flatMap.mpr ⟨c, List.mem_of_getElem? hc, hy⟩)

/-! ### Laying out -/

/-- Some trees have been laid out at the end of a net as the children of the cell `parent` from number `first` on. -/
structure Grown (net : Net α) (parent first : ℕ) (ts : List (Tree ℕ)) (net' : Net α) (rows : List Wires) : Prop where
  sources : rows.map (Tree.map (·.2)) = ts
  slots : rows.flatMap slots = List.range' net.length (ts.map Tree.size).sum
  length : net'.length = net.length + (ts.map Tree.size).sum
  before : ∀ x < net.length, net'[x]? = net[x]?.map fun c =>
    if x = parent then { c with children := c.children ++ rows.map top } else c
  fresh : ∀ k t, rows[k]? = some t → Fresh net' parent (first + k) t

/-- A tree on the stack is laid out before anything below it on the stack. -/
def Builds (α : Type) [Scalar α] (below : ℕ → Option (List ℕ)) (t : Tree ℕ) : Prop :=
  ∀ (net : Net α) (parent number : ℕ) (stack : List (ℕ × ℕ × ℕ)) (rounds : ℕ), parent < net.length →
    ∃ net' s, Net.build below (t.size + rounds) ((t.value, parent, number) :: stack) net =
        Net.build below rounds stack net' ∧ Grown net parent number [t] net' [s]

theorem Grown.nil (net : Net α) (parent first : ℕ) : Grown net parent first [] net [] where
  sources := rfl
  slots := rfl
  length := rfl
  before x _ := by simp
  fresh k t ht := by simp at ht

/-- One tree after the other. -/
theorem Grown.cons {net net₁ net' : Net α} {parent first : ℕ} {t : Tree ℕ} {ts : List (Tree ℕ)} {s : Wires}
    {rows : List Wires} (hparent : parent < net.length) (h : Grown net parent first [t] net₁ [s])
    (hs : Grown net₁ parent (first + 1) ts net' rows) : Grown net parent first (t :: ts) net' (s :: rows) := by
  have hsource := h.sources
  have hslots := h.slots
  have hlength := h.length
  simp only [List.map_cons, List.map_nil, List.cons.injEq, and_true, List.flatMap_singleton, List.sum_cons,
    List.sum_nil, Nat.add_zero] at hsource hslots hlength
  refine ⟨by rw [List.map_cons, hsource, hs.sources], ?_, ?_, ?_, ?_⟩
  · rw [List.flatMap_cons, hslots, hs.slots, hlength, List.map_cons, List.sum_cons, List.range'_append_1]
  · rw [hs.length, hlength, List.map_cons, List.sum_cons, Nat.add_assoc]
  · intro x hx
    rw [hs.before x (by omega), h.before x hx, Option.map_map]
    congr 1
    funext c
    by_cases hxp : x = parent <;> simp [hxp]
  · intro k u hu
    cases k with
    | zero =>
      obtain rfl := Option.some.inj hu
      refine (h.fresh 0 s rfl).congr fun x hx => ?_
      rw [hslots, List.mem_range'_1] at hx
      rw [hs.before x (by omega)]
      have hne : x ≠ parent := by omega
      simp [hne]
    | succ k =>
      rw [List.getElem?_cons_succ] at hu
      have hfresh := hs.fresh k u hu
      rwa [Nat.add_assoc, Nat.add_comm 1 k] at hfresh

theorem build_row {below : ℕ → Option (List ℕ)} {ts : List (Tree ℕ)} (hts : ∀ t ∈ ts, Builds α below t) (net : Net α)
    {parent : ℕ} (hparent : parent < net.length) (first : ℕ) (stack : List (ℕ × ℕ × ℕ)) (rounds : ℕ) :
    ∃ net' rows, Net.build below ((ts.map Tree.size).sum + rounds)
        (((ts.map Tree.value).zipIdx first).map (fun x => (x.1, parent, x.2)) ++ stack) net =
        Net.build below rounds stack net' ∧ Grown net parent first ts net' rows := by
  induction ts generalizing net first with
  | nil =>
    refine ⟨net, [], ?_, .nil net parent first⟩
    simp
  | cons t ts ih =>
    obtain ⟨net₁, s, hbuild, hgrown⟩ := hts t List.mem_cons_self net parent first
      (((ts.map Tree.value).zipIdx (first + 1)).map (fun x => (x.1, parent, x.2)) ++ stack)
      ((ts.map Tree.size).sum + rounds) hparent
    obtain ⟨net', rows, hrest, hgrown'⟩ := ih (fun u hu => hts u (List.mem_cons_of_mem t hu)) net₁
      (by rw [hgrown.length]; omega) (first + 1)
    refine ⟨net', s :: rows, ?_, hgrown.cons hparent hgrown'⟩
    rw [← hrest, ← hbuild, List.map_cons, List.sum_cons, Nat.add_assoc]
    rfl

/-- **Every tree of positions** is laid out as soon as it comes to the top of the stack. -/
theorem builds {below : ℕ → Option (List ℕ)} {t : Tree ℕ} (ht : Hangs below t) : Builds α below t := by
  induction ht with
  | @node i cs hchildren _ ih =>
    intro net parent number stack rounds hparent
    let cell : Cell α := Cell.fresh net.length (some i) (some parent) number
    let net₁ := (net ++ [cell]).modify parent fun c => { c with children := c.children ++ [net.length] }
    have hlength : net₁.length = net.length + 1 := by simp [net₁]
    have hcell : net₁[net.length]? = some cell := by
      rw [List.getElem?_modify, List.getElem?_concat_length]
      have hne : parent ≠ net.length := Nat.ne_of_lt hparent
      simp [hne]
    obtain ⟨net', rows, hbuild, hgrown⟩ := @build_row _ _ below cs ih net₁ net.length (by omega) 0 stack rounds
    refine ⟨net', .node (net.length, i) rows, ?_, ?_, ?_, ?_, ?_, ?_⟩
    · rw [Tree.size_node, Nat.add_right_comm, Net.build]
      simp only [Tree.value, hchildren, Checked.present_some]
      rw [Checked.modify_eq (by simp; omega), Checked.ok_bind, Checked.ok_bind]
      exact hbuild
    · rw [List.map_singleton, Tree.map_node, hgrown.sources]
    · rw [List.flatMap_singleton, slots_node, hgrown.slots, hlength, List.map_singleton, List.sum_singleton,
        Tree.size_node, List.range'_succ]
    · rw [hgrown.length, hlength, List.map_singleton, List.sum_singleton, Tree.size_node]
      omega
    · intro x hx
      have hne : x ≠ net.length := Nat.ne_of_lt hx
      rw [hgrown.before x (by omega), List.getElem?_modify, List.getElem?_append_left hx, Option.map_eq_map,
        Option.map_map]
      congr 1
      funext c
      by_cases hxp : parent = x
      · simp [hxp, hne, top, Tree.value]
      · simp [hxp, Ne.symm hxp, hne]
    · intro k u hu
      cases k with
      | zero =>
        obtain rfl := Option.some.inj hu
        refine .node ?_ fun k c hc => ?_
        · rw [hgrown.before _ (by omega), hcell]
          simp [cell, Cell.fresh]
        · have hfresh := hgrown.fresh k c hc
          rwa [Nat.zero_add] at hfresh
      | succ k => simp at hu

/-- **All cells are laid out**, that of the root being the only child of the first one. -/
theorem build_root {below : ℕ → Option (List ℕ)} {t : Tree ℕ} (ht : Hangs below t) {rounds : ℕ}
    (hrounds : t.size ≤ rounds) :
    ∃ net s, Net.build below rounds [(t.value, 0, 0)] ([Cell.fresh 0 none none 0] : Net α) = .ok net ∧
      s.map (·.2) = t ∧ slots s = List.range' 1 t.size ∧ net.length = t.size + 1 ∧
      net[0]? = some { Cell.fresh 0 none none 0 with children := [top s] } ∧ Fresh net 0 0 s := by
  obtain ⟨net, s, hbuild, hgrown⟩ := builds (α := α) ht [Cell.fresh 0 none none 0] 0 0 []
    (rounds - t.size) Nat.one_pos
  rw [Nat.add_sub_cancel' hrounds, Net.build] at hbuild
  refine ⟨net, s, hbuild, ?_, ?_, ?_, ?_, hgrown.fresh 0 s rfl⟩
  · simpa using hgrown.sources
  · simpa using hgrown.slots
  · rw [hgrown.length]
    simp [Nat.add_comm]
  · rw [hgrown.before 0 Nat.one_pos]
    rfl

end Fresh

end FlowTree.Tidy
