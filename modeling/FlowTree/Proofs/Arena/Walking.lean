import FlowTree.Proofs.Arena.Standing

/-!
# The walks over a tidy tree in an array

* **`Awaited`** says that a subtree is the next one to join the row of its older siblings, **`Halfway`** which of the
  children of a node have joined their row.
* **`walks`** says that the first walk goes through for every subtree, and that it is `draw`.
-/

namespace FlowTree.Tidy

variable {α : Type}

/-- The subtree `t` is the next one to join the row `ts` below the cell `p`, which is `c`. -/
structure Awaited (net : Net α) (p default : ℕ) (ts : List Wires) (t : Wires) (f : Forest α) (c : Cell α) : Prop where
  adjoins : Adjoins net p ts t
  row : Row net ts f default
  cell : net[p]? = some c
  children : ∃ rest, c.children = (ts ++ t :: rest).map top
  assumed : c.defaultAncestor = ts.head?.map fun _ => default

namespace Awaited

variable {net net' : Net α} {p default : ℕ} {ts : List Wires} {t : Wires} {f : Forest α} {c : Cell α}
  (h : Awaited net p default ts t f c)
include h

/-- Nothing changes about the row while the subtree is drawn. -/
theorem within (hwithin : Within net net' (slots t)) : Awaited net' p default ts t f c where
  adjoins := ⟨fun k u hu => (h.adjoins.wired k u hu).congr hwithin.joints, h.adjoins.nodup, h.adjoins.above⟩
  row := h.row.congr (fun k u hu => h.adjoins.wired k u (Adjoins.getElem?_old hu)) fun _ hu x hx =>
    hwithin.outside x (h.adjoins.not_mem_new hu hx)
  cell := (hwithin.outside p fun hp => h.adjoins.ne_above Adjoins.getElem?_new hp rfl).trans h.cell
  children := h.children
  assumed := h.assumed

theorem head?_children : c.children.head? = ((ts ++ [t]).head?).map top := by
  obtain ⟨rest, hchildren⟩ := h.children
  rw [hchildren, ← List.head?_map]
  cases ts <;> rfl

/-- The next older sibling is found. -/
theorem olderOf_eq : net.olderOf (top t) = .ok (ts.getLast?.map top) := by
  obtain ⟨v, hv, hjoint⟩ := (h.adjoins.wired _ t Adjoins.getElem?_new).joint
  obtain ⟨rest, hchildren⟩ := h.children
  have hnumber : v.number = ts.length := congrArg Joint.number hjoint
  rw [Net.olderOf, Checked.get_eq hv, Checked.ok_bind, hnumber]
  cases hlast : ts.getLast? with
  | none =>
    obtain rfl := List.getLast?_eq_none_iff.mp hlast
    rfl
  | some y =>
    have hpos : 0 < ts.length := List.length_pos_iff.mpr fun hnil => by simp [hnil] at hlast
    rw [List.getLast?_eq_getElem?] at hlast
    have hget : Checked.get c.children (ts.length - 1) = .ok (top y) := by
      refine Checked.get_eq ?_
      rw [hchildren, List.getElem?_map, List.getElem?_append_left (Nat.sub_lt hpos Nat.one_pos), hlast, Option.map_some]
    rw [if_pos hpos, h.adjoins.parentOf_top Adjoins.getElem?_new]
    simp only [Checked.ok_bind, Checked.get_eq h.cell, Checked.minus_eq hpos, hget]
    rfl

end Awaited

variable [Scalar α]

/-- Of the children of the cell `v`, which is `c`, some have been drawn and set beside each other; the others have only
been laid out. -/
structure Halfway (net : Net α) (v default : ℕ) (done todo : List Wires) (f : Forest α) (c : Cell α) : Prop where
  wired : ∀ (k : ℕ) (u : Wires), (done ++ todo)[k]? = some u → Wired net v k u
  nodup : ((done ++ todo).flatMap slots).Nodup
  above : v ∉ (done ++ todo).flatMap slots
  row : Row net done f default
  cell : net[v]? = some c
  children : c.children = (done ++ todo).map top
  assumed : c.defaultAncestor = done.head?.map fun _ => default
  fresh : ∀ (k : ℕ) (u : Wires), todo[k]? = some u → Fresh net v (done.length + k) u

/-- The first walk draws a subtree and lets it join the row of its older siblings. -/
def Walks (α : Type) [Scalar α] (t : Wires) : Prop :=
  ∀ (net : Net α) (p default : ℕ) (ts : List Wires) (f : Forest α) (c : Cell α) (rounds : ℕ),
    Awaited net p default ts t f c → Fresh net p ts.length t → t.size ≤ rounds →
      ∃ net' default', net.firstWalk rounds (top t) = .ok net' ∧
        Row net' (ts ++ [t]) (f.add (draw t f.lastPrelim?)) default' ∧
        Within net net' (p :: (ts ++ [t]).flatMap slots) ∧ net'[p]? = some (c.assuming default')

namespace Halfway

variable {net net' : Net α} {v default default' : ℕ} {done todo : List Wires} {u : Wires} {f f' : Forest α} {c : Cell α}

/-- No child has been drawn yet. -/
theorem start {x : ℕ × ℕ} {p k : ℕ} {cs : List Wires} (h : Fresh net p k (.node x cs))
    (hnodup : (slots (.node x cs)).Nodup) :
    Halfway net x.1 0 [] cs {} { Cell.fresh x.1 (some x.2) (some p) k with children := cs.map top } := by
  rw [slots_node, List.nodup_cons] at hnodup
  cases h with
  | node hcell hdeeper =>
    exact ⟨fun k u hu => (hdeeper k u hu).wired, hnodup.2, hnodup.1, .nil net 0, hcell, rfl, rfl, fun k u hu => by
      rw [List.length_nil, Nat.zero_add]
      exact hdeeper k u hu⟩

variable (h : Halfway net v default done (u :: todo) f c)
include h

/-- The next child is the one to be drawn. -/
theorem awaited : Awaited net v default done u f c where
  adjoins := by
    have hnodup := h.nodup
    have habove := h.above
    rw [List.append_cons, List.flatMap_append] at hnodup habove
    refine ⟨fun k w hk => h.wired k w ?_, (List.nodup_append.mp hnodup).1, fun hv =>
      habove (List.mem_append_left _ hv)⟩
    rw [List.append_cons, List.getElem?_append_left (List.getElem?_eq_some_iff.mp hk).1, hk]
  row := h.row
  cell := h.cell
  children := ⟨todo, h.children⟩
  assumed := h.assumed

/-- **One child more** has been drawn; the others have not been touched. -/
theorem step (hrow : Row net' (done ++ [u]) f' default') (hwithin : Within net net' (v :: (done ++ [u]).flatMap slots))
    (hcell : net'[v]? = some (c.assuming default')) :
    Halfway net' v default' (done ++ [u]) todo f' (c.assuming default') := by
  have hnodup := h.nodup
  have habove := h.above
  rw [List.append_cons] at hnodup habove
  refine ⟨fun k w hk => (h.wired k w ?_).congr hwithin.joints, hnodup, habove, hrow, hcell, ?_, ?_, fun k w hk => ?_⟩
  · rw [List.append_cons, hk]
  · rw [← List.append_cons]
    exact h.children
  · cases done <;> rfl
  · have hnext := h.fresh (k + 1) w hk
    rw [List.length_append, List.length_singleton, Nat.add_assoc, Nat.add_comm 1 k]
    rw [List.flatMap_append] at hnodup habove
    refine hnext.congr fun x hx => hwithin.outside x fun hin => ?_
    have hrest : x ∈ todo.flatMap slots := List.mem_flatMap.mpr ⟨w, List.mem_of_getElem? hk, hx⟩
    rcases List.mem_cons.mp hin with rfl | hin
    · exact habove (List.mem_append_right _ hrest)
    · exact (List.nodup_append.mp hnodup).2.2 x hin x hrest rfl

end Halfway

/-- The children that are still to be drawn join those that have been drawn, one after the other. -/
theorem walk_children {todo : List Wires} (htodo : ∀ u ∈ todo, Walks α u) {net : Net α} {v default rounds : ℕ}
    {done : List Wires} {f : Forest α} {c : Cell α} (h : Halfway net v default done todo f c)
    (hrounds : ∀ u ∈ todo, u.size ≤ rounds) :
    ∃ net' default', (todo.map top).foldlM (fun net child => Net.firstWalk rounds child net) net = .ok net' ∧
      Row net' (done ++ todo) (todo.foldl (fun f u => f.add (draw u f.lastPrelim?)) f) default' ∧
        Within net net' (v :: (done ++ todo).flatMap slots) ∧
          net'[v]? = some { c with defaultAncestor := (done ++ todo).head?.map fun _ => default' } := by
  induction todo generalizing done net default f c with
  | nil =>
    rw [List.append_nil]
    exact ⟨net, default, rfl, h.row, .refl net _, by rw [h.cell, ← h.assumed]⟩
  | cons u todo ih =>
    obtain ⟨net₁, default₁, hwalk, hrow₁, hwithin, hcell₁⟩ := htodo u List.mem_cons_self net v default done f c rounds
      h.awaited (h.fresh 0 u rfl) (hrounds u List.mem_cons_self)
    obtain ⟨net', default', hrest, hrow', hwithin', hcell'⟩ :=
      ih (fun w hw => htodo w (List.mem_cons_of_mem u hw)) (h.step hrow₁ hwithin hcell₁)
      fun w hw => hrounds w (List.mem_cons_of_mem u hw)
    rw [← List.append_cons] at hrow' hwithin' hcell'
    refine ⟨net', default', ?_, hrow', (hwithin.mono ?_).trans hwithin', hcell'⟩
    · rw [List.map_cons, List.foldlM_cons, hwalk, Checked.ok_bind, hrest]
    · rw [List.append_cons done u todo]
      refine List.cons_subset_cons v fun x hx => ?_
      rw [List.flatMap_append]
      exact List.mem_append_left _ hx

/-- **A node stands** above its children as soon as these have been drawn. -/
theorem walk_below {x : ℕ × ℕ} {cs : List Wires} (hcs : ∀ u ∈ cs, Walks α u) {net : Net α} {p default : ℕ}
    {ts : List Wires} {f : Forest α} {c : Cell α} {rounds : ℕ} (h : Awaited net p default ts (.node x cs) f c)
    (hfresh : Fresh net p ts.length (.node x cs)) (hrounds : (Tree.node x cs).size ≤ rounds + 1) :
    ∃ net₁ net₂ default₁, (cs.map top).foldlM (fun net child => Net.firstWalk rounds child net) net = .ok net₁ ∧
      net₁.olderOf x.1 = .ok (ts.getLast?.map top) ∧ net₁.stand x.1 (ts.getLast?.map top) = .ok net₂ ∧
        net₁[x.1]? = some { Cell.fresh x.1 (some x.2) (some p) ts.length with
          children := cs.map top, defaultAncestor := cs.head?.map fun _ => default₁ } ∧
        Awaited net₂ p default ts (.node x cs) f c ∧ DrawnAt net₂ (.node x cs) (draw (.node x cs) f.lastPrelim?) ∧
          Within net net₂ (slots (.node x cs)) := by
  have hnodup : (slots (.node x cs)).Nodup :=
    (List.nodup_flatMap.mp h.adjoins.nodup).1 _ List.mem_concat_self
  have hsizes : ∀ u ∈ cs, u.size ≤ rounds := fun u hu =>
    Nat.le_of_lt_succ ((Tree.size_lt_of_mem x hu).trans_le hrounds)
  -- the children
  obtain ⟨net₁, default₁, hwalk, hrow₁, hwithin₁, hcell₁⟩ := walk_children hcs (.start hfresh hnodup) hsizes
  rw [List.nil_append] at hrow₁ hwithin₁ hcell₁
  rw [← slots_node] at hwithin₁
  have h₁ := h.within hwithin₁
  -- the node
  obtain ⟨net₂, hstand, hdrawn, hwithin₂⟩ := Net.stand_eq (fun k u hu => (hfresh.wired.child hu).congr hwithin₁.joints)
    hnodup hcell₁ hrow₁ (.of_row h₁.adjoins h₁.row)
  rw [← draw_node] at hdrawn
  exact ⟨net₁, net₂, default₁, hwalk, h₁.olderOf_eq, hstand, hcell₁, h₁.within hwithin₂, hdrawn,
    hwithin₁.trans hwithin₂⟩

/-- **The first walk draws every subtree.** -/
theorem walks (t : Wires) : Walks α t := by
  induction t using Tree.induct with
  | node x cs ih =>
    intro net p default ts f c rounds h hfresh hrounds
    obtain ⟨rounds, rfl⟩ : ∃ r, rounds = r + 1 := ⟨rounds - 1, by rw [Tree.size_node] at hrounds; omega⟩
    obtain ⟨cell, hcell, hjoint⟩ := hfresh.wired.joint
    have hchildren : cell.children = cs.map top := congrArg Joint.children hjoint
    obtain ⟨net₁, net₂, default₁, hwalk, holder, hstand, -, h₂, hdrawn, hwithin⟩ := walk_below ih h hfresh hrounds
    -- the row
    obtain ⟨net₃, default₃, hjoin, hrow₃, hjoints, hcell₃, hout⟩ := Net.join_eq h₂.adjoins h₂.row hdrawn h₂.cell
      h₂.head?_children h₂.assumed
    have hsub : slots (.node x cs) ⊆ p :: (ts ++ [Tree.node x cs]).flatMap slots := fun y hy =>
      List.mem_cons_of_mem p (List.mem_flatMap.mpr ⟨_, List.mem_concat_self, hy⟩)
    refine ⟨net₃, default₃, ?_, hrow₃, (hwithin.mono hsub).trans ⟨hjoints, fun y hy => ?_⟩, hcell₃⟩
    · have hcell : net[x.1]? = some cell := hcell
      have hjoin : net₂.join x.1 (ts.getLast?.map top) = .ok net₃ := hjoin
      show Net.firstWalk (rounds + 1) x.1 net = _
      simp only [Net.firstWalk, Checked.get_eq hcell, hchildren, Checked.ok_bind, hwalk, holder, hstand, hjoin]
    · rw [List.mem_cons, not_or] at hy
      exact hout y hy.1 hy.2

end FlowTree.Tidy
