import FlowTree.Proofs.Arena.Rows

/-!
# Threads between the outlines in an array

* **`Leads.threaded`** says that an outline goes on over a thread, **`Eased.threaded`** that a thread leaves the places
  and the inner cells of all subtrees as they are.
* **`Met`** is a row with the subtree that is to be set beside it and all their outlines.
* **`Met.neither`**, **`Met.row_deeper`** and **`Met.new_deeper`** say which row there is at the end, depending on what
  reaches deeper.
-/

namespace FlowTree.Tidy

variable {α : Type}

/-! ### Threads -/

namespace Leads

variable {next next' : ℕ → Option ℕ} {x y : ℕ} {xs ys : List ℕ}

theorem end_eq (h : Leads next x xs) : next (xs.getLastD x) = none := by
  induction xs generalizing x with
  | nil => exact h
  | cons y xs ih =>
    rw [List.getLastD_cons]
    exact ih h.2

/-- From a later cell on. -/
theorem drop (h : Leads next x xs) {n : ℕ} (hn : xs.drop n = y :: ys) : Leads next y ys := by
  induction n generalizing x xs with
  | zero =>
    rw [List.drop_zero] at hn
    subst hn
    exact h.2
  | succ n ih =>
    cases xs with
    | nil => simp at hn
    | cons z xs => exact ih h.2 hn

/-- **An outline goes on over a thread** from its last cell. -/
theorem threaded (h : Leads next x xs) (hy : Leads next y ys) (hnot : xs.getLastD x ∉ y :: ys)
    (hsame : ∀ z, z ≠ xs.getLastD x → next' z = next z) (hend : next' (xs.getLastD x) = some y) :
    Leads next' x (xs ++ y :: ys) :=
  h.extend (fun z _ hne => hsame z hne) ⟨hend, hy.congr fun z hz => hsame z fun heq => hnot (heq ▸ hz)⟩

end Leads

namespace Net

variable {net : Net α} {x v : ℕ}

theorem nextLeft_eq_none_iff : net.nextLeft x = none ↔ net.nextRight x = none := by
  rw [nextLeft, nextRight]
  cases net[x]? with
  | none => simp
  | some c => simp

theorem slot?_modify {g : Cell α → Cell α} (hne : x ≠ v) : slot? (net.modify v g) x = net.slot? x := by
  rw [slot?_eq, slot?_eq, data?_modify hne]

variable [Scalar α] {next : ℕ} {gap : α}

theorem nextLeft_threaded (hlt : v < net.length) (hend : net.nextLeft v = none) :
    nextLeft (net.modify v (Cell.threaded next gap)) v = some next := by
  rw [nextLeft, List.getElem?_eq_getElem hlt, Option.bind_some, Option.or_eq_none_iff] at hend
  rw [nextLeft, List.getElem?_modify, List.getElem?_eq_getElem hlt]
  simp [Cell.threaded, List.head?_eq_none_iff.mp hend.1]

theorem nextRight_threaded (hlt : v < net.length) (hend : net.nextRight v = none) :
    nextRight (net.modify v (Cell.threaded next gap)) v = some next := by
  rw [nextRight, List.getElem?_eq_getElem hlt, Option.bind_some, Option.or_eq_none_iff] at hend
  rw [nextRight, List.getElem?_modify, List.getElem?_eq_getElem hlt]
  simp [Cell.threaded, List.getLast?_eq_none_iff.mp hend.1]

/-- The place of a cell stays, and so does what siblings share. -/
theorem rest_threaded (net : Net α) (v next : ℕ) (gap : α) (x : ℕ) :
    (data? (net.modify v (Cell.threaded next gap)) x).map
    (fun d => (d.1.prelim, d.2)) = (net.data? x).map fun d => (d.1.prelim, d.2) := by
  have hkeeps : ∀ c : Cell α, (fun d => (d.1.prelim, d.2)) (c.threaded next gap).data =
      (fun d => (d.1.prelim, d.2)) c.data := fun _ => rfl
  rw [data?, data?, Option.map_map, Option.map_map, ← List.getElem?_map, map_modify_of_keeps hkeeps,
    List.getElem?_map]

theorem ancestor?_threaded (next : ℕ) (gap : α) : ancestor? (net.modify v (Cell.threaded next gap)) = net.ancestor? :=
  funext (ancestor?_modify_of_keeps fun _ => rfl)

/-- The last cell of a chain moves what goes on from it. -/
theorem slots_threaded (next : ℕ) (gap : α) {x : ℕ} {xs : List ℕ} (hnodup : (x :: xs).Nodup) {s : Slot α}
    {o : Outline α} (hx : net.slot? x = some s) (hxs : xs.map net.slot? = o.map some) :
    slot? (net.modify (xs.getLastD x) (Cell.threaded next gap)) x = some (widenEnd gap s o).1 ∧
      xs.map (slot? (net.modify (xs.getLastD x) (Cell.threaded next gap))) = (widenEnd gap s o).2.map some := by
  induction xs generalizing x s o with
  | nil =>
    obtain rfl := List.map_eq_nil_iff.mp hxs.symm
    obtain ⟨c, hc, rfl⟩ := exists_of_slot? hx
    refine ⟨?_, rfl⟩
    rw [List.getLastD_nil, slot?, List.getElem?_modify, hc]
    simp [Cell.threaded, widenEnd]
  | cons u us ih =>
    obtain ⟨r, o, rfl, hu, hus⟩ := List.map_eq_cons_iff.mp hxs.symm
    obtain ⟨hnot, hnodup⟩ := List.nodup_cons.mp hnodup
    obtain ⟨hroot, hrest⟩ := ih hnodup hu.symm hus.symm
    have hne : x ≠ us.getLastD u := fun heq => hnot (heq ▸ List.getLastD_mem_cons)
    rw [List.getLastD_cons]
    refine ⟨(slot?_modify hne).trans hx, ?_⟩
    rw [List.map_cons, hroot, hrest]
    rfl

end Net

/-- A thread leaves the places of all cells and the inner cells as they are. -/
theorem Eased.threaded [Scalar α] {net : Net α} {v next : ℕ} {gap : α} (hend : net.nextLeft v = none) (x : ℕ) :
    Eased net (net.modify v (Cell.threaded next gap)) x := by
  by_cases hx : x = v
  · subst hx
    refine .inr ⟨hend, ?_⟩
    have hrest := congrArg (Option.map (·.1)) (Net.rest_threaded net x next gap x)
    rw [Option.map_map, Option.map_map] at hrest
    rw [Net.slot?_eq, Net.slot?_eq, Option.map_map, Option.map_map]
    exact hrest
  · exact .inl (Net.slot?_modify hx)

/-- The row with the slot of one root put in place. -/
theorem RowAt.setSlot {net net' : Net α} {ts : List Wires} {row : List (Sibling α)} (h : RowAt net ts row) {i : ℕ}
    {t : Wires} (ht : ts[i]? = some t) {s : Slot α} (hslot : net'.slot? (top t) = some s)
    (hrest : (net'.data? (top t)).map (·.2) = (net.data? (top t)).map (·.2))
    (hother : ∀ (k : ℕ) (u : Wires), ts[k]? = some u → k ≠ i → net'.data? (top u) = net.data? (top u)) :
    RowAt net' ts (Forest.setSlot i s row) := by
  apply List.ext_getElem?
  intro k
  rw [List.getElem?_map, List.getElem?_map, Forest.setSlot, List.getElem?_modify, Option.map_eq_map, Option.map_map]
  have hk := congrArg (·[k]?) h
  simp only [List.getElem?_map] at hk
  cases hu : ts[k]? with
  | none =>
    rw [hu] at hk
    rw [Option.map_eq_none_iff.mp hk.symm]
    rfl
  | some u =>
    rw [hu, Option.map_some] at hk
    obtain ⟨b, hb, hdata⟩ := Option.map_eq_some_iff.mp hk.symm
    rw [hb, Option.map_some, Option.map_some]
    by_cases hik : i = k
    · subst hik
      obtain rfl := Option.some.inj (ht.symm.trans hu)
      rw [← hdata, Option.map_some] at hrest
      obtain ⟨a, ha, hab⟩ := Option.map_eq_some_iff.mp hrest
      rw [Net.slot?_eq, ha, Option.map_some] at hslot
      rw [ha, Function.comp_apply, if_pos rfl, Sibling.data, ← Option.some.inj hslot]
      exact congrArg (fun rest => some (some (a.1, rest))) hab
    · rw [Function.comp_apply, if_neg hik, hother k u hu (Ne.symm hik), hdata]

/-! ### A row with one more subtree -/

/-- The cells of an outline of the youngest subtree hang below its root. -/
theorem owned_own {net : Net α} {default : ℕ} {ts : List Wires} {t : Wires} {us : List ℕ} {o : Outline α}
    (howner : ∀ u ∈ us, ∃ a, net.ancestor? u = some a ∧ (a = top t ∨ a ∈ inner t ∧ default = top t))
    (hinside : ∀ u ∈ us, u ∈ inner t) (hs : us.map net.slot? = o.map some) :
    List.Forall₂ (Owned net default (ts ++ [t])) us (o.map fun s => (ts.length, s)) := by
  induction us generalizing o with
  | nil =>
    rw [List.map_eq_nil_iff.mp hs.symm]
    exact .nil
  | cons u us ih =>
    obtain ⟨b, o, rfl, hb, hs⟩ := List.map_eq_cons_iff.mp hs.symm
    obtain ⟨a, ha, hor⟩ := howner u List.mem_cons_self
    refine .cons ⟨hb.symm, t, a, Adjoins.getElem?_new, hinside u List.mem_cons_self, ha, hor⟩ (ih ?_ ?_ hs.symm)
    · exact fun v hv => howner v (List.mem_cons_of_mem u hv)
    · exact fun v hv => hinside v (List.mem_cons_of_mem u hv)

section Concat

variable [Scalar α] {net : Net α} {ts : List Wires} {t : Wires} {f : Forest α} {d : Drawn α} {default : ℕ}

theorem DrawnAt.exists_ancestor (hd : DrawnAt net t d) {x : ℕ} (hx : x ∈ slots t) :
    ∃ a ∈ slots t, net.ancestor? x = some a := by
  rw [slots_eq] at hx ⊢
  rcases List.mem_cons.mp hx with rfl | hx
  · exact ⟨_, List.mem_cons_self, hd.own⟩
  · obtain ⟨a, ha, hanc⟩ := hd.ancestors x hx
    exact ⟨a, List.mem_cons_of_mem _ ha, hanc⟩

variable (hrow : Row net ts f default) (hd : DrawnAt net t d)
include hrow hd

theorem Row.siblings_concat : RowAt net (ts ++ [t]) (f.siblings ++ [d.sibling]) := by
  rw [RowAt, List.map_append, List.map_append, hrow.siblings, List.map_singleton, List.map_singleton, hd.root]
  rfl

theorem Row.below_concat (k : ℕ) (u : Wires) (ds : List (Tree (Slot α))) (hu : (ts ++ [t])[k]? = some u)
    (hds : ((f.siblings ++ [d.sibling]).map (·.below))[k]? = some ds) : ReadsAll net u.children ds := by
  have hlength := hrow.siblings.length
  rw [List.map_append] at hds
  by_cases hk : k < ts.length
  · rw [List.getElem?_append_left hk] at hu
    rw [List.getElem?_append_left (by rw [List.length_map]; omega)] at hds
    exact hrow.below k u ds hu hds
  · rw [List.getElem?_append_right (by omega), List.getElem?_singleton] at hu
    rw [List.getElem?_append_right (by rw [List.length_map]; omega), List.length_map, ← hlength, List.map_singleton,
      List.getElem?_singleton] at hds
    split at hu
    · obtain rfl := Option.some.inj hu
      rw [if_pos (by assumption)] at hds
      obtain rfl := Option.some.inj hds
      exact hd.below
    · exact absurd hu (by simp)

theorem Row.ancestors_concat (u : Wires) (hu : u ∈ ts ++ [t]) (x : ℕ) (hx : x ∈ slots u) :
    ∃ a ∈ slots u, net.ancestor? x = some a := by
  rcases List.mem_append.mp hu with hu | hu
  · exact hrow.ancestors u hu x hx
  · obtain rfl := List.mem_singleton.mp hu
    exact hd.exists_ancestor hx

end Concat

/-- The first subtree of a row. -/
theorem Row.first [Scalar α] {net : Net α} {t : Wires} {f : Forest α} {d : Drawn α} {default : ℕ}
    (hrow : Row net [] f default) (hd : DrawnAt net t d) : Row net [t] (f.add d) (top t) := by
  obtain ⟨zs, hzs, hleft, hzin⟩ := hd.left
  obtain ⟨us, hus, hright, huin⟩ := hd.right
  have hf := List.eq_nil_of_length_eq_zero hrow.siblings.length.symm
  have hsiblings := hrow.siblings_concat hd
  have hbelow := hrow.below_concat hd
  rw [hf] at hsiblings hbelow
  rw [add_nil hf]
  refine ⟨hsiblings, hbelow, fun o ho => ?_, fun y hy => ?_, hrow.ancestors_concat hd, ?_⟩
  · obtain rfl := Option.some.inj ho
    exact ⟨zs, hzs, hleft, fun z hz => ⟨t, List.mem_singleton_self t, hzin z hz⟩⟩
  · obtain rfl := Option.some.inj hy
    refine ⟨us, hus, @owned_own _ net (top t) [] t us _ (fun u hu => ?_) huin hright⟩
    obtain ⟨a, ha, hanc⟩ := hd.ancestors u (huin u hu)
    exact ⟨a, hanc, .inr ⟨ha, rfl⟩⟩
  · rw [List.length_map, hd.even]

/-! ### The end of the way down -/

/-- A row `ts`, which reaches from `o` to `y`, and the subtree `t` that is to be set beside it, with the chains of
cells along their outlines; `row` are all siblings with the moves recorded so far. -/
structure Met (net : Net α) (p default : ℕ) (ts : List Wires) (t o y : Wires) (f : Forest α) (d : Drawn α)
    (row : List (Sibling α)) (xs ys zs us : List ℕ) : Prop where
  adjoins : Adjoins net p ts t
  oldest : ts.head? = some o
  youngest : ts.getLast? = some y
  siblings : RowAt net (ts ++ [t]) row
  below : ∀ (k : ℕ) (u : Wires) (ds : List (Tree (Slot α))), (ts ++ [t])[k]? = some u →
    (row.map (·.below))[k]? = some ds → ReadsAll net u.children ds
  ancestors : ∀ u ∈ ts ++ [t], ∀ x ∈ slots u, ∃ a ∈ slots u, net.ancestor? x = some a
  rowInner : Leads net.nextRight (top y) xs
  owned : List.Forall₂ (Owned net default ts) xs f.right
  newInner : Leads net.nextLeft (top t) ys
  newInnerSlots : ys.map net.slot? = d.left.map some
  newInnerInside : ∀ x ∈ ys, x ∈ inner t
  rowOuter : Leads net.nextLeft (top o) zs
  rowOuterSlots : zs.map net.slot? = f.left.map some
  rowOuterInside : ∀ z ∈ zs, ∃ u ∈ ts, z ∈ inner u
  newOuter : Leads net.nextRight (top t) us
  newOuterSlots : us.map net.slot? = d.right.map some
  newOuterInside : ∀ u ∈ us, u ∈ inner t
  rowEven : f.left.length = f.right.length
  newEven : d.left.length = d.right.length

namespace Met

variable {net net' : Net α} {p default : ℕ} {ts : List Wires} {t o y : Wires} {f : Forest α} {d : Drawn α}
  {row : List (Sibling α)} {xs ys zs us : List ℕ} (h : Met net p default ts t o y f d row xs ys zs us)
include h

theorem head? : (ts ++ [t]).head? = some o := by rw [List.head?_append, h.oldest, Option.some_or]

theorem length_eq : xs.length = f.right.length ∧ ys.length = d.left.length ∧ zs.length = f.left.length ∧
    us.length = d.right.length := by
  have hlength : ∀ {l : List ℕ} {o : Outline α}, l.map net.slot? = o.map some → l.length = o.length := by
    intro l o hl
    have hmap := congrArg List.length hl
    rwa [List.length_map, List.length_map] at hmap
  exact ⟨h.owned.length_eq, hlength h.newInnerSlots, hlength h.rowOuterSlots, hlength h.newOuterSlots⟩

theorem mem_new {x : ℕ} (hx : x ∈ top t :: us) : x ∈ slots t := by
  rcases List.mem_cons.mp hx with rfl | hx
  · exact top_mem_slots t
  · exact mem_slots_of_mem_inner (h.newOuterInside x hx)

theorem mem_new_inner {x : ℕ} (hx : x ∈ top t :: ys) : x ∈ slots t := by
  rcases List.mem_cons.mp hx with rfl | hx
  · exact top_mem_slots t
  · exact mem_slots_of_mem_inner (h.newInnerInside x hx)

theorem mem_row {x : ℕ} (hx : x ∈ top o :: zs) : ∃ u ∈ ts, x ∈ slots u := by
  rcases List.mem_cons.mp hx with rfl | hx
  · exact ⟨o, List.mem_of_head? h.oldest, top_mem_slots o⟩
  · obtain ⟨u, hu, hxu⟩ := h.rowOuterInside x hx
    exact ⟨u, hu, mem_slots_of_mem_inner hxu⟩

theorem mem_row_inner {x : ℕ} (hx : x ∈ top y :: xs) : ∃ u ∈ ts, x ∈ slots u := by
  rcases List.mem_cons.mp hx with rfl | hx
  · exact ⟨y, List.mem_of_getLast? h.youngest, top_mem_slots y⟩
  · obtain ⟨u, hu, hxu⟩ := inside_of_owned h.owned x hx
    exact ⟨u, hu, mem_slots_of_mem_inner hxu⟩

/-- The cells of the right outline of the new subtree hang below its root. -/
theorem owned_new (hclaimed : ∀ u ∈ us.take xs.length, net.ancestor? u = some (top t)) {default' : ℕ}
    (hdefault : ∀ u ∈ us.drop xs.length, default' = top t) (hancestor : net'.ancestor? = net.ancestor?) {s : Outline α}
    (hs : us.map net'.slot? = s.map some) :
    List.Forall₂ (Owned net' default' (ts ++ [t])) us (s.map fun s => (ts.length, s)) := by
  refine owned_own (fun u hu => ?_) h.newOuterInside hs
  have htake := hu
  rw [← List.take_append_drop xs.length us, List.mem_append] at htake
  rw [hancestor]
  rcases htake with htake | hdrop
  · exact ⟨top t, hclaimed u htake, .inl rfl⟩
  · obtain ⟨a, ha, hanc⟩ := h.ancestors t List.mem_concat_self u
      (mem_slots_of_mem_inner (h.newOuterInside u hu))
    rw [slots_eq, List.mem_cons] at ha
    exact ⟨a, hanc, ha.imp_right fun ha => ⟨ha, hdefault u hdrop⟩⟩

/-- The cells of the row that hang below one of its roots go on doing so. -/
theorem owned_row (hancestor : net'.ancestor? = net.ancestor?) (n : ℕ)
    (hslot : ∀ x ∈ xs, net'.slot? x = net.slot? x) :
    List.Forall₂ (Owned net' default (ts ++ [t])) (xs.drop n) (f.right.drop n) := by
  have howned := h.owned
  clear h
  refine List.forall₂_drop n ?_
  generalize f.right = right at howned ⊢
  induction howned with
  | nil => exact .nil
  | @cons x e xs rest hx _ ih =>
    obtain ⟨b, a, hb, hin, ha, hor⟩ := hx.owner
    refine .cons ⟨(hslot x List.mem_cons_self).trans hx.slot, b, a, Adjoins.getElem?_old hb, hin, ?_, hor⟩ (ih ?_)
    · rw [hancestor, ha]
    · exact fun z hz => hslot z (List.mem_cons_of_mem x hz)

/-- **Both reach equally deep.** -/
theorem neither (hclaimed : ∀ u ∈ us.take xs.length, net.ancestor? u = some (top t))
    (heq : d.left.length = f.right.length) :
    Row net (ts ++ [t]) ⟨row, f.left, d.right.map fun s => (ts.length, s)⟩ default where
  siblings := h.siblings
  below := h.below
  left o' ho := by
    obtain rfl := Option.some.inj (h.head?.symm.trans ho)
    refine ⟨zs, h.rowOuter, h.rowOuterSlots, fun z hz => ?_⟩
    obtain ⟨u, hu, hzu⟩ := h.rowOuterInside z hz
    exact ⟨u, List.mem_append_left _ hu, hzu⟩
  right y' hy := by
    obtain rfl := Option.some.inj (List.getLast?_concat.symm.trans hy)
    refine ⟨us, h.newOuter, h.owned_new hclaimed (fun u hu => ?_) rfl h.newOuterSlots⟩
    obtain ⟨hxs, -, -, hus⟩ := h.length_eq
    have heven := h.newEven
    rw [List.drop_eq_nil_of_le (by omega)] at hu
    exact absurd hu List.not_mem_nil
  ancestors := h.ancestors
  even := by rw [List.length_map, h.rowEven, ← heq, h.newEven]

/-! ### Over a thread -/

theorem lt_length {u : Wires} (hu : u ∈ ts ++ [t]) {x : ℕ} (hx : x ∈ slots u) : x < net.length := by
  obtain ⟨a, -, hanc⟩ := h.ancestors u hu x hx
  obtain ⟨c, hc, -⟩ := Option.map_eq_some_iff.mp hanc
  exact (List.getElem?_eq_some_iff.mp hc).1

section Threaded

variable [Scalar α] {v next : ℕ} {gap : α}

theorem below_threaded (hend : net.nextLeft v = none) (k : ℕ) (u : Wires) (ds : List (Tree (Slot α)))
    (hu : (ts ++ [t])[k]? = some u) (hds : (row.map (·.below))[k]? = some ds) :
    ReadsAll (net.modify v (Cell.threaded next gap)) u.children ds :=
  (h.below k u ds hu hds).congr (h.adjoins.wired k u hu) fun x _ => .threaded hend x

theorem ancestors_threaded (u : Wires) (hu : u ∈ ts ++ [t]) (x : ℕ) (hx : x ∈ slots u) :
    ∃ a ∈ slots u, Net.ancestor? (net.modify v (Cell.threaded next gap)) x = some a := by
  obtain ⟨a, ha, hanc⟩ := h.ancestors u hu x hx
  exact ⟨a, ha, by rw [Net.ancestor?_threaded, hanc]⟩

/-- A thread changes the slot of at most one root. -/
theorem siblings_threaded {i : ℕ} {w : Wires} (hw : (ts ++ [t])[i]? = some w)
    (hv : v = top w ∨ ∃ u ∈ ts ++ [t], v ∈ inner u) {s : Slot α}
    (hs : Net.slot? (net.modify v (Cell.threaded next gap)) (top w) = some s) :
    RowAt (net.modify v (Cell.threaded next gap)) (ts ++ [t]) (Forest.setSlot i s row) := by
  refine h.siblings.setSlot hw hs ?_ fun k u hu hne => Net.data?_modify ?_
  · have hrest := congrArg (Option.map (·.2)) (Net.rest_threaded net v next gap (top w))
    rwa [Option.map_map, Option.map_map] at hrest
  · rintro rfl
    rcases hv with heq | ⟨b, hb, hin⟩
    · exact hne (index_eq_of_mem_slots h.adjoins.nodup hu hw (top_mem_slots u) (heq ▸ top_mem_slots w))
    · exact ne_top_of_mem_inner h.adjoins.nodup hb (List.mem_of_getElem? hu) hin rfl

omit [Scalar α] in
theorem last_new_ne {u : Wires} (hu : u ∈ ts) {x : ℕ} (hx : x ∈ slots u) : us.getLastD (top t) ≠ x := fun heq =>
  h.adjoins.not_mem_new hu hx (heq ▸ h.mem_new List.getLastD_mem_cons)

omit [Scalar α] in
theorem last_row_ne {x : ℕ} (hx : x ∈ slots t) : zs.getLastD (top o) ≠ x := fun heq => by
  obtain ⟨u, hu, hin⟩ := h.mem_row (List.getLastD_mem_cons (l := zs) (a := top o))
  exact h.adjoins.not_mem_new hu hin (heq ▸ hx)

theorem newOuter_threaded {n : ℕ} {rest : List ℕ} (hrest : xs.drop n = next :: rest) :
    Leads (Net.nextRight (net.modify (us.getLastD (top t)) (Cell.threaded next gap))) (top t) (us ++ next :: rest) := by
  have htmem : t ∈ ts ++ [t] := List.mem_concat_self
  refine h.newOuter.threaded (h.rowInner.drop hrest) (fun hmem => ?_) (fun z hz => ?_) ?_
  · rw [← hrest] at hmem
    obtain ⟨u, hu, hxu⟩ := h.mem_row_inner (List.mem_cons_of_mem _ (List.mem_of_mem_drop hmem))
    exact h.last_new_ne hu hxu rfl
  · exact Net.nextRight_of_cell (List.getElem?_modify_ne _ _ hz.symm)
  · exact Net.nextRight_threaded (h.lt_length htmem (h.mem_new List.getLastD_mem_cons)) h.newOuter.end_eq

theorem rowOuter_kept :
    Leads (Net.nextLeft (net.modify (us.getLastD (top t)) (Cell.threaded next gap))) (top o) zs :=
  h.rowOuter.congr fun z hz => by
    obtain ⟨u, hu, hzu⟩ := h.mem_row hz
    exact Net.nextLeft_of_cell (List.getElem?_modify_ne _ _ (h.last_new_ne hu hzu))

theorem rowOuter_threaded {n : ℕ} {rest : List ℕ} (hrest : ys.drop n = next :: rest) :
    Leads (Net.nextLeft (net.modify (zs.getLastD (top o)) (Cell.threaded next gap))) (top o) (zs ++ next :: rest) := by
  obtain ⟨u, hu, hin⟩ := h.mem_row (List.getLastD_mem_cons (l := zs) (a := top o))
  refine h.rowOuter.threaded (h.newInner.drop hrest) (fun hmem => ?_) (fun z hz => ?_) ?_
  · rw [← hrest] at hmem
    exact h.last_row_ne (h.mem_new_inner (List.mem_cons_of_mem _ (List.mem_of_mem_drop hmem))) rfl
  · exact Net.nextLeft_of_cell (List.getElem?_modify_ne _ _ hz.symm)
  · exact Net.nextLeft_threaded (h.lt_length (List.mem_append_left _ hu) hin) h.rowOuter.end_eq

theorem newOuter_kept :
    Leads (Net.nextRight (net.modify (zs.getLastD (top o)) (Cell.threaded next gap))) (top t) us :=
  h.newOuter.congr fun _ hx => Net.nextRight_of_cell (List.getElem?_modify_ne _ _ (h.last_row_ne (h.mem_new hx)))

/-- **The row reaches deeper.** -/
theorem row_deeper (hclaimed : ∀ u ∈ us.take xs.length, net.ancestor? u = some (top t)) {rest : List ℕ}
    (hrest : xs.drop d.left.length = next :: rest) (hlt : d.left.length < f.right.length)
    {s : Slot α} (hs : net.slot? (top t) = some s) :
    Row (net.modify (us.getLastD (top t)) (Cell.threaded next gap)) (ts ++ [t])
      { siblings := Forest.setSlot ts.length (widenEnd gap s d.right).1 row
        left := f.left
        right := (widenEnd gap s d.right).2.map (fun s => (ts.length, s)) ++ f.right.drop d.left.length } default := by
  have hend : net.nextRight (us.getLastD (top t)) = none := h.newOuter.end_eq
  obtain ⟨hroot, hslots⟩ := Net.slots_threaded next gap h.newOuter.nodup hs h.newOuterSlots
  have hplace : us.getLastD (top t) = top t ∨ ∃ u ∈ ts ++ [t], us.getLastD (top t) ∈ inner u := by
    rcases List.mem_cons.mp (List.getLastD_mem_cons (l := us) (a := top t)) with heq | hmem
    · exact .inl heq
    · exact .inr ⟨t, List.mem_concat_self, h.newOuterInside _ hmem⟩
  exact {
    siblings := h.siblings_threaded Adjoins.getElem?_new hplace hroot
    below := fun k u ds hu hds => by
      rw [below_setSlot] at hds
      exact h.below_threaded (Net.nextLeft_eq_none_iff.mpr hend) k u ds hu hds
    left := fun o' ho => by
      obtain rfl := Option.some.inj (h.head?.symm.trans ho)
      refine ⟨zs, h.rowOuter_kept, ?_, fun z hz => ?_⟩
      · rw [← h.rowOuterSlots]
        refine List.map_congr_left fun z hz => ?_
        obtain ⟨u, hu, hzu⟩ := h.mem_row (List.mem_cons_of_mem _ hz)
        exact Net.slot?_modify (h.last_new_ne hu hzu).symm
      · obtain ⟨u, hu, hzu⟩ := h.rowOuterInside z hz
        exact ⟨u, List.mem_append_left _ hu, hzu⟩
    right := fun y' hy => by
      obtain rfl := Option.some.inj (List.getLast?_concat.symm.trans hy)
      have hrow := h.owned_row (Net.ancestor?_threaded (v := us.getLastD (top t)) next gap) d.left.length
        fun x hx => by
          obtain ⟨u, hu, hxu⟩ := h.mem_row_inner (List.mem_cons_of_mem _ hx)
          exact Net.slot?_modify (h.last_new_ne hu hxu).symm
      rw [hrest] at hrow
      refine ⟨us ++ next :: rest, h.newOuter_threaded hrest, List.rel_append ?_ hrow⟩
      -- all of the new subtree's own outline has been claimed on the way down
      refine h.owned_new hclaimed (fun u hu => ?_) (Net.ancestor?_threaded next gap) hslots
      obtain ⟨hlength, -, -, hlength'⟩ := h.length_eq
      have heven := h.newEven
      rw [List.drop_eq_nil_of_le (by omega)] at hu
      exact absurd hu List.not_mem_nil
    ancestors := h.ancestors_threaded
    even := by
      have heven := h.rowEven
      have heven' := h.newEven
      simp only [List.length_append, List.length_map, length_widenEnd, List.length_drop]
      omega }

/-- **The new subtree reaches deeper.** -/
theorem new_deeper (hclaimed : ∀ u ∈ us.take xs.length, net.ancestor? u = some (top t)) {rest : List ℕ}
    (hrest : ys.drop f.right.length = next :: rest) (hlt : f.right.length < d.left.length) {s : Slot α}
    (hs : net.slot? (top o) = some s) :
    Row (net.modify (zs.getLastD (top o)) (Cell.threaded next gap)) (ts ++ [t])
      { siblings := Forest.setSlot 0 (widenEnd gap s f.left).1 row
        left := (widenEnd gap s f.left).2 ++ d.left.drop f.right.length
        right := d.right.map fun s => (ts.length, s) } (top t) := by
  have hend : net.nextLeft (zs.getLastD (top o)) = none := h.rowOuter.end_eq
  obtain ⟨hroot, hslots⟩ := Net.slots_threaded next gap h.rowOuter.nodup hs h.rowOuterSlots
  have ho : (ts ++ [t])[0]? = some o := by rw [← List.head?_eq_getElem?, h.head?]
  have hplace : zs.getLastD (top o) = top o ∨ ∃ u ∈ ts ++ [t], zs.getLastD (top o) ∈ inner u := by
    rcases List.mem_cons.mp (List.getLastD_mem_cons (l := zs) (a := top o)) with heq | hmem
    · exact .inl heq
    · obtain ⟨u, hu, hin⟩ := h.rowOuterInside _ hmem
      exact .inr ⟨u, List.mem_append_left _ hu, hin⟩
  exact {
    siblings := h.siblings_threaded ho hplace hroot
    below := fun k u ds hu hds => by
      rw [below_setSlot] at hds
      exact h.below_threaded hend k u ds hu hds
    left := fun o' ho => by
      obtain rfl := Option.some.inj (h.head?.symm.trans ho)
      refine ⟨zs ++ next :: rest, h.rowOuter_threaded hrest, ?_, ?_⟩
      · have hkeep : (ys.drop f.right.length).map net.slot? = (d.left.drop f.right.length).map some := by
          rw [List.map_drop, h.newInnerSlots, List.map_drop]
        rw [← hrest, List.map_append, List.map_append, hslots, ← hkeep]
        congr 1
        refine List.map_congr_left fun x hx => ?_
        exact Net.slot?_modify (h.last_row_ne (h.mem_new_inner (List.mem_cons_of_mem _ (List.mem_of_mem_drop hx)))).symm
      · intro z hz
        rw [← hrest] at hz
        rcases List.mem_append.mp hz with hz | hz
        · obtain ⟨u, hu, hin⟩ := h.rowOuterInside z hz
          exact ⟨u, List.mem_append_left _ hu, hin⟩
        · exact ⟨t, List.mem_concat_self, h.newInnerInside z (List.mem_of_mem_drop hz)⟩
    right := fun y' hy => by
      obtain rfl := Option.some.inj (List.getLast?_concat.symm.trans hy)
      refine ⟨us, h.newOuter_kept, h.owned_new hclaimed (fun _ _ => rfl) (Net.ancestor?_threaded next gap) ?_⟩
      rw [← h.newOuterSlots]
      exact List.map_congr_left fun x hx =>
        Net.slot?_modify (h.last_row_ne (h.mem_new (List.mem_cons_of_mem _ hx))).symm
    ancestors := h.ancestors_threaded
    even := by
      have heven := h.rowEven
      have heven' := h.newEven
      simp only [List.length_append, List.length_map, length_widenEnd, List.length_drop]
      omega }

end Threaded

end Met

end FlowTree.Tidy
