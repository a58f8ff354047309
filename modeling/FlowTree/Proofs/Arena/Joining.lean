import FlowTree.Proofs.Arena.Threads

/-!
# Setting a subtree beside a row in an array

* **`Met.descend_eq`** says that nothing goes wrong on the way down the outlines of a row and of the subtree beside it,
  **`Met.goOn_eq`** that the outlines then go on as in `Forest.add`.
* **`Net.join_eq`** says that setting one more subtree beside a row goes through, and that it is `Forest.add`.
-/

namespace FlowTree.Tidy

variable {α : Type}

/-! ### Joining -/

namespace Met

variable {net net' : Net α} {p default : ℕ} {ts : List Wires} {t : Wires} {f : Forest α} {d : Drawn α}

/-- Before the first step of the way down. -/
theorem start [Scalar α] (hb : Adjoins net p ts t) (hrow : Row net ts f default) (hd : DrawnAt net t d)
    (hne : ts ≠ []) :
    ∃ o y xs ys zs us, Met net p default ts t o y f d (f.siblings ++ [d.sibling]) xs ys zs us := by
  have ho := List.head?_eq_some_head hne
  have hy := List.getLast?_eq_some_getLast hne
  obtain ⟨zs, hzs, hleft, hzin⟩ := hrow.left _ ho
  obtain ⟨xs, hxs, howned⟩ := hrow.right _ hy
  obtain ⟨ys, hys, hnewLeft, hyin⟩ := hd.left
  obtain ⟨us, hus, hnewRight, huin⟩ := hd.right
  exact ⟨_, _, xs, ys, zs, us, hb, ho, hy, hrow.siblings_concat hd, hrow.below_concat hd, hrow.ancestors_concat hd, hxs,
    howned, hys, hnewLeft, hyin, hzs, hleft, hzin, hus, hnewRight, huin, hrow.even, hd.even⟩

variable {o y : Wires} {row row' : List (Sibling α)} {xs ys zs us : List ℕ}
  (h : Met net p default ts t o y f d row xs ys zs us)
include h

theorem ahead : Net.Ahead net default ts t ⟨top y, top t, top o, top t⟩ xs ys zs us f.right d.left f.left d.right where
  rowInner := h.rowInner
  newInner := h.newInner
  rowOuter := h.rowOuter
  newOuter := h.newOuter
  owned := h.owned
  newInnerSlots := h.newInnerSlots
  rowOuterSlots := h.rowOuterSlots
  newOuterSlots := h.newOuterSlots
  newInnerInside := h.newInnerInside
  rowOuterInside := h.rowOuterInside
  newOuterInside := h.newOuterInside
  rowEven := by
    obtain ⟨hxs, -, hzs, -⟩ := h.length_eq
    rw [hxs, hzs, h.rowEven]
  newEven := by
    obtain ⟨-, hys, -, hus⟩ := h.length_eq
    rw [hys, hus, h.newEven]
  there := by
    have hold : ∀ u ∈ ts, top u < net.length := fun u hu => h.lt_length (List.mem_append_left _ hu) (top_mem_slots u)
    have hnew : top t < net.length :=
      h.lt_length List.mem_concat_self (top_mem_slots t)
    exact ⟨hold y (List.mem_of_getLast? h.youngest), hnew, hold o (List.mem_of_head? h.oldest), hnew⟩

/-- The way down leaves everything but the moves and some ancestors as it is. -/
theorem pushed (hp : Pushed net net' ts t) (hrow : RowAt net' (ts ++ [t]) row')
    (hkept : row'.map (·.below) = row.map (·.below))
    (hanc : ∀ x, net'.ancestor? x = if x ∈ us.take xs.length then some (top t) else net.ancestor? x) :
    Met net' p default ts t o y f d row' xs ys zs us := by
  have hslot : ∀ {u : Wires}, u ∈ ts ++ [t] → ∀ x ∈ inner u, net'.slot? x = net.slot? x := by
    intro u hu x hx
    obtain ⟨k, hk⟩ := List.getElem?_of_mem hu
    exact hp.slot? h.adjoins hk hx
  have hnew : t ∈ ts ++ [t] := List.mem_concat_self
  have hleft := Net.nextLeft_congr hp.links
  have hright := Net.nextRight_congr hp.links
  exact {
    adjoins := h.adjoins.congr hp.links
    oldest := h.oldest
    youngest := h.youngest
    siblings := hrow
    below := fun k u ds hu hds => by
      rw [hkept] at hds
      exact (h.below k u ds hu hds).congr (h.adjoins.wired k u hu) fun x hx =>
        .inl (hslot (List.mem_of_getElem? hu) x hx)
    ancestors := fun u hu x hx => by
      rw [hanc]
      split
      · -- a claimed cell belongs to the new subtree
        rename_i htake
        have hin := mem_slots_of_mem_inner (h.newOuterInside x (List.mem_of_mem_take htake))
        rcases List.mem_append.mp hu with hu | hu
        · exact absurd hin (h.adjoins.not_mem_new hu hx)
        · obtain rfl := List.mem_singleton.mp hu
          exact ⟨top u, top_mem_slots u, rfl⟩
      · exact h.ancestors u hu x hx
    rowInner := hright ▸ h.rowInner
    owned := by
      refine h.owned.imp fun x e howned => howned.of_pushed h.adjoins hp fun z hz => ?_
      rw [hanc, if_neg fun htake => hz (h.newOuterInside z (List.mem_of_mem_take htake))]
    newInner := hleft ▸ h.newInner
    newInnerSlots := by
      rw [← h.newInnerSlots]
      exact List.map_congr_left fun x hx => hslot hnew x (h.newInnerInside x hx)
    newInnerInside := h.newInnerInside
    rowOuter := hleft ▸ h.rowOuter
    rowOuterSlots := by
      rw [← h.rowOuterSlots]
      refine List.map_congr_left fun z hz => ?_
      obtain ⟨u, hu, hin⟩ := h.rowOuterInside z hz
      exact hslot (List.mem_append_left _ hu) z hin
    rowOuterInside := h.rowOuterInside
    newOuter := hright ▸ h.newOuter
    newOuterSlots := by
      rw [← h.newOuterSlots]
      exact List.map_congr_left fun x hx => hslot hnew x (h.newOuterInside x hx)
    newOuterInside := h.newOuterInside
    rowEven := h.rowEven
    newEven := h.newEven }

end Met

namespace Net

variable [Scalar α] {net : Net α}

section GoOn

variable (v default : ℕ) {next : ℕ} {stop : End α} (hnewOuter : stop.feet.newOuter < net.length)
  (hrowOuter : stop.feet.rowOuter < net.length)
include hnewOuter hrowOuter

theorem goOn_neither (hrow : stop.rowNext = none) (hnew : stop.newNext = none) :
    net.goOn v default stop = .ok (net, default) := by
  rw [goOn, stepRight_eq hnewOuter, hrow, hnew]
  simp only [Checked.ok_bind, Checked.pure_eq, stepLeft_eq hrowOuter]

theorem goOn_row (hrow : stop.rowNext = some next) (hend : net.nextRight stop.feet.newOuter = none)
    (hnew : stop.newNext = none) :
    net.goOn v default stop = .ok (net.modify stop.feet.newOuter
      (Cell.threaded next (stop.sums.rowInner - stop.sums.newOuter)), default) := by
  have hlength : stop.feet.rowOuter < (net.modify stop.feet.newOuter
      (Cell.threaded next (stop.sums.rowInner - stop.sums.newOuter))).length := by rwa [List.length_modify]
  rw [goOn, stepRight_eq hnewOuter, hrow, hnew]
  simp only [Checked.ok_bind, Checked.pure_eq, hend, thread, Checked.modify_eq hnewOuter, stepLeft_eq hlength]

theorem goOn_new (hrow : stop.rowNext = none) (hnew : stop.newNext = some next)
    (hend : net.nextLeft stop.feet.rowOuter = none) :
    net.goOn v default stop = .ok (net.modify stop.feet.rowOuter
      (Cell.threaded next (stop.sums.newInner - stop.sums.rowOuter)), v) := by
  rw [goOn, stepRight_eq hnewOuter, hrow, hnew]
  simp only [Checked.ok_bind, Checked.pure_eq, stepLeft_eq hrowOuter, hend, thread, Checked.modify_eq hrowOuter]

end GoOn

end Net

theorem Pushed.within {net net' : Net α} {ts : List Wires} {t : Wires} (h : Pushed net net' ts t) :
    Within net net' ((ts ++ [t]).flatMap slots) := ⟨Net.joints_congr h.links, h.outside⟩

theorem Within.threaded [Scalar α] {net : Net α} {xs : List ℕ} {v next : ℕ} {gap : α} (hv : v ∈ xs) :
    Within net (net.modify v (Cell.threaded next gap)) xs :=
  .modify (g := Cell.threaded next gap) (fun _ => rfl) hv

namespace Met

variable [Scalar α] {net : Net α} {p default : ℕ} {ts : List Wires} {t o y : Wires} {f : Forest α} {d : Drawn α}
  {xs ys zs us : List ℕ}

/-- **Nothing goes wrong on the way down** from the roots. -/
theorem descend_eq (h : Met net p default ts t o y f d (f.siblings ++ [d.sibling]) xs ys zs us) (sums : Sums α) :
    ∃ net' feet, net.descend (top t) default net.length ⟨top y, top t, top o, top t⟩ sums = .ok (net',
        ⟨feet, (contact f.right d.left f.left d.right sums).sums, (xs.drop ys.length).head?,
          (ys.drop xs.length).head?⟩) ∧
      Met net' p default ts t o y f d
        (recorded (contact f.right d.left f.left d.right sums).pushes ts.length (f.siblings ++ [d.sibling]))
        xs ys zs us ∧
      Within net net' ((ts ++ [t]).flatMap slots) ∧ (∀ u ∈ us.take xs.length, net'.ancestor? u = some (top t)) ∧
      feet.newOuter = (us.take xs.length).getLastD (top t) ∧ feet.rowOuter = (zs.take ys.length).getLastD (top o) := by
  have hrounds : min xs.length ys.length < net.length := by
    refine Nat.lt_of_le_of_lt (Nat.min_le_left _ _) (h.rowInner.length_lt fun x hx => ?_)
    obtain ⟨u, hu, hxu⟩ := h.mem_row_inner hx
    exact h.lt_length (List.mem_append_left _ hu) hxu
  obtain ⟨net', feet, hdescend, hp, hrow, hanc, hnewOuter, hrowOuter⟩ := Net.descend_eq h.adjoins h.ahead
    (.refl net ts t) (fun _ _ => rfl) h.siblings hrounds sums
  refine ⟨net', feet, hdescend, h.pushed hp hrow (below_pushes _ _ _) hanc, hp.within, fun u hu => ?_, hnewOuter,
    hrowOuter⟩
  rw [hanc, if_pos hu]

/-- **Where the shorter outlines end** a thread leads on, from the new subtree or from the row. -/
theorem goOn_cases {row : List (Sibling α)} (h : Met net p default ts t o y f d row xs ys zs us) (stop : Net.End α)
    (hnewOuter : stop.feet.newOuter = (us.take xs.length).getLastD (top t))
    (hrowOuter : stop.feet.rowOuter = (zs.take ys.length).getLastD (top o))
    (hrow : stop.rowNext = (xs.drop ys.length).head?) (hnew : stop.newNext = (ys.drop xs.length).head?) :
    (∃ next rest, d.left.length < f.right.length ∧ xs.drop d.left.length = next :: rest ∧
      net.goOn (top t) default stop = .ok (net.modify (us.getLastD (top t))
        (Cell.threaded next (stop.sums.rowInner - stop.sums.newOuter)), default)) ∨
    (d.left.length = f.right.length ∧ net.goOn (top t) default stop = .ok (net, default)) ∨
    ∃ next rest, f.right.length < d.left.length ∧ ys.drop f.right.length = next :: rest ∧
      net.goOn (top t) default stop = .ok (net.modify (zs.getLastD (top o))
        (Cell.threaded next (stop.sums.newInner - stop.sums.rowOuter)), top t) := by
  obtain ⟨hxs, hys, hzs, hus⟩ := h.length_eq
  have heven := h.rowEven
  have heven' := h.newEven
  have hnewLt : stop.feet.newOuter < net.length := by
    refine h.lt_length List.mem_concat_self ?_
    rw [hnewOuter]
    exact h.mem_new (List.cons_subset_cons _ (List.take_subset _ us) List.getLastD_mem_cons)
  have hrowLt : stop.feet.rowOuter < net.length := by
    obtain ⟨u, hu, hin⟩ := h.mem_row (List.cons_subset_cons _ (List.take_subset ys.length zs)
      (List.getLastD_mem_cons (a := top o)))
    rw [hrowOuter]
    exact h.lt_length (List.mem_append_left _ hu) hin
  rcases Nat.lt_trichotomy d.left.length f.right.length with hlt | heq | hgt
  · -- the row reaches deeper
    obtain ⟨next, rest, hrest⟩ := List.exists_cons_of_length_pos (l := xs.drop d.left.length)
      (by rw [List.length_drop]; omega)
    rw [hys, hrest, List.head?_cons] at hrow
    rw [List.drop_eq_nil_of_le (by omega), List.head?_nil] at hnew
    rw [List.take_of_length_le (by omega)] at hnewOuter
    have hgo := Net.goOn_row (top t) default hnewLt hrowLt hrow (hnewOuter ▸ h.newOuter.end_eq) hnew
    exact .inl ⟨next, rest, hlt, hrest, hnewOuter ▸ hgo⟩
  · -- both reach equally deep
    rw [List.drop_eq_nil_of_le (by omega), List.head?_nil] at hrow hnew
    exact .inr (.inl ⟨heq, Net.goOn_neither (top t) default hnewLt hrowLt hrow hnew⟩)
  · -- the new subtree reaches deeper
    obtain ⟨next, rest, hrest⟩ := List.exists_cons_of_length_pos (l := ys.drop f.right.length)
      (by rw [List.length_drop]; omega)
    rw [hxs, hrest, List.head?_cons] at hnew
    rw [List.drop_eq_nil_of_le (by omega), List.head?_nil] at hrow
    rw [List.take_of_length_le (by omega)] at hrowOuter
    have hgo := Net.goOn_new (top t) default hnewLt hrowLt hrow hnew (hrowOuter ▸ h.rowOuter.end_eq)
    exact .inr (.inr ⟨next, rest, hgt, hrest, hrowOuter ▸ hgo⟩)

/-- **The outlines go on** as in `Forest.add`. -/
theorem goOn_eq {oldest youngest : Sibling α} (hoS : f.siblings.head? = some oldest)
    (hyS : f.siblings.getLast? = some youngest) (hlength : f.siblings.length = ts.length)
    (h : Met net p default ts t o y f d (pushedRow f d oldest youngest) xs ys zs us)
    (hclaimed : ∀ u ∈ us.take xs.length, net.ancestor? u = some (top t)) (stop : Net.End α)
    (hnewOuter : stop.feet.newOuter = (us.take xs.length).getLastD (top t))
    (hrowOuter : stop.feet.rowOuter = (zs.take ys.length).getLastD (top o))
    (hsums : stop.sums = (meetingOf f d oldest youngest).sums)
    (hrow : stop.rowNext = (xs.drop ys.length).head?) (hnew : stop.newNext = (ys.drop xs.length).head?) :
    ∃ net' default', net.goOn (top t) default stop = .ok (net', default') ∧ Row net' (ts ++ [t]) (f.add d) default' ∧
      Within net net' ((ts ++ [t]).flatMap slots) := by
  have heven := h.rowEven
  have heven' := h.newEven
  have htmem : t ∈ ts ++ [t] := List.mem_concat_self
  rcases h.goOn_cases stop hnewOuter hrowOuter hrow hnew with
    ⟨next, rest, hlt, hrest, hgo⟩ | ⟨heq, hgo⟩ | ⟨next, rest, hgt, hrest, hgo⟩
  · refine ⟨_, default, hgo, ?_, .threaded (List.mem_flatMap.mpr ⟨t, htmem, h.mem_new List.getLastD_mem_cons⟩)⟩
    have hslot := h.siblings.slotIn Adjoins.getElem?_new d.slot
    rw [add_row hoS hyS heven heven' hlt, hsums, hlength]
    exact h.row_deeper hclaimed hrest hlt hslot
  · refine ⟨net, default, hgo, ?_, .refl net _⟩
    rw [add_neither hoS hyS heven heven' heq, hlength]
    exact h.neither hclaimed heq
  · obtain ⟨u, hu, hrowIn⟩ := h.mem_row (List.getLastD_mem_cons (l := zs) (a := top o))
    refine ⟨_, top t, hgo, ?_, .threaded (List.mem_flatMap.mpr ⟨u, List.mem_append_left _ hu, hrowIn⟩)⟩
    have hfirst : (ts ++ [t])[0]? = some o := by rw [← List.head?_eq_getElem?, h.head?]
    have hslot := h.siblings.slotIn hfirst oldest.toSlot
    rw [add_new hoS hyS heven heven' hgt, hsums, hlength]
    exact h.new_deeper hclaimed hrest hgt hslot

/-- **The outlines that face away go on** in the deeper one beside them. -/
theorem leads_goOn {row : List (Sibling α)} (h : Met net p default ts t o y f d row xs ys zs us) {stop : Net.End α}
    (hnewOuter : stop.feet.newOuter = (us.take xs.length).getLastD (top t))
    (hrowOuter : stop.feet.rowOuter = (zs.take ys.length).getLastD (top o))
    (hrow : stop.rowNext = (xs.drop ys.length).head?) (hnew : stop.newNext = (ys.drop xs.length).head?) {net' : Net α}
    {default' : ℕ} (hok : net.goOn (top t) default stop = .ok (net', default')) :
    Leads net'.nextLeft (top o) (zs ++ ys.drop zs.length) ∧
      Leads net'.nextRight (top t) (us ++ xs.drop us.length) := by
  obtain ⟨hxs, hys, hzs, hus⟩ := h.length_eq
  have heven := h.rowEven
  have heven' := h.newEven
  rw [show us.length = d.left.length by omega, show zs.length = f.right.length by omega]
  rcases h.goOn_cases stop hnewOuter hrowOuter hrow hnew with
    ⟨next, rest, hlt, hrest, hgo⟩ | ⟨heq, hgo⟩ | ⟨next, rest, hgt, hrest, hgo⟩
  · obtain ⟨rfl, -⟩ := Prod.mk.inj (Except.ok.inj (hgo.symm.trans hok))
    rw [List.drop_eq_nil_of_le (by omega), List.append_nil, hrest]
    exact ⟨h.rowOuter_kept, h.newOuter_threaded hrest⟩
  · obtain ⟨rfl, -⟩ := Prod.mk.inj (Except.ok.inj (hgo.symm.trans hok))
    rw [List.drop_eq_nil_of_le (by omega), List.drop_eq_nil_of_le (by omega), List.append_nil, List.append_nil]
    exact ⟨h.rowOuter, h.newOuter⟩
  · obtain ⟨rfl, -⟩ := Prod.mk.inj (Except.ok.inj (hgo.symm.trans hok))
    rw [List.drop_eq_nil_of_le (show xs.length ≤ d.left.length by omega), List.append_nil, hrest]
    exact ⟨h.rowOuter_threaded hrest, h.newOuter_kept⟩

end Met

/-- **A subtree is set beside a row** as in `Forest.add`. -/
theorem Net.apportion_eq [Scalar α] {net : Net α} {p default : ℕ} {ts : List Wires} {t : Wires} {f : Forest α}
    {d : Drawn α} (hb : Adjoins net p ts t) (hrow : Row net ts f default) (hd : DrawnAt net t d) {c : Cell α}
    (hc : net[p]? = some c) (hchildren : c.children.head? = ((ts ++ [t]).head?).map top)
    (hdefault : ts = [] → default = top t) :
    ∃ net' default', net.apportion (top t) (ts.getLast?.map top) default = .ok (net', default') ∧
      Row net' (ts ++ [t]) (f.add d) default' ∧ Within net net' ((ts ++ [t]).flatMap slots) := by
  by_cases hne : ts = []
  · subst hne
    rw [hdefault rfl]
    exact ⟨net, top t, rfl, hrow.first hd, .refl net _⟩
  · obtain ⟨o, y, xs, ys, zs, us, h⟩ := Met.start hb hrow hd hne
    have hlength := hrow.siblings.length
    have hfirst : ts[0]? = some o := by rw [← List.head?_eq_getElem?, h.oldest]
    have hlast : ts[ts.length - 1]? = some y := by rw [← List.getLast?_eq_getElem?, h.youngest]
    obtain ⟨oldest, hoS, hodata⟩ := hrow.siblings.exists_sibling hfirst
    obtain ⟨youngest, hyS, hydata⟩ := hrow.siblings.exists_sibling hlast
    rw [← List.head?_eq_getElem?] at hoS
    rw [hlength, ← List.getLast?_eq_getElem?] at hyS
    obtain ⟨co, hco, hcodata⟩ := Option.map_eq_some_iff.mp hodata
    obtain ⟨cy, hcy, hcydata⟩ := Option.map_eq_some_iff.mp hydata
    obtain ⟨ct, hct, hctdata⟩ := Option.map_eq_some_iff.mp hd.root
    have hmodifiers : co.modifier = oldest.modifier ∧ cy.modifier = youngest.modifier ∧
        ct.modifier = d.slot.modifier :=
      ⟨(Cell.data_eq_iff.mp hcodata).2.1, (Cell.data_eq_iff.mp hcydata).2.1, congrArg (·.1.modifier) hctdata⟩
    obtain ⟨net₁, feet, hdescend, h₁, hwithin, hclaimed, hnewOuter, hrowOuter⟩ := h.descend_eq
      ⟨youngest.modifier, d.slot.modifier, oldest.modifier, d.slot.modifier⟩
    have hpushed : recorded (meetingOf f d oldest youngest).pushes ts.length (f.siblings ++ [d.sibling]) =
        pushedRow f d oldest youngest := by rw [pushedRow, hlength]
    rw [← meetingOf.eq_1, hpushed] at h₁
    obtain ⟨net', default', hgo, hrow', hwithin'⟩ := Met.goOn_eq hoS hyS hlength.symm h₁ hclaimed
      ⟨feet, (meetingOf f d oldest youngest).sums, (xs.drop ys.length).head?, (ys.drop xs.length).head?⟩ hnewOuter
      hrowOuter rfl rfl rfl
    refine ⟨net', default', ?_, hrow', hwithin.trans hwithin'⟩
    have hoC : Checked.get c.children 0 = .ok (top o) := by
      refine Checked.get_eq ?_
      rw [← List.head?_eq_getElem?, hchildren, h.head?, Option.map_some]
    rw [h.youngest, Option.map_some]
    simp only [apportion, hb.parentOf_top Adjoins.getElem?_new, Checked.get_eq hc, hoC, Checked.get_eq hco,
      Checked.get_eq hcy, Checked.get_eq hct, hmodifiers.1, hmodifiers.2.1, hmodifiers.2.2, hdescend, Checked.ok_bind]
    exact hgo

/-- The child to be assumed is the given one, the oldest one at first. -/
theorem Row.assumed {net : Net α} {default : ℕ} {ts : List Wires} {t o : Wires} {f : Forest α}
    (h : Row net ts f default) (ho : (ts ++ [t]).head? = some o) {c : Cell α}
    (hdefault : c.defaultAncestor = ts.head?.map fun _ => default) :
    Row net ts f (c.defaultAncestor.getD (top o)) ∧ (ts = [] → c.defaultAncestor.getD (top o) = top t) := by
  rw [hdefault]
  cases ts with
  | nil =>
    obtain rfl := Option.some.inj ho
    refine ⟨?_, fun _ => rfl⟩
    exact ⟨h.siblings, h.below, fun o ho => absurd ho (by simp), fun y hy => absurd hy (by simp), h.ancestors, h.even⟩
  | cons u ts => exact ⟨h, fun h => absurd h (by simp)⟩

/-- **The subtree of a node joins those of its older siblings.** -/
theorem Net.join_eq [Scalar α] {net : Net α} {p default : ℕ} {ts : List Wires} {t : Wires} {f : Forest α} {d : Drawn α}
    (hb : Adjoins net p ts t) (hrow : Row net ts f default) (hd : DrawnAt net t d) {c : Cell α} (hc : net[p]? = some c)
    (hchildren : c.children.head? = ((ts ++ [t]).head?).map top)
    (hdefault : c.defaultAncestor = ts.head?.map fun _ => default) :
    ∃ net' default', net.join (top t) (ts.getLast?.map top) = .ok net' ∧ Row net' (ts ++ [t]) (f.add d) default' ∧
      net'.map (·.toJoint) = net.map (·.toJoint) ∧ net'[p]? = some (c.assuming default') ∧
        ∀ x, x ≠ p → x ∉ (ts ++ [t]).flatMap slots → net'[x]? = net[x]? := by
  obtain ⟨o, ho⟩ : ∃ o, (ts ++ [t]).head? = some o := by
    cases ts with
    | nil => exact ⟨t, rfl⟩
    | cons o ts => exact ⟨o, rfl⟩
  have hoC : Checked.get c.children 0 = .ok (top o) := by
    refine Checked.get_eq ?_
    rw [← List.head?_eq_getElem?, hchildren, ho, Option.map_some]
  obtain ⟨hrow₁, hfirst⟩ := hrow.assumed ho hdefault
  obtain ⟨net₁, default', happortion, hrow', hwithin⟩ := apportion_eq hb hrow₁ hd hc hchildren hfirst
  have hp : net₁[p]? = some c := (hwithin.outside p hb.above).trans hc
  have hlt := (List.getElem?_eq_some_iff.mp hp).1
  have hkeeps : ∀ c : Cell α, (c.assuming default').toJoint = c.toJoint := fun _ => rfl
  refine ⟨net₁.modify p (Cell.assuming default'), default', ?_, ?_, ?_, ?_, fun x hx hout => ?_⟩
  · simp only [join, hb.parentOf_top Adjoins.getElem?_new, Checked.get_eq hc, hoC, happortion,
      Checked.ok_bind, Checked.modify_eq hlt]
  · refine hrow'.congr (fun k u hu => (hb.wired k u hu).congr hwithin.joints) fun u hu x hx => ?_
    obtain ⟨k, hk⟩ := List.getElem?_of_mem hu
    exact List.getElem?_modify_ne _ _ (hb.ne_above hk hx).symm
  · rw [map_modify_of_keeps hkeeps, hwithin.joints]
  · rw [List.getElem?_modify_eq, hp]
    rfl
  · rw [List.getElem?_modify_ne _ _ hx.symm, hwithin.outside x hout]

end FlowTree.Tidy
