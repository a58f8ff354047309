import FlowTree.Proofs.Arena.Walking
import FlowTree.Proofs.Paths

/-!
# Writing down the coordinates of a tidy tree in an array

* **`Written`** says that the coordinates of a tree stand at the positions of its cells.
* **`settles`** says that the second walk goes through for every subtree, and that it is `settle`.
* **`Net.breadths_eq`** says that nothing goes wrong from laying out the cells to the last coordinate, and that what is
  found are the `breadths` of the tree.
-/

namespace FlowTree.Tidy

variable {α : Type}

/-- The positions that the cells of a tree stand for. -/
def sources (t : Wires) : List ℕ := t.preorder.map (·.2)

theorem sources_node (x : ℕ × ℕ) (cs : List Wires) : sources (.node x cs) = x.2 :: cs.flatMap sources := by
  rw [sources, Tree.preorder_node, List.map_cons, List.map_flatMap]
  rfl

theorem mem_sources_of_at? {t u : Wires} {path : List ℕ} (h : t.at? path = some u) : u.value.2 ∈ sources t :=
  List.mem_map_of_mem (Tree.value_mem_preorder h)

/-- The coordinates of a tree have been written down at the positions of its cells, and nothing else. -/
structure Written (t : Wires) (s : Tree α) (breadth breadth' : List α) : Prop where
  length : breadth'.length = breadth.length
  kept : ∀ i, i ∉ sources t → breadth'[i]? = breadth[i]?
  written : ∀ path u v, t.at? path = some u → s.at? path = some v → breadth'[u.value.2]? = some v.value

/-- So have those of a row of trees. -/
structure WrittenAll (ts : List Wires) (ss : List (Tree α)) (breadth breadth' : List α) : Prop where
  length : breadth'.length = breadth.length
  kept : ∀ i, i ∉ ts.flatMap sources → breadth'[i]? = breadth[i]?
  written : ∀ (k : ℕ) (t : Wires) (s : Tree α), ts[k]? = some t → ss[k]? = some s →
    ∀ path u v, t.at? path = some u → s.at? path = some v → breadth'[u.value.2]? = some v.value

theorem WrittenAll.nil (breadth : List α) : WrittenAll [] [] breadth breadth :=
  ⟨rfl, fun _ _ => rfl, fun k t s ht => by simp at ht⟩

/-- One tree after the other. -/
theorem WrittenAll.cons {t : Wires} {ts : List Wires} {s : Tree α} {ss : List (Tree α)} {b₀ b₁ b₂ : List α}
    (h : Written t s b₀ b₁) (hs : WrittenAll ts ss b₁ b₂) (hnodup : ((t :: ts).flatMap sources).Nodup) :
    WrittenAll (t :: ts) (s :: ss) b₀ b₂ := by
  rw [List.flatMap_cons, List.nodup_append] at hnodup
  refine ⟨hs.length.trans h.length, fun i hi => ?_, fun k u r hu hr path v w hv hw => ?_⟩
  · rw [List.flatMap_cons, List.mem_append, not_or] at hi
    rw [hs.kept i hi.2, h.kept i hi.1]
  · cases k with
    | zero =>
      obtain rfl := Option.some.inj hu
      obtain rfl := Option.some.inj hr
      have hmem := mem_sources_of_at? hv
      rw [hs.kept _ fun hin => hnodup.2.2 _ hmem _ hin rfl, h.written path v w hv hw]
    | succ k => exact hs.written k u r hu hr path v w hv hw

/-- The root before all below it. -/
theorem Written.node {x : ℕ × ℕ} {cs : List Wires} {a : α} {ss : List (Tree α)} {b₀ b₁ : List α} (hlt : x.2 < b₀.length)
    (hs : WrittenAll cs ss (b₀.modify x.2 fun _ => a) b₁) (hnodup : (sources (.node x cs)).Nodup) :
    Written (.node x cs) (.node a ss) b₀ b₁ := by
  rw [sources_node, List.nodup_cons] at hnodup
  refine ⟨by rw [hs.length, List.length_modify], fun i hi => ?_, fun path u v hu hv => ?_⟩
  · rw [sources_node, List.mem_cons, not_or] at hi
    rw [hs.kept i hi.2, List.getElem?_modify_ne _ _ (Ne.symm hi.1)]
  · cases path with
    | nil =>
      obtain rfl := Option.some.inj hu
      obtain rfl := Option.some.inj hv
      rw [Tree.value, hs.kept _ hnodup.1, List.getElem?_modify_eq, List.getElem?_eq_getElem hlt]
      rfl
    | cons i path =>
      obtain ⟨c, hc, hu⟩ := Tree.at?_cons_eq_some_iff.mp hu
      obtain ⟨d, hd, hv⟩ := Tree.at?_cons_eq_some_iff.mp hv
      exact hs.written i c d hc hd path u v hu hv

/-! ### The second walk -/

variable [Scalar α]

/-- The second walk writes down the coordinates of a subtree that is moved by the modifier of the parent. -/
def Settles (α : Type) [Scalar α] (t : Wires) : Prop :=
  ∀ (net : Net α) (p k : ℕ) (d : Tree (Slot α)) (c : Cell α) (breadth : List α) (rounds : ℕ),
    Wired net p k t → Reads net t d → net[p]? = some c → p ∉ slots t → (slots t).Nodup → (sources t).Nodup →
      (∀ i ∈ sources t, i < breadth.length) → t.size ≤ rounds →
        ∃ net' breadth', Net.secondWalk rounds (top t) (net, breadth) = .ok (net', breadth') ∧
          Within net net' (slots t) ∧ Written t (settle d c.modifier) breadth breadth'

theorem settle_children {cs : List Wires} (hcs : ∀ u ∈ cs, Settles α u) (breadth : List α) {net : Net α}
    {v first rounds : ℕ} {c : Cell α} {ds : List (Tree (Slot α))} (hcell : net[v]? = some c)
    (hw : ∀ (k : ℕ) (u : Wires), cs[k]? = some u → Wired net v (first + k) u) (hread : ReadsAll net cs ds)
    (hnot : v ∉ cs.flatMap slots) (hnodup : (cs.flatMap slots).Nodup) (hsources : (cs.flatMap sources).Nodup)
    (hlt : ∀ i ∈ cs.flatMap sources, i < breadth.length) (hrounds : ∀ u ∈ cs, u.size ≤ rounds) :
    ∃ net' breadth', (cs.map top).foldlM (fun state child => Net.secondWalk rounds child state) (net, breadth) =
        .ok (net', breadth') ∧ Within net net' (cs.flatMap slots) ∧
          WrittenAll cs (ds.map fun d => settle d c.modifier) breadth breadth' := by
  induction cs generalizing net first ds breadth with
  | nil =>
    obtain rfl := List.eq_nil_of_length_eq_zero hread.length.symm
    exact ⟨net, breadth, rfl, .refl net _, .nil breadth⟩
  | cons u cs ih =>
    obtain ⟨d, ds, rfl⟩ := List.exists_cons_of_length_eq_add_one hread.length.symm
    have hsources' := hsources
    rw [List.flatMap_cons, List.nodup_append] at hnodup hsources'
    rw [List.flatMap_cons, List.mem_append, not_or] at hnot
    obtain ⟨net₁, breadth₁, hwalk, hwithin, hwritten⟩ := hcs u List.mem_cons_self net v first d c breadth rounds
      (hw 0 u rfl) (hread.reads 0 u d rfl rfl) hcell hnot.1 hnodup.1 hsources'.1
      (fun i hi => hlt i (List.mem_flatMap.mpr ⟨u, List.mem_cons_self, hi⟩)) (hrounds u List.mem_cons_self)
    have hcell₁ := (hwithin.outside v hnot.1).trans hcell
    have hw₁ : ∀ (k : ℕ) (w : Wires), cs[k]? = some w → Wired net₁ v (first + 1 + k) w := fun k w hk => by
      have hnext := (hw (k + 1) w hk).congr hwithin.joints
      rwa [Nat.add_right_comm, Nat.add_assoc]
    have hread₁ : ReadsAll net₁ cs ds := by
      refine ⟨Nat.succ.inj hread.length, fun k w e hk he => ?_⟩
      refine (hread.reads (k + 1) w e hk he).congr (hw (k + 1) w hk) fun x hx => .inl (Net.slot?_congr ?_)
      refine hwithin.outside x fun hin => hnodup.2.2 x hin x ?_ rfl
      exact List.mem_flatMap.mpr ⟨w, List.mem_of_getElem? hk, hx⟩
    obtain ⟨net', breadth', hrest, hwithin', hwritten'⟩ := ih (fun w hw => hcs w (List.mem_cons_of_mem u hw)) breadth₁
      hcell₁ hw₁ hread₁ hnot.2 hnodup.2.1 hsources'.2.1
      (fun i hi => by
        rw [hwritten.length]
        exact hlt i (List.flatMap_cons .. ▸ List.mem_append_right _ hi))
      fun w hw => hrounds w (List.mem_cons_of_mem u hw)
    refine ⟨net', breadth', ?_, (hwithin.mono ?_).trans (hwithin'.mono ?_), .cons hwritten hwritten' hsources⟩
    · rw [List.map_cons, List.foldlM_cons, hwalk, Checked.ok_bind, hrest]
    · exact List.flatMap_cons .. ▸ List.subset_append_left _ _
    · exact List.flatMap_cons .. ▸ List.subset_append_right _ _

/-- One step of the second walk: the place of a cell is moved by the modifier of its parent and written down, and so is
its own modifier before the walk goes on to the children. -/
theorem secondWalk_node {net : Net α} {p k : ℕ} {x : ℕ × ℕ} {cs : List Wires} {v c : Cell α} {breadth : List α}
    (hw : Wired net p k (.node x cs)) (hv : net[x.1]? = some v) (hp : net[p]? = some c) (hlt : x.2 < breadth.length)
    (rounds : ℕ) :
    Net.secondWalk (rounds + 1) x.1 (net, breadth) =
      (cs.map top).foldlM (fun state child => Net.secondWalk rounds child state)
        (net.modify x.1 fun v => { v with modifier := v.modifier + c.modifier },
          breadth.modify x.2 fun _ => v.prelim + c.modifier) := by
  obtain ⟨v', hv', hjoint⟩ := hw.joint
  obtain rfl : v = v' := Option.some.inj (hv.symm.trans hv')
  have hvlt := (List.getElem?_eq_some_iff.mp hv).1
  have hparent : Net.parentOf net x.1 = .ok p := by
    have hparent : v.parent = some p := congrArg Joint.parent hjoint
    rw [Net.parentOf, Checked.get_eq hv, Checked.ok_bind, hparent]
    rfl
  have hsource : v.source = some x.2 := congrArg Joint.source hjoint
  have hchildren : v.children = cs.map top := congrArg Joint.children hjoint
  simp only [Net.secondWalk, hparent, Checked.get_eq hp, Checked.get_eq hv, Checked.ok_bind, hsource,
    Checked.modify_eq hlt, Checked.modify_eq hvlt, hchildren]

/-- **The second walk settles every subtree.** -/
theorem settles (t : Wires) : Settles α t := by
  induction t using Tree.induct with
  | node x cs ih =>
    intro net p k d c breadth rounds hw hread hp hnot hnodup hsources hlt hrounds
    obtain ⟨v, hv, -⟩ := hw.joint
    have hv : net[x.1]? = some v := hv
    obtain ⟨rounds, rfl⟩ : ∃ r, rounds = r + 1 := ⟨rounds - 1, by rw [Tree.size_node] at hrounds; omega⟩
    have hsizes : ∀ u ∈ cs, u.size ≤ rounds := fun u hu =>
      Nat.le_of_lt_succ ((Tree.size_lt_of_mem x hu).trans_le hrounds)
    rw [slots_node, List.nodup_cons] at hnodup
    have hnodup' := hsources
    rw [sources_node, List.nodup_cons] at hnodup'
    rw [sources_node] at hlt
    have hxlt := hlt x.2 List.mem_cons_self
    cases hread with
    | @node _ _ s a ds hslot hplace hmoves hlength hdeeper =>
      have hva : v.toSlot = a := by
        rw [Net.slot?, hv] at hslot
        exact Option.some.inj hslot
      let g : Cell α → Cell α := fun v => { v with modifier := v.modifier + c.modifier }
      have hv₁ : (net.modify x.1 g)[x.1]? = some (g v) := by
        rw [List.getElem?_modify_eq, hv]
        rfl
      have hwithin₁ : Within net (net.modify x.1 g) (slots (.node x cs)) :=
        .modify (g := g) (fun _ => rfl) (top_mem_slots (.node x cs))
      have hread₁ : ReadsAll (net.modify x.1 g) cs ds := by
        refine ⟨hlength, fun j u e hu he => (hdeeper j u e hu he).congr (hw.child hu) fun y hy => .inl ?_⟩
        refine Net.slot?_modify fun heq => hnodup.1 ?_
        exact List.mem_flatMap.mpr ⟨u, List.mem_of_getElem? hu, heq ▸ hy⟩
      have hw₁ : ∀ (j : ℕ) (u : Wires), cs[j]? = some u → Wired (net.modify x.1 g) x.1 (0 + j) u := fun j u hu => by
        rw [Nat.zero_add]
        exact (hw.child hu).congr hwithin₁.joints
      obtain ⟨net', breadth', hfold, hwithin', hwritten⟩ := settle_children ih
        (breadth.modify x.2 fun _ => v.prelim + c.modifier) hv₁ hw₁ hread₁ hnodup.1 hnodup.2 hnodup'.2
        (fun i hi => by
          rw [List.length_modify]
          exact hlt i (List.mem_cons_of_mem _ hi)) hsizes
      -- the modifier of a leaf moves nothing
      have hmoved : (ds.map fun d => settle d (g v).modifier) = ds.map fun d => settle d (s.modifier + c.modifier) := by
        by_cases hne : cs = []
        · subst hne
          rw [List.eq_nil_of_length_eq_zero hlength.symm]
          rfl
        · rw [show (g v).modifier = s.modifier + c.modifier by rw [← hmoves hne, ← hva]]
      have hvalue : v.prelim = s.prelim := by rw [← hplace, ← hva]
      rw [hmoved, hvalue] at hwritten
      refine ⟨net', breadth', ?_, hwithin₁.trans (hwithin'.mono ?_), ?_⟩
      · exact (secondWalk_node hw hv hp hxlt rounds).trans hfold
      · rw [slots_node]
        exact List.subset_cons_self _ _
      · rw [settle_node]
        exact .node hxlt hwritten hsources

/-! ### All steps -/

/-- The whole tree is awaited below the first cell. -/
theorem Awaited.root {net : Net α} {s : Wires} {n : ℕ} (hslots : slots s = List.range' 1 n)
    (hfirst : net[0]? = some { Cell.fresh 0 none none 0 with children := [top s] }) (hfresh : Fresh net 0 0 s) :
    Awaited net 0 0 [] s {} { Cell.fresh 0 none none 0 with children := [top s] } := by
  have hflat : ([] ++ [s]).flatMap slots = slots s := by rw [List.nil_append, List.flatMap_singleton]
  refine ⟨⟨fun k u hu => ?_, ?_, ?_⟩, .nil net 0, hfirst, ⟨[], rfl⟩, rfl⟩
  · cases k with
    | zero =>
      obtain rfl := Option.some.inj hu
      exact hfresh.wired
    | succ k => simp at hu
  · rw [hflat, hslots]
    exact List.nodup_range'
  · rw [hflat, hslots, List.mem_range'_1]
    omega

/-- What has been drawn alone is read off its root, which stands at its place. -/
theorem Row.reads_alone {net : Net α} {s : Wires} {d : Drawn α} {default : ℕ}
    (hrow : Row net ([] ++ [s]) (Forest.add {} d) default) :
    ∃ r, net[top s]? = some r ∧ r.prelim = d.slot.prelim ∧ Reads net s (.node d.slot d.below) := by
  have hdata : net.data? (top s) = some (d.slot, Scalar.zero, Scalar.zero) := by
    obtain ⟨b, hb, hdata⟩ := hrow.siblings.exists_sibling (List.getElem?_concat_length (l := []) (a := s))
    obtain rfl := Option.some.inj hb
    exact hdata
  obtain ⟨r, hr, hrdata⟩ := Option.map_eq_some_iff.mp hdata
  refine ⟨r, hr, congrArg (·.1.prelim) hrdata, .of_root ?_ (hrow.below 0 s d.below rfl rfl)⟩
  rw [Net.slot?_eq, hdata]
  rfl

/-- The coordinates of all nodes are found, and nothing goes wrong. -/
theorem Net.breadths_eq {below : ℕ → Option (List ℕ)} {t : Tree ℕ} (ht : Hangs below t) (hroot : t.value = 0)
    {count : ℕ} (hcount : t.size ≤ count) (hnodup : t.preorder.Nodup) (hlt : ∀ i ∈ t.preorder, i < count) :
    ∃ b : List α, Net.breadths below count = .ok b ∧ b.length = count ∧
      ∀ path u v, t.at? path = some u → (Tidy.breadths t : Tree α).at? path = some v → b[u.value]? = some v.value := by
  obtain ⟨net, s, hbuild, hsource, hslots, hlength, hfirst, hfresh⟩ := build_root (α := α) ht hcount
  rw [hroot] at hbuild
  have hsources : sources s = t.preorder := by rw [sources, ← Tree.preorder_map, hsource]
  have hslotsNodup : (slots s).Nodup := hslots ▸ List.nodup_range'
  have hnot : 0 ∉ slots s := by
    rw [hslots, List.mem_range'_1]
    omega
  have hsize : s.size = t.size := by rw [← hsource, Tree.size, Tree.size, Tree.preorder_map, List.length_map]
  obtain ⟨net₁, default₁, hwalk, hrow, hwithin, hcell⟩ := walks s net 0 0 [] {} _ net.length
    (.root hslots hfirst hfresh) hfresh (by omega)
  -- what has been drawn is moved so that the root stands at zero
  let d : Drawn α := draw s none
  obtain ⟨r, hr, hprelim, hreads⟩ := Row.reads_alone (d := d) hrow
  have hlt₁ := (List.getElem?_eq_some_iff.mp hcell).1
  let g : Cell α → Cell α := fun c => { c with modifier := -r.prelim }
  have hcell₂ : (net₁.modify 0 g)[0]? = some (g (Cell.assuming default₁
      { Cell.fresh 0 none none 0 with children := [top s] })) := by
    rw [List.getElem?_modify_eq, hcell]
    rfl
  have hread : Reads (net₁.modify 0 g) s (.node d.slot d.below) :=
    hreads.congr (hfresh.wired.congr hwithin.joints) fun x hx => .inl (slot?_modify fun heq => hnot (heq ▸ hx))
  have hjoints : (net₁.modify 0 g).map (·.toJoint) = net.map (·.toJoint) :=
    (map_modify_of_keeps (f := g) (fun _ => rfl) net₁ 0).trans hwithin.joints
  have hlength₁ : (net₁.modify 0 g).length = net.length := by
    have hlengths := congrArg List.length hjoints
    rwa [List.length_map, List.length_map] at hlengths
  obtain ⟨net₂, b, hsettle, -, hwritten⟩ := settles s (net₁.modify 0 g) 0 0 (.node d.slot d.below) _
    (List.replicate count Scalar.zero) (net₁.modify 0 g).length (hfresh.wired.congr hjoints) hread hcell₂ hnot
    hslotsNodup (hsources ▸ hnodup) (by rwa [hsources, List.length_replicate]) (by omega)
  refine ⟨b, ?_, hwritten.length.trans List.length_replicate, fun path u v hu hv => ?_⟩
  · have hroot : Checked.get [top s] 0 = .ok (top s) := rfl
    simp only [Net.breadths, hbuild, Checked.get_eq hfirst, hroot, hwalk, Checked.get_eq hr, Checked.modify_eq hlt₁,
      Checked.ok_bind]
    rw [hsettle]
    rfl
  · rw [← hsource, Tree.at?_map] at hu
    obtain ⟨w, hw, rfl⟩ := Option.map_eq_some_iff.mp hu
    have hshape : shape t = shape s := by rw [← hsource, shape, shape, Tree.map_map]
    rw [breadths_congr hshape] at hv
    have hvalue := hwritten.written path w v hw (by rwa [show (g _).modifier = -d.slot.prelim by rw [← hprelim]])
    obtain ⟨x, cs⟩ := w
    rwa [Tree.map_node]

end FlowTree.Tidy
