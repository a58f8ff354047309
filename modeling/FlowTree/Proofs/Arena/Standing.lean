import FlowTree.Proofs.Arena.Joining

/-!
# Standing above a row in an array

* **`Net.executeShifts_eq`** says that carrying out the recorded moves is `spread`.
* **`Older`** says what is known about the next older sibling of a node.
* **`Net.stand_eq`** says that a node is put beside its older sibling and above its children as in `Forest.crown`.
-/

namespace FlowTree.Tidy

variable {α : Type}

/-! ### The recorded moves -/

/-- What the moves of some roots leave alone. -/
structure Moved (net net' : Net α) (tops : List ℕ) : Prop where
  links : net'.map Cell.links = net.map Cell.links
  ancestors : net'.ancestor? = net.ancestor?
  outside : ∀ x, x ∉ tops → net'[x]? = net[x]?

theorem Moved.refl (net : Net α) (tops : List ℕ) : Moved net net tops := ⟨rfl, rfl, fun _ _ => rfl⟩

theorem Moved.cons [Scalar α] {net net₁ : Net α} {tops : List ℕ} (h : Moved net net₁ tops) (v : ℕ) (d : α) :
    Moved net (net₁.modify v (Cell.movedBy d)) (v :: tops) where
  links := (map_modify_of_keeps (Cell.links_movedBy d) net₁ v).trans h.links
  ancestors := (funext (Net.ancestor?_modify_of_keeps (g := Cell.movedBy d) fun _ => rfl)).trans h.ancestors
  outside x hx := by
    rw [List.mem_cons, not_or] at hx
    rw [List.getElem?_modify_ne _ _ (Ne.symm hx.1), h.outside x hx.2]

namespace Net

variable [Scalar α]

theorem foldlM_shiftChild {net : Net α} {cs : List Wires} {row : List (Sibling α)} (hrow : RowAt net cs row)
    (hnodup : (cs.map top).Nodup) :
    ∃ net', (cs.map top).reverse.foldlM shiftChild (net, Scalar.zero, Scalar.zero) = .ok (net', (spreadFrom row).2) ∧
      RowAt net' cs (spread row) ∧ Moved net net' (cs.map top) := by
  induction cs generalizing row with
  | nil =>
    obtain rfl := List.eq_nil_of_length_eq_zero hrow.length.symm
    exact ⟨net, rfl, hrow, .refl net _⟩
  | cons c cs ih =>
    obtain ⟨s, row, rfl⟩ := List.exists_cons_of_length_eq_add_one hrow.length.symm
    obtain ⟨hdata, hrow⟩ := List.cons.inj hrow
    rw [List.map_cons, List.nodup_cons] at hnodup
    obtain ⟨net₁, hfold, hrow₁, hmoved⟩ := ih hrow hnodup.2
    have hcell := hmoved.outside (top c) hnodup.1
    obtain ⟨child, hchild, hsdata⟩ := Option.map_eq_some_iff.mp ((data?_congr hcell).trans hdata)
    have hlt := (List.getElem?_eq_some_iff.mp hchild).1
    obtain ⟨-, -, hchange, hshift⟩ := Cell.data_eq_iff.mp hsdata
    refine ⟨net₁.modify (top c) (Cell.movedBy (spreadFrom row).2.1), ?_, ?_, hmoved.cons (top c) _⟩
    · rw [List.map_cons, List.reverse_cons, List.foldlM_append, hfold]
      simp only [Checked.ok_bind, List.foldlM_cons, List.foldlM_nil, shiftChild, Checked.get_eq hchild,
        Checked.modify_eq hlt, hchange, hshift, Checked.pure_eq]
      rfl
    · have hrest : RowAt (net₁.modify (top c) (Cell.movedBy (spreadFrom row).2.1)) cs (spread row) :=
        hrow₁.congr fun t ht => data?_modify fun heq => hnodup.1 (heq ▸ List.mem_map_of_mem ht)
      refine List.cons_eq_cons.mpr ⟨?_, hrest⟩
      show data? (net₁.modify (top c) (Cell.movedBy (spreadFrom row).2.1)) (top c) = _
      rw [data?, List.getElem?_modify_eq, hchild]
      exact congrArg some (Cell.data_movedBy (spreadFrom row).2.1 child s hsdata)

/-- **The recorded moves are carried out.** -/
theorem executeShifts_eq {net : Net α} {v : ℕ} {c : Cell α} (hc : net[v]? = some c) {cs : List Wires}
    (hchildren : c.children = cs.map top) {row : List (Sibling α)} (hrow : RowAt net cs row)
    (hnodup : (cs.map top).Nodup) :
    ∃ net', net.executeShifts v = .ok net' ∧ RowAt net' cs (spread row) ∧ Moved net net' (cs.map top) := by
  obtain ⟨net', hfold, hrow', hmoved⟩ := foldlM_shiftChild hrow hnodup
  refine ⟨net', ?_, hrow', hmoved⟩
  simp only [executeShifts, Checked.get_eq hc, hchildren, hfold, Checked.ok_bind, Checked.pure_eq]

end Net

theorem Moved.within {net net' : Net α} {tops : List ℕ} (h : Moved net net' tops) : Within net net' tops :=
  ⟨Net.joints_congr h.links, h.outside⟩

/-- The row after its moves. -/
theorem Row.spread [Scalar α] {net net' : Net α} {cs : List Wires} {f : Forest α} {default p : ℕ}
    (h : Row net cs f default) (hw : ∀ (k : ℕ) (c : Wires), cs[k]? = some c → Wired net p k c)
    (hnodup : (cs.flatMap slots).Nodup) (hmoved : Moved net net' (cs.map top))
    (hrow : RowAt net' cs (spread f.siblings)) :
    Row net' cs { f with siblings := spread f.siblings } default := by
  have hslot : ∀ u ∈ cs, ∀ x ∈ inner u, net'.slot? x = net.slot? x := by
    intro u hu x hx
    refine Net.slot?_congr (hmoved.outside x fun htop => ?_)
    obtain ⟨w, hw, heq⟩ := List.mem_map.mp htop
    exact ne_top_of_mem_inner hnodup hu hw hx heq.symm
  have hleft := Net.nextLeft_congr hmoved.links
  have hright := Net.nextRight_congr hmoved.links
  refine ⟨hrow, ?_, ?_, ?_, ?_, h.even⟩
  · intro k c ds hc hds
    rw [below_spread] at hds
    exact (h.below k c ds hc hds).congr (hw k c hc) fun x hx => .inl (hslot c (List.mem_of_getElem? hc) x hx)
  · intro o ho
    obtain ⟨zs, hzs, hslots, hzin⟩ := h.left o ho
    refine ⟨zs, hleft ▸ hzs, ?_, hzin⟩
    rw [← hslots]
    refine List.map_congr_left fun z hz => ?_
    obtain ⟨u, hu, hin⟩ := hzin z hz
    exact hslot u hu z hin
  · intro y hy
    obtain ⟨xs, hxs, howned⟩ := h.right y hy
    refine ⟨xs, hright ▸ hxs, howned.imp fun x e hx => ?_⟩
    obtain ⟨o, -, ho, hin, -⟩ := hx.owner
    exact hx.of_cell (hslot o (List.mem_of_getElem? ho) x hin) (congrFun hmoved.ancestors x)
  · rw [hmoved.ancestors]
    exact h.ancestors

namespace Net

variable [Scalar α] {net net' : Net α}

theorem links_executeShifts {v : ℕ} (h : net.executeShifts v = .ok net') :
    net'.map Cell.links = net.map Cell.links := by
  simp only [executeShifts, Checked.bind_eq_ok_iff, Checked.pure_eq] at h
  obtain ⟨c, -, ⟨net₁, shift, change⟩, hfold, h⟩ := h
  obtain rfl := Except.ok.inj h
  refine Checked.foldlM_keeps (P := fun state => state.1.map Cell.links = net.map Cell.links) ?_ rfl hfold
  rintro w - ⟨net₂, shift, change⟩ ⟨net₃, shift', change'⟩ hkept hstep
  simp only [shiftChild, Checked.bind_eq_ok_iff, Checked.pure_eq] at hstep
  obtain ⟨child, -, net₄, hmove, hstep⟩ := hstep
  obtain rfl := Checked.eq_modify hmove
  obtain rfl := congrArg Prod.fst (Except.ok.inj hstep)
  exact (map_modify_of_keeps (Cell.links_movedBy shift) net₂ w).trans hkept

/-- A node that is put in its place keeps its references, and so does every other cell. -/
theorem links_stand {v : ℕ} {older : Option ℕ} (h : net.stand v older = .ok net') :
    net'.map Cell.links = net.map Cell.links := by
  have hput : ∀ {net₁ : Net α} {g : Cell α → Cell α}, Checked.modify net₁ v g = .ok net' →
      (∀ c, (g c).links = c.links) → net'.map Cell.links = net₁.map Cell.links := by
    intro net₁ g hmodify hg
    rw [Checked.eq_modify hmodify]
    exact map_modify_of_keeps hg net₁ v
  simp only [stand, Checked.bind_eq_ok_iff] at h
  obtain ⟨c, -, h⟩ := h
  split at h
  · simp only [Checked.bind_eq_ok_iff] at h
    obtain ⟨net₁, hshift, a, -, b, -, h⟩ := h
    rw [← links_executeShifts hshift]
    cases older with
    | none => exact hput h fun _ => rfl
    | some w =>
      simp only [Checked.bind_eq_ok_iff] at h
      obtain ⟨s, -, gap, -, h⟩ := h
      exact hput h fun _ => rfl
  · cases older with
    | none => rw [Except.ok.inj h]
    | some w =>
      simp only [Checked.bind_eq_ok_iff] at h
      obtain ⟨s, -, gap, -, h⟩ := h
      exact hput h fun _ => rfl

end Net

/-! ### The place of a node -/

/-- The next older sibling of a node, and its place. -/
inductive Older [Scalar α] (net : Net α) (t : Wires) : Option ℕ → Option α → Prop
  | none : Older net t none none
  | some {w : ℕ} {c : Cell α} (cell : net[w]? = some c) (gap : net.separation (top t) w = .ok siblingGap)
    (outside : w ∉ slots t) : Older net t (some w) (some c.prelim)

/-- The next older sibling is the youngest one of the row. -/
theorem Older.of_row [Scalar α] {net : Net α} {p default : ℕ} {ts : List Wires} {t : Wires} {f : Forest α}
    (hb : Adjoins net p ts t) (hrow : Row net ts f default) :
    Older net t (ts.getLast?.map top) f.lastPrelim? := by
  have hlength := hrow.siblings.length
  rw [Forest.lastPrelim?]
  cases hy : ts.getLast? with
  | none =>
    obtain rfl := List.getLast?_eq_none_iff.mp hy
    rw [List.eq_nil_of_length_eq_zero hlength.symm]
    exact .none
  | some y =>
    rw [List.getLast?_eq_getElem?] at hy
    obtain ⟨s, hs, hdata⟩ := hrow.siblings.exists_sibling hy
    obtain ⟨c, hc, hcdata⟩ := Option.map_eq_some_iff.mp hdata
    have hout : top y ∉ slots t := hb.not_mem_new (List.mem_of_getElem? hy) (top_mem_slots y)
    rw [hlength] at hs
    rw [List.getLast?_eq_getElem?, hs, Option.map_some, Option.map_some, ← (Cell.data_eq_iff.mp hcdata).1]
    exact .some hc (Net.separation_tops hb hy) hout

/-- A tree is read off its root and what hangs below it. -/
theorem Reads.of_root {net : Net α} {c : Wires} {s : Slot α} {ds : List (Tree (Slot α))}
    (hs : net.slot? (top c) = some s) (hbelow : ReadsAll net c.children ds) : Reads net c (.node s ds) := by
  obtain ⟨x, cs⟩ := c
  exact .node hs rfl (fun _ => rfl) hbelow.length hbelow.reads

section Drawn

variable [Scalar α] {net : Net α} {x : ℕ × ℕ} {c : Cell α} {slot : Slot α}
  (hc : net[x.1]? = some c) (hdata : c.data = (slot, Scalar.zero, Scalar.zero)) (hown : c.ancestor = x.1)
include hc hdata hown

/-- A leaf is drawn as soon as its place is known. -/
theorem DrawnAt.leaf (hchildren : c.children = []) (hthread : c.thread = none) :
    DrawnAt net (.node x []) ⟨slot, [], [], []⟩ where
  root := by rw [← hdata, Net.data?, top, Tree.value, hc, Option.map_some]
  below := ⟨rfl, fun k c d hc => by simp [Tree.children] at hc⟩
  left := ⟨[], by simp [Leads, Net.nextLeft, top, Tree.value, hc, hchildren, hthread], rfl, by simp⟩
  right := ⟨[], by simp [Leads, Net.nextRight, top, Tree.value, hc, hchildren, hthread], rfl, by simp⟩
  own := by rw [Net.ancestor?, top, Tree.value, hc, Option.map_some, hown]
  ancestors y hy := by simp [inner, Tree.children] at hy
  even := rfl

/-- A node is drawn as soon as its place above its children is known. -/
theorem DrawnAt.above {cs : List Wires} {f : Forest α} {default : ℕ} (hchildren : c.children = cs.map top)
    (hrow : Row net cs f default) {first last : Sibling α} (hfirst : f.siblings.head? = some first)
    (hlast : f.siblings.getLast? = some last) :
    DrawnAt net (.node x cs) ⟨slot, f.siblings.map fun s => .node s.toSlot s.below, first.toSlot :: f.left,
      last.toSlot :: f.right.map (·.2)⟩ := by
  have hlength := hrow.siblings.length
  have hcell : net[top (.node x cs)]? = some c := hc
  rw [List.head?_eq_getElem?] at hfirst
  rw [List.getLast?_eq_getElem?, ← hlength] at hlast
  -- the oldest and the youngest child
  have hpos : 0 < cs.length := hlength ▸ (List.getElem?_eq_some_iff.mp hfirst).1
  obtain ⟨o, ho⟩ : ∃ o, cs[0]? = some o := ⟨_, List.getElem?_eq_getElem hpos⟩
  obtain ⟨y, hy⟩ : ∃ y, cs[cs.length - 1]? = some y := ⟨_, List.getElem?_eq_getElem (by omega)⟩
  have hslot : ∀ {k : ℕ} {u : Wires} {s : Sibling α}, cs[k]? = some u → f.siblings[k]? = some s →
      net.slot? (top u) = some s.toSlot := by
    intro k u s hu hs
    obtain ⟨b, hb, hdata⟩ := hrow.siblings.exists_sibling hu
    obtain rfl := Option.some.inj (hb.symm.trans hs)
    rw [Net.slot?_eq, hdata]
    rfl
  have hinside : ∀ u ∈ cs, ∀ z ∈ slots u, z ∈ inner (.node x cs) := fun u hu z hz =>
    List.mem_flatMap.mpr ⟨u, hu, hz⟩
  obtain ⟨zs, hzs, hleft, hzin⟩ := hrow.left o (by rw [List.head?_eq_getElem?, ho])
  obtain ⟨xs, hxs, howned⟩ := hrow.right y (by rw [List.getLast?_eq_getElem?, hy])
  exact {
    root := by rw [Net.data?, hcell, Option.map_some, hdata]
    below := by
      refine ⟨by rw [List.length_map, ← hlength]; rfl, fun k u ds hu hds => ?_⟩
      rw [List.getElem?_map] at hds
      obtain ⟨s, hs, rfl⟩ := Option.map_eq_some_iff.mp hds
      exact .of_root (hslot hu hs) (hrow.below k u s.below hu (by rw [List.getElem?_map, hs, Option.map_some]))
    left := by
      refine ⟨top o :: zs, ⟨?_, hzs⟩, ?_, fun z hz => ?_⟩
      · rw [Net.nextLeft, hcell, Option.bind_some, hchildren, List.head?_eq_getElem?, List.getElem?_map, ho]
        rfl
      · rw [List.map_cons, hleft, hslot ho hfirst, List.map_cons]
      · rcases List.mem_cons.mp hz with rfl | hz
        · exact hinside o (List.mem_of_getElem? ho) _ (top_mem_slots o)
        · obtain ⟨u, hu, hin⟩ := hzin z hz
          exact hinside u hu z (mem_slots_of_mem_inner hin)
    right := by
      refine ⟨top y :: xs, ⟨?_, hxs⟩, ?_, fun z hz => ?_⟩
      · rw [Net.nextRight, hcell, Option.bind_some, hchildren, List.getLast?_eq_getElem?, List.length_map,
          List.getElem?_map, hy]
        rfl
      · rw [List.map_cons, hslot hy hlast, List.map_cons, slots_of_owned howned]
      · rcases List.mem_cons.mp hz with rfl | hz
        · exact hinside y (List.mem_of_getElem? hy) _ (top_mem_slots y)
        · obtain ⟨u, hu, hin⟩ := inside_of_owned howned z hz
          exact hinside u hu z (mem_slots_of_mem_inner hin)
    own := by
      rw [Net.ancestor?, hcell, Option.map_some, hown]
      rfl
    ancestors := fun z hz => by
      obtain ⟨u, hu, hzu⟩ := List.mem_flatMap.mp hz
      obtain ⟨a, ha, hanc⟩ := hrow.ancestors u hu z hzu
      exact ⟨a, hinside u hu a ha, hanc⟩
    even := by rw [List.length_cons, List.length_cons, List.length_map, hrow.even] }

end Drawn

/-- A node whose children are drawn has been put in its place. -/
theorem DrawnAt.put [Scalar α] {net : Net α} {x : ℕ × ℕ} {cs : List Wires} {c : Cell α} {f : Forest α} {default : ℕ}
    (hc : net[x.1]? = some c) (hchildren : c.children = cs.map top) (hown : c.ancestor = x.1)
    (hw : ∀ (k : ℕ) (u : Wires), cs[k]? = some u → Wired net x.1 k u) (hnot : x.1 ∉ cs.flatMap slots)
    (hrow : Row net cs f default) {first last : Sibling α} (hfirst : f.siblings.head? = some first)
    (hlast : f.siblings.getLast? = some last) {g : Cell α → Cell α} (hjoint : ∀ c, (g c).toJoint = c.toJoint)
    (hancestor : ∀ c, (g c).ancestor = c.ancestor) {slot : Slot α}
    (hslot : (g c).data = (slot, Scalar.zero, Scalar.zero)) :
    DrawnAt (net.modify x.1 g) (.node x cs) ⟨slot, f.siblings.map fun s => .node s.toSlot s.below,
      first.toSlot :: f.left, last.toSlot :: f.right.map (·.2)⟩ := by
  have hcell : (net.modify x.1 g)[x.1]? = some (g c) := by
    rw [List.getElem?_modify_eq, hc]
    rfl
  refine .above hcell hslot ((hancestor c).trans hown) ((congrArg Joint.children (hjoint c)).trans hchildren)
    (hrow.congr hw fun u hu y hy => List.getElem?_modify_ne _ _ fun heq => hnot ?_) hfirst hlast
  exact List.mem_flatMap.mpr ⟨u, hu, heq ▸ hy⟩

namespace Net

variable [Scalar α] {net : Net α} {p k : ℕ} {x : ℕ × ℕ} {cs : List Wires} {assumed older : Option ℕ}
  {beside : Option α} {default : ℕ} {f : Forest α}

theorem separation_congr {net' : Net α} {v w : ℕ} (hv : net'[v]? = net[v]?) (hw : net'[w]? = net[w]?) :
    net'.separation v w = net.separation v w := by
  rw [separation, separation, Checked.get, Checked.get, Checked.get, Checked.get, hv, hw]

/-- A leaf is put beside its older sibling. -/
theorem stand_leaf (hcell : net[x.1]? = some { Cell.fresh x.1 (some x.2) (some p) k with defaultAncestor := assumed })
    (hf : f.siblings = []) (holder : Older net (.node x []) older beside) :
    ∃ net', net.stand x.1 older = .ok net' ∧ DrawnAt net' (.node x []) (f.crown beside) ∧
      Within net net' (slots (.node x [])) := by
  rw [Forest.crown, hf]
  cases holder with
  | none =>
    refine ⟨net, ?_, .leaf hcell rfl rfl rfl rfl, .refl net _⟩
    simp [stand, Checked.get_eq hcell, Cell.fresh]
  | @some w c hc hgap _ =>
    have hlt := (List.getElem?_eq_some_iff.mp hcell).1
    have hgap : net.separation x.1 w = .ok siblingGap := hgap
    let g : Cell α → Cell α := fun a => { a with prelim := c.prelim + siblingGap }
    refine ⟨net.modify x.1 g, ?_, .leaf ((List.getElem?_modify_eq g x.1 net).trans (congrArg (g <$> ·) hcell)) rfl rfl
      rfl rfl, .modify (g := g) (fun _ => rfl) (top_mem_slots (.node x []))⟩
    simp [stand, Checked.get_eq hcell, Cell.fresh, Checked.get_eq hc, hgap, Checked.modify_eq hlt, g]

omit [Scalar α] in
/-- The oldest and the youngest child of a node are the ends of the row. -/
theorem exists_ends {row : List (Sibling α)} (hrow : RowAt net cs row) (hne : cs ≠ []) :
    ∃ first last a b u w, row.head? = some first ∧ row.getLast? = some last ∧ (cs.map top).head? = some u ∧
      (cs.map top).getLast? = some w ∧ net[u]? = some a ∧ net[w]? = some b ∧ a.prelim = first.prelim ∧
        b.prelim = last.prelim := by
  have hpos : 0 < cs.length := List.length_pos_iff.mpr hne
  have ho := List.getElem?_eq_getElem hpos
  have hy : cs[cs.length - 1]? = some _ := List.getElem?_eq_getElem (Nat.sub_lt hpos Nat.one_pos)
  obtain ⟨first, hfirst, hodata⟩ := hrow.exists_sibling ho
  obtain ⟨last, hlast, hydata⟩ := hrow.exists_sibling hy
  obtain ⟨a, ha, hadata⟩ := Option.map_eq_some_iff.mp hodata
  obtain ⟨b, hb, hbdata⟩ := Option.map_eq_some_iff.mp hydata
  refine ⟨first, last, a, b, _, _, ?_, ?_, ?_, ?_, ha, hb, (Cell.data_eq_iff.mp hadata).1,
    (Cell.data_eq_iff.mp hbdata).1⟩
  · rwa [List.head?_eq_getElem?]
  · rwa [List.getLast?_eq_getElem?, ← hrow.length]
  · rw [List.head?_eq_getElem?, List.getElem?_map, ho, Option.map_some]
  · rw [List.getLast?_eq_getElem?, List.length_map, List.getElem?_map, hy, Option.map_some]

/-- **A node is put** beside its older sibling and above its children as in `Forest.crown`. -/
theorem stand_eq (hw : ∀ (k : ℕ) (c : Wires), cs[k]? = some c → Wired net x.1 k c)
    (hnodup : (slots (.node x cs)).Nodup)
    (hcell : net[x.1]? = some { Cell.fresh x.1 (some x.2) (some p) k with
      children := cs.map top, defaultAncestor := assumed })
    (hrow : Row net cs f default) (holder : Older net (.node x cs) older beside) :
    ∃ net', net.stand x.1 older = .ok net' ∧ DrawnAt net' (.node x cs) (f.crown beside) ∧
      Within net net' (slots (.node x cs)) := by
  by_cases hne : cs = []
  · subst hne
    exact stand_leaf hcell (List.eq_nil_of_length_eq_zero hrow.siblings.length.symm) holder
  · rw [slots_node, List.nodup_cons] at hnodup
    have hsub : cs.map top ⊆ cs.flatMap slots := fun y hy => by
      obtain ⟨u, hu, rfl⟩ := List.mem_map.mp hy
      exact List.mem_flatMap.mpr ⟨u, hu, top_mem_slots u⟩
    obtain ⟨net₁, hshift, hrow₁, hmoved⟩ := executeShifts_eq hcell rfl hrow.siblings (nodup_tops hnodup.2)
    have hwithin : Within net net₁ (slots (.node x cs)) :=
      hmoved.within.mono (slots_node x cs ▸ fun y hy => List.mem_cons_of_mem _ (hsub hy))
    have hcell₁ := (hmoved.outside x.1 fun hx => hnodup.1 (hsub hx)).trans hcell
    have hlt := (List.getElem?_eq_some_iff.mp hcell₁).1
    have hspread := hrow.spread hw hnodup.2 hmoved hrow₁
    have hw₁ : ∀ (k : ℕ) (u : Wires), cs[k]? = some u → Wired net₁ x.1 k u := fun k u hu =>
      (hw k u hu).congr hwithin.joints
    obtain ⟨first, last, a, b, u, w, hfirst, hlast, hhead, hend, ha, hb, hprelim, hprelim'⟩ := exists_ends hrow₁ hne
    have hmiddle : (a.prelim + b.prelim) / Scalar.two = (first.prelim + last.prelim) / Scalar.two := by
      rw [hprelim, hprelim']
    rw [Forest.crown]
    simp only [hfirst, hlast]
    cases holder with
    | none =>
      let g : Cell α → Cell α := fun c => { c with prelim := (a.prelim + b.prelim) / Scalar.two }
      refine ⟨net₁.modify x.1 g, ?_, ?_, hwithin.trans (.modify (g := g) (fun _ => rfl) (top_mem_slots (.node x cs)))⟩
      · simp [stand, Checked.get_eq hcell, hhead, hend, hshift, Checked.get_eq ha, Checked.get_eq hb,
          Checked.modify_eq hlt, g]
      · refine .put hcell₁ rfl rfl hw₁ hnodup.1 hspread hfirst hlast (g := g) (fun _ => rfl) (fun _ => rfl) ?_
        simp [g, Cell.data, Cell.fresh, hmiddle]
    | @some w c hc hgap hout =>
      have hw : net₁[w]? = net[w]? := hwithin.outside w hout
      have hgap₁ : net₁.separation x.1 w = .ok siblingGap :=
        (separation_congr (hcell₁.trans hcell.symm) hw).trans hgap
      let g : Cell α → Cell α := fun v => { v with
        prelim := c.prelim + siblingGap
        modifier := c.prelim + siblingGap - (a.prelim + b.prelim) / Scalar.two }
      refine ⟨net₁.modify x.1 g, ?_, ?_, hwithin.trans (.modify (g := g) (fun _ => rfl) (top_mem_slots (.node x cs)))⟩
      · simp [stand, Checked.get_eq hcell, hhead, hend, hshift, Checked.get_eq ha, Checked.get_eq hb,
          Checked.get_eq (hw.trans hc), hgap₁, Checked.modify_eq hlt, g]
      · refine .put hcell₁ rfl rfl hw₁ hnodup.1 hspread hfirst hlast (g := g) (fun _ => rfl) (fun _ => rfl) ?_
        simp [g, Cell.data, Cell.fresh, hmiddle]

end Net

end FlowTree.Tidy
