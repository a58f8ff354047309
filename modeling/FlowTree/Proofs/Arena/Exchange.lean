import FlowTree.Proofs.Arena.Spots

/-!
# Two trees in arrays

The nodes of an old and a new tree with the same id are found by tables of ids and positions.

* **`Arena.exchange`** carries the places over between two such nodes, **`Arena.retire`** hides what goes and finds
  where it goes to.
* **`Hierarchy.index`** is the table of a hierarchy; **`Hierarchy.lookup_site`** says that every node on show is
  found in it.
* **`Hierarchy.exchange_arena`** and **`Hierarchy.retire_arena`** say that nothing goes wrong and that what is left
  are the arrays of `View.inherit` and `View.bequeath`.
-/

namespace FlowTree

variable {α : Type}

/-- The node not visible. -/
def Node.hidden (n : Node α) : Node α := { n with visible := false }

namespace Arena

/-- The positions on show and the ids there. -/
def listing (a : Arena α) : Checked (List ℕ × List String) := do
  let order ← a.descendants
  let ids ← order.mapM fun i => do
    let s ← Checked.get a i
    return s.node.id
  return (order, ids)

/-- Changes the node at a position. -/
def stamp (f : Node α → Node α) (a : Arena α) (i : ℕ) : Checked (Arena α) :=
  Checked.modify a i fun s => { s with node := f s.node }

/-- Tells the new node with the id of an old one where that is, and the old one where the new one goes. -/
def exchange (index : List (String × ℕ)) (trees : Arena α × Arena α) (x : ℕ × String) :
    Checked (Arena α × Arena α) :=
  match Checked.find? index x.2 with
  | none => return trees
  | some j => do
    let o ← Checked.get trees.1 x.1
    let n ← Checked.get trees.2 j
    let new ← trees.2.stamp (fun m => { m with start := o.node.start, visible := o.node.visible }) j
    let old ← trees.1.stamp (fun m => { m with finish := n.node.finish }) x.1
    return (old, new)

/-- Hides the nodes with the given ids and finds the places of their anchors. -/
def retire (a : Arena α) (index : List (String × ℕ)) (ids : List String) :
    Checked (Arena α × List (String × Point α)) := do
  let a ← ids.foldlM (fun a id => do
    let i ← Checked.lookup index id
    a.stamp Node.hidden i) a
  let targets ← ids.mapM fun id => do
    let i ← Checked.lookup index id
    let n ← a.anchor i
    return (id, n.finish)
  return (a, targets)

end Arena

namespace Hierarchy

/-! ### Tables -/

/-- The ids on show with their positions. -/
def index (h : Hierarchy α) : List (String × ℕ) := h.ids.zip h.onShow.breadthFirst

theorem index_eq (h : Hierarchy α) : h.index = h.sites.map fun x => (x.2.id, h.place x.1) := by
  rw [index, ids_eq_sites, onShow_eq_sites, List.zip_map']

theorem nodup_index {h : Hierarchy α} (hd : h.Distinct) : (h.index.map (·.1)).Nodup := by
  have hids : h.index.map (·.1) = h.ids := by
    rw [index_eq, List.map_map, ids_eq_sites]
    rfl
  rw [hids]
  exact ids_nodup hd

/-- **Every node on show is found** by its id. -/
theorem find?_site {h : Hierarchy α} (hd : h.Distinct) {x : List ℕ × Spot α} (hx : x ∈ h.sites) :
    Checked.find? h.index x.2.id = some (h.place x.1) := by
  rw [Checked.find?_eq_some_iff (nodup_index hd), index_eq]
  exact List.mem_map_of_mem hx

theorem lookup_site {h : Hierarchy α} (hd : h.Distinct) {x : List ℕ × Spot α} (hx : x ∈ h.sites) :
    Checked.lookup h.index x.2.id = .ok (h.place x.1) := by
  rw [Checked.lookup, find?_site hd hx, Checked.present_some]

/-- What is found is on show. -/
theorem exists_of_find?_index {h : Hierarchy α} (hd : h.Distinct) {id : String} {i : ℕ}
    (hi : Checked.find? h.index id = some i) : ∃ x ∈ h.sites, x.2.id = id ∧ h.place x.1 = i := by
  rw [Checked.find?_eq_some_iff (nodup_index hd), index_eq] at hi
  obtain ⟨x, hx, heq⟩ := List.mem_map.mp hi
  exact ⟨x, hx, (Prod.mk.inj heq).1, (Prod.mk.inj heq).2⟩

theorem find?_index_eq_none {h : Hierarchy α} (hd : h.Distinct) {id : String}
    (hi : Checked.find? h.index id = none) : id ∉ h.ids := by
  rw [ids_eq_sites]
  intro hmem
  obtain ⟨x, hx, rfl⟩ := List.mem_map.mp hmem
  rw [find?_site hd hx] at hi
  cases hi

/-- A node on show is found by its id among all of them. -/
theorem find?_descendants {h : Hierarchy α} (hd : h.Distinct) {x : List ℕ × Spot α} (hx : x ∈ h.sites) :
    h.descendants.find? (·.id == x.2.id) = some x.2.node := by
  refine find?_of_nodup_map (fun n : Node α => n.id) (ids_nodup hd) ?_
  rw [← spots_map_node, ← map_snd_sites]
  exact List.mem_map_of_mem (List.mem_map_of_mem hx)

/-- Hierarchies of one frame have the same positions on show. -/
theorem order_congr {h h' : Hierarchy α} (hlisting : h'.listing = h.listing) (hframe : h'.frame = h.frame) :
    h'.onShow.breadthFirst = h.onShow.breadthFirst := by
  have horder : ∀ k : Hierarchy α, k.onShow.breadthFirst =
      ((k.shown.map fun n => (n.id, n.info, n.folded)).located.breadthFirst.map (·.1)).map k.place := by
    intro k
    rw [breadthFirst_onShow, Tree.located_eq, Tree.located_eq, Tree.locatedAt_map, Tree.breadthFirst_map,
      List.map_map, List.map_map]
    rfl
  rw [horder, horder, shown_congr hframe, place_congr hlisting hframe]

/-- They have one table. -/
theorem index_congr {h h' : Hierarchy α} (hlisting : h'.listing = h.listing) (hframe : h'.frame = h.frame) :
    h'.index = h.index := by
  have hids : ∀ k : Hierarchy α, k.ids = (k.shown.map fun n => (n.id, n.info, n.folded)).breadthFirst.map (·.1) := by
    intro k
    rw [Tree.breadthFirst_map, List.map_map]
    rfl
  rw [index, index, order_congr hlisting hframe, hids, hids, shown_congr hframe]

namespace Stamps

variable {f : Node α → Node α} (hf : Stamps f) (h : Hierarchy α)

include hf

theorem order : (h.updateShown f).onShow.breadthFirst = h.onShow.breadthFirst :=
  order_congr rfl (map_updateShown hf.keeps h)

theorem index : (h.updateShown f).index = h.index := index_congr rfl (map_updateShown hf.keeps h)

theorem ids : (h.updateShown f).ids = h.ids := by
  refine ids_updateShown (fun n => ?_) h
  have hkeeps := hf.keeps n
  rw [Prod.mk.injEq, Prod.mk.injEq] at hkeeps
  exact ⟨hkeeps.1, hkeeps.2.2⟩

variable {h} in
theorem distinct (hd : h.Distinct) : (h.updateShown f).Distinct :=
  hd.of_skeleton (skeleton_congr (map_updateShown hf.keeps h))

end Stamps

/-- The positions and the ids on show are found. -/
theorem listing_arena (h : Hierarchy α) : h.arena.listing = .ok (h.onShow.breadthFirst, h.ids) := by
  rw [Arena.listing, descendants_arena, Checked.ok_bind, onShow_eq_sites, Checked.mapM_eq (g := fun x => x.2.id),
    Checked.ok_bind, ids_eq_sites]
  · rfl
  · intro x hx
    obtain ⟨s, hs, hnode⟩ := get_site hx
    rw [Checked.get_eq hs, Checked.ok_bind, hnode]
    rfl

/-! ### Changes of the nodes on show -/

theorem place_mem_onShow {h : Hierarchy α} {x : List ℕ × Spot α} (hx : x ∈ h.sites) :
    h.place x.1 ∈ h.onShow.breadthFirst := by
  rw [onShow_eq_sites]
  exact List.mem_map_of_mem hx

/-- Two changes by position are one if they do the same to the nodes on show and to all others. -/
theorem mapIdx_congr {h : Hierarchy α} {f g : ℕ → Slot α → Slot α}
    (hshown : ∀ x ∈ h.sites, ∀ s : Slot α, s.node.id = x.2.id → f (h.place x.1) s = g (h.place x.1) s)
    (hother : ∀ i ∉ h.onShow.breadthFirst, ∀ s, f i s = g i s) : h.arena.mapIdx f = h.arena.mapIdx g := by
  apply List.ext_getElem?
  intro i
  rw [List.getElem?_mapIdx, List.getElem?_mapIdx]
  by_cases hi : i ∈ h.onShow.breadthFirst
  · rw [onShow_eq_sites] at hi
    obtain ⟨x, hx, rfl⟩ := List.mem_map.mp hi
    obtain ⟨s, hs, hnode⟩ := get_site hx
    rw [hs, Option.map_some, Option.map_some, hshown x hx s (by rw [hnode]; rfl)]
  · congr 1
    funext s
    exact hother i hi s

/-- All nodes on show are changed. -/
theorem stamps_arena {f : Node α → Node α} (hf : Stamps f) (h : Hierarchy α) :
    h.onShow.breadthFirst.foldlM (Arena.stamp f) h.arena = .ok (h.updateShown f).arena := by
  have hloop := Checked.foldlM_eq (P := fun a : Arena α => a.length = h.arena.length) (f := Arena.stamp f)
    (g := fun a i => a.modify i fun s => { s with node := f s.node }) (l := h.onShow.breadthFirst) rfl
  rw [(hloop ?_).1, Checked.foldl_modify h.nodup_onShow, arena_updateShown hf]
  intro i hi a ha
  rw [onShow_eq_sites] at hi
  obtain ⟨x, hx, rfl⟩ := List.mem_map.mp hi
  obtain ⟨s, hs, -⟩ := get_site hx
  refine ⟨Checked.modify_eq ?_ _, by rw [List.length_modify, ha]⟩
  rw [ha]
  exact (List.getElem?_eq_some_iff.mp hs).1

/-! ### What goes over between the trees -/

/-- The node bound for the place of the node with its id. -/
def aimed (new : List (Node α)) (o : Node α) : Node α :=
  match new.find? (·.id == o.id) with
  | some n => { o with finish := n.finish }
  | none => o

theorem stamps_hidden : Stamps (Node.hidden (α := α)) := ⟨fun _ => rfl, fun _ => rfl⟩

theorem stamps_aimed (new : List (Node α)) : Stamps (aimed new) where
  keeps n := by
    rw [aimed]
    split <;> rfl
  plain n := by
    simp only [aimed]
    split <;> rfl

theorem stamps_bequest (new : List (Node α)) : Stamps (View.bequest new) where
  keeps n := by
    rw [View.bequest]
    split <;> rfl
  plain n := by
    simp only [View.bequest]
    split <;> rfl

theorem stamps_inheritance (old : List (Node α)) : Stamps (View.inheritance old) where
  keeps n := by
    rw [View.inheritance]
    split <;> rfl
  plain n := by
    simp only [View.inheritance]
    split <;> rfl

/-- A node that was there before takes over whether it was visible. -/
theorem inheritance_hidden {old : List (Node α)} {n : Node α} (hn : n.id ∈ old.map (·.id)) :
    View.inheritance old n.hidden = View.inheritance old n := by
  have hid : n.hidden.id = n.id := rfl
  rw [View.inheritance, View.inheritance, hid]
  cases hfound : old.find? (·.id == n.id) with
  | none => exact absurd hn (find?_id_eq_none_iff.mp hfound)
  | some o => rfl

/-- A new node is not visible. -/
theorem inheritance_eq_hidden {old : List (Node α)} {n : Node α} (hn : n.id ∉ old.map (·.id)) :
    View.inheritance old n = n.hidden := by
  rw [View.inheritance, find?_id_eq_none_iff.mpr hn]
  rfl

/-- What a node says of where it was. -/
def Slot.before (s : Slot α) : String × Point α × Bool := (s.node.id, s.node.start, s.node.visible)

/-- What a node says of where it goes. -/
def Slot.after (s : Slot α) : String × Point α := (s.node.id, s.node.finish)

theorem before_aimed (new : List (Node α)) (s : Slot α) :
    Slot.before { s with node := aimed new s.node } = s.before := by
  simp only [Slot.before, aimed]
  split <;> rfl

theorem after_inheritance (old : List (Node α)) (s : Slot α) :
    Slot.after { s with node := View.inheritance old s.node } = s.after := by
  simp only [Slot.after, View.inheritance]
  split <;> rfl

section Exchange

variable {old new : Hierarchy α}

/-- What goes over from tree to tree for one position and id. -/
def exchanged (old new : Hierarchy α) (trees : Arena α × Arena α) (x : ℕ × String) : Arena α × Arena α :=
  (trees.1.modify x.1 fun s => { s with node := aimed new.descendants s.node },
    match Checked.find? new.index x.2 with
    | none => trees.2
    | some j => trees.2.modify j fun s => { s with node := View.inheritance old.descendants s.node })

/-- What one tree tells is not what it is told. -/
theorem exchange_site (hold : old.Distinct) (hnew : new.Distinct) {x : List ℕ × Spot α} (hx : x ∈ old.sites)
    {a b : Arena α} (ha : a.map Slot.before = old.arena.map Slot.before)
    (hb : b.map Slot.after = new.arena.map Slot.after) :
    Arena.exchange new.index (a, b) (old.place x.1, x.2.id) =
      .ok (exchanged old new (a, b) (old.place x.1, x.2.id)) := by
  obtain ⟨s, hs, hnode⟩ := get_site hx
  obtain ⟨o, ho, hbefore⟩ := Checked.exists_of_map_eq ha hs
  rw [Slot.before, Slot.before, hnode, Prod.mk.injEq, Prod.mk.injEq] at hbefore
  obtain ⟨hid, hstart, hvisible⟩ : o.node.id = x.2.id ∧ o.node.start = x.2.node.start ∧
      o.node.visible = x.2.node.visible := hbefore
  rw [Arena.exchange, exchanged]
  cases hfound : Checked.find? new.index x.2.id with
  | none =>
    have hnone : new.descendants.find? (·.id == o.node.id) = none := by
      rw [hid]
      exact find?_id_eq_none_iff.mpr (find?_index_eq_none hnew hfound)
    have hsame : a.modify (old.place x.1) (fun s => { s with node := aimed new.descendants s.node }) = a := by
      rw [Checked.modify_congr (g := id) ho, List.modify_id]
      rw [aimed, hnone]
      rfl
    simp only [hsame]
    rfl
  | some j =>
    obtain ⟨y, hy, hyid, rfl⟩ := exists_of_find?_index hnew hfound
    obtain ⟨t, ht, hynode⟩ := get_site hy
    obtain ⟨n, hn, hafter⟩ := Checked.exists_of_map_eq hb ht
    rw [Slot.after, Slot.after, hynode, Prod.mk.injEq] at hafter
    obtain ⟨hnid, hfinish⟩ : n.node.id = y.2.id ∧ n.node.finish = y.2.node.finish := hafter
    have hgoal : new.descendants.find? (·.id == o.node.id) = some y.2.node := by
      rw [hid, ← hyid, find?_descendants hnew hy]
    have haimed : aimed new.descendants o.node = { o.node with finish := n.node.finish } := by
      rw [aimed, hgoal, hfinish]
    have horigin : old.descendants.find? (·.id == n.node.id) = some x.2.node := by
      rw [hnid, hyid, find?_descendants hold hx]
    have hheir : View.inheritance old.descendants n.node =
        { n.node with start := o.node.start, visible := o.node.visible } := by
      rw [View.inheritance, horigin, hstart, hvisible]
    simp only [Checked.get_eq ho, Checked.get_eq hn, Checked.ok_bind, Arena.stamp,
      Checked.modify_eq (List.getElem?_eq_some_iff.mp ho).1, Checked.modify_eq (List.getElem?_eq_some_iff.mp hn).1]
    refine congrArg Except.ok (Prod.ext ?_ ?_)
    · exact Checked.modify_congr ho (by rw [haimed])
    · exact Checked.modify_congr hn (by rw [hheir])

/-- The two trees are changed independently. -/
theorem foldl_exchanged (l : List (ℕ × String)) (a b : Arena α) :
    l.foldl (exchanged old new) (a, b) =
      ((l.map (·.1)).foldl (fun a i => a.modify i fun s => { s with node := aimed new.descendants s.node }) a,
        ((l.map (·.2)).filterMap (Checked.find? new.index)).foldl (fun b j =>
          b.modify j fun s => { s with node := View.inheritance old.descendants s.node }) b) := by
  induction l generalizing a b with
  | nil => rfl
  | cons x l ih =>
    rw [List.foldl_cons, exchanged, ih, List.map_cons, List.map_cons, List.foldl_cons, List.filterMap_cons]
    cases Checked.find? new.index x.2 <;> rfl

/-- The new nodes that are found by an id of an old one. -/
theorem mem_filterMap_index (hnew : new.Distinct) {x : List ℕ × Spot α} (hx : x ∈ new.sites) :
    new.place x.1 ∈ old.ids.filterMap (Checked.find? new.index) ↔ x.2.id ∈ old.ids := by
  rw [List.mem_filterMap]
  constructor
  · rintro ⟨id, hid, hfound⟩
    obtain ⟨y, hy, rfl, hplace⟩ := exists_of_find?_index hnew hfound
    rwa [site_inj hx hy hplace.symm]
  · exact fun hid => ⟨_, hid, find?_site hnew hx⟩

/-- No new node is found twice. -/
theorem nodup_filterMap_index (hold : old.Distinct) (hnew : new.Distinct) :
    (old.ids.filterMap (Checked.find? new.index)).Nodup := by
  refine List.Nodup.filterMap ?_ (ids_nodup hold)
  intro id id' i hi hi'
  obtain ⟨x, hx, rfl, hplace⟩ := exists_of_find?_index hnew hi
  obtain ⟨y, hy, rfl, hplace'⟩ := exists_of_find?_index hnew hi'
  rw [site_inj hx hy (hplace.trans hplace'.symm)]

/-- Nothing goes wrong while the places go over: what each tree tells stays as it was, so each node on show tells and
is told what it would be by itself. -/
theorem foldlM_exchange (hold : old.Distinct) (hnew : new.Distinct) {a b : Arena α}
    (ha : a.map Slot.before = old.arena.map Slot.before) (hb : b.map Slot.after = new.arena.map Slot.after) :
    (old.onShow.breadthFirst.zip old.ids).foldlM (Arena.exchange new.index) (a, b) =
      .ok ((old.onShow.breadthFirst.zip old.ids).foldl (exchanged old new) (a, b)) := by
  have hloop := Checked.foldlM_eq
    (P := fun t : Arena α × Arena α => t.1.map Slot.before = old.arena.map Slot.before ∧
      t.2.map Slot.after = new.arena.map Slot.after)
    (f := Arena.exchange new.index) (g := exchanged old new) (l := old.onShow.breadthFirst.zip old.ids)
    (s := (a, b)) ⟨ha, hb⟩
  refine (hloop ?_).1
  rw [onShow_eq_sites, ids_eq_sites, List.zip_map']
  rintro _ hmem ⟨a, b⟩ ⟨ha, hb⟩
  obtain ⟨x, hx, rfl⟩ := List.mem_map.mp hmem
  refine ⟨exchange_site hold hnew hx ha hb, ?_, ?_⟩
  · exact (Tidy.map_modify_of_keeps (before_aimed new.descendants) a _).trans ha
  · rw [exchanged]
    cases Checked.find? new.index x.2.id with
    | none => exact hb
    | some j => exact (Tidy.map_modify_of_keeps (after_inheritance old.descendants) b j).trans hb

/-- A hidden node tells where it goes. -/
theorem map_after_hidden (h : Hierarchy α) :
    (h.updateShown Node.hidden).arena.map Slot.after = h.arena.map Slot.after := by
  rw [arena_updateShown stamps_hidden]
  apply List.ext_getElem?
  intro i
  rw [List.getElem?_map, List.getElem?_mapIdx, List.getElem?_map, Option.map_map]
  congr 1
  funext s
  rw [Function.comp_apply]
  split <;> rfl

/-- Hiding all new nodes and then handing over to those that are found is `View.inherit`. -/
theorem inherit_arena (hold : old.Distinct) (hnew : new.Distinct) :
    (old.ids.filterMap (Checked.find? new.index)).foldl
        (fun b j => b.modify j fun s => { s with node := View.inheritance old.descendants s.node })
        (new.updateShown Node.hidden).arena = (View.inherit old.descendants new).arena := by
  have hinherit : View.inherit old.descendants new = new.updateShown (View.inheritance old.descendants) := rfl
  rw [Checked.foldl_modify (nodup_filterMap_index hold hnew), arena_updateShown stamps_hidden, List.mapIdx_mapIdx,
    hinherit, arena_updateShown (stamps_inheritance _)]
  refine mapIdx_congr ?_ ?_
  · intro x hx s hs
    have hid : s.node.id ∈ old.descendants.map (·.id) ↔ x.2.id ∈ old.ids := by
      rw [hs]
      rfl
    simp only [Function.comp_apply, place_mem_onShow hx, if_true, mem_filterMap_index hnew hx, ← hid]
    by_cases hkept : s.node.id ∈ old.descendants.map (·.id)
    · rw [if_pos hkept, inheritance_hidden hkept]
    · rw [if_neg hkept, inheritance_eq_hidden hkept]
  · intro i hi s
    have hout : i ∉ old.ids.filterMap (Checked.find? new.index) := by
      rw [List.mem_filterMap]
      rintro ⟨id, -, hfound⟩
      obtain ⟨x, hx, -, rfl⟩ := exists_of_find?_index hnew hfound
      exact hi (place_mem_onShow hx)
    simp only [Function.comp_apply, hi, hout, if_false]

/-- **What goes over** from tree to tree in arrays. -/
theorem exchange_arena (hold : old.Distinct) (hnew : new.Distinct) :
    (old.onShow.breadthFirst.zip old.ids).foldlM (Arena.exchange new.index)
        (old.arena, (new.updateShown Node.hidden).arena) =
      .ok ((old.updateShown (aimed new.descendants)).arena, (View.inherit old.descendants new).arena) := by
  have hfst : (old.onShow.breadthFirst.zip old.ids).map (·.1) = old.onShow.breadthFirst := by
    rw [onShow_eq_sites, ids_eq_sites, List.zip_map', List.map_map]
    rfl
  have hsnd : (old.onShow.breadthFirst.zip old.ids).map (·.2) = old.ids := by
    rw [onShow_eq_sites, ids_eq_sites, List.zip_map', List.map_map]
    rfl
  rw [foldlM_exchange hold hnew rfl (map_after_hidden new), foldl_exchanged, hfst, hsnd,
    Checked.foldl_modify old.nodup_onShow, inherit_arena hold hnew, arena_updateShown (stamps_aimed _)]

end Exchange

/-! ### What goes -/

theorem bequest_eq_aimed {new : List (Node α)} {o : Node α} (ho : o.id ∈ new.map (·.id)) :
    View.bequest new o = aimed new o := by
  rw [View.bequest, aimed]
  cases hfound : new.find? (·.id == o.id) with
  | none => exact absurd ho (find?_id_eq_none_iff.mp hfound)
  | some n => rfl

theorem bequest_eq_hidden {new : List (Node α)} {o : Node α} (ho : o.id ∉ new.map (·.id)) :
    View.bequest new o = (aimed new o).hidden := by
  rw [View.bequest, aimed, find?_id_eq_none_iff.mpr ho]
  rfl

theorem filter_ids (h : Hierarchy α) (p : String → Bool) :
    h.ids.filter p = (h.sites.filter fun x => p x.2.id).map (·.2.id) := by
  rw [ids_eq_sites, List.filter_map]
  rfl

/-- The nodes on show that are not among the new ones, level by level. -/
def gone (old : Hierarchy α) (new : List (Node α)) : List (List ℕ × Spot α) :=
  old.sites.filter fun x => !(new.map (·.id)).contains x.2.id

theorem place_mem_gone_iff {old : Hierarchy α} {new : List (Node α)} {x : List ℕ × Spot α} (hx : x ∈ old.sites) :
    old.place x.1 ∈ (old.gone new).map (fun x => old.place x.1) ↔ x.2.id ∉ new.map (·.id) := by
  rw [List.mem_map]
  constructor
  · rintro ⟨y, hy, hplace⟩
    obtain ⟨hsite, hy⟩ := List.mem_filter.mp hy
    rw [← site_inj hsite hx hplace]
    simpa using hy
  · exact fun hout => ⟨x, List.mem_filter.mpr ⟨hx, by simpa using hout⟩, rfl⟩

theorem places_gone_sublist (old : Hierarchy α) (new : List (Node α)) :
    ((old.gone new).map fun x => old.place x.1).Sublist old.onShow.breadthFirst := by
  rw [onShow_eq_sites]
  exact List.filter_sublist.map _

/-- Telling all nodes where they go and then hiding those that go is `View.bequeath`. -/
theorem bequeath_arena (old : Hierarchy α) (new : List (Node α)) :
    (old.gone new).foldl (fun a x => a.modify (old.place x.1) fun s => { s with node := s.node.hidden })
      (old.updateShown (aimed new)).arena = (View.bequeath new old).arena := by
  have hsub := places_gone_sublist old new
  have hmodify : (old.gone new).foldl (fun a x => a.modify (old.place x.1) fun s => { s with node := s.node.hidden })
      (old.updateShown (aimed new)).arena = ((old.gone new).map fun x => old.place x.1).foldl
        (fun a i => a.modify i fun s => { s with node := s.node.hidden }) (old.updateShown (aimed new)).arena := by
    rw [List.foldl_map]
  have hbequeath : View.bequeath new old = old.updateShown (View.bequest new) := rfl
  rw [hmodify, Checked.foldl_modify (hsub.nodup old.nodup_onShow), arena_updateShown (stamps_aimed new), hbequeath,
    arena_updateShown (stamps_bequest new), List.mapIdx_mapIdx]
  refine mapIdx_congr ?_ ?_
  · intro x hx s hs
    simp only [Function.comp_apply, place_mem_onShow hx, if_true, place_mem_gone_iff hx, ← hs]
    by_cases hkept : s.node.id ∈ new.map (·.id)
    · rw [if_neg (not_not_intro hkept), bequest_eq_aimed hkept]
    · rw [if_pos hkept, bequest_eq_hidden hkept]
  · intro i hi s
    have hout : i ∉ (old.gone new).map fun x => old.place x.1 := fun hmem => hi (hsub.subset hmem)
    simp only [Function.comp_apply, hi, hout, if_false]

/-- The nodes that go are hidden. -/
theorem foldlM_hidden {old : Hierarchy α} (hold : old.Distinct) (new : List (Node α)) :
    (old.ids.filter fun id => !(new.map (·.id)).contains id).foldlM (fun a id => do
        let i ← Checked.lookup old.index id
        Arena.stamp Node.hidden a i) (old.updateShown (aimed new)).arena = .ok (View.bequeath new old).arena := by
  have hlength : (old.updateShown (aimed new)).arena.length = old.arena.length := by
    rw [arena_updateShown (stamps_aimed new), List.length_mapIdx]
  have hloop := Checked.foldlM_eq (P := fun a : Arena α => a.length = old.arena.length) (l := old.gone new)
    (f := fun a x => do
      let i ← Checked.lookup old.index x.2.id
      Arena.stamp Node.hidden a i)
    (g := fun a x => a.modify (old.place x.1) fun s => { s with node := s.node.hidden }) hlength (by
      intro x hx a ha
      have hsite := (List.mem_filter.mp hx).1
      obtain ⟨s, hs, -⟩ := get_site hsite
      refine ⟨?_, by rw [List.length_modify, ha]⟩
      rw [lookup_site hold hsite, Checked.ok_bind]
      exact Checked.modify_eq (ha ▸ (List.getElem?_eq_some_iff.mp hs).1) _)
  rw [filter_ids, List.foldlM_map, ← gone, hloop.1, bequeath_arena]

/-- **What goes** is hidden, and all of it has a target. -/
theorem retire_arena {old : Hierarchy α} (hold : old.Distinct) {new : List (Node α)} {spots : List (Spot α)}
    (hspots : spots.map (·.id) = new.map (·.id)) :
    (old.updateShown (aimed new)).arena.retire old.index (old.ids.filter fun id => !(new.map (·.id)).contains id) =
      .ok ((View.bequeath new old).arena, View.exitTargets (View.bequeath new old).spots spots) := by
  let left := View.bequeath new old
  have hstamps := stamps_bequest new
  have hleft : left.Distinct := hstamps.distinct hold
  have hindex : old.index = left.index := (hstamps.index old).symm
  have hids : old.ids = left.ids := (hstamps.ids old).symm
  have hloop := foldlM_hidden hold new
  rw [Arena.retire]
  show (List.foldlM (fun a id => do
      let i ← Checked.lookup old.index id
      Arena.stamp Node.hidden a i) _ _ >>= _) = _
  rw [hloop, Checked.ok_bind, hids, filter_ids, Checked.mapM_eq (g := fun x => (x.2.id, x.2.anchor.finish)),
    Checked.ok_bind]
  · refine congrArg (fun l => Except.ok (_, l)) ?_
    rw [View.exitTargets, ← map_snd_sites, List.filter_map, List.map_map, hspots]
    rfl
  · intro x hx
    have hsite := (List.mem_filter.mp hx).1
    rw [hindex, lookup_site hleft hsite, Checked.ok_bind, anchor_arena hsite]
    rfl

end Hierarchy

end FlowTree
