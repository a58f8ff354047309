import FlowTree.Proofs.Arena.Marks
import FlowTree.Proofs.Arena.Settling

/-!
# Placing in arrays

* **`Arena.layout`** finds the outermost nodes, stretches the tidy tree over the canvas and stores the place of every
  node on show.
* **`Hierarchy.breadth_shown`** says that the coordinate of every node on show is found.
* **`Hierarchy.layout_arena`** says that nothing goes wrong and that the result is the array of the placed hierarchy.
-/

namespace FlowTree

variable {α : Type} [Scalar α]

namespace Arena

/-- The outermost positions so far and one more. -/
def outermost (breadth : List α) (best : ℕ × ℕ) (i : ℕ) : Checked (ℕ × ℕ) := do
  let b ← Checked.get breadth i
  let left ← Checked.get breadth best.1
  let right ← Checked.get breadth best.2
  return (if Scalar.lt b left then i else best.1, if Scalar.lt right b then i else best.2)

/-- Half the least distance of the two outermost nodes, one unit if they are the same node. -/
def clearance (a : Arena α) (left right : ℕ) : Checked α := do
  if left == right then return Scalar.one else do
    let l ← Checked.get a left
    let r ← Checked.get a right
    return (if l.parent == r.parent then Tidy.siblingGap else Tidy.cousinGap) / Scalar.two

/-- Stores the place of the node at a position. -/
def put (p : Placement α) (breadth : List α) (top : ℕ) (a : Arena α) (i : ℕ) : Checked (Arena α) := do
  let s ← Checked.get a i
  let depth ← Checked.minus s.depth top
  let b ← Checked.get breadth i
  Checked.modify a i fun s => { s with node := { s.node with
    finish := ⟨Scalar.ofNat depth * p.width / p.levels, (b + p.shift) * p.unit⟩ } }

/-- Stores the place of every node on show. -/
def layout (canvas : Canvas α) (a : Arena α) : Checked (Arena α) := do
  let breadth ← Tidy.Net.breadths a.below a.length
  let order ← a.descendants
  match order.head? with
  | none => return a
  | some root => do
    let (left, right) ← order.foldlM (outermost breadth) (root, root)
    let s ← a.clearance left right
    let l ← Checked.get breadth left
    let shift := s - l
    let r ← Checked.get breadth right
    let top ← Checked.get a root
    let height ← a.height
    order.foldlM (put { shift := shift
                        unit := canvas.treeHeight / (r + s + shift)
                        width := canvas.treeWidth
                        levels := Scalar.ofNat (height + 1) } breadth top.depth) a

end Arena

namespace Hierarchy

/-! ### Coordinates -/

omit [Scalar α] in
theorem at?_onShow {h : Hierarchy α} {path : List ℕ} {t : Tree (Node α)} (hat : h.shown.at? path = some t) :
    ∃ u, h.onShow.at? path = some u ∧ u.value = h.place path := by
  refine ⟨(t.locatedAt path).map fun x => h.place x.1, ?_, ?_⟩
  · rw [onShow, Tree.at?_map, Tree.located_eq, Tree.at?_locatedAt, hat, List.nil_append]
    rfl
  · rw [Tree.value_map, Tree.value_locatedAt]

/-- The coordinates of the nodes on show, each with its path. -/
def marks (h : Hierarchy α) : List (Placement.Mark α) := (Tidy.breadths h.shown : Tree α).located.breadthFirst

theorem onShow_eq_marks (h : Hierarchy α) : h.onShow.breadthFirst = h.marks.map fun m => h.place m.1 := by
  have hpaths := congrArg (List.map h.place) (Tree.paths_eq_of_shape (Tidy.shape_breadths (α := α) h.shown))
  rw [List.map_map, List.map_map] at hpaths
  exact (breadthFirst_onShow h).trans hpaths.symm

/-- The nodes on show have coordinates. -/
theorem isSome_breadths (h : Hierarchy α) (path : List ℕ) :
    ((Tidy.breadths h.shown : Tree α).at? path).isSome = (h.shown.at? path).isSome :=
  Tree.isSome_at?_of_shape (Tidy.shape_breadths h.shown) path

theorem height_breadths (h : Hierarchy α) : (Tidy.breadths h.shown : Tree α).height = h.height := by
  rw [height, ← Tidy.height_shape h.shown, ← Tidy.shape_breadths (α := α), Tidy.height_shape]

/-- A coordinate belongs to a node on show. -/
theorem exists_of_mem_marks {h : Hierarchy α} {m : Placement.Mark α} (hm : m ∈ h.marks) :
    (∃ t, h.shown.at? m.1 = some t) ∧ ∃ u, (Tidy.breadths h.shown : Tree α).at? m.1 = some u ∧ u.value = m.2 := by
  obtain ⟨u, hu, hvalue⟩ := Tree.mem_located_breadthFirst_iff.mp hm
  refine ⟨Option.isSome_iff_exists.mp ?_, u, hu, hvalue⟩
  rw [← isSome_breadths, hu, Option.isSome_some]

/-- **The coordinates are found** at the positions of the nodes on show. -/
theorem breadth_shown (h : Hierarchy α) :
    ∃ breadth : List α, Tidy.Net.breadths h.arena.below h.arena.length = .ok breadth ∧
      ∀ m ∈ h.marks, breadth[h.place m.1]? = some m.2 := by
  have hperm := h.onShow.breadthFirst_perm
  have hlt : ∀ i ∈ h.onShow.preorder, i < h.arena.length := by
    intro i hi
    rw [← hperm.mem_iff] at hi
    obtain ⟨path, t, hat, rfl⟩ := mem_onShow_iff.mp hi
    obtain ⟨n, cs⟩ := t
    obtain ⟨ds, -, hget, -⟩ := getElem?_shown hat
    exact (List.getElem?_eq_some_iff.mp hget).1
  obtain ⟨breadth, hrun, -, hbreadth⟩ := Tidy.Net.breadths_eq (α := α) (hangs_locatedAt (h := h) rfl) h.value_onShow
    h.size_onShow_le (hperm.nodup_iff.mp h.nodup_onShow) hlt
  have hshape : Tidy.shape h.onShow = Tidy.shape h.shown := by
    rw [onShow, Tidy.shape_map, Tree.located_eq, ← Tidy.shape_map (·.2), Tree.map_snd_locatedAt]
  refine ⟨breadth, hrun, fun m hm => ?_⟩
  obtain ⟨⟨t, ht⟩, u, hu, hvalue⟩ := exists_of_mem_marks hm
  obtain ⟨w, hw, hplace⟩ := at?_onShow ht
  rw [← Tidy.breadths_congr hshape] at hu
  rw [← hplace, hbreadth m.1 w u hw hu, hvalue]

/-! ### The outermost nodes -/

/-- The outermost nodes are found. -/
theorem foldlM_outermost {h : Hierarchy α} {breadth : List α}
    (hbreadth : ∀ m ∈ h.marks, breadth[h.place m.1]? = some m.2)
    {marks : List (Placement.Mark α)} (hmarks : ∀ m ∈ marks, m ∈ h.marks) {left right : Placement.Mark α}
    (hleft : left ∈ h.marks) (hright : right ∈ h.marks) :
    (marks.map fun m => h.place m.1).foldlM (Arena.outermost breadth) (h.place left.1, h.place right.1) =
        .ok (h.place (Placement.extreme Scalar.lt left marks).1,
          h.place (Placement.extreme (fun a b => Scalar.lt b a) right marks).1) ∧
      Placement.extreme Scalar.lt left marks ∈ h.marks ∧
        Placement.extreme (fun a b => Scalar.lt b a) right marks ∈ h.marks := by
  induction marks generalizing left right with
  | nil => exact ⟨rfl, hleft, hright⟩
  | cons m marks ih =>
    have hm := hmarks m List.mem_cons_self
    let left' := if Scalar.lt m.2 left.2 then m else left
    let right' := if Scalar.lt right.2 m.2 then m else right
    have hleft' : left' ∈ h.marks := by
      simp only [left']
      split
      · exact hm
      · exact hleft
    have hright' : right' ∈ h.marks := by
      simp only [right']
      split
      · exact hm
      · exact hright
    have hrest := ih (fun x hx => hmarks x (List.mem_cons_of_mem m hx)) hleft' hright'
    have hstep : Arena.outermost breadth (h.place left.1, h.place right.1) (h.place m.1) =
        .ok (h.place left'.1, h.place right'.1) := by
      simp only [Arena.outermost, Checked.get_eq (hbreadth m hm), Checked.get_eq (hbreadth left hleft),
        Checked.get_eq (hbreadth right hright), Checked.ok_bind, left', right']
      split <;> split <;> rfl
    rw [List.map_cons, List.foldlM_cons, hstep, Checked.ok_bind]
    exact hrest

omit [Scalar α] in
theorem parent_slotOf (h : Hierarchy α) (path : List ℕ) (n : Node α) (count : ℕ) :
    (h.slotOf (path, n, count)).plain.parent = (Placement.parentPath path).map h.place := by
  rw [Slot.plain, slotOf, Placement.parentPath]
  show (if path.isEmpty then none else some (h.place path.dropLast)) = _
  split <;> rfl

omit [Scalar α] in
theorem exists_at?_of_parentPath {h : Hierarchy α} {path p : List ℕ} {t : Tree (Node α)}
    (hat : h.tree.at? path = some t) (hp : Placement.parentPath path = some p) : ∃ s, h.tree.at? p = some s := by
  rw [Placement.parentPath] at hp
  split at hp
  · cases hp
  · obtain rfl := Option.some.inj hp
    exact Tree.exists_at?_dropLast hat

/-- Their distance is that of their paths. -/
theorem clearance_arena {h : Hierarchy α} {left right : Placement.Mark α} (hleft : left ∈ h.marks)
    (hright : right ∈ h.marks) :
    h.arena.clearance (h.place left.1) (h.place right.1) = .ok (Placement.clearance left right) := by
  obtain ⟨⟨⟨n, cs⟩, hl⟩, -⟩ := exists_of_mem_marks hleft
  obtain ⟨⟨⟨m, ds⟩, hr⟩, -⟩ := exists_of_mem_marks hright
  obtain ⟨cs', hltree, hlget, -⟩ := getElem?_shown hl
  obtain ⟨ds', hrtree, hrget, -⟩ := getElem?_shown hr
  rw [Arena.clearance, Placement.clearance]
  by_cases hsame : left.1 = right.1
  · rw [hsame, beq_self_eq_true, beq_self_eq_true, if_pos rfl, if_pos rfl]
    rfl
  · have hne : h.place left.1 ≠ h.place right.1 := fun heq => hsame (place_inj hltree heq)
    rw [beq_false_of_ne hne, beq_false_of_ne hsame, if_neg Bool.false_ne_true, if_neg Bool.false_ne_true,
      Checked.get_eq hlget, Checked.get_eq hrget, Checked.ok_bind, Checked.ok_bind]
    rw [parent_slotOf, parent_slotOf]
    cases hp : Placement.parentPath left.1 with
    | none => cases Placement.parentPath right.1 <;> rfl
    | some p =>
      cases hq : Placement.parentPath right.1 with
      | none => rfl
      | some q =>
        obtain ⟨u, hu⟩ := exists_at?_of_parentPath hltree hp
        have hinj : h.place p = h.place q ↔ p = q := ⟨place_inj hu, congrArg h.place⟩
        by_cases hpq : p = q
        · subst hpq
          simp
        · simp [hpq, hinj]

/-! ### All places -/

omit [Scalar α] in
theorem getElem?_moveAllTo (cs : List (Tree (Node α))) (ps : List (Tree (Point α))) (i : ℕ) :
    (moveAllTo cs ps)[i]? = cs[i]?.map fun c => (ps[i]?.map (moveTo c)).getD c := by
  induction cs generalizing ps i with
  | nil => simp [moveAllTo]
  | cons c cs ih =>
    cases ps with
    | nil => simp [moveAllTo]
    | cons p ps =>
      cases i with
      | zero => rfl
      | succ i => exact ih ps i

omit [Scalar α] in
/-- What is at the end of a path has been moved if the points have something there. -/
theorem at?_moveTo (t : Tree (Node α)) (ps : Tree (Point α)) (path : List ℕ) :
    (moveTo t ps).at? path = (t.at? path).map fun s => ((ps.at? path).map (moveTo s)).getD s := by
  induction path generalizing t ps with
  | nil => rfl
  | cons i path ih =>
    obtain ⟨n, cs⟩ := t
    obtain ⟨p, ps⟩ := ps
    rw [moveTo, Tree.at?_cons, Tree.at?_cons, Tree.at?_cons, getElem?_moveAllTo]
    cases cs[i]? with
    | none => rfl
    | some c =>
      cases ps[i]? with
      | none => simp
      | some p => exact ih c p

/-- The slot with its place stored. -/
def Slot.stamped (p : Placement α) (breadth : List α) (i : ℕ) (s : Slot α) : Slot α :=
  { s with node := { s.node with
    finish := ⟨Scalar.ofNat s.depth * p.width / p.levels, ((breadth[i]?).getD Scalar.zero + p.shift) * p.unit⟩ } }

/-- Placing changes the nodes on show at their positions. -/
theorem arena_layout {h : Hierarchy α} {canvas : Canvas α} {breadth : List α}
    (hbreadth : ∀ m ∈ h.marks, breadth[h.place m.1]? = some m.2) :
    (h.layout canvas).arena = h.arena.mapIdx fun i s =>
      if i ∈ h.onShow.breadthFirst then s.stamped (Placement.of canvas (Tidy.breadths h.shown)) breadth i else s := by
  have hlisting : (h.layout canvas).listing = h.listing := rfl
  refine arena_of_frame hlisting (frame_layout h canvas) ?_
  intro path n cs n' cs' hat hat' s hs hdepth
  have hshown := place_mem_onShow_iff hat
  have hmoved : (h.layout canvas).tree.at? path = _ := at?_moveTo h.tree _ path
  rw [hat', hat, Option.map_some, Placement.points, Tree.at?_map, Tree.located_eq, Tree.at?_locatedAt,
    List.nil_append] at hmoved
  rw [← isSome_breadths] at hshown
  cases hu : (Tidy.breadths h.shown : Tree α).at? path with
  | none =>
    rw [hu] at hmoved hshown
    cases hmoved
    rw [if_neg fun hmem => absurd (hshown.mp hmem) Bool.false_ne_true, ← hs]
  | some u =>
    obtain ⟨w, us⟩ := u
    have hmark : (path, w) ∈ h.marks := Tree.mem_located_breadthFirst_iff.mpr ⟨_, hu, rfl⟩
    rw [hu] at hmoved hshown
    rw [Option.map_some, Option.map_some, Option.map_some, Option.getD_some, Tree.locatedAt_node, Tree.map_node, moveTo]
      at hmoved
    cases hmoved
    rw [if_pos (hshown.mpr rfl), Slot.stamped, hbreadth _ hmark, hs, hdepth]
    rfl

/-- **Placing in an array** stores the place of every node on show. -/
theorem layout_arena (h : Hierarchy α) (canvas : Canvas α) : h.arena.layout canvas = .ok (h.layout canvas).arena := by
  obtain ⟨breadth, hrun, hbreadth⟩ := h.breadth_shown
  let t : Tree α := Tidy.breadths h.shown
  let p := Placement.of canvas t
  have htop : (([], t.value) : Placement.Mark α) ∈ h.marks :=
    Tree.mem_located_breadthFirst_iff.mpr ⟨t, rfl, rfl⟩
  obtain ⟨hends, hleft, hright⟩ := foldlM_outermost hbreadth (fun _ hm => hm) htop htop
  obtain ⟨⟨n, cs⟩, hroot⟩ : ∃ s, h.shown.at? [] = some s := ⟨_, rfl⟩
  obtain ⟨ds, -, hget, -⟩ := getElem?_shown hroot
  have hhead : h.onShow.breadthFirst.head? = some (h.place []) := by
    rw [Tree.breadthFirst_eq_cons, List.head?_cons, value_onShow, place_nil]
  have hheight : h.height = t.height := h.height_breadths.symm
  -- one step of the loop
  have hstep : ∀ i ∈ h.onShow.breadthFirst, ∀ a : Arena α, a.map (·.depth) = h.arena.map (·.depth) →
      Arena.put p breadth 0 a i = .ok (a.modify i (Slot.stamped p breadth i)) ∧
        (a.modify i (Slot.stamped p breadth i)).map (·.depth) = h.arena.map (·.depth) := by
    intro i hi a ha
    rw [onShow_eq_marks] at hi
    obtain ⟨m, hm, rfl⟩ := List.mem_map.mp hi
    obtain ⟨⟨⟨n, cs⟩, hat⟩, -⟩ := exists_of_mem_marks hm
    obtain ⟨ds, -, hslot, -⟩ := getElem?_shown hat
    obtain ⟨s, hs, hsdepth⟩ := Checked.exists_of_map_eq ha hslot
    have hkeeps : ∀ s : Slot α, (s.stamped p breadth (h.place m.1)).depth = s.depth := fun _ => rfl
    refine ⟨?_, (Tidy.map_modify_of_keeps hkeeps a _).trans ha⟩
    simp only [Arena.put, Checked.get_eq hs, Checked.ok_bind, Checked.minus_eq (Nat.zero_le _),
      Checked.get_eq (hbreadth m hm), Checked.modify_eq (List.getElem?_eq_some_iff.mp hs).1, Nat.sub_zero]
    refine congrArg Except.ok (Checked.modify_congr hs ?_)
    rw [Slot.stamped, hbreadth m hm]
    rfl
  have hloop := (Checked.foldlM_eq (P := fun a : Arena α => a.map (·.depth) = h.arena.map (·.depth)) rfl hstep).1
  rw [Checked.foldl_modify h.nodup_onShow, ← arena_layout hbreadth] at hloop
  rw [← onShow_eq_marks] at hends
  have hdepth : (h.slotOf ([], n, ds.length)).plain.depth = 0 := rfl
  simp only [Arena.layout, hrun, descendants_arena, hhead, Checked.ok_bind, hends, clearance_arena hleft hright,
    Checked.get_eq (hbreadth _ hleft), Checked.get_eq (hbreadth _ hright), Checked.get_eq hget, height_arena, hheight]
  exact hloop

end Hierarchy

end FlowTree
