import FlowTree.Proofs.Hierarchy.Bounds
import FlowTree.Proofs.Tidy.Mirror

/-!
# Drawings of mirror images

Ties between outermost nodes go to the topmost one, of which each level has at most one, so the two outermost
nodes of a mirror image are the counterparts of those of the tree, and as far apart.

* **`Placement.Outermost`** says what the walk along all nodes finds, whatever the order within a level.
* **`Placement.points_turned`** says where the nodes of a mirror image are placed.
* **`Hierarchy.layout_mirror`** says that the drawing of a mirror image is the drawing upside down.
-/

namespace FlowTree

open Tidy (turned Roomy shape)

namespace Placement

/-! ### Outermost nodes -/

/-- A test for a strict linear order. -/
structure Strict (before : ℚ → ℚ → Bool) : Prop where
  asymm : ∀ a b, before a b = true → before b a = false
  negative : ∀ a b c, before a b = false → before b c = false → before a c = false
  total : ∀ a b, before a b = false → before b a = false → a = b

theorem strict_lt : Strict (Scalar.lt : ℚ → ℚ → Bool) where
  asymm a b := by simpa using le_of_lt
  negative a b c := by simpa using fun hba hcb => le_trans hcb hba
  total a b := by simpa using fun hba hab => le_antisymm hab hba

theorem strict_gt : Strict fun a b : ℚ => Scalar.lt b a where
  asymm a b := by simpa using le_of_lt
  negative a b c := by simpa using fun hab hbc => le_trans hab hbc
  total a b := by simpa using fun hab hba => le_antisymm hab hba

variable {before : ℚ → ℚ → Bool} {t : Tree ℚ} {m m' : Mark ℚ}

/-- No place comes before that of the node, and no node above it has the same place. -/
structure Outermost (before : ℚ → ℚ → Bool) (t : Tree ℚ) (m : Mark ℚ) : Prop where
  mem : m ∈ t.located.breadthFirst
  first : ∀ m' ∈ t.located.breadthFirst, before m'.2 m.2 = false
  topmost : ∀ m' ∈ t.located.breadthFirst, m'.2 = m.2 → m.1.length ≤ m'.1.length

theorem extreme_mem (before : ℚ → ℚ → Bool) (first : Mark ℚ) (marks : List (Mark ℚ)) :
    extreme before first marks ∈ first :: marks := by
  induction marks generalizing first with
  | nil => exact List.mem_singleton_self _
  | cons x marks ih =>
    have hrest := ih (if before x.2 first.2 then x else first)
    rw [extreme, List.foldl_cons, ← extreme]
    rcases List.mem_cons.mp hrest with heq | hmem
    · rw [heq]
      split <;> simp
    · exact List.mem_cons_of_mem _ (List.mem_cons_of_mem _ hmem)

/-- Of several marks at one place the first one is found. -/
theorem length_extreme_le (hstrict : Strict before) {first : Mark ℚ} {marks : List (Mark ℚ)}
    (hsorted : (first :: marks).Pairwise fun a b => a.1.length ≤ b.1.length) :
    ∀ m ∈ first :: marks, before (extreme before first marks).2 m.2 = false →
      (extreme before first marks).1.length ≤ m.1.length := by
  induction marks generalizing first with
  | nil =>
    intro m hm _
    rw [List.mem_singleton.mp hm]
    exact le_rfl
  | cons x marks ih =>
    have hbest : ∀ b : Mark ℚ, b = first ∨ b = x →
        (b :: marks).Pairwise fun a b => a.1.length ≤ b.1.length := by
      rintro b (rfl | rfl)
      · exact hsorted.sublist ((List.sublist_cons_self x marks).cons_cons b)
      · exact hsorted.of_cons
    intro m hm
    rw [extreme, List.foldl_cons, ← extreme]
    have hrest := not_before_extreme before hstrict.asymm hstrict.negative
      (if before x.2 first.2 then x else first) marks
    by_cases hx : before x.2 first.2 = true
    · rw [if_pos hx] at hrest ⊢
      intro htie
      rcases List.mem_cons.mp hm with rfl | hm
      · -- the first mark does not tie with the extreme one, since the next one precedes it
        have hless := hstrict.negative _ _ _ (hrest x List.mem_cons_self) htie
        rw [hx] at hless
        cases hless
      · exact ih (hbest x (Or.inr rfl)) m hm htie
    · rw [if_neg hx] at hrest ⊢
      rw [Bool.not_eq_true] at hx
      intro htie
      rcases List.mem_cons.mp hm with rfl | hm
      · exact ih (hbest m (Or.inl rfl)) m List.mem_cons_self htie
      · rcases List.mem_cons.mp hm with rfl | hm
        · have hlength := List.rel_of_pairwise_cons hsorted List.mem_cons_self
          exact (ih (hbest first (Or.inl rfl)) first List.mem_cons_self
            (hstrict.negative _ _ _ htie hx)).trans hlength
        · exact ih (hbest first (Or.inl rfl)) m (List.mem_cons_of_mem _ hm) htie

/-- The nodes come level by level. -/
theorem sorted_located (t : Tree ℚ) :
    t.located.breadthFirst.Pairwise fun a b => a.1.length ≤ b.1.length := by
  have hlength : ∀ (k : ℕ) (l : List (Mark ℚ)), t.located.levels[k]? = some l → ∀ m ∈ l, m.1.length = k := by
    intro k l hl m hm
    rw [← Tree.level_of_levels hl] at hm
    rw [Tree.length_of_mem_level hm, List.length_nil, zero_add]
  rw [Tree.breadthFirst, List.pairwise_flatten]
  constructor
  · intro l hl
    obtain ⟨k, hk⟩ := List.getElem?_of_mem hl
    exact List.pairwise_of_forall_mem_list fun a ha b hb => by rw [hlength k l hk a ha, hlength k l hk b hb]
  · rw [List.pairwise_iff_getElem]
    intro i j hi hj hij a ha b hb
    rw [hlength i _ (List.getElem?_eq_getElem hi) a ha, hlength j _ (List.getElem?_eq_getElem hj) b hb]
    exact hij.le

/-- **The walk along all nodes** finds an outermost one. -/
theorem outermost_extreme (hstrict : Strict before) (t : Tree ℚ) :
    Outermost before t (extreme before ([], t.value) t.located.breadthFirst) := by
  have hroot : (([], t.value) : Mark ℚ) ∈ t.located.breadthFirst := by
    rw [Tree.breadthFirst_eq_cons, Tree.located_eq, Tree.value_locatedAt]
    exact List.mem_cons_self
  have hfirst := not_before_extreme before hstrict.asymm hstrict.negative ([], t.value) t.located.breadthFirst
  refine ⟨?_, fun m hm => hfirst m (List.mem_cons_of_mem _ hm), fun m hm htie => ?_⟩
  · rcases List.mem_cons.mp (extreme_mem before ([], t.value) t.located.breadthFirst) with heq | hmem
    · rw [heq]
      exact hroot
    · exact hmem
  · have hsorted : (([], t.value) :: t.located.breadthFirst).Pairwise fun a b => a.1.length ≤ b.1.length :=
      (sorted_located t).cons fun _ _ => Nat.zero_le _
    have htied := hfirst m (List.mem_cons_of_mem _ hm)
    refine length_extreme_le hstrict hsorted m (List.mem_cons_of_mem _ hm) ?_
    rw [htie] at htied ⊢
    exact htied

/-- On each level of a tidy tree there is one node at most at each place. -/
theorem eq_of_mem (hroomy : Roomy t) (hm : m ∈ t.located.breadthFirst) (hm' : m' ∈ t.located.breadthFirst)
    (hlength : m.1.length = m'.1.length) (hplace : m.2 = m'.2) : m = m' := by
  have hall : t.located.breadthFirst.Pairwise fun a b => a.1.length = b.1.length → a.2 = b.2 → a = b := by
    refine hroomy.pairwise_breadthFirst.imp fun {a b} hapart hlength hplace => ?_
    have hone := (hapart hlength).1
    linarith
  refine hall.forall_of_forall_of_flip (fun _ _ _ _ => rfl) (hall.imp fun {a b} h => ?_) hm hm' hlength hplace
  exact fun hlength hplace => (h hlength.symm hplace.symm).symm

/-- There is only one outermost node on each side. -/
theorem Outermost.unique (hstrict : Strict before) (hroomy : Roomy t) (h : Outermost before t m)
    (h' : Outermost before t m') : m = m' := by
  have hplace : m.2 = m'.2 := hstrict.total _ _ (h'.first m h.mem) (h.first m' h'.mem)
  exact eq_of_mem hroomy h.mem h'.mem
    (Nat.le_antisymm (h.topmost m' h'.mem hplace.symm) (h'.topmost m h.mem hplace)) hplace

/-! ### Counterparts -/

/-- The counterpart of a node in the mirror image. -/
def turnedMark (t : Tree ℚ) (m : Mark ℚ) : Mark ℚ := (t.mirrorPath m.1, -m.2)

theorem located_turned (t : Tree ℚ) : (turned t).located = (t.located.map (turnedMark t)).mirror := by
  rw [turned, Tree.located_eq, Tree.locatedAt_map, ← Tree.located_eq, Tree.located_mirror, Tree.map_mirror,
    Tree.map_map]
  rfl

theorem mem_located_turned :
    m ∈ (turned t).located.breadthFirst ↔ ∃ m₀ ∈ t.located.breadthFirst, turnedMark t m₀ = m := by
  rw [located_turned, (Tree.breadthFirst_perm _).mem_iff, (Tree.preorder_mirror_perm _).mem_iff,
    ← (Tree.breadthFirst_perm _).mem_iff, Tree.breadthFirst_map, List.mem_map]

/-- **The counterpart of an outermost node** is outermost on the other side. -/
theorem Outermost.turned {after : ℚ → ℚ → Bool} (hafter : ∀ a b, after (-a) (-b) = before a b)
    (h : Outermost before t m) : Outermost after (turned t) (turnedMark t m) := by
  refine ⟨mem_located_turned.mpr ⟨m, h.mem, rfl⟩, fun m' hm' => ?_, fun m' hm' htie => ?_⟩
  · obtain ⟨m₀, hm₀, rfl⟩ := mem_located_turned.mp hm'
    rw [turnedMark, turnedMark, hafter]
    exact h.first m₀ hm₀
  · obtain ⟨m₀, hm₀, rfl⟩ := mem_located_turned.mp hm'
    rw [turnedMark, turnedMark, Tree.length_mirrorPath, Tree.length_mirrorPath]
    exact h.topmost m₀ hm₀ (neg_injective htie)

theorem mirrorPath_inj {p q : List ℕ} {s s' : Tree ℚ} (hp : t.at? p = some s) (hq : t.at? q = some s') :
    t.mirrorPath p = t.mirrorPath q ↔ p = q := by
  refine ⟨fun h => ?_, fun h => h ▸ rfl⟩
  rw [← Tree.mirrorPath_mirrorPath hp, h, Tree.mirrorPath_mirrorPath hq]

theorem parentPath_mirrorPath (t : Tree ℚ) (p : List ℕ) :
    parentPath (t.mirrorPath p) = (parentPath p).map t.mirrorPath := by
  cases p with
  | nil => rfl
  | cons i p =>
    rw [parentPath, parentPath, Tree.dropLast_mirrorPath]
    rfl

theorem exists_at? (hm : m ∈ t.located.breadthFirst) : ∃ s : Tree ℚ, t.at? m.1 = some s := by
  obtain ⟨s, hs, -⟩ := Tree.mem_located_iff.mp ((Tree.breadthFirst_perm _).mem_iff.mp hm)
  exact ⟨s, hs⟩

theorem parentPath_inj {p q : List ℕ} {s s' : Tree ℚ} (hp : t.at? p = some s) (hq : t.at? q = some s') :
    parentPath (t.mirrorPath p) = parentPath (t.mirrorPath q) ↔ parentPath p = parentPath q := by
  rw [parentPath_mirrorPath, parentPath_mirrorPath]
  refine ⟨fun h => ?_, fun h => congrArg _ h⟩
  obtain ⟨u, hu⟩ := Tree.exists_at?_dropLast hp
  obtain ⟨u', hu'⟩ := Tree.exists_at?_dropLast hq
  cases p with
  | nil =>
    cases q with
    | nil => rfl
    | cons j q => cases h
  | cons i p =>
    cases q with
    | nil => cases h
    | cons j q => exact congrArg some ((mirrorPath_inj hu hu').mp (Option.some.inj h))

/-- Counterparts are as far apart. -/
theorem clearance_turned (hm : m ∈ t.located.breadthFirst) (hm' : m' ∈ t.located.breadthFirst) :
    clearance (turnedMark t m') (turnedMark t m) = clearance m m' := by
  obtain ⟨s, hs⟩ := exists_at? hm
  obtain ⟨s', hs'⟩ := exists_at? hm'
  simp only [clearance, turnedMark, beq_iff_eq, mirrorPath_inj hs' hs, parentPath_inj hs' hs, eq_comm (a := m'.1),
    eq_comm (a := parentPath m'.1)]

/-! ### Points -/

/-- **Where the nodes of a mirror image are placed.** -/
theorem points_turned (hroomy : Roomy t) (canvas : Canvas ℚ) :
    points canvas (turned t) =
      ((points canvas t).map fun p => ⟨p.x, canvas.treeHeight - p.y⟩).mirror := by
  have hleft := outermost_extreme strict_lt t
  have hright := outermost_extreme strict_gt t
  have hleft' : extreme Scalar.lt ([], (turned t).value) (turned t).located.breadthFirst =
      turnedMark t (extreme (fun a b => Scalar.lt b a) ([], t.value) t.located.breadthFirst) :=
    (outermost_extreme strict_lt (turned t)).unique strict_lt hroomy.turned
      (hright.turned fun a b => by simp)
  have hright' : extreme (fun a b => Scalar.lt b a) ([], (turned t).value) (turned t).located.breadthFirst =
      turnedMark t (extreme Scalar.lt ([], t.value) t.located.breadthFirst) :=
    (outermost_extreme strict_gt (turned t)).unique strict_gt hroomy.turned
      (hleft.turned fun a b => by simp)
  have hwide := hleft.first _ hright.mem
  have hclear := clearance_turned hleft.mem hright.mem
  have hpos := clearance_pos (extreme Scalar.lt ([], t.value) t.located.breadthFirst)
    (extreme (fun a b => Scalar.lt b a) ([], t.value) t.located.breadthFirst)
  rw [points, points, located_turned, Tree.map_mirror, Tree.map_map, Tree.map_map, of, of, hleft', hright', hclear]
  generalize extreme Scalar.lt ([], t.value) t.located.breadthFirst = left at *
  generalize extreme (fun a b => Scalar.lt b a) ([], t.value) t.located.breadthFirst = right at *
  generalize clearance left right = s at *
  rw [Scalar.lt_rat, decide_eq_false_iff_not, not_lt] at hwide
  congr 1
  refine Tree.map_congr fun m _ => ?_
  have hspan : right.2 + s + (s - left.2) ≠ 0 := by
    have hspan : 0 < right.2 + s + (s - left.2) := by linarith
    exact hspan.ne'
  have hspan' : -left.2 + s + (s - -right.2) = right.2 + s + (s - left.2) := by ring
  rw [Function.comp, Function.comp, point, point, turnedMark, turnedMark, turnedMark, Tree.length_mirrorPath,
    Tidy.height_turned, hspan']
  congr 1
  rw [eq_sub_iff_add_eq, ← add_mul, mul_div_assoc', div_eq_iff hspan]
  ring

end Placement

namespace Hierarchy

open Tidy (breadths breadths_mirror roomy_breadths breadths_congr)

/-- The mirror image of a hierarchy. -/
def mirror {α : Type} (h : Hierarchy α) : Hierarchy α := { h with tree := h.tree.mirror }

theorem shown_mirror {α : Type} (h : Hierarchy α) : h.mirror.shown = h.shown.mirror := Tree.cut_mirror _ _

/-- Placing moves nodes and does nothing else to them. -/
theorem map_shown_layout {α γ : Type} [Scalar α] {g : Node α → γ} (hg : ∀ n p, g { n with finish := p } = g n)
    (h : Hierarchy α) (canvas : Canvas α) : (h.layout canvas).shown.map g = h.shown.map g := by
  have hshown : ∀ k : Hierarchy α,
      k.shown.map g = ((k.tree.map fun n => (g n, n.folded)).cut (·.2)).map (·.1) := by
    intro k
    rw [← Tree.map_cut (fun n : Node α => (g n, n.folded)) (·.2), Tree.map_map]
    rfl
  rw [hshown, hshown, map_layout fun n p => by rw [hg]]

/-- Where the nodes of a mirror image are placed, whatever else they carry. -/
theorem finish_layout_mirror {h h' : Hierarchy ℚ} (hmirror : shape h'.shown = (shape h.shown).mirror)
    (canvas : Canvas ℚ) :
    (h'.layout canvas).shown.map (·.finish) =
      ((h.layout canvas).shown.map fun n => ⟨n.finish.x, canvas.treeHeight - n.finish.y⟩).mirror := by
  have hshape : shape h'.shown = shape h.shown.mirror := by
    rw [hmirror, shape, shape, Tree.map_mirror]
  have hpoints := Placement.points_turned (roomy_breadths h.shown) canvas
  rw [map_finish_layout, breadths_congr hshape, breadths_mirror, hpoints, ← map_finish_layout, Tree.map_map]
  rfl

/-- **The drawing of a mirror image is the drawing upside down.**  Each node on show stands as far from the left
as its counterpart, and as far from the top as that one from the bottom. -/
theorem layout_mirror (h : Hierarchy ℚ) (canvas : Canvas ℚ) :
    (h.mirror.layout canvas).shown =
        ((h.layout canvas).shown.map fun n =>
          { n with finish := ⟨n.finish.x, canvas.treeHeight - n.finish.y⟩ }).mirror ∧
      ∀ h' : Hierarchy ℚ, shape h'.shown = (shape h.shown).mirror →
        (h'.layout canvas).shown.map (·.finish) =
          ((h.layout canvas).shown.map fun n => ⟨n.finish.x, canvas.treeHeight - n.finish.y⟩).mirror := by
  refine ⟨?_, fun h' hmirror => finish_layout_mirror hmirror canvas⟩
  have hshape : shape h.mirror.shown = (shape h.shown).mirror := by
    rw [shown_mirror, shape, shape, Tree.map_mirror]
  have hrest : (h.mirror.layout canvas).shown.map (fun n => { n with finish := .origin }) =
      (((h.layout canvas).shown.map fun n =>
        { n with finish := ⟨n.finish.x, canvas.treeHeight - n.finish.y⟩ }).mirror).map
          fun n => { n with finish := .origin } := by
    rw [map_shown_layout fun _ _ => rfl, shown_mirror, Tree.map_mirror, Tree.map_mirror, Tree.map_map]
    refine congrArg Tree.mirror (Eq.trans ?_ (map_shown_layout ?_ h canvas).symm)
    · rfl
    · exact fun _ _ => rfl
  have hfinish : (h.mirror.layout canvas).shown.map (·.finish) =
      (((h.layout canvas).shown.map fun n =>
        { n with finish := ⟨n.finish.x, canvas.treeHeight - n.finish.y⟩ }).mirror).map (·.finish) := by
    rw [finish_layout_mirror hshape, Tree.map_mirror, Tree.map_map]
    rfl
  have hboth := congrArg (Tree.map fun x : Node ℚ × Point ℚ => { x.1 with finish := x.2 })
    (Tree.map_prod_congr hrest hfinish)
  rw [Tree.map_map, Tree.map_map] at hboth
  exact ((Tree.map_id _).symm.trans hboth).trans (Tree.map_id _)

/-- A group of two wells before a folded group. -/
def groupThenFolded : Hierarchy ℚ where
  tree := flip "R_H" (ofTree (.node { label := "R" }
    [.node { label := "G" } [.node { label := "V" } [], .node { label := "W" } []],
      .node { label := "H" } [.node { label := "K" } []]])).tree

/-- A well before a group of two wells. -/
def wellThenGroup : Hierarchy ℚ :=
  ofTree (.node { label := "R" }
    [.node { label := "W" } [], .node { label := "G" } [.node { label := "W" } [], .node { label := "W" } []]])

/-- A folded group is drawn as a well is. -/
theorem layout_mirror_folded :
    shape wellThenGroup.shown = (shape groupThenFolded.shown).mirror ∧
      (wellThenGroup.layout (Settings.default : Settings ℚ).canvas).shown.map (·.finish) =
        ((groupThenFolded.layout (Settings.default : Settings ℚ).canvas).shown.map fun n =>
          ⟨n.finish.x, (Settings.default : Settings ℚ).canvas.treeHeight - n.finish.y⟩).mirror :=
  have hshape : shape wellThenGroup.shown = (shape groupThenFolded.shown).mirror := by rfl
  ⟨hshape, (layout_mirror groupThenFolded (Settings.default : Settings ℚ).canvas).2 wellThenGroup hshape⟩

end Hierarchy

end FlowTree
