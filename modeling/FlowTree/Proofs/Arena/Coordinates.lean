import FlowTree.Proofs.Arena.Placing
import FlowTree.Proofs.Tidy.Subtrees

/-!
# Coordinates of the nodes on show

The tidy tree of a hierarchy gives a coordinate to every node on show, and the run over the array finds it at the node's
position.

* **`Hierarchy.coordinate?`** is the coordinate of the node on show at the end of a path.
* **`Hierarchy.Coordinates`** says of an array that it holds these coordinates; **`Hierarchy.exists_coordinates`** that
  the run comes to such an array.
* **`Hierarchy.parents_stand_midway`** places a parent between its first and its last child.
* **`Hierarchy.subtrees_drawn_alike`** compares the drawings of two subtrees of one shape.
-/

namespace FlowTree.Hierarchy

variable {α : Type} [Scalar α]

/-- The coordinate of the node on show at the end of a path. -/
def coordinate? (h : Hierarchy α) (path : List ℕ) : Option α := Tidy.coordinate? h.shown path

/-- The run over the array of a hierarchy comes to an array with the coordinate of every node on show at the position of
the node. -/
structure Coordinates (h : Hierarchy α) (breadth : List α) : Prop where
  run : Tidy.Net.breadths h.arena.below h.arena.length = .ok breadth
  get : ∀ path, (h.shown.at? path).isSome = true → breadth[h.place path]? = h.coordinate? path

/-- Just the nodes on show have coordinates. -/
theorem isSome_coordinate? (h : Hierarchy α) (path : List ℕ) :
    (h.coordinate? path).isSome = (h.shown.at? path).isSome := by
  rw [coordinate?, Tidy.coordinate?, Option.isSome_map, isSome_breadths]

/-- **The run finds the coordinates.** -/
theorem exists_coordinates (h : Hierarchy α) : ∃ breadth, h.Coordinates breadth := by
  obtain ⟨breadth, hrun, hbreadth⟩ := h.breadth_shown
  refine ⟨breadth, hrun, fun path hpath => ?_⟩
  obtain ⟨x, hx⟩ := Option.isSome_iff_exists.mp ((h.isSome_coordinate? path).trans hpath)
  obtain ⟨u, hu, rfl⟩ := Option.map_eq_some_iff.mp hx
  rw [hx]
  exact hbreadth (path, u.value) (Tree.mem_located_breadthFirst_iff.mpr ⟨u, hu, rfl⟩)

/-! ### Parents and children -/

/-- A parent on show stands midway between its first and its last child. -/
theorem coordinate?_parent {h : Hierarchy ℚ} {path : List ℕ} {n : Node ℚ} {cs : List (Tree (Node ℚ))}
    (hat : h.shown.at? path = some (.node n cs)) (hne : cs ≠ []) :
    ∃ x y, h.coordinate? (path ++ [0]) = some x ∧ h.coordinate? (path ++ [cs.length - 1]) = some y ∧
      h.coordinate? path = some ((x + y) / 2) := by
  obtain ⟨d, hroot, hbelow⟩ := Tidy.coordinate?_append hat
  obtain ⟨x, hfirst, hlast⟩ := Tidy.coordinate?_children n hne
  refine ⟨-x + d, x + d, ?_, ?_, ?_⟩
  · rw [coordinate?, hbelow, hfirst, Option.map_some]
  · rw [coordinate?, hbelow, hlast, Option.map_some]
  · rw [coordinate?, hroot]
    congr 1
    ring

/-- **Every parent stands midway between its outer children**, and the root at zero: so it is in the tidy tree of the
nodes on show, and so it is in the array that the run over the array of the hierarchy comes to. -/
theorem parents_stand_midway (h : Hierarchy ℚ) :
    (h.coordinate? [] = some 0 ∧
      ∀ path n cs, h.shown.at? path = some (.node n cs) → cs ≠ [] →
        ∃ x y, h.coordinate? (path ++ [0]) = some x ∧ h.coordinate? (path ++ [cs.length - 1]) = some y ∧
          h.coordinate? path = some ((x + y) / 2)) ∧
      ∃ (breadth : List ℚ) (order : List ℕ),
        Tidy.Net.breadths h.arena.below h.arena.length = .ok breadth ∧ h.arena.descendants = .ok order ∧
          breadth[0]? = some 0 ∧
          ∀ i ∈ order, ∃ s, h.arena[i]? = some s ∧
            ∀ first last, s.children.head? = some first → s.children.getLast? = some last →
              ∃ x y, breadth[first]? = some x ∧ breadth[last]? = some y ∧ breadth[i]? = some ((x + y) / 2) := by
  have hzero : h.coordinate? [] = some 0 := Tidy.coordinate?_nil h.shown
  obtain ⟨breadth, hrun, hget⟩ := h.exists_coordinates
  refine ⟨⟨hzero, fun path n cs hat hne => coordinate?_parent hat hne⟩, breadth, _, hrun, h.descendants_arena, ?_, ?_⟩
  · rw [← place_nil h, hget [] rfl, hzero]
  · intro i hi
    obtain ⟨path, ⟨n, cs⟩, hat, rfl⟩ := mem_onShow_iff.mp hi
    obtain ⟨ds, -, hslot, hchildren⟩ := getElem?_shown hat
    refine ⟨_, hslot, fun first last hfirst hlast => ?_⟩
    replace hchildren : (h.slotOf (path, n, ds.length)).plain.children = _ := hchildren
    have hpos : 0 < cs.length := by
      by_contra hnil
      rw [Nat.eq_zero_of_not_pos hnil] at hchildren
      rw [hchildren] at hfirst
      cases hfirst
    have hlt : cs.length - 1 < cs.length := Nat.sub_lt hpos Nat.one_pos
    -- the first and the last of the positions of the children
    rw [hchildren, List.head?_map, List.head?_eq_getElem?, List.getElem?_range hpos] at hfirst
    rw [hchildren, List.getLast?_map, List.getLast?_eq_getElem?, List.length_range,
      List.getElem?_range hlt] at hlast
    obtain rfl := Option.some.inj hfirst
    obtain rfl := Option.some.inj hlast
    obtain ⟨x, y, hx, hy, hmid⟩ := coordinate?_parent hat (List.length_pos_iff.mp hpos)
    refine ⟨x, y, ?_, ?_, ?_⟩
    · rw [hget _ (by rw [Tree.at?_concat hat hpos, Option.isSome_some]), hx]
    · rw [hget _ (by rw [Tree.at?_concat hat hlt, Option.isSome_some]), hy]
    · rw [hget _ (by rw [hat, Option.isSome_some]), hmid]

/-! ### Subtrees of one shape -/

/-- **Subtrees of one shape are drawn alike**, in whatever hierarchies and at whatever depth they hang: every two
corresponding nodes have the same offset from the roots of the subtrees. -/
theorem subtrees_drawn_alike {h k : Hierarchy ℚ} {p q : List ℕ} {s t : Tree (Node ℚ)} (hs : h.shown.at? p = some s)
    (ht : k.shown.at? q = some t) (hshape : Tidy.shape s = Tidy.shape t) :
    ∃ bs ds : List ℚ,
      Tidy.Net.breadths h.arena.below h.arena.length = .ok bs ∧
        Tidy.Net.breadths k.arena.below k.arena.length = .ok ds ∧
        ∀ path, (s.at? path).isSome = true →
          ∃ u x v y : ℚ, h.coordinate? p = some u ∧ h.coordinate? (p ++ path) = some x ∧
            k.coordinate? q = some v ∧ k.coordinate? (q ++ path) = some y ∧
            bs[h.place p]? = some u ∧ bs[h.place (p ++ path)]? = some x ∧
            ds[k.place q]? = some v ∧ ds[k.place (q ++ path)]? = some y ∧
            x - u = y - v := by
  obtain ⟨bs, hbs⟩ := h.exists_coordinates
  obtain ⟨ds, hds⟩ := k.exists_coordinates
  obtain ⟨u, hu, hbelow⟩ := Tidy.coordinate?_append hs
  obtain ⟨v, hv, hbelow'⟩ := Tidy.coordinate?_append ht
  refine ⟨bs, ds, hbs.run, hds.run, fun path hpath => ?_⟩
  have hpath' : (t.at? path).isSome = true := Tree.isSome_at?_of_shape hshape path ▸ hpath
  -- seen from its root, either subtree has the coordinates of its own tidy tree
  obtain ⟨z, hz⟩ : ∃ z : ℚ, Tidy.coordinate? s path = some z := by
    rw [← Option.isSome_iff_exists, Tidy.coordinate?, Option.isSome_map,
      Tree.isSome_at?_of_shape (Tidy.shape_breadths s), hpath]
  have hz' : Tidy.coordinate? t path = some z := by rw [Tidy.coordinate?, ← Tidy.breadths_congr hshape, ← hz]; rfl
  have hx : h.coordinate? (p ++ path) = some (z + u) := by rw [coordinate?, hbelow, hz, Option.map_some]
  have hy : k.coordinate? (q ++ path) = some (z + v) := by rw [coordinate?, hbelow', hz', Option.map_some]
  refine ⟨u, z + u, v, z + v, hu, hx, hv, hy, ?_, ?_, ?_, ?_, by ring⟩
  · rw [hbs.get p (by rw [hs, Option.isSome_some])]
    exact hu
  · rw [hbs.get _ (by rw [Tree.at?_append, hs, Option.bind_some, hpath]), hx]
  · rw [hds.get q (by rw [ht, Option.isSome_some])]
    exact hv
  · rw [hds.get _ (by rw [Tree.at?_append, ht, Option.bind_some, hpath']), hy]

/-- A group of two wells between two groups of three. -/
def crowdedGroup : Hierarchy ℚ :=
  ofTree (.node { label := "R" }
    [.node { label := "A" } [.node { label := "K" } [], .node { label := "L" } [], .node { label := "M" } []],
      .node { label := "G" } [.node { label := "V" } [], .node { label := "W" } []],
      .node { label := "B" } [.node { label := "K" } [], .node { label := "L" } [], .node { label := "M" } []]])

/-- A group of a folded group and a well, further down. -/
def deepGroup : Hierarchy ℚ where
  tree := flip "R_S_G_V" (ofTree (.node { label := "R" }
    [.node { label := "S" }
      [.node { label := "W" } [],
        .node { label := "G" } [.node { label := "V" } [.node { label := "K" } []], .node { label := "W" } []]]])).tree

/-- Between other groups a group is drawn as it is beside a well. -/
theorem subtrees_drawn_alike_groups : ∃ s t,
    crowdedGroup.shown.at? [1] = some s ∧ deepGroup.shown.at? [0, 1] = some t ∧ Tidy.shape s = Tidy.shape t ∧
      ∃ bs ds : List ℚ,
        Tidy.Net.breadths crowdedGroup.arena.below crowdedGroup.arena.length = .ok bs ∧
          Tidy.Net.breadths deepGroup.arena.below deepGroup.arena.length = .ok ds ∧
          ∀ path, (s.at? path).isSome = true →
            ∃ u x v y : ℚ, crowdedGroup.coordinate? [1] = some u ∧ crowdedGroup.coordinate? ([1] ++ path) = some x ∧
              deepGroup.coordinate? [0, 1] = some v ∧ deepGroup.coordinate? ([0, 1] ++ path) = some y ∧
              bs[crowdedGroup.place [1]]? = some u ∧ bs[crowdedGroup.place ([1] ++ path)]? = some x ∧
              ds[deepGroup.place [0, 1]]? = some v ∧ ds[deepGroup.place ([0, 1] ++ path)]? = some y ∧
              x - u = y - v :=
  ⟨_, _, rfl, rfl, rfl, subtrees_drawn_alike (h := crowdedGroup) (k := deepGroup) rfl rfl rfl⟩

end FlowTree.Hierarchy
