import FlowTree.Hierarchy.Basic
import FlowTree.Layout.Placement
import FlowTree.Proofs.Paths
import FlowTree.Proofs.Tidy.Forest
import FlowTree.Proofs.Tidy.Shape

/-!
# A tidy tree has room everywhere

The rows of all nodes are sound, from the leaves up, so on every level of the finished drawing the
nodes stand in order and keep their distances.

* **`Tidy.foldl_add`** is the run along the children of a node, **`Tidy.draw_fits`** the induction over the
  tree: whatever is drawn is sound.
* **`Tidy.Roomy.pairwise_level`** turns room between subtrees into distances between the nodes of a
  level.
* **`Hierarchy.breadths_keep_distance`** states the distances for the nodes of a hierarchy.
-/

namespace FlowTree.Tidy

/-! ### The whole tree -/

/-- A sound drawing, with the root beside its older sibling. -/
structure Drawn.Fits (d : Drawn ℚ) (beside : Option ℚ) : Prop where
  sound : d.Sound
  root : ∀ y, beside = some y → d.slot.prelim = y + 1

/-- One subtree after the other joins a sound row, each drawn beside the one before. -/
theorem foldl_add {γ : Type} {cs : List (Tree γ)}
    (hfits : ∀ c ∈ cs, ∀ beside, (draw c beside).Fits beside) {f : Forest ℚ} (hf : f.Sound) :
    (cs.foldl (fun (f : Forest ℚ) c => f.add (draw c f.lastPrelim?)) f).Sound := by
  induction cs generalizing f with
  | nil => exact hf
  | cons c cs ih =>
    have hc := hfits c List.mem_cons_self f.lastPrelim?
    exact ih (fun c' hc' => hfits c' (List.mem_cons_of_mem c hc')) (hf.add hc.sound hc.root)

/-- **Whatever is drawn is sound.** -/
theorem draw_fits {γ : Type} (t : Tree γ) (beside : Option ℚ) : (draw t beside).Fits beside := by
  induction t generalizing beside with
  | node v cs ih =>
    rw [draw_node]
    refine ⟨(foldl_add ih Forest.sound_nil).crown beside, ?_⟩
    rintro y rfl
    exact Forest.prelim_crown _ y

theorem breadths_eq {γ : Type} (t : Tree γ) :
    breadths t = shift (-(draw t none).slot.prelim) (draw t none).figure.places := by
  rw [breadths, Figure.places, ← settle_add, zero_add]
  rfl

theorem roomy_breadths {γ : Type} (t : Tree γ) : Roomy (breadths t) := by
  rw [breadths_eq]
  exact (Outlined.roomy (draw_fits t none).sound).shift _

/-! ### Distances on a level -/

/-- The second mark lies to the right of the first one with the distance they need. -/
def Apart (a b : Placement.Mark ℚ) : Prop :=
  1 ≤ b.2 - a.2 ∧ (Placement.parentPath a.1 ≠ Placement.parentPath b.1 → 2 ≤ b.2 - a.2)

theorem parentPath_concat (path : List ℕ) (i : ℕ) :
    Placement.parentPath (path ++ [i]) = some path := by
  rw [Placement.parentPath, List.dropLast_concat]
  simp

/-- The nodes of a level stand in order and keep their distances. -/
theorem Roomy.pairwise_level {t : Tree ℚ} (h : Roomy t) (path : List ℕ) (k : ℕ) :
    ((t.locatedAt path).level k).Pairwise Apart := by
  induction t generalizing path k with
  | node v cs ih =>
    cases h with
    | node hroomy hbeside =>
      rw [Tree.locatedAt_node]
      cases k with
      | zero =>
        rw [Tree.level_zero]
        exact List.pairwise_singleton _ _
      | succ k =>
        rw [Tree.level_succ, List.pairwise_flatMap]
        constructor
        · intro c hc
          obtain ⟨i, hi, rfl⟩ := List.mem_mapIdx.mp hc
          exact ih _ (List.getElem_mem hi) (hroomy _ (List.getElem_mem hi)) _ k
        · rw [List.pairwise_iff_getElem]
          intro i j hi hj hij a ha b hb
          rw [List.length_mapIdx] at hi hj
          rw [List.getElem_mapIdx] at ha hb
          have hcs := (List.pairwise_iff_getElem.mp hbeside) i j hi hj hij
          cases k with
          | zero =>
            -- two children of one node
            have hroots := hcs.roots
            rw [Tree.level_zero, List.mem_singleton, Tree.value_locatedAt] at ha hb
            rw [ha, hb, Apart, parentPath_concat, parentPath_concat]
            exact ⟨by linarith, fun hne => absurd rfl hne⟩
          | succ k =>
            have hbelow := hcs.below k a.2 (Tree.snd_mem_level ha) b.2 (Tree.snd_mem_level hb)
            exact ⟨by linarith, fun _ => by linarith⟩

/-- Level by level, the nodes of equal depth stand in order and keep their distances. -/
theorem Roomy.pairwise_breadthFirst {t : Tree ℚ} (h : Roomy t) :
    t.located.breadthFirst.Pairwise fun a b => a.1.length = b.1.length → Apart a b := by
  rw [Tree.breadthFirst, List.pairwise_flatten]
  constructor
  · intro l hl
    obtain ⟨k, hk⟩ := List.getElem?_of_mem hl
    rw [← Tree.level_of_levels hk]
    refine (h.pairwise_level [] k).imp ?_
    intro a b hab _
    exact hab
  · -- paths of different levels have different lengths
    rw [List.pairwise_iff_getElem]
    intro i j hi hj hij a ha b hb heq
    rw [← Tree.level_of_levels (List.getElem?_eq_getElem hi)] at ha
    rw [← Tree.level_of_levels (List.getElem?_eq_getElem hj)] at hb
    have hlength := Tree.length_of_mem_level ha
    rw [heq, Tree.length_of_mem_level hb] at hlength
    omega

end FlowTree.Tidy

namespace FlowTree.Hierarchy

/-- **The tidy tree has room for every node.**  It has the shape of the nodes on show, which are listed
in the order of `descendants`; of any two nodes of equal depth the later one stands at least one unit
further, and at least two units if they have different parents. -/
theorem breadths_keep_distance (h : Hierarchy ℚ) :
    ((Tidy.breadths h.shown : Tree ℚ).map fun _ => ()) = (h.shown.map fun _ => ()) ∧
      h.shown.located.breadthFirst.map (·.2) = h.descendants ∧
      (h.shown.located.breadthFirst.zip (Tidy.breadths h.shown : Tree ℚ).breadthFirst).Pairwise
        fun a b => a.1.1.length = b.1.1.length →
          1 ≤ b.2 - a.2 ∧
            (Placement.parentPath a.1.1 ≠ Placement.parentPath b.1.1 → 2 ≤ b.2 - a.2) := by
  have hshape : Tidy.shape (Tidy.breadths h.shown : Tree ℚ) = Tidy.shape h.shown :=
    Tidy.shape_breadths h.shown
  refine ⟨hshape, Tree.map_snd_located_breadthFirst _, ?_⟩
  have hpaths := Tree.paths_eq_of_shape hshape
  have hpairwise := (Tidy.roomy_breadths h.shown).pairwise_breadthFirst
  rw [← Tree.map_snd_located_breadthFirst (Tidy.breadths h.shown : Tree ℚ), List.pairwise_iff_getElem]
  intro i j hi hj hij
  rw [List.length_zip, List.length_map] at hi hj
  have hpath : ∀ (k : ℕ) (hk : k < h.shown.located.breadthFirst.length)
      (hk' : k < (Tidy.breadths h.shown : Tree ℚ).located.breadthFirst.length),
      h.shown.located.breadthFirst[k].1 =
        (Tidy.breadths h.shown : Tree ℚ).located.breadthFirst[k].1 := by
    intro k hk hk'
    have heq := congrArg (fun l => l[k]?) hpaths
    simpa [hk, hk'] using heq.symm
  rw [List.getElem_zip, List.getElem_zip, List.getElem_map, List.getElem_map,
    hpath i (by omega) (by omega), hpath j (by omega) (by omega)]
  exact (List.pairwise_iff_getElem.mp hpairwise) i j (by omega) (by omega) hij

end FlowTree.Hierarchy
