import FlowTree.Proofs.Paths

/-!
# Mirror images of trees

The mirror image of a tree has all its lists of children reversed.

* **`Tree.mirror`** is the mirror image, **`Tree.mirrorPath`** the path in it to the counterpart of a node.
* **`Tree.level_mirror`** says that the levels run the other way, **`Tree.located_mirror`** where each value goes.
* **`Tree.mirrorPath_mirrorPath`** says that no two paths into a tree have the same counterpart.
-/

namespace FlowTree.Tree

variable {β γ : Type}

/-- The tree with every list of children reversed. -/
def mirror : Tree β → Tree β := fold fun v cs => node v cs.reverse

@[simp] theorem mirror_node (v : β) (cs : List (Tree β)) :
    (node v cs).mirror = node v (cs.map mirror).reverse := by
  rw [mirror, fold_node]

@[simp] theorem value_mirror (t : Tree β) : t.mirror.value = t.value := by
  cases t with
  | node v cs => rw [mirror_node]; rfl

theorem map_mirror (f : β → γ) (t : Tree β) : t.mirror.map f = (t.map f).mirror := by
  induction t with
  | node v cs ih =>
    rw [mirror_node, map_node, map_node, mirror_node, List.map_reverse, List.map_map, List.map_map]
    congr 2
    exact List.map_congr_left ih

theorem cut_mirror (stop : β → Bool) (t : Tree β) : t.mirror.cut stop = (t.cut stop).mirror := by
  induction t with
  | node v cs ih =>
    rw [mirror_node, cut_node, cut_node, mirror_node]
    congr 1
    split
    · rfl
    · rw [List.map_reverse, List.map_map, List.map_map]
      exact congrArg List.reverse (List.map_congr_left ih)

/-- The mirror image has the same values. -/
theorem preorder_mirror_perm (t : Tree β) : t.mirror.preorder.Perm t.preorder := by
  induction t with
  | node v cs ih =>
    rw [mirror_node, preorder_node, preorder_node]
    refine List.Perm.cons v ?_
    refine ((List.reverse_perm _).flatMap_right preorder).trans ?_
    rw [List.flatMap_map]
    exact List.Perm.flatMap_left cs ih

/-- The levels of the mirror image run the other way. -/
theorem level_mirror (t : Tree β) (k : ℕ) : t.mirror.level k = (t.level k).reverse := by
  induction t generalizing k with
  | node v cs ih =>
    cases k with
    | zero => rw [level_zero, level_zero, value_mirror]; rfl
    | succ k =>
      rw [mirror_node, level_succ, level_succ, List.reverse_flatMap, ← List.map_reverse, List.flatMap_map]
      refine List.flatMap_congr fun c hc => ?_
      exact ih c (List.mem_reverse.mp hc) k

theorem ne_nil_of_mem_besideLevels {ls rs : List (List β)} (hl : ∀ l ∈ ls, l ≠ []) (hr : ∀ r ∈ rs, r ≠ []) :
    ∀ l ∈ besideLevels ls rs, l ≠ [] := by
  induction ls, rs using besideLevels.induct with
  | case1 rs => exact hr
  | case2 ls h => cases ls <;> simp_all [besideLevels]
  | case3 l ls r rs ih =>
    rw [besideLevels, List.forall_mem_cons]
    refine ⟨?_, ih (fun l hl' => hl l (List.mem_cons_of_mem _ hl')) fun r hr' => hr r (List.mem_cons_of_mem _ hr')⟩
    rw [ne_eq, List.append_eq_nil_iff]
    exact fun h => hl l List.mem_cons_self h.1

/-- No level of a tree is empty. -/
theorem ne_nil_of_mem_levels {t : Tree β} : ∀ l ∈ t.levels, l ≠ [] := by
  induction t with
  | node v cs ih =>
    rw [levels_node, List.forall_mem_cons]
    refine ⟨List.cons_ne_nil v [], ?_⟩
    clear v
    induction cs with
    | nil => exact fun l hl => absurd hl List.not_mem_nil
    | cons c cs ihcs =>
      exact ne_nil_of_mem_besideLevels (ih c List.mem_cons_self) (ihcs fun d hd => ih d (List.mem_cons_of_mem c hd))

theorem lt_length_levels_iff {t : Tree β} {k : ℕ} : k < t.levels.length ↔ t.level k ≠ [] := by
  constructor
  · intro hk
    rw [level_of_levels (List.getElem?_eq_getElem hk)]
    exact ne_nil_of_mem_levels _ (List.getElem_mem hk)
  · intro hne
    by_contra hk
    exact hne (by rw [level, List.getElem?_eq_none (Nat.not_lt.mp hk)]; rfl)

/-- The mirror image is as high. -/
theorem height_mirror (t : Tree β) : t.mirror.height = t.height := by
  have hlength : ∀ k, k < t.mirror.levels.length ↔ k < t.levels.length := fun k => by
    rw [lt_length_levels_iff, lt_length_levels_iff, level_mirror, ne_eq, List.reverse_eq_nil_iff]
  rw [height, height, Nat.le_antisymm (Nat.not_lt.mp fun h => Nat.lt_irrefl _ ((hlength _).mp h))
    (Nat.not_lt.mp fun h => Nat.lt_irrefl _ ((hlength _).mpr h))]

/-! ### Paths -/

/-- The path in the mirror image of a tree that leads to the counterpart of a node. -/
def mirrorPath (t : Tree β) : List ℕ → List ℕ
  | [] => []
  | i :: path => (t.children.length - 1 - i) :: ((t.children[i]?).map fun c => mirrorPath c path).getD path

theorem mirrorPath_cons {v : β} {cs : List (Tree β)} {i : ℕ} {c : Tree β} (hc : cs[i]? = some c) (path : List ℕ) :
    (node v cs).mirrorPath (i :: path) = (cs.length - 1 - i) :: c.mirrorPath path := by
  rw [mirrorPath, children, hc]
  rfl

theorem length_mirrorPath (t : Tree β) (path : List ℕ) : (t.mirrorPath path).length = path.length := by
  induction path generalizing t with
  | nil => rfl
  | cons i path ih =>
    rw [mirrorPath, List.length_cons, List.length_cons]
    cases t.children[i]? with
    | none => rfl
    | some c => exact congrArg (· + 1) (ih c)

/-- The parent of the counterpart is the counterpart of the parent. -/
theorem dropLast_mirrorPath (t : Tree β) (path : List ℕ) :
    (t.mirrorPath path).dropLast = t.mirrorPath path.dropLast := by
  induction path generalizing t with
  | nil => rfl
  | cons i path ih =>
    cases path with
    | nil =>
      rw [mirrorPath]
      cases t.children[i]? <;> rfl
    | cons j path =>
      rw [List.dropLast_cons_cons, mirrorPath, mirrorPath]
      cases hc : t.children[i]? with
      | none => simp
      | some c =>
        show (_ :: c.mirrorPath (j :: path)).dropLast = _ :: c.mirrorPath (j :: path).dropLast
        rw [← ih c, List.dropLast_cons_of_ne_nil]
        exact List.ne_nil_of_length_pos (by rw [length_mirrorPath]; exact Nat.succ_pos _)

/-- **The counterpart of the counterpart** of a node is the node. -/
theorem mirrorPath_mirrorPath {t s : Tree β} {path : List ℕ} (h : t.at? path = some s) :
    t.mirror.mirrorPath (t.mirrorPath path) = path := by
  induction path generalizing t with
  | nil => rfl
  | cons i path ih =>
    cases t with
    | node v cs =>
      obtain ⟨c, hc, hs⟩ := at?_cons_eq_some_iff.mp h
      have hi := (List.getElem?_eq_some_iff.mp hc).1
      have hc' : (cs.map mirror).reverse[cs.length - 1 - i]? = some c.mirror := by
        rw [List.getElem?_reverse (by rw [List.length_map]; omega), List.length_map, List.getElem?_map,
          show cs.length - 1 - (cs.length - 1 - i) = i by omega, hc]
        rfl
      rw [mirrorPath_cons hc, mirror_node, mirrorPath_cons hc', List.length_reverse, List.length_map, ih hs]
      congr 1
      omega

theorem locatedAt_append (p q : List ℕ) (t : Tree β) :
    t.locatedAt (p ++ q) = (t.locatedAt q).map fun m => (p ++ m.1, m.2) := by
  induction t generalizing q with
  | node v cs ih =>
    rw [locatedAt_node, locatedAt_node, map_node]
    congr 1
    apply List.ext_getElem?
    intro i
    rw [List.getElem?_map, List.getElem?_mapIdx, List.getElem?_mapIdx, Option.map_map]
    cases hc : cs[i]? with
    | none => rfl
    | some c =>
      rw [Option.map_some, Option.map_some, List.append_assoc, ih c (List.mem_of_getElem? hc)]
      rfl

/-- **Where each value goes.** -/
theorem located_mirror (t : Tree β) :
    t.mirror.located = (t.located.map fun m => (t.mirrorPath m.1, m.2)).mirror := by
  have hprefix : ∀ (s : Tree β) (i : ℕ), s.locatedAt [i] = s.located.map fun m => (i :: m.1, m.2) :=
    fun s i => locatedAt_append [i] [] s
  rw [located_eq, located_eq]
  induction t with
  | node v cs ih =>
    rw [mirror_node, locatedAt_node, locatedAt_node, map_node, mirror_node]
    congr 1
    apply List.ext_getElem?
    intro j
    rcases Nat.lt_or_ge j cs.length with hj | hj
    · have hc : cs[cs.length - 1 - j]? = some cs[cs.length - 1 - j] := List.getElem?_eq_getElem (by omega)
      rw [List.getElem?_mapIdx, List.getElem?_reverse (by simpa using hj), List.getElem?_reverse (by simpa using hj)]
      simp only [List.length_map, List.length_mapIdx, List.getElem?_map, List.getElem?_mapIdx, hc, Option.map_some,
        List.nil_append, hprefix]
      rw [located_eq, ih _ (List.getElem_mem _)]
      rw [map_mirror, map_map, map_map]
      congr 2
      refine map_congr fun m _ => ?_
      rw [Function.comp, Function.comp, mirrorPath_cons hc, show cs.length - 1 - (cs.length - 1 - j) = j by omega]
    · rw [List.getElem?_eq_none (by simpa using hj), List.getElem?_eq_none (by simpa using hj)]

end FlowTree.Tree
