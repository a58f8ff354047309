import FlowTree.Proofs.Tidy.Room

/-!
# Outlines end nowhere but at nodes

The outlines of a subtree do not only bound its levels: they are the first and the last place of each.

* **`Tidy.Edged`** says so of a tree, **`Tidy.Rimmed`** of a row of trees.
* **`Tidy.Rimmed.concat`** sets one more tree beside a row, **`Tidy.Rimmed.crown`** a root above it.
* **`Tidy.draw_exact`** is the induction over the tree: whatever is drawn has exact outlines.
-/

namespace FlowTree.Tidy

/-! ### Edges -/

/-- Two lists are the first and the last places of the levels below the root of a tree. -/
structure Edged (t : Tree ℚ) (left right : List ℚ) : Prop where
  left : ∀ k : ℕ, left[k]? = (t.level (k + 1)).head?
  right : ∀ k : ℕ, right[k]? = (t.level (k + 1)).getLast?

/-- Each place on the left is the first one of its level in the first tree of a row that is so deep, each
place on the right the last one of its level in the tree with the given index. -/
structure Rimmed (row : List (Tree ℚ)) (left : List ℚ) (right : List (ℕ × ℚ)) : Prop where
  left : ∀ (k : ℕ) (x : ℚ), left[k]? = some x → ∃ (j : ℕ) (t : Tree ℚ), row[j]? = some t ∧
    (t.level (k + 1)).head? = some x ∧ ∀ i < j, ∀ s : Tree ℚ, row[i]? = some s → s.level (k + 1) = []
  right : ∀ (k : ℕ) (q : ℕ × ℚ), right[k]? = some q → ∃ t : Tree ℚ, row[q.1]? = some t ∧
    (t.level (k + 1)).getLast? = some q.2

theorem level_shift (d : ℚ) (t : Tree ℚ) (k : ℕ) : (shift d t).level k = (t.level k).map (· + d) :=
  Tree.level_map _ t k

theorem Edged.shift {t : Tree ℚ} {left right : List ℚ} (h : Edged t left right) (d : ℚ) :
    Edged (shift d t) (left.map (· + d)) (right.map (· + d)) where
  left k := by rw [List.getElem?_map, h.left, level_shift, List.head?_map]
  right k := by rw [List.getElem?_map, h.right, level_shift, List.getLast?_map]

variable {row : List (Tree ℚ)} {left l r : List ℚ} {right : List (ℕ × ℚ)} {t : Tree ℚ}
  {part : ℕ → ℚ} {far : ℚ}

/-- Where a row has no bounds it has no nodes. -/
theorem level_eq_nil_of_framed (hf : Framed row left right) {k : ℕ} (hk : left[k]? = none) {s : Tree ℚ} (hs : s ∈ row) :
    s.level (k + 1) = [] := by
  rw [List.eq_nil_iff_forall_not_mem]
  intro x hx
  obtain ⟨w, hw, -⟩ := hf.left_le s hs k x hx
  rw [hk] at hw
  cases hw

/-- The first tree that is so deep stays where it is, since no push comes from a tree before it. -/
theorem Rimmed.part_eq_zero (h : Rimmed row left right) (hf : Framed row left right)
    (hp : Parting row right l part far) {j k : ℕ} {s : Tree ℚ} (hs : row[j]? = some s)
    (hne : s.level (k + 1) ≠ [])
    (hfirst : ∀ i < j, ∀ s' : Tree ℚ, row[i]? = some s' → s'.level (k + 1) = []) : part j = 0 := by
  obtain ⟨x, hx⟩ := List.exists_mem_of_ne_nil _ hne
  refine hp.still j fun i _ q hq => ?_
  rcases Nat.le_total i k with hik | hki
  · exact hf.owner_le hs hx i hik q hq
  · -- the owner reaches this level too
    obtain ⟨s', hs', hlast⟩ := h.right i q hq
    obtain ⟨y, hy⟩ := Tree.exists_mem_level (Nat.succ_le_succ hki) (List.mem_of_getLast? hlast)
    by_contra hlt
    rw [hfirst q.1 (not_le.mp hlt) s' hs'] at hy
    exact List.not_mem_nil hy

theorem getElem?_parted_still {j : ℕ} {s : Tree ℚ} (hs : row[j]? = some s) (hstill : part j = 0) :
    (parted row t part far)[j]? = some s := by
  have hj := (List.getElem?_eq_some_iff.mp hs).1
  rw [parted, List.getElem?_append_left (by simpa using hj), List.getElem?_mapIdx, hs, hstill]
  exact congrArg some (shift_zero s)

theorem getElem?_parted_new : (parted row t part far)[row.length]? = some (shift far t) := by
  rw [parted, List.getElem?_append_right (by simp), List.length_mapIdx, Nat.sub_self]
  rfl

/-- **One more tree beside a row.** -/
theorem Rimmed.concat (h : Rimmed row left right) (hf : Framed row left right) (he : Edged t l r)
    (ho : Outlined t l r) (hp : Parting row right l part far) :
    Rimmed (parted row t part far) (leftBound left l far) (rightBound right r row.length far) where
  left k x hx := by
    rw [getElem?_leftBound] at hx
    split at hx
    · obtain ⟨j, s, hs, hhead, hfirst⟩ := h.left k x hx
      have hne : s.level (k + 1) ≠ [] := by
        rintro hnil
        rw [hnil] at hhead
        cases hhead
      have hstill := h.part_eq_zero hf hp hs hne hfirst
      refine ⟨j, s, getElem?_parted_still hs hstill, hhead, fun i hi s' hs' => ?_⟩
      rcases getElem?_parted hs' with ⟨s₀, hs₀, rfl⟩ | ⟨rfl, -⟩
      · rw [level_shift, hfirst i hi s₀ hs₀, List.map_nil]
      · have hj := (List.getElem?_eq_some_iff.mp hs).1
        omega
    · next hk =>
      obtain ⟨y, hy, rfl⟩ := Option.map_eq_some_iff.mp hx
      refine ⟨row.length, shift far t, getElem?_parted_new, ?_, fun i hi s' hs' => ?_⟩
      · rw [level_shift, List.head?_map, ← he.left, hy]
        rfl
      · rcases getElem?_parted hs' with ⟨s₀, hs₀, rfl⟩ | ⟨rfl, -⟩
        · rw [level_shift, level_eq_nil_of_framed hf (List.getElem?_eq_none (not_lt.mp hk)) (List.mem_of_getElem? hs₀),
            List.map_nil]
        · exact absurd hi (lt_irrefl _)
  right k q hq := by
    rw [getElem?_rightBound] at hq
    split at hq
    · obtain ⟨y, hy, rfl⟩ := Option.map_eq_some_iff.mp hq
      refine ⟨shift far t, getElem?_parted_new, ?_⟩
      rw [level_shift, List.getLast?_map, ← he.right, hy]
      rfl
    · next hk =>
      obtain ⟨s, hs, hlast⟩ := h.right k q hq
      have hstill : part q.1 = 0 := by
        refine hp.still q.1 fun i hi => hf.owner_le hs (List.mem_of_getLast? hlast) i ?_
        rw [ho.length] at hi
        omega
      exact ⟨s, getElem?_parted_still hs hstill, hlast⟩

/-! ### A root above a row -/

theorem head?_flatMap_of_first {β γ : Type} {g : β → List γ} {l : List β} {j : ℕ} {b : β} {x : γ}
    (hb : l[j]? = some b) (hx : (g b).head? = some x)
    (hfirst : ∀ i < j, ∀ c, l[i]? = some c → g c = []) : (l.flatMap g).head? = some x := by
  induction l generalizing j with
  | nil => cases hb
  | cons a l ih =>
    rw [List.flatMap_cons]
    cases j with
    | zero =>
      obtain rfl := Option.some.inj hb
      rw [List.head?_append, hx]
      rfl
    | succ j =>
      rw [hfirst 0 j.succ_pos a rfl, List.nil_append]
      exact ih hb fun i hi => hfirst (i + 1) (Nat.succ_lt_succ hi)

theorem getLast?_flatMap_of_last {β γ : Type} {g : β → List γ} {l : List β} {j : ℕ} {b : β} {x : γ}
    (hb : l[j]? = some b) (hx : (g b).getLast? = some x)
    (hlast : ∀ (i : ℕ) c, j < i → l[i]? = some c → g c = []) : (l.flatMap g).getLast? = some x := by
  induction l generalizing j with
  | nil => cases hb
  | cons a l ih =>
    rw [List.flatMap_cons, List.getLast?_append]
    cases j with
    | zero =>
      obtain rfl := Option.some.inj hb
      have hrest : l.flatMap g = [] := by
        rw [List.flatMap_eq_nil_iff]
        intro c hc
        obtain ⟨i, hi⟩ := List.getElem?_of_mem hc
        exact hlast (i + 1) c i.succ_pos hi
      rw [hrest, hx]
      rfl
    | succ j =>
      rw [ih hb fun i c hi hc => hlast (i + 1) c (Nat.succ_lt_succ hi) hc]
      rfl

/-- **A root above a row.** -/
theorem Rimmed.crown (h : Rimmed row left right) (hf : Framed row left right) {first last : Tree ℚ}
    (hfirst : row.head? = some first) (hlast : row.getLast? = some last) (v : ℚ) :
    Edged (.node v row) (first.value :: left) (last.value :: right.map (·.2)) where
  left k := by
    rw [Tree.level_succ]
    cases k with
    | zero =>
      rw [List.head?_eq_getElem?] at hfirst
      exact (head?_flatMap_of_first hfirst (by rw [Tree.level_zero]; rfl) fun i hi => absurd hi i.not_lt_zero).symm
    | succ k =>
      rw [List.getElem?_cons_succ]
      cases hk : left[k]? with
      | some x =>
        obtain ⟨j, t, ht, hhead, hempty⟩ := h.left k x hk
        exact (head?_flatMap_of_first ht hhead hempty).symm
      | none =>
        rw [List.flatMap_eq_nil_iff.mpr fun _ ht => level_eq_nil_of_framed hf hk ht]
        rfl
  right k := by
    rw [Tree.level_succ]
    cases k with
    | zero =>
      rw [List.getLast?_eq_getElem?] at hlast
      refine (getLast?_flatMap_of_last hlast (by rw [Tree.level_zero]; rfl) fun i c hi hc => ?_).symm
      have hlt := (List.getElem?_eq_some_iff.mp hc).1
      omega
    | succ k =>
      rw [List.getElem?_cons_succ, List.getElem?_map]
      cases hk : right[k]? with
      | some q =>
        obtain ⟨t, ht, hend⟩ := h.right k q hk
        refine (getLast?_flatMap_of_last ht hend fun i c hi hc => ?_).symm
        rw [List.eq_nil_iff_forall_not_mem]
        intro x hx
        obtain ⟨q', hq', hle, -⟩ := hf.le_right i c hc k x hx
        obtain rfl := Option.some.inj (hk.symm.trans hq')
        exact absurd hi (not_lt.mpr hle)
      | none =>
        have hleft : left[k]? = none := by
          rwa [List.getElem?_eq_none_iff, hf.length, ← List.getElem?_eq_none_iff]
        rw [List.flatMap_eq_nil_iff.mpr fun _ ht => level_eq_nil_of_framed hf hleft ht]
        rfl

theorem Edged.leaf (v : ℚ) : Edged (.node v []) [] [] :=
  ⟨fun k => by rw [Tree.level_succ]; rfl, fun k => by rw [Tree.level_succ]; rfl⟩

/-! ### What is drawn -/

/-- The outlines of what has been drawn are exact. -/
def Drawn.Exact (d : Drawn ℚ) : Prop :=
  Edged d.figure.places (walk d.slot.modifier d.left) (walk d.slot.modifier d.right)

/-- So are those of a row. -/
def Forest.Exact (f : Forest ℚ) : Prop := Rimmed f.row f.leftPlaces f.rightPlaces

namespace Forest

theorem exact_nil : Exact {} := ⟨fun k x hx => by simp [leftPlaces, walk] at hx,
  fun k q hq => by simp [rightPlaces] at hq⟩

/-- **Keeping the row exact.** -/
theorem Exact.add {f : Forest ℚ} {d : Drawn ℚ} (h : f.Exact) (hf : f.Sound) (he : d.Exact) (hd : d.Sound) :
    (f.add d).Exact := by
  obtain ⟨part, far, hp, ha, -, hlast⟩ := exists_added hf hd
  rw [Exact, ha.row_eq hlast, ha.left, ha.right, ← length_row]
  exact Rimmed.concat h hf.framed he hd hp

/-- **A root above an exact row.** -/
theorem Exact.crown {f : Forest ℚ} (h : f.Exact) (hf : f.Sound) (beside : Option ℚ) :
    (f.crown beside).Exact := by
  rcases crown_eq hf beside with ⟨-, hleaf⟩ | ⟨oldest, youngest, slot, ho, hy, -, habove⟩
  · rw [hleaf]
    exact Edged.leaf _
  · have hedged := (Rimmed.crown h hf.framed (hf.head?_row (head?_figures ho))
      (getLast?_row (getLast?_figures hy)) (slot.prelim - slot.modifier)).shift slot.modifier
    obtain ⟨hleft, hright⟩ := outlines_above ho hy slot
    rw [habove, Drawn.Exact, Drawn.figure]
    show Edged (Figure.places (slot, _)) (walk slot.modifier _) (walk slot.modifier _)
    rw [hleft, hright, above, places_above]
    exact hedged

end Forest

/-- A row of subtrees, each drawn beside the one before. -/
def rowOf {γ : Type} (cs : List (Tree γ)) : Forest ℚ :=
  cs.foldl (fun (f : Forest ℚ) c => f.add (draw c f.lastPrelim?)) {}

theorem rowOf_concat {γ : Type} (cs : List (Tree γ)) (c : Tree γ) :
    rowOf (cs ++ [c]) = (rowOf cs).add (draw c (rowOf cs).lastPrelim?) := by
  rw [rowOf, List.foldl_append]
  rfl

theorem sound_rowOf {γ : Type} (cs : List (Tree γ)) : (rowOf cs).Sound :=
  foldl_add (fun c _ => draw_fits c) Forest.sound_nil

/-- **Whatever is drawn has exact outlines.** -/
theorem draw_exact {γ : Type} (t : Tree γ) (beside : Option ℚ) : (draw t beside).Exact := by
  induction t generalizing beside with
  | node v cs ih =>
    have hrow : ∀ before : List (Tree γ), before ⊆ cs → (rowOf before).Exact := by
      intro before hsub
      induction before using List.reverseRecOn with
      | nil => exact Forest.exact_nil
      | append_singleton before c ihrow =>
        rw [rowOf_concat]
        exact (ihrow fun _ hc => hsub (List.mem_append_left _ hc)).add (sound_rowOf before)
          (ih c (hsub (List.mem_append_right before List.mem_cons_self)) _) (draw_fits c _).sound
    rw [draw_node]
    exact (hrow cs (List.Subset.refl cs)).crown (sound_rowOf cs) beside

theorem exact_rowOf {γ : Type} (cs : List (Tree γ)) : (rowOf cs).Exact := by
  induction cs using List.reverseRecOn with
  | nil => exact Forest.exact_nil
  | append_singleton cs c ih =>
    rw [rowOf_concat]
    exact ih.add (sound_rowOf cs) (draw_exact c _) (draw_fits c _).sound

end FlowTree.Tidy
