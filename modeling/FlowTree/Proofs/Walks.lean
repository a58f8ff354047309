import FlowTree.Tree
import Mathlib.Data.List.Basic
import Mathlib.Data.List.Flatten
import Mathlib.Data.List.Perm.Basic

/-!
# Laws of the walks over a tree

Every walk is a `fold`, so each has one equation for a node with its children; the laws that tie two
walks to each other follow from these equations by induction over the tree.

* **`Tree.induct`** is induction over a tree with a hypothesis for each child.
* **`Tree.level`** is one level of a tree; **`Tree.breadthFirst_perm`** says that the listing by levels
  is the depth-first one in another order.
* **`Tree.map_cut`** and **`Tree.map_mapAbove`** say what a cut and a change above it leave of the values.
-/

namespace FlowTree.Tree

variable {β γ δ : Type}

/-- Induction over a tree: a property holds of a node if it holds of all its children. -/
@[induction_eliminator]
theorem induct {motive : Tree β → Prop}
    (node : ∀ v cs, (∀ c ∈ cs, motive c) → motive (node v cs)) : ∀ t, motive t
  | .node v cs => node v cs fun c _ => induct node c

/-! ### One equation for each walk -/

@[simp] theorem map_node (f : β → γ) (v : β) (cs : List (Tree β)) :
    (node v cs).map f = node (f v) (cs.map (map f)) := by
  rw [map, fold_node]

@[simp] theorem cut_node (stop : β → Bool) (v : β) (cs : List (Tree β)) :
    (node v cs).cut stop = node v (if stop v then [] else cs.map (cut stop)) := by
  rw [cut, fold_node]

@[simp] theorem preorder_node (v : β) (cs : List (Tree β)) :
    (node v cs).preorder = v :: cs.flatMap preorder := by
  rw [preorder, fold_node, List.flatMap_def]

@[simp] theorem levels_node (v : β) (cs : List (Tree β)) :
    (node v cs).levels = [v] :: (cs.map levels).foldr besideLevels [] := by
  rw [levels, fold_node]

/-- The first half of the pair that `mapAbove` folds up is the tree as it was. -/
theorem fold_mapAbove_fst (stop : β → Bool) (f : β → β) (t : Tree β) :
    (fold (γ := Tree β × Tree β)
      (fun v cs => (node v (cs.map (·.1)),
        node (f v) (cs.map fun c => if stop v then c.1 else c.2))) t).1 = t := by
  induction t with
  | node v cs ih =>
    rw [fold_node]
    simp only [List.map_map]
    congr 1
    exact (List.map_congr_left ih).trans cs.map_id

@[simp] theorem mapAbove_node (stop : β → Bool) (f : β → β) (v : β) (cs : List (Tree β)) :
    (node v cs).mapAbove stop f = node (f v) (if stop v then cs else cs.map (mapAbove stop f)) := by
  rw [mapAbove, fold_node]
  simp only [List.map_map]
  congr 1
  split
  · exact (List.map_congr_left fun c _ => fold_mapAbove_fst stop f c).trans cs.map_id
  · rfl

/-! ### Walks that keep the shape -/

theorem map_map (g : γ → δ) (f : β → γ) (t : Tree β) : (t.map f).map g = t.map (g ∘ f) := by
  induction t with
  | node v cs ih =>
    simp only [map_node, List.map_map]
    congr 1
    exact List.map_congr_left ih

theorem map_id (t : Tree β) : t.map id = t := by
  induction t with
  | node v cs ih =>
    rw [map_node]
    exact congrArg _ ((List.map_congr_left ih).trans cs.map_id)

theorem map_congr {f g : β → γ} {t : Tree β} (h : ∀ v ∈ t.preorder, f v = g v) :
    t.map f = t.map g := by
  induction t with
  | node v cs ih =>
    simp only [preorder_node, List.mem_cons, List.mem_flatMap] at h
    rw [map_node, map_node, h v (Or.inl rfl)]
    congr 1
    exact List.map_congr_left fun c hc => ih c hc fun w hw => h w (Or.inr ⟨c, hc, hw⟩)

/-- What two views of the values agree in, they agree in together. -/
theorem map_prod_congr {f : β → γ} {g : β → δ} {t t' : Tree β} (hf : t.map f = t'.map f)
    (hg : t.map g = t'.map g) : (t.map fun v => (f v, g v)) = t'.map fun v => (f v, g v) := by
  induction t generalizing t' with
  | node v cs ih =>
    obtain ⟨v', cs'⟩ := t'
    simp only [map_node, node.injEq] at hf hg
    rw [map_node, map_node, hf.1, hg.1]
    congr 1
    have hlength := congrArg List.length hf.2
    rw [List.length_map, List.length_map] at hlength
    apply List.ext_getElem
    · simpa using hlength
    · intro i h₁ h₂
      rw [List.length_map] at h₁ h₂
      have hfi := congrArg (fun l => l[i]?) hf.2
      have hgi := congrArg (fun l => l[i]?) hg.2
      simp only [List.getElem?_map, List.getElem?_eq_getElem h₁, List.getElem?_eq_getElem h₂,
        Option.map_some, Option.some.injEq] at hfi hgi
      rw [List.getElem_map, List.getElem_map]
      exact ih _ (List.getElem_mem h₁) hfi hgi

/-- Folding a tree with other values. -/
theorem fold_map (f : γ → List δ → δ) (g : β → γ) (t : Tree β) :
    fold f (t.map g) = fold (fun v cs => f (g v) cs) t := by
  induction t with
  | node v cs ih =>
    rw [map_node, fold_node, fold_node, List.map_map]
    congr 1
    exact List.map_congr_left ih

@[simp] theorem value_map (f : β → γ) (t : Tree β) : (t.map f).value = f t.value := by
  cases t with
  | node v cs => rw [map_node]; rfl

@[simp] theorem value_cut (stop : β → Bool) (t : Tree β) : (t.cut stop).value = t.value := by
  cases t with
  | node v cs => rw [cut_node]; rfl

theorem map_cut (f : β → γ) (stop : γ → Bool) (t : Tree β) :
    (t.cut fun v => stop (f v)).map f = (t.map f).cut stop := by
  induction t with
  | node v cs ih =>
    simp only [cut_node, map_node]
    congr 1
    split
    · rfl
    · simp only [List.map_map]
      exact List.map_congr_left ih

/-- A change above a cut changes all that the cut leaves. -/
theorem cut_mapAbove {stop : β → Bool} {f : β → β} (h : ∀ v, stop (f v) = stop v) (t : Tree β) :
    (t.mapAbove stop f).cut stop = (t.cut stop).map f := by
  induction t with
  | node v cs ih =>
    simp only [mapAbove_node, cut_node, map_node, h]
    congr 1
    split
    · rfl
    · simp only [List.map_map]
      exact List.map_congr_left ih

theorem map_mapAbove {stop : β → Bool} {f : β → β} {g : β → γ} (h : ∀ v, g (f v) = g v)
    (t : Tree β) : (t.mapAbove stop f).map g = t.map g := by
  induction t with
  | node v cs ih =>
    simp only [mapAbove_node, map_node, h]
    congr 1
    split
    · rfl
    · simp only [List.map_map]
      exact List.map_congr_left ih

/-- Two changes above the same cut are one. -/
theorem mapAbove_mapAbove {stop : β → Bool} {f : β → β} (h : ∀ v, stop (f v) = stop v) (g : β → β)
    (t : Tree β) : (t.mapAbove stop f).mapAbove stop g = t.mapAbove stop (g ∘ f) := by
  induction t with
  | node v cs ih =>
    simp only [mapAbove_node, h]
    congr 1
    split
    · rfl
    · rw [List.map_map]
      exact List.map_congr_left ih

/-! ### Depth first -/

@[simp] theorem preorder_map (f : β → γ) (t : Tree β) : (t.map f).preorder = t.preorder.map f := by
  induction t with
  | node v cs ih =>
    rw [map_node, preorder_node, preorder_node, List.map_cons, List.map_flatMap, List.flatMap_map]
    congr 1
    exact List.flatMap_congr ih

theorem preorder_cut_sublist (stop : β → Bool) (t : Tree β) :
    (t.cut stop).preorder.Sublist t.preorder := by
  induction t with
  | node v cs ih =>
    simp only [cut_node, preorder_node]
    refine List.Sublist.cons_cons v ?_
    split
    · exact List.nil_sublist _
    · rw [List.flatMap_map]
      exact List.Sublist.flatMap_right cs ih

/-- Where nothing stops, nothing is cut. -/
theorem cut_of_forall {stop : β → Bool} {t : Tree β} (h : ∀ v ∈ t.preorder, stop v = false) :
    t.cut stop = t := by
  induction t with
  | node v cs ih =>
    simp only [preorder_node, List.mem_cons, List.mem_flatMap] at h
    rw [cut_node, h v (Or.inl rfl), if_neg Bool.false_ne_true]
    congr 1
    refine (List.map_congr_left fun c hc => ?_).trans cs.map_id
    exact ih c hc fun w hw => h w (Or.inr ⟨c, hc, hw⟩)

/-- A change that moves nothing of what a cut leaves moves nothing at all. -/
theorem mapAbove_of_forall {stop : β → Bool} {f : β → β} {t : Tree β}
    (h : ∀ v ∈ (t.cut stop).preorder, f v = v) : t.mapAbove stop f = t := by
  induction t with
  | node v cs ih =>
    rw [cut_node, preorder_node] at h
    rw [mapAbove_node, h v List.mem_cons_self]
    congr 1
    split
    · rfl
    · next hstop =>
      rw [if_neg hstop] at h
      refine (List.map_congr_left fun c hc => ?_).trans cs.map_id
      refine ih c hc fun w hw => h w (List.mem_cons_of_mem v ?_)
      exact List.mem_flatMap.mpr ⟨_, List.mem_map_of_mem hc, hw⟩

/-! ### Level by level -/

theorem getD_besideLevels (ls rs : List (List β)) (k : Nat) :
    (besideLevels ls rs)[k]?.getD [] = ls[k]?.getD [] ++ rs[k]?.getD [] := by
  induction ls, rs using besideLevels.induct generalizing k with
  | case1 rs => simp [besideLevels]
  | case2 ls h => simp [besideLevels]
  | case3 l ls r rs ih =>
    cases k with
    | zero => simp [besideLevels]
    | succ k => simpa [besideLevels] using ih k

theorem flatten_besideLevels_perm (ls rs : List (List β)) :
    (besideLevels ls rs).flatten.Perm (ls.flatten ++ rs.flatten) := by
  induction ls, rs using besideLevels.induct with
  | case1 rs => simp [besideLevels]
  | case2 ls h => simp [besideLevels]
  | case3 l ls r rs ih =>
    simp only [besideLevels, List.flatten_cons, List.append_assoc]
    refine List.Perm.append_left l ?_
    refine (List.Perm.append_left r ih).trans ?_
    rw [← List.append_assoc, ← List.append_assoc]
    exact List.Perm.append_right rs.flatten List.perm_append_comm

theorem map_besideLevels (f : β → γ) (ls rs : List (List β)) :
    (besideLevels ls rs).map (List.map f) =
      besideLevels (ls.map (List.map f)) (rs.map (List.map f)) := by
  induction ls, rs using besideLevels.induct with
  | case1 rs => simp [besideLevels]
  | case2 ls h => cases ls <;> simp [besideLevels]
  | case3 l ls r rs ih => simp [besideLevels, ih]

/-- The values of one level, from left to right; nothing below the last level. -/
def level (t : Tree β) (k : Nat) : List β := t.levels[k]?.getD []

@[simp] theorem level_zero (t : Tree β) : t.level 0 = [t.value] := by
  cases t with
  | node v cs => simp [level, value]

@[simp] theorem level_succ (v : β) (cs : List (Tree β)) (k : Nat) :
    (node v cs).level (k + 1) = cs.flatMap fun c => c.level k := by
  simp only [level, levels_node, List.getElem?_cons_succ]
  induction cs with
  | nil => simp
  | cons c cs ih =>
    rw [List.map_cons, List.foldr_cons, getD_besideLevels, ih, List.flatMap_cons]

theorem level_of_levels {t : Tree β} {k : Nat} {l : List β} (h : t.levels[k]? = some l) :
    t.level k = l := by
  rw [level, h]
  rfl

/-- No level is empty above a node. -/
theorem exists_mem_level {t : Tree β} {i k : Nat} (hik : i ≤ k) {x : β} (hx : x ∈ t.level k) :
    ∃ y, y ∈ t.level i := by
  induction t generalizing i k with
  | node v cs ih =>
    cases i with
    | zero => exact ⟨v, by simp [value]⟩
    | succ i =>
      obtain ⟨m, rfl⟩ := Nat.exists_eq_add_of_le' (Nat.one_le_of_lt hik)
      rw [level_succ] at hx ⊢
      obtain ⟨c, hc, hx⟩ := List.mem_flatMap.mp hx
      obtain ⟨y, hy⟩ := ih c hc (Nat.le_of_succ_le_succ hik) hx
      exact ⟨y, List.mem_flatMap.mpr ⟨c, hc, hy⟩⟩

theorem levels_map (f : β → γ) (t : Tree β) : (t.map f).levels = t.levels.map (List.map f) := by
  induction t with
  | node v cs ih =>
    simp only [map_node, levels_node, List.map_cons, List.map_nil, List.map_map]
    congr 1
    clear v
    induction cs with
    | nil => rfl
    | cons c cs ihcs =>
      rw [List.map_cons, List.foldr_cons, List.map_cons, List.foldr_cons, map_besideLevels,
        ihcs fun d hd => ih d (List.mem_cons_of_mem c hd), ← ih c List.mem_cons_self]
      rfl

@[simp] theorem level_map (f : β → γ) (t : Tree β) (k : Nat) :
    (t.map f).level k = (t.level k).map f := by
  rw [level, level, levels_map, List.getElem?_map]
  cases t.levels[k]? <;> rfl

@[simp] theorem breadthFirst_map (f : β → γ) (t : Tree β) :
    (t.map f).breadthFirst = t.breadthFirst.map f := by
  rw [breadthFirst, breadthFirst, levels_map, List.map_flatten]

/-- The two listings hold the same values. -/
theorem breadthFirst_perm (t : Tree β) : t.breadthFirst.Perm t.preorder := by
  induction t with
  | node v cs ih =>
    rw [breadthFirst, levels_node, preorder_node, List.flatten_cons, List.singleton_append]
    refine List.Perm.cons v ?_
    clear v
    induction cs with
    | nil => exact List.Perm.refl _
    | cons c cs ihcs =>
      rw [List.map_cons, List.foldr_cons, List.flatMap_cons]
      exact (flatten_besideLevels_perm _ _).trans
        ((ih c List.mem_cons_self).append (ihcs fun d hd => ih d (List.mem_cons_of_mem c hd)))

/-- Both listings begin with the root. -/
theorem breadthFirst_eq_cons (t : Tree β) : t.breadthFirst = t.value :: t.breadthFirst.tail := by
  cases t with
  | node v cs => rw [breadthFirst, levels_node]; rfl

theorem preorder_eq_cons (t : Tree β) : t.preorder = t.value :: t.preorder.tail := by
  cases t with
  | node v cs => rw [preorder_node]; rfl

end FlowTree.Tree
