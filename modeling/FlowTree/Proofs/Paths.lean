import FlowTree.Proofs.Walks
import Mathlib.Data.List.Nodup

/-!
# Paths into a tree

A node of a tree is named by its path, the list of child positions on the way from the root.

* **`Tree.at?`** follows a path; **`Tree.mem_located_iff`** says that `Tree.located` lists exactly the
  paths that lead somewhere, each with the value found there.
* **`Tree.paths_nodup`** says that it lists no path twice.
-/

namespace FlowTree.Tree

variable {β γ : Type}

/-- The subtree at the end of a path, if the path stays inside the tree. -/
def at? (t : Tree β) : List Nat → Option (Tree β)
  | [] => some t
  | i :: path => t.children[i]?.bind fun c => c.at? path

@[simp] theorem at?_nil (t : Tree β) : t.at? [] = some t := rfl

@[simp] theorem at?_cons (v : β) (cs : List (Tree β)) (i : Nat) (path : List Nat) :
    (node v cs).at? (i :: path) = cs[i]?.bind fun c => c.at? path := rfl

theorem at?_cons_eq_some_iff {v : β} {cs : List (Tree β)} {i : Nat} {path : List Nat}
    {s : Tree β} :
    (node v cs).at? (i :: path) = some s ↔ ∃ c, cs[i]? = some c ∧ c.at? path = some s := by
  rw [at?_cons, Option.bind_eq_some_iff]

theorem at?_append (t : Tree β) (p q : List Nat) :
    t.at? (p ++ q) = (t.at? p).bind fun s => s.at? q := by
  induction p generalizing t with
  | nil => rfl
  | cons i p ih =>
    cases t with
    | node v cs =>
      rw [List.cons_append, at?_cons, at?_cons]
      cases cs[i]? with
      | none => rfl
      | some c => exact ih c

/-- A path that goes on by one step leads to a child. -/
theorem at?_concat {t : Tree β} {v : β} {cs : List (Tree β)} {path : List Nat}
    (hat : t.at? path = some (node v cs)) {i : Nat} (hi : i < cs.length) : t.at? (path ++ [i]) = some cs[i] := by
  rw [at?_append, hat, Option.bind_some, at?_cons, List.getElem?_eq_getElem hi]
  rfl

/-- A path without its last step leads to a subtree too. -/
theorem exists_at?_dropLast {t s : Tree β} {path : List Nat} (h : t.at? path = some s) :
    ∃ u, t.at? path.dropLast = some u := by
  rcases List.eq_nil_or_concat path with rfl | ⟨p, i, rfl⟩
  · exact ⟨s, h⟩
  · rw [List.concat_eq_append, at?_append, Option.bind_eq_some_iff] at h
    obtain ⟨u, hu, -⟩ := h
    exact ⟨u, by rwa [List.concat_eq_append, List.dropLast_concat]⟩

theorem at?_map (f : β → γ) (t : Tree β) (path : List Nat) : (t.map f).at? path = (t.at? path).map (map f) := by
  induction path generalizing t with
  | nil => rfl
  | cons i path ih =>
    cases t with
    | node v cs =>
      rw [map_node, at?_cons, at?_cons, List.getElem?_map]
      cases cs[i]? with
      | none => rfl
      | some c => exact ih c

/-! ### The listing of places -/

/-- Each value with its path, the root being at the end of `path`. -/
def locatedAt (path : List Nat) (t : Tree β) : Tree (List Nat × β) :=
  fold (γ := List Nat → Tree (List Nat × β))
    (fun v cs path => node (path, v) (cs.mapIdx fun i c => c (path ++ [i]))) t path

theorem located_eq (t : Tree β) : t.located = t.locatedAt [] := rfl

@[simp] theorem locatedAt_node (path : List Nat) (v : β) (cs : List (Tree β)) :
    (node v cs).locatedAt path =
      node (path, v) (cs.mapIdx fun i c => c.locatedAt (path ++ [i])) := by
  rw [locatedAt, fold_node]
  congr 1
  exact List.ext_getElem (by simp) fun i h₁ h₂ => by simp [locatedAt]

@[simp] theorem value_locatedAt (path : List Nat) (t : Tree β) :
    (t.locatedAt path).value = (path, t.value) := by
  cases t with
  | node v cs => rw [locatedAt_node]; rfl

theorem at?_locatedAt (path : List Nat) (t : Tree β) (q : List Nat) :
    (t.locatedAt path).at? q = (t.at? q).map (locatedAt (path ++ q)) := by
  induction q generalizing path t with
  | nil => rw [List.append_nil, at?_nil, at?_nil, Option.map_some]
  | cons i q ih =>
    obtain ⟨v, cs⟩ := t
    rw [locatedAt_node, at?_cons, at?_cons, List.getElem?_mapIdx]
    cases cs[i]? with
    | none => rfl
    | some c =>
      rw [Option.map_some, Option.bind_some, ih, List.append_assoc]
      rfl

/-- Forgetting the paths gives back the tree. -/
theorem map_snd_locatedAt (path : List Nat) (t : Tree β) : (t.locatedAt path).map (·.2) = t := by
  induction t generalizing path with
  | node v cs ih =>
    rw [locatedAt_node, map_node]
    congr 1
    apply List.ext_getElem
    · simp
    · intro i h₁ h₂
      rw [List.getElem_map, List.getElem_mapIdx]
      exact ih _ (List.getElem_mem _) _

/-- The paths do not depend on the values. -/
theorem locatedAt_map (f : β → γ) (path : List Nat) (t : Tree β) :
    (t.map f).locatedAt path = (t.locatedAt path).map fun x => (x.1, f x.2) := by
  induction t generalizing path with
  | node v cs ih =>
    rw [map_node, locatedAt_node, locatedAt_node, map_node]
    congr 1
    apply List.ext_getElem
    · simp
    · intro i h₁ h₂
      rw [List.getElem_mapIdx, List.getElem_map, List.getElem_map, List.getElem_mapIdx]
      exact ih _ (List.getElem_mem _) _

/-- On each level the paths are one step longer. -/
theorem length_of_mem_level {path : List Nat} {t : Tree β} {k : Nat} {x : List Nat × β}
    (h : x ∈ (t.locatedAt path).level k) : x.1.length = path.length + k := by
  induction t generalizing path k with
  | node v cs ih =>
    cases k with
    | zero =>
      rw [level_zero, List.mem_singleton, value_locatedAt] at h
      rw [h]
      rfl
    | succ k =>
      rw [locatedAt_node, level_succ] at h
      obtain ⟨c, hc, hx⟩ := List.mem_flatMap.mp h
      obtain ⟨i, hi, rfl⟩ := List.mem_mapIdx.mp hc
      rw [ih _ (List.getElem_mem hi) hx, List.length_append, List.length_singleton]
      omega

/-- A level of a tree with its paths. -/
theorem map_snd_level (path : List Nat) (t : Tree β) (k : Nat) :
    ((t.locatedAt path).level k).map (·.2) = t.level k := by
  rw [← level_map, map_snd_locatedAt]

theorem snd_mem_level {path : List Nat} {t : Tree β} {k : Nat} {x : List Nat × β}
    (h : x ∈ (t.locatedAt path).level k) : x.2 ∈ t.level k := by
  rw [← map_snd_level path]
  exact List.mem_map_of_mem h

/-- No path is longer than the tree is high. -/
theorem length_le_height {t : Tree β} {x : List Nat × β} (hx : x ∈ t.located.breadthFirst) :
    x.1.length ≤ t.height := by
  obtain ⟨l, hl, hxl⟩ := List.mem_flatten.mp hx
  obtain ⟨k, hk⟩ := List.getElem?_of_mem hl
  have hlevel : x.1.length = [].length + k := length_of_mem_level ((level_of_levels hk).symm ▸ hxl)
  have hlength : t.located.levels.length = t.levels.length := by
    conv_rhs => rw [← map_snd_locatedAt [] t, levels_map, List.length_map]
    rfl
  have hlt := (List.getElem?_eq_some_iff.mp hk).1
  rw [height, hlevel, List.length_nil, ← hlength]
  omega

/-- Trees of one shape have the same paths in the same order. -/
theorem paths_eq_of_shape {t : Tree β} {s : Tree γ}
    (h : (t.map fun _ => ()) = s.map fun _ => ()) :
    t.located.breadthFirst.map (·.1) = s.located.breadthFirst.map (·.1) := by
  have hpaths := congrArg (fun u => (u.locatedAt []).breadthFirst.map (·.1)) h
  simp only [locatedAt_map, breadthFirst_map, List.map_map] at hpaths
  exact hpaths

/-- The paths that lead somewhere do not depend on the values. -/
theorem isSome_at?_of_shape {t : Tree β} {s : Tree γ} (h : (t.map fun _ => ()) = s.map fun _ => ())
    (path : List Nat) : (t.at? path).isSome = (s.at? path).isSome := by
  have hpath := congrArg (fun u => (u.at? path).isSome) h
  simpa only [at?_map, Option.isSome_map] using hpath

theorem mem_preorder_locatedAt {path : List Nat} {t : Tree β} {p : List Nat} {v : β} :
    (p, v) ∈ (t.locatedAt path).preorder ↔
      ∃ q s, p = path ++ q ∧ t.at? q = some s ∧ s.value = v := by
  induction t generalizing path with
  | node w cs ih =>
    rw [locatedAt_node, preorder_node, List.mem_cons, List.mem_flatMap]
    constructor
    · rintro (heq | ⟨c, hc, hmem⟩)
      · cases heq
        exact ⟨[], _, by simp, rfl, rfl⟩
      · obtain ⟨i, hi, rfl⟩ := List.mem_mapIdx.mp hc
        obtain ⟨q, s, rfl, hs, rfl⟩ := (ih _ (List.getElem_mem hi)).mp hmem
        exact ⟨i :: q, s, by simp, by rw [at?_cons, List.getElem?_eq_getElem hi]; exact hs, rfl⟩
    · rintro ⟨q, s, rfl, hs, rfl⟩
      cases q with
      | nil =>
        cases hs
        exact Or.inl (by simp [value])
      | cons i q =>
        obtain ⟨c, hc, hs⟩ := at?_cons_eq_some_iff.mp hs
        obtain ⟨hi, rfl⟩ := List.getElem?_eq_some_iff.mp hc
        exact Or.inr ⟨_, List.mem_mapIdx.mpr ⟨i, hi, rfl⟩,
          (ih _ (List.getElem_mem hi)).mpr ⟨q, s, by simp, hs, rfl⟩⟩

/-- The places of a tree are the ends of its paths. -/
theorem mem_located_iff {t : Tree β} {p : List Nat} {v : β} :
    (p, v) ∈ t.located.preorder ↔ ∃ s, t.at? p = some s ∧ s.value = v := by
  rw [located_eq, mem_preorder_locatedAt]
  simp

theorem paths_nodup_locatedAt (path : List Nat) (t : Tree β) :
    ((t.locatedAt path).preorder.map (·.1)).Nodup := by
  induction t generalizing path with
  | node v cs ih =>
    rw [locatedAt_node, preorder_node, List.map_cons, List.nodup_cons, List.map_flatMap,
      List.nodup_flatMap]
    refine ⟨?_, ?_, ?_⟩
    · -- a path below the root is longer than the path of the root
      intro hmem
      obtain ⟨c, hc, hp⟩ := List.mem_flatMap.mp hmem
      obtain ⟨i, hi, rfl⟩ := List.mem_mapIdx.mp hc
      obtain ⟨⟨p, w⟩, hw, heq⟩ := List.mem_map.mp hp
      obtain ⟨q, s, rfl, -, -⟩ := mem_preorder_locatedAt.mp hw
      simpa using congrArg List.length heq
    · intro c hc
      obtain ⟨i, hi, rfl⟩ := List.mem_mapIdx.mp hc
      exact ih _ (List.getElem_mem hi) _
    · -- paths below two children part at their positions
      rw [List.pairwise_iff_getElem]
      intro i j hi hj hij
      simp only [List.getElem_mapIdx, Function.onFun, List.disjoint_left]
      intro p hp hp'
      obtain ⟨⟨p₁, w₁⟩, hw₁, rfl⟩ := List.mem_map.mp hp
      obtain ⟨⟨p₂, w₂⟩, hw₂, heq⟩ := List.mem_map.mp hp'
      obtain ⟨q₁, s₁, rfl, -, -⟩ := mem_preorder_locatedAt.mp hw₁
      obtain ⟨q₂, s₂, rfl, -, -⟩ := mem_preorder_locatedAt.mp hw₂
      simp only [List.append_assoc, List.append_cancel_left_eq, List.singleton_append,
        List.cons.injEq] at heq
      omega

/-- No two places of a tree have the same path. -/
theorem paths_nodup (t : Tree β) : (t.located.preorder.map (·.1)).Nodup :=
  paths_nodup_locatedAt [] t

theorem located_preorder_nodup (t : Tree β) : t.located.preorder.Nodup :=
  List.Nodup.of_map _ t.paths_nodup

theorem map_snd_located_breadthFirst (t : Tree β) :
    t.located.breadthFirst.map (·.2) = t.breadthFirst := by
  rw [← breadthFirst_map, located_eq, map_snd_locatedAt]

theorem map_snd_located_preorder (t : Tree β) :
    t.located.preorder.map (·.2) = t.preorder := by
  rw [← preorder_map, located_eq, map_snd_locatedAt]

theorem value_mem_preorder {t s : Tree β} {path : List Nat} (h : t.at? path = some s) :
    s.value ∈ t.preorder := by
  rw [← map_snd_located_preorder]
  exact List.mem_map_of_mem (mem_located_iff.mpr ⟨s, h, rfl⟩)

theorem exists_at? {t : Tree β} {v : β} (hv : v ∈ t.preorder) :
    ∃ path s, t.at? path = some s ∧ s.value = v := by
  rw [← map_snd_located_preorder] at hv
  obtain ⟨⟨path, w⟩, hmem, rfl⟩ := List.mem_map.mp hv
  obtain ⟨s, hs, hvalue⟩ := mem_located_iff.mp hmem
  exact ⟨path, s, hs, hvalue⟩

end FlowTree.Tree
