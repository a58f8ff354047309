import Mathlib.Data.List.Basic
import Mathlib.Data.List.Nodup

/-!
# Checked runs

A drawing that is kept in arrays reads and writes at positions, looks keys up in tables and goes round in loops.
A checked run does so too, but notices whatever would go wrong.

* **`Fault`** lists what can go wrong, **`Checked`** is a run that may.
* **`Checked.get`**, **`Checked.modify`**, **`Checked.lookup`**, **`Checked.from?`** and **`Checked.minus`** are the
  partial operations.
* **`Checked.mapM_eq`** and **`Checked.foldlM_eq`** turn a run over a list in which nothing goes wrong into a plain
  walk over the list.
-/

namespace FlowTree

/-- What can go wrong. -/
inductive Fault where
  /-- There is nothing at the position. -/
  | position
  /-- The table has no such key. -/
  | key
  /-- A natural number would become negative. -/
  | underflow
  /-- A loop or a recursion has used up all its rounds. -/
  | rounds
  deriving DecidableEq, Repr

/-- A run that may go wrong. -/
abbrev Checked := Except Fault

namespace Checked

variable {β γ κ : Type}

@[simp] theorem ok_bind (x : β) (f : β → Checked γ) : (Except.ok x >>= f) = f x := rfl

@[simp] theorem pure_eq (x : β) : (pure x : Checked β) = .ok x := rfl

@[simp] theorem map_ok (f : β → γ) (x : β) : (f <$> (Except.ok x : Checked β)) = .ok (f x) := rfl

/-! ### Partial operations -/

/-- What is there; the fault if there is nothing. -/
def present (fault : Fault) : Option β → Checked β
  | some x => .ok x
  | none => .error fault

@[simp] theorem present_some (fault : Fault) (x : β) : present fault (some x) = .ok x := rfl

/-- What stands at a position. -/
def get (l : List β) (i : ℕ) : Checked β := present .position l[i]?

/-- The list with another value at a position. -/
def modify (l : List β) (i : ℕ) (f : β → β) : Checked (List β) :=
  if i < l.length then .ok (l.modify i f) else .error .position

/-- The value that was put into a table last under a key, if there is one. -/
def find? [BEq κ] (table : List (κ × β)) (key : κ) : Option β := table.reverse.lookup key

/-- The value under a key that the table has. -/
def lookup [BEq κ] (table : List (κ × β)) (key : κ) : Checked β := present .key (find? table key)

/-- The rest of a list from a position on. -/
def from? (l : List β) (i : ℕ) : Checked (List β) :=
  if i ≤ l.length then .ok (l.drop i) else .error .position

/-- The difference of two natural numbers. -/
def minus (m n : ℕ) : Checked ℕ := if n ≤ m then .ok (m - n) else .error .underflow

theorem get_eq {l : List β} {i : ℕ} {x : β} (h : l[i]? = some x) : get l i = .ok x := by
  rw [get, h, present_some]

theorem modify_eq {l : List β} {i : ℕ} (h : i < l.length) (f : β → β) : modify l i f = .ok (l.modify i f) :=
  if_pos h

/-! ### Runs in which nothing goes wrong -/

theorem bind_eq_ok_iff {x : Checked β} {f : β → Checked γ} {y : γ} :
    x >>= f = .ok y ↔ ∃ a, x = .ok a ∧ f a = .ok y := by
  cases x with
  | error e => exact ⟨fun h => (nomatch h), fun ⟨_, h, _⟩ => (nomatch h)⟩
  | ok a => exact ⟨fun h => ⟨a, rfl, h⟩, fun ⟨_, ha, hf⟩ => Except.ok.inj ha ▸ hf⟩

theorem map_fst_eq_ok_iff {x : Checked (β × γ)} {a : β} : Prod.fst <$> x = .ok a ↔ ∃ b, x = .ok (a, b) := by
  cases x with
  | error e => exact ⟨fun h => (nomatch h), fun ⟨_, h⟩ => (nomatch h)⟩
  | ok p => exact ⟨fun h => ⟨p.2, Except.ok.inj h ▸ rfl⟩, fun ⟨b, hb⟩ => Except.ok.inj hb ▸ rfl⟩

theorem get_eq_ok_iff {l : List β} {i : ℕ} {x : β} : get l i = .ok x ↔ l[i]? = some x := by
  refine ⟨fun h => ?_, get_eq⟩
  rw [get] at h
  cases hx : l[i]? with
  | none => rw [hx] at h; exact nomatch h
  | some y => rw [hx, present_some] at h; exact congrArg some (Except.ok.inj h)

theorem eq_modify {l l' : List β} {i : ℕ} {f : β → β} (h : modify l i f = .ok l') : l' = l.modify i f := by
  rw [modify] at h
  split at h
  · exact (Except.ok.inj h).symm
  · exact nomatch h

/-- Only the value at the position matters. -/
theorem modify_congr {l : List β} {i : ℕ} {x : β} (hx : l[i]? = some x) {f g : β → β} (h : f x = g x) :
    l.modify i f = l.modify i g := by
  apply List.ext_getElem?
  intro j
  rw [List.getElem?_modify, List.getElem?_modify]
  by_cases hij : i = j
  · subst hij
    simp [hx, h]
  · simp [hij]

theorem modify_eq_mapIdx (l : List β) (i : ℕ) (f : β → β) :
    l.modify i f = l.mapIdx fun j x => if j = i then f x else x := by
  apply List.ext_getElem?
  intro j
  rw [List.getElem?_modify, List.getElem?_mapIdx, Option.map_eq_map]
  by_cases hj : j = i
  · simp [hj]
  · simp [hj, Ne.symm hj]

/-- What lists of one image hold at a position has one image. -/
theorem exists_of_map_eq {f : β → γ} {l l' : List β} (h : l.map f = l'.map f) {i : ℕ} {x : β}
    (hx : l'[i]? = some x) : ∃ y, l[i]? = some y ∧ f y = f x := by
  have himage := congrArg (·[i]?) h
  simp only [List.getElem?_map, hx, Option.map_some] at himage
  exact Option.map_eq_some_iff.mp himage

theorem from?_eq {l : List β} {i : ℕ} (h : i ≤ l.length) : from? l i = .ok (l.drop i) := if_pos h

theorem minus_eq {m n : ℕ} (h : n ≤ m) : minus m n = .ok (m - n) := if_pos h

/-! ### Tables -/

theorem lookup_eq_some_iff [DecidableEq κ] {table : List (κ × β)} (hnodup : (table.map (·.1)).Nodup) {key : κ}
    {x : β} : table.lookup key = some x ↔ (key, x) ∈ table := by
  induction table with
  | nil => simp
  | cons entry table ih =>
    obtain ⟨k, y⟩ := entry
    rw [List.map_cons, List.nodup_cons] at hnodup
    rw [List.lookup_cons, List.mem_cons]
    by_cases hk : key = k
    · subst hk
      have hnot : (key, x) ∉ table := fun hmem => hnodup.1 (List.mem_map_of_mem (f := (·.1)) hmem)
      simp [hnot, eq_comm]
    · simp [beq_false_of_ne hk, hk, ih hnodup.2]

theorem find?_eq_some_iff [DecidableEq κ] {table : List (κ × β)} (hnodup : (table.map (·.1)).Nodup) {key : κ}
    {x : β} : find? table key = some x ↔ (key, x) ∈ table := by
  rw [find?, lookup_eq_some_iff (by rwa [List.map_reverse, List.nodup_reverse]), List.mem_reverse]

/-- Among different keys the last value is the first one. -/
theorem find?_eq_lookup [DecidableEq κ] {table : List (κ × β)} (hnodup : (table.map (·.1)).Nodup) (key : κ) :
    find? table key = table.lookup key := by
  apply Option.ext
  intro x
  rw [find?_eq_some_iff hnodup, lookup_eq_some_iff hnodup]

/-! ### Runs over lists -/

theorem mapM_eq {f : β → Checked γ} {p : κ → β} {g : κ → γ} {l : List κ} (h : ∀ x ∈ l, f (p x) = .ok (g x)) :
    (l.map p).mapM f = .ok (l.map g) := by
  induction l with
  | nil => rfl
  | cons x l ih =>
    rw [List.map_cons, List.mapM_cons, h x List.mem_cons_self, ok_bind,
      ih fun y hy => h y (List.mem_cons_of_mem x hy), ok_bind]
    rfl

theorem foldlM_eq {f : γ → β → Checked γ} {g : γ → β → γ} {P : γ → Prop} {l : List β} {s : γ} (hs : P s)
    (h : ∀ x ∈ l, ∀ s, P s → f s x = .ok (g s x) ∧ P (g s x)) :
    l.foldlM f s = .ok (l.foldl g s) ∧ P (l.foldl g s) := by
  induction l generalizing s with
  | nil => exact ⟨rfl, hs⟩
  | cons x l ih =>
    obtain ⟨hstep, hkeep⟩ := h x List.mem_cons_self s hs
    rw [List.foldlM_cons, hstep, ok_bind, List.foldl_cons]
    exact ih hkeep fun y hy => h y (List.mem_cons_of_mem x hy)

/-- What every step keeps is kept by a run that goes through. -/
theorem foldlM_keeps {f : γ → β → Checked γ} {P : γ → Prop} {l : List β} {s s' : γ}
    (h : ∀ x ∈ l, ∀ s s', P s → f s x = .ok s' → P s') (hs : P s) (hrun : l.foldlM f s = .ok s') : P s' := by
  induction l generalizing s with
  | nil => exact Except.ok.inj hrun ▸ hs
  | cons x l ih =>
    rw [List.foldlM_cons, bind_eq_ok_iff] at hrun
    obtain ⟨s₁, hstep, hrest⟩ := hrun
    exact ih (fun y hy => h y (List.mem_cons_of_mem x hy)) (h x List.mem_cons_self s s₁ hs hstep) hrest

/-- Changing the values at different positions one after the other changes them all. -/
theorem foldl_modify {order : List ℕ} (hnodup : order.Nodup) (l : List β) (f : ℕ → β → β) :
    order.foldl (fun l i => l.modify i (f i)) l = l.mapIdx fun i x => if i ∈ order then f i x else x := by
  induction order generalizing l with
  | nil => exact List.ext_getElem? fun j => by simp
  | cons i order ih =>
    rw [List.nodup_cons] at hnodup
    rw [List.foldl_cons, ih hnodup.2]
    refine List.ext_getElem? fun j => ?_
    rw [List.getElem?_mapIdx, List.getElem?_mapIdx, List.getElem?_modify, Option.map_eq_map, Option.map_map]
    congr 1
    funext x
    by_cases hij : i = j
    · subst hij
      simp [hnodup.1]
    · simp [hij, Ne.symm hij]

end Checked

end FlowTree
