import FlowTree.Proofs.Arena.Listing

/-!
# Building a hierarchy in an array

* **`Arena.push`** appends a tree of a document to an array, a node before its children, and fills in the
  positions of the children once they are known.
* **`Arena.push_grow`** says which slots are appended; **`Hierarchy.ofTree_arena`** says that a tree becomes the
  array of its hierarchy.
-/

namespace FlowTree

variable {α : Type}

namespace Arena

section Push

variable [Scalar α]

mutual

/-- Appends a tree whose root has the given parent, depth and id; the position of its root. -/
def push (parent : Option ℕ) (depth : ℕ) (id : String) :
    Tree (NodeInfo α) → Arena α → Checked (ℕ × Arena α)
  | .node info children, a => do
    let i := a.length
    let (below, a) ← pushAll i (depth + 1) [] children (a ++ [⟨Hierarchy.freshNode id info, parent, depth, [], []⟩])
    let a ← Checked.modify a i fun s => { s with children := below }
    return (i, a)

/-- Appends the children of the node at position `i`; `earlier` are the labels of the older ones. -/
def pushAll (i depth : ℕ) (earlier : List String) :
    List (Tree (NodeInfo α)) → Arena α → Checked (List ℕ × Arena α)
  | [], a => return ([], a)
  | t :: ts, a => do
    let parent ← Checked.get a i
    let id := NodeId.child parent.node.id t.value.label (earlier.count t.value.label)
    let (first, a) ← push (some i) depth id t a
    let (rest, a) ← pushAll i depth (t.value.label :: earlier) ts a
    return (first :: rest, a)

end

/-- The array of a tree of a document. -/
def ofTree (t : Tree (NodeInfo α)) : Checked (Arena α) := do
  let (_, a) ← push none 0 (NodeId.escapeLabel t.value.label) t []
  return a

end Push

end Arena

theorem modify_length_append {β : Type} (l : List β) (x : β) (r : List β) (f : β → β) :
    (l ++ x :: r).modify l.length f = l ++ f x :: r := by
  induction l with
  | nil => rfl
  | cons y l ih => simp [ih]

namespace Hierarchy

/-! ### Numbered entries -/

/-- The slot of an open node if positions are numbered by `place`. -/
def slotAt (place : List ℕ → ℕ) (x : List ℕ × Node α × ℕ) : Slot α where
  node := x.2.1
  parent := if x.1.isEmpty then none else some (place x.1.dropLast)
  depth := x.1.length
  children := (List.range x.2.2).map fun i => place (x.1 ++ [i])
  hidden := []

/-- The nodes of a subtree at the end of a path, each with its path and the number of its children. -/
def entriesAt (path : List ℕ) (t : Tree (Node α)) : List (List ℕ × Node α × ℕ) :=
  (t.counted.locatedAt path).preorder

/-- The nodes of the subtrees from the child `k` on. -/
def entriesBelow (path : List ℕ) (k : ℕ) (ts : List (Tree (Node α))) : List (List ℕ × Node α × ℕ) :=
  (ts.zipIdx k).flatMap fun x => entriesAt (path ++ [x.2]) x.1

theorem entriesAt_node (path : List ℕ) (n : Node α) (cs : List (Tree (Node α))) :
    entriesAt path (.node n cs) = (path, n, cs.length) :: entriesBelow path 0 cs := by
  rw [entriesAt, Tree.counted_node, Tree.locatedAt_node, Tree.preorder_node, List.mapIdx_eq_zipIdx_map,
    List.flatMap_map, List.zipIdx_map, List.flatMap_map]
  rfl

theorem entriesBelow_cons (path : List ℕ) (k : ℕ) (t : Tree (Node α)) (ts : List (Tree (Node α))) :
    entriesBelow path k (t :: ts) = entriesAt (path ++ [k]) t ++ entriesBelow path (k + 1) ts := by
  rw [entriesBelow, List.zipIdx_cons, List.flatMap_cons]
  rfl

/-- The paths of the entries are numbered from `base` on, one after the other. -/
def Numbered (place : List ℕ → ℕ) (base : ℕ) (entries : List (List ℕ × Node α × ℕ)) : Prop :=
  entries.map (fun x => place x.1) = List.range' base entries.length

section Numbered

variable {place : List ℕ → ℕ} {base : ℕ}

theorem Numbered.of_cons {x : List ℕ × Node α × ℕ} {xs : List (List ℕ × Node α × ℕ)}
    (h : Numbered place base (x :: xs)) : place x.1 = base ∧ Numbered place (base + 1) xs := by
  rw [Numbered, List.map_cons, List.length_cons, List.range'_succ, List.cons.injEq] at h
  exact h

theorem Numbered.of_append {xs ys : List (List ℕ × Node α × ℕ)} (h : Numbered place base (xs ++ ys)) :
    Numbered place base xs ∧ Numbered place (base + xs.length) ys := by
  rw [Numbered, List.map_append, List.length_append, ← List.range'_append_1] at h
  exact List.append_inj h (by rw [List.length_map, List.length_range'])

end Numbered

/-! ### Growing -/

variable [Scalar α] {place : List ℕ → ℕ}

theorem length_growAll (id : String) (earlier : List String) (ts : List (Tree (NodeInfo α))) :
    (growAll id earlier ts).length = ts.length := by
  induction ts generalizing earlier with
  | nil => simp [growAll]
  | cons t ts ih => rw [growAll, List.length_cons, List.length_cons, ih]

/-- A grown subtree is appended if its paths are numbered from the end of the array on. -/
def Pushes (place : List ℕ → ℕ) (t : Tree (NodeInfo α)) : Prop :=
  ∀ (path : List ℕ) (id : String) (a : Arena α), Numbered place a.length (entriesAt path (grow id t)) →
    Arena.push (if path.isEmpty then none else some (place path.dropLast)) path.length id t a =
      .ok (a.length, a ++ (entriesAt path (grow id t)).map (slotAt place))

theorem pushAll_growAll {id : String} {path : List ℕ} {cs : List (Tree (NodeInfo α))}
    (ih : ∀ c ∈ cs, Pushes place c) {k : ℕ} {earlier : List String} {a : Arena α} {s : Slot α}
    (hs : a[place path]? = some s) (hid : s.node.id = id)
    (hnumbered : Numbered place a.length (entriesBelow path k (growAll id earlier cs))) :
    Arena.pushAll (place path) (path.length + 1) earlier cs a =
      .ok ((List.range' k cs.length).map fun j => place (path ++ [j]),
        a ++ (entriesBelow path k (growAll id earlier cs)).map (slotAt place)) := by
  induction cs generalizing k earlier a with
  | nil => simp [Arena.pushAll, growAll, entriesBelow]
  | cons c cs ihcs =>
    rw [growAll, entriesBelow_cons] at hnumbered ⊢
    obtain ⟨hfirst, hrest⟩ := hnumbered.of_append
    have hpush := ih c List.mem_cons_self (path ++ [k]) _ a hfirst
    rw [List.dropLast_concat, if_neg (by simp), List.length_append, List.length_singleton] at hpush
    have hplace : place (path ++ [k]) = a.length := by
      generalize NodeId.child id c.value.label (earlier.count c.value.label) = id' at hfirst
      obtain ⟨info, ds⟩ := c
      rw [grow_node, entriesAt_node] at hfirst
      exact hfirst.of_cons.1
    have hs' : (a ++ (entriesAt (path ++ [k]) (grow (NodeId.child id c.value.label
        (earlier.count c.value.label)) c)).map (slotAt place))[place path]? = some s :=
      (List.getElem?_append_left (List.getElem?_eq_some_iff.mp hs).1).trans hs
    have hothers := @ihcs (fun d hd => ih d (List.mem_cons_of_mem c hd)) (k + 1) (c.value.label :: earlier) _
      hs' (by rwa [List.length_append, List.length_map])
    rw [Arena.pushAll, Checked.get_eq hs, Checked.ok_bind, hid]
    simp only [hpush, hothers, Checked.ok_bind]
    rw [List.length_cons, List.range'_succ, List.map_cons, hplace, List.map_append, List.append_assoc]
    rfl

theorem pushes (t : Tree (NodeInfo α)) : Pushes place t := by
  induction t with
  | node info cs ih =>
    intro path id a hnumbered
    rw [grow_node, entriesAt_node] at hnumbered ⊢
    obtain ⟨hroot, hbelow⟩ := hnumbered.of_cons
    -- the root is appended without its children, which are filled in at the end
    let fresh : Slot α :=
      ⟨freshNode id info, if path.isEmpty then none else some (place path.dropLast), path.length, [], []⟩
    have hlength : (a ++ [fresh]).length = a.length + 1 := by rw [List.length_append, List.length_singleton]
    have hfresh : (a ++ [fresh])[place path]? = some fresh := by
      rw [hroot]
      exact List.getElem?_concat_length
    have hchildren := @pushAll_growAll _ _ place id path cs ih 0 [] (a ++ [fresh]) fresh hfresh rfl (by rwa [hlength])
    rw [hroot] at hchildren
    rw [Arena.push]
    simp only [fresh] at hchildren
    simp only [hchildren, Checked.ok_bind]
    rw [Checked.modify_eq (by simp), Checked.ok_bind, List.append_assoc, List.singleton_append,
      modify_length_append, List.map_cons, slotAt, ← length_growAll id [], List.range_eq_range']
    rfl

theorem folded_grow {id : String} {t : Tree (NodeInfo α)} : ∀ n ∈ (grow id t).preorder, n.folded = false := by
  induction t generalizing id with
  | node info cs ih =>
    intro n hn
    rw [grow_node, Tree.preorder_node, List.mem_cons, List.mem_flatMap] at hn
    rcases hn with rfl | ⟨c, hc, hn⟩
    · rfl
    · obtain ⟨i, hi⟩ := List.getElem?_of_mem hc
      rw [getElem?_growAll, Option.map_eq_some_iff] at hi
      obtain ⟨t, ht, rfl⟩ := hi
      exact ih t (List.mem_of_getElem? ht) n hn

/-- **Building in an array** gives the array of the hierarchy. -/
theorem ofTree_arena (t : Tree (NodeInfo α)) : Arena.ofTree t = .ok (ofTree t).arena := by
  have hentries : entriesAt [] (ofTree t).tree = (ofTree t).entries := rfl
  have hnumbered : Numbered (ofTree t).place 0 (entriesAt [] (ofTree t).tree) := by
    have hplaces := (ofTree t).map_place_paths
    rw [paths, List.map_map, List.length_map, List.range_eq_range'] at hplaces
    exact hplaces
  have hslots : (ofTree t).arena = (entriesAt [] (ofTree t).tree).map (slotAt (ofTree t).place) := by
    rw [arena, slots_eq, List.map_map, hentries]
    refine List.map_congr_left fun x hx => ?_
    obtain ⟨path, n, count⟩ := x
    obtain ⟨cs, hat, rfl⟩ := mem_entries_iff.mp hx
    have hopen : n.folded = false := folded_grow n (Tree.value_mem_preorder hat)
    rw [Function.comp_apply, Slot.plain, slotOf, slotAt]
    simp only [hopen, Bool.false_eq_true, if_false]
    rw [← hopen]
  have hpush := pushes t [] (NodeId.escapeLabel t.value.label) [] hnumbered
  rw [Arena.ofTree]
  simp only [List.isEmpty_nil, if_true, List.length_nil] at hpush
  simp only [hpush, Checked.ok_bind]
  rw [hslots]
  rfl

end Hierarchy

end FlowTree
