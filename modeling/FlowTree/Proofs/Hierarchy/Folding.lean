import FlowTree.Proofs.Hierarchy.Changes

/-!
# Folding and unfolding many nodes

Folding a node twice leaves it as it was, and nodes are folded independently of each other, so of any
number of changes it only counts which nodes have been changed an odd number of times.

* **`Hierarchy.flipWhere`** folds or unfolds many nodes at once; **`Hierarchy.flipWhere_flipWhere`** is
  the law of two such changes.
* **`Hierarchy.toggleAll`** changes one node after the other; **`Hierarchy.toggleAll_eq`** says that only
  the parities count, so the order does not.
* **`Hierarchy.frame`** is what folding reads and changes.
-/

namespace FlowTree.Hierarchy

variable {α : Type}

/-! ### Many nodes at once -/

/-- Folds or unfolds the nodes that have children and whose ids satisfy `p`. -/
def flipWhere (p : String → Bool) : Tree (Node α) → Tree (Node α) :=
  Tree.fold fun n cs =>
    .node (if p n.id && !cs.isEmpty then { n with folded := !n.folded } else n) cs

theorem flipWhere_node (p : String → Bool) (n : Node α) (cs : List (Tree (Node α))) :
    flipWhere p (.node n cs) =
      .node (if p n.id && !cs.isEmpty then { n with folded := !n.folded } else n)
        (cs.map (flipWhere p)) := by
  rw [flipWhere, Tree.fold_node, List.isEmpty_map]

theorem flip_eq_flipWhere (id : String) (t : Tree (Node α)) :
    flip id t = flipWhere (· == id) t := rfl

/-- What is changed twice stays as it is. -/
theorem flipWhere_flipWhere (p q : String → Bool) (t : Tree (Node α)) :
    flipWhere p (flipWhere q t) = flipWhere (fun id => p id ^^ q id) t := by
  induction t with
  | node n cs ih =>
    rw [flipWhere_node, flipWhere_node, flipWhere_node, List.isEmpty_map, List.map_map]
    congr 1
    · cases q n.id <;> cases hp : p n.id <;> cases cs <;> simp [hp]
    · exact List.map_congr_left ih

theorem flipWhere_of_forall {p : String → Bool} {t : Tree (Node α)}
    (h : ∀ n ∈ t.preorder, p n.id = false) : flipWhere p t = t := by
  induction t with
  | node n cs ih =>
    simp only [Tree.preorder_node, List.mem_cons, List.mem_flatMap] at h
    rw [flipWhere_node, h n (Or.inl rfl)]
    congr 1
    refine (List.map_congr_left fun c hc => ?_).trans cs.map_id
    exact ih c hc fun m hm => h m (Or.inr ⟨c, hc, hm⟩)

/-! ### One node after the other -/

/-- The id occurs an odd number of times. -/
def isOdd (ids : List String) (id : String) : Bool := ids.count id % 2 == 1

theorem isOdd_cons (a : String) (ids : List String) (id : String) :
    isOdd (a :: ids) id = (isOdd ids id ^^ (id == a)) := by
  rw [isOdd, isOdd]
  by_cases h : id = a
  · subst h
    rw [List.count_cons_self, beq_self_eq_true, Bool.xor_true]
    rcases Nat.mod_two_eq_zero_or_one (ids.count id) with hc | hc
    · simp [Nat.add_mod, hc]
    · simp [Nat.add_mod, hc]
  · rw [List.count_cons_of_ne (Ne.symm h), beq_false_of_ne h, Bool.xor_false]

/-- In a list without repetitions the odd ids are its members. -/
theorem isOdd_of_nodup {ids : List String} (h : ids.Nodup) (id : String) :
    isOdd ids id = decide (id ∈ ids) := by
  rw [isOdd, h.count]
  by_cases hid : id ∈ ids <;> simp [hid]

theorem foldl_flip (ids : List String) (t : Tree (Node α)) :
    ids.foldl (fun t id => flip id t) t = flipWhere (isOdd ids) t := by
  induction ids generalizing t with
  | nil => exact (flipWhere_of_forall fun _ _ => rfl).symm
  | cons id ids ih =>
    rw [List.foldl_cons, ih, flip_eq_flipWhere, flipWhere_flipWhere]
    congr 1
    funext x
    exact (isOdd_cons id ids x).symm

/-! ### Changes by id -/

theorem branches_node (n : Node α) (cs : List (Tree (Node α))) :
    branches (.node n cs) = .node n cs :: cs.flatMap branches := by
  have hwhole : ∀ t : Tree (Node α), (Tree.fold (γ := Tree (Node α) × List (Tree (Node α)))
      (fun n cs => (Tree.node n (cs.map (·.1)), Tree.node n (cs.map (·.1)) :: cs.flatMap (·.2)))
        t).1 = t := by
    intro t
    induction t with
    | node n cs ih =>
      rw [Tree.fold_node, List.map_map]
      exact congrArg (Tree.node n) ((List.map_congr_left ih).trans cs.map_id)
  rw [branches, Tree.fold_node, List.map_map, List.flatMap_map]
  show Tree.node n (cs.map _) :: _ = _
  congr 2
  exact (List.map_congr_left fun c _ => hwhole c).trans cs.map_id

theorem map_value_branches (t : Tree (Node α)) : (branches t).map (·.value) = t.preorder := by
  induction t with
  | node n cs ih =>
    rw [branches_node, Tree.preorder_node, List.map_cons, List.map_flatMap]
    congr 1
    exact List.flatMap_congr ih

/-- A node without a branch is no node. -/
theorem ne_of_toggle?_eq_none {h : Hierarchy α} {id : String} (ht : h.toggle? id = none) :
    ∀ n ∈ h.tree.preorder, n.id ≠ id := by
  intro n hn
  rw [← map_value_branches] at hn
  obtain ⟨b, hb, rfl⟩ := List.mem_map.mp hn
  rw [toggle?, Option.map_eq_none_iff, branch?, List.find?_eq_none] at ht
  simpa using ht b hb

theorem tree_of_toggle? {h h' : Hierarchy α} {id : String} {toggle : Toggle}
    (ht : h.toggle? id = some (toggle, h')) : h' = { h with tree := flip id h.tree } := by
  rw [toggle?, Option.map_eq_some_iff] at ht
  obtain ⟨b, -, heq⟩ := ht
  cases heq
  rfl

/-- The hierarchy with the children of one node after the other folded or unfolded; ids that no node has
are passed over. -/
def toggleAll (h : Hierarchy α) (ids : List String) : Hierarchy α :=
  ids.foldl (fun h id => ((h.toggle? id).map (·.2)).getD h) h

theorem toggleAll_toggleAll (h : Hierarchy α) (ids ids' : List String) :
    (h.toggleAll ids).toggleAll ids' = h.toggleAll (ids ++ ids') := by
  rw [toggleAll, toggleAll, toggleAll, List.foldl_append]

/-- **Only the parities count.** -/
theorem toggleAll_eq (h : Hierarchy α) (ids : List String) :
    h.toggleAll ids = { h with tree := flipWhere (isOdd ids) h.tree } := by
  have hstep : ∀ (k : Hierarchy α) (id : String),
      ((k.toggle? id).map (·.2)).getD k = { k with tree := flip id k.tree } := by
    intro k id
    cases ht : k.toggle? id with
    | some found => exact tree_of_toggle? ht
    | none =>
      have hsame : flip id k.tree = k.tree := by
        rw [flip_eq_flipWhere, flipWhere_of_forall]
        intro n hn
        exact beq_false_of_ne (ne_of_toggle?_eq_none ht n hn)
      rw [hsame]
      rfl
  rw [← foldl_flip, toggleAll]
  induction ids generalizing h with
  | nil => rfl
  | cons id ids ih => rw [List.foldl_cons, List.foldl_cons, hstep, ih]

/-! ### What folding reads and changes -/

/-- The ids and the informations of all nodes, and which of them are folded. -/
def frame (h : Hierarchy α) : Tree (String × NodeInfo α × Bool) :=
  h.tree.map fun n => (n.id, n.info, n.folded)

theorem skeleton_congr {h h' : Hierarchy α} (hframe : h'.frame = h.frame) :
    h'.skeleton = h.skeleton := by
  have hboth := congrArg (Tree.map fun v => (v.1, v.2.1)) hframe
  rwa [frame, frame, Tree.map_map, Tree.map_map] at hboth

/-- Folding and unfolding is known from the frame. -/
theorem frame_toggleAll_congr {h h' : Hierarchy α} (hframe : h.frame = h'.frame)
    {ids ids' : List String} (hids : ∀ id, isOdd ids id = isOdd ids' id) :
    (h.toggleAll ids).frame = (h'.toggleAll ids').frame := by
  have hflip : ∀ (p : String → Bool) (t : Tree (Node α)),
      (flipWhere p t).map (fun n => (n.id, n.info, n.folded)) =
        Tree.fold (fun v cs => .node
            (if p v.1 && !cs.isEmpty then (v.1, v.2.1, !v.2.2) else v) cs)
          (t.map fun n => (n.id, n.info, n.folded)) := by
    intro p t
    rw [Tree.fold_map]
    induction t with
    | node n cs ih =>
      rw [flipWhere_node, Tree.map_node, Tree.fold_node, List.map_map, List.isEmpty_map]
      congr 1
      · cases p n.id <;> cases cs <;> rfl
      · exact List.map_congr_left ih
  rw [frame, frame, toggleAll_eq, toggleAll_eq, hflip, hflip, funext hids]
  exact congrArg _ hframe

end FlowTree.Hierarchy
