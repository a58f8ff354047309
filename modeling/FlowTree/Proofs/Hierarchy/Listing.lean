import FlowTree.Proofs.Hierarchy.Folding
import FlowTree.Proofs.Paths

/-!
# The listing of a hierarchy

A hierarchy is listed with the positions of all relatives, and the listing loses nothing: whoever follows
its lists of children from the first position on, those that are folded away included, finds the tree again
and comes to every position once.

* **`Hierarchy.place`** is the position of the end of a path; **`Hierarchy.slots_eq`** describes the listing
  by it and **`Hierarchy.getElem?_place`** finds the node at the end of a path.
* **`Hierarchy.gather`** reads a listing; **`Hierarchy.gather_slots`** says what it finds in the listing of a
  hierarchy.
* **`Hierarchy.Linked`** says that parents, depths and lists of children agree; **`Hierarchy.linked_slots`**
  says so for the listing of a hierarchy.
* **`Hierarchy.Represents`** says that a listing holds a tree of a document and nothing else;
  **`Hierarchy.represents_of_skeleton`** says what it takes.
* **`Hierarchy.links`** are the lists of children alone; **`Hierarchy.links_congr`** says that the frame and
  the order of the listing decide them.
-/

namespace FlowTree

/-- Where every value has a result, they are collected in order. -/
theorem mapM_eq_some {β γ : Type} {f : β → Option γ} {l : List β} {l' : List γ}
    (h : l.map f = l'.map some) : l.mapM f = some l' := by
  induction l generalizing l' with
  | nil =>
    obtain rfl := List.map_eq_nil_iff.mp h.symm
    rfl
  | cons x l ih =>
    obtain ⟨y, l', rfl, hy, hl⟩ := List.map_eq_cons_iff.mp h.symm
    rw [List.mapM_cons, ← hy, ih hl.symm]
    rfl

/-! ### Trees with the numbers of children -/

namespace Tree

variable {β γ : Type}

/-- Each value with the number of its children. -/
def counted : Tree β → Tree (β × Nat) := fold fun v cs => node (v, cs.length) cs

theorem counted_node (v : β) (cs : List (Tree β)) :
    (node v cs).counted = node (v, cs.length) (cs.map counted) := by
  rw [counted, fold_node, List.length_map]

theorem map_fst_counted (t : Tree β) : t.counted.map (·.1) = t := by
  induction t with
  | node v cs ih =>
    rw [counted_node, map_node, List.map_map]
    exact congrArg (node v) ((List.map_congr_left ih).trans cs.map_id)

theorem counted_map (f : β → γ) (t : Tree β) :
    (t.map f).counted = t.counted.map fun x => (f x.1, x.2) := by
  induction t with
  | node v cs ih =>
    rw [map_node, counted_node, counted_node, map_node, List.length_map, List.map_map, List.map_map]
    congr 1
    exact List.map_congr_left ih

theorem at?_counted (t : Tree β) (path : List Nat) :
    t.counted.at? path = (t.at? path).map counted := by
  induction path generalizing t with
  | nil => rfl
  | cons i path ih =>
    cases t with
    | node v cs =>
      rw [counted_node, at?_cons, at?_cons, List.getElem?_map]
      cases cs[i]? with
      | none => rfl
      | some c => exact ih c

/-- A value and a count stand at the end of a path where a node with that value and so many children does. -/
theorem exists_at?_counted_iff {t : Tree β} {path : List Nat} {v : β} {count : Nat} :
    (∃ s, t.counted.at? path = some s ∧ s.value = (v, count)) ↔
      ∃ cs, t.at? path = some (.node v cs) ∧ cs.length = count := by
  rw [at?_counted]
  constructor
  · rintro ⟨s, hs, hvalue⟩
    obtain ⟨⟨w, cs⟩, hat, rfl⟩ := Option.map_eq_some_iff.mp hs
    rw [counted_node] at hvalue
    cases hvalue
    exact ⟨cs, hat, rfl⟩
  · rintro ⟨cs, hat, rfl⟩
    exact ⟨_, by rw [hat, Option.map_some], by rw [counted_node]; rfl⟩

end Tree

namespace Hierarchy

variable {α : Type}

/-! ### Positions -/

/-- The nodes in the order of the listing, each with its path and the number of its children. -/
def entries (h : Hierarchy α) : List (List Nat × Node α × Nat) :=
  match h.listing with
  | .depthFirst => (places h.tree).preorder
  | .levelByLevel => (places h.tree).breadthFirst

/-- The paths in the order of the listing. -/
def paths (h : Hierarchy α) : List (List Nat) := h.entries.map (·.1)

/-- The position of the node at the end of a path. -/
def place (h : Hierarchy α) (path : List Nat) : Nat := h.paths.idxOf path

/-- A node with the positions of its relatives. -/
def slotOf (h : Hierarchy α) (x : List Nat × Node α × Nat) : Slot α :=
  let below := (List.range x.2.2).map fun i => h.place (x.1 ++ [i])
  { node := x.2.1
    parent := if x.1.isEmpty then none else some (h.place x.1.dropLast)
    depth := x.1.length
    children := if x.2.1.folded then [] else below
    hidden := if x.2.1.folded then below else [] }

theorem slots_eq (h : Hierarchy α) : h.slots = h.entries.map h.slotOf := rfl

theorem places_eq (t : Tree (Node α)) : places t = t.counted.located := rfl

theorem entries_perm (h : Hierarchy α) : h.entries.Perm (places h.tree).preorder := by
  rw [entries]
  split
  · exact List.Perm.refl _
  · exact Tree.breadthFirst_perm _

theorem mem_entries_iff {h : Hierarchy α} {path : List Nat} {n : Node α} {count : Nat} :
    (path, n, count) ∈ h.entries ↔
      ∃ cs, h.tree.at? path = some (.node n cs) ∧ cs.length = count := by
  rw [h.entries_perm.mem_iff, places_eq, Tree.mem_located_iff, Tree.exists_at?_counted_iff]

theorem nodup_paths (h : Hierarchy α) : h.paths.Nodup := by
  rw [paths, (h.entries_perm.map (·.1)).nodup_iff]
  exact Tree.paths_nodup _

theorem mem_paths_iff {h : Hierarchy α} {path : List Nat} :
    path ∈ h.paths ↔ ∃ t, h.tree.at? path = some t := by
  rw [paths, List.mem_map]
  constructor
  · rintro ⟨⟨p, n, count⟩, hmem, rfl⟩
    obtain ⟨cs, hat, -⟩ := mem_entries_iff.mp hmem
    exact ⟨_, hat⟩
  · rintro ⟨⟨n, cs⟩, hat⟩
    exact ⟨(path, n, cs.length), mem_entries_iff.mpr ⟨cs, hat, rfl⟩, rfl⟩

theorem length_slots (h : Hierarchy α) : h.slots.length = h.tree.preorder.length := by
  have hnodes : (places h.tree).preorder.map (·.2.1) = h.tree.preorder := by
    conv_rhs => rw [← Tree.map_fst_counted h.tree, Tree.preorder_map,
      ← Tree.map_snd_located_preorder, List.map_map]
    rfl
  rw [slots_eq, List.length_map, h.entries_perm.length_eq, ← hnodes, List.length_map]

/-- **The node at the end of a path** is found at its position. -/
theorem getElem?_place {h : Hierarchy α} {path : List Nat} {n : Node α} {cs : List (Tree (Node α))}
    (hat : h.tree.at? path = some (.node n cs)) :
    h.slots[h.place path]? = some (h.slotOf (path, n, cs.length)) := by
  have hmem : (path, n, cs.length) ∈ h.entries := mem_entries_iff.mpr ⟨cs, hat, rfl⟩
  have hpath : h.paths[h.place path]? = some path :=
    List.getElem?_idxOf (mem_paths_iff.mpr ⟨_, hat⟩)
  rw [paths, List.getElem?_map, Option.map_eq_some_iff] at hpath
  obtain ⟨x, hx, heq⟩ := hpath
  rw [slots_eq, List.getElem?_map, hx, Option.map_some,
    List.inj_on_of_nodup_map h.nodup_paths (List.mem_of_getElem? hx) hmem heq]

/-- Every position is that of the end of a path. -/
theorem exists_of_getElem? {h : Hierarchy α} {i : Nat} {s : Slot α} (hs : h.slots[i]? = some s) :
    ∃ path n cs, h.tree.at? path = some (.node n cs) ∧ i = h.place path ∧
      s = h.slotOf (path, n, cs.length) := by
  rw [slots_eq, List.getElem?_map, Option.map_eq_some_iff] at hs
  obtain ⟨⟨path, n, count⟩, hx, rfl⟩ := hs
  obtain ⟨cs, hat, rfl⟩ := mem_entries_iff.mp (List.mem_of_getElem? hx)
  refine ⟨path, n, cs, hat, ?_, rfl⟩
  have hpath : h.paths[i]? = some path := by
    rw [paths, List.getElem?_map, hx]
    rfl
  obtain ⟨hi, hget⟩ := List.getElem?_eq_some_iff.mp hpath
  rw [place, ← hget, h.nodup_paths.idxOf_getElem]

theorem place_inj {h : Hierarchy α} {p q : List Nat} {t : Tree (Node α)} (hp : h.tree.at? p = some t)
    (heq : h.place p = h.place q) : p = q :=
  (List.idxOf_inj (mem_paths_iff.mpr ⟨t, hp⟩)).mp heq

/-- The paths are listed one after the other. -/
theorem map_place_paths (h : Hierarchy α) : h.paths.map h.place = List.range h.paths.length := by
  apply List.ext_getElem
  · simp
  · intro i h₁ h₂
    rw [List.getElem_map, List.getElem_range, place, h.nodup_paths.idxOf_getElem]

/-- The root is listed first. -/
theorem place_nil (h : Hierarchy α) : h.place [] = 0 := by
  have hfirst : ∃ rest, h.paths = [] :: rest := by
    have hvalue : (places h.tree).value.1 = [] := by
      rw [places_eq, Tree.located_eq, Tree.value_locatedAt]
    rw [paths, entries]
    split
    · rw [Tree.preorder_eq_cons, List.map_cons, hvalue]
      exact ⟨_, rfl⟩
    · rw [Tree.breadthFirst_eq_cons, List.map_cons, hvalue]
      exact ⟨_, rfl⟩
  obtain ⟨rest, hpaths⟩ := hfirst
  rw [place, hpaths, List.idxOf_cons_self]

/-- Both lists of children together are the positions of all children. -/
theorem below_slotOf (h : Hierarchy α) (x : List Nat × Node α × Nat) :
    (h.slotOf x).children ++ (h.slotOf x).hidden =
      (List.range x.2.2).map fun i => h.place (x.1 ++ [i]) := by
  rw [slotOf]
  cases x.2.1.folded <;> simp

/-! ### Reading a listing -/

/-- Reads a listing from one position on: each slot with its position, and below it what its lists of
children lead to, those on show before those that are folded away.  There is nothing to be read at a
position beyond the listing, nor below so many levels. -/
def gather (slots : List (Slot α)) : (levels : Nat) → (position : Nat) → Option (Tree (Nat × Slot α))
  | 0, _ => none
  | levels + 1, i =>
    slots[i]?.bind fun s =>
      ((s.children ++ s.hidden).mapM (gather slots levels)).map (Tree.node (i, s))

/-- The subtree at the end of a path with the positions and slots of its nodes. -/
def reading (h : Hierarchy α) (path : List Nat) (t : Tree (Node α)) : Tree (Nat × Slot α) :=
  (t.counted.locatedAt path).map fun x => (h.place x.1, h.slotOf x)

theorem reading_node (h : Hierarchy α) (path : List Nat) (n : Node α) (cs : List (Tree (Node α))) :
    h.reading path (.node n cs) =
      .node (h.place path, h.slotOf (path, n, cs.length))
        (cs.mapIdx fun i c => h.reading (path ++ [i]) c) := by
  rw [reading, Tree.counted_node, Tree.locatedAt_node, Tree.map_node]
  congr 1
  apply List.ext_getElem
  · simp
  · intro i h₁ h₂
    simp only [List.getElem_map, List.getElem_mapIdx, reading]

/-- Reading at the position of a node gives back the subtree below it. -/
theorem gather_place {h : Hierarchy α} {path : List Nat} {t : Tree (Node α)}
    (hat : h.tree.at? path = some t) {levels : Nat} (hlevels : t.preorder.length ≤ levels) :
    gather h.slots levels (h.place path) = some (h.reading path t) := by
  induction t generalizing path levels with
  | node n cs ih =>
    rw [Tree.preorder_node, List.length_cons] at hlevels
    obtain ⟨levels, rfl⟩ := Nat.exists_eq_add_of_le' (Nat.one_le_of_lt hlevels)
    have hchildren : ((List.range cs.length).map fun i => h.place (path ++ [i])).map
        (gather h.slots levels) =
          (cs.mapIdx fun i c => h.reading (path ++ [i]) c).map some := by
      apply List.ext_getElem
      · simp
      · intro i h₁ h₂
        have hi : i < cs.length := by simpa using h₂
        have hchild : h.tree.at? (path ++ [i]) = some cs[i] := Tree.at?_concat hat hi
        have hsmaller : cs[i].preorder.length ≤ levels := by
          have hsublist := List.sublist_flatten_of_mem
            (List.mem_map_of_mem (f := Tree.preorder) (List.getElem_mem hi))
          have hle := hsublist.length_le
          rw [← List.flatMap_def] at hle
          omega
        simp only [List.getElem_map, List.getElem_range, List.getElem_mapIdx]
        exact ih _ (List.getElem_mem hi) hchild hsmaller
    rw [gather, getElem?_place hat, Option.bind_some, below_slotOf, mapM_eq_some hchildren,
      Option.map_some, reading_node]

/-- **Reading the whole listing** gives back the tree with the positions of all nodes. -/
theorem gather_slots (h : Hierarchy α) :
    gather h.slots h.slots.length 0 = some (h.reading [] h.tree) := by
  rw [← h.place_nil, length_slots]
  exact gather_place rfl (Nat.le_refl _)

theorem map_node_reading (h : Hierarchy α) :
    (h.reading [] h.tree).map (·.2.node) = h.tree := by
  conv_rhs => rw [← Tree.map_fst_counted h.tree, ← Tree.map_snd_locatedAt [] h.tree.counted]
  rw [reading, Tree.map_map, Tree.map_map]
  rfl

/-- A depth-first listing is read from its first position to its last one. -/
theorem positions_reading {h : Hierarchy α} (hlisting : h.listing = .depthFirst) :
    (h.reading [] h.tree).preorder.map (·.1) = List.range h.slots.length := by
  have hpaths : h.paths = (places h.tree).preorder.map (·.1) := by
    rw [paths, entries, hlisting]
  have hlength : h.slots.length = h.paths.length := by
    rw [slots_eq, paths, List.length_map, List.length_map]
  have hplaces : (h.reading [] h.tree).preorder.map (·.1) = h.paths.map h.place := by
    rw [hpaths, reading, Tree.preorder_map, List.map_map, List.map_map]
    rfl
  rw [hplaces, hlength, map_place_paths]

/-! ### Links -/

/-- Parents, depths and lists of children of a listing agree: the first node is the root, every node hides
its children or none of them, a node is listed below its parent and nowhere else, and there is one level
between the two. -/
structure Linked (slots : List (Slot α)) : Prop where
  root : ∃ s, slots[0]? = some s ∧ s.parent = none ∧ s.depth = 0
  either : ∀ s ∈ slots, s.children = [] ∨ s.hidden = []
  parent_iff : ∀ (i j : Nat) (s c : Slot α), slots[i]? = some s → slots[j]? = some c →
    (c.parent = some i ↔ j ∈ s.children ++ s.hidden)
  depth : ∀ (i j : Nat) (s c : Slot α), slots[i]? = some s → slots[j]? = some c → c.parent = some i →
    c.depth = s.depth + 1

theorem parent_slotOf_eq_some_iff {h : Hierarchy α} {q : List Nat} {n : Node α} {count i : Nat} :
    (h.slotOf (q, n, count)).parent = some i ↔ ∃ p k, q = p ++ [k] ∧ h.place p = i := by
  rw [slotOf]
  rcases List.eq_nil_or_concat q with rfl | ⟨p, k, rfl⟩
  · simp
  · rw [if_neg (by simp), List.concat_eq_append, List.dropLast_concat, Option.some.injEq]
    constructor
    · exact fun hplace => ⟨p, k, rfl, hplace⟩
    · rintro ⟨p', k', heq, hplace⟩
      rwa [(List.append_inj' heq rfl).1]

theorem linked_slots (h : Hierarchy α) : Linked h.slots := by
  have hlink : ∀ {p q : List Nat} {n m : Node α} {cs ds : List (Tree (Node α))},
      h.tree.at? p = some (.node n cs) → h.tree.at? q = some (.node m ds) →
        ((h.slotOf (q, m, ds.length)).parent = some (h.place p) ↔
          ∃ k < cs.length, q = p ++ [k]) := by
    intro p q n m cs ds hp hq
    rw [parent_slotOf_eq_some_iff]
    constructor
    · rintro ⟨p', k, rfl, heq⟩
      obtain rfl := place_inj hp heq.symm
      rw [Tree.at?_append, hp, Option.bind_some, Tree.at?_cons_eq_some_iff] at hq
      obtain ⟨c, hc, -⟩ := hq
      exact ⟨k, (List.getElem?_eq_some_iff.mp hc).1, rfl⟩
    · rintro ⟨k, -, rfl⟩
      exact ⟨p, k, rfl, rfl⟩
  constructor
  · obtain ⟨n, cs, htree⟩ : ∃ n cs, h.tree.at? [] = some (.node n cs) := by
      cases hroot : h.tree with
      | node n cs => exact ⟨n, cs, rfl⟩
    have hfirst := getElem?_place htree
    rw [place_nil] at hfirst
    exact ⟨_, hfirst, rfl, rfl⟩
  · intro s hs
    rw [slots_eq, List.mem_map] at hs
    obtain ⟨x, -, rfl⟩ := hs
    rw [slotOf]
    cases x.2.1.folded
    · exact Or.inr rfl
    · exact Or.inl rfl
  · intro i j s c hs hc
    obtain ⟨p, n, cs, hp, rfl, rfl⟩ := exists_of_getElem? hs
    obtain ⟨q, m, ds, hq, rfl, rfl⟩ := exists_of_getElem? hc
    rw [hlink hp hq, below_slotOf, List.mem_map]
    constructor
    · rintro ⟨k, hk, rfl⟩
      exact ⟨k, List.mem_range.mpr hk, rfl⟩
    · rintro ⟨k, hk, heq⟩
      exact ⟨k, List.mem_range.mp hk, place_inj hq heq.symm⟩
  · intro i j s c hs hc hparent
    obtain ⟨p, n, cs, hp, rfl, rfl⟩ := exists_of_getElem? hs
    obtain ⟨q, m, ds, hq, rfl, rfl⟩ := exists_of_getElem? hc
    obtain ⟨k, -, rfl⟩ := (hlink hp hq).mp hparent
    exact List.length_append

/-! ### Trees of documents -/

section Documents

variable [Scalar α]

theorem map_info_grow (id : String) (t : Tree (NodeInfo α)) : (grow id t).map (·.info) = t := by
  induction t generalizing id with
  | node info cs ih =>
    rw [grow_node, Tree.map_node]
    congr 1
    apply List.ext_getElem?
    intro i
    rw [List.getElem?_map, getElem?_growAll, Option.map_map]
    cases hi : cs[i]? with
    | none => rfl
    | some c => exact congrArg some (ih c (List.mem_of_getElem? hi) _)

/-- The listing of a hierarchy holds a tree of a document and nothing else: whoever follows its lists of
children from the first position on finds the tree and comes to each position once, in ascending order; the
links agree, and the ids are those that the tree has when it is made afresh. -/
structure Represents (h : Hierarchy α) (t : Tree (NodeInfo α)) : Prop where
  reading : ∃ found, gather h.slots h.slots.length 0 = some found ∧ found.map (·.2.node.info) = t ∧
    found.preorder.map (·.1) = List.range h.slots.length
  linked : Linked h.slots
  ids : h.slots.map (·.node.id) = (ofTree t).slots.map (·.node.id)

/-- **A hierarchy represents the tree of its informations** as long as the ids are those of that tree. -/
theorem represents_of_skeleton {h : Hierarchy α} {t : Tree (NodeInfo α)}
    (hskeleton : h.skeleton = (ofTree t).skeleton) (hlisting : h.listing = .depthFirst) :
    h.Represents t := by
  have hids : ∀ k : Hierarchy α, k.listing = .depthFirst →
      k.slots.map (·.node.id) = k.skeleton.preorder.map (·.1) := by
    intro k hk
    rw [slots_eq, entries, hk, skeleton, Tree.preorder_map, List.map_map, List.map_map]
    conv_rhs => rw [← Tree.map_fst_counted k.tree, Tree.preorder_map,
      ← Tree.map_snd_located_preorder, List.map_map, List.map_map]
    rfl
  refine ⟨⟨_, h.gather_slots, ?_, positions_reading hlisting⟩, linked_slots h, ?_⟩
  · have hinfos := congrArg (Tree.map (·.2)) hskeleton
    rw [skeleton, skeleton, Tree.map_map, Tree.map_map] at hinfos
    have hnodes := congrArg (Tree.map (·.info)) h.map_node_reading
    rw [Tree.map_map] at hnodes
    exact hnodes.trans (hinfos.trans (map_info_grow _ t))
  · rw [hids h hlisting, hids (ofTree t) rfl, hskeleton]

end Documents

/-! ### Links alone -/

/-- The lists of children of a hierarchy, each with the id of its node. -/
def links (h : Hierarchy α) : List (String × List Nat × List Nat) :=
  h.slots.map fun s => (s.node.id, s.children, s.hidden)

theorem map_entries (h : Hierarchy α) :
    h.entries.map (fun x => (x.1, (x.2.1.id, x.2.1.info, x.2.1.folded), x.2.2)) =
      match h.listing with
      | .depthFirst => h.frame.counted.located.preorder
      | .levelByLevel => h.frame.counted.located.breadthFirst := by
  have hplaces : h.frame.counted.located = (places h.tree).map fun x =>
      (x.1, (x.2.1.id, x.2.1.info, x.2.1.folded), x.2.2) := by
    rw [frame, Tree.counted_map, Tree.located_eq, Tree.locatedAt_map]
    rfl
  rw [entries, hplaces]
  split
  · rw [Tree.preorder_map]
  · rw [Tree.breadthFirst_map]

/-- The positions follow from the frame and the order of the listing. -/
theorem place_congr {h h' : Hierarchy α} (hlisting : h.listing = h'.listing) (hframe : h.frame = h'.frame) :
    h.place = h'.place := by
  have hentries := h.map_entries
  rw [hlisting, hframe, ← map_entries] at hentries
  have hpaths := congrArg (List.map (·.1)) hentries
  rw [List.map_map, List.map_map] at hpaths
  funext path
  exact congrArg (List.idxOf path) hpaths

/-- **The lists of children** follow from them as well. -/
theorem links_congr {h h' : Hierarchy α} (hlisting : h.listing = h'.listing)
    (hframe : h.frame = h'.frame) : h.links = h'.links := by
  have hentries := h.map_entries
  rw [hlisting, hframe, ← map_entries] at hentries
  have hlinks : ∀ k : Hierarchy α, k.links =
      (k.entries.map fun x => (x.1, (x.2.1.id, x.2.1.info, x.2.1.folded), x.2.2)).map fun y =>
        let below := (List.range y.2.2).map fun i => k.place (y.1 ++ [i])
        (y.2.1.1, if y.2.1.2.2 then [] else below, if y.2.1.2.2 then below else []) := by
    intro k
    rw [links, slots_eq, List.map_map, List.map_map]
    rfl
  rw [hlinks, hlinks, hentries, place_congr hlisting hframe]

end Hierarchy

end FlowTree
