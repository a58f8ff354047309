import FlowTree.Hierarchy.Basic
import FlowTree.Proofs.Paths
import Mathlib.Data.List.Induction

/-!
# What an id tells

The id of a node is glued from the labels on the way to it.  Escaping keeps the signs that structure
an id out of the labels, so an id can be taken apart again, and two nodes have one id only if the
same steps lead to them.

* **`NodeId.segment_inj`** and **`NodeId.child_inj`** take apart one segment and one id.
* **`Hierarchy.steps`** are the steps to a node: labels with their counts among older siblings.
* **`Hierarchy.idAlong`** is the id at the end of such steps; **`Hierarchy.idAlong_inj`** says that
  it tells the steps.
* **`Hierarchy.id_eq_iff`** compares the ids of any two nodes of any two trees; what follows from it is
  **`Hierarchy.ids_tell_nodes`**.
-/

namespace FlowTree

namespace NodeId

/-! ### Escaped labels -/

/-- The forms that a character can take. -/
theorem escapeChar_cases (c : Char) :
    (c = '%' ∧ escapeChar c = ['%', '2', '5']) ∨ (c = '_' ∧ escapeChar c = ['%', '5', 'F']) ∨
    (c = '#' ∧ escapeChar c = ['%', '2', '3']) ∨
    (c ≠ '%' ∧ c ≠ '_' ∧ c ≠ '#' ∧ escapeChar c = [c]) := by
  unfold escapeChar
  split
  · exact Or.inl ⟨rfl, rfl⟩
  · exact Or.inr (Or.inl ⟨rfl, rfl⟩)
  · exact Or.inr (Or.inr (Or.inl ⟨rfl, rfl⟩))
  · next h₁ h₂ h₃ => exact Or.inr (Or.inr (Or.inr ⟨h₁, h₂, h₃, rfl⟩))

/-- The label that an escaped label was made from. -/
def unescape : List Char → List Char
  | '%' :: '2' :: '5' :: rest => '%' :: unescape rest
  | '%' :: '5' :: 'F' :: rest => '_' :: unescape rest
  | '%' :: '2' :: '3' :: rest => '#' :: unescape rest
  | c :: rest => c :: unescape rest
  | [] => []

theorem unescape_escapeChar_append (c : Char) (rest : List Char) :
    unescape (escapeChar c ++ rest) = c :: unescape rest := by
  rcases escapeChar_cases c with ⟨rfl, h⟩ | ⟨rfl, h⟩ | ⟨rfl, h⟩ | ⟨h₁, -, -, h⟩
  · rw [h]; rfl
  · rw [h]; rfl
  · rw [h]; rfl
  · rw [h, List.singleton_append, unescape]
    · rintro r rfl; simp at h₁
    · rintro r rfl; simp at h₁
    · rintro r rfl; simp at h₁

theorem unescape_escape (label : List Char) : unescape (label.flatMap escapeChar) = label := by
  induction label with
  | nil => rfl
  | cons c label ih => rw [List.flatMap_cons, unescape_escapeChar_append, ih]

theorem ne_of_mem_escapeChar {c x : Char} (h : x ∈ escapeChar c) :
    x ≠ separator ∧ x ≠ countMark := by
  rw [separator, countMark]
  rcases escapeChar_cases c with ⟨-, hc⟩ | ⟨-, hc⟩ | ⟨-, hc⟩ | ⟨-, h₂, h₃, hc⟩ <;>
    rw [hc] at h <;> grind

theorem toList_escapeLabel (label : String) :
    (escapeLabel label).toList = label.toList.flatMap escapeChar := by
  rw [escapeLabel, String.toList_ofList]

theorem ne_of_mem_escapeLabel {label : String} {x : Char} (h : x ∈ (escapeLabel label).toList) :
    x ≠ separator ∧ x ≠ countMark := by
  rw [toList_escapeLabel, List.mem_flatMap] at h
  obtain ⟨c, -, hx⟩ := h
  exact ne_of_mem_escapeChar hx

theorem escapeLabel_inj {a b : String} (h : escapeLabel a = escapeLabel b) : a = b := by
  have hlist := congrArg String.toList h
  rw [toList_escapeLabel, toList_escapeLabel] at hlist
  have hread := congrArg unescape hlist
  rw [unescape_escape, unescape_escape] at hread
  exact String.toList_inj.mp hread

/-- A label without signs that structure an id stands in ids as it is. -/
theorem escapeLabel_eq_self {label : String} (h : ∀ c ∈ label.toList, c ≠ '%' ∧ c ≠ '_' ∧ c ≠ '#') :
    escapeLabel label = label := by
  rw [← String.toList_inj, toList_escapeLabel]
  generalize label.toList = cs at h ⊢
  induction cs with
  | nil => rfl
  | cons c cs ih =>
    obtain ⟨hc, hcs⟩ := List.forall_mem_cons.mp h
    rw [List.flatMap_cons, ih hcs]
    rcases escapeChar_cases c with ⟨heq, -⟩ | ⟨heq, -⟩ | ⟨heq, -⟩ | ⟨-, -, -, hself⟩
    · exact absurd heq hc.1
    · exact absurd heq hc.2.1
    · exact absurd heq hc.2.2
    · rw [hself, List.singleton_append]

/-! ### Segments -/

/-- The count of a segment as it is written. -/
def countText (earlier : Nat) : List Char :=
  if earlier = 0 then [] else countMark :: (toString earlier).toList

theorem toList_segment (label : String) (earlier : Nat) :
    (segment label earlier).toList = (escapeLabel label).toList ++ countText earlier := by
  rw [segment, String.toList_append, countText]
  split
  · rfl
  · simp [countMark]

theorem toString_nat_inj {m n : Nat} (h : (toString m).toList = (toString n).toList) : m = n := by
  have hdigits := congrArg (fun ds => Nat.ofDigitChars 10 ds 0) h
  simpa using hdigits

theorem countText_inj {m n : Nat} (h : countText m = countText n) : m = n := by
  unfold countText at h
  split at h <;> split at h
  · omega
  · simp at h
  · simp at h
  · exact toString_nat_inj (List.cons.inj h).2

theorem separator_not_mem_countText (earlier : Nat) : separator ∉ countText earlier := by
  unfold countText
  split
  · simp
  · simp [separator, countMark]

theorem takeWhile_escapeLabel_append (label : String) (earlier : Nat) :
    ((escapeLabel label).toList ++ countText earlier).takeWhile (· != countMark) =
      (escapeLabel label).toList := by
  rw [List.takeWhile_append_of_pos fun c hc => bne_iff_ne.mpr (ne_of_mem_escapeLabel hc).2]
  unfold countText
  split <;> simp

theorem segment_inj {a b : String} {m n : Nat} (h : segment a m = segment b n) :
    a = b ∧ m = n := by
  have hlist := congrArg String.toList h
  rw [toList_segment, toList_segment] at hlist
  have hlabel := congrArg (List.takeWhile (· != countMark)) hlist
  rw [takeWhile_escapeLabel_append, takeWhile_escapeLabel_append] at hlabel
  obtain rfl := escapeLabel_inj (String.toList_inj.mp hlabel)
  exact ⟨rfl, countText_inj (List.append_cancel_left hlist)⟩

/-! ### Ids -/

theorem toList_child (parent label : String) (earlier : Nat) :
    (child parent label earlier).toList =
      parent.toList ++ separator :: (segment label earlier).toList := by
  simp [child]

theorem separator_not_mem_segment (label : String) (earlier : Nat) :
    separator ∉ (segment label earlier).toList := by
  rw [toList_segment, List.mem_append]
  rintro (h | h)
  · exact (ne_of_mem_escapeLabel h).1 rfl
  · exact separator_not_mem_countText earlier h

/-- The part of an id before its last separator. -/
def cutAtLast (id : String) : String :=
  String.ofList (id.toList.reverse.dropWhile (· != separator)).tail.reverse

/-- The part of an id before its last separator is the id of the parent. -/
theorem cutAtLast_child (parent label : String) (earlier : Nat) :
    cutAtLast (child parent label earlier) = parent := by
  rw [cutAtLast, toList_child, List.reverse_append, List.reverse_cons, List.append_assoc,
    List.dropWhile_append_of_pos]
  · simp
  · intro c hc
    rw [List.mem_reverse] at hc
    exact bne_iff_ne.mpr fun h => separator_not_mem_segment label earlier (h ▸ hc)

theorem child_inj {p q a b : String} {m n : Nat} (h : child p a m = child q b n) :
    p = q ∧ a = b ∧ m = n := by
  have hcut := congrArg cutAtLast h
  rw [cutAtLast_child, cutAtLast_child] at hcut
  subst hcut
  have hlist := congrArg String.toList h
  rw [toList_child, toList_child] at hlist
  have hsegment := (List.cons.inj (List.append_cancel_left hlist)).2
  exact ⟨rfl, segment_inj (String.toList_inj.mp hsegment)⟩

theorem child_ne_escapeLabel (parent label other : String) (earlier : Nat) :
    child parent label earlier ≠ escapeLabel other := by
  intro h
  have hmem : separator ∈ (child parent label earlier).toList := by simp [toList_child]
  rw [h] at hmem
  exact (ne_of_mem_escapeLabel hmem).1 rfl

end NodeId

namespace Hierarchy

variable {α : Type}

/-! ### The steps to a node -/

/-- The steps from the root of a tree to the end of a path: the label of each node that is entered,
with the number of its older siblings of the same label. -/
def steps (t : Tree (NodeInfo α)) : List Nat → List (String × Nat)
  | [] => []
  | i :: path =>
    match t.children[i]? with
    | none => []
    | some c =>
      (c.value.label, ((t.children.take i).map (·.value.label)).count c.value.label)
        :: steps c path

/-- The whole way to the end of a path: the label of the root, and the steps from there. -/
def way (t : Tree (NodeInfo α)) (path : List Nat) : List (String × Nat) :=
  (t.value.label, 0) :: steps t path

/-- The id at the end of some steps. -/
def idAlong (id : String) (steps : List (String × Nat)) : String :=
  steps.foldl (fun id s => NodeId.child id s.1 s.2) id

theorem idAlong_concat (id : String) (steps : List (String × Nat)) (x : String × Nat) :
    idAlong id (steps ++ [x]) = NodeId.child (idAlong id steps) x.1 x.2 := by
  rw [idAlong, List.foldl_append]
  rfl

/-- The id at the end of some steps from the root tells the label of the root and the steps. -/
theorem idAlong_inj {a b : String} {r s : List (String × Nat)}
    (h : idAlong (NodeId.escapeLabel a) r = idAlong (NodeId.escapeLabel b) s) : a = b ∧ r = s := by
  induction r using List.reverseRecOn generalizing s with
  | nil =>
    rcases List.eq_nil_or_concat' s with rfl | ⟨s, x, rfl⟩
    · exact ⟨NodeId.escapeLabel_inj h, rfl⟩
    · rw [idAlong_concat] at h
      exact absurd h.symm (NodeId.child_ne_escapeLabel _ _ _ _)
  | append_singleton r x ih =>
    rcases List.eq_nil_or_concat' s with rfl | ⟨s, y, rfl⟩
    · rw [idAlong_concat] at h
      exact absurd h (NodeId.child_ne_escapeLabel _ _ _ _)
    · rw [idAlong_concat, idAlong_concat] at h
      obtain ⟨hid, hlabel, hcount⟩ := NodeId.child_inj h
      obtain ⟨hroot, rfl⟩ := ih hid
      exact ⟨hroot, by rw [Prod.ext hlabel hcount]⟩

/-! ### Ids of a fresh hierarchy -/

section Grow

variable [Scalar α]

@[simp] theorem grow_node (id : String) (info : NodeInfo α) (cs : List (Tree (NodeInfo α))) :
    grow id (.node info cs) = .node (freshNode id info) (growAll id [] cs) := by
  rw [grow]

/-- The child at a position has the count of its label among the children before it. -/
theorem getElem?_growAll (id : String) (earlier : List String) (ts : List (Tree (NodeInfo α)))
    (i : Nat) :
    (growAll id earlier ts)[i]? = ts[i]?.map fun t =>
      grow (NodeId.child id t.value.label
        (((ts.take i).map (·.value.label)).count t.value.label
          + earlier.count t.value.label)) t := by
  induction ts generalizing earlier i with
  | nil => simp [growAll]
  | cons t ts ih =>
    cases i with
    | zero => simp [growAll]
    | succ i =>
      rw [growAll, List.getElem?_cons_succ, List.getElem?_cons_succ, ih]
      congr 1
      funext c
      rw [List.take_succ_cons, List.map_cons, List.count_cons, List.count_cons]
      congr 2
      omega

/-- At the end of a path grows the subtree of the document, with the id that the steps lead to. -/
theorem at?_grow (id : String) (t : Tree (NodeInfo α)) (path : List Nat) :
    (grow id t).at? path = (t.at? path).map (grow (idAlong id (steps t path))) := by
  induction path generalizing id t with
  | nil => rfl
  | cons i path ih =>
    cases t with
    | node info cs =>
      rw [grow_node, Tree.at?_cons, Tree.at?_cons, getElem?_growAll, steps]
      simp only [Tree.children, List.count_nil, Nat.add_zero]
      cases cs[i]? with
      | none => rfl
      | some c => exact ih _ c

theorem value_grow (id : String) (t : Tree (NodeInfo α)) :
    (grow id t).value = freshNode id t.value := by
  cases t with
  | node info cs => rw [grow_node]; rfl

/-- The id of a node is the id at the end of the steps that lead to it. -/
theorem id_of_mem_located {t : Tree (NodeInfo α)} {p : List Nat} {n : Node α}
    (h : (p, n) ∈ (ofTree t).tree.located.preorder) :
    n.id = idAlong (NodeId.escapeLabel t.value.label) (steps t p) ∧ ∃ s, t.at? p = some s := by
  obtain ⟨s, hs, rfl⟩ := Tree.mem_located_iff.mp h
  rw [ofTree, at?_grow, Option.map_eq_some_iff] at hs
  obtain ⟨u, hu, rfl⟩ := hs
  rw [value_grow]
  exact ⟨rfl, u, hu⟩

end Grow

/-! ### Steps inside one tree -/

/-- A label is counted more often before a later position than before an earlier one that bears
it. -/
theorem count_take_lt {labels : List String} {x : String} {i j : Nat} (hx : labels[i]? = some x)
    (hij : i < j) : (labels.take i).count x < (labels.take j).count x := by
  have hnext : (labels.take (i + 1)).count x = (labels.take i).count x + 1 := by
    rw [List.take_add_one, hx, Option.toList_some, List.count_append, List.count_singleton_self]
  have hle : (labels.take (i + 1)).count x ≤ (labels.take j).count x :=
    (List.take_sublist_take_left (by omega)).count_le x
  omega

/-- A child is told from its siblings by its label and its count. -/
theorem position_eq {cs : List (Tree (NodeInfo α))} {i j : Nat} {c d : Tree (NodeInfo α)}
    (hi : cs[i]? = some c) (hj : cs[j]? = some d) (hlabel : c.value.label = d.value.label)
    (hcount : ((cs.take i).map (·.value.label)).count c.value.label =
      ((cs.take j).map (·.value.label)).count d.value.label) : i = j := by
  have hli : (cs.map (·.value.label))[i]? = some c.value.label := by simp [hi]
  have hlj : (cs.map (·.value.label))[j]? = some c.value.label := by simp [hj, hlabel]
  rw [← hlabel, List.map_take, List.map_take] at hcount
  rcases Nat.lt_trichotomy i j with hlt | heq | hgt
  · have := count_take_lt hli hlt
    omega
  · exact heq
  · have := count_take_lt hlj hgt
    omega

theorem steps_cons {info : NodeInfo α} {cs : List (Tree (NodeInfo α))} {i : Nat}
    {c : Tree (NodeInfo α)} (hi : cs[i]? = some c) (path : List Nat) :
    steps (.node info cs) (i :: path) =
      (c.value.label, ((cs.take i).map (·.value.label)).count c.value.label)
        :: steps c path := by
  simp only [steps, Tree.children, hi]

theorem steps_append {t s : Tree (NodeInfo α)} {p : List Nat} (hp : t.at? p = some s)
    (q : List Nat) : steps t (p ++ q) = steps t p ++ steps s q := by
  induction p generalizing t with
  | nil =>
    obtain rfl := Option.some.inj hp
    rfl
  | cons i p ih =>
    cases t with
    | node info cs =>
      obtain ⟨c, hc, hcs⟩ := Tree.at?_cons_eq_some_iff.mp hp
      rw [List.cons_append, steps_cons hc, steps_cons hc, ih hcs, List.cons_append]

/-- There is one step for each level below the root. -/
theorem length_steps {t s : Tree (NodeInfo α)} {p : List Nat} (hp : t.at? p = some s) :
    (steps t p).length = p.length := by
  induction p generalizing t with
  | nil => rfl
  | cons i p ih =>
    cases t with
    | node info cs =>
      obtain ⟨c, hc, hcs⟩ := Tree.at?_cons_eq_some_iff.mp hp
      rw [steps_cons hc, List.length_cons, List.length_cons, ih hcs]

/-- Inside one tree the steps tell the path. -/
theorem steps_inj {t s u : Tree (NodeInfo α)} {p q : List Nat} (hp : t.at? p = some s)
    (hq : t.at? q = some u) (h : steps t p = steps t q) : p = q := by
  induction p generalizing t q with
  | nil =>
    cases q with
    | nil => rfl
    | cons j q =>
      cases t with
      | node info cs =>
        obtain ⟨d, hd, -⟩ := Tree.at?_cons_eq_some_iff.mp hq
        rw [steps_cons hd] at h
        exact absurd h.symm (List.cons_ne_nil _ _)
  | cons i p ih =>
    cases t with
    | node info cs =>
      obtain ⟨c, hc, hcs⟩ := Tree.at?_cons_eq_some_iff.mp hp
      rw [steps_cons hc] at h
      cases q with
      | nil => exact absurd h (List.cons_ne_nil _ _)
      | cons j q =>
        obtain ⟨d, hd, hdu⟩ := Tree.at?_cons_eq_some_iff.mp hq
        rw [steps_cons hd] at h
        obtain ⟨hhead, htail⟩ := List.cons.inj h
        obtain ⟨hlabel, hcount⟩ := Prod.mk.inj hhead
        obtain rfl := position_eq hc hd hlabel hcount
        obtain rfl : c = d := Option.some.inj (hc.symm.trans hd)
        rw [ih hcs hdu htail]

/-! ### Telling nodes by their ids -/

variable [Scalar α]

/-- No two nodes of a fresh hierarchy have the same id. -/
theorem ids_ofTree_nodup (t : Tree (NodeInfo α)) :
    ((ofTree t).tree.preorder.map (·.id)).Nodup := by
  rw [← Tree.map_snd_located_preorder, List.map_map]
  refine List.Nodup.map_on ?_ (Tree.located_preorder_nodup _)
  rintro ⟨p, n⟩ hn ⟨q, m⟩ hm heq
  obtain ⟨hid, _, hp⟩ := id_of_mem_located hn
  obtain ⟨hid', _, hq⟩ := id_of_mem_located hm
  simp only [Function.comp_apply] at heq
  rw [hid, hid'] at heq
  obtain rfl := steps_inj hp hq (idAlong_inj heq).2
  obtain ⟨s, hs, rfl⟩ := Tree.mem_located_iff.mp hn
  obtain ⟨u, hu, rfl⟩ := Tree.mem_located_iff.mp hm
  rw [Option.some.inj (hs.symm.trans hu)]

/-- The id of a node cut at its last separator is the id of its parent. -/
theorem cutAtLast_id {t : Tree (NodeInfo α)} {p : List Nat} {i : Nat} {n m : Node α}
    (hn : (p ++ [i], n) ∈ (ofTree t).tree.located.preorder)
    (hm : (p, m) ∈ (ofTree t).tree.located.preorder) : NodeId.cutAtLast n.id = m.id := by
  obtain ⟨hid, s, hs⟩ := id_of_mem_located hn
  obtain ⟨hid', u, hu⟩ := id_of_mem_located hm
  rw [Tree.at?_append, hu, Option.bind_some] at hs
  cases u with
  | node info cs =>
    obtain ⟨c, hc, -⟩ := Tree.at?_cons_eq_some_iff.mp hs
    rw [hid, hid', steps_append hu, steps_cons hc, steps, idAlong_concat, NodeId.cutAtLast_child]

/-- Two nodes of any two trees have the same id just if they lie equally deep and the same steps lead
to them from equal roots. -/
theorem id_eq_iff {t u : Tree (NodeInfo α)} {p q : List Nat} {n m : Node α}
    (hn : (p, n) ∈ (ofTree t).tree.located.preorder)
    (hm : (q, m) ∈ (ofTree u).tree.located.preorder) :
    n.id = m.id ↔ p.length = q.length ∧ way t p = way u q := by
  obtain ⟨hid, s, hs⟩ := id_of_mem_located hn
  obtain ⟨hid', v, hv⟩ := id_of_mem_located hm
  rw [hid, hid', way, way, List.cons.injEq, Prod.mk.injEq]
  constructor
  · intro h
    obtain ⟨hroot, hsteps⟩ := idAlong_inj h
    have hlength := congrArg List.length hsteps
    rw [length_steps hs, length_steps hv] at hlength
    exact ⟨hlength, ⟨hroot, rfl⟩, hsteps⟩
  · rintro ⟨-, ⟨hroot, -⟩, hsteps⟩
    rw [hroot, hsteps]

/-- **Ids tell nodes.**  Between any two trees, two ids are equal just if the same way leads to their
nodes; inside one tree all ids differ; and an id cut at its last separator is the id of the parent. -/
theorem ids_tell_nodes (t u : Tree (NodeInfo α)) :
    (∀ p n q m, (p, n) ∈ (ofTree t).tree.located.preorder →
      (q, m) ∈ (ofTree u).tree.located.preorder →
      (n.id = m.id ↔ p.length = q.length ∧ way t p = way u q)) ∧
    ((ofTree t).tree.preorder.map (·.id)).Nodup ∧
    (∀ p i n m, (p ++ [i], n) ∈ (ofTree t).tree.located.preorder →
      (p, m) ∈ (ofTree t).tree.located.preorder → NodeId.cutAtLast n.id = m.id) := by
  refine ⟨?_, ids_ofTree_nodup t, ?_⟩
  · intro p n q m hn hm
    exact id_eq_iff hn hm
  · intro p i n m hn hm
    exact cutAtLast_id hn hm

/-- Two siblings of one label, and a third one whose label imitates the count of the second. -/
def imitation : Tree (NodeInfo Float) :=
  .node { label := "R" }
    [.node { label := "W" } [], .node { label := "W" } [], .node { label := "W#1" } []]

/-- The imitated id and the imitating one differ, and both are cut back to the id of the root. -/
theorem ids_tell_nodes_imitation :
    ∃ r n m : Node Float, ([], r) ∈ (ofTree imitation).tree.located.preorder ∧
      ([1], n) ∈ (ofTree imitation).tree.located.preorder ∧
      ([2], m) ∈ (ofTree imitation).tree.located.preorder ∧
      n.id = "R_W#1" ∧ m.id = "R_W%231" ∧
      (n.id = m.id ↔ [1].length = [2].length ∧ way imitation [1] = way imitation [2]) ∧
      NodeId.cutAtLast n.id = r.id := by
  have hr : ([], freshNode (NodeId.escapeLabel "R") { label := "R" }) ∈
      (ofTree imitation).tree.located.preorder := Tree.mem_located_iff.mpr ⟨_, rfl, rfl⟩
  have hn : ([1], freshNode (NodeId.child (NodeId.escapeLabel "R") "W" 1) { label := "W" }) ∈
      (ofTree imitation).tree.located.preorder := Tree.mem_located_iff.mpr ⟨_, rfl, rfl⟩
  have hm : ([2], freshNode (NodeId.child (NodeId.escapeLabel "R") "W#1" 0) { label := "W#1" }) ∈
      (ofTree imitation).tree.located.preorder := Tree.mem_located_iff.mpr ⟨_, rfl, rfl⟩
  obtain ⟨hiff, -, hcut⟩ := ids_tell_nodes imitation imitation
  exact ⟨_, _, _, hr, hn, hm, by decide +kernel, by decide +kernel, hiff _ _ _ _ hn hm,
    hcut [] 1 _ _ hn hr⟩

end Hierarchy

end FlowTree
