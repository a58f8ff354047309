import FlowTree.Proofs.Hierarchy.Drawn

/-!
# Lineages

The surroundings of a node, and its id too, are about the way from it to the root.

* **`Tree.lineages`** is a tree with the ancestors of each value, the nearest one first.
* **`NodeId.Follows`** says what the id of a node has to do with the id of its parent.
* **`Hierarchy.Named`** says that the ids of a hierarchy tell the nodes and their parents, as they do in all
  runs of a series (**`Series.named_build`**); **`Hierarchy.rooted_ids`** says that then the root is told
  from all other nodes by its id alone.
* **`Hierarchy.anchorOf`** finds the anchor on the way to the root; **`Hierarchy.map_spots`** describes the
  nodes on show with their surroundings by their lineages, and **`Hierarchy.exists_spot_above`** leads from
  a node to its parent.
-/

namespace FlowTree

/-! ### The ancestors of each value -/

namespace Tree

variable {β γ : Type}

/-- Each value with the values above it, the nearest one first; `above` are those above the root. -/
def lineagesBelow (above : List β) (t : Tree β) : Tree (β × List β) :=
  fold (γ := List β → Tree (β × List β))
    (fun v cs above => node (v, above) (cs.map fun c => c (v :: above))) t above

/-- Each value with its ancestors, the nearest one first. -/
def lineages (t : Tree β) : Tree (β × List β) := t.lineagesBelow []

@[simp] theorem lineagesBelow_node (above : List β) (v : β) (cs : List (Tree β)) :
    (node v cs).lineagesBelow above =
      node (v, above) (cs.map (lineagesBelow (v :: above))) := by
  rw [lineagesBelow, fold_node]
  exact congrArg (node _) (List.map_map ..)

/-- Forgetting the ancestors gives back the tree. -/
theorem map_fst_lineagesBelow (above : List β) (t : Tree β) :
    (t.lineagesBelow above).map (·.1) = t := by
  induction t generalizing above with
  | node v cs ih =>
    rw [lineagesBelow_node, map_node, List.map_map]
    congr 1
    exact (List.map_congr_left fun c hc => ih c hc _).trans cs.map_id

theorem map_fst_lineages (t : Tree β) : t.lineages.map (·.1) = t := map_fst_lineagesBelow [] t

theorem lineagesBelow_map (f : β → γ) (above : List β) (t : Tree β) :
    (t.map f).lineagesBelow (above.map f) =
      (t.lineagesBelow above).map fun x => (f x.1, x.2.map f) := by
  induction t generalizing above with
  | node v cs ih =>
    rw [map_node, lineagesBelow_node, lineagesBelow_node, map_node, List.map_map, List.map_map]
    congr 1
    exact List.map_congr_left fun c hc => ih c hc (v :: above)

theorem lineages_map (f : β → γ) (t : Tree β) :
    (t.map f).lineages = t.lineages.map fun x => (f x.1, x.2.map f) := lineagesBelow_map f [] t

theorem lineagesBelow_cut (stop : β → Bool) (above : List β) (t : Tree β) :
    (t.cut stop).lineagesBelow above = (t.lineagesBelow above).cut fun x => stop x.1 := by
  induction t generalizing above with
  | node v cs ih =>
    rw [cut_node, lineagesBelow_node, lineagesBelow_node, cut_node]
    congr 1
    split
    · rfl
    · rw [List.map_map, List.map_map]
      exact List.map_congr_left fun c hc => ih c hc _

theorem lineages_cut (stop : β → Bool) (t : Tree β) :
    (t.cut stop).lineages = t.lineages.cut fun x => stop x.1 := lineagesBelow_cut stop [] t

theorem fst_mem_of_mem_lineages {t : Tree β} {x : β × List β} (hx : x ∈ t.lineages.preorder) :
    x.1 ∈ t.preorder := by
  rw [← map_fst_lineages t, preorder_map]
  exact List.mem_map_of_mem hx

theorem exists_mem_lineages {t : Tree β} {v : β} (hv : v ∈ t.preorder) :
    ∃ above, (v, above) ∈ t.lineages.preorder := by
  rw [← map_fst_lineages t, preorder_map] at hv
  obtain ⟨⟨w, above⟩, hx, rfl⟩ := List.mem_map.mp hv
  exact ⟨above, hx⟩

theorem value_mem_lineages (t : Tree β) : (t.value, []) ∈ t.lineages.preorder := by
  cases t with
  | node v cs => rw [lineages, lineagesBelow_node, preorder_node]; exact List.mem_cons_self

/-- The parent of a value has the other ancestors. -/
theorem parent_mem_lineagesBelow {top : List β} {t : Tree β} {v p : β} {above : List β}
    (hx : (v, p :: above) ∈ (t.lineagesBelow top).preorder) :
    (p, above) ∈ (t.lineagesBelow top).preorder ∨ top = p :: above := by
  induction t generalizing top with
  | node w cs ih =>
    rw [lineagesBelow_node, preorder_node, List.flatMap_map, List.mem_cons, List.mem_flatMap] at hx
    rw [lineagesBelow_node, preorder_node, List.flatMap_map, List.mem_cons, List.mem_flatMap]
    rcases hx with heq | ⟨c, hc, hmem⟩
    · exact Or.inr (Prod.ext_iff.mp heq).2.symm
    · rcases ih c hc hmem with habove | heq
      · exact Or.inl (Or.inr ⟨c, hc, habove⟩)
      · cases heq
        exact Or.inl (Or.inl rfl)

theorem parent_mem_lineages {t : Tree β} {v p : β} {above : List β}
    (hx : (v, p :: above) ∈ t.lineages.preorder) : (p, above) ∈ t.lineages.preorder := by
  rcases parent_mem_lineagesBelow hx with hmem | heq
  · exact hmem
  · exact absurd heq.symm (List.cons_ne_nil p above)

/-- All ancestors of a value are values with a lineage. -/
theorem mem_of_mem_lineages {t : Tree β} {v w : β} {above : List β}
    (hx : (v, above) ∈ t.lineages.preorder) (hw : w ∈ v :: above) : w ∈ t.preorder := by
  induction above generalizing v with
  | nil =>
    rw [List.mem_singleton] at hw
    exact hw ▸ fst_mem_of_mem_lineages hx
  | cons p above ih =>
    rcases List.mem_cons.mp hw with rfl | hw
    · exact fst_mem_of_mem_lineages hx
    · exact ih (parent_mem_lineages hx) hw

/-- Every way up ends at the root. -/
theorem getLast_lineagesBelow {top : List β} {t : Tree β} {x : β × List β}
    (hx : x ∈ (t.lineagesBelow top).preorder) :
    ∃ way, x.1 :: x.2 = way ++ t.value :: top := by
  induction t generalizing top with
  | node w cs ih =>
    rw [lineagesBelow_node, preorder_node, List.flatMap_map, List.mem_cons, List.mem_flatMap] at hx
    rcases hx with rfl | ⟨c, hc, hmem⟩
    · exact ⟨[], rfl⟩
    · obtain ⟨way, hway⟩ := ih c hc hmem
      exact ⟨way ++ [c.value], by rw [hway, List.append_assoc]; rfl⟩

theorem getLast_lineages {t : Tree β} {x : β × List β} (hx : x ∈ t.lineages.preorder) :
    x.2.getLast?.getD x.1 = t.value := by
  obtain ⟨way, hway⟩ := getLast_lineagesBelow hx
  have hlast := congrArg List.getLast? hway
  rw [List.getLast?_cons, List.getLast?_append] at hlast
  exact Option.some.inj hlast

end Tree

/-! ### Ids along a lineage -/

namespace NodeId

/-- The id belongs below the given one, or to a root if there is none. -/
def Follows (id : String) : Option String → Prop
  | none => ∃ label, id = escapeLabel label
  | some parent => ∃ label earlier, id = child parent label earlier

/-- The id of the parent can be read off. -/
theorem Follows.cutAtLast_eq {id parent : String} (h : Follows id (some parent)) :
    cutAtLast id = parent := by
  obtain ⟨label, earlier, rfl⟩ := h
  exact cutAtLast_child parent label earlier

/-- Only the id of a root is without a separator. -/
theorem Follows.separator_mem_iff {id : String} {parent : Option String} (h : Follows id parent) :
    separator ∈ id.toList ↔ parent.isSome = true := by
  cases parent with
  | none =>
    obtain ⟨label, rfl⟩ := h
    refine iff_of_false ?_ Bool.false_ne_true
    exact fun hmem => (ne_of_mem_escapeLabel hmem).1 rfl
  | some parent =>
    obtain ⟨label, earlier, rfl⟩ := h
    exact iff_of_true (by simp [toList_child]) rfl

end NodeId

/-- The node has an edge and a label: it is not a root. -/
def Spot.inner {α : Type} (s : Spot α) : Bool := decide (NodeId.separator ∈ s.id.toList)

/-- Of these ids the first one is the only one without a separator. -/
def Rooted (ids : List String) : Prop :=
  ∀ id ∈ ids, id ∈ ids.tail ↔ NodeId.separator ∈ id.toList

theorem Rooted.mem_tail_iff {ids : List String} (h : Rooted ids) {id : String} :
    id ∈ ids.tail ↔ id ∈ ids ∧ NodeId.separator ∈ id.toList := by
  constructor
  · intro hid
    exact ⟨List.mem_of_mem_tail hid, (h id (List.mem_of_mem_tail hid)).mp hid⟩
  · rintro ⟨hid, hseparator⟩
    exact (h id hid).mpr hseparator

namespace Hierarchy

/-- Every id belongs below the id of the parent. -/
def Lineal (h : Hierarchy α) : Prop :=
  ∀ x ∈ (h.tree.map (·.id)).lineages.preorder, NodeId.Follows x.1 x.2.head?

theorem Lineal.of_skeleton {h h' : Hierarchy α} (hl : h.Lineal)
    (heq : h'.skeleton = h.skeleton) : h'.Lineal := by
  have hids := congrArg (Tree.map (·.1)) heq
  rw [skeleton, skeleton, Tree.map_map, Tree.map_map] at hids
  intro x hx
  exact hl x (hids ▸ hx)

theorem Lineal.follows {h : Hierarchy α} (hl : h.Lineal) {n : Node α} {above : List (Node α)}
    (hx : (n, above) ∈ h.tree.lineages.preorder) :
    NodeId.Follows n.id (above.head?.map (·.id)) := by
  have hids : (n.id, above.map (·.id)) ∈ (h.tree.map (·.id)).lineages.preorder := by
    rw [Tree.lineages_map, Tree.preorder_map]
    exact List.mem_map_of_mem hx
  rw [← List.head?_map]
  exact hl _ hids

theorem mem_lineages_of_shown {h : Hierarchy α} {x : Node α × List (Node α)}
    (hx : x ∈ h.shown.lineages.preorder) : x ∈ h.tree.lineages.preorder := by
  rw [shown, Tree.lineages_cut] at hx
  exact (Tree.preorder_cut_sublist _ _).subset hx

theorem value_shown (h : Hierarchy α) : h.shown.value = h.root := Tree.value_cut _ _

/-- The root is on show and listed first. -/
theorem ids_eq_cons (h : Hierarchy α) : h.ids = h.root.id :: h.ids.tail := by
  rw [ids, descendants, Tree.breadthFirst_eq_cons, value_shown]
  rfl

/-- **The root is told from all other nodes by its id.** -/
theorem rooted_ids {h : Hierarchy α} (hl : h.Lineal) (hd : h.Distinct) : Rooted h.ids := by
  intro id hid
  have hids : h.ids = h.shown.value.id :: h.ids.tail := by
    rw [value_shown]
    exact h.ids_eq_cons
  constructor
  · intro htail
    obtain ⟨n, hn, rfl⟩ := List.mem_map.mp hid
    rw [descendants, (Tree.breadthFirst_perm h.shown).mem_iff] at hn
    obtain ⟨above, hx⟩ := Tree.exists_mem_lineages hn
    rw [(hl.follows (mem_lineages_of_shown hx)).separator_mem_iff]
    cases above with
    | nil =>
      have hroot : n = h.shown.value := Tree.getLast_lineages hx
      have hnodup := ids_nodup hd
      rw [hids, List.nodup_cons] at hnodup
      exact absurd (hroot ▸ htail) hnodup.1
    | cons p above => rfl
  · intro hseparator
    rw [hids] at hid
    rcases List.mem_cons.mp hid with rfl | htail
    · have hroot := hl.follows (mem_lineages_of_shown h.shown.value_mem_lineages)
      exact absurd (hroot.separator_mem_iff.mp hseparator) Bool.false_ne_true
    · exact htail

/-! ### Names -/

/-- The ids name the nodes: they are distinct, and every id belongs below the id of the parent. -/
structure Named (h : Hierarchy α) : Prop where
  distinct : h.Distinct
  lineal : h.Lineal

namespace Named

variable {h h' : Hierarchy α}

theorem of_skeleton (hn : h.Named) (heq : h'.skeleton = h.skeleton) : h'.Named :=
  ⟨hn.distinct.of_skeleton heq, hn.lineal.of_skeleton heq⟩

theorem prune (hn : h.Named) : h.prune.Named := by
  refine ⟨hn.distinct.prune, ?_⟩
  intro x hx
  have hids : h.prune.tree.map (·.id) = h.shown.map (·.id) := by
    rw [Hierarchy.prune, Tree.map_map]
    rfl
  rw [hids, Tree.lineages_map, Tree.preorder_map] at hx
  obtain ⟨y, hy, rfl⟩ := List.mem_map.mp hx
  rw [List.head?_map]
  exact hn.lineal.follows (mem_lineages_of_shown hy)

theorem drawn [Scalar α] (hn : h.Named) (canvas : Canvas α) : (h.drawn canvas).Named :=
  (hn.of_skeleton (skeleton_rest_layout h canvas)).prune

end Named

section Build

variable [Scalar α]

theorem follows_grow {id : String} {above : List String} (h : NodeId.Follows id above.head?)
    (t : Tree (NodeInfo α)) :
    ∀ x ∈ (((grow id t).map (·.id)).lineagesBelow above).preorder,
      NodeId.Follows x.1 x.2.head? := by
  induction t generalizing id above with
  | node info cs ih =>
    intro x hx
    rw [grow_node, Tree.map_node, Tree.lineagesBelow_node, Tree.preorder_node, List.mem_cons,
      List.mem_flatMap] at hx
    rcases hx with rfl | ⟨c, hc, hmem⟩
    · exact h
    · rw [List.map_map] at hc
      obtain ⟨child, hchild, rfl⟩ := List.mem_map.mp hc
      obtain ⟨i, hi⟩ := List.getElem?_of_mem hchild
      rw [getElem?_growAll, Option.map_eq_some_iff] at hi
      obtain ⟨t, ht, rfl⟩ := hi
      refine ih t (List.mem_of_getElem? ht) ?_ x hmem
      exact ⟨_, _, rfl⟩

/-- So it is in a fresh hierarchy. -/
theorem lineal_ofTree (t : Tree (NodeInfo α)) : (ofTree t).Lineal := by
  refine follows_grow ?_ t
  exact ⟨_, rfl⟩

end Build

/-! ### Surroundings along a lineage -/

/-- The anchor of a node below the given ancestors. -/
def anchorOf (n : Node α) : List (Node α) → Node α
  | [] => n
  | p :: above => if n.visible then n else anchorOf p above

theorem map_contextAt (above : List (Node α)) (t : Tree (Node α)) :
    (contextAt (above.head?.map fun p => (p, anchorOf p above.tail)) t).map
        (fun s => (s.node, s.parent, s.anchor)) =
      (t.lineagesBelow above).map fun x => (x.1, x.2.head?, anchorOf x.1 x.2) := by
  induction t generalizing above with
  | node n cs ih =>
    have hanchor : anchorBelow (above.head?.map fun p => (p, anchorOf p above.tail)) n =
        anchorOf n above := by
      cases above <;> rfl
    rw [contextAt_node, Tree.lineagesBelow_node, Tree.map_node, Tree.map_node, hanchor,
      List.map_map, List.map_map]
    congr 1
    · cases above <;> rfl
    · exact List.map_congr_left fun c hc => ih c hc (n :: above)

/-- **The surroundings of a node on show follow from its lineage.** -/
theorem map_spots (h : Hierarchy α) :
    h.spots.map (fun s => (s.node, s.parent, s.anchor)) =
      h.shown.lineages.breadthFirst.map fun x => (x.1, x.2.head?, anchorOf x.1 x.2) := by
  rw [spots, ← Tree.breadthFirst_map, ← Tree.breadthFirst_map, shown, Tree.lineages_cut,
    Tree.map_cut (fun s : Spot α => (s.node, s.parent, s.anchor)) (fun v => v.1.folded),
    Tree.map_cut (fun x : Node α × List (Node α) => (x.1, x.2.head?, anchorOf x.1 x.2))
      (fun v => v.1.folded)]
  exact congrArg (fun t => (t.cut fun v => v.1.folded).breadthFirst) (map_contextAt [] h.tree)

theorem lineage_of_map_eq {spots : List (Spot α)} {lines : List (Node α × List (Node α))}
    (h : spots.map (fun s => (s.node, s.parent, s.anchor)) =
      lines.map fun x => (x.1, x.2.head?, anchorOf x.1 x.2)) {s : Spot α} (hs : s ∈ spots) :
    ∃ above, (s.node, above) ∈ lines ∧ s.parent = above.head? ∧
      s.anchor = anchorOf s.node above := by
  have hmem : (s.node, s.parent, s.anchor) ∈ spots.map fun s => (s.node, s.parent, s.anchor) :=
    List.mem_map_of_mem hs
  rw [h] at hmem
  obtain ⟨⟨n, above⟩, hx, heq⟩ := List.mem_map.mp hmem
  simp only [Prod.mk.injEq] at heq
  obtain ⟨rfl, hparent, hanchor⟩ := heq
  exact ⟨above, hx, hparent.symm, hanchor.symm⟩

theorem exists_spot_of_map_eq {spots : List (Spot α)} {lines : List (Node α × List (Node α))}
    (h : spots.map (fun s => (s.node, s.parent, s.anchor)) =
      lines.map fun x => (x.1, x.2.head?, anchorOf x.1 x.2))
    {n : Node α} {above : List (Node α)} (hx : (n, above) ∈ lines) :
    ∃ s ∈ spots, s.node = n ∧ s.parent = above.head? ∧ s.anchor = anchorOf n above := by
  have hmem := List.mem_map_of_mem (f := fun x : Node α × List (Node α) =>
    (x.1, x.2.head?, anchorOf x.1 x.2)) hx
  rw [← h] at hmem
  obtain ⟨s, hs, heq⟩ := List.mem_map.mp hmem
  simp only [Prod.mk.injEq] at heq
  exact ⟨s, hs, heq⟩

theorem lineage_of_mem_spots {h : Hierarchy α} {s : Spot α} (hs : s ∈ h.spots) :
    ∃ above, (s.node, above) ∈ h.shown.lineages.preorder ∧ s.parent = above.head? ∧
      s.anchor = anchorOf s.node above := by
  obtain ⟨above, hx, hrest⟩ := lineage_of_map_eq (map_spots h) hs
  exact ⟨above, (Tree.breadthFirst_perm _).mem_iff.mp hx, hrest⟩

theorem exists_mem_spots {h : Hierarchy α} {n : Node α} {above : List (Node α)}
    (hx : (n, above) ∈ h.shown.lineages.preorder) :
    ∃ s ∈ h.spots, s.node = n ∧ s.parent = above.head? ∧ s.anchor = anchorOf n above :=
  exists_spot_of_map_eq (map_spots h) ((Tree.breadthFirst_perm _).mem_iff.mpr hx)

/-- The surroundings of all nodes, those that are folded away included. -/
theorem map_inContext (t : Tree (Node α)) :
    (inContext t).preorder.map (fun s => (s.node, s.parent, s.anchor)) =
      t.lineages.preorder.map fun x => (x.1, x.2.head?, anchorOf x.1 x.2) := by
  rw [← Tree.preorder_map, ← Tree.preorder_map]
  exact congrArg Tree.preorder (map_contextAt [] t)

/-- A visible node is its own anchor. -/
theorem anchor_of_visible {h : Hierarchy α} {s : Spot α} (hs : s ∈ h.spots)
    (hvisible : s.node.visible = true) : s.anchor = s.node := by
  obtain ⟨above, -, -, hanchor⟩ := lineage_of_mem_spots hs
  rw [hanchor]
  cases above with
  | nil => rfl
  | cons p above => rw [anchorOf, if_pos hvisible]

/-- Every node on show but the root has its parent on show, and with it its anchor unless it is visible
itself. -/
theorem exists_spot_above {h : Hierarchy α} (hl : h.Lineal) {s : Spot α} (hs : s ∈ h.spots)
    (hinner : s.inner = true) :
    ∃ p ∈ h.spots, p.id = NodeId.cutAtLast s.id ∧ s.parent = some p.node ∧
      (s.node.visible = false → s.anchor = p.anchor) := by
  obtain ⟨above, hx, hparent, hanchor⟩ := lineage_of_mem_spots hs
  have hfollows := hl.follows (mem_lineages_of_shown hx)
  cases above with
  | nil =>
    rw [Spot.inner, decide_eq_true_eq] at hinner
    exact absurd (hfollows.separator_mem_iff.mp hinner) Bool.false_ne_true
  | cons m above =>
    obtain ⟨p, hp, rfl, -, hanchor'⟩ := exists_mem_spots (Tree.parent_mem_lineages hx)
    refine ⟨p, hp, hfollows.cutAtLast_eq.symm, hparent, fun hvisible => ?_⟩
    rw [hanchor, hanchor', anchorOf, hvisible, if_neg Bool.false_ne_true]

/-- Marks change the surroundings along with the nodes. -/
theorem lineage_of_mem_updateShown {f : Node α → Node α} (hf : ∀ n, (f n).folded = n.folded)
    {h : Hierarchy α} {s : Spot α} (hs : s ∈ (h.updateShown f).spots) :
    ∃ n above, (n, above) ∈ h.shown.lineages.preorder ∧ s.node = f n ∧
      s.parent = above.head?.map f ∧ s.anchor = anchorOf (f n) (above.map f) := by
  obtain ⟨above', hx, hparent, hanchor⟩ := lineage_of_mem_spots hs
  rw [shown_updateShown hf, Tree.lineages_map, Tree.preorder_map] at hx
  obtain ⟨⟨n, above⟩, hmem, heq⟩ := List.mem_map.mp hx
  obtain ⟨hnode, rfl⟩ := Prod.mk.inj heq
  rw [List.head?_map] at hparent
  exact ⟨n, above, hmem, hnode.symm, hparent, hanchor.trans (by rw [hnode])⟩

theorem exists_mem_updateShown {f : Node α → Node α} (hf : ∀ n, (f n).folded = n.folded)
    {h : Hierarchy α} {n : Node α} {above : List (Node α)}
    (hx : (n, above) ∈ h.shown.lineages.preorder) :
    ∃ s ∈ (h.updateShown f).spots, s.node = f n ∧ s.parent = above.head?.map f ∧
      s.anchor = anchorOf (f n) (above.map f) := by
  rw [← List.head?_map]
  refine exists_mem_spots ?_
  rw [shown_updateShown hf, Tree.lineages_map, Tree.preorder_map]
  exact List.mem_map_of_mem hx

end Hierarchy

/-! ### The runs of a series -/

/-- In every run of a series the ids name the nodes. -/
theorem Series.named_build [Scalar α] (trees : List (DatedTree α)) (canvas : Canvas α) :
    ∀ r ∈ build trees canvas, r.tree.Named := by
  intro r hr
  refine ⟨distinct_build trees canvas r hr, ?_⟩
  obtain ⟨t, -, rfl⟩ := List.mem_map.mp hr
  exact (Hierarchy.lineal_ofTree t.tree).of_skeleton (skeleton_runOf canvas t)

end FlowTree
