import FlowTree.Proofs.Arena.Folding
import FlowTree.Proofs.Arena.Growth
import FlowTree.Proofs.Arena.Placing

/-!
# Edits of a hierarchy

After it has been built a hierarchy is folded and unfolded, placed, and marked, node by node and in any order.

* **`Edit`** is one of these changes; it names nodes by their positions in the listing.
* **`Hierarchy.edit?`** carries it out on a hierarchy, **`Arena.edit`** on an array.
* **`Hierarchy.edit_arena`** says that both do the same and that the ids stay, **`Hierarchy.edits_arena`** that so it is for
  any number of edits.
-/

namespace FlowTree

/-- A change of a hierarchy after it has been built. -/
inductive Edit (α : Type) where
  /-- Folds or unfolds the children of a node. -/
  | toggle (position : ℕ)
  /-- Places all nodes on show. -/
  | layout (canvas : Canvas α)
  /-- Changes what a pass remembers about a node. -/
  | mark (position : ℕ) (visible : Bool) (start finish : Point α)

variable {α : Type}

/-- The edit names a position among the first `count` ones. -/
def Edit.Fits (count : ℕ) : Edit α → Prop
  | toggle position => position < count
  | layout _ => True
  | mark position _ _ _ => position < count

/-- The node with other marks. -/
def Node.marked (visible : Bool) (start finish : Point α) (n : Node α) : Node α :=
  { n with visible := visible, start := start, finish := finish }

variable [Scalar α]

/-- Carries out an edit on an array. -/
def Arena.edit (a : Arena α) : Edit α → Checked (Arena α)
  | .toggle position => do
    let (_, a) ← a.toggle position
    return a
  | .layout canvas => a.layout canvas
  | .mark position visible start finish =>
    Checked.modify a position fun s => { s with node := s.node.marked visible start finish }

namespace Hierarchy

/-- Carries out an edit on a hierarchy; `none` if no node has the position. -/
def edit? (h : Hierarchy α) : Edit α → Option (Hierarchy α)
  | .toggle position => do
    let n ← h.nodes[position]?
    let (_, h) ← h.toggle? n.id
    return h
  | .layout canvas => some (h.layout canvas)
  | .mark position visible start finish => do
    let n ← h.nodes[position]?
    return h.update n.id (·.marked visible start finish)

/-! ### Changes of one node -/

section Update

omit [Scalar α]

theorem map_update {γ : Type} {f : Node α → Node α} {g : Node α → γ} (hg : ∀ n, g (f n) = g n) (h : Hierarchy α)
    (id : String) : (h.update id f).tree.map g = h.tree.map g := by
  rw [update, Tree.map_map]
  refine Tree.map_congr fun n _ => ?_
  rw [Function.comp_apply]
  split
  · exact hg n
  · rfl

theorem skeleton_update {f : Node α → Node α} (hf : Stamps f) (h : Hierarchy α) (id : String) :
    (h.update id f).skeleton = h.skeleton :=
  map_update (fun n => Prod.ext (congrArg (·.1) (hf.keeps n)) (congrArg (·.2.1) (hf.keeps n))) h id

/-- **Changing the node with an id** is changing the node at its position. -/
theorem arena_update {f : Node α → Node α} (hf : Stamps f) {h : Hierarchy α} (hd : h.Distinct) {i : ℕ} {n : Node α}
    (hn : h.nodes[i]? = some n) :
    (h.update n.id f).arena = h.arena.modify i fun s => { s with node := f s.node } := by
  have hlisting : (h.update n.id f).listing = h.listing := rfl
  rw [Checked.modify_eq_mapIdx]
  refine arena_of_frame hlisting (map_update hf.keeps h n.id) ?_
  intro path m cs m' cs' hat hat' s hs _
  have hmoved : m' = if m.id == n.id then f m else m := by
    rw [update, Tree.at?_map, hat, Option.map_some, Tree.map_node, Option.some.injEq, Tree.node.injEq] at hat'
    exact hat'.1.symm
  have hiff : h.place path = i ↔ m.id = n.id := by
    have hm := getElem?_nodes hat
    constructor
    · rintro rfl
      rw [Option.some.inj (hm.symm.trans hn)]
    · intro hid
      have hfound := find?_of_getElem? hd hm
      rw [hid, find?_of_getElem? hd hn] at hfound
      exact (Option.some.inj hfound).symm
  by_cases hplace : h.place path = i
  · rw [if_pos hplace, hmoved, if_pos (beq_iff_eq.mpr (hiff.mp hplace)), hs, hf.plain]
  · rw [if_neg hplace, hmoved, if_neg fun hid => hplace (hiff.mpr (beq_iff_eq.mp hid)), ← hs]

theorem stamps_marked (visible : Bool) (start finish : Point α) :
    Stamps (Node.marked visible start finish) := ⟨fun _ => rfl, fun _ => rfl⟩

theorem length_arena_congr {h h' : Hierarchy α} (heq : h'.skeleton = h.skeleton) : h'.arena.length = h.arena.length := by
  have hlength := congrArg (fun t => t.preorder.length) heq
  simp only [skeleton, Tree.preorder_map, List.length_map] at hlength
  rw [length_arena, length_arena, hlength]

theorem length_nodes (h : Hierarchy α) : h.nodes.length = h.arena.length := by
  rw [length_arena, h.nodes_perm.length_eq]

end Update

/-! ### Edits -/

/-- **One edit** goes through, in the hierarchy and in the array, and the ids stay. -/
theorem edit_arena {h : Hierarchy α} (hd : h.Distinct) {e : Edit α} (hfits : e.Fits h.arena.length) :
    ∃ k, h.edit? e = some k ∧ h.arena.edit e = .ok k.arena ∧ k.skeleton = h.skeleton := by
  cases e with
  | toggle i =>
    rw [Edit.Fits, ← length_nodes] at hfits
    have hn := List.getElem?_eq_getElem hfits
    obtain ⟨toggle, htree, harray⟩ := toggle_arena hd (find?_of_getElem? hd hn)
    refine ⟨h.refold h.nodes[i].id, ?_, ?_, skeleton_refold _ h⟩
    · rw [edit?, hn, Option.bind_eq_bind, Option.bind_some, htree]
      rfl
    · rw [Arena.edit, harray, Checked.ok_bind]
      rfl
  | layout canvas => exact ⟨h.layout canvas, rfl, h.layout_arena canvas, map_layout (fun _ _ => rfl) h canvas⟩
  | mark i visible start finish =>
    have hstamps := stamps_marked visible start finish
    rw [Edit.Fits] at hfits
    obtain ⟨n, hn⟩ : ∃ n, h.nodes[i]? = some n := ⟨_, List.getElem?_eq_getElem (by rwa [length_nodes])⟩
    refine ⟨h.update n.id (Node.marked visible start finish), ?_, ?_, skeleton_update hstamps h n.id⟩
    · rw [edit?, hn]
      rfl
    · rw [arena_update hstamps hd hn, Arena.edit, Checked.modify_eq hfits]

/-- **Any number of edits** go through. -/
theorem edits_arena {edits : List (Edit α)} {h : Hierarchy α} (hd : h.Distinct)
    (hfits : ∀ e ∈ edits, e.Fits h.arena.length) :
    ∃ k, edits.foldlM edit? h = some k ∧ edits.foldlM Arena.edit h.arena = .ok k.arena ∧ k.skeleton = h.skeleton := by
  induction edits generalizing h with
  | nil => exact ⟨h, rfl, rfl, rfl⟩
  | cons e edits ih =>
    obtain ⟨k, hedit, hedit', hskeleton⟩ := edit_arena hd (hfits e List.mem_cons_self)
    have hrest : ∀ e ∈ edits, e.Fits k.arena.length := by
      rw [length_arena_congr hskeleton]
      exact fun e he => hfits e (List.mem_cons_of_mem _ he)
    obtain ⟨k', hedits, hedits', hskeleton'⟩ := ih (hd.of_skeleton hskeleton) hrest
    refine ⟨k', ?_, ?_, hskeleton'.trans hskeleton⟩
    · rw [List.foldlM_cons, hedit]
      exact hedits
    · rw [List.foldlM_cons, hedit', Checked.ok_bind]
      exact hedits'

theorem length_ofTree (t : Tree (NodeInfo α)) : (ofTree t).arena.length = t.size := by
  have hinfo := congrArg (fun t => t.preorder.length) (map_info_grow (NodeId.escapeLabel t.value.label) t)
  simp only [Tree.preorder_map, List.length_map] at hinfo
  rw [length_arena, Tree.size]
  exact hinfo

end Hierarchy

end FlowTree
