import FlowTree.Proofs.Arena.Descent
import FlowTree.Proofs.Arena.Settling

/-!
# The meetings of the first walk

* **`Net.Meeting.Of`** says what a meeting between a subtree and its older siblings is like, **`Net.Matched`** that
  some meetings are those of certain siblings.
* **`Net.joinTraced_eq`** says that a subtree meets its older siblings in this way, and that the outlines of the row
  are its rims again.
* **`Joins`** says which subtrees join which rows anywhere in a tree, **`meets`** that the meetings of the first walk are
  theirs, and **`Net.matched_of_breadthsTraced`** that those of the whole run are.
-/

namespace FlowTree.Tidy

variable {α : Type}

namespace Net

/-! ### One meeting -/

/-- The subtree `t` meets the row `ts` of its older siblings. -/
structure Meeting.Of (m : Meeting α) (ts : List Wires) (t : Wires) : Prop where
  new : m.new = top t
  older : ts.getLast?.map top = some m.older
  down : m.toTrail.Down ts t 0

/-- The meetings are those of the subtrees with their older siblings that are told. -/
structure Matched (meetings : List (Meeting α)) (told : List Wires → Wires → Prop) : Prop where
  sound : ∀ m ∈ meetings, ∃ ts t, told ts t ∧ m.Of ts t
  complete : ∀ ts t, told ts t → ts ≠ [] → ∃ m ∈ meetings, m.Of ts t

namespace Matched

variable {meetings more : List (Meeting α)} {told told' : List Wires → Wires → Prop}

theorem congr (h : Matched meetings told) (heq : ∀ ts t, told' ts t ↔ told ts t) : Matched meetings told' where
  sound m hm := by
    obtain ⟨ts, t, htold, hof⟩ := h.sound m hm
    exact ⟨ts, t, (heq ts t).mpr htold, hof⟩
  complete ts t htold := h.complete ts t ((heq ts t).mp htold)

theorem append (h : Matched meetings told) (h' : Matched more told') :
    Matched (meetings ++ more) fun ts t => told ts t ∨ told' ts t where
  sound m hm := by
    rcases List.mem_append.mp hm with hm | hm
    · obtain ⟨ts, t, htold, hof⟩ := h.sound m hm
      exact ⟨ts, t, .inl htold, hof⟩
    · obtain ⟨ts, t, htold, hof⟩ := h'.sound m hm
      exact ⟨ts, t, .inr htold, hof⟩
  complete ts t htold hne := by
    rcases htold with htold | htold
    · obtain ⟨m, hm, hof⟩ := h.complete ts t htold hne
      exact ⟨m, List.mem_append_left _ hm, hof⟩
    · obtain ⟨m, hm, hof⟩ := h'.complete ts t htold hne
      exact ⟨m, List.mem_append_right _ hm, hof⟩

end Matched

variable [Scalar α] {net net' : Net α} {p default : ℕ} {ts : List Wires} {t : Wires} {f : Forest α} {d : Drawn α}
  {c : Cell α} {meetings : List (Meeting α)}

/-- **A subtree meets its older siblings.** -/
theorem apportionTraced_eq (hb : Adjoins net p ts t) (hrow : Row net ts f default) (hd : DrawnAt net t d)
    (hrims : OnRims net ts) (hnew : OnRims net [t]) (hc : net[p]? = some c)
    (hchildren : c.children.head? = ((ts ++ [t]).head?).map top) {default' : ℕ}
    (h : net.apportionTraced (top t) (ts.getLast?.map top) default = .ok ((net', default'), meetings)) :
    OnRims net' (ts ++ [t]) ∧ Matched meetings fun us u => us = ts ∧ u = t := by
  by_cases hne : ts = []
  · subst hne
    obtain ⟨⟨rfl, rfl⟩, rfl⟩ : (net = net' ∧ default = default') ∧ [] = meetings := by
      simpa only [Prod.mk.injEq] using Except.ok.inj h
    exact ⟨hnew, fun m hm => absurd hm List.not_mem_nil, fun us u htold hne => absurd htold.1 hne⟩
  · obtain ⟨o, y, xs, ys, zs, us, hmet⟩ := Met.start hb hrow hd hne
    rw [hmet.youngest, Option.map_some] at h
    simp only [apportionTraced, Checked.bind_eq_ok_iff, Checked.pure_eq, Checked.get_eq_ok_iff] at h
    obtain ⟨parent, hparent, q, hq, oldest, holdest, own, -, a, -, b, -, ⟨⟨net₁, stop⟩, trail⟩, htrail, next, hgo, h⟩ :=
      h
    obtain ⟨rfl, rfl⟩ := Prod.mk.inj (Except.ok.inj h)
    obtain rfl := Except.ok.inj ((hb.parentOf_top Adjoins.getElem?_new).symm.trans hparent)
    obtain rfl := Option.some.inj (hc.symm.trans hq)
    rw [← List.head?_eq_getElem?, hchildren, hmet.head?, Option.map_some] at holdest
    obtain rfl := Option.some.inj holdest
    -- the rims of both sides
    have hxs := (hrims.right y hmet.youngest).getElem?_eq hmet.rowInner
    have hys := (hnew.left t rfl).getElem?_eq hmet.newInner
    have hzs := (hrims.left o hmet.oldest).getElem?_eq hmet.rowOuter
    have hus := (hnew.right t rfl).getElem?_eq hmet.newOuter
    have howned : ∀ k x, rightmost ts (k + 1) = some x → ∃ e, Owned net default ts x e := by
      intro k x hx
      rw [← hxs, List.getElem?_cons_succ] at hx
      obtain ⟨hk, rfl⟩ := List.getElem?_eq_some_iff.mp hx
      exact ⟨_, hmet.owned.get hk (hmet.owned.length_eq ▸ hk)⟩
    have hdown := descendTraced_eq hb howned (.start hrims hnew hmet.oldest hmet.youngest) (.refl net t) htrail
    -- what the way down comes to
    obtain ⟨net₂, feet, hdescend, hmet₂, -, -, hnewOuter, hrowOuter⟩ := hmet.descend_eq
      ⟨a.modifier, own.modifier, b.modifier, own.modifier⟩
    have hplain := congrArg (Prod.fst <$> ·) htrail
    simp only [descendTraced_fst, Checked.map_ok] at hplain
    obtain ⟨rfl, rfl⟩ := Prod.mk.inj (Except.ok.inj (hdescend.symm.trans hplain))
    obtain ⟨hleft, hright⟩ := hmet₂.leads_goOn hnewOuter hrowOuter rfl rfl hgo
    have hof : Meeting.Of { trail with new := top t, older := top y } ts t :=
      ⟨rfl, by rw [hmet.youngest]; rfl, hdown⟩
    refine ⟨.concat hmet.oldest hleft hright hxs hys hzs hus, fun m hm => ?_, fun us u htold _ => ?_⟩
    · exact ⟨ts, t, ⟨rfl, rfl⟩, List.mem_singleton.mp hm ▸ hof⟩
    · exact ⟨_, List.mem_singleton_self _, htold.1 ▸ htold.2 ▸ hof⟩

/-- **So it does as it joins them.** -/
theorem joinTraced_eq (hb : Adjoins net p ts t) (hrow : Row net ts f default) (hd : DrawnAt net t d)
    (hrims : OnRims net ts) (hnew : OnRims net [t]) (hc : net[p]? = some c)
    (hchildren : c.children.head? = ((ts ++ [t]).head?).map top)
    (hdefault : c.defaultAncestor = ts.head?.map fun _ => default)
    (h : net.joinTraced (top t) (ts.getLast?.map top) = .ok (net', meetings)) :
    OnRims net' (ts ++ [t]) ∧ Matched meetings fun us u => us = ts ∧ u = t := by
  simp only [joinTraced, Checked.bind_eq_ok_iff, Checked.pure_eq, Checked.get_eq_ok_iff] at h
  obtain ⟨parent, hparent, q, hq, oldest, holdest, ⟨⟨net₁, next⟩, ms⟩, happortion, net₂, hmodify, h⟩ := h
  obtain ⟨rfl, rfl⟩ := Prod.mk.inj (Except.ok.inj h)
  obtain rfl := Except.ok.inj ((hb.parentOf_top Adjoins.getElem?_new).symm.trans hparent)
  obtain rfl := Option.some.inj (hc.symm.trans hq)
  rw [← List.head?_eq_getElem?, hchildren, Option.map_eq_some_iff] at holdest
  obtain ⟨o, ho, rfl⟩ := holdest
  obtain ⟨hedged, hof⟩ := apportionTraced_eq hb (hrow.assumed ho hdefault).1 hd hrims hnew hc hchildren happortion
  refine ⟨hedged.of_links ?_, hof⟩
  rw [Checked.eq_modify hmodify]
  exact map_modify_of_keeps (f := Cell.assuming next) (fun _ => rfl) net₁ p

end Net

/-! ### All meetings -/

/-- The subtree `u` joins the row `us` of its older siblings among the trees of a row or below one of them. -/
def Joins (ts us : List Wires) (u : Wires) : Prop :=
  (∃ rest, ts = us ++ u :: rest) ∨
    ∃ t ∈ ts, ∃ path x rest, t.at? path = some (.node x (us ++ u :: rest))

theorem joins_nil (us : List Wires) (u : Wires) : ¬Joins [] us u := by
  rintro (⟨rest, h⟩ | ⟨t, ht, -⟩)
  · simp at h
  · exact List.not_mem_nil ht

/-- Among the children of a node subtrees join as they do in its tree. -/
theorem joins_children_iff {x : ℕ × ℕ} {cs us : List Wires} {u : Wires} :
    Joins cs us u ↔ ∃ path y rest, (Tree.node x cs).at? path = some (.node y (us ++ u :: rest)) := by
  constructor
  · rintro (⟨rest, rfl⟩ | ⟨t, ht, path, y, rest, hat⟩)
    · exact ⟨[], x, rest, rfl⟩
    · obtain ⟨k, hk⟩ := List.getElem?_of_mem ht
      exact ⟨k :: path, y, rest, Tree.at?_cons_eq_some_iff.mpr ⟨t, hk, hat⟩⟩
  · rintro ⟨path, y, rest, hat⟩
    cases path with
    | nil => exact .inl ⟨rest, (Tree.node.inj (Option.some.inj hat)).2⟩
    | cons k path =>
      obtain ⟨t, hk, hat⟩ := Tree.at?_cons_eq_some_iff.mp hat
      exact .inr ⟨t, List.mem_of_getElem? hk, path, y, rest, hat⟩

/-- One tree more at the end of a row. -/
theorem joins_concat_iff {ts us : List Wires} {x : ℕ × ℕ} {cs : List Wires} {u : Wires} :
    Joins (ts ++ [.node x cs]) us u ↔ Joins ts us u ∨ (us = ts ∧ u = .node x cs) ∨ Joins cs us u := by
  rw [@joins_children_iff x cs]
  constructor
  · rintro (⟨rest, h⟩ | ⟨t, ht, hat⟩)
    · rcases List.eq_nil_or_concat rest with rfl | ⟨rest, w, rfl⟩
      · obtain ⟨rfl, heq⟩ := List.append_inj' h rfl
        exact .inr (.inl ⟨rfl, (List.cons.inj heq).1.symm⟩)
      · rw [List.concat_eq_append, ← List.cons_append, ← List.append_assoc] at h
        exact .inl (.inl ⟨rest, (List.append_inj' h rfl).1⟩)
    · rcases List.mem_append.mp ht with ht | ht
      · exact .inl (.inr ⟨t, ht, hat⟩)
      · obtain rfl := List.mem_singleton.mp ht
        exact .inr (.inr hat)
  · rintro ((⟨rest, rfl⟩ | ⟨t, ht, hat⟩) | ⟨rfl, rfl⟩ | hat)
    · exact .inl ⟨rest ++ [.node x cs], by rw [List.append_assoc, List.cons_append]⟩
    · exact .inr ⟨t, List.mem_append_left _ ht, hat⟩
    · exact .inl ⟨[], rfl⟩
    · exact .inr ⟨_, List.mem_concat_self, hat⟩

variable [Scalar α]

/-- As the first walk draws a subtree and lets it join the row of its older siblings, the outlines of the row stay its
rims, and the meetings are those of all siblings below the subtree and that of the subtree with its older siblings. -/
def Meets (α : Type) [Scalar α] (t : Wires) : Prop :=
  ∀ (net : Net α) (p default : ℕ) (ts : List Wires) (f : Forest α) (c : Cell α) (rounds : ℕ),
    Awaited net p default ts t f c → Fresh net p ts.length t → OnRims net ts → t.size ≤ rounds →
      ∀ net' meetings, net.firstWalkTraced rounds (top t) = .ok (net', meetings) →
        OnRims net' (ts ++ [t]) ∧
          Net.Matched meetings fun us u => Joins t.children us u ∨ us = ts ∧ u = t

/-- One child after the other meets its older siblings. -/
theorem meet_children {todo : List Wires} (htodo : ∀ u ∈ todo, Meets α u) {net net' : Net α} {v default rounds : ℕ}
    {done : List Wires} {f : Forest α} {c : Cell α} (h : Halfway net v default done todo f c) (hrims : OnRims net done)
    (hrounds : ∀ u ∈ todo, u.size ≤ rounds) {before meetings : List (Net.Meeting α)}
    (hbefore : Net.Matched before (Joins done))
    (hrun : (todo.map top).foldlM (Net.addTraced (Net.firstWalkTraced rounds)) (net, before) = .ok (net', meetings)) :
    OnRims net' (done ++ todo) ∧ Net.Matched meetings (Joins (done ++ todo)) := by
  induction todo generalizing done net default f c before with
  | nil =>
    obtain ⟨rfl, rfl⟩ := Prod.mk.inj (Except.ok.inj hrun)
    rw [List.append_nil]
    exact ⟨hrims, hbefore⟩
  | cons u todo ih =>
    simp only [List.map_cons, List.foldlM_cons, Net.addTraced, Checked.bind_eq_ok_iff, Checked.pure_eq] at hrun
    obtain ⟨state, ⟨⟨net₁, more⟩, hfirst, hstate⟩, hrest⟩ := hrun
    obtain rfl := Except.ok.inj hstate
    -- the plain walk tells what the cells hold
    obtain ⟨net₂, default₂, hwalk, hrow₂, hwithin, hcell₂⟩ := walks u net v default done f c rounds h.awaited
      (h.fresh 0 u rfl) (hrounds u List.mem_cons_self)
    have hplain := congrArg (Prod.fst <$> ·) hfirst
    simp only [Net.firstWalkTraced_fst, Checked.map_ok] at hplain
    obtain rfl := Except.ok.inj (hwalk.symm.trans hplain)
    obtain ⟨hedged, hmore⟩ := htodo u List.mem_cons_self net v default done f c rounds h.awaited (h.fresh 0 u rfl)
      hrims (hrounds u List.mem_cons_self) _ _ hfirst
    rw [List.append_cons]
    refine ih (fun w hw => htodo w (List.mem_cons_of_mem u hw)) (h.step hrow₂ hwithin hcell₂) hedged
      (fun w hw => hrounds w (List.mem_cons_of_mem u hw)) ((hbefore.append hmore).congr fun us w => ?_) hrest
    obtain ⟨x, cs⟩ := u
    rw [joins_concat_iff, Tree.children, or_comm (a := Joins cs us w)]

/-- **The meetings of the first walk** are those of all subtrees with their older siblings. -/
theorem meets (t : Wires) : Meets α t := by
  induction t using Tree.induct with
  | node x cs ih =>
    intro net p default ts f c rounds h hfresh hrims hrounds net' meetings hrun
    have hnodup : (slots (.node x cs)).Nodup :=
      (List.nodup_flatMap.mp h.adjoins.nodup).1 _ List.mem_concat_self
    obtain ⟨rounds, rfl⟩ : ∃ r, rounds = r + 1 := ⟨rounds - 1, by rw [Tree.size_node] at hrounds; omega⟩
    have hsizes : ∀ u ∈ cs, u.size ≤ rounds := fun u hu =>
      Nat.le_of_lt_succ ((Tree.size_lt_of_mem x hu).trans_le hrounds)
    obtain ⟨cell, hcell, hjoint⟩ := hfresh.wired.joint
    have hchildren : cell.children = cs.map top := congrArg Joint.children hjoint
    obtain ⟨net₁, net₂, default₁, hwalk, holder, hstand, hcell₁, h₂, hdrawn, hwithin⟩ :=
      walk_below (fun u _ => walks u) h hfresh hrounds
    simp only [Net.firstWalkTraced, Checked.bind_eq_ok_iff, Checked.get_eq_ok_iff, Checked.pure_eq] at hrun
    obtain ⟨v, hv, ⟨net₃, below⟩, hfold, older, holder', net₄, hstand', ⟨net₅, own⟩, hjoin, hrun⟩ := hrun
    obtain ⟨rfl, rfl⟩ := Prod.mk.inj (Except.ok.inj hrun)
    obtain rfl := Option.some.inj (hcell.symm.trans hv)
    rw [hchildren] at hfold
    -- the plain walk comes to the same cells
    have hplain := congrArg (Prod.fst <$> ·) hfold
    simp only [Net.foldlM_addTraced_fst (Net.firstWalkTraced_fst rounds), Checked.map_ok] at hplain
    obtain rfl := Except.ok.inj (hwalk.symm.trans hplain)
    obtain rfl := Except.ok.inj (holder.symm.trans holder')
    obtain rfl := Except.ok.inj (hstand.symm.trans hstand')
    -- the rims of the children, of the node, and of the row
    obtain ⟨hedged, hbelow⟩ := meet_children ih (.start hfresh hnodup) (.nil net) hsizes
      ⟨fun m hm => absurd hm List.not_mem_nil, fun us u hjoins => absurd hjoins (joins_nil us u)⟩ hfold
    have hnode : OnRims net₂ [.node x cs] := (OnRims.node hcell₁ rfl rfl hedged).of_links (Net.links_stand hstand)
    have hrow : OnRims net₂ ts := hrims.congr fun u hu y hy => hwithin.outside y (h.adjoins.not_mem_new hu hy)
    obtain ⟨hedged', hown⟩ := Net.joinTraced_eq h₂.adjoins h₂.row hdrawn hrow hnode h₂.cell h₂.head?_children h₂.assumed
      hjoin
    exact ⟨hedged', hbelow.append hown⟩

/-- **A run with its meetings** that goes through has laid out the cells of the tree, and its meetings are those of all
subtrees of the tree with their older siblings. -/
theorem Net.matched_of_breadthsTraced {below : ℕ → Option (List ℕ)} {t : Tree ℕ} (ht : Hangs below t)
    (hroot : t.value = 0) {count : ℕ} (hcount : t.size ≤ count) {breadth : List α} {meetings : List (Net.Meeting α)}
    (hrun : breadthsTraced below count = .ok (breadth, meetings)) :
    ∃ net s, build below count [(0, 0, 0)] ([Cell.fresh 0 none none 0] : Net α) = .ok net ∧ Fresh net 0 0 s ∧
      s.map (·.2) = t ∧ slots s = List.range' 1 t.size ∧ Matched meetings (Joins s.children) := by
  obtain ⟨net, s, hbuild, hsource, hslots, hlength, hfirst, hfresh⟩ := build_root (α := α) ht hcount
  rw [hroot] at hbuild
  refine ⟨net, s, hbuild, hfresh, hsource, hslots, ?_⟩
  simp only [breadthsTraced, hbuild, Checked.ok_bind, Checked.get_eq hfirst, Checked.bind_eq_ok_iff,
    Checked.get_eq_ok_iff, Checked.pure_eq] at hrun
  obtain ⟨root, htop, ⟨net₁, ms⟩, hwalk, r, -, net₂, -, b, -, hrun⟩ := hrun
  obtain rfl := (Prod.mk.inj (Except.ok.inj hrun)).2
  obtain rfl := Option.some.inj htop
  have hsize : s.size = t.size := by rw [← hsource, Tree.size, Tree.size, Tree.preorder_map, List.length_map]
  obtain ⟨-, hmatched⟩ := meets s net 0 0 [] {} _ net.length (.root hslots hfirst hfresh) hfresh (.nil net)
    (by omega) _ _ hwalk
  -- the root has no older siblings
  refine ⟨fun m hm => ?_, fun ts u hjoins => hmatched.complete ts u (.inl hjoins)⟩
  obtain ⟨ts, u, hjoins | ⟨rfl, -⟩, hof⟩ := hmatched.sound m hm
  · exact ⟨ts, u, hjoins, hof⟩
  · exact absurd hof.older (by simp)

end FlowTree.Tidy
