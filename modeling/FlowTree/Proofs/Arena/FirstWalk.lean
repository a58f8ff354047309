import FlowTree.Proofs.Arena.Coordinates
import FlowTree.Proofs.Arena.Meetings

/-!
# The first walk over a hierarchy

* **`Hierarchy.LaidOut`** says which cells are laid out for the nodes of a hierarchy on show,
  **`Hierarchy.exists_meetings`** that the run with its meetings goes through, and which meetings there are.
* **`Hierarchy.outlines_walked_level_by_level`** says where the walks down the outlines look.
* **`Hierarchy.pushes_start_from_older_siblings`** says whom the pushes move away from whom.
-/

namespace FlowTree.Hierarchy

variable {α : Type} [Scalar α]

/-- The tree of the cells that are laid out for the nodes on show, one after the other and depth first. -/
structure LaidOut (h : Hierarchy α) (s : Tidy.Wires) : Prop where
  built : ∃ net : Tidy.Net α, Tidy.Net.build h.arena.below h.arena.length [(0, 0, 0)]
    [Tidy.Cell.fresh 0 none none 0] = .ok net ∧ Tidy.Fresh net 0 0 s
  positions : s.map (·.2) = h.onShow
  slots : Tidy.slots s = List.range' 1 h.onShow.size

/-- Different siblings have no cells in common. -/
theorem LaidOut.nodup {h : Hierarchy α} {s : Tidy.Wires} (hs : h.LaidOut s) {path : List ℕ} {x : ℕ × ℕ}
    {cs : List Tidy.Wires} (hat : s.at? path = some (.node x cs)) : (cs.flatMap Tidy.slots).Nodup := by
  have hbelow : ∀ {t u : Tidy.Wires} {path : List ℕ}, (Tidy.slots t).Nodup → t.at? path = some u →
      (Tidy.slots u).Nodup := by
    intro t u path ht hat
    induction path generalizing t with
    | nil => exact Option.some.inj hat ▸ ht
    | cons i path ih =>
      obtain ⟨y, ds⟩ := t
      obtain ⟨c, hc, hat⟩ := Tree.at?_cons_eq_some_iff.mp hat
      rw [Tidy.slots_node, List.nodup_cons] at ht
      exact ih ((List.nodup_flatMap.mp ht.2).1 c (List.mem_of_getElem? hc)) hat
  have hnodup := hbelow (hs.slots ▸ List.nodup_range') hat
  rw [Tidy.slots_node, List.nodup_cons] at hnodup
  exact hnodup.2

/-- **The run with its meetings** goes through: it finds the coordinates, and its meetings are those of all nodes on
show with their older siblings. -/
theorem exists_meetings (h : Hierarchy α) :
    ∃ (breadth : List α) (meetings : List (Tidy.Net.Meeting α)) (s : Tidy.Wires), h.Coordinates breadth ∧
      Tidy.Net.breadthsTraced h.arena.below h.arena.length = .ok (breadth, meetings) ∧ h.LaidOut s ∧
        Tidy.Net.Matched meetings fun ts t => ∃ path x rest, s.at? path = some (.node x (ts ++ t :: rest)) := by
  obtain ⟨breadth, hbreadth⟩ := h.exists_coordinates
  obtain ⟨meetings, htraced⟩ := Checked.map_fst_eq_ok_iff.mp ((Tidy.Net.breadthsTraced_fst _ _).trans hbreadth.run)
  obtain ⟨net, s, hbuild, hfresh, hsource, hslots, hmatched⟩ := Tidy.Net.matched_of_breadthsTraced
    (hangs_locatedAt (h := h) rfl) h.value_onShow h.size_onShow_le htraced
  refine ⟨breadth, meetings, s, hbreadth, htraced, ⟨⟨net, hbuild, hfresh⟩, hsource, hslots⟩, hmatched.congr ?_⟩
  obtain ⟨x, cs⟩ := s
  exact fun ts t => Tidy.joins_children_iff.symm

/-- **The outlines are walked down level by level.**  Wherever a node is set beside its older siblings, every look of
the walk finds the outermost cells of one level on both sides, and the next cell on each of the four outlines, over a
child or a thread, is the outermost one of the level below.  There are as many looks as both sides have levels in
common, and no walk is broken off because an outer outline ends before the inner one. -/
theorem outlines_walked_level_by_level (h : Hierarchy α) :
    ∃ (breadth : List α) (meetings : List (Tidy.Net.Meeting α)) (s : Tidy.Wires), h.Coordinates breadth ∧
      Tidy.Net.breadthsTraced h.arena.below h.arena.length = .ok (breadth, meetings) ∧ h.LaidOut s ∧
        (∀ path x ts t rest, s.at? path = some (.node x (ts ++ t :: rest)) → ts ≠ [] →
          ∃ m ∈ meetings, m.new = Tidy.top t) ∧
        ∀ m ∈ meetings, ∃ path x ts t rest, s.at? path = some (.node x (ts ++ t :: rest)) ∧
          m.new = Tidy.top t ∧ ts.getLast?.map Tidy.top = some m.older ∧
            (∀ (k : ℕ) (look : Tidy.Net.Look α), m.looks[k]? = some look → look.On ts t k) ∧
              m.looks.length = min (Tidy.depth ts) (Tidy.depth [t]) ∧ m.broken = false := by
  obtain ⟨breadth, meetings, s, hbreadth, htraced, hs, hmatched⟩ := h.exists_meetings
  refine ⟨breadth, meetings, s, hbreadth, htraced, hs, fun path x ts t rest hat hne => ?_, fun m hm => ?_⟩
  · obtain ⟨m, hm, hof⟩ := hmatched.complete ts t ⟨path, x, rest, hat⟩ hne
    exact ⟨m, hm, hof.new⟩
  · obtain ⟨ts, t, ⟨path, x, rest, hat⟩, hof⟩ := hmatched.sound m hm
    refine ⟨path, x, ts, t, rest, hat, hof.new, hof.older, fun k look hlook => ?_, ?_, hof.down.unbroken⟩
    · rw [← Nat.zero_add k]
      exact hof.down.looks k look hlook
    · rw [← hof.down.length, Nat.zero_add]

/-- **Every push starts from an older sibling.**  Wherever a node is pushed away while it is set beside its older
siblings, the one that is found for the facing cell is the only sibling whose subtree holds this cell, and it is older
than the node, so that there is at least one step between the two. -/
theorem pushes_start_from_older_siblings (h : Hierarchy α) :
    ∃ (breadth : List α) (meetings : List (Tidy.Net.Meeting α)) (s : Tidy.Wires), h.Coordinates breadth ∧
      Tidy.Net.breadthsTraced h.arena.below h.arena.length = .ok (breadth, meetings) ∧ h.LaidOut s ∧
        ∀ m ∈ meetings, ∀ push ∈ m.pushes, ∃ path x ts t rest,
          s.at? path = some (.node x (ts ++ t :: rest)) ∧ push.wide = Tidy.top t ∧
            ∃ k u, ts[k]? = some u ∧
              push.cells.nextAncestor push.inner push.wide push.default = .ok push.fixed ∧
              push.fixed = Tidy.top u ∧
              (∀ j w, (ts ++ t :: rest)[j]? = some w → (push.inner ∈ Tidy.slots w ↔ j = k)) ∧
              ∃ f w, push.cells[push.fixed]? = some f ∧ push.cells[push.wide]? = some w ∧
                f.number = k ∧ w.number = ts.length ∧ f.number < w.number ∧
                (0 : ℚ) < Scalar.ofNat w.number - Scalar.ofNat f.number := by
  obtain ⟨breadth, meetings, s, hbreadth, htraced, hs, hmatched⟩ := h.exists_meetings
  refine ⟨breadth, meetings, s, hbreadth, htraced, hs, fun m hm push hpush => ?_⟩
  obtain ⟨ts, t, ⟨path, x, rest, hat⟩, hof⟩ := hmatched.sound m hm
  have hfrom := hof.down.pushes push hpush
  obtain ⟨k, u, f, w, hu, hfixed, hin, hf, hfnumber, hw, hwnumber⟩ := hfrom.sibling
  have hk := (List.getElem?_eq_some_iff.mp hu).1
  have hall : (ts ++ t :: rest)[k]? = some u := by rw [List.getElem?_append_left hk, hu]
  have hlt : f.number < w.number := by rw [hfnumber, hwnumber]; exact hk
  refine ⟨path, x, ts, t, rest, hat, hfrom.wide, k, u, hu, hfrom.found, hfixed, fun j v hv => ⟨fun hin' => ?_, ?_⟩,
    f, w, hf, hw, hfnumber, hwnumber, hlt, ?_⟩
  · exact Tidy.index_eq_of_mem_slots (hs.nodup hat) hv hall hin' hin
  · rintro rfl
    obtain rfl := Option.some.inj (hv.symm.trans hall)
    exact hin
  · rw [Scalar.ofNat_rat, Scalar.ofNat_rat, sub_pos]
    exact_mod_cast hlt

end FlowTree.Hierarchy
