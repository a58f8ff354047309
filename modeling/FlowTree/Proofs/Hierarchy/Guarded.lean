import FlowTree.Proofs.Hierarchy.Ends
import FlowTree.Proofs.Tidy.Guarded

/-!
# Placing without divisions by zero

A tidy tree is divided by its extent and by the number of its levels, and neither is zero.  So placing a hierarchy in
guarded numbers is placing it in exact ones.

* **`Canvas.guarded`** and **`Hierarchy.guarded`** are a canvas and a hierarchy in guarded numbers.
* **`Placement.points_guarded`** says so of the places, **`Hierarchy.layout_guarded`** of the placed hierarchy.
-/

namespace FlowTree

open Guarded

/-! ### Guarded numbers everywhere -/

/-- The point in guarded numbers. -/
def Point.guarded (p : Point ℚ) : Point Guarded := ⟨number p.x, number p.y⟩

/-- The margin in guarded numbers. -/
def Margin.guarded (m : Margin ℚ) : Margin Guarded := ⟨number m.top, number m.right, number m.bottom, number m.left⟩

/-- The canvas in guarded numbers. -/
def Canvas.guarded (c : Canvas ℚ) : Canvas Guarded :=
  ⟨number c.width, number c.height, number c.treeWidth, number c.treeHeight, c.margin.guarded⟩

/-- The attributes in guarded numbers. -/
def Attributes.guarded (a : Attributes ℚ) : Attributes Guarded :=
  ⟨a.entries.map fun e => (e.1, e.2.map (Option.map number))⟩

/-- The information about a node in guarded numbers. -/
def NodeInfo.guarded (i : NodeInfo ℚ) : NodeInfo Guarded :=
  ⟨i.label, i.edgeLabel, i.kind, i.nodeData.guarded, i.edgeData.guarded⟩

/-- The node in guarded numbers. -/
def Node.guarded (n : Node ℚ) : Node Guarded :=
  ⟨n.id, n.info.guarded, n.visible, n.start.guarded, n.finish.guarded, n.folded⟩

/-- The hierarchy in guarded numbers. -/
def Hierarchy.guarded (h : Hierarchy ℚ) : Hierarchy Guarded := ⟨h.tree.map Node.guarded, h.listing⟩

/-! ### Places -/

namespace Placement

/-- The stretch in guarded numbers. -/
def guarded (p : Placement ℚ) : Placement Guarded := ⟨number p.shift, number p.unit, number p.width, number p.levels⟩

/-- The mark in guarded numbers. -/
def guardedMark (m : Mark ℚ) : Mark Guarded := (m.1, number m.2)

theorem located_guarded (t : Tree ℚ) : (t.map number).located = t.located.map guardedMark :=
  Tree.locatedAt_map number [] t

theorem extreme_guarded {before : ℚ → ℚ → Bool} {before' : Guarded → Guarded → Bool}
    (hbefore : ∀ a b, before' (number a) (number b) = before a b) (first : Mark ℚ) (marks : List (Mark ℚ)) :
    extreme before' (guardedMark first) (marks.map guardedMark) = guardedMark (extreme before first marks) := by
  induction marks generalizing first with
  | nil => rfl
  | cons m marks ih =>
    have hstep : (if before' (guardedMark m).2 (guardedMark first).2 then guardedMark m else guardedMark first) =
        guardedMark (if before m.2 first.2 then m else first) := by
      rw [apply_ite guardedMark, guardedMark, guardedMark, hbefore]
    rw [extreme, List.map_cons, List.foldl_cons, hstep]
    exact ih _

theorem leftmost_guarded (t : Tree ℚ) : leftmost (t.map number) = guardedMark (leftmost t) := by
  rw [leftmost, located_guarded, Tree.breadthFirst_map, Tree.value_map]
  exact extreme_guarded lt_number ([], t.value) _

theorem rightmost_guarded (t : Tree ℚ) : rightmost (t.map number) = guardedMark (rightmost t) := by
  rw [rightmost, located_guarded, Tree.breadthFirst_map, Tree.value_map]
  exact extreme_guarded (fun a b => lt_number b a) ([], t.value) _

theorem clearance_guarded (left right : Mark ℚ) :
    clearance (guardedMark left) (guardedMark right) = number (clearance left right) := by
  have hsibling : (Tidy.siblingGap / Scalar.two : Guarded) = number (Tidy.siblingGap / Scalar.two) := number_half _
  have hcousin : (Tidy.cousinGap / Scalar.two : Guarded) = number (Tidy.cousinGap / Scalar.two) := number_half _
  rw [clearance, clearance, hsibling, hcousin, one_number, apply_ite number, apply_ite number]
  rfl

theorem clear_guarded (t : Tree ℚ) : clear (t.map number) = number (clear t) := by
  rw [clear, leftmost_guarded, rightmost_guarded, clearance_guarded]
  rfl

theorem span_guarded (t : Tree ℚ) : span (t.map number) = number (span t) := by
  rw [span, leftmost_guarded, rightmost_guarded, clear_guarded]
  rfl

/-- The stretch divides by the extent of the tree. -/
theorem of_guarded (canvas : Canvas ℚ) (t : Tree ℚ) : of canvas.guarded (t.map number) = (of canvas t).guarded := by
  have hunit : number canvas.treeHeight / number (span t) = number (canvas.treeHeight / span t) :=
    number_div _ (span_pos t).ne'
  have hheight : (t.map number).height = t.height := by
    rw [Tree.height, Tree.levels_map, List.length_map, Tree.height]
  rw [of_eq, of_eq, leftmost_guarded, clear_guarded, span_guarded, hheight]
  exact congrArg (fun unit => Placement.mk _ unit _ _) hunit

/-- **The places are found without a division by zero.** -/
theorem points_guarded (canvas : Canvas ℚ) (t : Tree ℚ) :
    points canvas.guarded (t.map number) = (points canvas t).map Point.guarded := by
  have hlevels : ((t.height + 1 : ℕ) : ℚ) ≠ 0 := by positivity
  have hpoint : ∀ m : Mark ℚ, (of canvas t).guarded.point (guardedMark m) = ((of canvas t).point m).guarded := by
    intro m
    have hx : number ((m.1.length : ℚ) * canvas.treeWidth) / number ((t.height + 1 : ℕ) : ℚ) =
        number ((m.1.length : ℚ) * canvas.treeWidth / ((t.height + 1 : ℕ) : ℚ)) := number_div _ hlevels
    exact congrArg (fun x => Point.mk x _) hx
  rw [points, points, of_guarded, located_guarded, Tree.map_map, Tree.map_map]
  exact Tree.map_congr fun m _ => hpoint m

end Placement

/-! ### Placed hierarchies -/

namespace Hierarchy

theorem shown_guarded (h : Hierarchy ℚ) : h.guarded.shown = h.shown.map Node.guarded :=
  (Tree.map_cut Node.guarded (·.folded) h.tree).symm

mutual

theorem moveTo_guarded : ∀ (t : Tree (Node ℚ)) (ps : Tree (Point ℚ)),
    moveTo (t.map Node.guarded) (ps.map Point.guarded) = (moveTo t ps).map Node.guarded
  | .node n cs, .node p ps => by
    rw [Tree.map_node, Tree.map_node, moveTo, moveTo, Tree.map_node, moveAllTo_guarded cs ps]
    rfl

theorem moveAllTo_guarded : ∀ (cs : List (Tree (Node ℚ))) (ps : List (Tree (Point ℚ))),
    moveAllTo (cs.map (Tree.map Node.guarded)) (ps.map (Tree.map Point.guarded)) =
      (moveAllTo cs ps).map (Tree.map Node.guarded)
  | [], [] => rfl
  | [], _ :: _ => rfl
  | _ :: _, [] => rfl
  | c :: cs, p :: ps => by
    rw [List.map_cons, List.map_cons, moveAllTo, moveAllTo, List.map_cons, moveTo_guarded c p,
      moveAllTo_guarded cs ps]

end

/-- **Placing never divides by zero.** -/
theorem layout_guarded (h : Hierarchy ℚ) (canvas : Canvas ℚ) :
    h.guarded.layout canvas.guarded = (h.layout canvas).guarded := by
  have hbreadths : (Tidy.breadths h.guarded.shown : Tree Guarded) = (Tidy.breadths h.shown : Tree ℚ).map number := by
    rw [← Tidy.breadths_guarded, shown_guarded]
    exact Tidy.breadths_congr (Tidy.shape_map _ _)
  rw [layout, hbreadths, Placement.points_guarded]
  exact congrArg (Hierarchy.mk · h.listing) (moveTo_guarded h.tree _)

end Hierarchy

end FlowTree
