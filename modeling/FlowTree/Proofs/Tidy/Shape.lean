import FlowTree.Layout.Tidy
import FlowTree.Proofs.Walks

/-!
# The shape of a tidy tree

Drawing a tree only finds places for its nodes.  Whatever the numbers are and however they are rounded,
pushes, steps and outlines go on changing slots, never what hangs below them.

* **`Tidy.shape`** is a tree without its values.
* **`Tidy.below_add`** says that a row keeps what hangs below its siblings; **`Tidy.shapes_add`** and
  **`Tidy.shapes_crown`** say what becomes of the shapes.
* **`Tidy.shape_breadths`** says that the tidy tree has the shape of the tree,
  **`Tidy.breadths_congr`** that it depends on nothing else.
-/

namespace FlowTree.Tidy

variable {γ δ : Type}

/-- A tree without its values. -/
def shape (t : Tree γ) : Tree Unit := t.map fun _ => ()

theorem shape_node (v : γ) (cs : List (Tree γ)) :
    shape (.node v cs) = .node () (cs.map shape) := by
  rw [shape, Tree.map_node]
  rfl

theorem shape_map (f : γ → δ) (t : Tree γ) : shape (t.map f) = shape t := by
  rw [shape, Tree.map_map]
  rfl

theorem height_shape (t : Tree γ) : (shape t).height = t.height := by
  rw [Tree.height, shape, Tree.levels_map, List.length_map, Tree.height]

variable {α : Type}

/-! ### Rows of siblings -/

/-- The shape of a sibling with all below it. -/
def Sibling.whole (s : Sibling α) : Tree Unit := .node () (s.below.map shape)

/-- A change of one value is not seen by what does not read it. -/
theorem map_modify_of_keeps {f : γ → γ} {g : γ → δ} (hf : ∀ x, g (f x) = g x) (l : List γ) (i : Nat) :
    (l.modify i f).map g = l.map g := by
  induction l generalizing i with
  | nil => simp
  | cons x l ih =>
    cases i with
    | zero => rw [List.modify_zero_cons, List.map_cons, List.map_cons, hf]
    | succ i => rw [List.modify_succ_cons, List.map_cons, List.map_cons, ih]

theorem below_setSlot (index : Nat) (slot : Slot α) (row : List (Sibling α)) :
    (Forest.setSlot index slot row).map (·.below) = row.map (·.below) := by
  rw [Forest.setSlot, map_modify_of_keeps]
  exact fun _ => rfl

theorem map_whole (row : List (Sibling α)) :
    row.map Sibling.whole = (row.map (·.below)).map fun below => .node () (below.map shape) := by
  rw [List.map_map]
  rfl

variable [Scalar α]

@[simp] theorem length_widenEnd (gap : α) (top : Slot α) (o : Outline α) :
    (widenEnd gap top o).2.length = o.length := by
  induction o generalizing top with
  | nil => rfl
  | cons s o ih => rw [widenEnd, List.length_cons, ih, List.length_cons]

theorem below_moveSubtree (fixed wide : Nat) (d : α) (row : List (Sibling α)) :
    (moveSubtree fixed wide d row).map (·.below) = row.map (·.below) := by
  rw [moveSubtree, map_modify_of_keeps, map_modify_of_keeps]
  · exact fun _ => rfl
  · exact fun _ => rfl

theorem below_pushes (pushes : List (Nat × α)) (index : Nat) (row : List (Sibling α)) :
    (pushes.foldl (fun row p => moveSubtree p.1 index p.2 row) row).map (·.below) = row.map (·.below) := by
  induction pushes generalizing row with
  | nil => rfl
  | cons p pushes ih => rw [List.foldl_cons, ih, below_moveSubtree]

theorem below_spread (row : List (Sibling α)) : (spread row).map (·.below) = row.map (·.below) := by
  induction row with
  | nil => rfl
  | cons s row ih => exact congrArg (s.below :: ·) ih

/-- The row keeps what hangs below its siblings and gets one more. -/
theorem below_add (f : Forest α) (d : Drawn α) :
    (f.add d).siblings.map (·.below) = f.siblings.map (·.below) ++ [d.below] := by
  rw [Forest.add]
  simp only
  split
  · split
    · rw [below_setSlot, below_pushes, List.map_append]
      rfl
    · rw [below_setSlot, below_pushes, List.map_append]
      rfl
    · rw [below_pushes, List.map_append]
      rfl
  · rw [List.map_append]
    rfl

/-- The row keeps its shapes and gets one more. -/
theorem shapes_add (f : Forest α) (d : Drawn α) :
    (f.add d).siblings.map Sibling.whole =
      f.siblings.map Sibling.whole ++ [.node () (d.below.map shape)] := by
  rw [map_whole, map_whole, below_add, List.map_append, List.map_singleton]

theorem shapes_crown (f : Forest α) (beside : Option α) :
    (f.crown beside).below.map shape = f.siblings.map Sibling.whole := by
  rw [map_whole, ← below_spread, ← map_whole]
  cases hrow : spread f.siblings with
  | nil => simp [Forest.crown, hrow]
  | cons s row =>
    have hlast : (s :: row).getLast? = some ((s :: row).getLast (by simp)) :=
      List.getLast?_eq_some_getLast _
    rw [Forest.crown, hrow]
    simp only [List.head?_cons, hlast, List.map_map]
    exact List.map_congr_left fun s _ => shape_node s.toSlot s.below

/-! ### The whole tree -/

theorem draw_node (v : γ) (cs : List (Tree γ)) (beside : Option α) :
    draw (.node v cs) beside =
      (cs.foldl (fun (f : Forest α) c => f.add (draw c f.lastPrelim?)) {}).crown beside := by
  rw [draw, Tree.fold_node, List.foldl_map]
  rfl

theorem settle_node (s : Slot α) (cs : List (Tree (Slot α))) (o : α) :
    settle (.node s cs) o = .node (s.prelim + o) (cs.map fun c => settle c (s.modifier + o)) := by
  rw [settle, Tree.fold_node, List.map_map]
  rfl

/-- Below the root of a drawing hangs what hangs below the root of the tree. -/
theorem shape_draw (t : Tree γ) (beside : Option α) :
    .node () ((draw t beside).below.map shape) = shape t := by
  induction t generalizing beside with
  | node v cs ih =>
    have hrow : ∀ f : Forest α,
        (cs.foldl (fun (f : Forest α) c => f.add (draw c f.lastPrelim?)) f).siblings.map
          Sibling.whole = f.siblings.map Sibling.whole ++ cs.map shape := by
      clear v
      induction cs with
      | nil => exact fun f => (List.append_nil _).symm
      | cons c cs ihcs =>
        intro f
        rw [List.foldl_cons, ihcs fun c' hc' => ih c' (List.mem_cons_of_mem c hc'), shapes_add,
          ih c List.mem_cons_self, List.append_assoc]
        rfl
    rw [draw_node, shapes_crown, hrow, shape_node]
    rfl

theorem shape_settle (t : Tree (Slot α)) (o : α) : shape (settle t o) = shape t := by
  induction t generalizing o with
  | node s cs ih =>
    rw [settle_node, shape_node, shape_node, List.map_map]
    congr 1
    exact List.map_congr_left fun c hc => ih c hc _

/-- **The tidy tree has the shape of the tree.** -/
theorem shape_breadths (t : Tree γ) : shape (breadths (α := α) t) = shape t := by
  rw [breadths, shape_settle, shape_node, shape_draw]

theorem draw_shape (t : Tree γ) : (draw (shape t) : Option α → Drawn α) = draw t := by
  rw [draw, shape, Tree.fold_map]
  rfl

/-- The tidy tree depends on the shape only. -/
theorem breadths_congr {t : Tree γ} {s : Tree δ} (h : shape t = shape s) :
    (breadths t : Tree α) = breadths s := by
  rw [breadths, breadths, ← draw_shape t, h, draw_shape]

end FlowTree.Tidy
