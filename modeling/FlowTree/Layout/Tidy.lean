import FlowTree.Tree
import FlowTree.Scalar

/-!
# Tidy trees

`Tidy.breadths` gives every node of an ordered tree a coordinate along the sibling axis, in units of
the least distance: siblings keep one unit, cousins two, a parent stands midway between its first
and its last child, and a subtree is drawn the same way wherever it hangs.

A subtree is drawn once (`Tidy.draw`) and then only moved as a whole.  `Slot.prelim` is the place of
its root before the moves of its ancestors, `Slot.modifier` what its descendants are moved by.

* **`Forest.add`** sets a subtree beside its older siblings.  The facing outlines of both are walked
  down level by level (`contact`), and wherever they are too close the subtree is pushed away.
* **`moveSubtree`** records such a push: the younger sibling moves at once, and the siblings in
  between are to move by equal steps.
* **`spread`** carries out these steps for all siblings in one sweep from the youngest to the
  oldest.
* **`widenEnd`** lets an outline that ends early go on into the deeper outline beside it.
-/

namespace FlowTree.Tidy

variable {α : Type} [Scalar α]

/-- The place of a node relative to its parent, and the shift of everything below it. -/
structure Slot (α : Type) where
  prelim : α
  modifier : α

/-- One side of a subtree or of a row of subtrees: the outermost node of each level below the
top. -/
abbrev Outline (α : Type) := List (Slot α)

/-- A node among its siblings, with the moves that are still to be carried out. -/
structure Sibling (α : Type) extends Slot α where
  /-- Added to the step from each sibling to the next older one. -/
  change : α
  /-- Moves the sibling and all older ones. -/
  shift : α
  below : List (Tree (Slot α))

/-- The least distance of siblings. -/
def siblingGap : α := Scalar.one

/-- The least distance of two nodes of one level with different parents. -/
def cousinGap : α := Scalar.two

/-! ### Moves among siblings -/

/-- The siblings after the one at `wide` is pushed by `shift` away from the one at `fixed`. -/
def moveSubtree (fixed wide : Nat) (shift : α) (siblings : List (Sibling α)) : List (Sibling α) :=
  let change := shift / (Scalar.ofNat wide - Scalar.ofNat fixed)
  (siblings.modify wide fun s =>
    { s with
      change := s.change - change
      shift := s.shift + shift
      prelim := s.prelim + shift
      modifier := s.modifier + shift }).modify fixed fun s =>
    { s with change := s.change + change }

/-- The siblings after all recorded steps, and the sums of shifts and changes that go on to the
older ones. -/
def spreadFrom : List (Sibling α) → List (Sibling α) × α × α
  | [] => ([], Scalar.zero, Scalar.zero)
  | s :: younger =>
    let (moved, shift, change) := spreadFrom younger
    let change := change + s.change
    ({ s with prelim := s.prelim + shift, modifier := s.modifier + shift } :: moved,
      shift + (s.shift + change), change)

/-- The siblings after all recorded steps. -/
def spread (siblings : List (Sibling α)) : List (Sibling α) := (spreadFrom siblings).1

/-! ### Outlines -/

/-- A subtree that has been drawn: its root, the trees below and both outlines below the root. -/
structure Drawn (α : Type) where
  slot : Slot α
  below : List (Tree (Slot α))
  left : Outline α
  right : Outline α

/-- A row of siblings that have been set beside each other.  The right outline tells for each node
the sibling below which it hangs. -/
structure Forest (α : Type) where
  siblings : List (Sibling α) := []
  left : Outline α := []
  right : List (Nat × Slot α) := []

/-- The sums of the modifiers along four outlines: the facing ones of the row and of the new
subtree, and the ones that face away. -/
structure Sums (α : Type) where
  rowInner : α
  newInner : α
  rowOuter : α
  newOuter : α

/-- What a walk down the facing outlines finds: the pushes, each with the sibling it starts from,
the sums at its end, and what is left of each outline. -/
structure Contact (α : Type) where
  pushes : List (Nat × α)
  sums : Sums α
  rowInner : List (Nat × Slot α)
  newInner : Outline α
  rowOuter : Outline α
  newOuter : Outline α

/-- Walks down the four outlines as far as all of them reach, pushing the new subtree away wherever
it comes too close. -/
def contact : List (Nat × Slot α) → Outline α → Outline α → Outline α → Sums α → Contact α
  | (owner, a) :: rowInner, b :: newInner, c :: rowOuter, d :: newOuter, sums =>
    let overlap := a.prelim + sums.rowInner - b.prelim - sums.newInner + cousinGap
    let isPush := Scalar.lt Scalar.zero overlap
    let pushed := if isPush then
        { sums with newInner := sums.newInner + overlap, newOuter := sums.newOuter + overlap }
      else sums
    let rest := contact rowInner newInner rowOuter newOuter
      { rowInner := pushed.rowInner + a.modifier
        newInner := pushed.newInner + b.modifier
        rowOuter := pushed.rowOuter + c.modifier
        newOuter := pushed.newOuter + d.modifier }
    if isPush then { rest with pushes := (owner, overlap) :: rest.pushes } else rest
  | rowInner, newInner, rowOuter, newOuter, sums =>
    { pushes := [], sums, rowInner, newInner, rowOuter, newOuter }

/-- Adds `gap` to the modifier of the last node of an outline that starts at `top`. -/
def widenEnd (gap : α) : Slot α → Outline α → Slot α × Outline α
  | top, [] => ({ top with modifier := top.modifier + gap }, [])
  | top, s :: below =>
    let (s, below) := widenEnd gap s below
    (top, s :: below)

/-- Which of the two facing outlines goes on when the other one has ended. -/
inductive Deeper (α : Type) where
  | row (rest : List (Nat × Slot α))
  | new (rest : Outline α)
  | neither

/-- The outline that goes on at the end of a walk, provided that the outer outline beside the ended
one has ended too. -/
def Contact.deeper (c : Contact α) : Deeper α :=
  match c.rowInner, c.newInner with
  | _ :: _, [] => if c.newOuter.isEmpty then .row c.rowInner else .neither
  | [], _ :: _ => if c.rowOuter.isEmpty then .new c.newInner else .neither
  | _, _ => .neither

namespace Forest

/-- The place of the youngest sibling. -/
def lastPrelim? (f : Forest α) : Option α := f.siblings.getLast?.map (·.prelim)

/-- The row with a slot put in place of the one at `index`. -/
def setSlot (index : Nat) (slot : Slot α) (siblings : List (Sibling α)) : List (Sibling α) :=
  siblings.modify index fun s => { s with toSlot := slot }

/-- The row with one more subtree set beside its youngest sibling. -/
def add (f : Forest α) (d : Drawn α) : Forest α :=
  let index := f.siblings.length
  let siblings := f.siblings ++
    [{ d.slot with change := Scalar.zero, shift := Scalar.zero, below := d.below }]
  let own := d.right.map fun s => (index, s)
  match f.siblings.head?, f.siblings.getLast? with
  | some oldest, some youngest =>
    let c := contact f.right d.left f.left d.right
      ⟨youngest.modifier, d.slot.modifier, oldest.modifier, d.slot.modifier⟩
    let siblings := c.pushes.foldl (fun row p => moveSubtree p.1 index p.2 row) siblings
    match c.deeper with
    | .row rest =>
      let top := (siblings[index]?.map (·.toSlot)).getD d.slot
      let (top, right) := widenEnd (c.sums.rowInner - c.sums.newOuter) top d.right
      { siblings := setSlot index top siblings
        left := f.left
        right := right.map (fun s => (index, s)) ++ rest }
    | .new rest =>
      let top := (siblings.head?.map (·.toSlot)).getD oldest.toSlot
      let (top, left) := widenEnd (c.sums.newInner - c.sums.rowOuter) top f.left
      { siblings := setSlot 0 top siblings
        left := left ++ rest
        right := own }
    | .neither => { siblings, left := f.left, right := own }
  | _, _ => { siblings, left := d.left, right := own }

/-- The subtree whose root stands above a row; `beside` is the place of the root's older sibling. -/
def crown (f : Forest α) (beside : Option α) : Drawn α :=
  let row := spread f.siblings
  let place := beside.map (· + siblingGap)
  match row.head?, row.getLast? with
  | some first, some last =>
    let middle := (first.prelim + last.prelim) / Scalar.two
    { slot := match place with
        | some p => ⟨p, p - middle⟩
        | none => ⟨middle, Scalar.zero⟩
      below := row.map fun s => .node s.toSlot s.below
      left := first.toSlot :: f.left
      right := last.toSlot :: f.right.map (·.2) }
  | _, _ => { slot := ⟨place.getD Scalar.zero, Scalar.zero⟩, below := [], left := [], right := [] }

end Forest

/-! ### Drawing a whole tree -/

/-- The drawing of a subtree, given the place of its older sibling. -/
def draw {β : Type} (t : Tree β) : Option α → Drawn α :=
  Tree.fold (γ := Option α → Drawn α)
    (fun _ cs beside =>
      (cs.foldl (fun (f : Forest α) c => f.add (c f.lastPrelim?)) {}).crown beside) t

/-- The coordinates of a drawn tree; `offset` is what the ancestors of its root move it by. -/
def settle (t : Tree (Slot α)) : α → Tree α :=
  Tree.fold (γ := α → Tree α)
    (fun s cs offset => .node (s.prelim + offset) (cs.map fun c => c (s.modifier + offset))) t

/-- The coordinate of every node along the sibling axis; the root stands at zero. -/
def breadths {β : Type} (t : Tree β) : Tree α :=
  let d := draw t none
  settle (.node d.slot d.below) (-d.slot.prelim)

end FlowTree.Tidy
