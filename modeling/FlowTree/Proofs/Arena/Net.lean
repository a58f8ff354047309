import FlowTree.Layout.Tidy
import FlowTree.Proofs.Arena.Checked

/-!
# Tidy trees in an array

A tidy tree can be drawn in one array of cells that refer to each other by their positions: to the parent, to the
children, to the next cell of an outline where a leaf stands beside a deeper subtree (its thread), and to the sibling
below which a cell of an outline hangs (its ancestor, or the default of the parent where this reference has not been
kept up).

* **`Cell`** is a cell; the first one of a **`Net`** stands above the root of the tree.
* **`Net.build`** lays the cells out, **`Net.firstWalk`** finds the place of every subtree beside its older siblings,
  and **`Net.secondWalk`** adds up the moves of the ancestors.
* **`Net.apportion`** walks down the facing outlines of a subtree and of its older siblings.
-/

namespace FlowTree.Tidy

variable {α : Type}

/-- What does not change about a cell once it has been laid out. -/
structure Joint where
  /-- The position of the node that the cell stands for. -/
  source : Option ℕ
  parent : Option ℕ
  children : List ℕ := []
  /-- The position among the siblings. -/
  number : ℕ

/-- A node of the tidy tree. -/
structure Cell (α : Type) extends Joint, Slot α where
  defaultAncestor : Option ℕ := none
  ancestor : ℕ
  change : α
  shift : α
  thread : Option ℕ := none

/-- The cells of a tidy tree. -/
abbrev Net (α : Type) := List (Cell α)

section Scalar

variable [Scalar α]

/-- A cell that has just been laid out. -/
def Cell.fresh (slot : ℕ) (source parent : Option ℕ) (number : ℕ) : Cell α where
  source := source
  parent := parent
  number := number
  prelim := Scalar.zero
  modifier := Scalar.zero
  ancestor := slot
  change := Scalar.zero
  shift := Scalar.zero

namespace Cell

/-- The younger one of two siblings after a push, which adds to the steps between them. -/
def pushed (change shift : α) (c : Cell α) : Cell α := { c with change := c.change - change, shift := c.shift + shift }

/-- The older one of two siblings after a push. -/
def braced (change : α) (c : Cell α) : Cell α := { c with change := c.change + change }

/-- The last cell of an outline that goes on in another subtree. -/
def threaded (next : ℕ) (gap : α) (c : Cell α) : Cell α :=
  { c with thread := some next, modifier := c.modifier + gap }

/-- The cell and all below it moved. -/
def movedBy (d : α) (c : Cell α) : Cell α := { c with prelim := c.prelim + d, modifier := c.modifier + d }

end Cell

end Scalar

/-- The cell with the sibling below which it hangs. -/
def Cell.claimed (v : ℕ) (c : Cell α) : Cell α := { c with ancestor := v }

/-- The cell with the child that is to be assumed for cells of the right outline. -/
def Cell.assuming (v : ℕ) (c : Cell α) : Cell α := { c with defaultAncestor := some v }

namespace Net

/-! ### Relatives -/

/-- The next cell of the left outline. -/
def nextLeft (net : Net α) (v : ℕ) : Option ℕ := net[v]?.bind fun c => c.children.head?.or c.thread

/-- The next cell of the right outline. -/
def nextRight (net : Net α) (v : ℕ) : Option ℕ := net[v]?.bind fun c => c.children.getLast?.or c.thread

/-- The next cell of the left outline of a cell that is there. -/
def stepLeft (net : Net α) (v : ℕ) : Checked (Option ℕ) := do
  let c ← Checked.get net v
  return c.children.head?.or c.thread

/-- The next cell of the right outline of a cell that is there. -/
def stepRight (net : Net α) (v : ℕ) : Checked (Option ℕ) := do
  let c ← Checked.get net v
  return c.children.getLast?.or c.thread

/-- The parent of a cell, the first cell if it has none. -/
def parentOf (net : Net α) (v : ℕ) : Checked ℕ := do
  let c ← Checked.get net v
  return c.parent.getD 0

/-- The sibling of `v` below which the cell `inner` of the facing outline hangs, the given one if the reference leads
elsewhere. -/
def nextAncestor (net : Net α) (inner v default : ℕ) : Checked ℕ := do
  let c ← Checked.get net inner
  let parent ← parentOf net c.ancestor
  let own ← parentOf net v
  return if parent == own then c.ancestor else default

variable [Scalar α]

/-- The least distance of two cells. -/
def separation (net : Net α) (v w : ℕ) : Checked α := do
  let a ← Checked.get net v
  let b ← Checked.get net w
  return if a.parent == b.parent then siblingGap else cousinGap

/-! ### Laying out -/

/-- Lays out the nodes on a stack and all below them; each comes with the cell of its parent and its number among its
siblings. -/
def build (below : ℕ → Option (List ℕ)) : (rounds : ℕ) → (stack : List (ℕ × ℕ × ℕ)) → Net α → Checked (Net α)
  | _, [], net => .ok net
  | 0, _ :: _, _ => .error .rounds
  | rounds + 1, (source, parent, number) :: stack, net => do
    let slot := net.length
    let net ← Checked.modify (net ++ [Cell.fresh slot (some source) (some parent) number]) parent fun c =>
      { c with children := c.children ++ [slot] }
    let children ← Checked.present .position (below source)
    build below rounds ((children.zipIdx.map fun x => (x.1, slot, x.2)) ++ stack) net

/-! ### Moves among siblings -/

/-- Pushes the cell `wide` by `shift` away from its older sibling `fixed`. -/
def moveSubtree (net : Net α) (fixed wide : ℕ) (shift : α) : Checked (Net α) := do
  let w ← Checked.get net wide
  let f ← Checked.get net fixed
  let change := shift / (Scalar.ofNat w.number - Scalar.ofNat f.number)
  let net ← Checked.modify net wide (Cell.pushed change shift)
  let net ← Checked.modify net fixed (Cell.braced change)
  Checked.modify net wide (Cell.movedBy shift)

/-- Carries out the moves that have been recorded at a child; the sums go on to its next older sibling. -/
def shiftChild (state : Net α × α × α) (w : ℕ) : Checked (Net α × α × α) := do
  let (net, shift, change) := state
  let child ← Checked.get net w
  let change := change + child.change
  let net ← Checked.modify net w (Cell.movedBy shift)
  return (net, shift + (child.shift + change), change)

/-- Carries out the moves that have been recorded at the children of `v`, from the youngest one to the oldest one. -/
def executeShifts (net : Net α) (v : ℕ) : Checked (Net α) := do
  let c ← Checked.get net v
  let (net, _, _) ← c.children.reverse.foldlM shiftChild (net, Scalar.zero, Scalar.zero)
  return net

/-! ### Outlines -/

/-- The cells that are reached on the four outlines: on the facing ones of the row and of the new subtree, and on
the ones that face away. -/
structure Feet where
  rowInner : ℕ
  newInner : ℕ
  rowOuter : ℕ
  newOuter : ℕ

/-- Where a walk down the outlines ends. -/
structure End (α : Type) where
  feet : Feet
  sums : Sums α
  /-- The next cells of the facing outlines. -/
  rowNext : Option ℕ
  newNext : Option ℕ

/-- Pushes `v` away if the facing cells overlap. -/
def keepApart (net : Net α) (v default : ℕ) (feet : Feet) (sums : Sums α) : Checked (Net α × Sums α) := do
  let a ← Checked.get net feet.rowInner
  let b ← Checked.get net feet.newInner
  let gap ← separation net feet.rowInner feet.newInner
  let overlap := a.prelim + sums.rowInner - b.prelim - sums.newInner + gap
  if Scalar.lt Scalar.zero overlap then do
    let fixed ← nextAncestor net feet.rowInner v default
    let pushed ← moveSubtree net fixed v overlap
    return (pushed, { sums with newInner := sums.newInner + overlap, newOuter := sums.newOuter + overlap })
  else return (net, sums)

/-- The sums of the modifiers below the cells that are reached. -/
def addModifiers (net : Net α) (feet : Feet) (sums : Sums α) : Checked (Sums α) := do
  let a ← Checked.get net feet.rowInner
  let b ← Checked.get net feet.newInner
  let c ← Checked.get net feet.rowOuter
  let d ← Checked.get net feet.newOuter
  return { rowInner := sums.rowInner + a.modifier
           newInner := sums.newInner + b.modifier
           rowOuter := sums.rowOuter + c.modifier
           newOuter := sums.newOuter + d.modifier }

/-- Goes down the outlines of `v` and of its older siblings as far as all of them reach, pushing `v` away wherever it
comes too close. -/
def descend (v default : ℕ) : (rounds : ℕ) → Feet → Sums α → Net α → Checked (Net α × End α)
  | 0, _, _, _ => .error .rounds
  | rounds + 1, feet, sums, net => do
    let rowNext ← stepRight net feet.rowInner
    let newNext ← stepLeft net feet.newInner
    match rowNext, newNext with
    | some rowInner, some newInner => do
      let rowBeyond ← stepLeft net feet.rowOuter
      let newBeyond ← stepRight net feet.newOuter
      match rowBeyond, newBeyond with
      | some rowOuter, some newOuter => do
        let feet : Feet := ⟨rowInner, newInner, rowOuter, newOuter⟩
        let net ← Checked.modify net newOuter (Cell.claimed v)
        let (net, sums) ← keepApart net v default feet sums
        let sums ← addModifiers net feet sums
        descend v default rounds feet sums net
      | _, _ => return (net, ⟨{ feet with rowInner := rowInner, newInner := newInner }, sums, none, none⟩)
    | _, _ => return (net, ⟨feet, sums, rowNext, newNext⟩)

/-- Lets the outline that ends at `v` go on at `next`; the sums of the modifiers differ by `gap` there. -/
def thread (net : Net α) (v next : ℕ) (gap : α) : Checked (Net α) :=
  Checked.modify net v (Cell.threaded next gap)

/-- Lets the outline that has ended go on in the deeper one beside it; the ancestor to be assumed from now on. -/
def goOn (v default : ℕ) (net : Net α) (stop : End α) : Checked (Net α × ℕ) := do
  let newRest ← stepRight net stop.feet.newOuter
  let net ← match stop.rowNext, newRest with
    | some next, none => thread net stop.feet.newOuter next (stop.sums.rowInner - stop.sums.newOuter)
    | _, _ => pure net
  let rowRest ← stepLeft net stop.feet.rowOuter
  match stop.newNext, rowRest with
  | some next, none => do
    let net ← thread net stop.feet.rowOuter next (stop.sums.newInner - stop.sums.rowOuter)
    return (net, v)
  | _, _ => return (net, default)

/-- Sets `v` apart from its older siblings, the youngest of which is `older`. -/
def apportion (net : Net α) (v : ℕ) (older : Option ℕ) (default : ℕ) : Checked (Net α × ℕ) :=
  match older with
  | none => return (net, default)
  | some w => do
    let parent ← parentOf net v
    let p ← Checked.get net parent
    let oldest ← Checked.get p.children 0
    let own ← Checked.get net v
    let a ← Checked.get net w
    let c ← Checked.get net oldest
    let (net, stop) ← descend v default net.length ⟨w, v, oldest, v⟩
      ⟨a.modifier, own.modifier, c.modifier, own.modifier⟩ net
    goOn v default net stop

/-! ### Walks -/

/-- Puts `v` beside its next older sibling, if there is one, and above the middle of its children. -/
def stand (net : Net α) (v : ℕ) (older : Option ℕ) : Checked (Net α) := do
  let c ← Checked.get net v
  match c.children.head?, c.children.getLast? with
  | some first, some last => do
    let net ← executeShifts net v
    let a ← Checked.get net first
    let b ← Checked.get net last
    let middle := (a.prelim + b.prelim) / Scalar.two
    match older with
    | some w => do
      let s ← Checked.get net w
      let gap ← separation net v w
      Checked.modify net v fun c => { c with prelim := s.prelim + gap, modifier := s.prelim + gap - middle }
    | none => Checked.modify net v fun c => { c with prelim := middle }
  | _, _ =>
    match older with
    | some w => do
      let s ← Checked.get net w
      let gap ← separation net v w
      Checked.modify net v fun c => { c with prelim := s.prelim + gap }
    | none => return net

/-- The next older sibling of `v`. -/
def olderOf (net : Net α) (v : ℕ) : Checked (Option ℕ) := do
  let c ← Checked.get net v
  if 0 < c.number then do
    let parent ← parentOf net v
    let p ← Checked.get net parent
    let before ← Checked.minus c.number 1
    let w ← Checked.get p.children before
    return some w
  else return none

/-- Sets the subtree of `v` beside those of its older siblings. -/
def join (net : Net α) (v : ℕ) (older : Option ℕ) : Checked (Net α) := do
  let parent ← parentOf net v
  let p ← Checked.get net parent
  let oldest ← Checked.get p.children 0
  let (net, next) ← apportion net v older (p.defaultAncestor.getD oldest)
  Checked.modify net parent (Cell.assuming next)

/-- Draws the subtrees below `v` and sets them beside each other, then `v` itself beside its older siblings. -/
def firstWalk : (rounds : ℕ) → (v : ℕ) → Net α → Checked (Net α)
  | 0, _, _ => .error .rounds
  | rounds + 1, v, net => do
    let c ← Checked.get net v
    let net ← c.children.foldlM (fun net child => firstWalk rounds child net) net
    let older ← olderOf net v
    let net ← stand net v older
    join net v older

/-- Writes down the coordinates of `v` and all below it, and hands the moves on. -/
def secondWalk : (rounds : ℕ) → (v : ℕ) → Net α × List α → Checked (Net α × List α)
  | 0, _, _ => .error .rounds
  | rounds + 1, v, (net, breadth) => do
    let parent ← parentOf net v
    let p ← Checked.get net parent
    let c ← Checked.get net v
    let breadth ← match c.source with
      | some i => Checked.modify breadth i fun _ => c.prelim + p.modifier
      | none => pure breadth
    let net ← Checked.modify net v fun c => { c with modifier := c.modifier + p.modifier }
    c.children.foldlM (fun state child => secondWalk rounds child state) (net, breadth)

/-- The coordinates of the nodes below position `0`, which are among `count` nodes; zero for the other nodes. -/
def breadths (below : ℕ → Option (List ℕ)) (count : ℕ) : Checked (List α) := do
  let net : Net α ← build below count [(0, 0, 0)] [Cell.fresh 0 none none 0]
  let top ← Checked.get net 0
  let root ← Checked.get top.children 0
  let net ← firstWalk net.length root net
  let r ← Checked.get net root
  let net ← Checked.modify net 0 fun c => { c with modifier := -r.prelim }
  let (_, breadth) ← secondWalk net.length root (net, List.replicate count Scalar.zero)
  return breadth

end Net

end FlowTree.Tidy
