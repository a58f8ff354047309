import FlowTree.Visual

/-!
# Directives

A pass tells what to do with each element: let it appear, change it, or let it go.

* **`ElementKey`** names an element by its kind and the id of its node.  Keys are ordered by kind,
  edges before labels before nodes, and then by id, which is the order of drawing.
-/

namespace FlowTree

/-- The kinds of elements in the order of drawing. -/
inductive ElementKind where
  | edge
  | edgeLabel
  | node
  deriving DecidableEq, Repr

/-- The place of a kind in the order of drawing. -/
def ElementKind.rank : ElementKind → Nat
  | edge => 0
  | edgeLabel => 1
  | node => 2

/-- The name of an element. -/
structure ElementKey where
  kind : ElementKind
  id : String
  deriving DecidableEq, Repr

/-- One key comes before another one in the order of drawing. -/
def ElementKey.before (a b : ElementKey) : Bool :=
  a.kind.rank < b.kind.rank || (a.kind.rank == b.kind.rank && a.id < b.id)

/-- What to do with one element within a time in milliseconds. -/
inductive Directive (α : Type) where
  | create (key : ElementKey) (source goal : Visual α) (duration : Nat)
  | update (key : ElementKey) (goal : Visual α) (duration : Nat)
  | remove (key : ElementKey) (toward : Point α) (duration : Nat)

/-- The directives of one change of a diagram, in order. -/
abbrev Pass (α : Type) := List (Directive α)

namespace Directive

variable {α : Type}

/-- The element that the directive is about. -/
def key : Directive α → ElementKey
  | create key .. => key
  | update key .. => key
  | remove key .. => key

/-- The element is to appear. -/
def isCreate : Directive α → Bool
  | create .. => true
  | _ => false

/-- The element is to change. -/
def isUpdate : Directive α → Bool
  | update .. => true
  | _ => false

/-- The element is to go. -/
def isRemove : Directive α → Bool
  | remove .. => true
  | _ => false

end Directive

namespace Pass

variable {α : Type}

/-- The directives about elements of one kind. -/
def ofKind (p : Pass α) (kind : ElementKind) : Pass α := p.filter (·.key.kind == kind)

/-- The first directive about an element. -/
def find? (p : Pass α) (key : ElementKey) : Option (Directive α) :=
  List.find? (·.key == key) p

end Pass

end FlowTree
