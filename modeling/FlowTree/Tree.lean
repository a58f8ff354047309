/-!
# Ordered trees

An ordered tree with a value at every node, and the few ways the library walks it.

* **`Tree.fold`** computes bottom up; every other walk is an instance of it.
* **`Tree.preorder`** lists the values depth first, **`Tree.breadthFirst`** level by level.
* **`Tree.cut`** drops what hangs below the chosen nodes.
* **`Tree.located`** adds to each value its path from the root.
-/

namespace FlowTree

/-- An ordered tree with a value at every node. -/
inductive Tree (β : Type) where
  | node (value : β) (children : List (Tree β))

namespace Tree

variable {β γ : Type}

/-- The value at the root. -/
def value : Tree β → β
  | node v _ => v

/-- The subtrees below the root. -/
def children : Tree β → List (Tree β)
  | node _ cs => cs

mutual

/-- Combines the value of each node with the results for its children, from the leaves up. -/
def fold (f : β → List γ → γ) : Tree β → γ
  | node v cs => f v (foldAll f cs)

/-- The results of `fold` for a list of trees. -/
def foldAll (f : β → List γ → γ) : List (Tree β) → List γ
  | [] => []
  | t :: ts => fold f t :: foldAll f ts

end

theorem foldAll_eq_map (f : β → List γ → γ) (ts : List (Tree β)) :
    foldAll f ts = ts.map (fold f) := by
  induction ts with
  | nil => rfl
  | cons t ts ih => rw [foldAll, ih, List.map_cons]

@[simp] theorem fold_node (f : β → List γ → γ) (v : β) (cs : List (Tree β)) :
    fold f (node v cs) = f v (cs.map (fold f)) := by
  rw [fold, foldAll_eq_map]

/-! ### Walks that keep the shape -/

/-- The same tree with every value replaced. -/
def map (f : β → γ) : Tree β → Tree γ :=
  fold fun v cs => node (f v) cs

/-- The tree without anything below the nodes that satisfy `stop`. -/
def cut (stop : β → Bool) : Tree β → Tree β :=
  fold fun v cs => node v (if stop v then [] else cs)

/-- The tree with `f` applied to each value that is reached without passing below a node that
satisfies `stop`; all else is kept. -/
def mapAbove (stop : β → Bool) (f : β → β) (t : Tree β) : Tree β :=
  (fold (γ := Tree β × Tree β)
    (fun v cs => (node v (cs.map (·.1)),
      node (f v) (cs.map fun c => if stop v then c.1 else c.2))) t).2

/-- Each value with its path from the root, a list of child positions. -/
def located (t : Tree β) : Tree (List Nat × β) :=
  fold (γ := List Nat → Tree (List Nat × β))
    (fun v cs path => node (path, v) (cs.mapIdx fun i c => c (path ++ [i]))) t []

/-! ### Lists of values -/

/-- The values depth first, a node before its children. -/
def preorder : Tree β → List β :=
  fold fun v cs => v :: cs.flatten

/-- Joins two lists of levels, topmost level first. -/
def besideLevels : List (List β) → List (List β) → List (List β)
  | [], right => right
  | left, [] => left
  | l :: left, r :: right => (l ++ r) :: besideLevels left right

/-- The values of each level, from left to right, topmost level first. -/
def levels : Tree β → List (List β) :=
  fold fun v cs => [v] :: cs.foldr besideLevels []

/-- The values level by level. -/
def breadthFirst (t : Tree β) : List β := t.levels.flatten

/-- The number of levels below the root. -/
def height (t : Tree β) : Nat := t.levels.length - 1

/-- The number of nodes. -/
def size (t : Tree β) : Nat := t.preorder.length

end Tree

end FlowTree
