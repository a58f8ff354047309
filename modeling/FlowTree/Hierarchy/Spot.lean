import FlowTree.Hierarchy.Basic

/-!
# Nodes in their surroundings

To draw a node one has to know its parent and the nearest ancestor that is on show, from which a
new node grows and into which a leaving one folds.

* **`Hierarchy.spots`** lists the nodes that are not folded away with these surroundings.
* **`Spot.anchor`** is the node itself if it is visible, else the nearest visible ancestor, and the
  root if there is none.
-/

namespace FlowTree

variable {α : Type}

/-- A node with its surroundings. -/
structure Spot (α : Type) where
  node : Node α
  parent : Option (Node α)
  /-- The nearest visible node on the way to the root, or the root. -/
  anchor : Node α
  hasChildren : Bool

namespace Spot

/-- The id of the node. -/
def id (s : Spot α) : String := s.node.id

/-- The children of the node are folded away. -/
def collapsed (s : Spot α) : Bool := s.node.folded && s.hasChildren

end Spot

namespace Hierarchy

/-- Each node of a tree with its surroundings. -/
def inContext (t : Tree (Node α)) : Tree (Spot α) :=
  Tree.fold (γ := Option (Node α × Node α) → Tree (Spot α))
    (fun n cs above =>
      let anchor := match above with
        | none => n
        | some (_, anchor) => if n.visible then n else anchor
      .node ⟨n, above.map (·.1), anchor, !cs.isEmpty⟩ (cs.map fun c => c (some (n, anchor))))
    t none

/-- The nodes that are not folded away with their surroundings, level by level. -/
def spots (h : Hierarchy α) : List (Spot α) :=
  ((inContext h.tree).cut fun s => s.node.folded).breadthFirst

/-- The surroundings of the node with the given id, which may be folded away. -/
def spot? (h : Hierarchy α) (id : String) : Option (Spot α) :=
  (inContext h.tree).preorder.find? (·.id == id)

end Hierarchy

end FlowTree
