import FlowTree.Document
import FlowTree.Geometry
import FlowTree.Hierarchy.Id

/-!
# Hierarchies

A hierarchy is a tree of a document with what a drawing remembers about each node: its id, where it
comes from and where it goes, whether it is on show, and whether its children are folded away.

* **`Hierarchy.ofTree`** gives every node its id; nothing is folded.
* **`Hierarchy.shown`** is the part of the tree that is not folded away.
* **`Hierarchy.toggle?`** folds or unfolds the children of one node.  Folded children stay in the
  tree as they are, so unfolding brings back the same children.
* **`Hierarchy.prune`** forgets what is folded away.
* **`Hierarchy.slots`** lists the nodes with the positions of their relatives in that list.
-/

namespace FlowTree

/-- What a drawing remembers about one node. -/
structure Node (α : Type) where
  id : String
  info : NodeInfo α
  /-- The node was on show when the last pass began. -/
  visible : Bool := true
  /-- Where the node is before the pass. -/
  start : Point α
  /-- Where the node is after the pass. -/
  finish : Point α
  /-- The children, if there are any, are not on show. -/
  folded : Bool := false

/-- The order in which the nodes of a hierarchy are listed. -/
inductive Listing where
  | depthFirst
  | levelByLevel
  deriving DecidableEq, Repr

/-- A tree of nodes and the order of its listing. -/
structure Hierarchy (α : Type) where
  tree : Tree (Node α)
  listing : Listing := .depthFirst

/-- What became of a branch. -/
inductive Toggle where
  | collapsed
  | expanded
  /-- There was nothing to fold or unfold. -/
  | leaf
  deriving DecidableEq, Repr

namespace Hierarchy

variable {α : Type}

/-! ### Building -/

section Build

variable [Scalar α]

/-- A node that has not been placed yet. -/
def freshNode (id : String) (info : NodeInfo α) : Node α :=
  { id := id, info := info, start := .origin, finish := .origin }

mutual

/-- The tree of nodes for a tree of a document whose root has the given id. -/
def grow (id : String) : Tree (NodeInfo α) → Tree (Node α)
  | .node info children => .node (freshNode id info) (growAll id [] children)

/-- The nodes below the node `parent`; `earlier` are the labels of the older siblings. -/
def growAll (parent : String) (earlier : List String) :
    List (Tree (NodeInfo α)) → List (Tree (Node α))
  | [] => []
  | t :: ts =>
    grow (NodeId.child parent t.value.label (earlier.count t.value.label)) t
      :: growAll parent (t.value.label :: earlier) ts

end

/-- The hierarchy of a tree of a document. -/
def ofTree (t : Tree (NodeInfo α)) : Hierarchy α :=
  ⟨grow (NodeId.escapeLabel t.value.label) t, .depthFirst⟩

end Build

/-! ### Nodes -/

/-- The node at the root. -/
def root (h : Hierarchy α) : Node α := h.tree.value

/-- All nodes, those that are folded away included, in the order of the listing. -/
def nodes (h : Hierarchy α) : List (Node α) :=
  match h.listing with
  | .depthFirst => h.tree.preorder
  | .levelByLevel => h.tree.breadthFirst

/-- The position in the listing of the node with the given id. -/
def find? (h : Hierarchy α) (id : String) : Option Nat := h.nodes.findIdx? (·.id == id)

/-- A node with the given id is in the tree, maybe folded away. -/
def contains (h : Hierarchy α) (id : String) : Bool := h.nodes.any (·.id == id)

/-- The hierarchy with the node of the given id changed. -/
def update (h : Hierarchy α) (id : String) (f : Node α → Node α) : Hierarchy α :=
  { h with tree := h.tree.map fun n => if n.id == id then f n else n }

/-- The hierarchy with its root changed. -/
def updateRoot (h : Hierarchy α) (f : Node α → Node α) : Hierarchy α :=
  { h with tree := .node (f h.root) h.tree.children }

/-! ### What is on show -/

/-- The part of the tree that is not folded away. -/
def shown (h : Hierarchy α) : Tree (Node α) := h.tree.cut (·.folded)

/-- The nodes that are not folded away, level by level. -/
def descendants (h : Hierarchy α) : List (Node α) := h.shown.breadthFirst

/-- The ids of the nodes that are not folded away, level by level. -/
def ids (h : Hierarchy α) : List String := h.descendants.map (·.id)

/-- The number of levels on show below the root. -/
def height (h : Hierarchy α) : Nat := h.shown.height

/-- The hierarchy with every node on show changed by `f`, which must not fold or unfold. -/
def updateShown (h : Hierarchy α) (f : Node α → Node α) : Hierarchy α :=
  { h with tree := h.tree.mapAbove (·.folded) f }

/-- The part on show as a hierarchy of its own, with nothing folded. -/
def prune (h : Hierarchy α) : Hierarchy α :=
  ⟨h.shown.map fun n => { n with folded := false }, .levelByLevel⟩

/-! ### Folding and unfolding -/

/-- Folds or unfolds the nodes with the given id that have children. -/
def flip (id : String) : Tree (Node α) → Tree (Node α) :=
  Tree.fold fun n cs =>
    .node (if n.id == id && !cs.isEmpty then { n with folded := !n.folded } else n) cs

/-- What folding or unfolding does to a subtree. -/
def toggleOf : Tree (Node α) → Toggle
  | .node n cs => if cs.isEmpty then .leaf else if n.folded then .expanded else .collapsed

/-- The subtrees of all nodes, depth first. -/
def branches (t : Tree (Node α)) : List (Tree (Node α)) :=
  (Tree.fold (γ := Tree (Node α) × List (Tree (Node α)))
    (fun n cs =>
      let whole := Tree.node n (cs.map (·.1))
      (whole, whole :: cs.flatMap (·.2))) t).2

/-- The subtree below the node with the given id. -/
def branch? (h : Hierarchy α) (id : String) : Option (Tree (Node α)) :=
  (branches h.tree).find? (·.value.id == id)

/-- The hierarchy with the children of one node folded or unfolded, and which of the two it was;
`none` if no node has the id. -/
def toggle? (h : Hierarchy α) (id : String) : Option (Toggle × Hierarchy α) :=
  (h.branch? id).map fun b => (toggleOf b, { h with tree := flip id h.tree })

/-! ### The listing -/

/-- A node in the listing, with the positions of its relatives. -/
structure Slot (α : Type) where
  node : Node α
  parent : Option Nat
  depth : Nat
  children : List Nat
  hidden : List Nat

namespace Slot

/-- The node has children, on show or not. -/
def hasChildren (s : Slot α) : Bool := !s.children.isEmpty || !s.hidden.isEmpty

/-- The node has children that are folded away. -/
def collapsed (s : Slot α) : Bool := !s.hidden.isEmpty

end Slot

/-- Each node with its path and the number of its children. -/
def places (t : Tree (Node α)) : Tree (List Nat × Node α × Nat) :=
  (Tree.fold (fun n cs => Tree.node (n, cs.length) cs) t).located

/-- All nodes in the order of the listing, with the positions of their relatives. -/
def slots (h : Hierarchy α) : List (Slot α) :=
  let placed := match h.listing with
    | .depthFirst => (places h.tree).preorder
    | .levelByLevel => (places h.tree).breadthFirst
  let paths := placed.map (·.1)
  placed.map fun (path, n, count) =>
    let below := (List.range count).map fun i => paths.idxOf (path ++ [i])
    { node := n
      parent := if path.isEmpty then none else some (paths.idxOf path.dropLast)
      depth := path.length
      children := if n.folded then [] else below
      hidden := if n.folded then below else [] }

end Hierarchy

end FlowTree
