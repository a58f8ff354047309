import FlowTree.Proofs.Arena.Net

/-!
# Traces of the first walk

The first walk over the cells of a tidy tree can write down, as it goes, where it looks and whom it pushes.

* **`Look`** is a look down the four outlines, **`Push`** a push, and **`Trail`** is what there is of them on one way
  down.
* **`Meeting`** is a subtree that is set beside its older siblings, with the way down their outlines.
* **`Net.breadthsTraced`** is the run with its meetings; **`Net.breadthsTraced_fst`** says that without them it is
  `Net.breadths`.
-/

namespace FlowTree.Tidy

variable {α : Type}

namespace Net

/-- The cells at the beginning of a round, and those among them that have been reached on the four outlines. -/
structure Look (α : Type) where
  cells : Net α
  feet : Feet

/-- A push: the cells as it finds them, the facing cell of the row that is too close, the node that gives way and
the sibling that it is pushed away from. -/
structure Push (α : Type) where
  cells : Net α
  inner : ℕ
  wide : ℕ
  default : ℕ
  fixed : ℕ

/-- The looks and the pushes on one way down, and whether it was broken off because an outline that faces away had
ended before those that face each other. -/
structure Trail (α : Type) where
  looks : List (Look α)
  pushes : List (Push α)
  broken : Bool

/-- The node `new` is set beside its older siblings, the youngest of which is `older`. -/
structure Meeting (α : Type) extends Trail α where
  new : ℕ
  older : ℕ

/-- What a round adds in front. -/
def Trail.after (look : Look α) (pushes : List (Push α)) (trail : Trail α) : Trail α where
  looks := look :: trail.looks
  pushes := pushes ++ trail.pushes
  broken := trail.broken

variable [Scalar α]

/-! ### Runs that write down what they do -/

/-- `keepApart` with the push that it makes. -/
def keepApartTraced (net : Net α) (v default : ℕ) (feet : Feet) (sums : Sums α) :
    Checked ((Net α × Sums α) × List (Push α)) := do
  let a ← Checked.get net feet.rowInner
  let b ← Checked.get net feet.newInner
  let gap ← separation net feet.rowInner feet.newInner
  let overlap := a.prelim + sums.rowInner - b.prelim - sums.newInner + gap
  if Scalar.lt Scalar.zero overlap then do
    let fixed ← nextAncestor net feet.rowInner v default
    let pushed ← moveSubtree net fixed v overlap
    return ((pushed, { sums with newInner := sums.newInner + overlap, newOuter := sums.newOuter + overlap }),
      [⟨net, feet.rowInner, v, default, fixed⟩])
  else return ((net, sums), [])

/-- `descend` with its trail. -/
def descendTraced (v default : ℕ) : (rounds : ℕ) → Feet → Sums α → Net α → Checked ((Net α × End α) × Trail α)
  | 0, _, _, _ => .error .rounds
  | rounds + 1, feet, sums, net => do
    let look : Look α := ⟨net, feet⟩
    let rowNext ← stepRight net feet.rowInner
    let newNext ← stepLeft net feet.newInner
    match rowNext, newNext with
    | some rowInner, some newInner => do
      let rowBeyond ← stepLeft net feet.rowOuter
      let newBeyond ← stepRight net feet.newOuter
      match rowBeyond, newBeyond with
      | some rowOuter, some newOuter => do
        let feet : Feet := ⟨rowInner, newInner, rowOuter, newOuter⟩
        let net ← Checked.modify net newOuter (Cell.claimed v)
        let ((net, sums), pushes) ← keepApartTraced net v default feet sums
        let sums ← addModifiers net feet sums
        let (stop, trail) ← descendTraced v default rounds feet sums net
        return (stop, trail.after look pushes)
      | _, _ => return ((net, ⟨{ feet with rowInner := rowInner, newInner := newInner }, sums, none, none⟩),
          ⟨[look], [], true⟩)
    | _, _ => return ((net, ⟨feet, sums, rowNext, newNext⟩), ⟨[look], [], false⟩)

/-- `apportion` with its meeting. -/
def apportionTraced (net : Net α) (v : ℕ) (older : Option ℕ) (default : ℕ) :
    Checked ((Net α × ℕ) × List (Meeting α)) :=
  match older with
  | none => return ((net, default), [])
  | some w => do
    let parent ← parentOf net v
    let p ← Checked.get net parent
    let oldest ← Checked.get p.children 0
    let own ← Checked.get net v
    let a ← Checked.get net w
    let c ← Checked.get net oldest
    let ((net, stop), trail) ← descendTraced v default net.length ⟨w, v, oldest, v⟩
      ⟨a.modifier, own.modifier, c.modifier, own.modifier⟩ net
    let next ← goOn v default net stop
    return (next, [{ trail with new := v, older := w }])

/-- `join` with its meeting. -/
def joinTraced (net : Net α) (v : ℕ) (older : Option ℕ) : Checked (Net α × List (Meeting α)) := do
  let parent ← parentOf net v
  let p ← Checked.get net parent
  let oldest ← Checked.get p.children 0
  let ((net, next), meetings) ← apportionTraced net v older (p.defaultAncestor.getD oldest)
  let net ← Checked.modify net parent (Cell.assuming next)
  return (net, meetings)

/-- A child is walked over after others; its meetings come behind theirs. -/
def addTraced (walk : ℕ → Net α → Checked (Net α × List (Meeting α))) (state : Net α × List (Meeting α))
    (child : ℕ) : Checked (Net α × List (Meeting α)) := do
  let (net, more) ← walk child state.1
  return (net, state.2 ++ more)

/-- `firstWalk` with its meetings, from the first one to the last one. -/
def firstWalkTraced : (rounds : ℕ) → (v : ℕ) → Net α → Checked (Net α × List (Meeting α))
  | 0, _, _ => .error .rounds
  | rounds + 1, v, net => do
    let c ← Checked.get net v
    let (net, meetings) ← c.children.foldlM (addTraced (firstWalkTraced rounds)) (net, [])
    let older ← olderOf net v
    let net ← stand net v older
    let (net, own) ← joinTraced net v older
    return (net, meetings ++ own)

/-- `breadths` with the meetings of the first walk. -/
def breadthsTraced (below : ℕ → Option (List ℕ)) (count : ℕ) : Checked (List α × List (Meeting α)) := do
  let net : Net α ← build below count [(0, 0, 0)] [Cell.fresh 0 none none 0]
  let top ← Checked.get net 0
  let root ← Checked.get top.children 0
  let (net, meetings) ← firstWalkTraced net.length root net
  let r ← Checked.get net root
  let net ← Checked.modify net 0 fun c => { c with modifier := -r.prelim }
  let (_, breadth) ← secondWalk net.length root (net, List.replicate count Scalar.zero)
  return (breadth, meetings)

/-! ### Without the trace -/

theorem keepApartTraced_fst (net : Net α) (v default : ℕ) (feet : Feet) (sums : Sums α) :
    Prod.fst <$> net.keepApartTraced v default feet sums = net.keepApart v default feet sums := by
  simp only [keepApartTraced, keepApart, map_bind]
  refine bind_congr fun a => bind_congr fun b => bind_congr fun gap => ?_
  split <;> simp only [map_bind, map_pure]

theorem descendTraced_fst (v default : ℕ) (rounds : ℕ) (feet : Feet) (sums : Sums α) (net : Net α) :
    Prod.fst <$> descendTraced v default rounds feet sums net = descend v default rounds feet sums net := by
  induction rounds generalizing feet sums net with
  | zero => rfl
  | succ rounds ih =>
    simp only [descendTraced, descend, map_bind]
    refine bind_congr fun rowNext => bind_congr fun newNext => ?_
    rcases rowNext with _ | rowInner
    · rfl
    rcases newNext with _ | newInner
    · rfl
    simp only [map_bind]
    refine bind_congr fun rowBeyond => bind_congr fun newBeyond => ?_
    rcases rowBeyond with _ | rowOuter
    · rfl
    rcases newBeyond with _ | newOuter
    · rfl
    simp only [← ih, ← keepApartTraced_fst, map_bind, bind_map_left, bind_pure_comp, Functor.map_map]

theorem apportionTraced_fst (net : Net α) (v : ℕ) (older : Option ℕ) (default : ℕ) :
    Prod.fst <$> net.apportionTraced v older default = net.apportion v older default := by
  cases older with
  | none => rfl
  | some w =>
    simp only [apportionTraced, apportion, ← descendTraced_fst, map_bind, bind_map_left, map_pure, bind_pure]

theorem joinTraced_fst (net : Net α) (v : ℕ) (older : Option ℕ) :
    Prod.fst <$> net.joinTraced v older = net.join v older := by
  simp only [joinTraced, join, ← apportionTraced_fst, map_bind, bind_map_left, map_pure, bind_pure]

omit [Scalar α] in
theorem foldlM_addTraced_fst {walk : ℕ → Net α → Checked (Net α × List (Meeting α))}
    {plain : ℕ → Net α → Checked (Net α)} (h : ∀ v net, Prod.fst <$> walk v net = plain v net) (cs : List ℕ)
    (state : Net α × List (Meeting α)) :
    Prod.fst <$> cs.foldlM (addTraced walk) state = cs.foldlM (fun net child => plain child net) state.1 := by
  induction cs generalizing state with
  | nil => rfl
  | cons child cs ih =>
    simp only [List.foldlM_cons, addTraced, map_bind, ih, bind_assoc, pure_bind, ← h, bind_map_left]

theorem firstWalkTraced_fst (rounds v : ℕ) (net : Net α) :
    Prod.fst <$> firstWalkTraced rounds v net = firstWalk rounds v net := by
  induction rounds generalizing v net with
  | zero => rfl
  | succ rounds ih =>
    simp only [firstWalkTraced, firstWalk, ← foldlM_addTraced_fst ih _ (_, []), ← joinTraced_fst, map_bind,
      bind_map_left, bind_pure_comp, Functor.map_map]

/-- **Without the trace** the run is as it was. -/
theorem breadthsTraced_fst (below : ℕ → Option (List ℕ)) (count : ℕ) :
    Prod.fst <$> breadthsTraced below count = (breadths below count : Checked (List α)) := by
  simp only [breadthsTraced, breadths, ← firstWalkTraced_fst, map_bind, bind_map_left, map_pure]

end Net

end FlowTree.Tidy
