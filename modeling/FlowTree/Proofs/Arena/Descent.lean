import FlowTree.Proofs.Arena.Rims
import FlowTree.Proofs.Arena.Trace

/-!
# What a walk down the outlines meets

* **`Net.Look.On`** says that the cells that have been reached bound one level, and that the next ones bound the level
  below it; **`Net.Push.From`** says that a push starts from the older sibling below which the facing cell hangs.
* **`Net.Stands`** is where a walk has come to: at a level of all four rims.
* **`Net.descendTraced_eq`** says that the walk looks at one level after the other as long as both sides have one, that
  it is never broken off, and whom it pushes away from whom.
-/

namespace FlowTree.Tidy.Net

variable {α : Type}

/-! ### Looks and pushes -/

/-- The cells that have been reached are the outermost ones on level `k` of the row and of the new subtree, and from
all of them the next cell is the one on the level below, if there is one. -/
structure Look.On (look : Look α) (ts : List Wires) (t : Wires) (k : ℕ) : Prop where
  rowInner : rightmost ts k = some look.feet.rowInner
  newInner : leftmost [t] k = some look.feet.newInner
  rowOuter : leftmost ts k = some look.feet.rowOuter
  newOuter : rightmost [t] k = some look.feet.newOuter
  rowInnerNext : look.cells.nextRight look.feet.rowInner = rightmost ts (k + 1)
  newInnerNext : look.cells.nextLeft look.feet.newInner = leftmost [t] (k + 1)
  rowOuterNext : look.cells.nextLeft look.feet.rowOuter = leftmost ts (k + 1)
  newOuterNext : look.cells.nextRight look.feet.newOuter = rightmost [t] (k + 1)

/-- The new subtree is pushed away from the older sibling below which the facing cell hangs. -/
structure Push.From (push : Push α) (ts : List Wires) (t : Wires) : Prop where
  wide : push.wide = top t
  found : push.cells.nextAncestor push.inner push.wide push.default = .ok push.fixed
  sibling : ∃ (k : ℕ) (u : Wires) (f w : Cell α), ts[k]? = some u ∧ push.fixed = top u ∧ push.inner ∈ slots u ∧
    push.cells[push.fixed]? = some f ∧ f.number = k ∧ push.cells[push.wide]? = some w ∧ w.number = ts.length

/-- What is known of a trail that begins on level `k`. -/
structure Trail.Down (trail : Trail α) (ts : List Wires) (t : Wires) (k : ℕ) : Prop where
  looks : ∀ (j : ℕ) (look : Look α), trail.looks[j]? = some look → look.On ts t (k + j)
  length : k + trail.looks.length = min (depth ts) (depth [t])
  pushes : ∀ push ∈ trail.pushes, push.From ts t
  unbroken : trail.broken = false

/-- One round more in front. -/
theorem Trail.Down.after {trail : Trail α} {k : ℕ} {ts : List Wires} {t : Wires} (h : trail.Down ts t (k + 1))
    {look : Look α} (hlook : look.On ts t k) {pushes : List (Push α)} (hpushes : ∀ push ∈ pushes, push.From ts t) :
    (trail.after look pushes).Down ts t k where
  looks j l hl := by
    cases j with
    | zero =>
      obtain rfl := Option.some.inj hl
      exact hlook
    | succ j =>
      rw [← Nat.add_assoc, Nat.add_right_comm]
      exact h.looks j l hl
  length := by
    rw [← h.length, Trail.after, List.length_cons]
    omega
  pushes push hpush := (List.mem_append.mp hpush).elim (hpushes push) (h.pushes push)
  unbroken := h.unbroken

/-! ### Where a walk has come to -/

/-- The cells that have been reached stand on level `k` of the rims. -/
structure Stands (net : Net α) (ts : List Wires) (t : Wires) (feet : Feet) (k : ℕ) : Prop where
  rowInner : Rims net.nextRight feet.rowInner fun j => rightmost ts (k + j)
  newInner : Rims net.nextLeft feet.newInner fun j => leftmost [t] (k + j)
  rowOuter : Rims net.nextLeft feet.rowOuter fun j => leftmost ts (k + j)
  newOuter : Rims net.nextRight feet.newOuter fun j => rightmost [t] (k + j)

namespace Stands

variable {net net' : Net α} {ts : List Wires} {t : Wires} {feet : Feet} {k : ℕ}

/-- At first it stands at the roots. -/
theorem start (hrow : OnRims net ts) (hnew : OnRims net [t]) {o y : Wires} (ho : ts.head? = some o)
    (hy : ts.getLast? = some y) : Stands net ts t ⟨top y, top t, top o, top t⟩ 0 := by
  have hshift : ∀ mark : ℕ → Option ℕ, (fun j => mark (0 + j)) = mark := fun mark =>
    funext fun j => congrArg mark (Nat.zero_add j)
  constructor <;> rw [hshift]
  · exact hrow.right y hy
  · exact hnew.left t rfl
  · exact hrow.left o ho
  · exact hnew.right t rfl

variable (h : Stands net ts t feet k)
include h

theorem of_links (heq : net'.map Cell.links = net.map Cell.links) : Stands net' ts t feet k where
  rowInner := nextRight_congr heq ▸ h.rowInner
  newInner := nextLeft_congr heq ▸ h.newInner
  rowOuter := nextLeft_congr heq ▸ h.rowOuter
  newOuter := nextRight_congr heq ▸ h.newOuter

theorem look : Look.On ⟨net, feet⟩ ts t k where
  rowInner := h.rowInner.start
  newInner := h.newInner.start
  rowOuter := h.rowOuter.start
  newOuter := h.newOuter.start
  rowInnerNext := h.rowInner.next_eq
  newInnerNext := h.newInner.next_eq
  rowOuterNext := h.rowOuter.next_eq
  newOuterNext := h.newOuter.next_eq

/-- **One level deeper.** -/
theorem step {x y z u : ℕ} (hx : net.nextRight feet.rowInner = some x) (hy : net.nextLeft feet.newInner = some y)
    (hz : net.nextLeft feet.rowOuter = some z) (hu : net.nextRight feet.newOuter = some u) :
    Stands net ts t ⟨x, y, z, u⟩ (k + 1) := by
  have hshift : ∀ mark : ℕ → Option ℕ, (fun j => mark (k + (j + 1))) = fun j => mark (k + 1 + j) := fun mark =>
    funext fun j => congrArg mark (by omega)
  have hri := h.rowInner.step hx
  have hni := h.newInner.step hy
  have hro := h.rowOuter.step hz
  have hno := h.newOuter.step hu
  rw [hshift] at hri hni hro hno
  exact ⟨hri, hni, hro, hno⟩

/-- Both sides have the level. -/
theorem lt_min_depth : k < min (depth ts) (depth [t]) := by
  rw [Nat.lt_min, ← isSome_rightmost, ← isSome_leftmost, h.look.rowInner, h.look.newInner]
  exact ⟨rfl, rfl⟩

/-- A side has the next level if its outlines go on, the one that faces the other side as well as the one that faces
away. -/
theorem next_isSome : (net.nextRight feet.rowInner).isSome = (net.nextLeft feet.rowOuter).isSome ∧
    (net.nextLeft feet.newInner).isSome = (net.nextRight feet.newOuter).isSome := by
  rw [h.look.rowInnerNext, h.look.rowOuterNext, h.look.newInnerNext, h.look.newOuterNext]
  exact ⟨Bool.eq_iff_iff.mpr (isSome_rightmost.trans isSome_leftmost.symm),
    Bool.eq_iff_iff.mpr (isSome_leftmost.trans isSome_rightmost.symm)⟩

/-- A side that goes no further ends the walk. -/
theorem min_depth_eq (hend : net.nextRight feet.rowInner = none ∨ net.nextLeft feet.newInner = none) :
    min (depth ts) (depth [t]) = k + 1 := by
  have hlt := h.lt_min_depth
  have hle : ¬(k + 1 < depth ts ∧ k + 1 < depth [t]) := by
    rw [h.look.rowInnerNext, h.look.newInnerNext, ← Option.not_isSome_iff_eq_none, ← Option.not_isSome_iff_eq_none,
      isSome_rightmost, isSome_leftmost] at hend
    exact fun hboth => hend.elim (· hboth.1) (· hboth.2)
  omega

end Stands

theorem nextLeft_of_stepLeft {net : Net α} {x : ℕ} {next : Option ℕ} (h : net.stepLeft x = .ok next) :
    net.nextLeft x = next := by
  obtain ⟨c, hc, hnext⟩ := Checked.bind_eq_ok_iff.mp h
  rw [nextLeft, Checked.get_eq_ok_iff.mp hc]
  exact Except.ok.inj hnext

theorem nextRight_of_stepRight {net : Net α} {x : ℕ} {next : Option ℕ} (h : net.stepRight x = .ok next) :
    net.nextRight x = next := by
  obtain ⟨c, hc, hnext⟩ := Checked.bind_eq_ok_iff.mp h
  rw [nextRight, Checked.get_eq_ok_iff.mp hc]
  exact Except.ok.inj hnext

/-! ### What a round does -/

/-- What a round leaves alone: the relatives and the threads of all cells, and the ancestors of all cells outside the
new subtree. -/
structure Rounded (net net' : Net α) (t : Wires) : Prop where
  links : net'.map Cell.links = net.map Cell.links
  ancestors : ∀ x, x ∉ inner t → net'.ancestor? x = net.ancestor? x

namespace Rounded

variable {net net₁ net₂ : Net α} {t : Wires}

theorem refl (net : Net α) (t : Wires) : Rounded net net t := ⟨rfl, fun _ _ => rfl⟩

theorem trans (h : Rounded net net₁ t) (h' : Rounded net₁ net₂ t) : Rounded net net₂ t :=
  ⟨h'.links.trans h.links, fun x hx => (h'.ancestors x hx).trans (h.ancestors x hx)⟩

/-- A cell of the new subtree is claimed. -/
theorem claimed {u : ℕ} (hu : u ∈ inner t) (v : ℕ) : Rounded net (net.modify u (Cell.claimed v)) t where
  links := map_modify_of_keeps (Cell.links_claimed v) net u
  ancestors _ hx := ancestor?_modify fun heq => hx (heq ▸ hu)

/-- A cell is changed that keeps its references. -/
theorem modify {g : Cell α → Cell α} (hg : ∀ c, (g c).links = c.links) (hancestor : ∀ c, (g c).ancestor = c.ancestor)
    (x : ℕ) : Rounded net (net.modify x g) t where
  links := map_modify_of_keeps hg net x
  ancestors y _ := ancestor?_modify_of_keeps hancestor y

end Rounded

variable [Scalar α] {net net' : Net α} {p : ℕ} {ts : List Wires} {t : Wires}

theorem rounded_moveSubtree {fixed wide : ℕ} {shift : α} (h : net.moveSubtree fixed wide shift = .ok net') :
    Rounded net net' t := by
  simp only [moveSubtree, Checked.bind_eq_ok_iff] at h
  obtain ⟨w, -, f, -, net₁, h₁, net₂, h₂, h₃⟩ := h
  obtain rfl := Checked.eq_modify h₁
  obtain rfl := Checked.eq_modify h₂
  obtain rfl := Checked.eq_modify h₃
  exact ((Rounded.modify (Cell.links_pushed _ _) (fun _ => rfl) _).trans
    (.modify (Cell.links_braced _) (fun _ => rfl) _)).trans (.modify (Cell.links_movedBy _) (fun _ => rfl) _)

/-- **A push** starts from the sibling below which the facing cell hangs. -/
theorem keepApartTraced_from {net₀ : Net α} (hb : Adjoins net₀ p ts t) {default : ℕ} {feet : Feet} {e : ℕ × Slot α}
    (howned : Owned net₀ default ts feet.rowInner e) (hrounded : Rounded net₀ net t) {sums sums' : Sums α}
    {pushes : List (Push α)} (h : net.keepApartTraced (top t) default feet sums = .ok ((net', sums'), pushes)) :
    Rounded net net' t ∧ ∀ push ∈ pushes, push.From ts t := by
  simp only [keepApartTraced, Checked.bind_eq_ok_iff] at h
  obtain ⟨a, -, b, -, gap, -, h⟩ := h
  split at h
  · simp only [Checked.bind_eq_ok_iff, Checked.pure_eq] at h
    obtain ⟨fixed, hfixed, pushed, hmove, h⟩ := h
    obtain ⟨⟨rfl, rfl⟩, rfl⟩ : (pushed = net' ∧ _ = sums') ∧ _ = pushes := by
      simpa only [Prod.mk.injEq] using Except.ok.inj h
    refine ⟨rounded_moveSubtree hmove, fun push hpush => ?_⟩
    obtain rfl := List.mem_singleton.mp hpush
    -- the sibling is found
    obtain ⟨u, c, hu, hin, hanc, hor⟩ := howned.owner
    have hb' := hb.congr hrounded.links
    have hfound : net.nextAncestor feet.rowInner (top t) default = .ok (top u) :=
      nextAncestor_eq hb' hu ((hrounded.ancestors _ (hb.not_mem_inner_new hu hin)).trans hanc) hor
    obtain rfl := Except.ok.inj (hfound.symm.trans hfixed)
    obtain ⟨f, hf, hfjoint⟩ := (hb'.wired e.1 u (Adjoins.getElem?_old hu)).joint
    obtain ⟨w, hw, hwjoint⟩ := (hb'.wired ts.length t Adjoins.getElem?_new).joint
    exact ⟨rfl, hfound, e.1, u, f, w, hu, rfl, mem_slots_of_mem_inner hin, hf, congrArg Joint.number hfjoint, hw,
      congrArg Joint.number hwjoint⟩
  · obtain ⟨⟨rfl, rfl⟩, rfl⟩ : (net = net' ∧ sums = sums') ∧ [] = pushes := by
      simpa only [Prod.mk.injEq] using Except.ok.inj h
    exact ⟨.refl net t, fun push hpush => absurd hpush List.not_mem_nil⟩

/-! ### The way down -/

/-- **The way down** stays on the rims, level by level, until one side has no more levels. -/
theorem descendTraced_eq {net₀ : Net α} (hb : Adjoins net₀ p ts t) {default : ℕ}
    (howned : ∀ k x, rightmost ts (k + 1) = some x → ∃ e, Owned net₀ default ts x e) {feet : Feet} {k : ℕ}
    (hstands : Stands net₀ ts t feet k) (hrounded : Rounded net₀ net t) {rounds : ℕ} {sums : Sums α}
    {result : Net α × End α} {trail : Trail α}
    (h : descendTraced (top t) default rounds feet sums net = .ok (result, trail)) : trail.Down ts t k := by
  induction rounds generalizing feet k net sums result trail with
  | zero => exact nomatch h
  | succ rounds ih =>
    have hstands' := hstands.of_links hrounded.links
    have hlook := hstands'.look
    -- where one side has no more levels, this look is the last one
    have hlast : net.nextRight feet.rowInner = none ∨ net.nextLeft feet.newInner = none →
        Trail.Down ⟨[⟨net, feet⟩], [], false⟩ ts t k := fun hend => by
      refine ⟨fun j look hl => ?_, (hstands'.min_depth_eq hend).symm, fun push hp => absurd hp List.not_mem_nil, rfl⟩
      cases j with
      | zero =>
        obtain rfl := Option.some.inj hl
        exact hlook
      | succ j => exact absurd hl (by simp)
    simp only [descendTraced, Checked.bind_eq_ok_iff] at h
    obtain ⟨rowNext, hrow, newNext, hnew, h⟩ := h
    replace hrow := nextRight_of_stepRight hrow
    replace hnew := nextLeft_of_stepLeft hnew
    rcases rowNext with _ | x
    · obtain rfl := (Prod.mk.inj (Except.ok.inj h)).2
      exact hlast (.inl hrow)
    rcases newNext with _ | y
    · obtain rfl := (Prod.mk.inj (Except.ok.inj h)).2
      exact hlast (.inr hnew)
    simp only [Checked.bind_eq_ok_iff] at h
    obtain ⟨rowBeyond, hbeyond, newBeyond, hbeyond', h⟩ := h
    replace hbeyond := nextLeft_of_stepLeft hbeyond
    replace hbeyond' := nextRight_of_stepRight hbeyond'
    -- the outlines that face away go on as well
    obtain ⟨hrowSome, hnewSome⟩ := hstands'.next_isSome
    rw [hrow, hbeyond] at hrowSome
    rw [hnew, hbeyond'] at hnewSome
    obtain ⟨z, rfl⟩ := Option.isSome_iff_exists.mp hrowSome.symm
    obtain ⟨u, rfl⟩ := Option.isSome_iff_exists.mp hnewSome.symm
    have hx : rightmost ts (k + 1) = some x := hlook.rowInnerNext.symm.trans hrow
    have hu : rightmost [t] (k + 1) = some u := hlook.newOuterNext.symm.trans hbeyond'
    have hinner : u ∈ inner t := mem_inner_of_mem_levelOf (List.mem_of_getLast? hu)
    simp only [Checked.bind_eq_ok_iff, Checked.pure_eq] at h
    obtain ⟨net₁, hclaim, ⟨⟨net₂, sums₂⟩, pushes⟩, hkeep, sums₃, -, ⟨result', rest⟩, hrest, h⟩ := h
    obtain rfl := Checked.eq_modify hclaim
    obtain ⟨-, rfl⟩ := Prod.mk.inj (Except.ok.inj h)
    obtain ⟨e, he⟩ := howned k x hx
    have hclaimed : Rounded net₀ (net.modify u (Cell.claimed (top t))) t := hrounded.trans (.claimed hinner _)
    obtain ⟨hrounded₂, hpushes⟩ := keepApartTraced_from hb
      (show Owned net₀ default ts (Feet.mk x y z u).rowInner e from he) hclaimed hkeep
    have hstep := (hstands'.step hrow hnew hbeyond hbeyond').of_links hrounded.links.symm
    exact (ih hstep (hclaimed.trans hrounded₂) hrest).after hlook hpushes

end FlowTree.Tidy.Net
