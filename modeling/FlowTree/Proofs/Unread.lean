import FlowTree.Proofs.Kin

/-!
# What a reconciliation does not read

Of the new tree a reconciliation reads the frame and where the root begins.  All other places and marks of
visibility that earlier passes have left on its nodes, on show or folded away, are without effect.

* **`Spot.outset`** is what a directive for a new node reads.
* **`View.originOf`** finds by ids where a new element begins.
* **`View.map_outset_coming`** and **`View.leaving_congr`** say what the nodes of both trees owe to the new
  one, **`View.pass_congr`** says it of whole passes.
* **`View.restyle_congr`** says the same of drawing anew.
-/

namespace FlowTree

variable {α : Type}

/-- Lists that agree in what is read give the same results for the values that are chosen by it. -/
theorem map_filter_congr {β γ δ : Type} {read : β → γ} {p : β → Bool} {f : β → δ}
    (hp : ∀ x x', read x = read x' → p x = p x') (hf : ∀ x x', read x = read x' → f x = f x')
    {l l' : List β} (h : l.map read = l'.map read) : (l.filter p).map f = (l'.filter p).map f := by
  induction l generalizing l' with
  | nil =>
    obtain rfl := List.map_eq_nil_iff.mp h.symm
    rfl
  | cons x l ih =>
    obtain ⟨x', l', rfl, hx, hl⟩ := List.map_eq_cons_iff.mp h.symm
    rw [List.filter_cons, List.filter_cons, hp x x' hx.symm]
    split
    · rw [List.map_cons, List.map_cons, hf x x' hx.symm, ih hl.symm]
    · exact ih hl.symm

/-- What can be seen of a node and where its elements begin if it is new. -/
def Spot.outset (s : Spot α) : Sight α × Point α := (s.sight, s.anchor.start)

namespace View

/-! ### Directives -/

section Directives

variable [Scalar α] [Printed α] (v : View α) {s s' : Spot α}

theorem createNode_congr (h : s.outset = s'.outset) : v.createNode s = v.createNode s' := by
  obtain ⟨hsight, hstart⟩ := Prod.mk.inj h
  obtain ⟨hid, hinfo, hfinish, hparent, hchildren, hcollapsed⟩ := Spot.sight_eq_iff.mp hsight
  simp only [createNode, v.settledNode_congr hsight, nodeVisual, hid, hinfo, hchildren, hcollapsed,
    hstart]

theorem createEdge_congr (h : s.outset = s'.outset) : v.createEdge s = v.createEdge s' := by
  obtain ⟨hsight, hstart⟩ := Prod.mk.inj h
  rw [createEdge, createEdge, v.settledEdge_congr hsight, (Spot.sight_eq_iff.mp hsight).1, hstart]

omit [Printed α] in
theorem createLabel_congr (h : s.outset = s'.outset) : v.createLabel s = v.createLabel s' := by
  obtain ⟨hsight, hstart⟩ := Prod.mk.inj h
  rw [createLabel, createLabel, edgeLabelVisual_congr hsight, edgeLabelVisual_congr hsight,
    (Spot.sight_eq_iff.mp hsight).1]

theorem updateNode_congr (h : s.sight = s'.sight) : v.updateNode s = v.updateNode s' := by
  rw [updateNode, updateNode, v.settledNode_congr h, (Spot.sight_eq_iff.mp h).1]

theorem updateEdge_congr (h : s.sight = s'.sight) : v.updateEdge s = v.updateEdge s' := by
  rw [updateEdge, updateEdge, v.settledEdge_congr h, (Spot.sight_eq_iff.mp h).1]

omit [Printed α] in
theorem updateLabel_congr (h : s.sight = s'.sight) : v.updateLabel s = v.updateLabel s' := by
  rw [updateLabel, updateLabel, edgeLabelVisual_congr h, (Spot.sight_eq_iff.mp h).1]

omit [Scalar α] [Printed α] in
theorem map_id_of_outset {new new' : List (Spot α)} (h : new.map Spot.outset = new'.map Spot.outset) :
    new.map (·.id) = new'.map (·.id) := by
  have hids := congrArg (List.map fun x : Sight α × Point α => x.1.id) h
  rwa [List.map_map, List.map_map] at hids

omit [Scalar α] [Printed α] in
/-- The directives for one kind of elements read nothing else of the new nodes. -/
theorem phase_congr {target : String → Point α} {kind : ElementKind}
    {create update : Spot α → Directive α}
    (hcreate : ∀ s s' : Spot α, s.outset = s'.outset → create s = create s')
    (hupdate : ∀ s s' : Spot α, s.sight = s'.sight → update s = update s') (old : List (Spot α))
    {new new' : List (Spot α)} (h : new.map Spot.outset = new'.map Spot.outset) :
    v.phase target kind create update old new = v.phase target kind create update old new' := by
  have hid : ∀ s s' : Spot α, s.outset = s'.outset → s.id = s'.id :=
    fun s s' hs => (Spot.sight_eq_iff.mp (Prod.mk.inj hs).1).1
  simp only [phase, map_id_of_outset h]
  congr 1
  congr 1
  · refine map_filter_congr (fun s s' hs => ?_) hcreate h
    rw [hid s s' hs]
  · refine map_filter_congr (fun s s' hs => ?_) (fun s s' hs => hupdate s s' (Prod.mk.inj hs).1) h
    rw [hid s s' hs]

end Directives

/-! ### What the old tree takes over -/

theorem bequest_congr {new new' : List (Node α)}
    (h : (new.map fun n => (n.id, n.finish)) = new'.map fun n => (n.id, n.finish)) :
    bequest new = bequest new' := by
  funext o
  have hfound : ∀ nodes : List (Node α), (nodes.find? (·.id == o.id)).map (fun n => (n.id, n.finish)) =
      (nodes.map fun n => (n.id, n.finish)).find? (·.1 == o.id) := by
    intro nodes
    rw [List.find?_map]
    rfl
  have hsame := hfound new
  rw [h, ← hfound new'] at hsame
  rw [bequest, bequest]
  cases hn : new.find? (·.id == o.id) with
  | none =>
    rw [hn, Option.map_none, eq_comm, Option.map_eq_none_iff] at hsame
    rw [hsame]
  | some n =>
    rw [hn, Option.map_some, eq_comm, Option.map_eq_some_iff] at hsame
    obtain ⟨n', hn', heq⟩ := hsame
    rw [hn']
    exact congrArg (fun p => { o with finish := p }) (Prod.mk.inj heq).2.symm

variable [Scalar α]

/-- **What the old tree takes over** depends on the frame of the new one. -/
theorem leaving_congr (v : View α) (old : Option (Hierarchy α)) {new new' : Hierarchy α}
    (hframe : new.frame = new'.frame) : v.leaving old new = v.leaving old new' := by
  have hplaces := congrArg (fun t => (t.map fun x => (x.1.1, x.2)).breadthFirst)
    (Hierarchy.shown_layout_congr hframe v.canvas)
  simp only [Tree.map_map, Tree.breadthFirst_map] at hplaces
  have hbequest : bequest (new.layout v.canvas).descendants = bequest (new'.layout v.canvas).descendants :=
    bequest_congr hplaces
  cases old with
  | none => rfl
  | some h => exact congrArg (fun f => (h.updateShown f).spots) hbequest

/-! ### What the new tree takes over -/

/-- Where the elements of a node begin that is below nodes with the ids `above`, the nearest one first: at
the nearest node on the way up that was visible before; if there is none, at the root, where it was before
or, if it is new as well, at `rootStart`. -/
def originOf (old : List (Node α)) (rootStart : Point α) : (id : String) → (above : List String) → Point α
  | id, [] => ((old.find? (·.id == id)).map (·.start)).getD rootStart
  | id, p :: above =>
    match old.find? (·.id == id) with
    | some o => if o.visible then o.start else originOf old rootStart p above
    | none => originOf old rootStart p above

omit [Scalar α] in
theorem start_anchorOf (old : List (Node α)) (n : Node α) (above : List (Node α)) :
    (Hierarchy.anchorOf (inheritance old n) (above.map (inheritance old))).start =
      originOf old (above.getLast?.getD n).start n.id (above.map (·.id)) := by
  induction above generalizing n with
  | nil =>
    rw [List.map_nil, List.map_nil, Hierarchy.anchorOf, originOf, inheritance]
    cases old.find? (·.id == n.id) <;> rfl
  | cons p above ih =>
    rw [List.map_cons, List.map_cons, Hierarchy.anchorOf, originOf, List.getLast?_cons,
      Option.getD_some, ← ih p, inheritance]
    cases old.find? (·.id == n.id) with
    | none => rfl
    | some o => by_cases hvisible : o.visible = true <;> simp [hvisible]

omit [Scalar α] in
theorem shown_inherit (old : List (Node α)) (h : Hierarchy α) :
    (inherit old h).shown = h.shown.map (inheritance old) :=
  Hierarchy.shown_updateShown (fun n => (inheritance_keeps old n).2.1) h

/-- Where the elements of the new nodes begin, found by ids. -/
theorem map_start_coming (v : View α) (old : Option (Hierarchy α)) (new : Hierarchy α) :
    (v.coming old new).map (·.anchor.start) =
      ((new.layout v.canvas).shown.map (·.id)).lineages.breadthFirst.map fun x =>
        originOf (oldNodes old) new.root.start x.1 x.2 := by
  have hspots := congrArg (List.map fun x : Node α × Option (Node α) × Node α => x.2.2.start)
    (Hierarchy.map_spots (inherit (oldNodes old) (new.layout v.canvas)))
  rw [List.map_map, List.map_map, shown_inherit, Tree.lineages_map, Tree.breadthFirst_map,
    List.map_map] at hspots
  refine hspots.trans ?_
  rw [Tree.lineages_map, Tree.breadthFirst_map, List.map_map]
  refine List.map_congr_left fun x hx => ?_
  have hroot := Tree.getLast_lineages ((Tree.breadthFirst_perm _).mem_iff.mp hx)
  have hstart : (x.2.getLast?.getD x.1).start = new.root.start := by
    rw [hroot, Hierarchy.shown, Tree.value_cut]
    exact Hierarchy.start_root_layout new v.canvas
  rw [Function.comp_apply, Function.comp_apply, ← hstart]
  exact start_anchorOf (oldNodes old) x.1 x.2

theorem sights_coming_congr (v : View α) (old : Option (Hierarchy α)) {new new' : Hierarchy α}
    (hframe : new.frame = new'.frame) :
    (v.coming old new).map Spot.sight = (v.coming old new').map Spot.sight := by
  have hmoving : ∀ k : Hierarchy α, (inherit (oldNodes old) (k.layout v.canvas)).frame = k.frame := by
    intro k
    rw [Hierarchy.frame, inherit, Hierarchy.map_updateShown, Hierarchy.map_layout]
    · rfl
    · exact fun _ _ => rfl
    · intro n
      split <;> rfl
  have hplaces := congrArg (Tree.map (·.2)) (Hierarchy.shown_layout_congr hframe v.canvas)
  rw [Tree.map_map, Tree.map_map] at hplaces
  refine Hierarchy.sights_congr (Hierarchy.outlineOf_congr ?_) ?_
  · exact (hmoving new).trans (hframe.trans (hmoving new').symm)
  · have hfinish : ∀ k : Hierarchy α, (inherit (oldNodes old) (k.layout v.canvas)).shown.map (·.finish) =
        (k.layout v.canvas).shown.map (·.finish) := by
      intro k
      rw [shown_inherit, Tree.map_map]
      refine Tree.map_congr fun n _ => ?_
      exact (inheritance_keeps _ n).2.2
    rw [hfinish, hfinish]
    exact hplaces

/-- **What the new tree takes over** depends on its frame and on where its root begins. -/
theorem map_outset_coming (v : View α) (old : Option (Hierarchy α)) {new new' : Hierarchy α}
    (hframe : new.frame = new'.frame) (hroot : new.root.start = new'.root.start) :
    (v.coming old new).map Spot.outset = (v.coming old new').map Spot.outset := by
  have hids := congrArg (Tree.map (·.1.1)) (Hierarchy.shown_layout_congr hframe v.canvas)
  rw [Tree.map_map, Tree.map_map] at hids
  have hboth : ∀ l : List (Spot α), l.map Spot.outset =
      (l.map Spot.sight).zip (l.map (·.anchor.start)) := by
    intro l
    rw [List.zip_map']
    rfl
  rw [hboth, hboth, v.sights_coming_congr old hframe, map_start_coming, map_start_coming, hroot]
  exact congrArg (fun t : Tree String => List.zip _ (t.lineages.breadthFirst.map _)) hids

/-! ### Passes -/

variable [Printed α]

/-- **A pass reads of the new tree its frame and where its root begins.** -/
theorem pass_congr (v : View α) (old : Option (Hierarchy α)) {new new' : Hierarchy α}
    (hframe : new.frame = new'.frame) (hroot : new.root.start = new'.root.start) :
    (v.reconcile old new).pass = (v.reconcile old new').pass := by
  have hcoming := v.map_outset_coming old hframe hroot
  have htail : (v.coming old new).tail.map Spot.outset = (v.coming old new').tail.map Spot.outset := by
    rw [List.map_tail, List.map_tail, hcoming]
  have htargets : exitTargets (v.leaving old new) (v.coming old new) =
      exitTargets (v.leaving old new') (v.coming old new') := by
    simp only [exitTargets, v.leaving_congr old hframe, map_id_of_outset hcoming]
  rw [pass_reconcile, pass_reconcile, htargets, v.leaving_congr old hframe]
  show v.phase _ _ _ _ _ _ ++ v.phase _ _ _ _ _ _ ++ v.phase _ _ _ _ _ _ = _
  rw [v.phase_congr (fun _ _ => v.createNode_congr) (fun _ _ => v.updateNode_congr) _ hcoming,
    v.phase_congr (fun _ _ => v.createEdge_congr) (fun _ _ => v.updateEdge_congr) _ htail,
    v.phase_congr (fun _ _ => v.createLabel_congr) (fun _ _ => v.updateLabel_congr) _ htail]

/-- **Drawing anew reads what is on show.** -/
theorem restyle_congr (v : View α) {h h' : Hierarchy α} (hframe : h.frame = h'.frame)
    (hfinish : h.shown.map (·.finish) = h'.shown.map (·.finish)) : v.restyle h = v.restyle h' := by
  have hsights := Hierarchy.sights_congr (Hierarchy.outlineOf_congr hframe) hfinish
  have htail : h.spots.tail.map Spot.sight = h'.spots.tail.map Spot.sight := by
    rw [List.map_tail, List.map_tail, hsights]
  rw [restyle, restyle, Spot.map_eq_map (fun _ _ => v.updateNode_congr) hsights,
    Spot.map_eq_map (fun _ _ => v.updateEdge_congr) htail]

end View

end FlowTree
