import FlowTree.Drawing
import FlowTree.Proofs.Identity
import FlowTree.Proofs.Session.Pictures
import Mathlib.Data.List.Sort

/-!
# What is drawn of a scene

Edges are drawn first, each with a path of its own, then labels, each along the path of the edge that it
names, then nodes.  A label that names no edge is left out; if every label names an edge, none is.

* **`Visual.Suits`** says that a visual is one of the kind that the key names, and that a label names the edge
  of its own id; **`Visual.lasting_suits`** says that this lasts.
* **`Layers.of`** lists elements kind by kind; **`Layers.looks_of`** says that a scene in order is listed so.
* **`Drawing.Paths.after`** are the paths after some edges; **`Drawing.Paths.nodup_idOf_after`** says that they
  have different names.
* **`Drawing.parts_lines`**, **`Drawing.parts_texts`** and **`Drawing.parts_discs`** say what is drawn of the
  elements of one kind, **`Drawing.parts_of_layers`** what is drawn of all of them.
-/

namespace FlowTree

variable {α : Type}

/-! ### Kinds of visuals -/

/-- The visual is one of the kind of the element, and a label follows the edge of its own id. -/
inductive Visual.Suits : ElementKey → Visual α → Prop
  | node (id : String) (look : NodeVisual α) : Suits ⟨.node, id⟩ (.node look)
  | edge (id : String) (look : EdgeVisual α) : Suits ⟨.edge, id⟩ (.edge look)
  | edgeLabel {id : String} {look : EdgeLabelVisual α} (follows : look.pathId = id) :
    Suits ⟨.edgeLabel, id⟩ (.edgeLabel look)

theorem Visual.Suits.withOpacity {key : ElementKey} {look : Visual α} (h : look.Suits key) (a : α) :
    (look.withOpacity a).Suits key := by
  cases h with
  | node id look => exact .node id _
  | edge id look => exact .edge id _
  | edgeLabel follows => exact .edgeLabel follows

theorem Visual.lasting_suits [Scalar α] : Lasting (Visual.Suits (α := α)) where
  interpolate ha hb share := by
    cases ha with
    | node id look => cases hb; exact .node id _
    | edge id look => cases hb; exact .edge id _
    | edgeLabel _ =>
      cases hb with
      | edgeLabel follows => exact .edgeLabel follows
  reappear ha := ha.withOpacity _

theorem Visual.Suits.collapsedToward [Scalar α] {key : ElementKey} {look : Visual α} (h : look.Suits key)
    (p : Point α) : (look.collapsedToward p).Suits key := by
  cases h with
  | node id look => exact .node id _
  | edge id look => exact .edge id _
  | edgeLabel follows => exact .edgeLabel follows

/-! ### The layers of a scene -/

namespace SceneElement

/-- The element as an edge, with the id of its node. -/
def line? (e : SceneElement α) : Option (String × EdgeVisual α) :=
  match e.visual with
  | .edge look => some (e.key.id, look)
  | _ => none

/-- The element as a label, with the id of its node. -/
def text? (e : SceneElement α) : Option (String × EdgeLabelVisual α) :=
  match e.visual with
  | .edgeLabel look => some (e.key.id, look)
  | _ => none

/-- The element as a node, with its id. -/
def disc? (e : SceneElement α) : Option (String × NodeVisual α) :=
  match e.visual with
  | .node look => some (e.key.id, look)
  | _ => none

variable {e : SceneElement α}

theorem key_of_line? (h : e.visual.Suits e.key) {x : String × EdgeVisual α} (hx : e.line? = some x) :
    e.key = ⟨.edge, x.1⟩ := by
  obtain ⟨key, visual, exiting, transition⟩ := e
  cases h <;> cases hx
  rfl

theorem key_of_text? (h : e.visual.Suits e.key) {x : String × EdgeLabelVisual α}
    (hx : e.text? = some x) : e.key = ⟨.edgeLabel, x.1⟩ ∧ x.2.pathId = x.1 := by
  obtain ⟨key, visual, exiting, transition⟩ := e
  cases h <;> cases hx
  next follows => exact ⟨rfl, follows⟩

theorem key_of_disc? (h : e.visual.Suits e.key) {x : String × NodeVisual α} (hx : e.disc? = some x) :
    e.key = ⟨.node, x.1⟩ := by
  obtain ⟨key, visual, exiting, transition⟩ := e
  cases h <;> cases hx
  rfl

theorem isSome_line?_iff (h : e.visual.Suits e.key) : e.line?.isSome = true ↔ e.key.kind = .edge := by
  obtain ⟨key, visual, exiting, transition⟩ := e
  cases h <;> simp [line?]

theorem isSome_text?_iff (h : e.visual.Suits e.key) : e.text?.isSome = true ↔ e.key.kind = .edgeLabel := by
  obtain ⟨key, visual, exiting, transition⟩ := e
  cases h <;> simp [text?]

theorem isSome_disc?_iff (h : e.visual.Suits e.key) : e.disc?.isSome = true ↔ e.key.kind = .node := by
  obtain ⟨key, visual, exiting, transition⟩ := e
  cases h <;> simp [disc?]

end SceneElement

/-- What is drawn of a scene: edges, labels and nodes, each with the id of its node. -/
structure Layers (α : Type) where
  lines : List (String × EdgeVisual α)
  texts : List (String × EdgeLabelVisual α)
  discs : List (String × NodeVisual α)

namespace Layers

/-- The layers of some elements. -/
def of (l : List (SceneElement α)) : Layers α :=
  ⟨l.filterMap (·.line?), l.filterMap (·.text?), l.filterMap (·.disc?)⟩

/-- What the layers show under which keys, in the order of drawing. -/
def looks (k : Layers α) : List (ElementKey × Visual α) :=
  k.lines.map (fun x => (⟨.edge, x.1⟩, .edge x.2))
    ++ k.texts.map (fun x => (⟨.edgeLabel, x.1⟩, .edgeLabel x.2))
    ++ k.discs.map fun x => (⟨.node, x.1⟩, .node x.2)

/-- The elements of one kind stand in the order of their ids. -/
theorem lt_of_before {kind : ElementKind} {a b : String}
    (h : (ElementKey.mk kind a).before ⟨kind, b⟩ = true) : a < b := by
  rcases ElementKey.before_iff.mp h with h | ⟨-, h⟩
  · exact absurd h (lt_irrefl _)
  · exact h

/-! A layer takes from the elements those of one kind, each with its id. -/

section Layer

variable {β : Type} {kind : ElementKind} {take : SceneElement α → Option (String × β)}
  {l : List (SceneElement α)} (hkey : ∀ e ∈ l, ∀ x, take e = some x → e.key = ⟨kind, x.1⟩)
include hkey

theorem mem_layer_iff (htaken : ∀ e ∈ l, e.key.kind = kind → (take e).isSome = true) {id : String} :
    id ∈ (l.filterMap take).map (·.1) ↔ ∃ e ∈ l, e.key = ⟨kind, id⟩ := by
  constructor
  · intro hid
    obtain ⟨x, hx, rfl⟩ := List.mem_map.mp hid
    obtain ⟨e, he, htake⟩ := List.mem_filterMap.mp hx
    exact ⟨e, he, hkey e he x htake⟩
  · rintro ⟨e, he, hid⟩
    obtain ⟨x, hx⟩ := Option.isSome_iff_exists.mp (htaken e he (congrArg ElementKey.kind hid))
    refine List.mem_map.mpr ⟨x, List.mem_filterMap.mpr ⟨e, he, hx⟩, ?_⟩
    exact key_inj ((hkey e he x hx).symm.trans hid)

theorem pairwise_layer (ho : l.Pairwise fun a b => a.key.before b.key = true) :
    ((l.filterMap take).map (·.1)).Pairwise (· < ·) := by
  refine List.pairwise_map.mpr (List.pairwise_filterMap.mpr ?_)
  refine List.Pairwise.imp_of_mem (fun {a b} ha hb hbefore x hx y hy => ?_) ho
  rw [hkey a ha x hx, hkey b hb y hy] at hbefore
  exact lt_of_before hbefore

/-- A layer is empty if no element is of its kind. -/
theorem layer_eq_nil (hother : ∀ e ∈ l, e.key.kind ≠ kind) : l.filterMap take = [] := by
  refine List.filterMap_eq_nil_iff.mpr fun e he => ?_
  cases htake : take e with
  | none => rfl
  | some x => exact absurd (congrArg ElementKey.kind (hkey e he x htake)) (hother e he)

end Layer

section Suited

variable {l : List (SceneElement α)} (hsuits : ∀ e ∈ l, e.visual.Suits e.key)
include hsuits

theorem key_of_line : ∀ e ∈ l, ∀ x, e.line? = some x → e.key = ⟨.edge, x.1⟩ :=
  fun e he _ hx => SceneElement.key_of_line? (hsuits e he) hx

theorem key_of_text : ∀ e ∈ l, ∀ x, e.text? = some x → e.key = ⟨.edgeLabel, x.1⟩ :=
  fun e he _ hx => (SceneElement.key_of_text? (hsuits e he) hx).1

theorem key_of_disc : ∀ e ∈ l, ∀ x, e.disc? = some x → e.key = ⟨.node, x.1⟩ :=
  fun e he _ hx => SceneElement.key_of_disc? (hsuits e he) hx

/-- There is a disc for every node. -/
theorem mem_discs_iff {id : String} : id ∈ (of l).discs.map (·.1) ↔ ∃ e ∈ l, e.key = ⟨.node, id⟩ :=
  mem_layer_iff (key_of_disc hsuits) fun e he hkind => (SceneElement.isSome_disc?_iff (hsuits e he)).mpr hkind

/-- Every label follows the edge of its own id. -/
theorem pathId_of_mem_texts {x : String × EdgeLabelVisual α} (hx : x ∈ (of l).texts) :
    x.2.pathId = x.1 := by
  obtain ⟨e, he, htext⟩ := List.mem_filterMap.mp hx
  exact (SceneElement.key_of_text? (hsuits e he) htext).2

variable (ho : l.Pairwise fun a b => a.key.before b.key = true)
include ho

/-- **Elements in the order of drawing** lie in layers, one over the other. -/
theorem looks_of : (of l).looks = l.map fun e => (e.key, e.visual) := by
  induction l with
  | nil => rfl
  | cons e l ih =>
    obtain ⟨hbefore, hl⟩ := List.pairwise_cons.mp ho
    have hsuits' : ∀ e' ∈ l, e'.visual.Suits e'.key := fun e' he' => hsuits e' (List.mem_cons_of_mem e he')
    have hother {kind : ElementKind} (hlt : kind.rank < e.key.kind.rank) : ∀ e' ∈ l, e'.key.kind ≠ kind := by
      rintro e' he' rfl
      rcases ElementKey.before_iff.mp (hbefore e' he') with h | ⟨h, -⟩ <;> omega
    have hsuit := hsuits e List.mem_cons_self
    rw [List.map_cons, ← ih hsuits' hl]
    obtain ⟨key, visual, exiting, transition⟩ := e
    cases hsuit with
    | edge id look => rfl
    | @edgeLabel id look follows =>
      have hlines : (of l).lines = [] := layer_eq_nil (key_of_line hsuits') (hother Nat.zero_lt_one)
      show looks { of l with texts := (id, look) :: (of l).texts } = _
      rw [looks, looks, hlines]
      rfl
    | node id look =>
      have hlines : (of l).lines = [] := layer_eq_nil (key_of_line hsuits') (hother Nat.zero_lt_two)
      have htexts : (of l).texts = [] := layer_eq_nil (key_of_text hsuits') (hother Nat.one_lt_two)
      show looks { of l with discs := (id, look) :: (of l).discs } = _
      rw [looks, looks, hlines, htexts]
      rfl

theorem pairwise_lines : ((of l).lines.map (·.1)).Pairwise (· < ·) :=
  pairwise_layer (key_of_line hsuits) ho

theorem pairwise_discs : ((of l).discs.map (·.1)).Pairwise (· < ·) :=
  pairwise_layer (key_of_disc hsuits) ho

/-- If every edge has its label and there are no other labels, labels come in the order of the edges. -/
theorem map_texts_eq_map_lines
    (hsame : ∀ id, (∃ e ∈ l, e.key = ⟨.edge, id⟩) ↔ ∃ e ∈ l, e.key = ⟨.edgeLabel, id⟩) :
    (of l).texts.map (·.1) = (of l).lines.map (·.1) := by
  refine List.Pairwise.eq_of_mem_iff (pairwise_layer (key_of_text hsuits) ho) (pairwise_lines hsuits ho)
    fun id => ?_
  rw [of, mem_layer_iff (key_of_text hsuits), mem_layer_iff (key_of_line hsuits), hsame]
  · exact fun e he hkind => (SceneElement.isSome_line?_iff (hsuits e he)).mpr hkind
  · exact fun e he hkind => (SceneElement.isSome_text?_iff (hsuits e he)).mpr hkind

end Suited

end Layers

/-! ### Paths -/

namespace Drawing

namespace Paths

/-- The paths after some edges have been drawn. -/
def after (p : Paths) (edges : List String) : Paths := edges.foldl draw p

/-- The id of the path that was drawn for an edge. -/
def idOf (p : Paths) (edge : String) : String := (p.ids.lookup edge).getD ""

/-- Other edges leave the path of an edge as it is. -/
theorem lookup_after_of_not_mem {edge : String} {edges : List String} (h : edge ∉ edges) (p : Paths) :
    (p.after edges).ids.lookup edge = p.ids.lookup edge := by
  induction edges generalizing p with
  | nil => rfl
  | cons other edges ih =>
    rw [List.mem_cons, not_or] at h
    obtain ⟨hne, hrest⟩ := h
    refine (ih hrest (p.draw other)).trans ?_
    rw [draw, List.lookup_cons, beq_eq_false_iff_ne.mpr hne]

theorem lookup_after_cons {edge : String} {edges : List String} (h : edge ∉ edges) (p : Paths) :
    (p.after (edge :: edges)).ids.lookup edge = some p.nextId := by
  refine (lookup_after_of_not_mem h (p.draw edge)).trans ?_
  rw [draw, List.lookup_cons, beq_self_eq_true]

theorem isSome_lookup_after {edge : String} {edges : List String} (h : edge ∈ edges) (p : Paths) :
    ((p.after edges).ids.lookup edge).isSome = true := by
  induction edges generalizing p with
  | nil => cases h
  | cons other edges ih =>
    by_cases hmem : edge ∈ edges
    · exact ih hmem (p.draw other)
    · obtain rfl := (List.mem_cons.mp h).resolve_right hmem
      rw [lookup_after_cons hmem]
      rfl

/-- New paths are numbered one after the other. -/
theorem map_idOf_after {edges : List String} (hnodup : edges.Nodup) {p : Paths}
    (hnew : ∀ edge ∈ edges, p.ids.lookup edge = none) :
    edges.map (p.after edges).idOf =
      (List.range' p.count edges.length).map fun k => Paths.nextId { count := k } := by
  induction edges generalizing p with
  | nil => rfl
  | cons edge edges ih =>
    obtain ⟨hedge, hnodup⟩ := List.nodup_cons.mp hnodup
    have hcount : (p.draw edge).count = p.count + 1 := by
      rw [draw, hnew edge List.mem_cons_self]
      rfl
    have hrest := ih hnodup (p := p.draw edge) fun other hother => by
      have hne : other ≠ edge := fun heq => hedge (heq ▸ hother)
      rw [draw, List.lookup_cons, beq_eq_false_iff_ne.mpr hne]
      exact hnew other (List.mem_cons_of_mem edge hother)
    rw [hcount] at hrest
    rw [List.length_cons, List.range'_succ, List.map_cons, List.map_cons, ← hrest, idOf,
      lookup_after_cons hedge]
    rfl

theorem nextId_inj {m n : Nat} (h : Paths.nextId { count := m } = Paths.nextId { count := n }) : m = n :=
  NodeId.toString_nat_inj (congrArg String.toList ((String.append_right_inj _).mp h))

/-- **Different edges have paths with different names.** -/
theorem nodup_idOf_after {edges : List String} (hnodup : edges.Nodup) :
    (edges.map (Paths.after {} edges).idOf).Nodup := by
  rw [map_idOf_after hnodup fun _ _ => rfl]
  exact List.Nodup.map (fun _ _ => nextId_inj) List.nodup_range'

end Paths

/-! ### Parts -/

variable [Scalar α] [Printed α] (settings : Settings α)

/-- Every edge is drawn with a path of its own. -/
theorem parts_lines {lines : List (String × EdgeVisual α)} (hnodup : (lines.map (·.1)).Nodup)
    {l : List (SceneElement α)}
    (hl : l.map (fun e => (e.key, e.visual)) = lines.map fun x => (⟨.edge, x.1⟩, .edge x.2))
    (rest : List (SceneElement α)) (paths : Paths) :
    parts settings paths (l ++ rest) =
      lines.map (fun x => edge settings.theme settings.style.dashPattern
          ((paths.after (lines.map (·.1))).idOf x.1) x.2)
        ++ parts settings (paths.after (lines.map (·.1))) rest := by
  induction lines generalizing l paths with
  | nil =>
    obtain rfl := List.map_eq_nil_iff.mp hl
    rfl
  | cons x lines ih =>
    obtain ⟨e, l, rfl, he, hl⟩ := List.map_eq_cons_iff.mp hl
    obtain ⟨hx, hnodup⟩ := List.nodup_cons.mp hnodup
    obtain ⟨hkey, hvisual⟩ := Prod.mk.inj he
    have hid : (paths.after (x.1 :: lines.map (·.1))).idOf x.1 = paths.nextId := by
      rw [Paths.idOf, Paths.lookup_after_cons hx, Option.getD_some]
    rw [List.cons_append, parts, hvisual, hkey, List.map_cons, List.map_cons, List.cons_append, hid]
    exact congrArg _ (ih hnodup hl (paths.draw x.1))

/-- A label that names an edge is drawn along the path of this edge. -/
theorem parts_texts {texts : List (String × EdgeLabelVisual α)} {paths : Paths}
    (hpaths : ∀ x ∈ texts, x.2.pathId = x.1 ∧ (paths.ids.lookup x.1).isSome = true)
    {l : List (SceneElement α)}
    (hl : l.map (fun e => (e.key, e.visual)) = texts.map fun x => (⟨.edgeLabel, x.1⟩, .edgeLabel x.2))
    (rest : List (SceneElement α)) :
    parts settings paths (l ++ rest) =
      texts.map (fun x => edgeLabel settings.theme (paths.idOf x.1) x.2) ++ parts settings paths rest := by
  induction texts generalizing l with
  | nil =>
    obtain rfl := List.map_eq_nil_iff.mp hl
    rfl
  | cons x texts ih =>
    obtain ⟨e, l, rfl, he, hl⟩ := List.map_eq_cons_iff.mp hl
    obtain ⟨-, hvisual⟩ := Prod.mk.inj he
    obtain ⟨hfollows, hsome⟩ := hpaths x List.mem_cons_self
    obtain ⟨pathId, hlookup⟩ := Option.isSome_iff_exists.mp hsome
    have hrest := ih (fun y hy => hpaths y (List.mem_cons_of_mem x hy)) hl
    rw [List.cons_append, parts, hvisual]
    simp only [hfollows, hlookup]
    rw [hrest, List.map_cons, List.cons_append, Paths.idOf, hlookup, Option.getD_some]

/-- Nodes are drawn as they are. -/
theorem parts_discs {discs : List (String × NodeVisual α)} {l : List (SceneElement α)}
    (hl : l.map (fun e => (e.key, e.visual)) = discs.map fun x => (⟨.node, x.1⟩, .node x.2))
    (paths : Paths) :
    parts settings paths l = discs.map fun x => node settings.theme x.1 x.2 := by
  induction discs generalizing l with
  | nil =>
    obtain rfl := List.map_eq_nil_iff.mp hl
    rfl
  | cons x discs ih =>
    obtain ⟨e, l, rfl, he, hl⟩ := List.map_eq_cons_iff.mp hl
    obtain ⟨hkey, hvisual⟩ := Prod.mk.inj he
    rw [parts, hvisual, hkey, ih hl]
    rfl

/-- The picture of a scene with the given parts. -/
def page (content : List Markup) : Markup :=
  let canvas := settings.canvas
  let width := Printed.plain canvas.width
  let height := Printed.plain canvas.height
  .element "svg"
    [("xmlns", .verbatim "http://www.w3.org/2000/svg"),
      ("xmlns:xlink", .verbatim "http://www.w3.org/1999/xlink"), ("width", .verbatim width),
      ("height", .verbatim height), ("viewBox", .verbatim ("0 0 " ++ width ++ " " ++ height))]
    [.empty "rect"
        [("width", .verbatim "100%"), ("height", .verbatim "100%"),
          ("fill", .verbatim settings.page.background)],
      .element "g"
        [("class", .verbatim "grouptree"),
          ("transform", translate canvas.margin.left canvas.margin.top)]
        content]

theorem markup_eq (scene : Scene α) : markup settings scene = page settings (parts settings {} scene.elements) :=
  rfl

/-- **What is drawn of elements in layers**, of which every edge has its label and there are no other labels. -/
theorem parts_of_layers {l : List (SceneElement α)} (hsuits : ∀ e ∈ l, e.visual.Suits e.key)
    (ho : l.Pairwise fun a b => a.key.before b.key = true)
    (hsame : (Layers.of l).texts.map (·.1) = (Layers.of l).lines.map (·.1)) :
    parts settings {} l =
      (Layers.of l).lines.map (fun x => edge settings.theme settings.style.dashPattern
          ((Paths.after {} ((Layers.of l).lines.map (·.1))).idOf x.1) x.2)
        ++ (Layers.of l).texts.map (fun x => edgeLabel settings.theme
          ((Paths.after {} ((Layers.of l).lines.map (·.1))).idOf x.1) x.2)
        ++ (Layers.of l).discs.map fun x => node settings.theme x.1 x.2 := by
  have hnodup := (Layers.pairwise_lines hsuits ho).imp fun hlt => ne_of_lt hlt
  have hlooks := Layers.looks_of hsuits ho
  have hpaths : ∀ x ∈ (Layers.of l).texts, x.2.pathId = x.1 ∧
      ((Paths.after {} ((Layers.of l).lines.map (·.1))).ids.lookup x.1).isSome = true := by
    intro x hx
    refine ⟨Layers.pathId_of_mem_texts hsuits hx, Paths.isSome_lookup_after ?_ _⟩
    rw [← hsame]
    exact List.mem_map_of_mem hx
  generalize Layers.of l = k at *
  obtain ⟨upper, nodes, rfl, hupper, hnodes⟩ := List.map_eq_append_iff.mp hlooks.symm
  obtain ⟨edges, labels, rfl, hedges, hlabels⟩ := List.map_eq_append_iff.mp hupper
  rw [List.append_assoc, parts_lines settings hnodup hedges, parts_texts settings hpaths hlabels,
    parts_discs settings hnodes, List.append_assoc]

end Drawing

end FlowTree
