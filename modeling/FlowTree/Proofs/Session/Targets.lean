import FlowTree.Proofs.Markup.Picture
import FlowTree.Proofs.Session.Lockstep

/-!
# What the texts of a picture refer to

A picture gives ids to the paths of its edges and to the groups of its nodes, and the texts along the paths
refer to these ids.  Paths are numbered, and nodes have their own ids, which come from the labels.  So an id can
stand in two places: a root may have the label that a path is numbered with.  Nothing else can go wrong.

* **`Drawing.ids`** are all ids of a picture, **`Drawing.references`** all that refers to an id.
* **`Drawing.Targets`** says what they are, **`Drawing.targets`** that this holds of every scene in order;
  **`Drawing.Targets.count_eq_one_iff`** and **`Drawing.Targets.nodup_iff`** say when a target is the only one.
* **`Session.known_play`** says that the nodes of a scene are of the document,
  **`Diagram.Knows.exists_root`** that one without a separator in its id is a root.
* **`Session.ids_clash_only_with_roots`** puts these together.
-/

namespace FlowTree

variable {α : Type}

/-! ### Ids and references of a picture -/

namespace Drawing

/-- The ids of the paths for the edges of a scene: they are numbered. -/
def pathIds (s : Scene α) : List String :=
  (List.range (Layers.of s.elements).lines.length).map fun k => Paths.nextId { count := k }

/-- The ids of the nodes of a scene in the order of drawing. -/
def nodeIds (s : Scene α) : List String := (Layers.of s.elements).discs.map (·.1)

theorem nodup_pathIds (s : Scene α) : (pathIds s).Nodup :=
  List.Nodup.map (fun _ _ => Paths.nextId_inj) List.nodup_range

/-- The id of a path has no sign that structures the ids of nodes. -/
theorem signs_of_mem_pathIds {s : Scene α} {id : String} (h : id ∈ pathIds s) :
    ∀ c ∈ id.toList, c ≠ '%' ∧ c ≠ '_' ∧ c ≠ '#' := by
  obtain ⟨k, -, rfl⟩ := List.mem_map.mp h
  have hword : ("grouptree-path-".toList.all fun c => c ≠ '%' ∧ c ≠ '_' ∧ c ≠ '#') = true := by decide
  intro c hc
  have hc : c ∈ ("grouptree-path-" ++ toString k).toList := hc
  rw [String.toList_append, List.mem_append] at hc
  rcases hc with hc | hc
  · exact of_decide_eq_true (List.all_eq_true.mp hword c hc)
  · have hdigit : c.isDigit = true := by
      rw [Nat.toString_eq_ofList_toDigits, String.toList_ofList] at hc
      exact Nat.isDigit_of_mem_toDigits (by decide) (by decide) hc
    refine ⟨?_, ?_, ?_⟩ <;> rintro rfl <;> cases hdigit

variable [Scalar α] [Printed α]

/-- All ids of the picture of a scene, in the order in which they are written. -/
def ids (settings : Settings α) (s : Scene α) : List String :=
  (markup settings s).pieces.flatMap (Piece.values ["id"])

/-- All that refers to an id. -/
def references (settings : Settings α) (s : Scene α) : List String :=
  (markup settings s).pieces.flatMap (Piece.values ["xlink:href"])

/-! A path has an id, a text along it refers to it, and a group has the id of its node. -/

theorem values_title (keys : List String) (tooltip : String) :
    (titlePieces tooltip).flatMap (Piece.values keys) = [] := by
  rw [titlePieces]
  split <;> rfl

theorem values_edge (theme : Theme α) (dashPattern pathId : String) (v : EdgeVisual α) :
    (edge theme dashPattern pathId v).pieces.flatMap (Piece.values ["id"]) = [pathId] ∧
      (edge theme dashPattern pathId v).pieces.flatMap (Piece.values ["xlink:href"]) = [] := by
  simp only [pieces_edge, edgePieces, List.cons_append, List.flatMap_cons, List.flatMap_append, values_title]
  cases v.dashed <;> exact ⟨rfl, rfl⟩

theorem values_words (keys : List String) (s : String) : (Piece.words s).flatMap (Piece.values keys) = [] := by
  rw [Piece.words]
  split <;> rfl

omit [Scalar α] in
theorem values_edgeLabel (theme : Theme α) (pathId : String) (v : EdgeLabelVisual α) :
    (edgeLabel theme pathId v).pieces.flatMap (Piece.values ["id"]) = [] ∧
      (edgeLabel theme pathId v).pieces.flatMap (Piece.values ["xlink:href"]) = ["#" ++ pathId] := by
  simp only [pieces_edgeLabel, edgeLabelPieces, List.cons_append, List.flatMap_cons, List.flatMap_append,
    values_words]
  exact ⟨rfl, rfl⟩

omit [Scalar α] in
theorem values_node (theme : Theme α) (id : String) (v : NodeVisual α) :
    (node theme id v).pieces.flatMap (Piece.values ["id"]) = [id] ∧
      (node theme id v).pieces.flatMap (Piece.values ["xlink:href"]) = [] := by
  simp only [pieces_node, nodePieces, textPieces, List.cons_append, List.flatMap_cons, List.flatMap_append,
    values_title, values_words]
  exact ⟨rfl, rfl⟩

theorem values_page (settings : Settings α) (content : List Markup) {key : String}
    (hkey : key = "id" ∨ key = "xlink:href") :
    (page settings content).pieces.flatMap (Piece.values [key]) =
      (Markup.piecesAll content).flatMap (Piece.values [key]) := by
  simp only [page, Markup.pieces, Markup.piecesAll, List.append_nil, List.cons_append, List.append_assoc,
    List.flatMap_cons, List.flatMap_append]
  rcases hkey with rfl | rfl <;>
  · show [] ++ ([] ++ ([] ++ (_ ++ []))) = _
    simp only [List.nil_append, List.append_nil]

/-! Of parts of one kind either each has one value or none has any. -/

section Parts

variable {β : Type} {keys : List String} {draw : β → Markup}

omit [Scalar α] [Printed α] in
theorem values_parts {name : β → String} (h : ∀ x, (draw x).pieces.flatMap (Piece.values keys) = [name x])
    (l : List β) : (Markup.piecesAll (l.map draw)).flatMap (Piece.values keys) = l.map name := by
  induction l with
  | nil => rfl
  | cons x l ih =>
    rw [List.map_cons, Markup.piecesAll, List.flatMap_append, h, ih]
    rfl

omit [Scalar α] [Printed α] in
theorem values_parts_eq_nil (h : ∀ x, (draw x).pieces.flatMap (Piece.values keys) = []) (l : List β) :
    (Markup.piecesAll (l.map draw)).flatMap (Piece.values keys) = [] := by
  induction l with
  | nil => rfl
  | cons x l ih => rw [List.map_cons, Markup.piecesAll, List.flatMap_append, h, ih, List.nil_append]

end Parts

/-- The ids of a picture are those of the paths and then those of the nodes, all of them and each once.  The texts
refer to the paths, one text to each. -/
structure Targets (settings : Settings α) (s : Scene α) : Prop where
  ids_eq : ids settings s = pathIds s ++ nodeIds s
  references_eq : references settings s = (pathIds s).map ("#" ++ ·)
  nodup_paths : (pathIds s).Nodup
  nodup_nodes : (nodeIds s).Nodup
  mem_nodes : ∀ id, id ∈ nodeIds s ↔ s.Has ⟨.node, id⟩

/-- **What has an id and what refers to it**, in the picture of a scene in which every edge has its label. -/
theorem targets (settings : Settings α) {s : Scene α} (ho : s.Ordered) (hinscribed : s.Inscribed)
    (hsuits : s.Only Visual.Suits) : Targets settings s := by
  have hvisual : ∀ e ∈ s.elements, e.visual.Suits e.key := fun e he => (hsuits e he).visual
  have hlabels := (complete settings ho hinscribed hsuits).labels
  have hlines := (Layers.pairwise_lines hvisual ho).imp fun hlt => ne_of_lt hlt
  -- paths are numbered in the order of the edges, and each label takes the path of its own edge
  have hpaths : (Layers.of s.elements).lines.map
      (fun x => (Paths.after {} ((Layers.of s.elements).lines.map (·.1))).idOf x.1) =
        pathIds s := by
    have hnames := Paths.map_idOf_after hlines (p := {}) fun _ _ => rfl
    rw [List.map_map, List.length_map, ← List.range_eq_range'] at hnames
    exact hnames
  have htexts : (Layers.of s.elements).texts.map
      (fun x => (Paths.after {} ((Layers.of s.elements).lines.map (·.1))).idOf x.1) =
        pathIds s := by
    have hsame := congrArg
      (List.map (Paths.after {} ((Layers.of s.elements).lines.map (·.1))).idOf) hlabels
    rw [List.map_map, List.map_map] at hsame
    exact hsame.trans hpaths
  have hdrawn := parts_of_layers settings hvisual ho hlabels
  refine ⟨?_, ?_, nodup_pathIds s, (Layers.pairwise_discs hvisual ho).imp fun hlt => ne_of_lt hlt,
    fun id => Layers.mem_discs_iff hvisual⟩
  · rw [ids, markup_eq, hdrawn, values_page _ _ (Or.inl rfl), piecesAll_append, piecesAll_append,
      List.flatMap_append, List.flatMap_append, values_parts fun x => (values_edge _ _ _ _).1,
      values_parts_eq_nil fun x => (values_edgeLabel _ _ _).1, values_parts fun x => (values_node _ _ _).1,
      hpaths, List.append_nil]
    rfl
  · rw [references, markup_eq, hdrawn, values_page _ _ (Or.inr rfl), piecesAll_append, piecesAll_append,
      List.flatMap_append, List.flatMap_append, values_parts_eq_nil fun x => (values_edge _ _ _ _).2,
      values_parts fun x => (values_edgeLabel _ _ _).2, values_parts_eq_nil fun x => (values_node _ _ _).2,
      ← htexts, List.map_map, List.nil_append, List.append_nil]
    rfl

/-- What a text refers to is one path, and no other element if no node has its id. -/
theorem Targets.count_eq_one_iff {settings : Settings α} {s : Scene α} (h : Targets settings s) {id : String}
    (hid : id ∈ pathIds s) : (ids settings s).count id = 1 ↔ ¬ s.Has ⟨.node, id⟩ := by
  rw [h.ids_eq, List.count_append, List.count_eq_one_of_mem h.nodup_paths hid, ← h.mem_nodes,
    ← List.count_eq_zero]
  omega

/-- **No id stands in two places** if and only if every path is the only element with its id. -/
theorem Targets.nodup_iff {settings : Settings α} {s : Scene α} (h : Targets settings s) :
    (ids settings s).Nodup ↔ ∀ id ∈ pathIds s, (ids settings s).count id = 1 := by
  constructor
  · intro hnodup id hid
    refine List.count_eq_one_of_mem hnodup ?_
    rw [h.ids_eq]
    exact List.mem_append_left _ hid
  · intro hone
    rw [h.ids_eq, List.nodup_append]
    refine ⟨h.nodup_paths, h.nodup_nodes, ?_⟩
    rintro id hid _ hnode rfl
    exact (h.count_eq_one_iff hid).mp (hone id hid) ((h.mem_nodes id).mp hnode)

end Drawing

/-! ### Nodes of a session -/

/-- A node of the document whose id has no separator is a root, and its id comes from its label. -/
theorem Diagram.Knows.exists_root [Scalar α] {d : Diagram α} {doc : Document α} {settings : Settings α}
    (hserves : d.Serves doc settings) {id : String} (h : d.Knows id) (hroot : NodeId.separator ∉ id.toList) :
    ∃ t ∈ Series.orNoData doc.data, id = NodeId.escapeLabel t.tree.value.label := by
  obtain ⟨r, hr, hid⟩ := h
  obtain ⟨n, hn, rfl⟩ := List.mem_map.mp hid
  obtain ⟨above, hx⟩ := Tree.exists_mem_lineages hn
  have hfollows := (hserves.named r hr).lineal.follows hx
  cases above with
  | cons p above => exact absurd (hfollows.separator_mem_iff.mpr rfl) hroot
  | nil =>
    have hvalue : n = r.tree.tree.value := Tree.getLast_lineages hx
    have hskeleton : r.tree.skeleton ∈ d.runs.map (·.tree.skeleton) := List.mem_map_of_mem hr
    rw [hserves.skeletons, Series.build, List.map_map] at hskeleton
    obtain ⟨t, ht, hsame⟩ := List.mem_map.mp hskeleton
    refine ⟨t, ht, ?_⟩
    have heq : (Hierarchy.ofTree t.tree).skeleton = r.tree.skeleton :=
      (Series.skeleton_runOf settings.canvas t).symm.trans hsame
    have hids := congrArg (fun s => s.value.1) heq
    rw [Hierarchy.skeleton, Hierarchy.skeleton, Tree.value_map, Tree.value_map] at hids
    rw [hvalue]
    refine hids.symm.trans ?_
    cases t.tree
    rfl

namespace Session

variable [Scalar α] [Printed α]

/-- All nodes of a scene are of the document. -/
theorem known_play (doc : Document α) (settings : Settings α) (initial : InitialSelection)
    (steps : List (Step α)) {id : String} (h : (play doc settings initial steps).scene.Has ⟨.node, id⟩) :
    (play doc settings initial steps).diagram.Knows id := by
  have hrun : (play doc settings initial steps).Tied doc settings ∧
      (play doc settings initial steps).Known .node := by
    refine keeps_run (P := fun s => s.Tied doc settings ∧ s.Known .node) (fun s hs st => ?_)
      ⟨tied_start doc initial settings, known_start doc initial settings .node⟩ steps
    obtain ⟨htied, hknown⟩ := hs
    refine ⟨htied.step st, ?_⟩
    exact keeps_step (P := fun s => s.Known .node) hknown (fun ms => hknown.advance htied.agrees.ordered ms)
      (fun _ _ hanswer => hknown.follow htied.agrees htied.serves hanswer) st
  obtain ⟨e, he, hkey⟩ := h
  exact hrun.2 id e (hrun.1.agrees.ordered.get?_eq_some_iff.mpr ⟨he, hkey⟩)

/-- **Ids clash only with roots.**  In every picture of a session, with whatever settings, the ids are those of
the paths and those of the nodes.  They are distinct if and only if every text along a path has this path as its
only target, and it has another one if and only if a node has the id of the path.  Such a node is the root of a
tree, and its label is the id of the path; in a document without such a root all ids are always distinct. -/
theorem ids_clash_only_with_roots (doc : Document α) (settings : Settings α) (initial : InitialSelection)
    (steps : List (Step α)) (drawn : Settings α) :
    Drawing.Targets drawn (play doc settings initial steps).scene ∧
      ((Drawing.ids drawn (play doc settings initial steps).scene).Nodup ↔
        ∀ id ∈ Drawing.pathIds (play doc settings initial steps).scene,
          (Drawing.ids drawn (play doc settings initial steps).scene).count id = 1) ∧
      ∀ id ∈ Drawing.pathIds (play doc settings initial steps).scene,
        ((Drawing.ids drawn (play doc settings initial steps).scene).count id = 1 ↔
            ¬ (play doc settings initial steps).scene.Has ⟨.node, id⟩) ∧
          ((play doc settings initial steps).scene.Has ⟨.node, id⟩ →
            ∃ t ∈ Series.orNoData doc.data, t.tree.value.label = id) := by
  have htied := (tied_start doc initial settings).run steps
  have htargets := Drawing.targets drawn htied.agrees.ordered (inscribed_play doc settings initial steps)
    (suits_play doc settings initial steps)
  refine ⟨htargets, htargets.nodup_iff, fun id hid => ⟨htargets.count_eq_one_iff hid, fun hnode => ?_⟩⟩
  have hsigns := Drawing.signs_of_mem_pathIds hid
  obtain ⟨t, ht, heq⟩ := (known_play doc settings initial steps hnode).exists_root htied.serves
    fun hmem => (hsigns _ hmem).2.1 rfl
  refine ⟨t, ht, NodeId.escapeLabel_inj ?_⟩
  rw [← heq, NodeId.escapeLabel_eq_self hsigns]

/-- A root with the label of the path of the edge below it. -/
def posing : Document Float where
  data := [⟨["1"], .node { label := "grouptree-path-0" } [.node { label := "W" } []]⟩]

theorem ids_clash_posing :
    Drawing.references .default (play posing .default { date := "1" } []).scene = ["#grouptree-path-0"] ∧
      Drawing.ids .default (play posing .default { date := "1" } []).scene =
        ["grouptree-path-0", "grouptree-path-0", "grouptree-path-0_W"] ∧
      ¬ (Drawing.ids .default (play posing .default { date := "1" } []).scene).Nodup := by
  have hids : Drawing.ids .default (play posing .default { date := "1" } []).scene =
      ["grouptree-path-0", "grouptree-path-0", "grouptree-path-0_W"] := by decide +kernel
  refine ⟨by decide +kernel, hids, ?_⟩
  rw [hids]
  decide

end Session

end FlowTree
