import FlowTree.Drawing
import FlowTree.Proofs.Markup.Splitting
import FlowTree.Proofs.Numerals

/-!
# A picture carries its texts

The text of a picture is split into its pieces again, and these hold every text of the scene as it was, whatever
characters are in it.  Only the texts of the settings are written word for word, and these must not have marks.

* **`Settings.Plain`** says that the texts of the settings have no marks; **`Settings.plain_default`** says that
  those that hold when nothing is set have none.
* **`Drawing.pieces`** are the pieces that a scene should have: **`Drawing.edgePieces`**,
  **`Drawing.edgeLabelPieces`** and **`Drawing.nodePieces`** are those of its elements.
* **`Drawing.pieces_markup`** says that the pieces of a picture are those of the scene.
* **`Drawing.settingTexts`** are the texts of the settings in a picture; **`Drawing.formed_markup_iff`** says that
  nothing else in it could have to be escaped, **`Drawing.clean_markup`** that then nothing has to be.
* **`Drawing.svg_carries_texts`** puts these together.
-/

namespace FlowTree

variable {α : Type}

/-! ### Settings without marks -/

/-- The font and the colours have no marks. -/
structure Theme.Plain (theme : Theme α) : Prop where
  fontFamily : Xml.Plain theme.fontFamily
  nodeFill : Xml.Plain theme.nodeFill
  nodeFillWithChildren : Xml.Plain theme.nodeFillWithChildren
  nodeStroke : Xml.Plain theme.nodeStroke
  textColor : Xml.Plain theme.textColor
  lineColor : Xml.Plain theme.lineColor
  edgeLabelColor : Xml.Plain theme.edgeLabelColor

/-- The texts of the settings that are drawn have no marks. -/
structure Settings.Plain (settings : Settings α) : Prop where
  theme : settings.theme.Plain
  background : Xml.Plain settings.page.background
  dashPattern : Xml.Plain settings.style.dashPattern

section Default

variable [Scalar α]

theorem Theme.plain_classic : (Theme.classic : Theme α).Plain where
  fontFamily := (by decide : Xml.Plain "sans-serif")
  nodeFill := (by decide : Xml.Plain "#FFFFFF")
  nodeFillWithChildren := (by decide : Xml.Plain "#B0C4DE")
  nodeStroke := (by decide : Xml.Plain "#4682B4")
  textColor := (by decide : Xml.Plain "#333333")
  lineColor := (by decide : Xml.Plain "#CCCCCC")
  edgeLabelColor := (by decide : Xml.Plain "#555555")

theorem Settings.plain_default : (Settings.default : Settings α).Plain where
  theme := Theme.plain_classic
  background := (by decide : Xml.Plain "#FFFFFF")
  dashPattern := (by decide : Xml.Plain "5,5")

end Default

/-! ### The pieces of a scene -/

namespace Drawing

variable [Printed α]

/-- The attributes of all texts. -/
def fontContent (theme : Theme α) (fill : String) : List (String × String) :=
  [("font-family", theme.fontFamily), ("font-size", Printed.plain theme.fontSize), ("fill", fill)]

/-- A shift of a group. -/
def shift (x y : α) : String := "translate(" ++ Printed.fixed 2 x ++ "," ++ Printed.fixed 2 y ++ ")"

/-- A text of a node. -/
def textPieces (theme : Theme α) (attributes : List (String × String)) (s : String) : List Piece :=
  .opening "text" (attributes ++ fontContent theme theme.textColor) :: Piece.words s ++ [.closing "text"]

/-- A title, if there is something to say. -/
def titlePieces (tooltip : String) : List Piece :=
  if tooltip.isEmpty then [] else [.opening "title" [], .text tooltip, .closing "title"]

/-- An edge: its class and its tooltip. -/
def edgePieces [Scalar α] (theme : Theme α) (dashPattern pathId : String) (v : EdgeVisual α) : List Piece :=
  .opening "path"
      ([("id", pathId), ("class", v.className), ("d", v.path.pathData), ("fill", "none"),
        ("stroke", theme.lineColor), ("stroke-width", Printed.fixed 2 v.strokeWidth),
        ("opacity", Printed.fixed 3 v.opacity)]
        ++ if v.dashed then [("stroke-dasharray", dashPattern)] else [])
    :: titlePieces v.tooltip ++ [.closing "path"]

/-- The text along an edge. -/
def edgeLabelPieces (theme : Theme α) (pathId : String) (v : EdgeLabelVisual α) : List Piece :=
  .opening "text"
      ([("dominant-baseline", "central"), ("text-anchor", "middle")]
        ++ fontContent theme theme.edgeLabelColor ++ [("fill-opacity", Printed.fixed 3 v.opacity)])
    :: .opening "textPath"
      [("class", "edge_info_text"), ("startOffset", "50%"), ("xlink:href", "#" ++ pathId)]
    :: Piece.words v.text ++ [.closing "textPath", .closing "text"]

/-- A node: its id, its label, its value with the unit and its tooltip. -/
def nodePieces (theme : Theme α) (id : String) (v : NodeVisual α) : List Piece :=
  .opening "g"
      [("class", nodeClass v.kind), ("id", id), ("transform", shift v.position.x v.position.y),
        ("opacity", Printed.fixed 3 v.opacity)]
    :: .empty "circle"
      [("r", Printed.fixed 2 v.radius),
        ("fill", if v.collapsed then theme.nodeFillWithChildren else theme.nodeFill),
        ("stroke", theme.nodeStroke), ("stroke-width", "2")]
    :: textPieces theme
        [("class", "grouptree__nodelabel"), ("x", Printed.fixed 2 v.labelDx), ("dy", ".35em"),
          ("text-anchor", v.labelAnchor.name)] v.label
    ++ textPieces theme
        [("class", "grouptree__pressurelabel"), ("x", "0"), ("dy", "-.05em"), ("text-anchor", "middle")]
        v.valueText
    ++ textPieces theme
        [("class", "grouptree__pressureunit"), ("x", "0"), ("dy", ".04em"),
          ("dominant-baseline", "text-before-edge"), ("text-anchor", "middle")] v.unitText
    ++ titlePieces v.tooltip ++ [.closing "g"]

/-- The pieces of some elements, given the paths drawn so far; a label is left out if the path of its edge has
not been drawn. -/
def partPieces [Scalar α] (settings : Settings α) : Paths → List (SceneElement α) → List Piece
  | _, [] => []
  | paths, e :: rest =>
    match e.visual with
    | .edge v =>
      edgePieces settings.theme settings.style.dashPattern paths.nextId v
        ++ partPieces settings (paths.draw e.key.id) rest
    | .edgeLabel v =>
      (match paths.ids.lookup v.pathId with
        | some pathId => edgeLabelPieces settings.theme pathId v
        | none => [])
        ++ partPieces settings paths rest
    | .node v => nodePieces settings.theme e.key.id v ++ partPieces settings paths rest

/-- The pieces of a scene on its canvas. -/
def pieces [Scalar α] (settings : Settings α) (scene : Scene α) : List Piece :=
  let canvas := settings.canvas
  let width := Printed.plain canvas.width
  let height := Printed.plain canvas.height
  .opening "svg"
      [("xmlns", "http://www.w3.org/2000/svg"), ("xmlns:xlink", "http://www.w3.org/1999/xlink"),
        ("width", width), ("height", height), ("viewBox", "0 0 " ++ width ++ " " ++ height)]
    :: .empty "rect" [("width", "100%"), ("height", "100%"), ("fill", settings.page.background)]
    :: .opening "g"
      [("class", "grouptree"), ("transform", shift canvas.margin.left canvas.margin.top)]
    :: partPieces settings {} scene.elements ++ [.closing "g", .closing "svg"]

/-! The pieces of the picture are those of the scene. -/

theorem piecesAll_append (xs ys : List Markup) :
    Markup.piecesAll (xs ++ ys) = Markup.piecesAll xs ++ Markup.piecesAll ys := by
  induction xs with
  | nil => rfl
  | cons m xs ih => rw [List.cons_append, Markup.piecesAll, Markup.piecesAll, ih, List.append_assoc]

theorem piecesAll_title (tooltip : String) : Markup.piecesAll (title tooltip) = titlePieces tooltip := by
  rw [title, titlePieces]
  cases h : tooltip.isEmpty with
  | true => rfl
  | false =>
    simp only [Bool.false_eq_true, if_false, Markup.piecesAll, Markup.pieces, Piece.words, h]
    rfl

theorem pieces_edge [Scalar α] (theme : Theme α) (dashPattern pathId : String) (v : EdgeVisual α) :
    (edge theme dashPattern pathId v).pieces = edgePieces theme dashPattern pathId v := by
  rw [edge, Markup.pieces, piecesAll_title, edgePieces]
  cases v.dashed <;> rfl

theorem pieces_edgeLabel (theme : Theme α) (pathId : String) (v : EdgeLabelVisual α) :
    (edgeLabel theme pathId v).pieces = edgeLabelPieces theme pathId v := by
  simp only [edgeLabel, Markup.pieces, Markup.piecesAll, List.append_nil, edgeLabelPieces, List.cons_append,
    List.append_assoc]
  rfl

theorem pieces_node (theme : Theme α) (id : String) (v : NodeVisual α) :
    (node theme id v).pieces = nodePieces theme id v := by
  simp only [node, Markup.pieces, piecesAll_append, piecesAll_title, Markup.piecesAll, List.append_nil, nodePieces,
    textPieces, List.cons_append, List.append_assoc]
  rfl

theorem piecesAll_parts [Scalar α] (settings : Settings α) (paths : Paths) (l : List (SceneElement α)) :
    Markup.piecesAll (parts settings paths l) = partPieces settings paths l := by
  induction l generalizing paths with
  | nil => rfl
  | cons e l ih =>
    rw [parts, partPieces]
    cases e.visual with
    | edge v =>
      simp only [Markup.piecesAll, pieces_edge, ih]
    | node v =>
      simp only [Markup.piecesAll, pieces_node, ih]
    | edgeLabel v =>
      simp only
      cases paths.ids.lookup v.pathId with
      | some pathId => simp only [Markup.piecesAll, pieces_edgeLabel, ih]
      | none => simp only [ih, List.nil_append]

theorem pieces_markup [Scalar α] (settings : Settings α) (scene : Scene α) :
    (markup settings scene).pieces = pieces settings scene := by
  simp only [markup, Markup.pieces, Markup.piecesAll, piecesAll_parts, List.append_nil, pieces, List.cons_append,
    List.append_assoc]
  rfl

/-! ### The texts of the settings -/

/-- The texts of the settings in what is written, each with the attribute that it is a value of. -/
def fontTexts (theme : Theme α) (fill : String) : List (String × String) :=
  [("font-family", theme.fontFamily), ("fill", fill)]

/-- Those in an edge. -/
def edgeTexts (theme : Theme α) (dashPattern : String) (v : EdgeVisual α) : List (String × String) :=
  ("stroke", theme.lineColor) :: if v.dashed then [("stroke-dasharray", dashPattern)] else []

/-- Those in a node. -/
def nodeTexts (theme : Theme α) (v : NodeVisual α) : List (String × String) :=
  [("fill", if v.collapsed then theme.nodeFillWithChildren else theme.nodeFill), ("stroke", theme.nodeStroke)]
    ++ fontTexts theme theme.textColor

/-- Those in some elements, given the paths drawn so far. -/
def partTexts (settings : Settings α) : Paths → List (SceneElement α) → List (String × String)
  | _, [] => []
  | paths, e :: rest =>
    match e.visual with
    | .edge v =>
      edgeTexts settings.theme settings.style.dashPattern v ++ partTexts settings (paths.draw e.key.id) rest
    | .edgeLabel v =>
      (match paths.ids.lookup v.pathId with
        | some _ => fontTexts settings.theme settings.theme.edgeLabelColor
        | none => [])
        ++ partTexts settings paths rest
    | .node v => nodeTexts settings.theme v ++ partTexts settings paths rest

/-- The texts of the settings in the picture of a scene, each with the attribute that it is a value of. -/
def settingTexts (settings : Settings α) (scene : Scene α) : List (String × String) :=
  ("fill", settings.page.background) :: partTexts settings {} scene.elements

/-! Everything else in a picture is clean, whatever is required of the attributes as long as clean ones meet it.  So
one statement about these texts serves for what is clean and for what can be read. -/

section Formed

omit [Printed α] in
theorem formed_title {P : String × AttributeValue → Prop} (tooltip : String) :
    ∀ m ∈ title tooltip, m.Formed P := by
  intro m hm
  rw [title] at hm
  split at hm
  · cases hm
  · rw [List.mem_singleton.mp hm]
    exact .leaf tooltip (by decide) (List.forall_mem_nil _)

omit [Printed α] in
theorem title_ne (tooltip s : String) : title tooltip ≠ [.text s] := by
  rw [title]
  split <;> simp

variable (hnumbers : Printed.IsPlain α) {P : String × AttributeValue → Prop}
  (hclean : ∀ key v, AttributeValue.Clean v → P (key, v))
include hnumbers

theorem plain_pathData [Scalar α] (c : Curve α) : Xml.Plain c.pathData := by
  have hplace (x y : α) : Xml.Plain (Printed.fixed 2 x ++ " " ++ Printed.fixed 2 y) :=
    ((hnumbers.fixed 2 x).append (by decide)).append (hnumbers.fixed 2 y)
  have hstart : Xml.Plain "M " := by decide
  have hcurve : Xml.Plain " C " := by decide
  have hnext : Xml.Plain ", " := by decide
  exact ((((((hstart.append (hplace _ _)).append hcurve).append (hplace _ _)).append hnext).append
    (hplace _ _)).append hnext).append (hplace _ _)

theorem clean_translate (x y : α) : (translate x y).Clean := by
  have hopen : Xml.Plain "translate(" := by decide
  exact (((hopen.append (hnumbers.fixed 2 x)).append (by decide)).append (hnumbers.fixed 2 y)).append (by decide)

include hclean

theorem formed_fontAttributes_iff (theme : Theme α) (fill : String) :
    MarkupAttributes.Formed P (fontAttributes theme fill) ↔
      ∀ x ∈ fontTexts theme fill, P (x.1, .verbatim x.2) := by
  have hsize := hclean "font-size" (.verbatim (Printed.plain theme.fontSize)) (hnumbers.plain _)
  simp (disch := decide) only [fontAttributes, fontTexts, MarkupAttributes.formed_cons_iff,
    MarkupAttributes.formed_nil, List.forall_mem_cons, hsize, true_and]
  simp

theorem formed_edge_iff [Scalar α] (theme : Theme α) (dashPattern pathId : String) (v : EdgeVisual α) :
    (edge theme dashPattern pathId v).Formed P ↔
      ∀ x ∈ edgeTexts theme dashPattern v, P (x.1, .verbatim x.2) := by
  have hid := hclean "id" (.text pathId) trivial
  have hclass := hclean "class" (.text v.className) trivial
  have hd := hclean "d" (.verbatim v.path.pathData) (plain_pathData hnumbers _)
  have hfill := hclean "fill" (.verbatim "none") (by decide)
  have hwidth := hclean "stroke-width" (.verbatim (Printed.fixed 2 v.strokeWidth)) (hnumbers.fixed 2 _)
  have hopacity := hclean "opacity" (opacityValue v.opacity) (hnumbers.fixed 3 _)
  rw [edge, Markup.formed_element_iff (by decide) (title_ne v.tooltip), and_iff_left (formed_title v.tooltip),
    MarkupAttributes.formed_append_iff]
  simp (disch := decide) only [MarkupAttributes.formed_cons_iff, MarkupAttributes.formed_nil, edgeTexts,
    List.forall_mem_cons, hid, hclass, hd, hfill, hwidth, hopacity, true_and, and_true]
  cases v.dashed
  · simp
  · simp (disch := decide) [MarkupAttributes.formed_cons_iff]

theorem formed_edgeLabel_iff (theme : Theme α) (pathId : String) (v : EdgeLabelVisual α) :
    (edgeLabel theme pathId v).Formed P ↔
      ∀ x ∈ fontTexts theme theme.edgeLabelColor, P (x.1, .verbatim x.2) := by
  have hbaseline := hclean "dominant-baseline" (.verbatim "central") (by decide)
  have hanchor := hclean "text-anchor" (.verbatim "middle") (by decide)
  have hopacity := hclean "fill-opacity" (opacityValue v.opacity) (hnumbers.fixed 3 _)
  have hclass := hclean "class" (.verbatim "edge_info_text") (by decide)
  have hoffset := hclean "startOffset" (.verbatim "50%") (by decide)
  have href := hclean "xlink:href" (.text ("#" ++ pathId)) trivial
  rw [edgeLabel, Markup.formed_element_iff (by decide) (by simp), List.forall_mem_singleton,
    Markup.formed_leaf_iff (by decide), MarkupAttributes.formed_append_iff, MarkupAttributes.formed_append_iff,
    formed_fontAttributes_iff hnumbers hclean]
  simp (disch := decide) only [MarkupAttributes.formed_cons_iff, MarkupAttributes.formed_nil, hbaseline, hanchor,
    hopacity, hclass, hoffset, href, true_and, and_true]

/-- A text of a node. -/
theorem formed_nodeText_iff (theme : Theme α) {attributes : MarkupAttributes} (h : attributes.Clean) (s : String) :
    (Markup.element "text" (attributes ++ fontAttributes theme theme.textColor) [.text s]).Formed P ↔
      ∀ x ∈ fontTexts theme theme.textColor, P (x.1, .verbatim x.2) := by
  rw [Markup.formed_leaf_iff (by decide), MarkupAttributes.formed_append_iff,
    and_iff_right (h.mono fun a => hclean a.1 a.2), formed_fontAttributes_iff hnumbers hclean]

theorem formed_node_iff (theme : Theme α) (id : String) (v : NodeVisual α) :
    (node theme id v).Formed P ↔ ∀ x ∈ nodeTexts theme v, P (x.1, .verbatim x.2) := by
  have hkind : Xml.Plain (nodeClass v.kind) := by cases v.kind <;> decide
  have hside : Xml.Plain v.labelAnchor.name := by cases v.labelAnchor <;> decide
  have hgroup : MarkupAttributes.Clean [("class", .verbatim (nodeClass v.kind)), ("id", .text id),
      ("transform", translate v.position.x v.position.y), ("opacity", opacityValue v.opacity)] :=
    .cons (by decide) hkind (.cons (by decide) trivial (.cons (by decide) (clean_translate hnumbers _ _)
      (.cons (by decide) (hnumbers.fixed 3 _) .nil)))
  have hlabel : MarkupAttributes.Clean [("class", .verbatim "grouptree__nodelabel"),
      ("x", .verbatim (Printed.fixed 2 v.labelDx)), ("dy", .verbatim ".35em"),
      ("text-anchor", .verbatim v.labelAnchor.name)] :=
    .cons (by decide) (by decide) (.cons (by decide) (hnumbers.fixed 2 _)
      (.cons (by decide) (by decide) (.cons (by decide) hside .nil)))
  have hvalue : MarkupAttributes.Clean [("class", .verbatim "grouptree__pressurelabel"), ("x", .verbatim "0"),
      ("dy", .verbatim "-.05em"), ("text-anchor", .verbatim "middle")] := by decide
  have hunit : MarkupAttributes.Clean [("class", .verbatim "grouptree__pressureunit"), ("x", .verbatim "0"),
      ("dy", .verbatim ".04em"), ("dominant-baseline", .verbatim "text-before-edge"),
      ("text-anchor", .verbatim "middle")] := by decide
  have hradius := hclean "r" (.verbatim (Printed.fixed 2 v.radius)) (hnumbers.fixed 2 _)
  have hwidth := hclean "stroke-width" (.verbatim "2") (by decide)
  rw [node, Markup.formed_element_iff (by decide) (by simp), List.forall_mem_append,
    and_iff_left (formed_title v.tooltip), and_iff_right (hgroup.mono fun a => hclean a.1 a.2), nodeTexts,
    List.forall_mem_append]
  simp (disch := decide) only [List.forall_mem_cons, Markup.formed_empty_iff, MarkupAttributes.formed_cons_iff,
    MarkupAttributes.formed_nil, hradius, hwidth, formed_nodeText_iff hnumbers hclean theme hlabel,
    formed_nodeText_iff hnumbers hclean theme hvalue, formed_nodeText_iff hnumbers hclean theme hunit]
  simp [and_assoc]

variable [Scalar α] (settings : Settings α)

theorem formed_parts_iff (paths : Paths) (l : List (SceneElement α)) :
    (∀ m ∈ parts settings paths l, m.Formed P) ↔
      ∀ x ∈ partTexts settings paths l, P (x.1, .verbatim x.2) := by
  induction l generalizing paths with
  | nil => exact iff_of_true (List.forall_mem_nil _) (List.forall_mem_nil _)
  | cons e l ih =>
    rw [parts, partTexts]
    cases e.visual with
    | edge v =>
      simp only [List.forall_mem_cons, List.forall_mem_append, formed_edge_iff hnumbers hclean, ih]
    | node v =>
      simp only [List.forall_mem_cons, List.forall_mem_append, formed_node_iff hnumbers hclean, ih]
    | edgeLabel v =>
      simp only
      cases paths.ids.lookup v.pathId with
      | some pathId =>
        simp only [List.forall_mem_cons, List.forall_mem_append, formed_edgeLabel_iff hnumbers hclean, ih]
      | none => simp only [List.nil_append, ih]

omit hnumbers hclean in
theorem parts_ne (paths : Paths) (l : List (SceneElement α)) (s : String) :
    parts settings paths l ≠ [.text s] := by
  induction l generalizing paths with
  | nil => simp [parts]
  | cons e l ih =>
    rw [parts]
    cases e.visual with
    | edge v => simp [edge]
    | node v => simp [node]
    | edgeLabel v =>
      simp only
      cases paths.ids.lookup v.pathId with
      | some pathId => simp [edgeLabel]
      | none => exact ih paths

/-- **A picture is as it should be** if and only if the texts of the settings in it are: nothing else is written
that could have to be escaped. -/
theorem formed_markup_iff (scene : Scene α) :
    (markup settings scene).Formed P ↔ ∀ x ∈ settingTexts settings scene, P (x.1, .verbatim x.2) := by
  have hzero : Xml.Plain "0 0 " := by decide
  have hroot : MarkupAttributes.Clean [("xmlns", .verbatim "http://www.w3.org/2000/svg"),
      ("xmlns:xlink", .verbatim "http://www.w3.org/1999/xlink"),
      ("width", .verbatim (Printed.plain settings.canvas.width)),
      ("height", .verbatim (Printed.plain settings.canvas.height)),
      ("viewBox", .verbatim ("0 0 " ++ Printed.plain settings.canvas.width ++ " "
        ++ Printed.plain settings.canvas.height))] :=
    .cons (by decide) (by decide) (.cons (by decide) (by decide) (.cons (by decide) (hnumbers.plain _)
      (.cons (by decide) (hnumbers.plain _) (.cons (by decide)
        (((hzero.append (hnumbers.plain _)).append (by decide)).append (hnumbers.plain _)) .nil))))
  have hgroup : MarkupAttributes.Clean [("class", .verbatim "grouptree"),
      ("transform", translate settings.canvas.margin.left settings.canvas.margin.top)] :=
    .cons (by decide) (by decide) (.cons (by decide) (clean_translate hnumbers _ _) .nil)
  have hwidth := hclean "width" (.verbatim "100%") (by decide)
  have hheight := hclean "height" (.verbatim "100%") (by decide)
  rw [markup, Markup.formed_element_iff (by decide) (by simp),
    and_iff_right (hroot.mono fun a => hclean a.1 a.2), settingTexts, List.forall_mem_cons, List.forall_mem_cons,
    and_iff_left (List.forall_mem_nil _), Markup.formed_empty_iff (by decide),
    Markup.formed_element_iff (by decide) (parts_ne settings _ _),
    and_iff_right (hgroup.mono fun a => hclean a.1 a.2), formed_parts_iff hnumbers hclean]
  simp (disch := decide) only [MarkupAttributes.formed_cons_iff, MarkupAttributes.formed_nil, hwidth, hheight,
    true_and, and_true, List.forall_mem_cons]

end Formed

/-! ### Settings without marks need no escape -/

/-- All texts of the settings, each with the attribute that it can be a value of. -/
def allTexts (settings : Settings α) : List (String × String) :=
  [("fill", settings.page.background), ("stroke", settings.theme.lineColor),
    ("stroke-dasharray", settings.style.dashPattern), ("font-family", settings.theme.fontFamily),
    ("fill", settings.theme.edgeLabelColor), ("fill", settings.theme.nodeFillWithChildren),
    ("fill", settings.theme.nodeFill), ("stroke", settings.theme.nodeStroke), ("fill", settings.theme.textColor)]

section Subset

variable (settings : Settings α)

omit [Printed α]

theorem edgeTexts_subset (v : EdgeVisual α) :
    edgeTexts settings.theme settings.style.dashPattern v ⊆ allTexts settings := by
  rw [edgeTexts]
  split <;> simp [allTexts]

theorem nodeTexts_subset (v : NodeVisual α) : nodeTexts settings.theme v ⊆ allTexts settings := by
  rw [nodeTexts]
  split <;> simp [allTexts, fontTexts]

theorem partTexts_subset (paths : Paths) (l : List (SceneElement α)) :
    partTexts settings paths l ⊆ allTexts settings := by
  induction l generalizing paths with
  | nil => exact List.nil_subset _
  | cons e l ih =>
    rw [partTexts]
    cases e.visual with
    | edge v => exact List.append_subset.mpr ⟨edgeTexts_subset settings v, ih _⟩
    | node v => exact List.append_subset.mpr ⟨nodeTexts_subset settings v, ih _⟩
    | edgeLabel v =>
      refine List.append_subset.mpr ⟨?_, ih _⟩
      split <;> simp [allTexts, fontTexts]

theorem settingTexts_subset (scene : Scene α) : settingTexts settings scene ⊆ allTexts settings :=
  List.cons_subset.mpr ⟨List.mem_cons_self, partTexts_subset settings _ _⟩

end Subset

omit [Printed α] in
theorem plain_of_mem_allTexts {settings : Settings α} (h : settings.Plain) :
    ∀ x ∈ allTexts settings, Xml.Plain x.2 := by
  obtain ⟨⟨hfont, hfill, hparent, hstroke, htext, hline, hlabel⟩, hbackground, hdash⟩ := h
  simp only [allTexts, List.forall_mem_cons]
  exact ⟨hbackground, hline, hdash, hfont, hlabel, hparent, hfill, hstroke, htext, List.forall_mem_nil _⟩

/-- **A picture is clean**, if the settings are plain. -/
theorem clean_markup [Scalar α] (hnumbers : Printed.IsPlain α) {settings : Settings α} (h : settings.Plain)
    (scene : Scene α) : (markup settings scene).Clean :=
  (formed_markup_iff hnumbers (fun _ _ hv => hv) settings scene).mpr fun x hx =>
    plain_of_mem_allTexts h x (settingTexts_subset settings scene hx)

/-! ### The picture -/

/-- **A picture carries every text of its scene unharmed**, whatever characters are in it: the text of the
picture is split into the pieces of the scene, and into nothing else. -/
theorem svg_carries_texts {settings : Settings Float} (h : settings.Plain) (scene : Scene Float) :
    Piece.split? (svg settings scene) = some (pieces settings scene) := by
  rw [svg, Piece.split?_render (clean_markup Printed.isPlain_float h scene), pieces_markup]

/-- A node with its edge and the label of the edge, which say what would be markup; another label has no edge. -/
def marked : Scene Float where
  elements :=
    [⟨⟨.edge, "a<b"⟩, .edge ⟨⟨.origin, .origin⟩, 2, true, 1, "flow \"in\" & out", "Rate: <b>5</b>"⟩, false, none⟩,
      ⟨⟨.edgeLabel, "a<b"⟩, .edgeLabel ⟨"5 < 7 &lt; 9", "a<b", 1⟩, false, none⟩,
      ⟨⟨.edgeLabel, "c"⟩, .edgeLabel ⟨"nowhere", "c", 1⟩, true, none⟩,
      ⟨⟨.node, "a<b"⟩, .node ⟨.origin, 15, 1, "Tom's </text>", .start, 21, "1 > 0", "", "&amp;amp;", .well, false,
        false⟩, false, none⟩]
  clock := 0

/-- What stands between tags. -/
def between? : Piece → Option String
  | .text s => some s
  | _ => none

/-- The value of an attribute at the beginning of an element. -/
def value? (key : String) : Piece → Option String
  | .opening _ attributes => attributes.lookup key
  | _ => none

/-- What looks like a tag or an entity is read as it was; there is no piece for a unit that is empty, nor for the
label without an edge. -/
theorem svg_carries_texts_marked :
    (Settings.default : Settings Float).Plain ∧
      Piece.split? (svg .default marked) = some (pieces .default marked) ∧
      (pieces .default marked).filterMap between? =
        ["Rate: <b>5</b>", "5 < 7 &lt; 9", "Tom's </text>", "1 > 0", "&amp;amp;"] ∧
      (pieces .default marked).filterMap (value? "id") = ["grouptree-path-0", "a<b"] ∧
      ((pieces .default marked).filterMap (value? "class")).take 2 =
        ["grouptree", "flow \"in\" & out"] := by
  refine ⟨Settings.plain_default, svg_carries_texts Settings.plain_default marked, ?_, ?_, ?_⟩
  · rfl
  · rfl
  · rfl

end Drawing

end FlowTree
