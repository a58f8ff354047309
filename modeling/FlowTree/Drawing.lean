import FlowTree.Decimal.Numeral
import FlowTree.Markup
import FlowTree.Scene
import FlowTree.Settings

/-!
# Drawing a scene

The elements of a scene become a picture, each in its own group or path, in the order of drawing.

* **`Curve.pathData`** is the course of an edge.
* **`Drawing.markup`** is the picture; **`Drawing.svg`** its text.  A label follows the path that
  was drawn for its edge, and paths are numbered in the order of drawing.
-/

namespace FlowTree

variable {α : Type} [Scalar α] [Printed α]

/-- The course of an edge from the parent to the child; coordinates have two decimals. -/
def Curve.pathData (c : Curve α) : String :=
  let place (x y : α) := Printed.fixed 2 x ++ " " ++ Printed.fixed 2 y
  "M " ++ place c.parent.x c.parent.y ++ " C " ++ place c.bend c.parent.y ++ ", "
    ++ place c.bend c.child.y ++ ", " ++ place c.child.x c.child.y

/-- The name of the side of its position on which a text is written. -/
def TextAnchor.name : TextAnchor → String
  | start => "start"
  | middle => "middle"
  | finish => "end"

namespace Drawing

/-- The paths drawn so far: their number, and their ids by the id of the edge. -/
structure Paths where
  count : Nat := 0
  ids : List (String × String) := []

namespace Paths

/-- The id of the next path. -/
def nextId (p : Paths) : String := "grouptree-path-" ++ toString p.count

/-- The paths with the next one drawn for an edge; an edge is counted once. -/
def draw (p : Paths) (edge : String) : Paths :=
  { count := if (p.ids.lookup edge).isSome then p.count else p.count + 1
    ids := (edge, p.nextId) :: p.ids }

end Paths

/-- A shift of a group. -/
def translate (x y : α) : AttributeValue :=
  .verbatim ("translate(" ++ Printed.fixed 2 x ++ "," ++ Printed.fixed 2 y ++ ")")

/-- An opacity. -/
def opacityValue (x : α) : AttributeValue := .verbatim (Printed.fixed 3 x)

/-- The attributes of all texts. -/
def fontAttributes (theme : Theme α) (fill : String) : MarkupAttributes :=
  [("font-family", .verbatim theme.fontFamily),
    ("font-size", .verbatim (Printed.plain theme.fontSize)), ("fill", .verbatim fill)]

/-- The title that is shown when one points at an element; none if there is nothing to say. -/
def title (tooltip : String) : List Markup :=
  if tooltip.isEmpty then [] else [.element "title" [] [.text tooltip]]

/-- The path of an edge. -/
def edge (theme : Theme α) (dashPattern pathId : String) (v : EdgeVisual α) : Markup :=
  .element "path"
    ([("id", .text pathId), ("class", .text v.className), ("d", .verbatim v.path.pathData),
      ("fill", .verbatim "none"), ("stroke", .verbatim theme.lineColor),
      ("stroke-width", .verbatim (Printed.fixed 2 v.strokeWidth)),
      ("opacity", opacityValue v.opacity)]
      ++ if v.dashed then [("stroke-dasharray", .verbatim dashPattern)] else [])
    (title v.tooltip)

/-- The text along the path of an edge. -/
def edgeLabel (theme : Theme α) (pathId : String) (v : EdgeLabelVisual α) : Markup :=
  .element "text"
    ([("dominant-baseline", .verbatim "central"), ("text-anchor", .verbatim "middle")]
      ++ fontAttributes theme theme.edgeLabelColor
      ++ [("fill-opacity", opacityValue v.opacity)])
    [.element "textPath"
      [("class", .verbatim "edge_info_text"), ("startOffset", .verbatim "50%"),
        ("xlink:href", .text ("#" ++ pathId))]
      [.text v.text]]

/-- The class of a node. -/
def nodeClass : NodeKind → String
  | .well => "node grouptree__well"
  | .group => "node grouptree__group"
  | .other => "node"

/-- The group of a node: a disc with the label beside it and the value with its unit on it. -/
def node (theme : Theme α) (id : String) (v : NodeVisual α) : Markup :=
  let fill := if v.collapsed then theme.nodeFillWithChildren else theme.nodeFill
  .element "g"
    [("class", .verbatim (nodeClass v.kind)), ("id", .text id),
      ("transform", translate v.position.x v.position.y), ("opacity", opacityValue v.opacity)]
    ([.empty "circle"
        [("r", .verbatim (Printed.fixed 2 v.radius)), ("fill", .verbatim fill),
          ("stroke", .verbatim theme.nodeStroke), ("stroke-width", .verbatim "2")],
      .element "text"
        ([("class", .verbatim "grouptree__nodelabel"),
          ("x", .verbatim (Printed.fixed 2 v.labelDx)), ("dy", .verbatim ".35em"),
          ("text-anchor", .verbatim v.labelAnchor.name)] ++ fontAttributes theme theme.textColor)
        [.text v.label],
      .element "text"
        ([("class", .verbatim "grouptree__pressurelabel"), ("x", .verbatim "0"),
          ("dy", .verbatim "-.05em"), ("text-anchor", .verbatim "middle")]
          ++ fontAttributes theme theme.textColor)
        [.text v.valueText],
      .element "text"
        ([("class", .verbatim "grouptree__pressureunit"), ("x", .verbatim "0"),
          ("dy", .verbatim ".04em"), ("dominant-baseline", .verbatim "text-before-edge"),
          ("text-anchor", .verbatim "middle")] ++ fontAttributes theme theme.textColor)
        [.text v.unitText]]
      ++ title v.tooltip)

/-- The parts of the picture for a list of elements, given the paths drawn so far. -/
def parts (settings : Settings α) : Paths → List (SceneElement α) → List Markup
  | _, [] => []
  | paths, e :: rest =>
    match e.visual with
    | .edge v =>
      edge settings.theme settings.style.dashPattern paths.nextId v
        :: parts settings (paths.draw e.key.id) rest
    | .edgeLabel v =>
      match paths.ids.lookup v.pathId with
      | some pathId => edgeLabel settings.theme pathId v :: parts settings paths rest
      | none => parts settings paths rest
    | .node v => node settings.theme e.key.id v :: parts settings paths rest

/-- The picture of a scene. -/
def markup (settings : Settings α) (scene : Scene α) : Markup :=
  let canvas := settings.canvas
  let width := Printed.plain canvas.width
  let height := Printed.plain canvas.height
  .element "svg"
    [("xmlns", .verbatim "http://www.w3.org/2000/svg"),
      ("xmlns:xlink", .verbatim "http://www.w3.org/1999/xlink"), ("width", .verbatim width),
      ("height", .verbatim height), ("viewBox", .verbatim ("0 0 " ++ width ++ " " ++ height))]
    [.empty "rect"
        [("width", .verbatim "100%"), ("height", .verbatim "100%"),
          ("fill", .verbatim settings.page.background)],
      .element "g"
        [("class", .verbatim "grouptree"),
          ("transform", translate canvas.margin.left canvas.margin.top)]
        (parts settings {} scene.elements)]

/-- The text of the picture of a scene. -/
def svg (settings : Settings α) (scene : Scene α) : String := (markup settings scene).render

end Drawing

end FlowTree
