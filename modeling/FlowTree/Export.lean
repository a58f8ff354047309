import FlowTree.Directive
import FlowTree.Json.Value
import FlowTree.Settings

/-!
# Passes and settings as data

How visuals, directives and settings are written for other programs.  Names are in lower case with
underscores, and what has one of several forms is an object with the name of its form.

* **`Directive.toJson`**, **`Visual.toJson`**, **`Canvas.toJson`** and the parts of **`Settings`**.
-/

namespace FlowTree

/-- The name of a kind of nodes. -/
def NodeKind.name : NodeKind → String
  | well => "Well"
  | group => "Group"
  | other => "Other"

/-- The name of a kind of elements. -/
def ElementKind.name : ElementKind → String
  | edge => "edge"
  | edgeLabel => "edge_label"
  | node => "node"

/-- The name of a side in data. -/
def TextAnchor.dataName : TextAnchor → String
  | start => "start"
  | middle => "middle"
  | finish => "end"

/-- A point. -/
def Point.toJson (p : Point Float) : Json := .object [("x", .ofFloat p.x), ("y", .ofFloat p.y)]

/-- A curve. -/
def Curve.toJson (c : Curve Float) : Json :=
  .object [("child", c.child.toJson), ("parent", c.parent.toJson)]

/-- A canvas without its margin. -/
def Canvas.toJson (c : Canvas Float) : Json :=
  .object [("width", .ofFloat c.width), ("height", .ofFloat c.height),
    ("tree_width", .ofFloat c.treeWidth), ("tree_height", .ofFloat c.treeHeight)]

/-- What a node shows. -/
def NodeVisual.toJson (v : NodeVisual Float) : Json :=
  .object [("position", v.position.toJson), ("radius", .ofFloat v.radius),
    ("opacity", .ofFloat v.opacity), ("label", .text v.label),
    ("label_anchor", .text v.labelAnchor.dataName), ("label_dx", .ofFloat v.labelDx),
    ("value_text", .text v.valueText), ("unit_text", .text v.unitText),
    ("tooltip", .text v.tooltip), ("node_type", .text v.kind.name),
    ("has_children", .bool v.hasChildren), ("collapsed", .bool v.collapsed)]

/-- What an edge shows. -/
def EdgeVisual.toJson (v : EdgeVisual Float) : Json :=
  .object [("path", v.path.toJson), ("stroke_width", .ofFloat v.strokeWidth),
    ("dashed", .bool v.dashed), ("opacity", .ofFloat v.opacity), ("class", .text v.className),
    ("tooltip", .text v.tooltip)]

/-- What the label of an edge shows. -/
def EdgeLabelVisual.toJson (v : EdgeLabelVisual Float) : Json :=
  .object [("text", .text v.text), ("path_id", .text v.pathId), ("opacity", .ofFloat v.opacity)]

/-- What an element shows. -/
def Visual.toJson : Visual Float → Json
  | .node v => .object [("node", v.toJson)]
  | .edge v => .object [("edge", v.toJson)]
  | .edgeLabel v => .object [("edge_label", v.toJson)]

/-- The name of an element. -/
def ElementKey.toJson (k : ElementKey) : Json :=
  .object [("kind", .text k.kind.name), ("id", .text k.id)]

/-- A directive. -/
def Directive.toJson : Directive Float → Json
  | .create key source goal duration =>
    .object [("op", .text "create"), ("key", key.toJson), ("from", source.toJson),
      ("to", goal.toJson), ("duration_ms", .ofNat duration)]
  | .update key goal duration =>
    .object [("op", .text "update"), ("key", key.toJson), ("to", goal.toJson),
      ("duration_ms", .ofNat duration)]
  | .remove key toward duration =>
    .object [("op", .text "remove"), ("key", key.toJson), ("toward", toward.toJson),
      ("duration_ms", .ofNat duration)]

/-- The directives of a pass. -/
def Pass.toJson (p : Pass Float) : Json := .ofList Directive.toJson p

/-- Fonts and colours. -/
def Theme.toJson (t : Theme Float) : Json :=
  .object [("font_family", .text t.fontFamily), ("font_size", .ofFloat t.fontSize),
    ("node_fill", .text t.nodeFill), ("node_fill_with_children", .text t.nodeFillWithChildren),
    ("node_stroke", .text t.nodeStroke), ("text_color", .text t.textColor),
    ("line_color", .text t.lineColor), ("edge_label_color", .text t.edgeLabelColor),
    ("background", .text t.background)]

/-- A margin. -/
def Margin.toJson (m : Margin Float) : Json :=
  .object [("top", .ofFloat m.top), ("right", .ofFloat m.right), ("bottom", .ofFloat m.bottom),
    ("left", .ofFloat m.left)]

/-- The measures of a drawing. -/
def Style.toJson (s : Style Float) : Json :=
  .object [("margin", s.margin.toJson), ("min_height", .ofFloat s.minHeight),
    ("transition_ms", .ofNat s.transition), ("min_stroke_width", .ofFloat s.minStrokeWidth),
    ("max_stroke_width", .ofFloat s.maxStrokeWidth),
    ("enter_node_radius", .ofFloat s.enterNodeRadius), ("node_radius", .ofFloat s.nodeRadius),
    ("label_offset", .ofFloat s.labelOffset), ("dash_pattern", .text s.dashPattern)]

/-- The size and the background of a picture. -/
def Page.toJson (p : Page Float) : Json :=
  .object [("width", .ofFloat p.width), ("height", .ofFloat p.height),
    ("background", .text p.background)]

/-- All settings. -/
def Settings.toJson (s : Settings Float) : Json :=
  .object [("theme", s.theme.toJson), ("layout", s.style.toJson), ("render", s.page.toJson)]

end FlowTree
