import FlowTree.Geometry

/-!
# Settings of a diagram

* **`Theme`** holds fonts and colours, **`Style`** the measures of the drawing and the time of a
  transition, **`Page`** the size of the picture.
* **`Settings.default`** is what holds when nothing is set.
-/

namespace FlowTree

/-- Fonts and colours. -/
structure Theme (α : Type) where
  fontFamily : String
  fontSize : α
  nodeFill : String
  nodeFillWithChildren : String
  nodeStroke : String
  textColor : String
  lineColor : String
  edgeLabelColor : String
  background : String

/-- The measures of a drawing. -/
structure Style (α : Type) where
  margin : Margin α
  /-- The least height of the canvas, margins included. -/
  minHeight : α
  /-- The time of a transition in milliseconds. -/
  transition : Nat
  minStrokeWidth : α
  maxStrokeWidth : α
  /-- The radius at which new nodes start to grow. -/
  enterNodeRadius : α
  nodeRadius : α
  /-- The distance from a node to its label. -/
  labelOffset : α
  dashPattern : String

/-- The size and the background of the picture. -/
structure Page (α : Type) where
  width : α
  height : α
  background : String

/-- All settings of a diagram. -/
structure Settings (α : Type) where
  theme : Theme α
  style : Style α
  page : Page α

variable {α : Type} [Scalar α]

namespace Theme

/-- The plain look. -/
def classic : Theme α where
  fontFamily := "sans-serif"
  fontSize := Scalar.ofNat 10
  nodeFill := "#FFFFFF"
  nodeFillWithChildren := "#B0C4DE"
  nodeStroke := "#4682B4"
  textColor := "#333333"
  lineColor := "#CCCCCC"
  edgeLabelColor := "#555555"
  background := "#FFFFFF"

/-- The soft look. -/
def modern : Theme α where
  fontFamily := "Inter, Segoe UI, system-ui, -apple-system, sans-serif"
  fontSize := Scalar.ofNat 11
  nodeFill := "#F8FAFF"
  nodeFillWithChildren := "#C7D2E5"
  nodeStroke := "#7A8AA6"
  textColor := "#1C2430"
  lineColor := "#9FB0C8"
  edgeLabelColor := "#4A5568"
  background := "#FFFFFF"

end Theme

/-- The margin when none is set: room for the labels to the left and to the right. -/
def Margin.default : Margin α :=
  ⟨Scalar.ofNat 10, Scalar.ofNat 90, Scalar.ofNat 30, Scalar.ofNat 90⟩

/-- The measures when none is set. -/
def Style.default : Style α where
  margin := .default
  minHeight := Scalar.ofNat 500
  transition := 200
  minStrokeWidth := Scalar.ofNat 2
  maxStrokeWidth := Scalar.ofNat 100
  enterNodeRadius := Scalar.ofNat 6
  nodeRadius := Scalar.ofNat 15
  labelOffset := Scalar.ofNat 21
  dashPattern := "5,5"

/-- The page when none is set. -/
def Page.default : Page α := ⟨Scalar.ofNat 1200, Scalar.ofNat 800, "#FFFFFF"⟩

namespace Settings

/-- The settings when none is set: the plain look with its own background. -/
def default : Settings α :=
  ⟨.classic, .default, { Page.default with background := (Theme.classic (α := α)).background }⟩

/-- The canvas that the settings describe. -/
def canvas (s : Settings α) : Canvas α :=
  .of s.page.width s.page.height s.style.minHeight s.style.margin

end Settings

end FlowTree
