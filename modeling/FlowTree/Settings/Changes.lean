import FlowTree.Decimal.Numeral
import FlowTree.Settings

/-!
# Changes of the settings

A settings file says what is to be different from the defaults.

* **`SettingsChanges.apply`** makes the changes: first the look, then its details, then the
  measures.  A look that is not known, and a largest stroke width below the smallest one, are
  refused.
-/

namespace FlowTree

/-- Changes of fonts and colours. -/
structure ThemeChanges (α : Type) where
  fontFamily : Option String := none
  fontSize : Option α := none
  nodeFill : Option String := none
  nodeFillWithChildren : Option String := none
  nodeStroke : Option String := none
  textColor : Option String := none
  lineColor : Option String := none
  edgeLabelColor : Option String := none
  background : Option String := none

/-- Changes of the margin. -/
structure MarginChanges (α : Type) where
  top : Option α := none
  right : Option α := none
  bottom : Option α := none
  left : Option α := none

/-- All that a settings file can change. -/
structure SettingsChanges (α : Type) where
  theme : Option String := none
  themeVariables : Option (ThemeChanges α) := none
  margin : Option (MarginChanges α) := none
  minHeight : Option α := none
  transition : Option Nat := none
  minStrokeWidth : Option α := none
  maxStrokeWidth : Option α := none
  nodeRadius : Option α := none
  dashPattern : Option String := none
  width : Option α := none
  height : Option α := none

/-- Why a settings file is refused. -/
inductive SettingsError (α : Type) where
  /-- The text is not JSON5. -/
  | malformed
  /-- A value is not of the right type. -/
  | unsuitable (reason : String)
  /-- The search for a number ends inside a character. -/
  | splitCharacter
  | unknownTheme (name : String)
  | strokeRange (largest smallest : α)

/-- The reason in words. -/
def SettingsError.message {α : Type} [Printed α] : SettingsError α → String
  | malformed => "config"
  | unsuitable reason => reason
  | splitCharacter => "a number is looked for inside a character"
  | unknownTheme name => "unknown theme `" ++ name ++ "`"
  | strokeRange largest smallest =>
    "maxStrokeWidth (" ++ Printed.plain largest ++ ") is smaller than minStrokeWidth ("
      ++ Printed.plain smallest ++ ")"

variable {α : Type}

/-- The theme with some of its details changed. -/
def ThemeChanges.apply (c : ThemeChanges α) (t : Theme α) : Theme α where
  fontFamily := c.fontFamily.getD t.fontFamily
  fontSize := c.fontSize.getD t.fontSize
  nodeFill := c.nodeFill.getD t.nodeFill
  nodeFillWithChildren := c.nodeFillWithChildren.getD t.nodeFillWithChildren
  nodeStroke := c.nodeStroke.getD t.nodeStroke
  textColor := c.textColor.getD t.textColor
  lineColor := c.lineColor.getD t.lineColor
  edgeLabelColor := c.edgeLabelColor.getD t.edgeLabelColor
  background := c.background.getD t.background

/-- The margin with some sides changed. -/
def MarginChanges.apply (c : MarginChanges α) (m : Margin α) : Margin α where
  top := c.top.getD m.top
  right := c.right.getD m.right
  bottom := c.bottom.getD m.bottom
  left := c.left.getD m.left

namespace SettingsChanges

variable [Scalar α]

/-- The theme of the given name. -/
def themeOfName? (name : String) : Option (Theme α) :=
  if name == "modern" then some .modern
  else if name == "classic" || name == "default" then some .classic
  else none

/-- The settings with another theme; the page takes its background. -/
def withTheme (theme : Theme α) (s : Settings α) : Settings α :=
  { s with theme := theme, page := { s.page with background := theme.background } }

/-- The settings with details of the theme changed; a new background is that of the page too. -/
def withDetails (c : ThemeChanges α) (s : Settings α) : Settings α :=
  { s with
    theme := c.apply s.theme
    page := { s.page with background := c.background.getD s.page.background } }

/-- The settings with the measures changed. -/
def withMeasures (c : SettingsChanges α) (s : Settings α) : Settings α :=
  { s with
    style := { s.style with
      margin := (c.margin.getD {}).apply s.style.margin
      minHeight := c.minHeight.getD s.style.minHeight
      transition := c.transition.getD s.style.transition
      minStrokeWidth := c.minStrokeWidth.getD s.style.minStrokeWidth
      maxStrokeWidth := c.maxStrokeWidth.getD s.style.maxStrokeWidth
      nodeRadius := c.nodeRadius.getD s.style.nodeRadius
      dashPattern := c.dashPattern.getD s.style.dashPattern }
    page := { s.page with
      width := c.width.getD s.page.width
      height := c.height.getD s.page.height } }

/-- The settings with all changes made. -/
def apply (c : SettingsChanges α) (s : Settings α) : Except (SettingsError α) (Settings α) := do
  let themed ← match c.theme with
    | none => pure s
    | some name => match themeOfName? name with
      | some theme => pure (withTheme theme s)
      | none => throw (.unknownTheme name)
  let changed := c.withMeasures (withDetails (c.themeVariables.getD {}) themed)
  if Scalar.lt changed.style.maxStrokeWidth changed.style.minStrokeWidth then
    throw (.strokeRange changed.style.maxStrokeWidth changed.style.minStrokeWidth)
  return changed

end SettingsChanges

end FlowTree
