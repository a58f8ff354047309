import FlowTree.Json5.Decode
import FlowTree.Settings.Changes

/-!
# Reading settings

**`Settings.read`** reads a settings file, a JSON5 object, and makes its changes to the defaults.
-/

namespace FlowTree

open Json5 (Record Field asText asReal asCount)

namespace SettingsChanges

/-- The details of a theme. -/
def themeRecord : Record (ThemeChanges Float) where
  name := "ThemeVariables"
  fields :=
    [.option "fontFamily" asText fun v c => { c with fontFamily := v },
      .option "fontSize" asReal fun v c => { c with fontSize := v },
      .option "nodeFill" asText fun v c => { c with nodeFill := v },
      .option "nodeFillWithChildren" asText fun v c => { c with nodeFillWithChildren := v },
      .option "nodeStroke" asText fun v c => { c with nodeStroke := v },
      .option "textColor" asText fun v c => { c with textColor := v },
      .option "lineColor" asText fun v c => { c with lineColor := v },
      .option "edgeLabelColor" asText fun v c => { c with edgeLabelColor := v },
      .option "background" asText fun v c => { c with background := v }]

/-- The sides of the margin. -/
def marginRecord : Record (MarginChanges Float) where
  name := "MarginFile"
  fields :=
    [.option "top" asReal fun v c => { c with top := v },
      .option "right" asReal fun v c => { c with right := v },
      .option "bottom" asReal fun v c => { c with bottom := v },
      .option "left" asReal fun v c => { c with left := v }]

/-- A settings file. -/
def record : Record (SettingsChanges Float) where
  name := "ConfigFile"
  fields :=
    [.option "theme" asText fun v c => { c with theme := v },
      .option "themeVariables" (themeRecord.read {}) fun v c => { c with themeVariables := v },
      .option "margin" (marginRecord.read {}) fun v c => { c with margin := v },
      .option "minHeight" asReal fun v c => { c with minHeight := v },
      .option "transitionMs" asCount fun v c => { c with transition := v },
      .option "minStrokeWidth" asReal fun v c => { c with minStrokeWidth := v },
      .option "maxStrokeWidth" asReal fun v c => { c with maxStrokeWidth := v },
      .option "nodeRadius" asReal fun v c => { c with nodeRadius := v },
      .option "dashPattern" asText fun v c => { c with dashPattern := v },
      .option "width" asReal fun v c => { c with width := v },
      .option "height" asReal fun v c => { c with height := v }]

end SettingsChanges

/-- Reads a settings file. -/
def Settings.read (text : String) : Except (SettingsError Float) (Settings Float) :=
  match Json5.source? text with
  | none => .error .malformed
  | some value =>
    match SettingsChanges.record.read {} value with
    | .error (.unsuitable reason) => .error (.unsuitable reason)
    | .error .splitCharacter => .error .splitCharacter
    | .ok changes => changes.apply .default

end FlowTree
