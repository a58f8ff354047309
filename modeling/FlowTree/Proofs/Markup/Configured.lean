import FlowTree.Proofs.Markup.Picture
import FlowTree.Proofs.Markup.Verbatim
import FlowTree.Settings.Reader

/-!
# The texts of the settings in a picture

The font, the colours and the dashes of the settings are written into a picture word for word, other than the
texts of the scene, which are escaped.  So a setting with a quotation mark, an opening bracket or an ampersand in
it breaks every picture in which it is drawn, and only such a setting does.

* **`Piece.frame`** is what is left of a piece without values and texts, **`Settings.reword`** puts other texts
  into the settings; **`Drawing.frame_pieces`** says that this leaves the frame of a picture.
* **`Drawing.Faithful`** says that a picture has the frame that it has with harmless settings, and that the values
  of the settings are read from it as they were.
* **`Drawing.legible_iff`** says when a picture can be read, **`Drawing.faithful_iff_quotable`** when it is
  faithful.
-/

namespace FlowTree

/-- The piece without the values of its attributes, or without its text. -/
def Piece.frame : Piece → Piece
  | opening name attributes => opening name (attributes.map fun a => (a.1, ""))
  | closing name => closing name
  | empty name attributes => empty name (attributes.map fun a => (a.1, ""))
  | text _ => text ""

section Reword

variable {α : Type}

/-- The theme with other texts. -/
def Theme.reword (f : String → String) (theme : Theme α) : Theme α :=
  { theme with
    fontFamily := f theme.fontFamily
    nodeFill := f theme.nodeFill
    nodeFillWithChildren := f theme.nodeFillWithChildren
    nodeStroke := f theme.nodeStroke
    textColor := f theme.textColor
    lineColor := f theme.lineColor
    edgeLabelColor := f theme.edgeLabelColor
    background := f theme.background }

/-- The settings with other texts. -/
def Settings.reword (f : String → String) (settings : Settings α) : Settings α :=
  { theme := settings.theme.reword f
    style := { settings.style with dashPattern := f settings.style.dashPattern }
    page := { settings.page with background := f settings.page.background } }

/-- Letters are no marks. -/
theorem Settings.plain_reword {f : String → String} (hf : ∀ s, ∀ c ∈ (f s).toList, c.isAlpha = true)
    (settings : Settings α) : (settings.reword f).Plain := by
  have hplain : ∀ s, Xml.Plain (f s) := by
    intro s c hc
    rw [← Bool.not_eq_true]
    intro hmark
    have halpha := hf s c hc
    rcases Xml.eq_of_isMark hmark with rfl | rfl | rfl | rfl | rfl <;> cases halpha
  exact ⟨⟨hplain _, hplain _, hplain _, hplain _, hplain _, hplain _, hplain _⟩, hplain _, hplain _⟩

end Reword

namespace Drawing

/-! ### Frames -/

section Frame

variable {α : Type} [Scalar α] [Printed α]

/-- The settings do not show in the frame of any element. -/
theorem frame_partPieces (settings other : Settings α) (paths : Paths) (l : List (SceneElement α)) :
    (partPieces settings paths l).map Piece.frame = (partPieces other paths l).map Piece.frame := by
  induction l generalizing paths with
  | nil => rfl
  | cons e l ih =>
    rw [partPieces, partPieces]
    cases e.visual with
    | edge v =>
      rw [List.map_append, List.map_append, ih, edgePieces, edgePieces]
      cases v.dashed <;> rfl
    | node v =>
      rw [List.map_append, List.map_append, ih]
      simp [nodePieces, textPieces, fontContent, Piece.frame]
    | edgeLabel v =>
      simp only [List.map_append, ih]
      cases paths.ids.lookup v.pathId with
      | none => rfl
      | some pathId => simp [edgeLabelPieces, fontContent, Piece.frame]

theorem frame_pieces (settings other : Settings α) (scene : Scene α) :
    (pieces settings scene).map Piece.frame = (pieces other scene).map Piece.frame := by
  simp [pieces, Piece.frame, frame_partPieces settings other]

end Frame

/-! ### What is read -/

/-- The attributes whose values are texts of the settings. -/
def settingKeys : List String := ["fill", "stroke", "font-family", "stroke-dasharray"]

/-- The settings break nothing in the picture of a scene: it has the tags with the attributes that it has if all
texts of the settings are made of letters, and these texts are read from it as they are. -/
def Faithful (settings : Settings Float) (scene : Scene Float) : Prop :=
  ∃ ps, Piece.split? (svg settings scene) = some ps ∧
    (∀ f : String → String, (∀ s, ∀ c ∈ (f s).toList, c.isAlpha = true) →
      ∃ qs, Piece.split? (svg (settings.reword f) scene) = some qs ∧ ps.map Piece.frame = qs.map Piece.frame) ∧
    ps.map (Piece.values settingKeys) = (pieces settings scene).map (Piece.values settingKeys)

variable (settings : Settings Float) (scene : Scene Float)

/-- **A picture can be read** if and only if the texts of the settings in it can stand between quotation marks. -/
theorem legible_iff :
    (markup settings scene).Legible ↔ ∀ x ∈ settingTexts settings scene, Xml.Quotable x.2 := by
  rw [Markup.Legible, formed_markup_iff Printed.isPlain_float fun _ _ hv => hv.legible]
  exact forall₂_congr fun _ _ => AttributeValue.legible_verbatim_iff

/-- All values but those of the settings can be read. -/
theorem formed_markup : (markup settings scene).Formed fun a => a.1 ∉ settingKeys → a.2.Legible := by
  refine (formed_markup_iff Printed.isPlain_float (fun _ _ hv _ => hv.legible) settings scene).mpr fun x hx hkey => ?_
  have hall : ∀ x ∈ allTexts settings, x.1 ∈ settingKeys := by simp [allTexts, settingKeys]
  exact absurd (hall x (settingTexts_subset settings scene hx)) hkey

variable {settings scene}

theorem Faithful.legible (h : Faithful settings scene) : (markup settings scene).Legible := by
  obtain ⟨ps, hsplit, -, hvalues⟩ := h
  rw [← pieces_markup] at hvalues
  exact (Markup.legible_iff (formed_markup settings scene)).mpr ⟨ps, hsplit, hvalues⟩

theorem faithful_of_legible (h : (markup settings scene).Legible) : Faithful settings scene := by
  refine ⟨pieces settings scene, ?_, fun f hf => ⟨pieces (settings.reword f) scene, ?_, ?_⟩, rfl⟩
  · rw [svg, Piece.split?_of_legible h, pieces_markup]
  · rw [svg, Piece.split?_render (clean_markup Printed.isPlain_float (settings.plain_reword hf) scene), pieces_markup]
  · exact frame_pieces settings _ scene

variable (settings scene)

/-- **A picture is faithful to the settings** if and only if no text of the settings that is drawn in it has a
quotation mark, an opening bracket or an ampersand. -/
theorem faithful_iff_quotable :
    Faithful settings scene ↔ ∀ x ∈ settingTexts settings scene, Xml.Quotable x.2 := by
  rw [← legible_iff]
  exact ⟨Faithful.legible, faithful_of_legible⟩

omit settings scene

/-- A font with a name of two words, which is put in quotation marks. -/
def quotedFont : String := "\x7b themeVariables: \x7b fontFamily: '\"Segoe UI\", sans-serif' \x7d \x7d"

/-- A single node. -/
def lone : Scene Float where
  elements :=
    [⟨⟨.node, "R"⟩, .node ⟨.origin, 15, 1, "R", .start, 21, "NA", "", "", .well, false, false⟩, false, none⟩]
  clock := 0

/-- The settings are read, but the name of the font ends before it begins. -/
theorem not_faithful_quotedFont :
    ∃ settings, Settings.read quotedFont = .ok settings ∧ ¬ Faithful settings lone := by
  have hfont : (Settings.read quotedFont).toOption.map (·.theme.fontFamily) =
      some "\"Segoe UI\", sans-serif" := by decide +kernel
  obtain ⟨settings, hsome, hfont⟩ := Option.map_eq_some_iff.mp hfont
  have hread : Settings.read quotedFont = .ok settings := by
    cases hread : Settings.read quotedFont with
    | error e =>
      rw [hread] at hsome
      cases hsome
    | ok s =>
      rw [hread] at hsome
      exact congrArg Except.ok (Option.some.inj hsome)
  refine ⟨settings, hread, fun h => ?_⟩
  have hquotable := (legible_iff settings lone).mp h.legible ("font-family", settings.theme.fontFamily)
    (by simp [settingTexts, lone, partTexts, nodeTexts, fontTexts])
  rw [hfont] at hquotable
  exact absurd hquotable (by decide)

end Drawing

end FlowTree
