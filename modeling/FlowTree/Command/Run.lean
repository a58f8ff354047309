import FlowTree.Command.Arguments
import FlowTree.Command.FileSystem
import FlowTree.Diagram
import FlowTree.Document.Reader
import FlowTree.Drawing
import FlowTree.Export
import FlowTree.Settings.Reader

/-!
# The command

The command reads a document, replays the changes that its arguments ask for, and writes the passes
or the picture at the end.

* **`Host`** is what the command needs from its surroundings, and **`FileSystem.host`** provides it
  from values.
* **`Command.run`** carries out a list of arguments; **`Command.Outcome`** is what can be seen of
  it.  **`Command.runOn`** does it on files that are values.
-/

namespace FlowTree

/-- What the command needs from its surroundings. -/
structure Host (m : Type → Type) where
  readFile : String → m (Except FileFault String)
  readInput : m (Except FileFault String)
  writeFile : String → String → m (Except FileFault Unit)

/-- The surroundings of a run that touches only files that are values. -/
def FileSystem.host : Host (StateM FileSystem) where
  readFile path := fun s =>
    match s.read path with
    | .ok (text, s) => (.ok text, s)
    | .error f => (.error f, s)
  readInput := fun s => (.ok s.takeInput.1, s.takeInput.2)
  writeFile path text := fun s =>
    match s.write path text with
    | .ok s => (.ok (), s)
    | .error f => (.error f, s)

namespace Command

/-- What can be seen of a run. -/
structure Outcome where
  exitCode : UInt32
  output : String
  error : String
  deriving DecidableEq, Repr

/-- Why a run fails. -/
inductive Failure where
  | file (fault : FileFault)
  | inputFile (path : String) (fault : FileFault)
  | settings (e : SettingsError Float)
  | document (e : Json.ReadError)
  | diagram (e : DiagramError)
  | outputNeeded
  | pngMissing

/-- What is wrong with a document, in words. -/
def describeReadError : Json.ReadError → String
  | .fault .malformed => "malformed text"
  | .fault .cutOff => "unexpected end of text"
  | .data e => e.message

/-- The reason in words. -/
def Failure.message : Failure → String
  | file fault => fault.message
  | inputFile path fault => "Failed to read " ++ path ++ ": " ++ fault.message
  | settings e => e.message
  | document e =>
    "Failed to parse group tree input: invalid group tree input: " ++ describeReadError e
  | diagram e => e.message
  | outputNeeded => "Output path required for png output"
  | pngMissing => "PNG output requires the `png` feature"

/-- The exit code of a run that fails.  A character that is cut in two is no error of the user, but
a breakdown. -/
def Failure.exitCode : Failure → UInt32
  | settings .splitCharacter => 101
  | _ => 1

/-- The version of the command. -/
def versionText : String := "gtr 0.1.0\n"

/-- The options in short. -/
def helpText : String :=
  "Time-indexed group tree renderer\n\nUsage: gtr [OPTIONS]\n\nOptions:\n"
    ++ String.join (Arguments.all.map fun o =>
      (match o.short with
        | some c => "  -" ++ c.toString ++ ", "
        | none => "      ") ++ "--" ++ o.long ++ " <VALUE>\n")
    ++ "  -h, --help\n  -V, --version\n"

/-! ### From the document to the output -/

/-- A pass with the name of the step that it belongs to. -/
abbrev Step := String × Pass Float

/-- The steps as data. -/
def stepsJson (steps : List Step) : Json :=
  .ofList (fun s => .object [("step", .text s.1), ("directives", Pass.toJson s.2)]) steps

/-- What is shown first: the first date, and the first attributes unless others are asked for. -/
def initialSelection (doc : Document Float) (o : CommandOptions) : InitialSelection where
  edgeKey := (o.edgeKey.or (doc.edgeMetadata.head?.map (·.key))).getD ""
  nodeKey := (o.nodeKey.or (doc.nodeMetadata.head?.map (·.key))).getD ""
  date := doc.firstDate?.getD ""

/-- Folds or unfolds branches one after the other. -/
def replayToggles (d : Diagram Float) : List String → Except DiagramError (List Step)
  | [] => .ok []
  | id :: rest => do
    let change ← d.toggleBranch id
    let steps ← replayToggles change.diagram rest
    return ("toggle " ++ id, change.pass) :: steps

/-- The first pass, the wished date, and each branch in order. -/
def replay (doc : Document Float) (o : CommandOptions) (settings : Settings Float) :
    Except DiagramError (List Step) := do
  let first := Diagram.ofDocument doc (initialSelection doc o) settings
  match o.date with
  | none =>
    let steps ← replayToggles first.diagram o.toggles
    return ("initial", first.pass) :: steps
  | some date =>
    let change ← first.diagram.setDate date
    let steps ← replayToggles change.diagram o.toggles
    return ("initial", first.pass) :: ("date " ++ date, change.pass) :: steps

/-- The scene after all steps, at the wished time or at rest. -/
def finalScene (steps : List Step) (frame : Option Float) : Scene Float :=
  let scene := steps.foldl (fun s step => s.applyPass step.2) Scene.empty
  match frame with
  | some ms => scene.advance ms
  | none => scene.settle

/-- The settings with the size that the arguments ask for. -/
def withSize (s : Settings Float) (o : CommandOptions) : Settings Float :=
  { s with
    page := { s.page with
      width := o.width.getD s.page.width
      height := o.height.getD s.page.height } }

/-- The text that is to be written. -/
def outputText (o : CommandOptions) (settings : Settings Float) (steps : List Step) :
    Except Failure String :=
  match o.format.getD .svg with
  | .json => .ok (stepsJson steps).pretty
  | .svg => .ok (Drawing.svg settings (finalScene steps o.frame))
  | .png => .error (if o.output.isSome then .pngMissing else .outputNeeded)

/-! ### Running -/

/-- A failure of some kind in place of another one. -/
def orFail {β ε : Type} (f : ε → Failure) : Except ε β → Except Failure β
  | .ok b => .ok b
  | .error e => .error (f e)

variable {m : Type → Type} [Monad m]

/-- Reads the settings. -/
def readSettings (host : Host m) (o : CommandOptions) : ExceptT Failure m (Settings Float) := do
  match o.settings with
  | none => return withSize .default o
  | some path =>
    let text ← ExceptT.mk ((orFail .file) <$> host.readFile path)
    let settings ← ExceptT.mk (pure (orFail .settings (Settings.read text)))
    return withSize settings o

/-- The path stands for the standard input: a dash, maybe with steps after it that lead nowhere. -/
def isStandardInput (path : String) : Bool :=
  match FileSystem.steps path with
  | "-" :: rest => rest.all FileSystem.staysPut
  | _ => false

/-- Reads the text of the document. -/
def readDocument (host : Host m) (o : CommandOptions) : ExceptT Failure m String :=
  match o.input with
  | none => ExceptT.mk ((orFail .file) <$> host.readInput)
  | some path =>
    if isStandardInput path then ExceptT.mk ((orFail .file) <$> host.readInput)
    else ExceptT.mk ((orFail (.inputFile path)) <$> host.readFile path)

/-- Writes the output to a file, or leaves it to be printed. -/
def writeOutput (host : Host m) (o : CommandOptions) (text : String) :
    ExceptT Failure m String :=
  match o.output with
  | none => return text
  | some path => do
    ExceptT.mk ((orFail .file) <$> host.writeFile path text)
    return ""

/-- Carries out what the options ask for; the result is what is to be printed. -/
def perform (host : Host m) (o : CommandOptions) : ExceptT Failure m String := do
  let settings ← readSettings host o
  let text ← readDocument host o
  let doc ← ExceptT.mk (pure (orFail .document (Document.read text)))
  let steps ← ExceptT.mk (pure (orFail .diagram (replay doc o settings)))
  let output ← ExceptT.mk (pure (outputText o settings steps))
  writeOutput host o output

/-- Carries out a list of arguments. -/
def run (host : Host m) (arguments : List String) : m Outcome :=
  match Arguments.parse arguments with
  | .version => pure ⟨0, versionText, ""⟩
  | .help => pure ⟨0, helpText, ""⟩
  | .refused => pure ⟨2, "", "error: invalid arguments\n"⟩
  | .run o => do
    match ← (perform host o).run with
    | .ok output => return ⟨0, output, ""⟩
    | .error e => return ⟨e.exitCode, "", "error: " ++ e.message ++ "\n"⟩

/-- Carries out a list of arguments on files that are values.  What is written to the output as to a
file is seen there. -/
def runOn (s : FileSystem) (arguments : List String) : Outcome × FileSystem :=
  let (outcome, s) := (run FileSystem.host arguments).run s
  ({ outcome with output := s.output ++ outcome.output }, s)

end Command

end FlowTree
