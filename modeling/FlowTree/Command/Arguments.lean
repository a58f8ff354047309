import FlowTree.Decimal.Read

/-!
# Arguments of the command

Arguments are taken from left to right, and the first one that settles the matter counts: a wish for
the version or for help, or something that cannot be understood.

* **`Arguments.parse`** reads the arguments; **`CommandOptions`** is what they ask for.
* An option takes its value from the same argument or from the next one, which then may not look
  like an option.
-/

namespace FlowTree

/-- The forms of output. -/
inductive OutputFormat where
  | svg
  | png
  | json
  deriving DecidableEq, Repr

/-- What the command is asked to do. -/
structure CommandOptions where
  input : Option String := none
  output : Option String := none
  format : Option OutputFormat := none
  settings : Option String := none
  width : Option Float := none
  height : Option Float := none
  date : Option String := none
  edgeKey : Option String := none
  nodeKey : Option String := none
  toggles : List String := []
  frame : Option Float := none

namespace Arguments

/-- An option of the command. -/
structure CommandOption where
  long : String
  short : Option Char := none
  /-- The option may be given more than once. -/
  repeats : Bool := false
  /-- Takes the value of the option; `none` if the value does not suit. -/
  take : String → CommandOptions → Option CommandOptions

/-- The path to a file, which is not empty. -/
def path? (s : String) : Option String := if s.isEmpty then none else some s

/-- The format of the given name. -/
def format? (s : String) : Option OutputFormat :=
  if s == "svg" then some .svg
  else if s == "png" then some .png
  else if s == "json" then some .json
  else none

/-- The options of the command. -/
def all : List CommandOption :=
  [{ long := "input", short := some 'i'
     take := fun s o => (path? s).map fun p => { o with input := some p } },
    { long := "output", short := some 'o'
      take := fun s o => (path? s).map fun p => { o with output := some p } },
    { long := "outputFormat", short := some 'e'
      take := fun s o => (format? s).map fun f => { o with format := some f } },
    { long := "configFile", short := some 'c'
      take := fun s o => (path? s).map fun p => { o with settings := some p } },
    { long := "width", short := some 'w'
      take := fun s o => (Decimal.ofText? s).map fun x => { o with width := some x } },
    { long := "height", short := some 'H'
      take := fun s o => (Decimal.ofText? s).map fun x => { o with height := some x } },
    { long := "date", take := fun s o => some { o with date := some s } },
    { long := "edge-key", take := fun s o => some { o with edgeKey := some s } },
    { long := "node-key", take := fun s o => some { o with nodeKey := some s } },
    { long := "toggle", repeats := true
      take := fun s o => some { o with toggles := o.toggles ++ [s] } },
    { long := "frame-ms"
      take := fun s o => (Decimal.ofText? s).map fun x => { o with frame := some x } }]

/-- What the arguments amount to. -/
inductive Request where
  | run (options : CommandOptions)
  | version
  | help
  /-- The arguments cannot be understood. -/
  | refused

/-- The start of an argument. -/
inductive Opening where
  /-- The end of the options. -/
  | stop
  /-- An option by its name, maybe with its value. -/
  | long (name : String) (value : Option String)
  /-- An option by its letter, maybe with its value. -/
  | short (letter : Char) (value : Option String)
  /-- Something that is no option. -/
  | plain
  deriving DecidableEq, Repr

/-- The name before an equals sign and the value after it. -/
def splitValue (cs : List Char) : String × Option String :=
  let name := cs.takeWhile (· != '=')
  match cs.drop name.length with
  | [] => (String.ofList name, none)
  | _ :: value => (String.ofList name, some (String.ofList value))

/-- How an argument starts.  An equals sign between a letter and its value is left out. -/
def opening (argument : String) : Opening :=
  match argument.toList with
  | ['-', '-'] => .stop
  | '-' :: '-' :: cs => .long (splitValue cs).1 (splitValue cs).2
  | ['-', letter] => .short letter none
  | '-' :: letter :: '=' :: value => .short letter (some (String.ofList value))
  | '-' :: letter :: value => .short letter (some (String.ofList value))
  | _ => .plain

/-- The argument can be the value of an option before it. -/
def isValue (argument : String) : Bool := opening argument == .plain

/-- What has been read so far: the wishes and the names of the options. -/
structure Progress where
  options : CommandOptions := {}
  seen : List String := []

/-- Takes an option with its value. -/
def Progress.take? (p : Progress) (option : CommandOption) (value : String) : Option Progress :=
  if !option.repeats && p.seen.contains option.long then none
  else (option.take value p.options).map fun o => ⟨o, option.long :: p.seen⟩

/-- Reads the arguments after those that `p` has taken. -/
def parseFrom (p : Progress) : List String → Request
  | [] => .run p.options
  | argument :: rest =>
    let step (option : Option CommandOption) (value : Option String) : Request :=
      match option, value with
      | none, _ => .refused
      | some option, some value =>
        match p.take? option value with
        | some p => parseFrom p rest
        | none => .refused
      | some option, none =>
        match rest with
        | [] => .refused
        | value :: rest =>
          if isValue value then
            match p.take? option value with
            | some p => parseFrom p rest
            | none => .refused
          else .refused
    match opening argument with
    | .stop => if rest.isEmpty then .run p.options else .refused
    | .plain => .refused
    | .long "version" none => .version
    | .long "help" none => .help
    | .long name value => step (all.find? (·.long == name)) value
    | .short 'V' _ => .version
    | .short 'h' _ => .help
    | .short letter value => step (all.find? (·.short == some letter)) value

/-- Reads the arguments. -/
def parse (arguments : List String) : Request := parseFrom {} arguments

end Arguments

end FlowTree
