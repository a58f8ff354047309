/-!
# Files as values

The files of a machine as a value, so that what a program does to files can be computed.

* A **`Place`** is the list of names that lead from the root to a file or a directory.
* **`FileSystem.walk`** follows the steps of a path; each one but the last must lead to a directory.
* **`FileSystem.read`** and **`FileSystem.write`** give the text, the new state or the reason of a
  failure (**`FileFault`**).

The working directory has a name that no path can spell.  It holds the given files, and around it
lie the directories and devices that every machine has.  What has been read from the standard input
is gone, by whatever name it was read.
-/

namespace FlowTree

/-- Why a file cannot be read or written. -/
inductive FileFault where
  | notFound
  | isDirectory
  | notDirectory
  | nameTooLong
  | noSpace
  /-- The bytes are no text. -/
  | notText
  | other (reason : String)
  deriving DecidableEq, Repr

/-- The reason in words. -/
def FileFault.message : FileFault → String
  | notFound => "No such file or directory (os error 2)"
  | isDirectory => "Is a directory (os error 21)"
  | notDirectory => "Not a directory (os error 20)"
  | nameTooLong => "File name too long (os error 36)"
  | noSpace => "No space left on device (os error 28)"
  | notText => "stream did not contain valid UTF-8"
  | other reason => reason

/-- The names that lead from the root to a file or a directory. -/
abbrev Place := List String

/-- Text files by their places; a directory exists if it holds a file, and some exist always. -/
structure FileSystem where
  files : List (Place × String) := []
  /-- What is left of the standard input. -/
  input : String := ""
  /-- What has been written to the standard output by the name of its device. -/
  output : String := ""
  deriving DecidableEq, Repr

/-- A file that keeps no text. -/
inductive Device where
  | input
  | output
  | errors
  /-- Takes everything and is always empty. -/
  | null
  /-- Takes nothing. -/
  | full
  deriving DecidableEq, Repr

namespace FileSystem

/-! ### Places -/

/-- The working directory.  A path cannot spell the empty name. -/
def workingDirectory : Place := [""]

/-- The directories that every machine has, by their names in the root. -/
def standardDirectories : List String :=
  ["bin", "boot", "dev", "etc", "home", "lib", "media", "mnt", "opt", "proc", "root", "run", "sbin",
    "srv", "sys", "tmp", "usr", "var"]

/-- The devices that every machine has, some of them under several names. -/
def devices : List (Place × Device) :=
  [(["dev", "null"], .null), (["dev", "full"], .full), (["dev", "stdin"], .input),
    (["dev", "stdout"], .output), (["dev", "stderr"], .errors), (["dev", "fd", "0"], .input),
    (["dev", "fd", "1"], .output), (["dev", "fd", "2"], .errors),
    (["proc", "self", "fd", "0"], .input), (["proc", "self", "fd", "1"], .output),
    (["proc", "self", "fd", "2"], .errors)]

/-- The device at a place. -/
def device? (p : Place) : Option Device := devices.lookup p

/-- The text of a file. -/
def get? (s : FileSystem) (p : Place) : Option String := s.files.lookup p

/-- The place lies on the way to another one. -/
def leadsTo (p other : Place) : Bool := p.isPrefixOf other && other != p

/-- A directory stands at the place. -/
def isDirectory (s : FileSystem) (p : Place) : Bool :=
  p.isEmpty || p == workingDirectory || standardDirectories.any (fun name => p == [name])
    || devices.any (fun d => leadsTo p d.1) || s.files.any fun f => leadsTo p f.1

/-- Refuses a place that is no directory. -/
def requireDirectory (s : FileSystem) (p : Place) : Except FileFault Unit :=
  if s.isDirectory p then .ok ()
  else if (device? p).isSome || (s.get? p).isSome then .error .notDirectory
  else .error .notFound

/-! ### Paths -/

/-- The step of a path stays where it is. -/
def staysPut (step : String) : Bool := step == "" || step == "."

/-- A name in a directory has at most this many bytes. -/
def nameLimit : Nat := 255

/-- A path has less than this many bytes. -/
def pathLimit : Nat := 4096

/-- The place one step further. -/
def step (s : FileSystem) (p : Place) (name : String) : Except FileFault Place := do
  s.requireDirectory p
  if staysPut name then return p
  else if name == ".." then return p.dropLast
  else if nameLimit < name.utf8ByteSize then .error .nameTooLong
  else return p ++ [name]

/-- The steps of a path. -/
def steps (path : String) : List String := path.splitOn "/"

/-- The path ends in a slash, and so it can only lead to a directory. -/
def asksDirectory (path : String) : Bool := path.endsWith "/"

/-- The place that the given steps of a path lead to. -/
def walk (s : FileSystem) (path : String) (steps : List String) : Except FileFault Place :=
  if path.isEmpty then .error .notFound
  else if pathLimit ≤ path.utf8ByteSize then .error .nameTooLong
  else steps.foldlM s.step (if path.startsWith "/" then [] else workingDirectory)

/-! ### Files -/

/-- The files of the working directory, and the standard input. -/
def ofFiles (files : List (String × String)) (input : String) : FileSystem where
  files := files.map fun f =>
    (workingDirectory ++ (steps f.1).filter fun name => !staysPut name, f.2)
  input := input

/-- Reads what is left of the standard input. -/
def takeInput (s : FileSystem) : String × FileSystem := (s.input, { s with input := "" })

/-- Reads a device. -/
def readDevice (s : FileSystem) : Device → String × FileSystem
  | .input => s.takeInput
  | _ => ("", s)

/-- Reads a file. -/
def read (s : FileSystem) (path : String) : Except FileFault (String × FileSystem) := do
  let p ← s.walk path (steps path)
  match device? p, s.get? p with
  | some d, _ => return s.readDevice d
  | none, some text => return (text, s)
  | none, none => .error (if s.isDirectory p then .isDirectory else .notFound)

/-- Writes to a device. -/
def writeDevice (s : FileSystem) (text : String) : Device → Except FileFault FileSystem
  | .output => .ok { s with output := s.output ++ text }
  | .full => .error .noSpace
  | _ => .ok s

/-- Puts a text in place of what stands there. -/
def put (s : FileSystem) (p : Place) (text : String) : FileSystem :=
  { s with files := (p, text) :: s.files.filter fun f => f.1 != p }

/-- Writes a file; its directory must exist.  No file is made for a path that asks for a directory,
whatever its last name is. -/
def write (s : FileSystem) (path text : String) : Except FileFault FileSystem := do
  if asksDirectory path then
    let names := (steps path).filter fun name => name != ""
    let _ ← s.walk path (names.dropLast ++ ["."])
    .error .isDirectory
  else
    let p ← s.walk path (steps path)
    match device? p with
    | some d => s.writeDevice text d
    | none => if s.isDirectory p then .error .isDirectory else return s.put p text

end FileSystem

end FlowTree
