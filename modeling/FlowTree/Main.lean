import FlowTree.Command.Run

/-!
# The program

The thin outer layer of the command: arguments, standard input, files and the exit code.
-/

namespace FlowTree

/-- What an error of the system means for a file. -/
def faultOfSystem : IO.Error → FileFault
  | .noFileOrDirectory .. => .notFound
  | .inappropriateType _ 20 _ => .notDirectory
  | .inappropriateType .. => .isDirectory
  | .invalidArgument _ 36 _ => .nameTooLong
  | .resourceExhausted _ 28 _ => .noSpace
  | e => .other (toString e)

/-- Bytes as a text. -/
def textOfBytes (bytes : ByteArray) : Except FileFault String :=
  match String.fromUTF8? bytes with
  | some s => .ok s
  | none => .error .notText

/-- The outcome of an action of the system. -/
def attempt {β : Type} (act : IO β) : IO (Except FileFault β) := do
  match ← act.toBaseIO with
  | .ok b => return .ok b
  | .error e => return .error (faultOfSystem e)

/-- The files and the standard input of the machine. -/
def systemHost : Host IO where
  readFile path := do
    match ← attempt (do (← IO.FS.Handle.mk path .read).readBinToEnd) with
    | .ok bytes => return textOfBytes bytes
    | .error f => return .error f
  readInput := do
    match ← attempt (do (← IO.getStdin).readBinToEnd) with
    | .ok bytes => return textOfBytes bytes
    | .error f => return .error f
  writeFile path text := attempt do
    let file ← IO.FS.Handle.mk path .write
    file.putStr text
    file.flush

end FlowTree

/-- Runs the command. -/
def main (arguments : List String) : IO UInt32 := do
  let outcome ← FlowTree.Command.run FlowTree.systemHost arguments
  IO.print outcome.output
  IO.eprint outcome.error
  return outcome.exitCode
