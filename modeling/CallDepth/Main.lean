import CallDepth.CommandLine

/-!
# The program

Runs the command line on the disk of the machine. Results go to the standard output, events and
complaints to the standard error.
-/

namespace CallDepth.Main

/-- Programs of the machine; the flag says whether every event is told. -/
abbrev Machine := ReaderT Bool IO

def faultOf : IO.Error → Fault
  | .noFileOrDirectory .. => .notFound
  | .alreadyExists .. => .alreadyExists
  | .inappropriateType _ 20 _ => .notDirectory
  | .inappropriateType _ 21 _ => .isDirectory
  | error => .other (toString error)

def guarded {α : Type} (action : IO α) : Machine (Except Fault α) := do
  match ← action.toBaseIO with
  | .ok value => return .ok value
  | .error error => return .error (faultOf error)

def isPlainFile (path : String) : IO Bool := do
  let found ← IO.FS.realPath path
  return (← found.metadata).type == .file

instance : Disk Machine where
  isFile path := do
    match ← guarded (isPlainFile path) with
    | .ok found => return found
    | .error _ => return false
  read path := guarded do
    let bytes ← IO.FS.readBinFile path
    return bytes.toList
  write path bytes := guarded (IO.FS.writeBinFile path (ByteArray.mk bytes.toArray))
  remove path := guarded (IO.FS.removeFile path)
  makeParents path := guarded do
    let directory := Path.around path
    if directory ≠ "" then IO.FS.createDirAll directory
  tell event := do
    if event.isTold (← read) then IO.eprintln event.line

end CallDepth.Main

def main (args : List String) : IO UInt32 := do
  let program : CallDepth.Main.Machine CallDepth.CommandLine.Answer :=
    CallDepth.CommandLine.answer args
  let answer ← program.run (CallDepth.CommandLine.isVerbose args)
  IO.print answer.output
  IO.eprint answer.complaint
  return answer.exitCode.toUInt32
