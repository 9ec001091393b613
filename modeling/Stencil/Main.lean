import Stencil.Command.Run

/-! The program: a command line, run on the files of the system. -/
namespace Stencil.Program

def systemError : IO.Error → SystemError
  | .noFileOrDirectory _ _ _ => .notFound
  | .alreadyExists _ 17 _ => .exists
  | .inappropriateType _ 20 _ => .notDirectory
  | .inappropriateType _ 21 _ => .isDirectory
  | .permissionDenied _ 13 _ => .accessDenied
  | e => .other e.toString

def attempt {α : Type} (act : IO α) : IO (Except SystemError α) := do
  try
    return .ok (← act)
  catch e =>
    return .error (systemError e)

partial def readToEnd (stream : IO.FS.Stream) (before : ByteArray) : IO ByteArray := do
  let chunk ← stream.read 65536
  if chunk.isEmpty then return before else readToEnd stream (before ++ chunk)

def bytes (b : ByteArray) : Bytes := b.data.toList

/-- The files of the system, paths being taken from the working directory. -/
def systemFiles : Files IO where
  input := attempt do return bytes (← readToEnd (← IO.getStdin) ByteArray.empty)
  read path := attempt do return bytes (← IO.FS.readBinFile path)
  kind? path := do
    let path := (← IO.currentDir) / path
    if ← path.isDir then return some .directory
    return (← attempt path.symlinkMetadata).toOption.map fun _ => .file
  entries path := attempt do
    let path := (← IO.currentDir) / path
    (← path.readDir).toList.mapM fun e => do
      return (e.fileName, if ← e.path.isDir then .directory else .file)
  makeDirectory path := attempt (IO.FS.createDir path)
  write path contents := attempt (IO.FS.writeBinFile path ⟨contents.toArray⟩)

end Stencil.Program

/-- Runs the command that the words ask for; a failure is told on the error stream. -/
def main (words : List String) : IO UInt32 := do
  match Stencil.Command.ofWords words with
  | .error e =>
    IO.eprintln e.name
    return e.exitCode
  | .ok c =>
    let stdout ← IO.getStdout
    let (output, error?) ← c.run Stencil.Program.systemFiles (← stdout.isTty)
    stdout.putStr output
    match error? with
    | none => return 0
    | some e =>
      IO.eprint e.complaint
      return 1
