import Stencil.Text.Pieces
import Stencil.Text.Utf8

/-! What a run asks of the files around it. -/
namespace Stencil

inductive SystemError where
  | notFound
  | exists
  | notDirectory
  | isDirectory
  | nameTooLong
  | nulInPath
  | accessDenied
  | invalidText
  | noAncestor
  | other (text : String)
deriving DecidableEq

def SystemError.message : SystemError → String
  | notFound => "No such file or directory (os error 2)"
  | .exists => "File exists (os error 17)"
  | notDirectory => "Not a directory (os error 20)"
  | isDirectory => "Is a directory (os error 21)"
  | nameTooLong => "File name too long (os error 36)"
  | nulInPath => "file name contained an unexpected NUL byte"
  | accessDenied => "Permission denied (os error 13)"
  | invalidText => "stream did not contain valid UTF-8"
  | noAncestor => "failed to create whole tree"
  | other text => text

/-- All that is no directory counts as a file, a link that leads nowhere among it. -/
inductive FileKind where
  | file
  | directory
deriving DecidableEq

/-- Access to files, paths being texts with slashes. -/
structure Files (m : Type → Type) where
  /-- All that is left of the standard input. -/
  input : m (Except SystemError Bytes)
  read : String → m (Except SystemError Bytes)
  kind? : String → m (Option FileKind)
  /-- The names in a directory with what they stand for, in any order. -/
  entries : String → m (Except SystemError (List (String × FileKind)))
  makeDirectory : String → m (Except SystemError Unit)
  write : String → Bytes → m (Except SystemError Unit)

namespace PathName

/-- The pieces of a path between slashes, empty ones included. -/
def segments (path : String) : List String := (pieces '/' path.toList).map String.ofList

/-- The paths that end at a segment of `path`, the longest first. Of empty segments and dots, only a dot at
the start of a relative path counts. -/
def reaching (path : String) : List String :=
  let ss := segments path
  let ends := ss.zipIdx.filter fun (s, i) => s ≠ "" && (s ≠ "." || i == 0)
  (ends.map fun (_, i) => "/".intercalate (ss.take (i + 1))).reverse

/-- The paths around `path`, from the nearest outwards, up to the root or the working directory. -/
def ancestors (path : String) : List String :=
  match reaching path with
  | [] => []
  | _ :: ps => ps ++ [if path.startsWith "/" then "/" else ""]

def join (path name : String) : String :=
  if path.endsWith "/" then path ++ name else path ++ "/" ++ name

/-- Whether a path of dots alone names the working directory. -/
def isHere (path : String) : Bool :=
  path.startsWith "." && (segments path).all fun s => s == "." || s == ""

end PathName

namespace Files

variable {m : Type → Type} [Monad m]

def isDirectory (fs : Files m) (path : String) : m Bool := do
  return (← fs.kind? path) == some .directory

/-- Makes a directory where all around it is there already; it may be there itself. -/
def settle (fs : Files m) (path : String) : m (Except SystemError Unit) := do
  match ← fs.makeDirectory path with
  | .ok () => return .ok ()
  | .error e => if ← fs.isDirectory path then return .ok () else return .error e

/-- Makes the first of the paths a directory, if need be after those around it, which follow it. The
empty path is the working directory. -/
def makeDirectories (fs : Files m) : List String → m (Except SystemError Unit)
  | [] => return .ok ()
  | path :: around => do
    if path = "" then
      return .ok ()
    match ← fs.settle path with
    | .error .notFound =>
      if around.isEmpty then
        return .error .noAncestor
      match ← fs.makeDirectories around with
      | .error e => return .error e
      | .ok () => fs.settle path
    | result => return result

end Files

end Stencil
