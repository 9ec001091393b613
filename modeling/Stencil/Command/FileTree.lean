import Stencil.Command.Files
import Stencil.Entries

/-! Files held in memory: a tree of directories, and runs that work somewhere inside it. -/
namespace Stencil

inductive FileTree where
  | file (contents : Bytes)
  | directory (entries : List (String × FileTree))

namespace FileTree

def kind : FileTree → FileKind
  | file _ => .file
  | directory _ => .directory

def at? : FileTree → List String → Option FileTree
  | t, [] => some t
  | directory es, s :: ss => (Entries.get? es s).bind (at? · ss)
  | file _, _ :: _ => none

/-- Puts `u` at the end of a way down, inside a directory that is there. -/
def put : FileTree → List String → FileTree → FileTree
  | _, [], u => u
  | directory es, [s], u => directory (Entries.insert es s u)
  | directory es, s :: ss, u =>
    match Entries.get? es s with
    | some t => directory (Entries.insert es s (put t ss u))
    | none => directory es
  | file c, _ :: _, _ => file c

mutual

def files (path : String) : FileTree → List (String × Bytes)
  | file c => [(path, c)]
  | directory es => filesOf path es

def filesOf (path : String) : List (String × FileTree) → List (String × Bytes)
  | [] => []
  | (name, t) :: es => files (if path = "" then name else path ++ "/" ++ name) t ++ filesOf path es

end

end FileTree

/-- All files there are, the way from the root down to the working directory, and what has not been read
of the standard input. -/
structure World where
  tree : FileTree
  home : List String
  input : Bytes

namespace World

open FileTree

/-- One step on a way down from the root. It is taken from a directory; the root is above itself. -/
def step (w : World) (way : List String) (s : String) : Except SystemError (List String) :=
  match w.tree.at? way with
  | none => .error .notFound
  | some (file _) => .error .notDirectory
  | some (directory _) =>
    if s = "." then .ok way
    else if s = ".." then .ok way.dropLast
    else if 255 < s.utf8ByteSize then .error .nameTooLong
    else .ok (way ++ [s])

/-- The way to where a path sets out, and the names that it passes from there. -/
def route (w : World) (path : String) : Except SystemError (List String × List String) :=
  if path = "" then .error .notFound
  else if path.contains '\x00' then .error .nulInPath
  else if 4096 ≤ path.utf8ByteSize then .error .nameTooLong
  else .ok (if path.startsWith "/" then [] else w.home, (PathName.segments path).filter (· ≠ ""))

/-- The way down to what a path names. What is at its end need not be there. -/
def way (w : World) (path : String) : Except SystemError (List String) := do
  let (start, names) ← w.route path
  names.foldlM w.step start

/-- The way down to the directory in which the last name of a path stands. -/
def around (w : World) (path : String) : Except SystemError (List String) := do
  let (start, names) ← w.route path
  w.step (← names.dropLast.foldlM w.step start) "."

/-- What a path names. One that ends with a slash names a directory. -/
def lookup (w : World) (path : String) : Except SystemError FileTree := do
  let way ← w.way path
  let way ← if path.endsWith "/" then w.step way "." else .ok way
  match w.tree.at? way with
  | some t => .ok t
  | none => .error .notFound

def read (w : World) (path : String) : Except SystemError Bytes := do
  match ← w.lookup path with
  | file c => .ok c
  | directory _ => .error .isDirectory

def put (w : World) (way : List String) (t : FileTree) : World := { w with tree := w.tree.put way t }

/-- Writes a file. With a slash at its end a path names no file, whatever its last name is. -/
def write (w : World) (path : String) (contents : Bytes) : Except SystemError World := do
  if path.endsWith "/" then
    let _ ← w.around path
    .error .isDirectory
  else
    let way ← w.way path
    match w.tree.at? way with
    | some (directory _) => .error .isDirectory
    | _ => .ok (w.put way (file contents))

def makeDirectory (w : World) (path : String) : Except SystemError World := do
  let way ← w.way path
  match w.tree.at? way with
  | some _ => .error .exists
  | none => .ok (w.put way (directory []))

def entries (w : World) (path : String) : Except SystemError (List (String × FileKind)) := do
  match ← w.lookup path with
  | file _ => .error .notDirectory
  | directory es => .ok (es.map fun (name, t) => (name, t.kind))

/-- A world that holds nothing but `work`, which is its working directory. -/
def ofWork (work : FileTree) (input : Bytes) : World :=
  ⟨directory [("home", directory [("work", work)])], ["home", "work"], input⟩

def work (w : World) : FileTree := (w.tree.at? w.home).getD (directory [])

/-- The outcome of an operation that changes the world when it succeeds. -/
def change (f : World → Except SystemError World) : StateM World (Except SystemError Unit) := fun w =>
  match f w with
  | .ok w => (.ok (), w)
  | .error e => (.error e, w)

/-- Access to the files of a world. The input can be read once. -/
def files : Files (StateM World) where
  input := fun w => (.ok w.input, { w with input := [] })
  read path := fun w => (w.read path, w)
  kind? path := fun w => ((w.lookup path).toOption.map FileTree.kind, w)
  entries path := fun w => (w.entries path, w)
  makeDirectory path := change (·.makeDirectory path)
  write path contents := change (·.write path contents)

end World

end Stencil
