import Stencil.Command.Files

/-! Patterns for file names, and the files that match them. -/
namespace Stencil.Glob

inductive Fault where
  | wildcards
  | recursive
  | range
deriving DecidableEq

structure PatternError where
  position : Nat
  fault : Fault
deriving DecidableEq

def Fault.text : Fault → String
  | wildcards => "wildcards are either regular `*` or recursive `**`"
  | recursive => "recursive wildcards must form a single path component"
  | range => "invalid range pattern"

def PatternError.message (e : PatternError) : String :=
  "Pattern syntax error near position " ++ toString e.position ++ ": " ++ e.fault.text

inductive Token where
  | char (c : Char)
  | anyChar
  | anyRun
  /-- Any number of directories. -/
  | anyPath
  /-- A character in one of the ranges. -/
  | among (ranges : List (Char × Char))
  | except (ranges : List (Char × Char))
deriving DecidableEq

/-- Ranges `a-z` and single characters. -/
def ranges : List Char → List (Char × Char)
  | a :: '-' :: b :: cs => (a, b) :: ranges cs
  | a :: cs => (a, a) :: ranges cs
  | [] => []

/-- What stands in brackets, the opening one read, and what follows. The first character belongs to
the set whatever it is. -/
def bracket? (cs : List Char) : Option (Token × List Char) :=
  match cs with
  | '!' :: c :: r => close .except c r
  | '!' :: [] => none
  | c :: r => close .among c r
  | [] => none
where
  close (f : List (Char × Char) → Token) (c : Char) (r : List Char) : Option (Token × List Char) :=
    match r.dropWhile (· != ']') with
    | [] => none
    | _ :: t => some (f (ranges (c :: r.takeWhile (· != ']'))), t)

theorem bracket?_length {cs t : List Char} {k : Token} (h : bracket? cs = some (k, t)) :
    t.length < cs.length := by
  have key : ∀ {f c r}, bracket?.close f c r = some (k, t) → t.length < r.length := by
    intro f c r h
    have := (List.dropWhile_sublist (· != ']') (l := r)).length_le
    simp only [bracket?.close] at h
    split at h
    · simp at h
    · rename_i hd
      rw [hd] at this
      cases h
      exact this
  unfold bracket? at h
  split at h
  · have := key h
    simp only [List.length_cons]
    omega
  · simp at h
  · have := key h
    simp only [List.length_cons]
    omega
  · simp at h

/-- Whether a run of two stars may stand between `before` and `after`. -/
def recursiveFault? (position : Nat) (before after : Option Char) : Option PatternError :=
  if before.any (· != '/') then some ⟨position - 1, .recursive⟩
  else if after.any (· != '/') then some ⟨position + 2, .recursive⟩
  else none

/-- The tokens of a pattern, whose next character has the number `position` and follows `before`. -/
def parse (position : Nat) (before : Option Char) (cs : List Char) : Except PatternError (List Token) :=
  match cs with
  | [] => .ok []
  | '?' :: cs => (.anyChar :: ·) <$> parse (position + 1) (some '?') cs
  | '*' :: '*' :: '*' :: _ => .error ⟨position + 2, .wildcards⟩
  | '*' :: '*' :: cs =>
    match recursiveFault? position before cs.head? with
    | some e => .error e
    | none => (.anyPath :: ·) <$> parse (position + 3) (some '/') cs.tail
  | '*' :: cs => (.anyRun :: ·) <$> parse (position + 1) (some '*') cs
  | '[' :: cs =>
    match h : bracket? cs with
    | some (k, t) =>
      have := bracket?_length h
      (k :: ·) <$> parse (position + 1 + (cs.length - t.length)) (some ']') t
    | none => .error ⟨position, .range⟩
  | c :: cs => (.char c :: ·) <$> parse (position + 1) (some c) cs
termination_by cs.length
decreasing_by all_goals (simp only [List.length_cons, List.length_tail] at *; omega)

def inRanges (rs : List (Char × Char)) (c : Char) : Bool := rs.any fun (a, b) => a ≤ c && c ≤ b

def suffixes {α : Type} : List α → List (List α)
  | [] => [[]]
  | x :: xs => (x :: xs) :: suffixes xs

def Token.accepts (c : Char) : Token → Bool
  | .char a => a == c
  | .among rs => inRanges rs c
  | .except rs => !inRanges rs c
  | .anyChar | .anyRun | .anyPath => true

/-- What a token can leave of a name, `rests` being what can be left in front of it, longest first. -/
def Token.leave (rests : List (List Char)) (k : Token) : List (List Char) :=
  match k, rests with
  | .anyRun, longest :: _ | .anyPath, longest :: _ => suffixes longest
  | _, _ => rests.filterMap fun
    | c :: cs => if k.accepts c then some cs else none
    | [] => none

def matchesAll (ts : List Token) (cs : List Char) : Bool := (ts.foldl Token.leave [cs]).any List.isEmpty

abbrev Segment := List Token

namespace Segment

def isRecursive (ts : Segment) : Bool := ts.contains .anyPath

/-- The only name that matches, if there is no choice. -/
def literal? : Segment → Option String
  | [] => some ""
  | .char c :: ts => (literal? ts).map (c.toString ++ ·)
  | _ :: _ => none

def matchesName (ts : Segment) (name : String) : Bool := matchesAll ts name.toList

end Segment

/-- A pattern taken apart at its slashes. -/
structure Pattern where
  absolute : Bool
  segments : List Segment
  /-- A pattern that ends with a slash matches directories only. -/
  onlyDirectories : Bool

/-- The pattern is checked as a whole first, then segment by segment. -/
def Pattern.ofString (s : String) : Except PatternError Pattern := do
  let _ ← parse 0 none s.toList
  let absolute := s.startsWith "/"
  let pieces := pieces '/' (if absolute then s.toList.tail else s.toList)
  let pieces := if pieces.getLast? == some [] then pieces.dropLast else pieces
  let segments ← pieces.mapM (parse 0 none)
  return ⟨absolute, segments, s.endsWith "/"⟩

structure Spot where
  path : String
  name : String
  isDirectory : Bool

/-- A directory that could not be listed. -/
structure ListingError where
  path : String
  error : SystemError
deriving DecidableEq

def ListingError.message (e : ListingError) : String :=
  "attempting to read `" ++ e.path ++ "` resulted in an error: " ++ e.error.message

namespace Spot

/-- The path of `name` inside `p`; the dots of the working directory are left out. -/
def inside (p : Spot) (name : String) : String :=
  if PathName.isHere p.path then name else PathName.join p.path name

/-- Dots are entries of every directory, but only for a pattern that starts with one. -/
def dotEntries (seg : Segment) : List String :=
  if seg.head? = some (.char '.') then ["..", "."].filter seg.matchesName else []

/-- What is left to match inside `q`, an entry to which `seg` is applied: a run of directories may end
here, and go on below. -/
def remaining (q : Spot) (seg : Segment) (rest : List Segment) : List (List Segment) :=
  if seg.isRecursive then
    let after := rest.dropWhile Segment.isRecursive
    let here :=
      match after with
      | [] => if q.isDirectory then [[]] else []
      | next :: last => if next.matchesName q.name then [last] else []
    here ++ if q.isDirectory then [seg :: after] else []
  else if seg.matchesName q.name then [rest]
  else []

variable {m : Type → Type} [Monad m]

/-- The entry with a given name, for which the directory need not be listed. -/
def entry? (fs : Files m) (p : Spot) (name : String) : m (Option Spot) := do
  let path := p.inside name
  let kind? ← fs.kind? path
  let there := if name = "." ∨ name = ".." then p.isDirectory else kind?.isSome
  return if there then some ⟨path, name, kind? == some .directory⟩ else none

def dots (fs : Files m) (p : Spot) (seg : Segment) : m (List Spot) :=
  (dotEntries seg).mapM fun name => do
    let path := PathName.join p.path name
    return ⟨path, name, ← fs.isDirectory path⟩

/-- The entries of a directory but for the dots, names in order. -/
def entries (fs : Files m) (p : Spot) : ExceptT ListingError m (List Spot) := do
  match ← (fs.entries p.path : m _) with
  | .error e => throw ⟨p.path, e⟩
  | .ok es =>
    let es := es.mergeSort fun a b => !(b.1 < a.1)
    return es.map fun (name, kind) => ⟨p.inside name, name, kind == .directory⟩

end Spot

variable {m : Type → Type} [Monad m]

/-- The matches of `segments` inside `p`, names in order and directories before what they hold.
Directories are entered only while `fuel` lasts. -/
def walk (fs : Files m) (onlyDirectories : Bool) (fuel : Nat) (segments : List Segment) (p : Spot) :
    ExceptT ListingError m (List String) :=
  match fuel, segments with
  | _, [] => return if onlyDirectories && !p.isDirectory then [] else [p.path]
  | 0, _ => return []
  | fuel + 1, seg :: rest => do
    match seg.literal? with
    | some name =>
      match ← (p.entry? fs name : m _) with
      | some q => walk fs onlyDirectories fuel rest q
      | none => return []
    | none =>
      if !p.isDirectory then
        return []
      let entries ← p.entries fs
      let dots ← (p.dots fs seg : m _)
      let above ← dots.flatMapM (walk fs onlyDirectories fuel rest)
      let below ← entries.flatMapM fun q =>
        (q.remaining seg rest).flatMapM fun segments => walk fs onlyDirectories fuel segments q
      return above ++ below

/-- A path of 4096 bytes passes through no more directories than this. -/
def maxNesting : Nat := 4096

def Pattern.paths (fs : Files m) (g : Pattern) : ExceptT ListingError m (List String) :=
  let start := if g.absolute then "/" else "."
  walk fs g.onlyDirectories (maxNesting + g.segments.length) g.segments ⟨start, start, true⟩

def isPattern (s : String) : Bool := s.toList.any fun c => c == '*' || c == '?' || c == '[' || c == '\x7b'

end Stencil.Glob
