import Stencil.Command.Arguments
import Stencil.Command.Glob
import Stencil.Command.TypesFile
import Stencil.Json.Pointer
import Stencil.Template.Check
import Stencil.Template.Outline
import Stencil.Text.Lines

/-! Running a command: load the template and the documents, then report on them. -/
namespace Stencil

inductive RunError where
  | unreadableFile (path : String) (error : SystemError)
  | malformed (source : String) (error : ReadError)
  | invalidTypes (path : String) (error : TypesError)
  | invalidTemplate (path : String) (error : DefinitionError)
  | badPattern (error : Glob.PatternError)
  | unlistable (error : Glob.ListingError)
  | noMatches (pattern : String)
  | unreadableInput (error : SystemError)
  | unreadableSource (path : String) (error : SystemError)
  | nothingSelected (pointer source : String)
  | invalidDocuments (failed total : Nat)
  | invalidDocument (source : String) (violation : Violation)
  | noDirectory (path : String) (error : SystemError)
  | unwritable (path : String) (error : SystemError)

/-- What happened and why, from the whole run inwards. -/
def RunError.chain : RunError → List String
  | unreadableFile path e => ["failed to read " ++ path, e.message]
  | malformed source e => ["failed to parse JSON (" ++ source ++ "): " ++ e.located]
  | invalidTypes path e => ("invalid types file (" ++ path ++ ")") :: e.chain
  | invalidTemplate path e => ["invalid template (" ++ path ++ ")", e.message]
  | badPattern e => [e.message]
  | unlistable e => [e.message]
  | noMatches pattern => ["glob pattern matched no files: " ++ pattern]
  | unreadableInput e => ["failed to read stdin", e.message]
  | unreadableSource path e => ["failed to read source file (" ++ path ++ ")", e.message]
  | nothingSelected pointer source => ["JSON pointer " ++ pointer ++ " selects nothing in " ++ source]
  | invalidDocuments failed total =>
    [toString failed ++ " of " ++ toString total ++ " document(s) failed validation"]
  | invalidDocument source v => ["validation failed (" ++ source ++ ")", v.message]
  | noDirectory path e => ["failed to create " ++ path, e.message]
  | unwritable path e => ["failed to write " ++ path, e.message]

/-- A document with the label under which it is reported. -/
structure Document where
  source : String
  value : Json

/-- What has been read of the inputs: their paths with their bytes, or why there are none. -/
abbrev Inputs := List (String × Except SystemError Bytes)

namespace Document

/-- The document in a text, or the part of it that is asked for. -/
def ofText (pointer : Option String) (source : String) (text : Bytes) : Except RunError Document :=
  match Json.readFirst text with
  | .error e => .error (.malformed source e)
  | .ok v =>
    match pointer with
    | none => .ok ⟨source, v⟩
    | some p =>
      match v.select? p with
      | some w => .ok ⟨source, w⟩
      | none => .error (.nothingSelected p source)

/-- The documents of lines from the `n`-th on, which are labelled with their numbers. Blank lines
hold none. -/
def ofLines (pointer : Option String) (path : String) (n : Nat) :
    List (List Char) → Except RunError (List Document)
  | [] => .ok []
  | l :: ls =>
    if l.all isBlank then ofLines pointer path (n + 1) ls
    else do
      let d ← ofText pointer (path ++ ":" ++ toString n) (Utf8.encode (String.ofList l))
      let ds ← ofLines pointer path (n + 1) ls
      .ok (d :: ds)

def ofSource (o : InputOptions) (path : String) (text : String) : Except RunError (List Document) :=
  if o.ndjson then ofLines o.pointer path 1 (textLines text.toList)
  else (ofText o.pointer path (Utf8.encode text)).map ([·])

def sourceText (path : String) (contents : Except SystemError Bytes) : Except RunError String :=
  let contents := contents.bind fun bs =>
    match Utf8.decode? bs with
    | some text => .ok text
    | none => .error .invalidText
  contents.mapError fun e => if path = "-" then .unreadableInput e else .unreadableSource path e

def ofInputs (o : InputOptions) : Inputs → Except RunError (List Document)
  | [] => .ok []
  | (path, contents) :: is => do
    let text ← sourceText path contents
    let ds ← ofSource o path text
    let es ← ofInputs o is
    .ok (ds ++ es)

end Document

/-- The two files that make up a template, as far as they could be read. -/
structure TemplateFiles where
  types : Option (String × Except SystemError Bytes)
  template : String × Except SystemError Bytes

namespace TemplateFiles

def typesNamespace (f : TemplateFiles) : Except RunError Namespace :=
  match f.types with
  | none => .ok {}
  | some (path, contents) => do
    let bs ← contents.mapError (.unreadableFile path)
    let types ← (TypesFile.read bs).mapError (.malformed path)
    types.toNamespace.mapError (.invalidTypes path)

/-- The types file is dealt with before the template. -/
def toTemplate (f : TemplateFiles) : Except RunError Template := do
  let ns ← f.typesNamespace
  let (path, contents) := f.template
  let bs ← contents.mapError (.unreadableFile path)
  let d ← (Json.readFirst bs).mapError (.malformed path)
  (ns.compile d).mapError (.invalidTemplate path)

end TemplateFiles

/-- What a run prints, why it failed if it did, and what it writes to which file. -/
structure Outcome where
  output : String := ""
  error? : Option RunError := none
  file? : Option (String × String) := none

/-- A document's label and what is wrong with it, if anything. -/
structure Verdict where
  source : String
  violation? : Option Violation

namespace Verdict

def ofDocument (fill : Bool) (t : Template) (d : Document) : Verdict where
  source := d.source
  violation? :=
    match t.check fill d.value with
    | .ok _ => none
    | .error v => some v

def failed (v : Verdict) : Bool := v.violation?.isSome

/-- `s` between the escape sequence with the given codes and the one that ends it. -/
def coloured (colour : Bool) (codes s : String) : String :=
  if colour then "\x1b[" ++ codes ++ "m" ++ s ++ "\x1b[0m" else s

def line (colour : Bool) (v : Verdict) : String :=
  match v.violation? with
  | none => coloured colour "32" "ok" ++ " " ++ v.source ++ "\n"
  | some e => coloured colour "1;31" "FAIL" ++ " " ++ v.source ++ ": " ++ e.message ++ "\n"

def toJson (v : Verdict) : Json :=
  .object <| [("source", .string v.source), ("ok", .bool !v.failed)] ++
    match v.violation? with
    | none => []
    | some e => [("error", .string e.message)]

def report (colour json : Bool) (vs : List Verdict) : String :=
  if json then (Json.array (vs.map toJson)).pretty ++ "\n" else String.join (vs.map (line colour))

end Verdict

def checkDocuments (colour applyDefaults json : Bool) (t : Template) (ds : List Document) : Outcome :=
  let vs := ds.map (Verdict.ofDocument applyDefaults t)
  let failed := vs.countP Verdict.failed
  { output := Verdict.report colour json vs
    error? := if failed = 0 then none else some (.invalidDocuments failed vs.length) }

/-- The filled documents; the first that is not valid is reported. -/
def fillDocuments (t : Template) : List Document → Except RunError (List Json)
  | [] => .ok []
  | d :: ds => do
    let v ← (t.check true d.value).mapError (.invalidDocument d.source)
    let vs ← fillDocuments t ds
    .ok (v :: vs)

/-- Filled documents as text: one on each line, or a single one by itself, or an array of all. -/
def filledText (ndjson : Bool) (vs : List Json) : String :=
  if ndjson then "\n".intercalate (vs.map Json.compact)
  else
    match vs with
    | [v] => v.pretty
    | vs => (Json.array vs).pretty

namespace Command

def templateOptions : Command → TemplateOptions
  | check t _ _ _ => t
  | fill t _ _ => t
  | compile t => t

def inputOptions? : Command → Option InputOptions
  | check _ i _ _ => some i
  | fill _ i _ => some i
  | compile _ => none

def outcome (colour : Bool) (t : Template) (ds : List Document) : Command → Outcome
  | check _ _ applyDefaults json => checkDocuments colour applyDefaults json t ds
  | fill _ i out =>
    match fillDocuments t ds with
    | .error e => { error? := some e }
    | .ok vs =>
      match out with
      | none => { output := filledText i.ndjson vs ++ "\n" }
      | some path => { file? := some (path, filledText i.ndjson vs) }
  | compile _ => { output := t.outline.tall 0 ++ "\n" }

variable {m : Type → Type} [Monad m]

def readTemplate (fs : Files m) (o : TemplateOptions) : m TemplateFiles := do
  let types ← match o.types with
    | none => pure none
    | some path => do pure (some (path, ← fs.read path))
  return ⟨types, o.template, ← fs.read o.template⟩

/-- The paths that an input stands for: itself, or the files that match it. -/
def expand (fs : Files m) (input : String) : m (Except RunError (List String)) := do
  if !Glob.isPattern input then
    return .ok [input]
  match Glob.Pattern.ofString input with
  | .error e => return .error (.badPattern e)
  | .ok g =>
    match ← (g.paths fs).run with
    | .error e => return .error (.unlistable e)
    | .ok [] => return .error (.noMatches input)
    | .ok paths => return .ok paths

def expandAll (fs : Files m) : List String → m (Except RunError (List String))
  | [] => return .ok []
  | input :: inputs => do
    match ← expand fs input with
    | .error e => return .error e
    | .ok paths =>
      match ← expandAll fs inputs with
      | .error e => return .error e
      | .ok more => return .ok (paths ++ more)

/-- A dash stands for the standard input. -/
def readInputs (fs : Files m) : List String → m Inputs
  | [] => return []
  | path :: paths => do
    let contents ← if path = "-" then fs.input else fs.read path
    return (path, contents) :: (← readInputs fs paths)

/-- Loads what a command works on. All patterns are resolved before any input is read. -/
def load (fs : Files m) (c : Command) : m (Except RunError (Template × List Document)) := do
  match (← readTemplate fs c.templateOptions).toTemplate with
  | .error e => return .error e
  | .ok t =>
    match c.inputOptions? with
    | none => return .ok (t, [])
    | some o =>
      match ← expandAll fs o.inputs with
      | .error e => return .error e
      | .ok paths => return (Document.ofInputs o (← readInputs fs paths)).map (t, ·)

/-- Writes a file, after making the directories around it. -/
def writeFile (fs : Files m) (path text : String) : m (Option RunError) := do
  let around := PathName.ancestors path
  match ← fs.makeDirectories around with
  | .error e => return some (.noDirectory (around.headD "") e)
  | .ok () =>
    match ← fs.write path (Utf8.encode text) with
    | .error e => return some (.unwritable path e)
    | .ok () => return none

def run (fs : Files m) (colour : Bool) (c : Command) : m (String × Option RunError) := do
  match ← load fs c with
  | .error e => return ("", some e)
  | .ok (t, ds) =>
    let o := c.outcome colour t ds
    match o.file? with
    | none => return (o.output, o.error?)
    | some (path, text) => return (o.output, ← writeFile fs path text)

end Command

/-- The text of a failure: what happened, then the causes, which are numbered if there are several. -/
def RunError.complaint (e : RunError) : String :=
  match e.chain with
  | [] => ""
  | [what] => "Error: " ++ what ++ "\n"
  | [what, cause] => "Error: " ++ what ++ "\n\nCaused by:\n" ++ indented "    " "    " cause ++ "\n"
  | what :: causes =>
    "Error: " ++ what ++ "\n\nCaused by:\n" ++
      String.join (causes.zipIdx.map fun (cause, i) =>
        indented (numbered i) "       " cause ++ "\n")
where
  /-- The lines of `s`, the first behind `lead` and the others behind `margin`. -/
  indented (lead margin s : String) : String :=
    lead ++ ("\n" ++ margin).intercalate ((pieces '\n' s.toList).map String.ofList)
  numbered (i : Nat) : String :=
    let digits := toString i
    String.ofList (List.replicate (5 - digits.length) ' ') ++ digits ++ ": "

end Stencil
