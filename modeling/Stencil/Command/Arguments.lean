import Stencil.Entries

/-! The command line: what its words ask for, or why they are refused. -/
namespace Stencil

inductive UsageError where
  | missingArgument
  | unknownArgument
  | unknownCommand
  | invalidValue
  | tooManyValues
  | conflict
  | help
  | version
  | helpInstead
deriving DecidableEq

def UsageError.name : UsageError → String
  | missingArgument => "MissingRequiredArgument"
  | unknownArgument => "UnknownArgument"
  | unknownCommand => "InvalidSubcommand"
  | invalidValue => "InvalidValue"
  | tooManyValues => "TooManyValues"
  | conflict => "ArgumentConflict"
  | help => "DisplayHelp"
  | version => "DisplayVersion"
  | helpInstead => "DisplayHelpOnMissingArgumentOrSubcommand"

/-- Help and the version are no failures when they are asked for. -/
def UsageError.exitCode : UsageError → UInt32
  | help => 0
  | version => 0
  | _ => 2

structure TemplateOptions where
  template : String
  types : Option String := none
deriving DecidableEq

structure InputOptions where
  /-- Every line of an input is a document. -/
  ndjson : Bool := false
  pointer : Option String := none
  inputs : List String
deriving DecidableEq

inductive Command where
  | check (template : TemplateOptions) (input : InputOptions) (applyDefaults json : Bool)
  | fill (template : TemplateOptions) (input : InputOptions) (out : Option String)
  | compile (template : TemplateOptions)
deriving DecidableEq

namespace Arguments

/-- How many values an option takes, and whether they may be empty. -/
inductive Arity where
  | flag
  | path
  | text
  | texts
  | help
deriving DecidableEq

structure Spec where
  name : String
  short : Option Char
  arity : Arity
deriving DecidableEq

inductive Verb where
  | check
  | fill
  | compile
deriving DecidableEq

def Verb.ofName? : String → Option Verb
  | "check" => some .check
  | "fill" => some .fill
  | "compile" => some .compile
  | _ => none

def templateSpecs : List Spec := [⟨"template", some 't', .path⟩, ⟨"types", none, .path⟩]

def inputSpecs : List Spec :=
  [⟨"ndjson", none, .flag⟩, ⟨"json-pointer", none, .text⟩, ⟨"input", some 'i', .texts⟩]

def helpSpec : Spec := ⟨"help", some 'h', .help⟩

def Verb.specs : Verb → List Spec
  | .check =>
    templateSpecs ++ inputSpecs ++ [⟨"apply-defaults", none, .flag⟩, ⟨"json", none, .flag⟩, helpSpec]
  | .fill => templateSpecs ++ inputSpecs ++ [⟨"out", some 'o', .path⟩, helpSpec]
  | .compile => templateSpecs ++ [helpSpec]

/-- The options given so far, with their values. -/
abbrev Given := Entries (List String)

/-- An option whose values are being gathered. It is `closed` once no word can be one of them. -/
structure Pending where
  spec : Spec
  values : List String
  closed : Bool

/-- Takes an option with its values. Only lists of texts may be given more than once. -/
def accept (given : Given) (spec : Spec) (values : List String) : Except UsageError Given :=
  let before := Entries.get? given spec.name
  match spec.arity with
  | .help => .error .help
  | .flag => if before.isSome then .error .conflict else .ok (Entries.insert given spec.name [])
  | .texts =>
    if values.isEmpty then .error .invalidValue
    else .ok (Entries.insert given spec.name (before.getD [] ++ values))
  | arity =>
    if values.isEmpty then .error .invalidValue
    else if before.isSome then .error .conflict
    else if arity = .path ∧ values = [""] then .error .invalidValue
    else .ok (Entries.insert given spec.name values)

structure State where
  given : Given := []
  pending : Option Pending := none

def State.settle (s : State) : Except UsageError Given :=
  match s.pending with
  | none => .ok s.given
  | some p => accept s.given p.spec p.values

def takesValue (spec : Spec) : Bool := spec.arity ≠ .flag && spec.arity ≠ .help

/-- An option with a value that is joined to it. -/
def State.attached (s : State) (spec : Spec) (value : String) : Except UsageError State := do
  return { given := ← accept (← s.settle) spec [value] }

/-- An option that takes values from the words behind it, or a flag. -/
def State.start (s : State) (spec : Spec) : Except UsageError State := do
  let given ← s.settle
  if takesValue spec then return ⟨given, some ⟨spec, [], false⟩⟩
  else return { given := ← accept given spec [] }

/-- A word of options in one letter each; the first that takes a value takes the rest of the word. -/
def State.letters (s : State) (specs : List Spec) : List Char → Except UsageError State
  | [] => .ok s
  | c :: cs =>
    match specs.find? (·.short = some c) with
    | none => .error .unknownArgument
    | some spec =>
      if takesValue spec then
        match cs with
        | [] => s.start spec
        | '=' :: cs => s.attached spec (String.ofList cs)
        | cs => s.attached spec (String.ofList cs)
      else do
        (← s.start spec).letters specs cs

/-- A word of one option by name, perhaps with a value behind an equals sign. -/
def State.named (s : State) (specs : List Spec) (cs : List Char) : Except UsageError State :=
  let name := String.ofList (cs.takeWhile (· ≠ '='))
  match specs.find? (·.name = name), cs.dropWhile (· ≠ '=') with
  | none, _ => .error .unknownArgument
  | some spec, [] => s.start spec
  | some spec, _ :: value =>
    if takesValue spec then s.attached spec (String.ofList value) else .error .tooManyValues

/-- A word that is no option is a value of the last option, if that takes another one. -/
def State.value (s : State) (word : String) : Except UsageError State :=
  match s.pending with
  | some p =>
    if p.closed then .error .unknownArgument
    else .ok { s with pending := some ⟨p.spec, p.values ++ [word], p.spec.arity ≠ .texts⟩ }
  | none => .error .unknownArgument

/-- Reads the words behind a verb. Nothing may stand behind a word of two dashes. -/
def State.read (s : State) (specs : List Spec) : List String → Except UsageError Given
  | [] => s.settle
  | word :: words =>
    match word.toList with
    | ['-', '-'] => if words.isEmpty then s.settle else .error .unknownArgument
    | '-' :: '-' :: cs => do (← s.named specs cs).read specs words
    | '-' :: c :: cs => do (← s.letters specs (c :: cs)).read specs words
    | _ => do (← s.value word).read specs words

def first? (given : Given) (name : String) : Option String := (Entries.get? given name).bind List.head?

def isGiven (given : Given) (name : String) : Bool := (Entries.get? given name).isSome

def templateOptions (given : Given) : Except UsageError TemplateOptions :=
  match first? given "template" with
  | some template => .ok ⟨template, first? given "types"⟩
  | none => .error .missingArgument

def inputOptions (given : Given) : Except UsageError InputOptions :=
  match Entries.get? given "input" with
  | some inputs => .ok ⟨isGiven given "ndjson", first? given "json-pointer", inputs⟩
  | none => .error .missingArgument

def Verb.command (given : Given) : Verb → Except UsageError Command
  | .check => do
    return .check (← templateOptions given) (← inputOptions given) (isGiven given "apply-defaults")
      (isGiven given "json")
  | .fill => do return .fill (← templateOptions given) (← inputOptions given) (first? given "out")
  | .compile => do return .compile (← templateOptions given)

def helpAbout : List String → UsageError
  | [] => .help
  | [word] => if word = "help" ∨ (Verb.ofName? word).isSome then .help else .unknownCommand
  | _ => .unknownCommand

def leadingLetters : List Char → UsageError
  | 'h' :: _ => .help
  | 'V' :: _ => .version
  | _ => .unknownArgument

/-- Why a word in front of the verb, other than two dashes, is refused. -/
def leadingWord (word : String) : UsageError :=
  match word.toList with
  | '-' :: '-' :: cs =>
    let name := String.ofList (cs.takeWhile (· ≠ '='))
    if name = "help" then (if cs.contains '=' then .tooManyValues else .help)
    else if name = "version" then (if cs.contains '=' then .tooManyValues else .version)
    else .unknownArgument
  | '-' :: c :: cs => leadingLetters (c :: cs)
  | _ => .unknownCommand

end Arguments

namespace Command

open Arguments

def ofWords : List String → Except UsageError Command
  | [] => .error .helpInstead
  | "--" :: [] => .error .helpInstead
  | "--" :: word :: _ =>
    .error (if word = "help" ∨ (Verb.ofName? word).isSome then .unknownArgument else .unknownCommand)
  | "help" :: words => .error (helpAbout words)
  | word :: words =>
    match Verb.ofName? word with
    | some verb => do verb.command (← ({} : State).read verb.specs words)
    | none => .error (leadingWord word)

end Command

end Stencil
