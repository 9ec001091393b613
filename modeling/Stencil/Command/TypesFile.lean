import Stencil.Json.Reader
import Stencil.Namespace
import Stencil.Outline

/-! Files of type definitions and aliases. -/
namespace Stencil

/-- Types to define, then aliases to make, both in order. -/
structure TypesFile where
  types : Entries Json := []
  aliases : Entries String := []

inductive TypesError where
  | badType (name : String) (error : DefinitionError)
  | badAlias (error : DefinitionError)

def TypesError.chain : TypesError → List String
  | badType name e => ["failed to define type '" ++ name ++ "'", e.message]
  | badAlias e => [e.message]

namespace Scan

open Ascii

def numberKind : Number → String
  | .int n => "integer `" ++ toString n ++ "`"
  | .float x => "floating point `" ++ x.jsonText ++ "`"

/-- The refusal of a value that is not of the kind `expected`. Scalars are read to be quoted. -/
def refuse {α : Type} (expected : String) (s : Bytes) : Except Failure α :=
  let wrong (found : String) (rest : Bytes) : Except Failure α := fail (.wrongKind found expected) rest
  match s with
  | [] => fail .eofValue []
  | b :: r =>
    if b = letterN then do wrong "null" (← word (Utf8.encode "ull") r).1
    else if b = letterT then do wrong "boolean `true`" (← word (Utf8.encode "rue") r).1
    else if b = letterF then do wrong "boolean `false`" (← word (Utf8.encode "alse") r).1
    else if b = minus then do
      let n ← numeral true r
      wrong (numberKind n.value) n.rest
    else if isDigit b then do
      let n ← numeral false (b :: r)
      wrong (numberKind n.value) n.rest
    else if b = quote then do
      let t ← string r
      wrong ("string " ++ quotedText t.value) t.rest
    else if b = openBracket then wrong "sequence" s
    else if b = openBrace then wrong "map" s
    else fail .expectedValue r

def stringOnly : Reader String := spaced fun s =>
  match s with
  | [] => fail .eofValue []
  | b :: r => if b = quote then (·.behind b) <$> string r else refuse "a string" (b :: r)

def mapOf {α : Type} (p : Reader α) : Reader (Entries α) := spaced fun s =>
  match s with
  | [] => fail .eofValue []
  | b :: r =>
    if b = openBrace then (·.behind b) <$> members (binding p) [] r
    else refuse "a map" (b :: r)

/-- Two brackets are open around a type definition. -/
def typeMap : Reader (Entries Json) := mapOf (value (Json.maxDepth - 2))

def aliasMap : Reader (Entries String) := mapOf stringOnly

/-- A key that cannot be accepted is reported behind white space and a closing brace. -/
def behindBrace (s : Bytes) : Bytes :=
  match skipSpace s with
  | [] => []
  | b :: r => if b = closeBrace then r else b :: r

structure TypesDraft where
  types? : Option (Entries Json) := none
  aliases? : Option (Entries String) := none

def TypesDraft.finish (d : TypesDraft) : TypesFile := ⟨d.types?.getD [], d.aliases?.getD []⟩

def typesMember : Member TypesDraft := fun d k s =>
  match k, d.types?, d.aliases? with
  | "types", none, _ => (·.map fun ts => { d with types? := some ts }) <$> valueOf k typeMap s
  | "aliases", _, none => (·.map fun as => { d with aliases? := some as }) <$> valueOf k aliasMap s
  | "types", some _, _ => fail (.repeatedField k) (behindBrace s)
  | "aliases", _, some _ => fail (.repeatedField k) (behindBrace s)
  | _, _, _ => inside (.key k) (fail (.unknownField k "`types` or `aliases`") (behindBrace s))

/-- The end of a list that may hold no more items. -/
def listEnd (s : Bytes) : Except Failure Unit :=
  match skipSpace s with
  | [] => fail .eofList []
  | b :: r =>
    if b = closeBracket then .ok ()
    else if b = comma then
      match skipSpace r with
      | [] => fail .trailingCharacters []
      | c :: t => fail (if c = closeBracket then .trailingComma else .trailingCharacters) t
    else fail .trailingCharacters r

/-- A types file as a list of its two parts, either of which may be left out at the end. -/
def typesList (s : Bytes) : Except Failure TypesFile := do
  match ← firstItem s with
  | (false, _) => return {}
  | (true, r) =>
    let ts ← inside (.index 0) (typeMap r)
    match ← nextItem ts.rest with
    | (false, _) => return { types := ts.value }
    | (true, r) =>
      let as ← inside (.index 1) (aliasMap r)
      listEnd as.rest
      return ⟨ts.value, as.value⟩

def typesFile (s : Bytes) : Except Failure TypesFile :=
  match skipSpace s with
  | [] => fail .eofValue []
  | b :: r =>
    if b = openBrace then (·.value.finish) <$> members typesMember {} r
    else if b = openBracket then typesList r
    else refuse "struct TypesFile" (b :: r)

end Scan

namespace TypesFile

/-- Reads a types file and leaves what follows it. -/
def read (source : Bytes) : Except ReadError TypesFile :=
  (Scan.typesFile source).mapError (.ofFailure source)

/-- Defines types one after the other; `n` have been defined before. -/
def defineTypes (n : Nat) (ns : Namespace) : Entries Json → Except TypesError Namespace
  | [] => .ok ns
  | (name, d) :: es => do
    let ns ← (ns.defineType n name d).mapError (.badType name)
    defineTypes (n + 1) ns es

def defineAliases (ns : Namespace) : Entries String → Except TypesError Namespace
  | [] => .ok ns
  | (newName, name) :: es => do
    let ns ← (ns.defineAlias newName name).mapError .badAlias
    defineAliases ns es

def toNamespace (f : TypesFile) : Except TypesError Namespace := do
  defineAliases (← defineTypes 0 {} f.types) f.aliases

end TypesFile

end Stencil
