import Stencil.Template.Basic
import Stencil.Template.Key

/-! Compiling definitions, which are documents themselves, to templates. -/
namespace Stencil

abbrev Resolver := String → Option TypeRef

namespace Template

/-- A type name behind a colon, with a default or without. -/
def directive (resolve : Resolver) (s : String) : Except DefinitionError Template :=
  let w := (Words.ofString s).next
  match w.current with
  | none => .error (.malformed [] .noTypeName)
  | some name =>
    match resolve name with
    | none => .error (.undefinedType [] name)
    | some ref =>
      let w := w.next
      match w.current with
      | none => .ok (ref.instantiate none)
      | some "default" =>
        match w.literal with
        | .error fault => .error (.malformed [] fault)
        | .ok v =>
          if ref.tag.accepts v then .ok (ref.instantiate (some v))
          else .error (.malformed [] (.conflictingDefault ref.tag))
      | some t => .error (.malformed [] (.unexpectedToken t))

/-- A constant is its own default. -/
def constant (v : Json) : Template := .value (.ofKind v.kind) (some v)

/-- A string is a constant unless it starts with a colon; a second colon escapes the first. -/
def ofText (resolve : Resolver) (s : String) : Except DefinitionError Template :=
  match s.toList with
  | ':' :: ':' :: cs => .ok (constant (.string (String.ofList (':' :: cs))))
  | ':' :: cs => directive resolve (String.ofList cs)
  | _ => .ok (constant (.string s))

/-- An item template carries no default of its own. -/
def ofItem (item : Template) : Except DefinitionError Template :=
  if item.declaredDefault.isSome then .error (.malformed [] .defaultOfItem)
  else .ok (.array none (some item))

/-- The property that a key declares with the template `t`, after properties named `earlier`. -/
def ofKey (earlier : List String) (key : PropertyKey) (t : Template) :
    Except SyntaxFault (Property Template) := do
  let t ← match key.default? with
    | none => .ok t
    | some v =>
      if key.required then .error .defaultOfRequired
      else if t.declaredDefault.isSome then .error .severalDefaults
      else if t.tag.accepts v then .ok (t.setDefault v)
      else .error (.conflictingDefault t.tag)
  if t.tag = .null ∧ !key.nullable then .error .nullNotNullable
  else if key.name ∈ earlier then .error (.repeatedProperty key.name)
  else .ok ⟨key.name, key.required, key.nullable, t⟩

mutual

/-- The template of a definition. An error is the first in the order of the definition. -/
def compile (resolve : Resolver) : Json → Except DefinitionError Template
  | .null => .ok (constant .null)
  | .bool b => .ok (constant (.bool b))
  | .number n => .ok (constant (.number n))
  | .string s => ofText resolve s
  | .array [] => .ok (.array none none)
  | .array [d] => (compile resolve d).bind ofItem
  | .array (_ :: _ :: _) => .error (.malformed [] .severalItems)
  | .object ms => (compileMembers resolve [] ms).map (.object none)

def compileMembers (resolve : Resolver) (earlier : List String) :
    List (String × Json) → Except DefinitionError (List (Property Template))
  | [] => .ok []
  | (s, d) :: ms => do
    let p ← Except.mapError (.under (Words.first s)) do
      let key ← (PropertyKey.read s).mapError (.malformed [])
      let t ← compile resolve d
      (ofKey earlier key t).mapError (.malformed [])
    let ps ← compileMembers resolve (earlier ++ [p.name]) ms
    .ok (p :: ps)

end

end Template

end Stencil
