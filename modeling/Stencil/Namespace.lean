import Stencil.Template.Compile

/-! Namespaces: type names, and what they stand for. -/
namespace Stencil

/-- The names defined in a namespace, in the order of their definition. They hide built-in types. -/
structure Namespace where
  bindings : Entries TypeRef := []

namespace Namespace

def names (ns : Namespace) : List String := Entries.keys ns.bindings

/-- What a name stands for: a definition, else a built-in type. -/
def resolve (ns : Namespace) : Resolver := fun name =>
  match Entries.get? ns.bindings name with
  | some ref => some ref
  | none => TypeRef.builtin? name

def compile (ns : Namespace) (definition : Json) : Except DefinitionError Template :=
  Template.compile ns.resolve definition

def bind (ns : Namespace) (name : String) (ref : TypeRef) : Namespace :=
  ⟨Entries.insert ns.bindings name ref⟩

/-- Defines `name` as the template `t`, under an identity of its own. -/
def defineTemplate (ns : Namespace) (id : Nat) (name : String) (t : Template) : Namespace :=
  ns.bind name (.defined ⟨id, name, t⟩)

/-- Defines `name` by a definition, in which `name` still means what it meant before. -/
def defineType (ns : Namespace) (id : Nat) (name : String) (definition : Json) :
    Except DefinitionError Namespace :=
  (ns.compile definition).map (ns.defineTemplate id name)

/-- Makes `newName` another name of what `name` stands for now. -/
def defineAlias (ns : Namespace) (newName name : String) : Except DefinitionError Namespace :=
  match ns.resolve name with
  | some ref => .ok (ns.bind newName ref)
  | none => .error (.undefinedTarget newName name)

/-- What the listed names are bound to; the first one that is not bound is reported. -/
def pick (ns : Namespace) : List String → Except DefinitionError (Entries TypeRef)
  | [] => .ok []
  | name :: names =>
    match Entries.get? ns.bindings name with
    | some ref => (ns.pick names).map ((name, ref) :: ·)
    | none => .error (.undefinedImport name)

/-- Copies the listed names of `other`, or all of them. All are looked up before any is copied. -/
def importFrom (ns other : Namespace) : Option (List String) → Except DefinitionError Namespace
  | none => .ok ⟨Entries.insertAll ns.bindings other.bindings⟩
  | some names => (other.pick names).map fun picked => ⟨Entries.insertAll ns.bindings picked⟩

def imported (other : Namespace) (names : Option (List String)) : Except DefinitionError Namespace :=
  importFrom {} other names

def remove (ns : Namespace) (name : String) : Namespace := ⟨Entries.erase ns.bindings name⟩

end Namespace

end Stencil
