import Stencil.Tag

/-! Compiled templates: the shape that a document has to have, with the defaults for what it lacks. -/
namespace Stencil

structure Property (τ : Type) where
  name : String
  required : Bool
  nullable : Bool
  template : τ

/-- A template under a name. Every definition has an identity of its own, which tells it from others
of the same name and template. -/
structure TypeDef (τ : Type) where
  id : Nat
  name : String
  template : τ

inductive Template where
  /-- A scalar or a document of any type. -/
  | value (tag : Tag) (default? : Option Json)
  /-- An array; without an item template its items are free. -/
  | array (default? : Option Json) (item : Option Template)
  /-- An object with declared properties, in the order in which they are checked. -/
  | object (default? : Option Json) (properties : List (Property Template))
  /-- The use of a defined type, with the default declared there. -/
  | named (definition : TypeDef Template) (default? : Option Json)

/-- Induction on templates: what holds of an item template, of all property templates or of a
definition's template may be used for the whole. -/
@[elab_as_elim, induction_eliminator]
theorem Template.ind {motive : Template → Prop} (value : ∀ tag d, motive (.value tag d))
    (freeArray : ∀ d, motive (.array d none))
    (array : ∀ d item, motive item → motive (.array d (some item)))
    (object : ∀ d ps, (∀ p ∈ ps, motive p.template) → motive (.object d ps))
    (named : ∀ definition d, motive definition.template → motive (.named definition d)) :
    ∀ t, motive t
  | .value tag d => value tag d
  | .array d none => freeArray d
  | .array d (some item) => array d item (ind value freeArray array object named item)
  | .object d ps => object d ps (properties ps)
  | .named ⟨id, name, t⟩ d => named ⟨id, name, t⟩ d (ind value freeArray array object named t)
where
  properties : ∀ ps : List (Property Template), ∀ p ∈ ps, motive p.template
    | ⟨_, _, _, t⟩ :: ps, p, h => by
      cases h with
      | head => exact Template.ind value freeArray array object named t
      | tail _ h => exact properties ps p h

inductive TypeRef where
  | builtin (tag : Tag)
  | defined (definition : TypeDef Template)

namespace Template

/-- The built-in type; a defined type has that of its definition. -/
def tag : Template → Tag
  | value t _ => t
  | array _ _ => .array
  | object _ _ => .object
  | named d _ => d.template.tag

def declaredDefault : Template → Option Json
  | value _ d => d
  | array d _ => d
  | object d _ => d
  | named _ d => d

/-- The default that is in force: a defined type falls back on that of its definition. -/
def default? : Template → Option Json
  | value _ d => d
  | array d _ => d
  | object d _ => d
  | named _ (some v) => some v
  | named d none => d.template.default?

def setDefault (v : Json) : Template → Template
  | value t _ => value t (some v)
  | array _ item => array (some v) item
  | object _ ps => object (some v) ps
  | named d _ => named d (some v)

def property? (name : String) : Template → Option (Property Template)
  | object _ ps => ps.find? (·.name = name)
  | _ => none

def typeName : Template → String
  | named d _ => d.name
  | t => t.tag.name

mutual

/-- Equality of shape and defaults, whatever the identities of the definitions. -/
def sameShape : Template → Template → Bool
  | value t d, value t' d' => t == t' && Json.sameValue? d d'
  | array d (some item), array d' (some item') => Json.sameValue? d d' && sameShape item item'
  | array d none, array d' none => Json.sameValue? d d'
  | object d ps, object d' ps' => Json.sameValue? d d' && sameProperties ps ps'
  | named def₁ d, named def₂ d' =>
    def₁.name == def₂.name && sameShape def₁.template def₂.template && Json.sameValue? d d'
  | _, _ => false

def sameProperties : List (Property Template) → List (Property Template) → Bool
  | [], [] => true
  | p :: ps, q :: qs =>
    p.name == q.name && p.required == q.required && p.nullable == q.nullable &&
      sameShape p.template q.template && sameProperties ps qs
  | _, _ => false

end

end Template

namespace TypeRef

def tag : TypeRef → Tag
  | builtin t => t
  | defined d => d.template.tag

def instantiate (default? : Option Json) : TypeRef → Template
  | builtin .array => .array default? none
  | builtin .object => .object default? []
  | builtin t => .value t default?
  | defined d => .named d default?

/-- Built-in types are the same by tag, defined ones by identity. -/
def same : TypeRef → TypeRef → Bool
  | builtin t, builtin t' => t == t'
  | defined d, defined d' => d.id == d'.id
  | _, _ => false

def builtin? (name : String) : Option TypeRef := (Tag.ofName? name).map builtin

end TypeRef

end Stencil
