import Stencil.Template.Basic
import Stencil.Template.Error
import Stencil.Json.Text

/-! Checking documents against templates, and filling in what they lack. -/
namespace Stencil

/-- Goes on with `k` if `v` may stand where `t` is declared. -/
def Tag.guard (t : Tag) (v : Json) (k : Except Violation Json) : Except Violation Json :=
  if t.accepts v then k else .error (.mismatch [] t v.compact)

namespace Template

/-- The items from the `i`-th on, each replaced by what `f` makes of it. -/
def eachItem (f : Json → Except Violation Json) : Nat → List Json → Except Violation (List Json)
  | _, [] => .ok []
  | i, v :: vs => do
    let w ← (f v).mapError (.under (toString i))
    let ws ← eachItem f (i + 1) vs
    .ok (w :: ws)

/-- The members once the absent property `p` has been seen to. -/
def fillAbsent (fill : Bool) (p : Property Template) (ms : List (String × Json)) : List (String × Json) :=
  match fill, p.template.default? with
  | true, some d => Entries.insert ms p.name d
  | _, _ => ms

mutual

/-- Checks `v`, stopping at the first violation. With `fill`, absent properties are given their
defaults; nothing else is changed. -/
def check (fill : Bool) : Template → Json → Except Violation Json
  | value t _, v => t.guard v (.ok v)
  | array _ none, v => Tag.array.guard v (.ok v)
  | array _ (some item), v =>
    Tag.array.guard v (v.onItems fun vs => eachItem (fun v => check fill item v) 0 vs)
  | object _ ps, v => Tag.object.guard v (v.onMembers fun ms => checkProperties fill ps ms)
  | named d _, v => check fill d.template v

/-- A null counts as present and is never replaced. Members that are not declared pass. -/
def checkProperties (fill : Bool) :
    List (Property Template) → List (String × Json) → Except Violation (List (String × Json))
  | [], ms => .ok ms
  | p :: ps, ms =>
    match Entries.get? ms p.name with
    | some .null => if p.nullable then checkProperties fill ps ms else .error (.notNullable [p.name])
    | some v => do
      let w ← (check fill p.template v).mapError (.under p.name)
      checkProperties fill ps (Entries.insert ms p.name w)
    | none =>
      if p.required || !p.nullable then .error (.missing [p.name])
      else checkProperties fill ps (fillAbsent fill p ms)

end

/-- Checks a document that may be absent. An absent one is filled with the default, if there is one. -/
def validate (fill : Bool) (t : Template) : Option Json → Except Violation (Option Json)
  | some v => (t.check fill v).map some
  | none => if fill then .ok t.default? else .error (.mismatch [] t.tag "nothing")

end Template

end Stencil
