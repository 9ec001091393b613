import Stencil.Entries
import Stencil.Number.Basic

/-! Documents: null, booleans, numbers, strings, arrays, and objects whose members are in order. -/
namespace Stencil

inductive Json where
  | null
  | bool (b : Bool)
  | number (n : Number)
  | string (s : String)
  | array (items : List Json)
  | object (members : List (String × Json))

/-- Induction on documents: what holds of all items of an array, or of all members' values of an
object, may be used for the whole. -/
@[elab_as_elim, induction_eliminator]
theorem Json.ind {motive : Json → Prop} (null : motive .null) (bool : ∀ b, motive (.bool b))
    (number : ∀ n, motive (.number n)) (string : ∀ s, motive (.string s))
    (array : ∀ items, (∀ v ∈ items, motive v) → motive (.array items))
    (object : ∀ members, (∀ m ∈ members, motive m.2) → motive (.object members)) (v : Json) :
    motive v :=
  Json.rec null bool number string array object
    (fun _ h => nomatch h) (fun _ _ ih ihs _ h => by
      cases h with
      | head => exact ih
      | tail _ h => exact ihs _ h)
    (fun _ h => nomatch h) (fun _ _ ih ihs _ h => by
      cases h with
      | head => exact ih
      | tail _ h => exact ihs _ h)
    (fun _ _ ih => ih) v

inductive Kind where
  | null
  | array
  | object
  | number
  | string
  | boolean
deriving DecidableEq

namespace Json

def kind : Json → Kind
  | null => .null
  | bool _ => .boolean
  | number _ => .number
  | string _ => .string
  | array _ => .array
  | object _ => .object

def isNull : Json → Bool
  | null => true
  | _ => false

/-- What `f` makes of the items of an array; other documents stay as they are. -/
def onItems {ε : Type} (f : List Json → Except ε (List Json)) : Json → Except ε Json
  | array vs => (f vs).map array
  | v => .ok v

/-- What `f` makes of the members of an object; other documents stay as they are. -/
def onMembers {ε : Type} (f : List (String × Json) → Except ε (List (String × Json))) :
    Json → Except ε Json
  | object ms => (f ms).map object
  | v => .ok v

mutual

/-- Equality up to the order of members: integers compare with integers, floats with floats. -/
def sameValue : Json → Json → Bool
  | null, null => true
  | bool a, bool b => a == b
  | number m, number n => m.sameValue n
  | string s, string t => s == t
  | array xs, array ys => sameItems xs ys
  | object ms, object ns => ms.length == ns.length && sameMembers ms ns
  | _, _ => false

def sameItems : List Json → List Json → Bool
  | [], [] => true
  | x :: xs, y :: ys => sameValue x y && sameItems xs ys
  | _, _ => false

def sameMembers : List (String × Json) → List (String × Json) → Bool
  | [], _ => true
  | (k, v) :: ms, ns =>
    (match Entries.get? ns k with
      | some w => sameValue v w
      | none => false) && sameMembers ms ns

end

def sameValue? : Option Json → Option Json → Bool
  | none, none => true
  | some v, some w => v.sameValue w
  | _, _ => false

end Json

end Stencil
