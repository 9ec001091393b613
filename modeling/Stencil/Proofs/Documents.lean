import Stencil.Tag
import Stencil.Proofs.Entries

/-! Documents by kind, and documents in which no object binds a key twice. -/
namespace Stencil

namespace Json

/-- The items of an array; other documents have none. -/
def items : Json → List Json
  | array vs => vs
  | _ => []

/-- The members of an object; other documents have none. -/
def members : Json → List (String × Json)
  | object ms => ms
  | _ => []

/-- What `f` makes of the items of an array. -/
def mapItems (f : Json → Json) : Json → Json
  | array vs => array (vs.map f)
  | v => v

/-- What `f` makes of the members of an object. -/
def mapMembers (f : List (String × Json) → List (String × Json)) : Json → Json
  | object ms => object (f ms)
  | v => v

/-- No object of the document, at any depth, binds a key twice. -/
inductive KeysDistinct : Json → Prop
  | null : KeysDistinct null
  | bool (b : Bool) : KeysDistinct (bool b)
  | number (n : Number) : KeysDistinct (number n)
  | string (s : String) : KeysDistinct (string s)
  | array {vs : List Json} (items : ∀ v ∈ vs, KeysDistinct v) : KeysDistinct (array vs)
  | object {ms : List (String × Json)} (keys : Entries.Distinct ms)
      (values : ∀ m ∈ ms, KeysDistinct m.2) : KeysDistinct (object ms)

attribute [simp] KeysDistinct.null KeysDistinct.bool KeysDistinct.number KeysDistinct.string

theorem keysDistinct_array_iff {vs : List Json} :
    (array vs).KeysDistinct ↔ ∀ v ∈ vs, v.KeysDistinct :=
  ⟨fun h => by cases h; assumption, .array⟩

theorem keysDistinct_object_iff {ms : List (String × Json)} :
    (object ms).KeysDistinct ↔ Entries.Distinct ms ∧ ∀ m ∈ ms, m.2.KeysDistinct :=
  ⟨fun h => by cases h; exact ⟨‹_›, ‹_›⟩, fun h => .object h.1 h.2⟩

theorem isNull_iff {v : Json} : v.isNull = true ↔ v = null := by
  cases v <;> simp [isNull]

end Json

namespace Tag

theorem array_accepts_iff {v : Json} : array.accepts v = true ↔ ∃ vs, v = .array vs := by
  cases v <;> simp [accepts, describes, Json.kind, ofKind]

theorem object_accepts_iff {v : Json} : object.accepts v = true ↔ ∃ ms, v = .object ms := by
  cases v <;> simp [accepts, describes, Json.kind, ofKind]

/-- A document is of the type of its kind. -/
theorem ofKind_accepts (v : Json) : (ofKind v.kind).accepts v = true := by
  simp [accepts, describes]

end Tag

end Stencil
