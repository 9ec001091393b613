import Stencil.Words
import Stencil.Json.Reader
import Stencil.Template.Error

/-! The keys of an object definition: a property's name with its modifiers. -/
namespace Stencil

/-- Reads what is left of a line behind `default` as one document. -/
def Words.literal (w : Words) : Except SyntaxFault Json :=
  match w.remainder? with
  | none => .error .missingDefault
  | some s => (Json.readAll (Utf8.encode s)).mapError (.invalidDefault s)

/-- `name [required] [nullable] [default literal]`. A property that is required is not nullable
unless its key says so. -/
structure PropertyKey where
  name : String
  required : Bool
  nullable : Bool
  default? : Option Json

namespace PropertyKey

/-- The modifiers behind a name, the first of them being the current word. -/
def modifiers (name : String) (w : Words) : Except SyntaxFault PropertyKey :=
  let (required, w) := w.accept "required"
  let (nullable, w) := w.accept "nullable"
  match w.current with
  | none => .ok ⟨name, required, nullable || !required, none⟩
  | some "default" => w.literal.map fun v => ⟨name, required, nullable || !required, some v⟩
  | some t => .error (.unexpectedToken t)

def read (s : String) : Except SyntaxFault PropertyKey :=
  let w := (Words.ofString s).next
  match w.current with
  | none => .error .noPropertyName
  | some name => modifiers name w.next

end PropertyKey

end Stencil
