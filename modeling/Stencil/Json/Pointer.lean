import Stencil.Json.Basic
import Stencil.Text.Pieces

/-! Selecting a part of a document by a pointer such as `/items/0/name`. -/
namespace Stencil

namespace Pointer

/-- In a step `~1` stands for a slash and `~0` for a tilde. -/
def unescape : List Char → List Char
  | '~' :: '1' :: cs => '/' :: unescape cs
  | '~' :: '0' :: cs => '~' :: unescape cs
  | c :: cs => c :: unescape cs
  | [] => []

/-- The steps of a pointer, which starts with a slash unless it selects the whole document. -/
def steps? (s : String) : Option (List String) :=
  match s.toList with
  | [] => some []
  | '/' :: cs => some ((pieces '/' cs).map (String.ofList ∘ unescape))
  | _ => none

/-- An item number: digits without a leading zero, below `2 ^ 64`. -/
def index? (s : String) : Option Nat :=
  let cs := s.toList
  if cs.isEmpty || !cs.all Char.isDigit || (cs.head? == some '0' && cs.length != 1) then none
  else
    let n := cs.foldl (fun n c => n * 10 + (c.toNat - '0'.toNat)) 0
    if n < 0x10000000000000000 then some n else none

end Pointer

namespace Json

def child? : Json → String → Option Json
  | object ms, s => Entries.get? ms s
  | array vs, s => (Pointer.index? s).bind (vs[·]?)
  | _, _ => none

/-- What the pointer selects in `v`. -/
def select? (v : Json) (pointer : String) : Option Json :=
  (Pointer.steps? pointer).bind fun ss => ss.foldlM child? v

end Json

end Stencil
