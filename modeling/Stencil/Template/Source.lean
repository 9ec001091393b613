import Stencil.Template.Compile

/-! Templates from the text of their definition. -/
namespace Stencil

inductive SourceError where
  | unreadable (error : ReadError)
  | refused (error : DefinitionError)

namespace SourceError

def chain : SourceError → List String
  | unreadable e => [e.located]
  | refused e => ["invalid template definition", e.message]

def message (e : SourceError) : String := ": ".intercalate e.chain

end SourceError

namespace Template

/-- Compiles the document at the front of `source` against the built-in types. -/
def ofSource (source : Bytes) : Except SourceError Template :=
  match Json.readFirst source with
  | .error e => .error (.unreadable e)
  | .ok d => (compile TypeRef.builtin? d).mapError .refused

end Template

end Stencil
