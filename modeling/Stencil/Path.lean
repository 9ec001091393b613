/-! Places inside a document: property names and item numbers from the outside in. -/
namespace Stencil

abbrev Path := List String

namespace Path

/-- The segments joined by dots; the empty path has a name of its own. -/
def text : Path → String
  | [] => "(root)"
  | p => ".".intercalate p

def say (p : Path) (message : String) : String := p.text ++ ": " ++ message

end Path

end Stencil
