import Stencil.Path
import Stencil.Tag
import Stencil.Json.Fault

/-! Why a definition is refused, and why a document is. -/
namespace Stencil

inductive SyntaxFault where
  | noTypeName
  | noPropertyName
  | unexpectedToken (token : String)
  | missingDefault
  | invalidDefault (literal : String) (error : ReadError)
  | conflictingDefault (tag : Tag)
  | defaultOfItem
  | severalItems
  | defaultOfRequired
  | severalDefaults
  | nullNotNullable
  | repeatedProperty (name : String)
deriving DecidableEq

def SyntaxFault.message : SyntaxFault → String
  | noTypeName => "bad value template"
  | noPropertyName => "empty property name"
  | unexpectedToken t => "unexpected token '" ++ t ++ "'"
  | missingDefault => "missing default value"
  | invalidDefault literal e => "invalid default value `" ++ literal ++ "`: " ++ e.message
  | conflictingDefault tag => "default value conflicts with declared type " ++ tag.name
  | defaultOfItem => "array item should not have default value"
  | severalItems => "array should not have multiple item templates"
  | defaultOfRequired => "default value assigned to a required property"
  | severalDefaults => "multiple default values"
  | nullNotNullable => "null type must be nullable"
  | repeatedProperty name => "duplicate property '" ++ name ++ "'"

inductive DefinitionError where
  | malformed (path : Path) (fault : SyntaxFault)
  | undefinedType (path : Path) (name : String)
  | undefinedTarget (newName name : String)
  | undefinedImport (name : String)
deriving DecidableEq

namespace DefinitionError

def message : DefinitionError → String
  | malformed path fault => path.say fault.message
  | undefinedType path name => path.say ("undefined type '" ++ name ++ "'")
  | undefinedTarget newName name => "bad alias '" ++ newName ++ "': type '" ++ name ++ "' is undefined"
  | undefinedImport name => "import error: undefined type '" ++ name ++ "'"

def path? : DefinitionError → Option Path
  | malformed path _ => some path
  | undefinedType path _ => some path
  | undefinedTarget _ _ => none
  | undefinedImport _ => none

/-- Whether a name is at fault, and not the wording. -/
def isReference : DefinitionError → Bool
  | malformed _ _ => false
  | _ => true

/-- The same error, seen from the object around the property `segment`. -/
def under (segment : String) : DefinitionError → DefinitionError
  | malformed path fault => malformed (segment :: path) fault
  | undefinedType path name => undefinedType (segment :: path) name
  | e => e

end DefinitionError

/-- Why a document is refused; `found` is the text of what stands in the wrong place. -/
inductive Violation where
  | mismatch (path : Path) (expected : Tag) (found : String)
  | missing (path : Path)
  | notNullable (path : Path)
deriving DecidableEq

namespace Violation

def message : Violation → String
  | mismatch path expected found => path.say ("expects " ++ expected.name ++ " but got " ++ found)
  | missing path => path.say "property is required but missing"
  | notNullable path => path.say "property is not nullable"

def path : Violation → Path
  | mismatch p _ _ => p
  | missing p => p
  | notNullable p => p

/-- The same violation, seen from the array or object around `segment`. -/
def under (segment : String) : Violation → Violation
  | mismatch p expected found => mismatch (segment :: p) expected found
  | missing p => missing (segment :: p)
  | notNullable p => notNullable (segment :: p)

end Violation

end Stencil
