import Stencil.Json.Basic

/-! The built-in types. -/
namespace Stencil

/-- `int` refines `number`, `char` refines `string`, and `any` stands for every document. -/
inductive Tag where
  | int
  | number
  | string
  | char
  | boolean
  | null
  | array
  | object
  | any
deriving DecidableEq

namespace Tag

def all : List Tag := [int, number, string, char, boolean, null, array, object, any]

def name : Tag → String
  | int => "int"
  | number => "number"
  | string => "string"
  | char => "char"
  | boolean => "boolean"
  | null => "null"
  | array => "array"
  | object => "object"
  | any => "any"

def ofName? (s : String) : Option Tag := all.find? (·.name = s)

def ofKind : Kind → Tag
  | .null => null
  | .array => array
  | .object => object
  | .number => number
  | .string => string
  | .boolean => boolean

/-- Whether `v` is of type `t`: of its kind, an integral number for `int`, a string of one character
for `char`. Nothing is of type `any`. -/
def describes (t : Tag) (v : Json) : Bool :=
  ofKind v.kind = t ||
    match v, t with
    | .number n, int => n.isInteger
    | .string s, char => s.toList.length == 1
    | _, _ => false

def accepts (t : Tag) (v : Json) : Bool := t = any || t.describes v

theorem ofName?_name (t : Tag) : ofName? t.name = some t := by
  cases t <;> decide

end Tag

end Stencil
