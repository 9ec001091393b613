import Stencil.Number.Text

/-! Numbers as they stand in a document: integers of 64 bits, and floats. -/
namespace Stencil

/-- An integer has no fraction and no exponent in its text, and lies between `-2 ^ 63` and `2 ^ 64 - 1`.
-/
inductive Number where
  | int (n : Int)
  | float (x : Binary64)
deriving DecidableEq

/-- An optional sign followed by digits only. -/
def isIntegerText (s : String) : Bool :=
  let digits := match s.toList with
    | '+' :: cs => cs
    | '-' :: cs => cs
    | cs => cs
  !digits.isEmpty && digits.all Char.isDigit

namespace Number

def text : Number → String
  | int n => toString n
  | float x => x.jsonText

/-- A number is integral when its plain text has neither a fraction nor an exponent. -/
def isInteger : Number → Bool
  | int _ => true
  | float x => isIntegerText x.plainText

/-- Integers compare with integers and floats with floats; the two zeros are equal. -/
def sameValue : Number → Number → Bool
  | int m, int n => m == n
  | float x, float y => x.sameValue y
  | _, _ => false

/-- The integers that are kept as such. -/
def InRange (n : Int) : Prop := -0x8000000000000000 ≤ n ∧ n < 0x10000000000000000

end Number

end Stencil
