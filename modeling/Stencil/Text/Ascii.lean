import Stencil.Text.Utf8

/-! The bytes that have a meaning of their own in a document. -/
namespace Stencil.Ascii

def newline : UInt8 := 0x0A

def quote : UInt8 := 0x22

def comma : UInt8 := 0x2C

def colon : UInt8 := 0x3A

def openBracket : UInt8 := 0x5B

def backslash : UInt8 := 0x5C

def closeBracket : UInt8 := 0x5D

def openBrace : UInt8 := 0x7B

def closeBrace : UInt8 := 0x7D

def plus : UInt8 := 0x2B

def minus : UInt8 := 0x2D

def point : UInt8 := 0x2E

def zero : UInt8 := 0x30

def letterF : UInt8 := 0x66

def letterN : UInt8 := 0x6E

def letterT : UInt8 := 0x74

def letterU : UInt8 := 0x75

/-- Space, tab, line feed and carriage return. -/
def isSpace (b : UInt8) : Bool := b == 0x20 || b == 0x09 || b == 0x0A || b == 0x0D

def isDigit (b : UInt8) : Bool := 0x30 ≤ b && b ≤ 0x39

def digit (b : UInt8) : Nat := b.toNat - 0x30

def isExponentMark (b : UInt8) : Bool := b == 0x65 || b == 0x45

def hexDigit? (b : UInt8) : Option Nat :=
  if isDigit b then some (digit b)
  else if 0x61 ≤ b ∧ b ≤ 0x66 then some (b.toNat - 0x57)
  else if 0x41 ≤ b ∧ b ≤ 0x46 then some (b.toNat - 0x37)
  else none

end Stencil.Ascii
