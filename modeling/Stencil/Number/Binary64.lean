/-! Finite binary64 numbers as a sign, a mantissa and an exponent, with exact rounding to the nearest. -/
namespace Stencil

/-- The pairs `(m, q)` that name the magnitude `m * 2 ^ q` of a finite binary64 number, one pair for
each. -/
def Canonical (m : Nat) (q : Int) : Prop :=
  m < 0x20000000000000 ∧ -1074 ≤ q ∧ q ≤ 971 ∧ (0x10000000000000 ≤ m ∨ q = -1074)

instance (m : Nat) (q : Int) : Decidable (Canonical m q) :=
  inferInstanceAs (Decidable (_ ∧ _))

/-- The number `± mantissa * 2 ^ exponent`. Zero has a sign too. -/
structure Binary64 where
  negative : Bool
  mantissa : Nat
  exponent : Int
  canonical : Canonical mantissa exponent
deriving DecidableEq

/-- The integer nearest to `num / den`, a half going to the even one. -/
def roundDiv (num den : Nat) : Nat :=
  let k := num / den
  let r := 2 * (num % den)
  if r < den then k else if den < r then k + 1 else k + k % 2

namespace Binary64

def zero (negative : Bool) : Binary64 := ⟨negative, 0, -1074, by decide⟩

def ofParts? (negative : Bool) (m : Nat) (q : Int) : Option Binary64 :=
  if h : Canonical m q then some ⟨negative, m, q, h⟩ else none

/-- The exponent at which `num / den` has a mantissa of 53 bits, or the least one there is. -/
def exponentFor (num den : Nat) : Int :=
  let q : Int := (num.log2 : Int) - den.log2 - 52
  let q := if num <<< (-q).toNat < den <<< (q.toNat + 52) then q - 1 else q
  if q < -1074 then -1074 else q

/-- The number nearest to `num / den`; `none` when that is past the largest one. -/
def ofRatio? (negative : Bool) (num den : Nat) : Option Binary64 :=
  if num = 0 then
    some (zero negative)
  else
    let q := exponentFor num den
    let m := roundDiv (num <<< (-q).toNat) (den <<< q.toNat)
    if m = 0x20000000000000 then ofParts? negative 0x10000000000000 (q + 1) else ofParts? negative m q

/-- The number nearest to `num / den * 2 ^ q`. -/
def ofScaled? (negative : Bool) (num den : Nat) (q : Int) : Option Binary64 :=
  ofRatio? negative (num <<< q.toNat) (den <<< (-q).toNat)

def isZero (x : Binary64) : Bool := x.mantissa == 0

/-- Equality as numbers: the two zeros are equal. -/
def sameValue (x y : Binary64) : Bool :=
  x.mantissa == y.mantissa && x.exponent == y.exponent && (x.negative == y.negative || x.isZero)

def mul? (x y : Binary64) : Option Binary64 :=
  ofScaled? x.negative (x.mantissa * y.mantissa) 1 (x.exponent + y.exponent)

def div? (x y : Binary64) : Option Binary64 :=
  ofScaled? x.negative x.mantissa y.mantissa (x.exponent - y.exponent)

def below (x : Binary64) (n : Nat) : Bool :=
  x.mantissa <<< x.exponent.toNat < n <<< (-x.exponent).toNat

end Binary64

end Stencil
