import Stencil.Number.Binary64

/-! The shortest decimal that reads back as a given binary64 number. -/
namespace Stencil

/-- The number `digits * 10 ^ exponent`. -/
structure Decimal where
  digits : Nat
  exponent : Int
deriving DecidableEq, Repr

namespace Binary64

/-- Numerator and denominator of `10 ^ e` in quarters of the last binary place of `x`. -/
def quarters (x : Binary64) (e : Int) : Nat × Nat :=
  (Nat.pow 10 e.toNat <<< (2 - x.exponent).toNat, Nat.pow 10 (-e).toNat <<< (x.exponent - 2).toNat)

/-- Distance in quarters from `x` to the lower end of the interval of reals that round to it. -/
def lowerGap (x : Binary64) : Nat :=
  if x.mantissa = 0x10000000000000 ∧ -1074 < x.exponent then 1 else 2

/-- Whether `d * 10 ^ e` rounds to the magnitude of `x`. The ends of the interval belong to it when
the mantissa is even. -/
def readsBack (x : Binary64) (d : Nat) (e : Int) : Bool :=
  let (a, b) := x.quarters e
  let lo := (4 * x.mantissa - x.lowerGap) * b
  let hi := (4 * x.mantissa + 2) * b
  if x.mantissa % 2 = 0 then lo ≤ d * a && d * a ≤ hi else lo < d * a && d * a < hi

/-- The point of the grid `10 ^ e` that reads back as `x`: of two, the nearer one, or else the even one.
-/
def onGrid? (x : Binary64) (e : Int) : Option Nat :=
  let (a, b) := x.quarters e
  let v := 4 * x.mantissa * b
  let d := v / a
  match x.readsBack d e, x.readsBack (d + 1) e with
  | true, true => some (roundDiv v a)
  | true, false => some d
  | false, true => some (d + 1)
  | false, false => none

/-- Tries the grids from `10 ^ e` downwards; the grid reached after `n` steps is taken as it is. -/
def searchGrids (x : Binary64) : Nat → Int → Decimal
  | 0, e => ⟨let (a, b) := x.quarters e; 4 * x.mantissa * b / a, e⟩
  | n + 1, e =>
    match x.onGrid? e with
    | some d => ⟨d, e⟩
    | none => searchGrids x n (e - 1)

/-- A grid too coarse to tell `x` from zero. -/
def topGrid (x : Binary64) : Nat := ((x.mantissa.log2 : Int) + 1 + x.exponent).toNat / 3 + 1

/-- The magnitude of `x` in the fewest digits that read back. Every number is a point of the grid `10 ^
min 0 q`. -/
def shortest (x : Binary64) : Decimal :=
  if x.isZero then ⟨0, 0⟩
  else x.searchGrids (x.topGrid + (-x.exponent).toNat) x.topGrid

end Binary64

end Stencil
