import Stencil.Number.Shortest

/-! Decimals written out: with all their places, or with an exponent. -/
namespace Stencil

def sign (negative : Bool) : String := if negative then "-" else ""

def zeros (n : Nat) : String := String.ofList (List.replicate n '0')

namespace Decimal

def digitChars (d : Decimal) : List Char := Nat.toDigits 10 d.digits

/-- The place of the first digit: `0` for the ones, `-1` for the tenths. -/
def leadingPlace (d : Decimal) : Int := d.digitChars.length - 1 + d.exponent

/-- All places up to the point, then `whole` or the fraction. -/
def positional (d : Decimal) (whole : String) : String :=
  let cs := d.digitChars
  if 0 ≤ d.exponent then
    String.ofList cs ++ zeros d.exponent.toNat ++ whole
  else
    let places := (-d.exponent).toNat
    if places < cs.length then
      String.ofList (cs.take (cs.length - places)) ++ "." ++ String.ofList (cs.drop (cs.length - places))
    else
      "0." ++ zeros (places - cs.length) ++ String.ofList cs

/-- One digit before the point, the rest after it, and the power of ten; `plus` stands before a
power that is not negative. -/
def scientific (d : Decimal) (plus : String) : String :=
  let lead := String.ofList (d.digitChars.take 1)
  let rest := d.digitChars.drop 1
  let fraction := if rest.isEmpty then "" else "." ++ String.ofList rest
  let power := if 0 ≤ d.leadingPlace then plus ++ toString d.leadingPlace.toNat else toString d.leadingPlace
  lead ++ fraction ++ "e" ++ power

end Decimal

namespace Binary64

/-- The text of a float in JSON: positional from five places after the point to sixteen before it,
and never without a point or an exponent. -/
def jsonText (x : Binary64) : String :=
  let d := x.shortest
  sign x.negative ++
    if -5 ≤ d.leadingPlace ∧ d.leadingPlace ≤ 15 then d.positional ".0" else d.scientific "+"

/-- Plain digits below `10 ^ 21`, an exponent from there on. -/
def plainText (x : Binary64) : String :=
  sign x.negative ++ if x.below (Nat.pow 10 21) then x.shortest.positional "" else x.shortest.scientific ""

end Binary64

end Stencil
