import Stencil.Json.Scan
import Stencil.Number.Basic

/-! Numerals: the numbers that digits, a fraction and an exponent stand for. -/
namespace Stencil.Scan

open Ascii

/-- The value of as many of the digits as fit in 64 bits behind `n`, and their number. -/
def gather (n : Nat) : Bytes → Nat × Nat
  | [] => (n, 0)
  | b :: r =>
    if n * 10 + digit b < 0x10000000000000000 then
      let (m, k) := gather (n * 10 + digit b) r
      (m, k + 1)
    else (n, 0)

/-- The value of `x * 10 ^ exponent` by one rounded power of ten; powers below `10 ^ -308` are divided
off one after the other. -/
def scale? (x : Binary64) (exponent : Int) : Option Binary64 :=
  if x.isZero then
    some x
  else if 308 < exponent then
    none
  else if 0 ≤ exponent then
    (Binary64.ofRatio? false (Nat.pow 10 exponent.toNat) 1).bind x.mul?
  else if -308 ≤ exponent then
    (Binary64.ofRatio? false (Nat.pow 10 (-exponent).toNat) 1).bind x.div?
  else
    ((Binary64.ofRatio? false (Nat.pow 10 308) 1).bind x.div?).bind (scale? · (exponent + 308))
termination_by (-exponent).toNat

/-- The float of a numeral: the significand is rounded, then scaled. -/
def float (negative : Bool) (significand : Nat) (exponent : Int) (rest : Bytes) :
    Except Failure (Number × Bytes) :=
  match (Binary64.ofRatio? negative significand 1).bind (scale? · exponent) with
  | some x => .ok (.float x, rest)
  | none => fail .numberOutOfRange rest

/-- The value of the digits in front of `s`, or what stands behind the digit that takes it to `2 ^ 31`.
-/
def exponentDigits (n : Nat) : Bytes → Except Bytes (Nat × Bytes)
  | [] => .ok (n, [])
  | b :: r =>
    if isDigit b then
      if n * 10 + digit b < 0x80000000 then exponentDigits (n * 10 + digit b) r else .error r
    else .ok (n, b :: r)

/-- Whether an exponent is negative, and what stands behind its sign. -/
def exponentSign : Bytes → Bool × Bytes
  | [] => (false, [])
  | b :: r => if b = minus then (true, r) else if b = plus then (false, r) else (false, b :: r)

/-- An exponent whose mark has been read. One of more than 31 bits gives zero or passes the range. -/
def exponentPart (negative : Bool) (significand : Nat) (exponent : Int) (s : Bytes) :
    Except Failure (Number × Bytes) :=
  match exponentSign s with
  | (_, []) => fail .eofValue []
  | (down, b :: r) =>
    if isDigit b then
      match exponentDigits 0 (b :: r) with
      | .ok (n, t) => float negative significand (if down then exponent - n else exponent + n) t
      | .error t =>
        if significand ≠ 0 ∧ !down then fail .numberOutOfRange t
        else .ok (.float (.zero negative), t.dropWhile isDigit)
    else fail .invalidNumber r

/-- What may follow the digits of a float: an exponent or nothing. -/
def floatEnd (negative : Bool) (significand : Nat) (exponent : Int) (s : Bytes) :
    Except Failure (Number × Bytes) :=
  if s.head?.any isExponentMark then exponentPart negative significand exponent s.tail
  else float negative significand exponent s

/-- The digits behind the point and what may follow them. -/
def fraction (negative : Bool) (significand dropped : Nat) (s : Bytes) :
    Except Failure (Number × Bytes) :=
  match s.takeWhile isDigit with
  | [] => fail (if s.isEmpty then .eofValue else .invalidNumber) s.tail
  | digits =>
    let (n, kept) := gather significand digits
    floatEnd negative n (dropped - kept) (s.dropWhile isDigit)

/-- What may follow the digits before the point, `dropped` of which did not fit in 64 bits: a
fraction, an exponent or nothing. -/
def numeralEnd (negative : Bool) (significand dropped : Nat) (s : Bytes) :
    Except Failure (Number × Bytes) :=
  if s.head?.any (· == point) then fraction negative significand dropped s.tail
  else if dropped ≠ 0 ∨ s.head?.any isExponentMark then floatEnd negative significand dropped s
  else if !negative then .ok (.int significand, s)
  else if significand = 0 ∨ 0x8000000000000000 < significand then float true significand 0 s
  else .ok (.int (-significand), s)

/-- A numeral whose sign has been read. A leading zero is followed by no other digit. -/
def unsigned (negative : Bool) (s : Bytes) : Except Failure (Number × Bytes) :=
  match s with
  | [] => fail .eofValue []
  | b :: r =>
    if b = zero then
      if r.head?.any isDigit then fail .invalidNumber r.tail else numeralEnd negative 0 0 r
    else if isDigit b then
      let digits := r.takeWhile isDigit
      let (n, kept) := gather (digit b) digits
      numeralEnd negative n (digits.length - kept) (r.dropWhile isDigit)
    else fail .invalidNumber r

theorem skipDigits_length (s : Bytes) : (s.dropWhile isDigit).length ≤ s.length :=
  (List.dropWhile_sublist _).length_le

theorem float_length {neg : Bool} {n : Nat} {e : Int} {s t : Bytes} {x : Number}
    (h : float neg n e s = .ok (x, t)) : t = s := by
  simp only [float] at h
  split at h <;> simp_all [fail]

theorem exponentDigits_length {n m : Nat} {s t : Bytes} (h : exponentDigits n s = .ok (m, t)) :
    t.length ≤ s.length := by
  induction s generalizing n with
  | nil => simp_all [exponentDigits]
  | cons b r ih =>
    simp only [exponentDigits] at h
    split at h
    · split at h
      · exact Nat.le_succ_of_le (ih h)
      · simp at h
    · simp_all

theorem exponentDigits_error_length {n : Nat} {s t : Bytes} (h : exponentDigits n s = .error t) :
    t.length ≤ s.length := by
  induction s generalizing n with
  | nil => simp_all [exponentDigits]
  | cons b r ih =>
    simp only [exponentDigits] at h
    split at h
    · split at h
      · exact Nat.le_succ_of_le (ih h)
      · simp_all
    · simp at h

theorem exponentSign_length (s : Bytes) : (exponentSign s).2.length ≤ s.length := by
  cases s with
  | nil => simp [exponentSign]
  | cons b r =>
    simp only [exponentSign]
    split
    · simp
    · split <;> simp

theorem exponentPart_length {neg : Bool} {n : Nat} {e : Int} {s t : Bytes} {x : Number}
    (h : exponentPart neg n e s = .ok (x, t)) : t.length ≤ s.length := by
  have hs := exponentSign_length s
  simp only [exponentPart] at h
  split at h
  · simp [fail] at h
  · rename_i hr
    rw [hr] at hs
    split at h
    · split at h
      · rename_i hd
        rw [float_length h]
        exact Nat.le_trans (exponentDigits_length hd) hs
      · rename_i u hd
        split at h
        · simp [fail] at h
        · have := skipDigits_length u
          cases h
          exact Nat.le_trans this (Nat.le_trans (exponentDigits_error_length hd) hs)
    · simp [fail] at h

theorem floatEnd_length {neg : Bool} {n : Nat} {e : Int} {s t : Bytes} {x : Number}
    (h : floatEnd neg n e s = .ok (x, t)) : t.length ≤ s.length := by
  simp only [floatEnd] at h
  split at h
  · have := exponentPart_length h
    simp only [List.length_tail] at this
    omega
  · exact Nat.le_of_eq (congrArg List.length (float_length h))

theorem fraction_length {neg : Bool} {n k : Nat} {s t : Bytes} {x : Number}
    (h : fraction neg n k s = .ok (x, t)) : t.length ≤ s.length := by
  simp only [fraction] at h
  split at h
  · simp [fail] at h
  · exact Nat.le_trans (floatEnd_length h) (skipDigits_length s)

theorem numeralEnd_length {neg : Bool} {n k : Nat} {s t : Bytes} {x : Number}
    (h : numeralEnd neg n k s = .ok (x, t)) : t.length ≤ s.length := by
  simp only [numeralEnd] at h
  split at h
  · have := fraction_length h
    simp only [List.length_tail] at this
    omega
  · split at h
    · exact floatEnd_length h
    · split at h
      · cases h
        exact Nat.le_refl _
      · split at h
        · exact Nat.le_of_eq (congrArg List.length (float_length h))
        · cases h
          exact Nat.le_refl _

theorem unsigned_length {neg : Bool} {s t : Bytes} {x : Number} (h : unsigned neg s = .ok (x, t)) :
    t.length < s.length := by
  cases s with
  | nil => simp [unsigned, fail] at h
  | cons b r =>
    simp only [unsigned] at h
    split at h
    · split at h
      · simp [fail] at h
      · exact Nat.lt_succ_of_le (numeralEnd_length h)
    · split at h
      · exact Nat.lt_succ_of_le (Nat.le_trans (numeralEnd_length h) (skipDigits_length r))
      · simp [fail] at h

/-- A numeral whose sign, if any, has been read. -/
def numeral (negative : Bool) : Reader Number := fun s =>
  match h : unsigned negative s with
  | .ok (x, t) => .ok ⟨x, t, unsigned_length h⟩
  | .error f => .error f

end Stencil.Scan
