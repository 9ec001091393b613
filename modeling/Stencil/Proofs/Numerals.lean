import Stencil.Proofs.Encoding
import Stencil.Proofs.Scanning

/-! Integers, read back: the digits of a number stand for it, and nothing that may follow a value is
taken for more of them. -/
namespace Stencil.Scan

open Ascii Utf8

/-- What may follow a numeral: neither a digit nor a point nor an exponent. -/
def Ends (s : Bytes) : Prop := ∀ b ∈ s.head?, isDigit b = false ∧ b ≠ point ∧ isExponentMark b = false

variable {c : Char} {ds : List Char} {n : Nat} {rest : Bytes} {negative : Bool}

theorem digit_bounds (h : c.isDigit = true) : 0x30 ≤ c.toNat ∧ c.toNat ≤ 0x39 := by
  rw [Char.isDigit, Bool.and_eq_true, decide_eq_true_eq, decide_eq_true_eq] at h
  exact ⟨UInt32.le_iff_toNat_le.mp h.1, UInt32.le_iff_toNat_le.mp h.2⟩

theorem isDigit_ofNat (h : c.isDigit = true) : isDigit (UInt8.ofNat c.toNat) = true := by
  obtain ⟨hlow, hhigh⟩ := digit_bounds h
  have hnat : (UInt8.ofNat c.toNat).toNat = c.toNat := toNat_ofNat (by omega)
  rw [isDigit, Bool.and_eq_true, decide_eq_true_eq, decide_eq_true_eq, UInt8.le_iff_toNat_le,
    UInt8.le_iff_toNat_le, hnat]
  exact ⟨hlow, hhigh⟩

theorem encodeChars_digit (h : c.isDigit = true) (ds : List Char) :
    encodeChars (c :: ds) = UInt8.ofNat c.toNat :: encodeChars ds := by
  have := digit_bounds h
  exact encodeChars_cons_of_lt (by omega) ds

theorem isDigit_of_mem (hds : ∀ c ∈ ds, c.isDigit = true) : ∀ b ∈ encodeChars ds, isDigit b = true := by
  induction ds with
  | nil => exact nofun
  | cons c ds ih =>
    obtain ⟨hc, hds⟩ := List.forall_mem_cons.mp hds
    rw [encodeChars_digit hc]
    exact List.forall_mem_cons.mpr ⟨isDigit_ofNat hc, ih hds⟩

/-- All digits are gathered when they stand for a number of 64 bits. -/
theorem gather_digits (hds : ∀ c ∈ ds, c.isDigit = true)
    (hmax : Nat.ofDigitChars 10 ds n < 0x10000000000000000) :
    gather n (encodeChars ds) = (Nat.ofDigitChars 10 ds n, (encodeChars ds).length) := by
  induction ds generalizing n with
  | nil => simp [encodeChars, gather]
  | cons c ds ih =>
    obtain ⟨hc, hds⟩ := List.forall_mem_cons.mp hds
    have hdigit : digit (UInt8.ofNat c.toNat) = c.toNat - '0'.toNat := by
      have := digit_bounds hc
      rw [digit, toNat_ofNat (by omega)]
      rfl
    rw [Nat.ofDigitChars_cons] at hmax ⊢
    have hpos : 0 < 10 ^ ds.length := Nat.pow_pos (by decide)
    have hle : 10 * n + (c.toNat - '0'.toNat) ≤
        Nat.ofDigitChars 10 ds (10 * n + (c.toNat - '0'.toNat)) := by
      rw [Nat.ofDigitChars_eq_ofDigitChars_zero]
      exact Nat.le_add_right_of_le (Nat.le_mul_of_pos_left _ hpos)
    have hstep : n * 10 + digit (UInt8.ofNat c.toNat) = 10 * n + (c.toNat - '0'.toNat) := by
      rw [hdigit, Nat.mul_comm]
    rw [encodeChars_digit hc, gather, hstep, if_pos (Nat.lt_of_le_of_lt hle hmax), ih hds hmax]
    rfl

theorem head_toDigits (hn : 0 < n) : ∀ c ∈ (Nat.toDigits 10 n).head?, c ≠ '0' := by
  induction n using Nat.base_induction 10 (by decide) with
  | single m hm =>
    rw [Nat.toDigits_of_lt_base hm]
    rintro c ⟨⟩
    decide +revert
  | digit m k hk hm ih =>
    rw [← Nat.toDigits_append_toDigits (by decide) hm hk, List.head?_append_of_ne_nil _ Nat.toDigits_ne_nil]
    exact ih hm

section Ending

variable (h : Ends rest)
include h

theorem Ends.any_eq_false {p : UInt8 → Bool} (hp : ∀ b, isDigit b = false ∧ b ≠ point ∧
    isExponentMark b = false → p b = false) : rest.head?.any p = false := by
  cases rest with
  | nil => rfl
  | cons b r => exact hp b (h b rfl)

theorem takeWhile_digits (hds : ∀ c ∈ ds, c.isDigit = true) :
    (encodeChars ds ++ rest).takeWhile isDigit = encodeChars ds := by
  rw [List.takeWhile_append_of_pos (isDigit_of_mem hds)]
  cases rest with
  | nil => simp
  | cons b r => simp [(h b rfl).1]

theorem dropWhile_digits (hds : ∀ c ∈ ds, c.isDigit = true) :
    (encodeChars ds ++ rest).dropWhile isDigit = rest := by
  rw [List.dropWhile_append_of_pos (isDigit_of_mem hds)]
  cases rest with
  | nil => rfl
  | cons b r => simp [(h b rfl).1]

theorem numeralEnd_of_ends (negative : Bool) (n : Nat) :
    numeralEnd negative n 0 rest =
      if !negative then .ok (.int n, rest)
      else if n = 0 ∨ 0x8000000000000000 < n then float true n 0 rest
      else .ok (.int (-n), rest) := by
  have hpoint : rest.head?.any (· == point) = false :=
    h.any_eq_false fun b hb => beq_false_of_ne hb.2.1
  have hmark : rest.head?.any isExponentMark = false := h.any_eq_false fun b hb => hb.2.2
  simp only [numeralEnd, hpoint, hmark, Bool.false_eq_true, ne_eq, not_true_eq_false, or_self,
    if_false]

theorem unsigned_toDigits (hmax : n < 0x10000000000000000) :
    unsigned negative (encodeChars (Nat.toDigits 10 n) ++ rest) = numeralEnd negative n 0 rest := by
  obtain rfl | hpos := Nat.eq_zero_or_pos n
  · have hdigit : rest.head?.any isDigit = false := h.any_eq_false fun b hb => hb.1
    change unsigned negative (zero :: rest) = _
    simp only [unsigned, hdigit, if_true, Bool.false_eq_true, if_false]
  · have hdigits : ∀ c ∈ Nat.toDigits 10 n, c.isDigit = true := fun c hc =>
      Nat.isDigit_of_mem_toDigits (by decide) (by decide) hc
    have hhead := head_toDigits hpos
    have hvalue := @Nat.ofDigitChars_ten_toDigits n
    cases hds : Nat.toDigits 10 n with
    | nil => exact absurd hds Nat.toDigits_ne_nil
    | cons c ds =>
      rw [hds] at hdigits hhead hvalue
      obtain ⟨hc, hds⟩ := List.forall_mem_cons.mp hdigits
      have hbounds := digit_bounds hc
      have hnat : (UInt8.ofNat c.toNat).toNat = c.toNat := toNat_ofNat (by omega)
      have hzero : UInt8.ofNat c.toNat ≠ zero := fun heq =>
        hhead c rfl (Char.toNat_inj.mp (hnat.symm.trans (congrArg UInt8.toNat heq)))
      have hfirst : digit (UInt8.ofNat c.toNat) = 10 * 0 + (c.toNat - '0'.toNat) := by
        rw [digit, hnat]
        simp
      rw [Nat.ofDigitChars_cons] at hvalue
      rw [encodeChars_digit hc, List.cons_append, unsigned, if_neg hzero, if_pos (isDigit_ofNat hc)]
      simp only [takeWhile_digits h hds, dropWhile_digits h hds, hfirst,
        gather_digits hds (hvalue.symm ▸ hmax), hvalue, Nat.sub_self]

end Ending

theorem numeral_takes {k : Number} {s : Bytes} (hk : unsigned negative s = .ok (k, rest)) :
    Takes (numeral negative) s k rest := by
  refine ⟨unsigned_length hk, ?_⟩
  unfold numeral
  split <;> rename_i hs <;> cases hs.symm.trans hk
  rfl

theorem skipSpace_cons {b : UInt8} (hb : isSpace b = false) (r : Bytes) : skipSpace (b :: r) = b :: r := by
  rw [skipSpace, List.dropWhile_cons_of_neg]
  simp [hb]

theorem isSpace_of_isDigit {b : UInt8} (hb : isDigit b = true) : isSpace b = false := by
  have hne : ∀ c, isDigit c = false → (b == c) = false := fun c hc => by
    refine beq_false_of_ne ?_
    rintro rfl
    simp [hb] at hc
  simp only [isSpace, hne 0x20 (by decide), hne 0x09 (by decide), hne 0x0A (by decide),
    hne 0x0D (by decide), Bool.or_self]

theorem text_ofNat (n : Nat) : (Number.int (.ofNat n)).text.toList = Nat.toDigits 10 n := Nat.toList_repr

theorem text_negSucc (n : Nat) : (Number.int (.negSucc n)).text.toList = '-' :: Nat.toDigits 10 (n + 1) := by
  rw [Number.text, Int.toString_eq_repr]
  simp [Int.repr]

/-- The text of an integer of 64 bits is read as that integer. -/
theorem document_int {inner : Option (Reader Json)} {k : Int} (hk : Number.InRange k) (h : Ends rest) :
    Takes (document inner) (encodeChars (Number.int k).text.toList ++ rest) (.number (.int k)) rest := by
  obtain ⟨hlow, hhigh⟩ := hk
  cases k with
  | ofNat n =>
    have hmax : n < 0x10000000000000000 := Int.ofNat_lt.mp hhigh
    have hread : Takes (numeral false) (encodeChars (Nat.toDigits 10 n) ++ rest) (.int n) rest := by
      refine numeral_takes ?_
      rw [unsigned_toDigits h hmax, numeralEnd_of_ends h]
      rfl
    rw [text_ofNat]
    cases hds : Nat.toDigits 10 n with
    | nil => exact absurd hds Nat.toDigits_ne_nil
    | cons c ds =>
      have hc : c.isDigit = true := by
        have hmem : c ∈ Nat.toDigits 10 n := hds ▸ List.mem_cons_self
        exact Nat.isDigit_of_mem_toDigits (by decide) (by decide) hmem
      rw [hds, encodeChars_digit hc, List.cons_append] at hread
      rw [encodeChars_digit hc, List.cons_append]
      exact document_numeral (isDigit_ofNat hc) (skipSpace_cons (isSpace_of_isDigit (isDigit_ofNat hc)) _)
        hread
  | negSucc n =>
    have hread : Takes (numeral true) (encodeChars (Nat.toDigits 10 (n + 1)) ++ rest)
        (.int (.negSucc n)) rest := by
      refine numeral_takes ?_
      have hfits : ¬ (n + 1 = 0 ∨ 0x8000000000000000 < n + 1) := by omega
      rw [unsigned_toDigits h (by omega), numeralEnd_of_ends h, if_neg (by decide), if_neg hfits]
      rfl
    rw [text_negSucc, encodeChars_cons_of_lt (by decide), List.cons_append]
    exact document_negative (skipSpace_cons (by decide) _) hread

end Stencil.Scan
