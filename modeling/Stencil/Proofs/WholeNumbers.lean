import Stencil.Number.Basic
import Stencil.Proofs.ShortestDecimals

/-! Integers among the numbers. A float is taken for an integer by its text; that is right, since the
shortest digits of a number end before the point exactly when the number is whole. -/
namespace Stencil

namespace Binary64

variable {x : Binary64} {d : Decimal}

/-- The number that `x` is. -/
def value (x : Binary64) : ℚ := (if x.negative then -1 else 1) * x.mantissa * 2 ^ x.exponent

def Whole (x : Binary64) : Prop := ∃ k : ℤ, x.value = k

theorem value_eq (x : Binary64) : x.value = x.magnitude ∨ x.value = -x.magnitude := by
  unfold value magnitude
  cases x.negative with
  | false => simp
  | true => simp

theorem abs_value (x : Binary64) : |x.value| = x.magnitude := by
  have hpos : 0 ≤ x.magnitude := by
    unfold magnitude
    positivity
  rcases x.value_eq with h | h
  · rw [h, abs_of_nonneg hpos]
  · rw [h, abs_neg, abs_of_nonneg hpos]

theorem mantissa_ne_zero_iff : x.mantissa ≠ 0 ↔ x.value ≠ 0 := by
  rw [← abs_pos, abs_value, magnitude]
  have hpos : (0 : ℚ) < 2 ^ x.exponent := by positivity
  rw [mul_pos_iff_of_pos_right hpos, Nat.cast_pos, Nat.pos_iff_ne_zero]

/-- The sign is no matter for being whole. -/
theorem whole_iff : x.Whole ↔ ∃ k : ℕ, x.magnitude = k := by
  constructor
  · rintro ⟨k, hk⟩
    refine ⟨k.natAbs, ?_⟩
    rw [← abs_value, hk, Nat.cast_natAbs, Int.cast_abs]
  · rintro ⟨k, hk⟩
    rcases x.value_eq with h | h
    · exact ⟨k, by rw [h, hk, Int.cast_natCast]⟩
    · exact ⟨-k, by rw [h, hk, Int.cast_neg, Int.cast_natCast]⟩

theorem below_iff (x : Binary64) (n : ℕ) : x.below n = true ↔ |x.value| < n := by
  have hpos : (0 : ℚ) < 2 ^ (-x.exponent).toNat := by positivity
  rw [below, decide_eq_true_eq, abs_value, magnitude, zpow_eq_div (by norm_num) x.exponent, ← mul_div_assoc,
    div_lt_iff₀ hpos, Nat.shiftLeft_eq, Nat.shiftLeft_eq]
  norm_cast

/-- A number that is not whole has no whole number in its interval: whole numbers are multiples of its
last place. -/
theorem Encloses.whole {n : ℕ} (h : x.Encloses n) : x.Whole := by
  rw [whole_iff]
  rcases Int.le_total 0 x.exponent with hq | hq
  · exact ⟨_, magnitude_of_nonneg hq⟩
  · have hmagnitude := magnitude_of_nonpos hq
    have hquarter : 4 * (2 : ℚ) ^ (x.exponent - 2) = 1 / 2 ^ (-x.exponent).toNat := by
      rw [← two_zpow_eq, zpow_eq_div (by norm_num), Int.toNat_of_nonpos hq, pow_zero]
    generalize (-x.exponent).toNat = k at hmagnitude hquarter
    have hpos : (0 : ℚ) < 2 ^ k := by positivity
    obtain ⟨hlower, hupper⟩ := Covers.near h
    have hlow : 2 * (x.mantissa : ℚ) ≤ 2 * (n * 2 ^ k) + 1 := by
      have hscaled : (2 * x.mantissa - 1) * (1 / 2 ^ k) ≤ 2 * (n : ℚ) := by
        rw [← hquarter]
        linarith
      rw [mul_one_div, div_le_iff₀ hpos] at hscaled
      linarith
    have hhigh : 2 * ((n : ℚ) * 2 ^ k) ≤ 2 * x.mantissa + 1 := by
      have hscaled : 2 * (n : ℚ) ≤ (2 * x.mantissa + 1) * (1 / 2 ^ k) := by
        rw [← hquarter]
        linarith
      rw [mul_one_div, le_div_iff₀ hpos] at hscaled
      linarith
    have hlow : 2 * x.mantissa ≤ 2 * (n * 2 ^ k) + 1 := by exact_mod_cast hlow
    have hhigh : 2 * (n * 2 ^ k) ≤ 2 * x.mantissa + 1 := by exact_mod_cast hhigh
    have hm : x.mantissa = n * 2 ^ k := by omega
    refine ⟨n, ?_⟩
    rw [hmagnitude, hm, div_eq_iff hpos.ne']
    push_cast
    rfl

/-- What rounds to a number of at least one is more than nine tenths. -/
theorem Encloses.nine_tenths_lt {r : ℚ} (h : x.Encloses r) (hx : 1 ≤ x.magnitude) : 9 / 10 < r := by
  have hm : 0x10000000000000 ≤ x.mantissa := by
    obtain ⟨hlt, -, hfull | hleast⟩ := x.normal
    · exact hfull
    · have hsmall : x.magnitude < 1 := by
        calc x.magnitude = x.mantissa * 2 ^ (-1074 : ℤ) := by rw [magnitude, hleast]
          _ ≤ x.mantissa * 2 ^ (-53 : ℤ) := by
            gcongr
            · norm_num
            · norm_num
          _ < 0x20000000000000 * 2 ^ (-53 : ℤ) := by
            gcongr
            exact_mod_cast hlt
          _ = 1 := by norm_num
      linarith
  have hpos : (0 : ℚ) < 2 ^ (x.exponent - 2) := by positivity
  have hmq : (0x10000000000000 : ℚ) ≤ x.mantissa := by exact_mod_cast hm
  have hlower : 9 / 10 * x.magnitude < (4 * x.mantissa - 2) * 2 ^ (x.exponent - 2) := by
    rw [magnitude_eq, ← mul_assoc]
    gcongr
    linarith
  have hr := (Covers.near h).1
  linarith

/-- A decimal in one digit with a fraction is too small for a number of at least one. -/
theorem not_encloses_of_single (hx : 1 ≤ x.magnitude) (hd : d.digitChars.length ≤ 1) (he : d.exponent < 0) :
    ¬ x.Encloses d.value := by
  intro h
  have hdigits : d.digits < 10 := (d.length_digitChars_le_iff Nat.one_pos).mp hd
  have hnine : (d.digits : ℚ) ≤ 9 := by exact_mod_cast Nat.lt_succ_iff.mp hdigits
  have htenth : (10 : ℚ) ^ d.exponent ≤ 10 ^ (-1 : ℤ) := zpow_le_zpow_right₀ (by norm_num) (by omega)
  have hsmall : d.value ≤ 9 / 10 := by
    calc d.value ≤ 9 * 10 ^ (-1 : ℤ) := by
          unfold Decimal.value
          gcongr
      _ = 9 / 10 := by norm_num
  have hlarge := h.nine_tenths_lt hx
  linarith

/-- No decimal of a whole number in the fewest digits has a fraction: it would lie beyond a power of ten,
for which one digit is enough. -/
theorem IsShortest.exponent_nonneg (hx : x.mantissa ≠ 0) (h : x.IsShortest d) (hwhole : x.Whole) :
    0 ≤ d.exponent := by
  by_contra hfraction
  obtain ⟨k, hk⟩ := whole_iff.mp hwhole
  have hd : x.Encloses d.value := nearest?_eq_some_iff.mp h.readsBack
  have hself : x.Encloses (Decimal.value ⟨k, 0⟩) := by
    rw [Decimal.value, zpow_zero, mul_one, ← hk]
    exact x.encloses_magnitude
  have hne : k ≠ 0 := hself.digits_ne_zero hx
  have hplaces : d.leadingPlace < Decimal.leadingPlace ⟨k, 0⟩ := by
    have hlength := h.fewest ⟨k, 0⟩ (nearest?_eq_some_iff.mpr hself)
    unfold Decimal.leadingPlace
    dsimp only
    omega
  obtain ⟨hbelow, habove⟩ := Decimal.power_between hne hplaces
  have hpower : x.Encloses (Decimal.value ⟨1, Decimal.leadingPlace ⟨k, 0⟩⟩) := by
    rw [Decimal.value_power]
    exact hd.between hself hbelow habove
  have hsingle : d.digitChars.length ≤ 1 := by
    rw [← Decimal.length_digitChars_power]
    exact h.fewest _ (nearest?_eq_some_iff.mpr hpower)
  refine not_encloses_of_single ?_ hsingle (by omega) hd
  rw [hk]
  exact_mod_cast Nat.one_le_iff_ne_zero.mpr hne

/-- In the fewest digits, a number is written without a fraction exactly if it has none. -/
theorem IsShortest.exponent_nonneg_iff (hx : x.mantissa ≠ 0) (h : x.IsShortest d) :
    0 ≤ d.exponent ↔ x.Whole := by
  refine ⟨fun he => ?_, h.exponent_nonneg hx⟩
  have hd : x.Encloses d.value := nearest?_eq_some_iff.mp h.readsBack
  obtain ⟨k, hk⟩ := Int.eq_ofNat_of_zero_le he
  have hvalue : d.value = (d.digits * 10 ^ k : ℕ) := by
    rw [Decimal.value, hk, zpow_natCast]
    push_cast
    rfl
  rw [hvalue] at hd
  exact hd.whole

theorem shortest_exponent_nonneg_iff (x : Binary64) : 0 ≤ x.shortest.exponent ↔ x.Whole := by
  by_cases hx : x.mantissa = 0
  · have hzero : x.shortest = ⟨0, 0⟩ := by
      rw [shortest, isZero, hx]
      rfl
    rw [hzero, whole_iff, magnitude, hx]
    exact iff_of_true le_rfl ⟨0, by simp⟩
  · exact (shortest_isShortest hx).exponent_nonneg_iff hx

end Binary64

/-- An optional sign, then one digit or more. -/
def SignedDigits (s : String) : Prop :=
  ∃ sign ∈ [[], ['+'], ['-']], ∃ digits, digits ≠ [] ∧ (∀ c ∈ digits, c.isDigit = true) ∧
    s.toList = sign ++ digits

theorem isIntegerText_iff {s : String} : isIntegerText s = true ↔ SignedDigits s := by
  unfold isIntegerText SignedDigits
  rw [Bool.and_eq_true, Bool.not_eq_true', List.isEmpty_eq_false_iff, List.all_eq_true]
  constructor
  · rintro ⟨hne, hdigits⟩
    revert hne hdigits
    split
    · rename_i cs hs
      exact fun hne hdigits => ⟨['+'], by simp, cs, hne, hdigits, hs⟩
    · rename_i cs hs
      exact fun hne hdigits => ⟨['-'], by simp, cs, hne, hdigits, hs⟩
    · exact fun hne hdigits => ⟨[], by simp, _, hne, hdigits, rfl⟩
  · rintro ⟨sign, hsign, digits, hne, hdigits, hs⟩
    rw [hs]
    rcases List.mem_cons.mp hsign with rfl | hsign
    · rw [List.nil_append]
      split
      · exact absurd (hdigits '+' List.mem_cons_self) (by decide)
      · exact absurd (hdigits '-' List.mem_cons_self) (by decide)
      · exact ⟨hne, hdigits⟩
    · rcases List.mem_pair.mp hsign with rfl | rfl
      · exact ⟨hne, hdigits⟩
      · exact ⟨hne, hdigits⟩

theorem SignedDigits.tail {s : String} (h : SignedDigits s) : ∀ c ∈ s.toList.tail, c.isDigit = true := by
  obtain ⟨sign, hsign, digits, -, hdigits, hs⟩ := h
  intro c hc
  rw [hs] at hc
  rcases List.mem_cons.mp hsign with rfl | hsign
  · exact hdigits c (List.mem_of_mem_tail hc)
  · rcases List.mem_pair.mp hsign with rfl | rfl
    · exact hdigits c hc
    · exact hdigits c hc

/-- Behind the sign there is a digit; whether the number is an integer depends on what follows. -/
theorem signedDigits_sign_iff (negative : Bool) {t : String} (ht : ∃ c ∈ t.toList.head?, c.isDigit = true) :
    SignedDigits (sign negative ++ t) ↔ ∀ c ∈ t.toList, c.isDigit = true := by
  obtain ⟨c, hhead, hc⟩ := ht
  obtain ⟨cs, hcs⟩ := List.head?_eq_some_iff.mp hhead
  constructor
  · intro h
    have htail := h.tail
    rw [hcs]
    refine List.forall_mem_cons.mpr ⟨hc, fun b hb => htail b ?_⟩
    rw [String.toList_append, hcs]
    cases negative with
    | false => exact hb
    | true => exact List.mem_cons_of_mem c hb
  · intro h
    refine ⟨(sign negative).toList, ?_, t.toList, ?_, h, String.toList_append⟩
    · cases negative with
      | false => exact List.mem_cons_self
      | true => exact List.mem_cons_of_mem _ (List.mem_cons_of_mem _ List.mem_cons_self)
    · rw [hcs]
      exact List.cons_ne_nil c cs

namespace Decimal

variable {d : Decimal}

theorem isDigit_of_mem_digitChars {c : Char} (hc : c ∈ d.digitChars) : c.isDigit = true :=
  Nat.isDigit_of_mem_toDigits (by decide) (by decide) hc

theorem digitChars_eq_cons (d : Decimal) : ∃ c cs, d.digitChars = c :: cs ∧ c.isDigit = true := by
  obtain ⟨c, cs, hcs⟩ : ∃ c cs, d.digitChars = c :: cs := List.exists_cons_of_ne_nil Nat.toDigits_ne_nil
  refine ⟨c, cs, hcs, isDigit_of_mem_digitChars (d := d) ?_⟩
  rw [hcs]
  exact List.mem_cons_self

theorem toList_zeros (n : ℕ) : (zeros n).toList = List.replicate n '0' := String.toList_ofList

theorem positional_head (d : Decimal) (whole : String) :
    ∃ c ∈ (d.positional whole).toList.head?, c.isDigit = true := by
  obtain ⟨c, cs, hcs, hc⟩ := d.digitChars_eq_cons
  unfold positional
  dsimp only
  rw [hcs]
  split
  · exact ⟨c, by simp, hc⟩
  · split
    · rename_i hplaces
      obtain ⟨k, hk⟩ : ∃ k, (c :: cs).length - (-d.exponent).toNat = k + 1 :=
        Nat.exists_eq_succ_of_ne_zero (by omega)
      rw [hk]
      exact ⟨c, by simp, hc⟩
    · exact ⟨'0', by simp, by decide⟩

/-- Written with all its places, a decimal is made of digits only if it has no place behind the point. -/
theorem positional_digits_iff (d : Decimal) :
    (∀ c ∈ (d.positional "").toList, c.isDigit = true) ↔ 0 ≤ d.exponent := by
  unfold positional
  dsimp only
  split
  · rename_i he
    refine iff_of_true (fun c hc => ?_) he
    rw [String.append_empty, String.toList_append, String.toList_ofList, toList_zeros] at hc
    rcases List.mem_append.mp hc with hc | hc
    · exact isDigit_of_mem_digitChars hc
    · rw [List.eq_of_mem_replicate hc]
      decide
  · rename_i he
    refine iff_of_false (fun h => ?_) he
    have hpoint := h '.'
    revert hpoint
    split
    · simp
    · simp

theorem scientific_head (d : Decimal) (plus : String) :
    ∃ c ∈ (d.scientific plus).toList.head?, c.isDigit = true := by
  obtain ⟨c, cs, hcs, hc⟩ := d.digitChars_eq_cons
  unfold scientific
  rw [hcs]
  exact ⟨c, by simp, hc⟩

theorem scientific_not_digits (d : Decimal) (plus : String) :
    ¬ ∀ c ∈ (d.scientific plus).toList, c.isDigit = true := by
  intro h
  have hmark := h 'e' (by simp [scientific])
  exact absurd hmark (by decide)

theorem signedDigits_positional_iff (d : Decimal) (negative : Bool) :
    SignedDigits (sign negative ++ d.positional "") ↔ 0 ≤ d.exponent := by
  rw [signedDigits_sign_iff negative (d.positional_head ""), positional_digits_iff]

theorem not_signedDigits_scientific (d : Decimal) (negative : Bool) :
    ¬ SignedDigits (sign negative ++ d.scientific "") := by
  rw [signedDigits_sign_iff negative (d.scientific_head "")]
  exact d.scientific_not_digits ""

end Decimal

theorem Binary64.signedDigits_plainText_iff (x : Binary64) :
    SignedDigits x.plainText ↔ x.Whole ∧ |x.value| < 10 ^ 21 := by
  have hbelow : x.below (Nat.pow 10 21) = true ↔ |x.value| < 10 ^ 21 := by
    rw [below_iff, Nat.pow_eq, Nat.cast_pow, Nat.cast_ofNat]
  unfold Binary64.plainText
  split
  · rename_i hx
    rw [Decimal.signedDigits_positional_iff, shortest_exponent_nonneg_iff]
    exact (and_iff_left (hbelow.mp hx)).symm
  · rename_i hx
    exact iff_of_false (Decimal.not_signedDigits_scientific _ _) fun h => hx (hbelow.mpr h.2)

namespace Number

/-- A number is an integer by its text exactly if it is stored as one, or is a float of a whole value
below `10 ^ 21`. -/
theorem integer_iff_whole :
    (∀ n : Number, n.isInteger = true ↔
      (∃ k, n = .int k) ∨ ∃ x, n = .float x ∧ x.Whole ∧ |x.value| < 10 ^ 21) ∧
    (∀ x : Binary64, SignedDigits x.plainText ↔ x.Whole ∧ |x.value| < 10 ^ 21) ∧
    (∀ x : Binary64, SignedDigits (sign x.negative ++ x.shortest.positional "") ↔ x.Whole) ∧
    ∀ x : Binary64, x.value ≠ 0 → x.IsShortest x.shortest ∧
      ∀ d, x.IsShortest d → (SignedDigits (sign x.negative ++ d.positional "") ↔ x.Whole) := by
  refine ⟨fun n => ?_, fun x => x.signedDigits_plainText_iff, fun x => ?_, fun x hx => ?_⟩
  · cases n with
    | int k => simp [isInteger]
    | float x => simp [isInteger, isIntegerText_iff, x.signedDigits_plainText_iff]
  · rw [Decimal.signedDigits_positional_iff, Binary64.shortest_exponent_nonneg_iff]
  · have hm : x.mantissa ≠ 0 := Binary64.mantissa_ne_zero_iff.mpr hx
    refine ⟨Binary64.shortest_isShortest hm, fun d hd => ?_⟩
    rw [Decimal.signedDigits_positional_iff, hd.exponent_nonneg_iff hm]

example : isInteger (.float (.zero true)) = true := by decide

def twoAndAHalf : Binary64 := ⟨false, 0x14000000000000, -51, by decide⟩

theorem twoAndAHalf_not_whole : twoAndAHalf.value ≠ 0 ∧ twoAndAHalf.IsShortest ⟨25, -1⟩ ∧
    ¬ twoAndAHalf.Whole ∧ ¬ SignedDigits "2.5" := by
  obtain ⟨-, -, -, hfloat⟩ := integer_iff_whole
  have hvalue : twoAndAHalf.value = 5 / 2 := by
    unfold Binary64.value twoAndAHalf
    norm_num
  have hzero : twoAndAHalf.value ≠ 0 := by
    rw [hvalue]
    norm_num
  have hwhole : ¬ twoAndAHalf.Whole := by
    rintro ⟨k, hk⟩
    rw [hvalue, div_eq_iff (by norm_num)] at hk
    have hodd : 5 = k * 2 := by exact_mod_cast hk
    omega
  obtain ⟨hshortest, htext⟩ := hfloat twoAndAHalf hzero
  have hdecimal : twoAndAHalf.shortest = ⟨25, -1⟩ := by decide +kernel
  rw [hdecimal] at hshortest
  exact ⟨hzero, hshortest, hwhole, (htext ⟨25, -1⟩ hshortest).not.mpr hwhole⟩

end Number

end Stencil
