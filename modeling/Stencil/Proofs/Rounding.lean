import Mathlib.Algebra.Order.Field.Power
import Mathlib.Tactic.FieldSimp
import Mathlib.Tactic.Linarith
import Mathlib.Tactic.NormNum
import Mathlib.Tactic.Positivity
import Mathlib.Tactic.Ring
import Stencil.Number.Shortest

/-! Rounding to the nearest number, over the rationals. Every number has an interval of rationals that round
to it; no two intervals meet, and rounding a quotient finds the number whose interval it lies in. -/
namespace Stencil

/-- A power with an exponent of either sign, as it is computed from two that are not negative. -/
theorem zpow_eq_div {b : ℚ} (hb : b ≠ 0) (e : ℤ) : b ^ e = b ^ e.toNat / b ^ (-e).toNat := by
  rw [eq_div_iff (pow_ne_zero _ hb), ← zpow_natCast, ← zpow_natCast, ← zpow_add₀ hb]
  congr 1
  omega

/-- The nearest integer is off by half a unit at most, and by less if it is odd. -/
theorem roundDiv_bounds (num : ℕ) {den : ℕ} (hden : 0 < den) :
    2 * (roundDiv num den * den) ≤ 2 * num + den ∧ 2 * num ≤ 2 * (roundDiv num den * den) + den ∧
      (roundDiv num den % 2 = 1 → 2 * (roundDiv num den * den) < 2 * num + den ∧
        2 * num < 2 * (roundDiv num den * den) + den) := by
  have hnum : num / den * den + num % den = num := Nat.div_add_mod' num den
  have hmod : num % den < den := Nat.mod_lt num hden
  have hsucc : (num / den + 1) * den = num / den * den + den := Nat.succ_mul _ _
  unfold roundDiv
  dsimp only
  split
  · omega
  · split
    · rw [hsucc]
      omega
    · -- half-way between two integers, of which the even one is taken
      rcases Nat.mod_two_eq_zero_or_one (num / den) with heven | hodd
      · rw [heven, Nat.add_zero]
        omega
      · rw [hodd, hsucc]
        omega

/-- `k` is the integer nearest to `t`, or the even one of two that are equally near. -/
structure RoundsTo (t : ℚ) (k : ℕ) : Prop where
  low : 2 * (k : ℚ) ≤ 2 * t + 1
  high : 2 * t ≤ 2 * (k : ℚ) + 1
  odd : k % 2 = 1 → 2 * (k : ℚ) < 2 * t + 1 ∧ 2 * t < 2 * (k : ℚ) + 1

theorem roundDiv_roundsTo (num : ℕ) {den : ℕ} (hden : 0 < den) :
    RoundsTo ((num : ℚ) / den) (roundDiv num den) := by
  obtain ⟨hlow, hhigh, hodd⟩ := roundDiv_bounds num hden
  generalize roundDiv num den = k at *
  have hpos : (0 : ℚ) < den := by exact_mod_cast hden
  have hscale : (num : ℚ) / den * den = num := div_mul_cancel₀ _ hpos.ne'
  generalize (num : ℚ) / den = t at *
  have hcast : ∀ {a b : ℕ}, a ≤ b → (a : ℚ) ≤ b := fun h => by exact_mod_cast h
  have hcast' : ∀ {a b : ℕ}, a < b → (a : ℚ) < b := fun h => by exact_mod_cast h
  have hlow := hcast hlow
  have hhigh := hcast hhigh
  push_cast at hlow hhigh
  refine ⟨?_, ?_, fun hk => ?_⟩
  · refine le_of_mul_le_mul_right ?_ hpos
    linarith
  · refine le_of_mul_le_mul_right ?_ hpos
    linarith
  · obtain ⟨hlow, hhigh⟩ := hodd hk
    have hlow := hcast' hlow
    have hhigh := hcast' hhigh
    push_cast at hlow hhigh
    constructor
    · refine lt_of_mul_lt_mul_right ?_ hpos.le
      linarith
    · refine lt_of_mul_lt_mul_right ?_ hpos.le
      linarith

namespace Binary64

/-- The pairs that name a magnitude as canonical ones do, without a greatest exponent. -/
def Normal (m : ℕ) (q : ℤ) : Prop :=
  m < 0x20000000000000 ∧ -1074 ≤ q ∧ (0x10000000000000 ≤ m ∨ q = -1074)

/-- In quarters of the last place, how far below `m * 2 ^ q` the numbers begin that round to it. -/
def gapBelow (m : ℕ) (q : ℤ) : ℕ := if m = 0x10000000000000 ∧ -1074 < q then 1 else 2

def lower (m : ℕ) (q : ℤ) : ℚ := (4 * m - gapBelow m q) * 2 ^ (q - 2)

def upper (m : ℕ) (q : ℤ) : ℚ := (4 * m + 2) * 2 ^ (q - 2)

/-- The interval of the rationals that round to `m * 2 ^ q`. Its ends belong to it if `m` is even. -/
def Covers (m : ℕ) (q : ℤ) (r : ℚ) : Prop :=
  if m % 2 = 0 then lower m q ≤ r ∧ r ≤ upper m q else lower m q < r ∧ r < upper m q

variable {m m' : ℕ} {q q' : ℤ} {r s t : ℚ}

theorem two_zpow_eq (q : ℤ) : (2 : ℚ) ^ q = 4 * 2 ^ (q - 2) := by
  rw [zpow_sub₀ (by norm_num)]
  norm_num
  ring

theorem one_le_gapBelow (m : ℕ) (q : ℤ) : 1 ≤ gapBelow m q := by
  unfold gapBelow
  split <;> omega

theorem gapBelow_le_two (m : ℕ) (q : ℤ) : gapBelow m q ≤ 2 := by
  unfold gapBelow
  split <;> omega

theorem Covers.bounds (h : Covers m q r) : lower m q ≤ r ∧ r ≤ upper m q := by
  unfold Covers at h
  split at h
  · exact h
  · exact ⟨h.1.le, h.2.le⟩

/-- What rounds to a magnitude is off by half a unit in the last place at most. -/
theorem Covers.near (h : Covers m q r) :
    (4 * m - 2 : ℚ) * 2 ^ (q - 2) ≤ r ∧ r ≤ (4 * m + 2 : ℚ) * 2 ^ (q - 2) := by
  have hgap : (gapBelow m q : ℚ) ≤ 2 := by exact_mod_cast gapBelow_le_two m q
  refine ⟨le_trans ?_ h.bounds.1, h.bounds.2⟩
  unfold lower
  gcongr

theorem Covers.bounds_of_odd (h : Covers m q r) (hm : m % 2 = 1) : lower m q < r ∧ r < upper m q := by
  unfold Covers at h
  rwa [if_neg (by omega)] at h

theorem covers_of_lt (hlower : lower m q < r) (hupper : r < upper m q) : Covers m q r := by
  unfold Covers
  split
  · exact ⟨hlower.le, hupper.le⟩
  · exact ⟨hlower, hupper⟩

theorem Covers.between (hr : Covers m q r) (ht : Covers m q t) (hrs : r ≤ s) (hst : s ≤ t) : Covers m q s := by
  unfold Covers at hr ht ⊢
  split
  · rename_i heven
    rw [if_pos heven] at hr ht
    exact ⟨hr.1.trans hrs, hst.trans ht.2⟩
  · rename_i hodd
    rw [if_neg hodd] at hr ht
    exact ⟨hr.1.trans_le hrs, hst.trans_lt ht.2⟩

/-- What a pair names rounds to itself. -/
theorem covers_self (m : ℕ) (q : ℤ) : Covers m q (m * 2 ^ q) := by
  have hpos : (0 : ℚ) < 2 ^ (q - 2) := by positivity
  have hgap : (1 : ℚ) ≤ gapBelow m q := by exact_mod_cast one_le_gapBelow m q
  apply covers_of_lt
  · rw [lower, two_zpow_eq q]
    nlinarith
  · rw [upper, two_zpow_eq q]
    nlinarith

/-- The smaller of two magnitudes has no greater exponent. -/
theorem Normal.le_exponent (h : Normal m q) (h' : Normal m' q') (hle : (m : ℚ) * 2 ^ q ≤ m' * 2 ^ q') :
    q ≤ q' := by
  by_contra hq
  obtain ⟨j, rfl⟩ : ∃ j : ℕ, q = q' + 1 + j := ⟨(q - q' - 1).toNat, by omega⟩
  have hm : (0x10000000000000 : ℚ) ≤ m := by
    have := h'.2.1
    have : 0x10000000000000 ≤ m := by
      obtain ⟨-, -, h | h⟩ := h <;> omega
    exact_mod_cast this
  have hm' : (m' : ℚ) < 0x20000000000000 := by exact_mod_cast h'.1
  have hpos : (0 : ℚ) < 2 ^ q' := by positivity
  have hj : (1 : ℚ) ≤ 2 ^ j := one_le_pow₀ (by norm_num)
  have hsplit : (2 : ℚ) ^ (q' + 1 + j) = 2 ^ q' * 2 * 2 ^ j := by
    rw [zpow_add₀ (by norm_num), zpow_add₀ (by norm_num), zpow_natCast, zpow_one]
  have hfar : (m' : ℚ) * 2 ^ q' < m * 2 ^ (q' + 1 + j) := by
    calc (m' : ℚ) * 2 ^ q' < 0x20000000000000 * 2 ^ q' := by gcongr
      _ = 0x10000000000000 * (2 ^ q' * 2 * 1) := by ring
      _ ≤ m * (2 ^ q' * 2 * 2 ^ j) := by gcongr
      _ = m * 2 ^ (q' + 1 + j) := by rw [hsplit]
  linarith

theorem Normal.eq_of_value_eq (h : Normal m q) (h' : Normal m' q') (heq : (m : ℚ) * 2 ^ q = m' * 2 ^ q') :
    m = m' ∧ q = q' := by
  have hq : q = q' := le_antisymm (h.le_exponent h' heq.le) (h'.le_exponent h heq.ge)
  subst hq
  have hne : (2 : ℚ) ^ q ≠ 0 := by positivity
  exact ⟨by exact_mod_cast mul_right_cancel₀ hne heq, rfl⟩

/-- The intervals of two pairs with the same exponent meet at their ends at most, and an end belongs to
one of them only. -/
theorem upper_le_lower_of_eq (h : Normal m q) (hlt : m < m') :
    upper m q < lower m' q ∨ upper m q ≤ lower m' q ∧ (m % 2 = 1 ∨ m' % 2 = 1) := by
  have hpos : (0 : ℚ) < 2 ^ (q - 2) := by positivity
  have hgap : gapBelow m' q = 2 := by
    unfold gapBelow
    rw [if_neg]
    intro hlowest
    obtain ⟨-, -, h | h⟩ := h <;> omega
  unfold upper lower
  rw [hgap]
  push_cast
  rcases Nat.lt_or_eq_of_le hlt with hfar | hnext
  · left
    have hcast : (m : ℚ) + 2 ≤ m' := by exact_mod_cast hfar
    nlinarith
  · right
    have hcast : (m : ℚ) + 1 = m' := by exact_mod_cast hnext
    refine ⟨?_, by omega⟩
    nlinarith

/-- The last interval with one exponent and the first with the next one meet in the same way. -/
theorem upper_le_lower_of_lt (h : Normal m q) (h' : Normal m' q') (hq : q < q') :
    upper m q < lower m' q' ∨ upper m q ≤ lower m' q' ∧ (m % 2 = 1 ∨ m' % 2 = 1) := by
  obtain ⟨j, rfl⟩ : ∃ j : ℕ, q' = q + 1 + j := ⟨(q' - q - 1).toNat, by omega⟩
  have hpos : (0 : ℚ) < 2 ^ (q - 2) := by positivity
  have hj : (1 : ℚ) ≤ 2 ^ j := one_le_pow₀ (by norm_num)
  have hlowest : 0x10000000000000 * 4 ≤ 4 * m' - gapBelow m' (q + 1 + j) + 1 := by
    have := h.2.1
    unfold gapBelow
    obtain ⟨-, -, h' | h'⟩ := h' <;> split <;> omega
  have hcast : (0x10000000000000 * 4 : ℚ) - 1 ≤ 4 * m' - gapBelow m' (q + 1 + j) := by
    have hgap := gapBelow_le_two m' (q + 1 + j)
    have hle : 0x10000000000000 * 4 + gapBelow m' (q + 1 + j) ≤ 4 * m' + 1 := by omega
    have hle' : (0x10000000000000 * 4 : ℚ) + gapBelow m' (q + 1 + j) ≤ 4 * m' + 1 := by exact_mod_cast hle
    linarith
  have hsplit : (2 : ℚ) ^ (q + 1 + j - 2) = 2 ^ (q - 2) * 2 * 2 ^ j := by
    rw [show q + 1 + (j : ℤ) - 2 = q - 2 + 1 + j by ring, zpow_add₀ (by norm_num), zpow_add₀ (by norm_num),
      zpow_natCast, zpow_one]
  have hlower : ((0x10000000000000 * 4 : ℚ) - 1) * (2 ^ (q - 2) * 2 * 1) ≤ lower m' (q + 1 + j) := by
    rw [lower, hsplit]
    gcongr
  have hends : ((0x10000000000000 * 4 : ℚ) - 1) * (2 ^ (q - 2) * 2 * 1) =
      (4 * (0x20000000000000 - 1) + 2) * 2 ^ (q - 2) := by ring
  rw [hends] at hlower
  have hm : m + 1 ≤ 0x20000000000000 := h.1
  rcases Nat.lt_or_eq_of_le hm with hfar | hlast
  · left
    have hm : (m : ℚ) < 0x20000000000000 - 1 := by
      have : (m : ℚ) + 1 < 0x20000000000000 := by exact_mod_cast hfar
      linarith
    refine lt_of_lt_of_le ?_ hlower
    unfold upper
    gcongr
  · right
    have hm : (m : ℚ) = 0x20000000000000 - 1 := by
      have : (m : ℚ) + 1 = 0x20000000000000 := by exact_mod_cast hlast
      linarith
    refine ⟨?_, by omega⟩
    rw [upper, hm]
    exact hlower

/-- The interval of the smaller of two magnitudes lies below that of the other. -/
theorem Covers.lt (h : Normal m q) (h' : Normal m' q') (hlt : (m : ℚ) * 2 ^ q < m' * 2 ^ q')
    (hr : Covers m q r) (hs : Covers m' q' s) : r < s := by
  have hends : upper m q < lower m' q' ∨ upper m q ≤ lower m' q' ∧ (m % 2 = 1 ∨ m' % 2 = 1) := by
    rcases (h.le_exponent h' hlt.le).lt_or_eq with hq | rfl
    · exact upper_le_lower_of_lt h h' hq
    · have hpos : (0 : ℚ) < 2 ^ q := by positivity
      have hm : (m : ℚ) < m' := lt_of_mul_lt_mul_right hlt hpos.le
      exact upper_le_lower_of_eq h (by exact_mod_cast hm)
  have hupper := hr.bounds.2
  have hlower := hs.bounds.1
  rcases hends with hapart | ⟨hmeet, hodd | hodd⟩
  · linarith
  · have := (hr.bounds_of_odd hodd).2
    linarith
  · have := (hs.bounds_of_odd hodd).1
    linarith

/-- A rational rounds to one magnitude at most. -/
theorem Covers.unique (h : Normal m q) (h' : Normal m' q') (hr : Covers m q r) (hr' : Covers m' q' r) :
    m = m' ∧ q = q' := by
  rcases lt_trichotomy ((m : ℚ) * 2 ^ q) (m' * 2 ^ q') with hlt | heq | hlt
  · exact absurd (hr.lt h h' hlt hr') (lt_irrefl r)
  · exact h.eq_of_value_eq h' heq
  · exact absurd (hr'.lt h' h hlt hr) (lt_irrefl r)

/-- The value of a quotient whose numerator and denominator have been shifted apart. -/
theorem shifted_quotient (num den : ℕ) (q : ℤ) :
    ((num <<< (-q).toNat : ℕ) : ℚ) / (den <<< q.toNat : ℕ) = num / den / 2 ^ q := by
  rw [Nat.shiftLeft_eq, Nat.shiftLeft_eq, zpow_eq_div (by norm_num) q]
  push_cast
  field_simp

theorem log2_bounds {n : ℕ} (hn : 0 < n) :
    (2 : ℚ) ^ (n.log2 : ℤ) ≤ n ∧ (n : ℚ) < 2 ^ ((n.log2 : ℤ) + 1) := by
  have hlow : 2 ^ n.log2 ≤ n := Nat.log2_self_le hn.ne'
  have hhigh : n < 2 ^ (n.log2 + 1) := Nat.lt_log2_self
  constructor
  · rw [zpow_natCast]
    exact_mod_cast hlow
  · rw [← Nat.cast_succ, zpow_natCast]
    exact_mod_cast hhigh

variable {num den : ℕ}

/-- A quotient has been scaled to less than 53 bits. -/
theorem shifted_lt_iff (hden : 0 < den) (q : ℤ) :
    num <<< (-q).toNat < den <<< (q.toNat + 52) ↔ (num : ℚ) / den < 0x10000000000000 * 2 ^ q := by
  have hpos : (0 : ℚ) < 2 ^ q := by positivity
  have hshift : 0 < den <<< q.toNat := by
    rw [Nat.shiftLeft_eq]
    positivity
  have hcast : (0 : ℚ) < (den <<< q.toNat : ℕ) := by exact_mod_cast hshift
  rw [Nat.shiftLeft_add, ← div_lt_iff₀ hpos, ← shifted_quotient, div_lt_iff₀ hcast,
    Nat.shiftLeft_eq (den <<< q.toNat), mul_comm (den <<< q.toNat)]
  norm_cast

/-- Before it is kept from falling below the least one, the exponent gives the quotient 53 bits. -/
theorem quotient_bounds (hnum : 0 < num) (hden : 0 < den) {q : ℤ}
    (hq : q = (num.log2 : ℤ) - den.log2 - 52) :
    0x10000000000000 * 2 ^ (q - 1) ≤ (num : ℚ) / den ∧ (num : ℚ) / den < 0x20000000000000 * 2 ^ q := by
  obtain ⟨hnlow, hnhigh⟩ := log2_bounds hnum
  obtain ⟨hdlow, hdhigh⟩ := log2_bounds hden
  have hpos : (0 : ℚ) < den := by exact_mod_cast hden
  have htwo : (2 : ℚ) ≠ 0 := by norm_num
  have h52 : (0x10000000000000 : ℚ) = 2 ^ (52 : ℤ) := by norm_num
  have h53 : (0x20000000000000 : ℚ) = 2 ^ (53 : ℤ) := by norm_num
  rw [le_div_iff₀ hpos, div_lt_iff₀ hpos, h52, h53, ← zpow_add₀ htwo, ← zpow_add₀ htwo]
  constructor
  · calc (2 : ℚ) ^ (52 + (q - 1)) * den ≤ 2 ^ (52 + (q - 1)) * 2 ^ ((den.log2 : ℤ) + 1) := by gcongr
      _ = 2 ^ (num.log2 : ℤ) := by
        rw [← zpow_add₀ htwo]
        congr 1
        omega
      _ ≤ num := hnlow
  · calc (num : ℚ) < 2 ^ ((num.log2 : ℤ) + 1) := hnhigh
      _ = 2 ^ (53 + q) * 2 ^ (den.log2 : ℤ) := by
        rw [← zpow_add₀ htwo]
        congr 1
        omega
      _ ≤ 2 ^ (53 + q) * den := by gcongr

/-- With the last place `2 ^ q` the mantissa of `r` has 53 bits, or no more than these if `q` is least. -/
structure FitsAt (q : ℤ) (r : ℚ) : Prop where
  least : -1074 ≤ q
  lt : r < 0x20000000000000 * 2 ^ q
  le_or_least : 0x10000000000000 * 2 ^ q ≤ r ∨ q = -1074

/-- An exponent that is too small is replaced by the least one. -/
theorem fitsAt_clamped (hlow : 0x10000000000000 * 2 ^ q ≤ r) (hhigh : r < 0x20000000000000 * 2 ^ q) :
    FitsAt (if q < -1074 then -1074 else q) r := by
  split
  · rename_i hq
    refine ⟨le_rfl, hhigh.trans_le ?_, .inr rfl⟩
    have hmono : (2 : ℚ) ^ q ≤ 2 ^ (-1074 : ℤ) := zpow_le_zpow_right₀ (by norm_num) hq.le
    linarith
  · exact ⟨by omega, hhigh, .inl hlow⟩

theorem exponentFor_fits (hnum : 0 < num) (hden : 0 < den) :
    FitsAt (exponentFor num den) ((num : ℚ) / den) := by
  unfold exponentFor
  obtain ⟨hlow, hhigh⟩ := quotient_bounds hnum hden rfl
  dsimp only
  split
  · rename_i hsmall
    rw [shifted_lt_iff hden] at hsmall
    refine fitsAt_clamped hlow ?_
    have hdouble : (0x10000000000000 : ℚ) * 2 ^ ((num.log2 : ℤ) - den.log2 - 52) =
        0x20000000000000 * 2 ^ ((num.log2 : ℤ) - den.log2 - 52 - 1) := by
      rw [zpow_sub_one₀ (by norm_num)]
      ring
    rwa [hdouble] at hsmall
  · rename_i hlarge
    rw [shifted_lt_iff hden, not_lt] at hlarge
    exact fitsAt_clamped hlarge hhigh

theorem FitsAt.scaled (h : FitsAt q r) :
    r / 2 ^ q < 0x20000000000000 ∧ (0x10000000000000 ≤ r / 2 ^ q ∨ q = -1074) ∧
      r = 4 * (r / 2 ^ q) * 2 ^ (q - 2) := by
  have hpos : (0 : ℚ) < 2 ^ q := by positivity
  rw [div_lt_iff₀ hpos, le_div_iff₀ hpos, mul_right_comm, ← two_zpow_eq, mul_div_cancel₀ _ hpos.ne']
  exact ⟨h.lt, h.le_or_least, rfl⟩

theorem FitsAt.rounded_le {k : ℕ} (h : FitsAt q r) (hk : RoundsTo (r / 2 ^ q) k) : k ≤ 0x20000000000000 := by
  have hlt := h.scaled.1
  have hlow := hk.low
  have hcast : (k : ℚ) < 0x20000000000000 + 1 := by linarith
  exact Nat.lt_succ_iff.mp (by exact_mod_cast hcast)

/-- The mantissa that a rational is rounded to, unless it is one too great for 53 bits. -/
theorem FitsAt.covers {k : ℕ} (h : FitsAt q r) (hk : RoundsTo (r / 2 ^ q) k) (hlt : k < 0x20000000000000) :
    Normal k q ∧ Covers k q r := by
  have hpos : (0 : ℚ) < 2 ^ (q - 2) := by positivity
  obtain ⟨-, hnormal, hr⟩ := h.scaled
  obtain ⟨hlow, hhigh, hodd⟩ := hk
  generalize r / 2 ^ q = t at *
  have hfull : 0x10000000000000 ≤ k ∨ q = -1074 := by
    rcases hnormal with ht | hq
    · left
      have hcast : (0x10000000000000 : ℚ) - 1 < k := by linarith
      have hcast' : (0x10000000000000 : ℚ) < k + 1 := by linarith
      exact Nat.lt_succ_iff.mp (by exact_mod_cast hcast')
    · exact .inr hq
  -- next to a power of two the numbers below are closer, but nothing there is rounded up to it
  have hlower : (4 * k - gapBelow k q : ℚ) ≤ 4 * t := by
    unfold gapBelow
    split
    · rename_i hpower
      rcases hnormal with ht | hq
      · rw [hpower.1]
        push_cast
        linarith
      · omega
    · push_cast
      linarith
  refine ⟨⟨hlt, h.least, hfull⟩, ?_⟩
  unfold Covers lower upper
  rw [hr]
  split
  · constructor
    · gcongr
    · gcongr
      linarith
  · rename_i heven
    obtain ⟨hlow, hhigh⟩ := hodd (by omega)
    have hgap : gapBelow k q = 2 := by
      unfold gapBelow
      rw [if_neg]
      rintro ⟨rfl, -⟩
      exact heven (by decide)
    rw [hgap]
    push_cast
    constructor
    · gcongr
      linarith
    · gcongr
      linarith

/-- A rational that is rounded up to the next power of two. -/
theorem FitsAt.covers_next (h : FitsAt q r) (hk : RoundsTo (r / 2 ^ q) 0x20000000000000) :
    Normal 0x10000000000000 (q + 1) ∧ Covers 0x10000000000000 (q + 1) r := by
  have hpos : (0 : ℚ) < 2 ^ (q - 2) := by positivity
  obtain ⟨hlt, -, hr⟩ := h.scaled
  have hlow := hk.low
  generalize r / 2 ^ q = t at *
  have hleast := h.least
  have hgap : gapBelow 0x10000000000000 (q + 1) = 1 := by
    unfold gapBelow
    rw [if_pos ⟨rfl, by omega⟩]
  have hplace : (2 : ℚ) ^ (q + 1 - 2) = 2 * 2 ^ (q - 2) := by
    rw [show q + 1 - 2 = q - 2 + 1 by ring, zpow_add_one₀ (by norm_num), mul_comm]
  refine ⟨⟨by omega, by omega, .inl le_rfl⟩, ?_⟩
  unfold Covers lower upper
  rw [if_pos (by decide), hr, hgap, hplace, ← mul_assoc, ← mul_assoc]
  push_cast at hlow ⊢
  constructor
  · exact mul_le_mul_of_nonneg_right (by linarith) hpos.le
  · exact mul_le_mul_of_nonneg_right (by linarith) hpos.le

theorem ofParts?_eq_some_iff {negative : Bool} {x : Binary64} :
    ofParts? negative m q = some x ↔ x.negative = negative ∧ x.mantissa = m ∧ x.exponent = q := by
  unfold ofParts?
  constructor
  · intro h
    split at h
    · cases h
      exact ⟨rfl, rfl, rfl⟩
    · cases h
  · rintro ⟨rfl, rfl, rfl⟩
    rw [dif_pos x.canonical]

theorem normal (x : Binary64) : Normal x.mantissa x.exponent :=
  ⟨x.canonical.1, x.canonical.2.1, x.canonical.2.2.2⟩

/-- Rounding a quotient tries the pair that it rounds to. -/
theorem exists_rounded (negative : Bool) (num : ℕ) (hden : 0 < den) :
    ∃ m q, Normal m q ∧ Covers m q ((num : ℚ) / den) ∧ ofRatio? negative num den = ofParts? negative m q := by
  rcases Nat.eq_zero_or_pos num with rfl | hnum
  · refine ⟨0, -1074, ⟨by decide, le_rfl, .inr rfl⟩, ?_, rfl⟩
    have hself := covers_self 0 (-1074)
    simpa using hself
  · have hfits := exponentFor_fits hnum hden
    have hshift : 0 < den <<< (exponentFor num den).toNat := by
      rw [Nat.shiftLeft_eq]
      positivity
    have hrounds := roundDiv_roundsTo (num <<< (-exponentFor num den).toNat) hshift
    rw [shifted_quotient] at hrounds
    have hle := hfits.rounded_le hrounds
    unfold ofRatio?
    rw [if_neg hnum.ne']
    dsimp only
    split
    · rename_i hnext
      rw [hnext] at hrounds
      obtain ⟨hnormal, hcovers⟩ := hfits.covers_next hrounds
      exact ⟨_, _, hnormal, hcovers, rfl⟩
    · rename_i hlt
      obtain ⟨hnormal, hcovers⟩ := hfits.covers hrounds (by omega)
      exact ⟨_, _, hnormal, hcovers, rfl⟩

/-- A quotient is rounded to the number whose interval it lies in, if there is one. -/
theorem ofRatio?_eq_some_iff {negative : Bool} {x : Binary64} (hden : 0 < den) :
    ofRatio? negative num den = some x ↔
      x.negative = negative ∧ Covers x.mantissa x.exponent ((num : ℚ) / den) := by
  obtain ⟨m, q, hnormal, hcovers, hrounded⟩ := exists_rounded negative num hden
  rw [hrounded, ofParts?_eq_some_iff]
  refine and_congr_right fun _ => ⟨?_, fun hx => ?_⟩
  · rintro ⟨hm, hq⟩
    rw [hm, hq]
    exact hcovers
  · exact hx.unique x.normal hnormal hcovers

end Binary64

end Stencil
