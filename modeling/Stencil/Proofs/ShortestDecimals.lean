import Stencil.Number.Text
import Stencil.Proofs.Rounding

/-! The shortest decimals that read back. The search for one goes from coarse grids to fine ones and ends on
the first grid with a point that rounds to the number. No decimal in fewer digits rounds to it. -/
namespace Stencil

namespace Decimal

/-- What a decimal stands for. -/
def value (d : Decimal) : ℚ := d.digits * 10 ^ d.exponent

/-- The number nearest to a decimal. -/
def nearest? (negative : Bool) (d : Decimal) : Option Binary64 :=
  Binary64.ofRatio? negative (d.digits * 10 ^ d.exponent.toNat) (10 ^ (-d.exponent).toNat)

theorem length_digitChars_le_iff (d : Decimal) {k : ℕ} (hk : 0 < k) :
    d.digitChars.length ≤ k ↔ d.digits < 10 ^ k :=
  Nat.length_toDigits_le_iff (by decide) hk

theorem length_digitChars_pos (d : Decimal) : 0 < d.digitChars.length := Nat.length_toDigits_pos

theorem length_digitChars_power (e : ℤ) : (digitChars ⟨1, e⟩).length = 1 := by
  have hle := (length_digitChars_le_iff ⟨1, e⟩ Nat.one_pos).mpr (by norm_num)
  have hpos := length_digitChars_pos ⟨1, e⟩
  omega

theorem value_power (e : ℤ) : value ⟨1, e⟩ = 10 ^ e := by
  rw [value, Nat.cast_one, one_mul]

variable {c d : Decimal}

/-- The first digit has its place in the value. -/
theorem value_lt (d : Decimal) : d.value < 10 ^ (d.leadingPlace + 1) := by
  have hdigits : d.digits < 10 ^ d.digitChars.length :=
    (d.length_digitChars_le_iff d.length_digitChars_pos).mp le_rfl
  have hplace : d.leadingPlace + 1 = d.digitChars.length + d.exponent := by
    unfold leadingPlace
    omega
  rw [hplace, zpow_add₀ (by norm_num), zpow_natCast, value]
  gcongr
  exact_mod_cast hdigits

theorem le_value (hd : d.digits ≠ 0) : 10 ^ d.leadingPlace ≤ d.value := by
  obtain ⟨k, hk⟩ : ∃ k, d.digitChars.length = k + 1 :=
    Nat.exists_eq_succ_of_ne_zero d.length_digitChars_pos.ne'
  have hdigits : 10 ^ k ≤ d.digits := by
    rcases Nat.eq_zero_or_pos k with rfl | hpos
    · exact Nat.one_le_iff_ne_zero.mpr hd
    · by_contra hlt
      have := (d.length_digitChars_le_iff hpos).mpr (not_le.mp hlt)
      omega
  have hplace : d.leadingPlace = k + d.exponent := by
    unfold leadingPlace
    omega
  rw [hplace, zpow_add₀ (by norm_num), zpow_natCast, value]
  gcongr
  exact_mod_cast hdigits

/-- Between decimals that begin at different places there is a power of ten. -/
theorem power_between (hd : d.digits ≠ 0) (h : c.leadingPlace < d.leadingPlace) :
    c.value ≤ 10 ^ d.leadingPlace ∧ 10 ^ d.leadingPlace ≤ d.value := by
  refine ⟨c.value_lt.le.trans ?_, le_value hd⟩
  exact zpow_le_zpow_right₀ (by norm_num) h

end Decimal

namespace Binary64

variable {x : Binary64} {d c : Decimal} {e : ℤ} {r : ℚ}

def magnitude (x : Binary64) : ℚ := x.mantissa * 2 ^ x.exponent

/-- `r` rounds to the magnitude of `x`. -/
def Encloses (x : Binary64) (r : ℚ) : Prop := Covers x.mantissa x.exponent r

theorem encloses_magnitude (x : Binary64) : x.Encloses x.magnitude := covers_self x.mantissa x.exponent

/-- A decimal in the fewest digits that read back as `x`. -/
structure IsShortest (x : Binary64) (d : Decimal) : Prop where
  readsBack : d.nearest? x.negative = some x
  fewest : ∀ c : Decimal, c.nearest? x.negative = some x → d.digitChars.length ≤ c.digitChars.length

theorem nearest?_eq_some_iff : d.nearest? x.negative = some x ↔ x.Encloses d.value := by
  have hvalue : ((d.digits * 10 ^ d.exponent.toNat : ℕ) : ℚ) / (10 ^ (-d.exponent).toNat : ℕ) = d.value := by
    rw [Decimal.value, zpow_eq_div (by norm_num) d.exponent]
    push_cast
    exact mul_div_assoc _ _ _
  have hden : 0 < 10 ^ (-d.exponent).toNat := by positivity
  rw [Decimal.nearest?, ofRatio?_eq_some_iff hden, hvalue]
  exact and_iff_right rfl

/-- The step of a grid and a quarter of the last place have a common measure. -/
theorem exists_measure (x : Binary64) (e : ℤ) :
    0 < (x.quarters e).1 ∧ ∃ u : ℚ, 0 < u ∧ 10 ^ e = (x.quarters e).1 * u ∧
      2 ^ (x.exponent - 2) = (x.quarters e).2 * u := by
  have hshift : ∀ i j : ℕ, 0 < Nat.pow 10 i <<< j := fun i j => by
    rw [Nat.shiftLeft_eq, Nat.pow_eq]
    positivity
  have ha : 0 < (x.quarters e).1 := hshift _ _
  have hb : 0 < (x.quarters e).2 := hshift _ _
  have hbq : (0 : ℚ) < (x.quarters e).2 := by exact_mod_cast hb
  have hp : (0 : ℚ) < 2 ^ (x.exponent - 2) := by positivity
  have hquotient := shifted_quotient (10 ^ e.toNat) (10 ^ (-e).toNat) (x.exponent - 2)
  rw [neg_sub, Nat.cast_pow, Nat.cast_pow, Nat.cast_ofNat, ← zpow_eq_div (by norm_num)] at hquotient
  have hstep : ((x.quarters e).1 : ℚ) / (x.quarters e).2 = 10 ^ e / 2 ^ (x.exponent - 2) := hquotient
  refine ⟨ha, 2 ^ (x.exponent - 2) / (x.quarters e).2, by positivity, ?_, ?_⟩
  · rw [div_eq_div_iff hbq.ne' hp.ne'] at hstep
    rw [← mul_div_assoc, hstep, mul_div_cancel_right₀ _ hbq.ne']
  · rw [mul_div_cancel₀ _ hbq.ne']

theorem magnitude_eq (x : Binary64) : x.magnitude = 4 * x.mantissa * 2 ^ (x.exponent - 2) := by
  rw [magnitude, two_zpow_eq]
  ring

theorem magnitude_of_nonneg (hq : 0 ≤ x.exponent) :
    x.magnitude = (x.mantissa * 2 ^ x.exponent.toNat : ℕ) := by
  rw [magnitude, zpow_eq_div (by norm_num), Int.toNat_of_nonpos (Int.neg_nonpos_of_nonneg hq), pow_zero, div_one]
  push_cast
  rfl

theorem magnitude_of_nonpos (hq : x.exponent ≤ 0) :
    x.magnitude = x.mantissa / 2 ^ (-x.exponent).toNat := by
  rw [magnitude, zpow_eq_div (by norm_num), Int.toNat_of_nonpos hq, pow_zero, mul_one_div]

/-- The test for a point of a grid, without fractions, is whether it rounds to the magnitude. -/
theorem readsBack_iff (hx : x.mantissa ≠ 0) (k : ℕ) (e : ℤ) :
    x.readsBack k e = true ↔ x.Encloses (k * 10 ^ e) := by
  obtain ⟨-, u, hu, hstep, hquarter⟩ := x.exists_measure e
  have hgap : x.lowerGap ≤ 4 * x.mantissa := by
    have := gapBelow_le_two x.mantissa x.exponent
    change gapBelow x.mantissa x.exponent ≤ _
    omega
  have hlow : lower x.mantissa x.exponent = ((4 * x.mantissa - x.lowerGap) * (x.quarters e).2 : ℕ) * u := by
    rw [lower, hquarter]
    push_cast [hgap]
    rw [mul_assoc]
    rfl
  have hhigh : upper x.mantissa x.exponent = ((4 * x.mantissa + 2) * (x.quarters e).2 : ℕ) * u := by
    rw [upper, hquarter]
    push_cast
    ring
  have hpoint : (k : ℚ) * 10 ^ e = (k * (x.quarters e).1 : ℕ) * u := by
    rw [hstep]
    push_cast
    ring
  unfold Encloses Covers readsBack
  rw [hlow, hhigh, hpoint]
  simp only [mul_le_mul_iff_of_pos_right hu, mul_lt_mul_iff_of_pos_right hu, Nat.cast_le, Nat.cast_lt]
  split <;> simp

/-- The last point of the grid `10 ^ e` that does not lie above `x`. -/
def floorOn (x : Binary64) (e : ℤ) : ℕ := 4 * x.mantissa * (x.quarters e).2 / (x.quarters e).1

theorem floorOn_bounds (x : Binary64) (e : ℤ) :
    x.floorOn e * 10 ^ e ≤ x.magnitude ∧ x.magnitude < (x.floorOn e + 1 : ℕ) * 10 ^ e := by
  obtain ⟨ha, u, hu, hstep, hquarter⟩ := x.exists_measure e
  have hvalue : x.magnitude = (4 * x.mantissa * (x.quarters e).2 : ℕ) * u := by
    rw [magnitude_eq, hquarter]
    push_cast
    ring
  have hlow : x.floorOn e * (x.quarters e).1 ≤ 4 * x.mantissa * (x.quarters e).2 := Nat.div_mul_le_self _ _
  have hhigh : 4 * x.mantissa * (x.quarters e).2 < (x.floorOn e + 1) * (x.quarters e).1 := by
    rw [Nat.succ_mul (x.floorOn e)]
    exact Nat.lt_div_mul_add ha
  rw [hvalue, hstep, ← mul_assoc, ← mul_assoc]
  constructor
  · gcongr
    exact_mod_cast hlow
  · gcongr
    exact_mod_cast hhigh

/-- The integer nearest to a quotient is one of those next to it. -/
theorem roundDiv_cases (num den : ℕ) : roundDiv num den = num / den ∨ roundDiv num den = num / den + 1 := by
  unfold roundDiv
  dsimp only
  split
  · exact .inl rfl
  · split
    · exact .inr rfl
    · omega

theorem encloses_of_onGrid? (hx : x.mantissa ≠ 0) {k : ℕ} (h : x.onGrid? e = some k) :
    x.Encloses (k * 10 ^ e) := by
  rw [← readsBack_iff hx]
  unfold onGrid? at h
  dsimp only at h
  split at h
  · rename_i hbelow habove
    cases h
    rcases roundDiv_cases (4 * x.mantissa * (x.quarters e).2) (x.quarters e).1 with h | h
    · rw [h]
      exact hbelow
    · rw [h]
      exact habove
  · rename_i hbelow _
    cases h
    exact hbelow
  · rename_i _ habove
    cases h
    exact habove
  · cases h

/-- A grid on which the search finds nothing has no point at all that reads back. -/
theorem not_encloses_of_onGrid? (hx : x.mantissa ≠ 0) (h : x.onGrid? e = none) (c : ℕ) :
    ¬ x.Encloses (c * 10 ^ e) := by
  have hpos : (0 : ℚ) < 10 ^ e := by positivity
  obtain ⟨hlow, hhigh⟩ := x.floorOn_bounds e
  have hneither : ¬ x.Encloses (x.floorOn e * 10 ^ e) ∧ ¬ x.Encloses ((x.floorOn e + 1 : ℕ) * 10 ^ e) := by
    rw [← readsBack_iff hx, ← readsBack_iff hx, Bool.not_eq_true, Bool.not_eq_true]
    unfold onGrid? at h
    dsimp only at h
    split at h
    · cases h
    · cases h
    · cases h
    · rename_i hbelow habove
      exact ⟨hbelow, habove⟩
  intro hc
  -- one of the two neighbours lies between the point and the magnitude
  rcases Nat.lt_or_ge (x.floorOn e) c with hlt | hge
  · refine hneither.2 (x.encloses_magnitude.between hc hhigh.le ?_)
    gcongr
    exact hlt
  · refine hneither.1 (hc.between x.encloses_magnitude ?_ hlow)
    gcongr

/-- A decimal that reads back, when no grid coarser than its own has a point that does. -/
structure Coarsest (x : Binary64) (d : Decimal) : Prop where
  encloses : x.Encloses d.value
  coarser : ∀ e, d.exponent < e → ∀ c : ℕ, ¬ x.Encloses (c * 10 ^ e)

/-- The search ends on the coarsest grid, if it starts on one that is coarse enough and may go on far
enough. -/
theorem searchGrids_coarsest (hx : x.mantissa ≠ 0) (n : ℕ)
    (hstart : ∀ j, e < j → ∀ c : ℕ, ¬ x.Encloses (c * 10 ^ j))
    (hend : ∃ c : ℕ, x.magnitude = c * 10 ^ (e - n)) : x.Coarsest (x.searchGrids n e) := by
  -- the invariant is `hstart`: every grid that has been left behind has no point that reads back
  induction n generalizing e with
  | zero =>
    -- the last grid is not tried, but the number is one of its points
    obtain ⟨c, hc⟩ := hend
    rw [Nat.cast_zero, sub_zero] at hc
    have hpos : (0 : ℚ) < 10 ^ e := by positivity
    obtain ⟨hlow, hhigh⟩ := x.floorOn_bounds e
    rw [hc] at hlow hhigh
    have hle : x.floorOn e ≤ c := by exact_mod_cast le_of_mul_le_mul_right hlow hpos
    have hlt : c < x.floorOn e + 1 := by exact_mod_cast lt_of_mul_lt_mul_right hhigh hpos.le
    have hvalue : (x.searchGrids 0 e).value = x.magnitude := by
      rw [hc, Nat.le_antisymm (Nat.lt_succ_iff.mp hlt) hle]
      rfl
    refine ⟨?_, hstart⟩
    rw [hvalue]
    exact x.encloses_magnitude
  | succ n ih =>
    unfold searchGrids
    split
    · rename_i d hd
      exact ⟨encloses_of_onGrid? hx hd, hstart⟩
    · rename_i hnone
      refine ih (fun j hj c => ?_) ?_
      · rcases Int.lt_or_le e j with hlt | hle
        · exact hstart j hlt c
        · obtain rfl : j = e := by omega
          exact not_encloses_of_onGrid? hx hnone c
      · rwa [show e - 1 - (n : ℤ) = e - (n + 1 : ℕ) by push_cast; ring]

/-- What rounds to a number other than zero is positive, and less than twice the number. -/
theorem Encloses.bounds (hx : x.mantissa ≠ 0) (h : x.Encloses r) : 0 < r ∧ r < 2 * x.magnitude := by
  have hpos : (0 : ℚ) < 2 ^ (x.exponent - 2) := by positivity
  have hm : (1 : ℚ) ≤ x.mantissa := by exact_mod_cast Nat.one_le_iff_ne_zero.mpr hx
  obtain ⟨hlower, hupper⟩ := Covers.near h
  have hzero : (0 : ℚ) < (4 * x.mantissa - 2) * 2 ^ (x.exponent - 2) := mul_pos (by linarith) hpos
  have htwice : (4 * x.mantissa + 2 : ℚ) * 2 ^ (x.exponent - 2) < 2 * x.magnitude := by
    rw [magnitude_eq, ← mul_assoc]
    gcongr
    linarith
  exact ⟨hzero.trans_le hlower, hupper.trans_lt htwice⟩

theorem two_magnitude_lt (hx : x.mantissa ≠ 0) : 2 * x.magnitude < 10 ^ (x.topGrid : ℤ) := by
  let t := ((x.mantissa.log2 : ℤ) + 1 + x.exponent).toNat
  have ht : t + 1 ≤ 3 * x.topGrid := by
    have hgrid : x.topGrid = t / 3 + 1 := rfl
    omega
  have hmantissa := (log2_bounds (Nat.pos_of_ne_zero hx)).2
  calc 2 * x.magnitude < 2 * (2 ^ ((x.mantissa.log2 : ℤ) + 1) * 2 ^ x.exponent) := by
        unfold magnitude
        gcongr
    _ = 2 * 2 ^ ((x.mantissa.log2 : ℤ) + 1 + x.exponent) := by rw [← zpow_add₀ (by norm_num)]
    _ ≤ 2 * 2 ^ (t : ℤ) := by
        gcongr
        · norm_num
        · exact Int.self_le_toNat _
    _ = 2 ^ (t + 1) := by
        rw [zpow_natCast, pow_succ']
    _ ≤ 2 ^ (3 * x.topGrid) := by
        gcongr
        norm_num
    _ = 8 ^ x.topGrid := by
        rw [pow_mul]
        norm_num
    _ ≤ 10 ^ x.topGrid := by
        gcongr
        norm_num
    _ = 10 ^ (x.topGrid : ℤ) := by rw [zpow_natCast]

/-- Beyond the grid where the search starts every point but zero is too great. -/
theorem not_encloses_of_topGrid_lt (hx : x.mantissa ≠ 0) (he : (x.topGrid : ℤ) < e) (c : ℕ) :
    ¬ x.Encloses (c * 10 ^ e) := by
  intro h
  obtain ⟨hzero, htwice⟩ := h.bounds hx
  have hc : (1 : ℚ) ≤ c := by
    have hpos : (0 : ℚ) < c := pos_of_mul_pos_left hzero (by positivity)
    exact_mod_cast hpos
  have hfar : (10 : ℚ) ^ (x.topGrid : ℤ) ≤ c * 10 ^ e := by
    calc (10 : ℚ) ^ (x.topGrid : ℤ) ≤ 10 ^ e := zpow_le_zpow_right₀ (by norm_num) he.le
      _ ≤ c * 10 ^ e := le_mul_of_one_le_left (by positivity) hc
  have := two_magnitude_lt hx
  linarith

/-- Two divides ten, so every number is a decimal with as many places as it has binary ones. -/
theorem exists_magnitude_eq (x : Binary64) :
    ∃ c : ℕ, x.magnitude = c * 10 ^ (-((-x.exponent).toNat : ℤ)) := by
  rcases Int.le_total 0 x.exponent with hq | hq
  · refine ⟨x.mantissa * 2 ^ x.exponent.toNat, ?_⟩
    rw [magnitude_of_nonneg hq, Int.toNat_of_nonpos (Int.neg_nonpos_of_nonneg hq)]
    simp
  · refine ⟨x.mantissa * 5 ^ (-x.exponent).toNat, ?_⟩
    rw [magnitude_of_nonpos hq, zpow_neg, zpow_natCast, show (10 : ℚ) = 5 * 2 by norm_num, mul_pow]
    push_cast
    field_simp

theorem shortest_coarsest (hx : x.mantissa ≠ 0) : x.Coarsest x.shortest := by
  have hzero : x.isZero = false := by
    rw [isZero, beq_eq_false_iff_ne]
    exact hx
  rw [shortest, hzero, if_neg Bool.false_ne_true]
  refine searchGrids_coarsest hx _ (fun j hj => not_encloses_of_topGrid_lt hx hj) ?_
  rw [show (x.topGrid : ℤ) - (x.topGrid + (-x.exponent).toNat : ℕ) = -((-x.exponent).toNat : ℤ) by omega]
  exact x.exists_magnitude_eq

theorem Encloses.digits_ne_zero (hx : x.mantissa ≠ 0) (h : x.Encloses d.value) : d.digits ≠ 0 := by
  intro hzero
  have hpos := (h.bounds hx).1
  rw [Decimal.value, hzero, Nat.cast_zero, zero_mul] at hpos
  exact lt_irrefl 0 hpos

/-- A decimal of fewer digits than on the coarsest grid would lie below a power of ten, a point of a
coarser one. -/
theorem Coarsest.isShortest (hx : x.mantissa ≠ 0) (h : x.Coarsest d) : x.IsShortest d := by
  refine ⟨nearest?_eq_some_iff.mpr h.encloses, fun c hc => ?_⟩
  rw [nearest?_eq_some_iff] at hc
  by_contra hfewer
  have hexponent : c.exponent ≤ d.exponent := by
    by_contra hcoarser
    exact h.coarser c.exponent (by omega) c.digits hc
  have hlength := c.length_digitChars_pos
  have hplaces : c.leadingPlace < d.leadingPlace := by
    unfold Decimal.leadingPlace
    omega
  have hcoarser : d.exponent < d.leadingPlace := by
    unfold Decimal.leadingPlace
    omega
  obtain ⟨hcd, hdc⟩ := Decimal.power_between (h.encloses.digits_ne_zero hx) hplaces
  refine h.coarser d.leadingPlace hcoarser 1 ?_
  rw [Nat.cast_one, one_mul]
  exact hc.between h.encloses hcd hdc

/-- The text of a number other than zero is made of the fewest digits that read back. -/
theorem shortest_isShortest (hx : x.mantissa ≠ 0) : x.IsShortest x.shortest :=
  (shortest_coarsest hx).isShortest hx

end Binary64

end Stencil
