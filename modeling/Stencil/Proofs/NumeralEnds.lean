import Stencil.Proofs.Numerals

/-! Where a numeral ends. The number depends on what has been taken off the text and not on the rest, as
long as the rest does not go on with the numeral. -/
namespace Stencil.Scan

open Ascii

/-- The text does not begin with a digit. -/
def NoDigit (t : Bytes) : Prop := ∀ b ∈ t.head?, isDigit b = false

theorem noDigit_nil : NoDigit [] := nofun

/-- Behind the digits of a float the text begins neither with a digit nor with an exponent, unless `front`
has an exponent already. -/
def EndsFloat (front t : Bytes) : Prop :=
  ∀ b ∈ t.head?, isDigit b = false ∧ (isExponentMark b = true → ∃ c ∈ front, isExponentMark c = true)

/-- The text does not go on with the numeral that `front` ends with, be it with a digit, a point or an
exponent. -/
def EndsNumeral (front t : Bytes) : Prop :=
  EndsFloat front t ∧ (point ∈ t.head? → ∃ c ∈ front, c = point ∨ isExponentMark c = true)

variable {front ds s t t' : Bytes} {b : UInt8} {negative : Bool} {n m dropped : Nat} {e : Int} {x : Number}

section Ends

theorem EndsFloat.noDigit (h : EndsFloat front t) : NoDigit t := fun b hb => (h b hb).1

theorem isExponentMark_of_isDigit (hb : isDigit b = true) : isExponentMark b = false := by
  have hne : ∀ c, isDigit c = false → (b == c) = false := fun c hc => by
    refine beq_false_of_ne ?_
    rintro rfl
    simp [hb] at hc
  simp only [isExponentMark, hne 0x65 (by decide), hne 0x45 (by decide), Bool.or_self]

/-- A byte that is neither a point nor the mark of an exponent. -/
def Neutral (b : UInt8) : Prop := b ≠ point ∧ isExponentMark b = false

theorem neutral_of_isDigit (hb : isDigit b = true) : Neutral b := by
  refine ⟨?_, isExponentMark_of_isDigit hb⟩
  rintro rfl
  cases hb

theorem EndsFloat.append (h : EndsFloat front t) (ds : Bytes) : EndsFloat (ds ++ front) t := by
  intro b hb
  obtain ⟨hdigit, hmark⟩ := h b hb
  refine ⟨hdigit, fun hb => ?_⟩
  obtain ⟨c, hc, hm⟩ := hmark hb
  exact ⟨c, List.mem_append_right ds hc, hm⟩

/-- Bytes in front that are no exponents do not matter. -/
theorem EndsFloat.of_append (h : EndsFloat (ds ++ front) t) (hds : ∀ b ∈ ds, isExponentMark b = false) :
    EndsFloat front t := by
  intro b hb
  obtain ⟨hdigit, hmark⟩ := h b hb
  refine ⟨hdigit, fun hb => ?_⟩
  obtain ⟨c, hc, hm⟩ := hmark hb
  rcases List.mem_append.mp hc with hc | hc
  · exact absurd hm (Bool.eq_false_iff.mp (hds c hc))
  · exact ⟨c, hc, hm⟩

theorem EndsNumeral.append (h : EndsNumeral front t) (ds : Bytes) : EndsNumeral (ds ++ front) t := by
  refine ⟨h.1.append ds, fun hpoint => ?_⟩
  obtain ⟨c, hc, hm⟩ := h.2 hpoint
  exact ⟨c, List.mem_append_right ds hc, hm⟩

theorem EndsNumeral.of_append (h : EndsNumeral (ds ++ front) t) (hds : ∀ b ∈ ds, Neutral b) :
    EndsNumeral front t := by
  refine ⟨h.1.of_append fun b hb => (hds b hb).2, fun hpoint => ?_⟩
  obtain ⟨c, hc, hm⟩ := h.2 hpoint
  rcases List.mem_append.mp hc with hc | hc
  · rcases hm with rfl | hm
    · exact absurd rfl (hds _ hc).1
    · exact absurd hm (Bool.eq_false_iff.mp (hds c hc).2)
  · exact ⟨c, hc, hm⟩

/-- The byte behind the front is that of the front, unless the front is empty. -/
theorem NoDigit.append (h : NoDigit (front ++ t)) (ht : NoDigit t') : NoDigit (front ++ t') := by
  cases front with
  | nil => exact ht
  | cons c front => exact h

theorem any_head_eq_false {p : UInt8 → Bool} (h : ∀ b ∈ t.head?, p b = false) : t.head?.any p = false := by
  cases t with
  | nil => rfl
  | cons b t => exact h b rfl

theorem EndsFloat.head_not_mark (h : EndsFloat front t) (hfront : ∀ c ∈ front, isExponentMark c = false) :
    t.head?.any isExponentMark = false := by
  refine any_head_eq_false fun b hb => Bool.eq_false_iff.mpr fun hm => ?_
  obtain ⟨c, hc, hm⟩ := (h b hb).2 hm
  exact absurd hm (Bool.eq_false_iff.mp (hfront c hc))

theorem endsNumeral_nil_iff : EndsNumeral [] t ↔ Ends t := by
  constructor
  · intro h b hb
    obtain ⟨hdigit, hmark⟩ := h.1 b hb
    refine ⟨hdigit, ?_, Bool.eq_false_iff.mpr fun hm => ?_⟩
    · rintro rfl
      obtain ⟨c, hc, -⟩ := h.2 hb
      cases hc
    · obtain ⟨c, hc, -⟩ := hmark hm
      cases hc
  · intro h
    refine ⟨fun b hb => ⟨(h b hb).1, fun hm => ?_⟩, fun hpoint => absurd rfl (h point hpoint).2.1⟩
    exact absurd hm (Bool.eq_false_iff.mp (h b hb).2.2)

theorem EndsNumeral.head_not_point (h : EndsNumeral front t)
    (hfront : ∀ c ∈ front, Neutral c) : t.head?.any (· == point) = false := by
  refine any_head_eq_false fun b hb => beq_false_of_ne ?_
  rintro rfl
  obtain ⟨c, hc, hm | hm⟩ := h.2 hb
  · exact (hfront c hc).1 hm
  · exact absurd hm (Bool.eq_false_iff.mp (hfront c hc).2)

theorem takeWhile_of_noDigit (hds : ∀ b ∈ ds, isDigit b = true) (ht : NoDigit t) :
    (ds ++ t).takeWhile isDigit = ds := by
  rw [List.takeWhile_append_of_pos hds]
  cases t with
  | nil => simp
  | cons b t => simp [ht b rfl]

theorem dropWhile_of_noDigit (hds : ∀ b ∈ ds, isDigit b = true) (ht : NoDigit t) :
    (ds ++ t).dropWhile isDigit = t := by
  rw [List.dropWhile_append_of_pos hds]
  cases t with
  | nil => rfl
  | cons b t => simp [ht b rfl]

theorem noDigit_dropWhile (s : Bytes) : NoDigit (s.dropWhile isDigit) := by
  intro b hb
  have := List.head?_dropWhile_not isDigit s
  rw [hb] at this
  simpa using this

theorem isDigit_of_mem_takeWhile : ∀ b ∈ s.takeWhile isDigit, isDigit b = true :=
  List.all_eq_true.mp List.all_takeWhile

end Ends

theorem float_off (h : float negative n e s = .ok (x, t)) :
    s = t ∧ ∀ t', float negative n e t' = .ok (x, t') := by
  refine ⟨?_, fun t' => ?_⟩
  · simp only [float] at h
    split at h
    · cases h
      rfl
    · cases h
  · simp only [float] at h ⊢
    split at h
    · cases h
      rfl
    · cases h

theorem exponentDigits_off (h : exponentDigits n s = .ok (m, t)) :
    NoDigit t ∧ ∃ ds, (∀ b ∈ ds, isDigit b = true) ∧ s = ds ++ t ∧
      ∀ t', NoDigit t' → exponentDigits n (ds ++ t') = .ok (m, t') := by
  have hend : ∀ t', NoDigit t' → ∀ k, exponentDigits k t' = .ok (k, t') := by
    intro t' ht' k
    cases t' with
    | nil => rfl
    | cons b t' => simp [exponentDigits, ht' b rfl]
  induction s generalizing n with
  | nil =>
    cases h
    exact ⟨noDigit_nil, [], List.forall_mem_nil _, rfl, fun t' ht' => hend t' ht' _⟩
  | cons b r ih =>
    rw [exponentDigits] at h
    split at h
    · rename_i hb
      split at h
      · rename_i hlt
        obtain ⟨ht, ds, hds, rfl, htake⟩ := ih h
        refine ⟨ht, b :: ds, List.forall_mem_cons.mpr ⟨hb, hds⟩, rfl, fun t' ht' => ?_⟩
        rw [List.cons_append, exponentDigits, if_pos hb, if_pos hlt, htake t' ht']
      · cases h
    · rename_i hb
      cases h
      have hnone : NoDigit (b :: r) := by
        rintro c ⟨⟩
        simpa using hb
      exact ⟨hnone, [], List.forall_mem_nil _, rfl, fun t' ht' => hend t' ht' _⟩

theorem exponentDigits_error_off (h : exponentDigits n s = .error t) :
    ∃ ds, ds ≠ [] ∧ s = ds ++ t ∧ ∀ t', exponentDigits n (ds ++ t') = .error t' := by
  induction s generalizing n with
  | nil => cases h
  | cons b r ih =>
    rw [exponentDigits] at h
    split at h
    · rename_i hb
      split at h
      · rename_i hlt
        obtain ⟨ds, -, rfl, htake⟩ := ih h
        refine ⟨b :: ds, List.cons_ne_nil b ds, rfl, fun t' => ?_⟩
        rw [List.cons_append, exponentDigits, if_pos hb, if_pos hlt, htake]
      · rename_i hlt
        cases h
        refine ⟨[b], List.cons_ne_nil b [], rfl, fun t' => ?_⟩
        rw [List.singleton_append, exponentDigits, if_pos hb, if_neg hlt]
    · cases h

variable {down : Bool} {r : Bytes}

theorem exponentSign_off (h : exponentSign s = (down, b :: r)) :
    ∃ sign, s = sign ++ b :: r ∧ ∀ r', exponentSign (sign ++ b :: r') = (down, b :: r') := by
  cases s with
  | nil => cases h
  | cons c s =>
    rw [exponentSign] at h
    split at h
    · rename_i hc
      cases h
      exact ⟨[c], rfl, fun r' => by rw [List.singleton_append, exponentSign, if_pos hc]⟩
    · rename_i hminus
      split at h
      · rename_i hc
        cases h
        exact ⟨[c], rfl, fun r' => by rw [List.singleton_append, exponentSign, if_neg hminus, if_pos hc]⟩
      · rename_i hplus
        cases h
        exact ⟨[], rfl, fun r' => by rw [List.nil_append, exponentSign, if_neg hminus, if_neg hplus]⟩

theorem exponentPart_of_sign (hsign : exponentSign s = (down, b :: r)) (hb : isDigit b = true) :
    exponentPart negative n e s =
      match exponentDigits 0 (b :: r) with
      | .ok (k, t) => float negative n (if down then e - k else e + k) t
      | .error t =>
        if n ≠ 0 ∧ !down then fail .numberOutOfRange t
        else .ok (.float (.zero negative), t.dropWhile isDigit) := by
  rw [exponentPart, hsign]
  exact if_pos hb

theorem exponentPart_off (h : exponentPart negative n e s = .ok (x, t)) :
    NoDigit t ∧ ∃ front, s = front ++ t ∧
      ∀ t', NoDigit t' → exponentPart negative n e (front ++ t') = .ok (x, t') := by
  cases hs : exponentSign s with
  | mk down r =>
  cases r with
  | nil =>
    rw [exponentPart, hs] at h
    cases h
  | cons b r =>
    by_cases hb : isDigit b = true
    · obtain ⟨sign, rfl, hsign⟩ := exponentSign_off hs
      rw [exponentPart_of_sign hs hb] at h
      split at h
      · rename_i k u hdigits
        obtain ⟨rfl, hfloat⟩ := float_off h
        obtain ⟨hu, ds, -, hr, htake⟩ := exponentDigits_off hdigits
        cases ds with
        | nil => exact absurd hb (Bool.eq_false_iff.mp (hu b (congrArg List.head? hr).symm))
        | cons c ds =>
          obtain ⟨rfl, rfl⟩ := List.cons.inj hr
          refine ⟨hu, sign ++ b :: ds, by simp, fun t' ht' => ?_⟩
          have hread : exponentDigits 0 (b :: (ds ++ t')) = .ok (k, t') := htake t' ht'
          rw [List.append_assoc, List.cons_append, exponentPart_of_sign (hsign _) hb, hread]
          exact hfloat t'
      · -- the exponent is too long to be kept, and the rest of its digits is passed over
        rename_i u hdigits
        obtain ⟨ds, hds, hr, htake⟩ := exponentDigits_error_off hdigits
        split at h
        · cases h
        · rename_i hzero
          cases h
          cases ds with
          | nil => exact absurd rfl hds
          | cons c ds =>
            obtain ⟨rfl, rfl⟩ := List.cons.inj hr
            refine ⟨noDigit_dropWhile u, sign ++ b :: (ds ++ u.takeWhile isDigit), by simp, fun t' ht' => ?_⟩
            have hread : exponentDigits 0 (b :: (ds ++ (u.takeWhile isDigit ++ t'))) =
                .error (u.takeWhile isDigit ++ t') := htake _
            rw [List.append_assoc, List.cons_append, List.append_assoc, exponentPart_of_sign (hsign _) hb,
              hread]
            dsimp only
            rw [if_neg hzero, dropWhile_of_noDigit isDigit_of_mem_takeWhile ht']
    · rw [exponentPart, hs] at h
      dsimp only at h
      rw [if_neg hb] at h
      cases h

/-- A front that is not empty has an exponent. -/
theorem floatEnd_off (hs : NoDigit s) (h : floatEnd negative n e s = .ok (x, t)) :
    ∃ front, s = front ++ t ∧ EndsFloat front t ∧ (front ≠ [] → ∃ c ∈ front, isExponentMark c = true) ∧
      ∀ t', EndsFloat front t' → floatEnd negative n e (front ++ t') = .ok (x, t') := by
  rw [floatEnd] at h
  split at h
  · rename_i hmark
    cases s with
    | nil => cases hmark
    | cons b r =>
      have hb : isExponentMark b = true := hmark
      obtain ⟨ht, front, hr, htake⟩ := exponentPart_off h
      obtain rfl : r = front ++ t := hr
      have hfront : ∃ c ∈ b :: front, isExponentMark c = true := ⟨b, List.mem_cons_self, hb⟩
      refine ⟨b :: front, rfl, fun c hc => ⟨ht c hc, fun _ => hfront⟩, fun _ => hfront, fun t' ht' => ?_⟩
      rw [List.cons_append, floatEnd, List.head?_cons, Option.any_some, if_pos hb]
      exact htake t' ht'.noDigit
  · rename_i hmark
    obtain ⟨rfl, hfloat⟩ := float_off h
    refine ⟨[], rfl, fun b hb => ⟨hs b hb, fun hm => ?_⟩, fun hne => absurd rfl hne, fun t' ht' => ?_⟩
    · rw [hb] at hmark
      exact absurd hm hmark
    · rw [List.nil_append, floatEnd, ht'.head_not_mark (List.forall_mem_nil _), if_neg Bool.false_ne_true]
      exact hfloat t'

theorem fraction_off (h : fraction negative n dropped s = .ok (x, t)) :
    ∃ front, s = front ++ t ∧ EndsFloat front t ∧
      ∀ t', EndsFloat front t' → fraction negative n dropped (front ++ t') = .ok (x, t') := by
  have hall : ∀ b ∈ s.takeWhile isDigit, isDigit b = true := isDigit_of_mem_takeWhile
  have hs : s.takeWhile isDigit ++ s.dropWhile isDigit = s := List.takeWhile_append_dropWhile
  rw [fraction] at h
  generalize s.takeWhile isDigit = ds at h hall hs
  cases ds with
  | nil => cases h
  | cons b ds =>
    obtain ⟨front, hr, ht, -, htake⟩ := floatEnd_off (noDigit_dropWhile s) h
    have hafter : NoDigit (front ++ t) := hr ▸ noDigit_dropWhile s
    refine ⟨b :: ds ++ front, by rw [List.append_assoc, ← hr, hs], ht.append _, fun t' ht' => ?_⟩
    have hends : EndsFloat front t' := ht'.of_append fun c hc => isExponentMark_of_isDigit (hall c hc)
    have hbehind : NoDigit (front ++ t') := hafter.append hends.noDigit
    rw [List.append_assoc, fraction, takeWhile_of_noDigit hall hbehind, dropWhile_of_noDigit hall hbehind]
    exact htake t' hends

/-- Without point and exponent the number is an integer, or a float for one that is too small, and nothing
more is taken. -/
theorem numeralEnd_off_of_ends (hs : Ends s) (h : numeralEnd negative n 0 s = .ok (x, t)) :
    s = t ∧ ∀ t', Ends t' → numeralEnd negative n 0 t' = .ok (x, t') := by
  rw [numeralEnd_of_ends hs] at h
  split at h
  · rename_i hpositive
    cases h
    exact ⟨rfl, fun t' ht' => by rw [numeralEnd_of_ends ht', if_pos hpositive]⟩
  · rename_i hnegative
    split at h
    · rename_i hsmall
      obtain ⟨rfl, hfloat⟩ := float_off h
      refine ⟨rfl, fun t' ht' => ?_⟩
      rw [numeralEnd_of_ends ht', if_neg hnegative, if_pos hsmall, hfloat]
    · rename_i hfits
      cases h
      exact ⟨rfl, fun t' ht' => by rw [numeralEnd_of_ends ht', if_neg hnegative, if_neg hfits]⟩

theorem numeralEnd_off_of_point (h : fraction negative n dropped r = .ok (x, t)) :
    ∃ front, point :: r = front ++ t ∧ EndsNumeral front t ∧
      ∀ t', EndsNumeral front t' → numeralEnd negative n dropped (front ++ t') = .ok (x, t') := by
  obtain ⟨front, rfl, ht, htake⟩ := fraction_off h
  refine ⟨point :: front, rfl, ⟨ht.append [point], fun _ => ⟨point, List.mem_cons_self, .inl rfl⟩⟩,
    fun t' ht' => ?_⟩
  have hmark : ∀ c ∈ [point], isExponentMark c = false := List.forall_mem_singleton.mpr (by decide)
  have hends : EndsFloat front t' := ht'.1.of_append hmark
  rw [List.cons_append, numeralEnd, List.head?_cons, Option.any_some, if_pos (by decide)]
  exact htake t' hends

/-- Either digits were dropped and nothing more is taken, or there is an exponent. -/
theorem numeralEnd_off_of_float (hs : NoDigit s) (hpoint : ¬ s.head?.any (· == point) = true)
    (hfloat : dropped ≠ 0 ∨ s.head?.any isExponentMark = true)
    (h : floatEnd negative n dropped s = .ok (x, t)) :
    ∃ front, s = front ++ t ∧ EndsNumeral front t ∧
      ∀ t', EndsNumeral front t' → numeralEnd negative n dropped (front ++ t') = .ok (x, t') := by
  obtain ⟨front, rfl, ht, hfront, htake⟩ := floatEnd_off hs h
  cases front with
  | nil =>
    have hempty : ∀ c ∈ ([] : Bytes), Neutral c := List.forall_mem_nil _
    rw [List.nil_append, ht.head_not_mark (List.forall_mem_nil _)] at hfloat
    have hdropped : dropped ≠ 0 := hfloat.resolve_right Bool.false_ne_true
    refine ⟨[], rfl, ⟨ht, fun hp => ?_⟩, fun t' ht' => ?_⟩
    · exact absurd (by rw [List.nil_append, hp]; rfl) hpoint
    · rw [List.nil_append, numeralEnd, ht'.head_not_point hempty, if_neg Bool.false_ne_true,
        if_pos (.inl hdropped)]
      exact htake t' ht'.1
  | cons c front =>
    -- the byte that both branches look at is one of the front
    obtain ⟨d, hd, hm⟩ := hfront (List.cons_ne_nil c front)
    refine ⟨c :: front, rfl, ⟨ht, fun _ => ⟨d, hd, .inr hm⟩⟩, fun t' ht' => ?_⟩
    rw [List.cons_append, numeralEnd, if_neg (by exact hpoint), if_pos (by exact hfloat)]
    exact htake t' ht'.1

theorem numeralEnd_off (hs : NoDigit s) (h : numeralEnd negative n dropped s = .ok (x, t)) :
    ∃ front, s = front ++ t ∧ EndsNumeral front t ∧
      ∀ t', EndsNumeral front t' → numeralEnd negative n dropped (front ++ t') = .ok (x, t') := by
  have hwhole := h
  rw [numeralEnd] at h
  split at h
  · rename_i hpoint
    cases s with
    | nil => cases hpoint
    | cons b r =>
      obtain rfl : b = point := by simpa using hpoint
      exact numeralEnd_off_of_point h
  · rename_i hpoint
    split at h
    · rename_i hfloat
      exact numeralEnd_off_of_float hs hpoint hfloat h
    · rename_i hint
      obtain ⟨hdropped, hmark⟩ := not_or.mp hint
      obtain rfl : dropped = 0 := not_not.mp hdropped
      have hends : Ends s := by
        refine fun b hb => ⟨hs b hb, ?_, Bool.eq_false_iff.mpr fun hm => ?_⟩
        · rintro rfl
          exact hpoint (by rw [hb]; rfl)
        · exact hmark (by rw [hb]; exact hm)
      obtain ⟨rfl, htake⟩ := numeralEnd_off_of_ends hends hwhole
      exact ⟨[], rfl, endsNumeral_nil_iff.mpr hends, fun t' ht' => htake t' (endsNumeral_nil_iff.mp ht')⟩

theorem unsigned_off (h : unsigned negative s = .ok (x, t)) :
    ∃ front, s = front ++ t ∧ EndsNumeral front t ∧
      ∀ t', EndsNumeral front t' → unsigned negative (front ++ t') = .ok (x, t') := by
  cases s with
  | nil => cases h
  | cons b r =>
    rw [unsigned] at h
    split at h
    · rename_i hb
      split at h
      · cases h
      · rename_i hdigit
        have hr : NoDigit r := fun c hc => Bool.eq_false_iff.mpr fun hd => hdigit (by rw [hc]; exact hd)
        obtain ⟨front, rfl, ht, htake⟩ := numeralEnd_off hr h
        have hall : ∀ c ∈ [b], isDigit c = true := List.forall_mem_singleton.mpr (by rw [hb]; decide)
        refine ⟨b :: front, rfl, ht.append [b], fun t' ht' => ?_⟩
        have hends : EndsNumeral front t' := ht'.of_append fun c hc => neutral_of_isDigit (hall c hc)
        have hbehind : (front ++ t').head?.any isDigit = false :=
          any_head_eq_false (hr.append hends.1.noDigit)
        rw [List.cons_append, unsigned, if_pos hb, hbehind, if_neg Bool.false_ne_true]
        exact htake t' hends
    · rename_i hzero
      split at h
      · rename_i hb
        have hall : ∀ c ∈ r.takeWhile isDigit, isDigit c = true := isDigit_of_mem_takeWhile
        have hr : r.takeWhile isDigit ++ r.dropWhile isDigit = r := List.takeWhile_append_dropWhile
        generalize r.takeWhile isDigit = ds at h hall hr
        obtain ⟨front, hafter, ht, htake⟩ := numeralEnd_off (noDigit_dropWhile r) h
        have hdigits : NoDigit (front ++ t) := hafter ▸ noDigit_dropWhile r
        refine ⟨b :: ds ++ front, by rw [← hr, hafter]; simp, ht.append _, fun t' ht' => ?_⟩
        have hdigits' : ∀ c ∈ b :: ds, isDigit c = true := List.forall_mem_cons.mpr ⟨hb, hall⟩
        have hends : EndsNumeral front t' := ht'.of_append fun c hc => neutral_of_isDigit (hdigits' c hc)
        have hbehind : NoDigit (front ++ t') := hdigits.append hends.1.noDigit
        rw [List.append_assoc, List.cons_append, unsigned, if_neg hzero, if_pos hb]
        simp only [takeWhile_of_noDigit hall hbehind, dropWhile_of_noDigit hall hbehind]
        exact htake t' hends
      · cases h

/-- A numeral is taken off the front of a text whatever stands behind it, as long as this does not go on
with the numeral. -/
theorem numeral_off (h : Takes (numeral negative) s x t) :
    ∃ front, s = front ++ t ∧ EndsNumeral front t ∧
      ∀ t', EndsNumeral front t' → Takes (numeral negative) (front ++ t') x t' := by
  obtain ⟨hlt, h⟩ := h
  unfold numeral at h
  split at h
  · rename_i hread
    cases h
    obtain ⟨front, hs, ht, htake⟩ := unsigned_off hread
    exact ⟨front, hs, ht, fun t' ht' => numeral_takes (htake t' ht')⟩
  · cases h

end Stencil.Scan
