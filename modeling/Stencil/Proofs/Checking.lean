import Mathlib.Data.List.Forall2
import Stencil.Template.Check
import Stencil.Proofs.Documents
import Stencil.Proofs.Results

/-! Checking step by step: what a success at a tag, at the items of an array and at one declared
property is made of. -/
namespace Stencil

variable {fill : Bool}

theorem Tag.guard_eq_ok_iff {t : Tag} {v w : Json} {k : Except Violation Json} :
    t.guard v k = .ok w ↔ t.accepts v = true ∧ k = .ok w := by
  unfold Tag.guard
  split <;> simp_all

namespace Template

theorem eachItem_eq_ok_iff {f : Json → Except Violation Json} {i : Nat} {vs ws : List Json} :
    eachItem f i vs = .ok ws ↔ List.Forall₂ (fun v w => f v = .ok w) vs ws := by
  induction vs generalizing i ws with
  | nil =>
    rw [eachItem, Except.ok.injEq, List.forall₂_nil_left_iff]
    exact eq_comm
  | cons v vs ih =>
    simp only [eachItem, Except.bind_eq_ok_iff, Except.mapError_eq_ok_iff, Except.ok.injEq, ih,
      List.forall₂_cons_left_iff]
    constructor
    · intro h
      obtain ⟨w, hw, ws', hws, rfl⟩ := h
      exact ⟨w, ws', hw, hws, rfl⟩
    · intro h
      obtain ⟨w, ws', hw, hws, rfl⟩ := h
      exact ⟨w, hw, ws', hws, rfl⟩

/-- What one declared property makes of the members of an object. -/
def checkProperty (fill : Bool) (p : Property Template) (ms : List (String × Json)) :
    Except Violation (List (String × Json)) :=
  match Entries.get? ms p.name with
  | some .null => if p.nullable then .ok ms else .error (.notNullable [p.name])
  | some v => ((check fill p.template v).mapError (.under p.name)).map (Entries.insert ms p.name)
  | none =>
    if p.required || !p.nullable then .error (.missing [p.name]) else .ok (fillAbsent fill p ms)

/-- The properties of an object are checked one after the other. -/
theorem checkProperties_cons (p : Property Template) (ps : List (Property Template))
    (ms : List (String × Json)) :
    checkProperties fill (p :: ps) ms = checkProperty fill p ms >>= checkProperties fill ps := by
  simp only [checkProperties, checkProperty]
  cases Entries.get? ms p.name with
  | none => cases p.required || !p.nullable <;> rfl
  | some v =>
    cases v with
    | null => cases p.nullable <;> rfl
    | _ =>
      dsimp only
      cases check fill p.template _ <;> rfl

theorem checkProperty_of_null {p : Property Template} {ms : List (String × Json)}
    (h : Entries.get? ms p.name = some .null) :
    checkProperty fill p ms = if p.nullable then .ok ms else .error (.notNullable [p.name]) := by
  simp only [checkProperty, h]

theorem checkProperty_of_some {p : Property Template} {ms : List (String × Json)} {v : Json}
    (h : Entries.get? ms p.name = some v) (hv : v ≠ .null) :
    checkProperty fill p ms =
      ((check fill p.template v).mapError (.under p.name)).map (Entries.insert ms p.name) := by
  cases v <;> simp only [checkProperty, h, ne_eq, not_true_eq_false] at hv ⊢

theorem checkProperty_of_none {p : Property Template} {ms : List (String × Json)}
    (h : Entries.get? ms p.name = none) :
    checkProperty fill p ms =
      if p.required || !p.nullable then .error (.missing [p.name]) else .ok (fillAbsent fill p ms) := by
  simp only [checkProperty, h]

/-- A property that passes: its value is null, or a document that passes in its turn, or it is absent
and may be so. -/
theorem checkProperty_eq_ok_iff {p : Property Template} {ms ns : List (String × Json)} :
    checkProperty fill p ms = .ok ns ↔
      (Entries.get? ms p.name = some .null ∧ p.nullable = true ∧ ns = ms) ∨
      (∃ v w, Entries.get? ms p.name = some v ∧ v ≠ .null ∧ p.template.check fill v = .ok w ∧
        ns = Entries.insert ms p.name w) ∨
      (Entries.get? ms p.name = none ∧ p.required = false ∧ p.nullable = true ∧
        ns = fillAbsent fill p ms) := by
  cases h : Entries.get? ms p.name with
  | none =>
    rw [checkProperty_of_none h]
    cases p.required <;> cases p.nullable <;> simp [@eq_comm _ ns]
  | some v =>
    by_cases hv : v = .null
    · subst v
      rw [checkProperty_of_null h]
      cases p.nullable <;> simp [@eq_comm _ ns]
    · rw [checkProperty_of_some h hv, Except.map_eq_ok_iff]
      simp [hv, Except.mapError_eq_ok_iff, @eq_comm _ ns]

/-- A property changes no member but the one that it declares. -/
theorem get?_checkProperty {p : Property Template} {ms ns : List (String × Json)} {k : String}
    (h : checkProperty fill p ms = .ok ns) (hk : p.name ≠ k) :
    Entries.get? ns k = Entries.get? ms k := by
  rcases checkProperty_eq_ok_iff.mp h with ⟨-, -, rfl⟩ | ⟨v, w, -, -, -, rfl⟩ | ⟨-, -, -, rfl⟩
  · rfl
  · exact Entries.get?_insert_of_ne ms w hk
  · unfold fillAbsent
    split
    · exact Entries.get?_insert_of_ne ms _ hk
    · rfl

theorem distinct_checkProperty {p : Property Template} {ms ns : List (String × Json)}
    (hd : Entries.Distinct ms) (h : checkProperty fill p ms = .ok ns) : Entries.Distinct ns := by
  rcases checkProperty_eq_ok_iff.mp h with ⟨-, -, rfl⟩ | ⟨v, w, -, -, -, rfl⟩ | ⟨-, -, -, rfl⟩
  · exact hd
  · exact Entries.distinct_insert hd p.name w
  · unfold fillAbsent
    split
    · exact Entries.distinct_insert hd p.name _
    · exact hd

/-- An array passes when its items do, each against the item template. -/
theorem check_array_eq_ok_iff {d : Option Json} {item : Template} {v w : Json} :
    (array d (some item)).check fill v = .ok w ↔ ∃ vs ws, v = .array vs ∧ w = .array ws ∧
      List.Forall₂ (fun v w => item.check fill v = .ok w) vs ws := by
  rw [check, Tag.guard_eq_ok_iff, Tag.array_accepts_iff]
  constructor
  · intro h
    obtain ⟨⟨vs, rfl⟩, h⟩ := h
    obtain ⟨ws, hws, rfl⟩ := Except.map_eq_ok_iff.mp h
    exact ⟨vs, ws, rfl, rfl, eachItem_eq_ok_iff.mp hws⟩
  · intro h
    obtain ⟨vs, ws, rfl, rfl, hws⟩ := h
    exact ⟨⟨vs, rfl⟩, Except.map_eq_ok_iff.mpr ⟨ws, eachItem_eq_ok_iff.mpr hws, rfl⟩⟩

/-- An object passes when its members do, which go through all the properties. -/
theorem check_object_eq_ok_iff {d : Option Json} {ps : List (Property Template)} {v w : Json} :
    (object d ps).check fill v = .ok w ↔ ∃ ms ns, v = .object ms ∧ w = .object ns ∧
      checkProperties fill ps ms = .ok ns := by
  rw [check, Tag.guard_eq_ok_iff, Tag.object_accepts_iff]
  constructor
  · intro h
    obtain ⟨⟨ms, rfl⟩, h⟩ := h
    obtain ⟨ns, hns, rfl⟩ := Except.map_eq_ok_iff.mp h
    exact ⟨ms, ns, rfl, rfl, hns⟩
  · intro h
    obtain ⟨ms, ns, rfl, rfl, hns⟩ := h
    exact ⟨⟨ms, rfl⟩, Except.map_eq_ok_iff.mpr ⟨ns, hns, rfl⟩⟩

end Template

end Stencil
