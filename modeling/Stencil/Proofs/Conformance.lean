import Stencil.Proofs.Checking

/-! Conformance of a document to a template, and checking without defaults, which decides it. -/
namespace Stencil

/-- A missing value has to be optional, a null has to be allowed, and any other document has to satisfy
`conforms`. -/
def Property.Admits {τ : Type} (p : Property τ) (conforms : Json → Prop) : Option Json → Prop
  | none => p.required = false ∧ p.nullable = true
  | some .null => p.nullable = true
  | some v => conforms v

theorem Property.admits_some {τ : Type} {p : Property τ} {conforms : Json → Prop} {v : Json}
    (hv : v ≠ .null) : p.Admits conforms (some v) ↔ conforms v := by
  cases v with
  | null => exact absurd rfl hv
  | _ => exact Iff.rfl

namespace Template

mutual

/-- The tag accepts the document, and what is declared below accepts every item and the value of every
property. Members that are not declared are free. -/
def Conforms : Template → Json → Prop
  | value tag _, v => tag.accepts v = true
  | array _ none, v => Tag.array.accepts v = true
  | array _ (some item), v => Tag.array.accepts v = true ∧ ∀ e ∈ v.items, Conforms item e
  | object _ ps, v => Tag.object.accepts v = true ∧ AdmitMembers ps v.members
  | named definition _, v => definition.template.tag.accepts v = true ∧ Conforms definition.template v

/-- Every property admits what the members bind its name to. -/
def AdmitMembers : List (Property Template) → List (String × Json) → Prop
  | [], _ => True
  | p :: ps, ms =>
    p.Admits (fun v => Conforms p.template v) (Entries.get? ms p.name) ∧ AdmitMembers ps ms

end

theorem admitMembers_iff {ps : List (Property Template)} {ms : List (String × Json)} :
    AdmitMembers ps ms ↔ ∀ p ∈ ps, p.Admits p.template.Conforms (Entries.get? ms p.name) := by
  induction ps with
  | nil => simp [AdmitMembers]
  | cons p ps ih => simp [AdmitMembers, ih]

/-- The tag of a template accepts what conforms to it. -/
theorem Conforms.accepts {t : Template} {v : Json} (h : t.Conforms v) : t.tag.accepts v = true := by
  cases t with
  | value tag d =>
    rw [Conforms] at h
    exact h
  | array d item =>
    cases item with
    | none =>
      rw [Conforms] at h
      exact h
    | some item =>
      rw [Conforms] at h
      exact h.1
  | object d ps =>
    rw [Conforms] at h
    exact h.1
  | named definition d =>
    rw [Conforms] at h
    exact h.1

/-- Without defaults a property that passes leaves the members as they are. -/
theorem checkProperty_false_eq_ok_iff {p : Property Template} {ms ns : List (String × Json)}
    (ih : ∀ v w, p.template.check false v = .ok w ↔ p.template.Conforms v ∧ w = v) :
    checkProperty false p ms = .ok ns ↔
      p.Admits p.template.Conforms (Entries.get? ms p.name) ∧ ns = ms := by
  rw [checkProperty_eq_ok_iff]
  cases h : Entries.get? ms p.name with
  | none => simp [Property.Admits, fillAbsent, and_assoc]
  | some v =>
    by_cases hv : v = .null
    · subst v
      simp [Property.Admits]
    · have hi : Entries.insert ms p.name v = ms := Entries.insert_get? h
      simp [Property.admits_some hv, hv, ih, hi, and_assoc]

theorem checkProperties_false_eq_ok_iff {ps : List (Property Template)} {ms ns : List (String × Json)}
    (ih : ∀ p ∈ ps, ∀ v w, p.template.check false v = .ok w ↔ p.template.Conforms v ∧ w = v) :
    checkProperties false ps ms = .ok ns ↔ AdmitMembers ps ms ∧ ns = ms := by
  induction ps with
  | nil => simp [checkProperties, AdmitMembers, eq_comm]
  | cons p ps ihps =>
    have hp := ih p List.mem_cons_self
    have hps := ihps fun q hq => ih q (List.mem_cons_of_mem p hq)
    rw [checkProperties_cons, Except.bind_eq_ok_iff, AdmitMembers]
    constructor
    · intro h
      obtain ⟨ms', h, h'⟩ := h
      obtain ⟨ha, rfl⟩ := (checkProperty_false_eq_ok_iff hp).mp h
      obtain ⟨has, rfl⟩ := hps.mp h'
      exact ⟨⟨ha, has⟩, rfl⟩
    · intro h
      obtain ⟨⟨ha, has⟩, rfl⟩ := h
      exact ⟨ns, (checkProperty_false_eq_ok_iff hp).mpr ⟨ha, rfl⟩, hps.mpr ⟨has, rfl⟩⟩

theorem eachItem_false_eq_ok_iff {item : Template} {i : Nat} {vs ws : List Json}
    (ih : ∀ v w, item.check false v = .ok w ↔ item.Conforms v ∧ w = v) :
    eachItem (fun v => check false item v) i vs = .ok ws ↔ (∀ v ∈ vs, item.Conforms v) ∧ ws = vs := by
  rw [eachItem_eq_ok_iff]
  simp only [ih]
  constructor
  · intro h
    induction h with
    | nil => simp
    | cons hv _ ihvs =>
      obtain ⟨hv, rfl⟩ := hv
      obtain ⟨hvs, rfl⟩ := ihvs
      exact ⟨by simpa [hv] using hvs, rfl⟩
  · intro h
    obtain ⟨h, rfl⟩ := h
    exact List.forall₂_same.mpr fun v hv => ⟨h v hv, rfl⟩

theorem check_false_eq_ok_iff {t : Template} {v w : Json} :
    t.check false v = .ok w ↔ t.Conforms v ∧ w = v := by
  induction t generalizing v w with
  | value tag d =>
    rw [check, Tag.guard_eq_ok_iff, Conforms, Except.ok.injEq]
    exact and_congr_right fun _ => eq_comm
  | freeArray d =>
    rw [check, Tag.guard_eq_ok_iff, Conforms, Except.ok.injEq]
    exact and_congr_right fun _ => eq_comm
  | array d item ih =>
    rw [check, Tag.guard_eq_ok_iff, Conforms, and_assoc]
    refine and_congr_right fun h => ?_
    obtain ⟨vs, rfl⟩ := Tag.array_accepts_iff.mp h
    rw [Json.onItems, Except.map_eq_ok_iff, Json.items]
    simp only [eachItem_false_eq_ok_iff fun _ _ => ih]
    constructor
    · intro h
      obtain ⟨ws, ⟨hws, rfl⟩, rfl⟩ := h
      exact ⟨hws, rfl⟩
    · intro h
      obtain ⟨hws, rfl⟩ := h
      exact ⟨vs, ⟨hws, rfl⟩, rfl⟩
  | object d ps ih =>
    rw [check, Tag.guard_eq_ok_iff, Conforms, and_assoc]
    refine and_congr_right fun h => ?_
    obtain ⟨ms, rfl⟩ := Tag.object_accepts_iff.mp h
    rw [Json.onMembers, Except.map_eq_ok_iff, Json.members]
    simp only [checkProperties_false_eq_ok_iff fun p hp _ _ => ih p hp]
    constructor
    · intro h
      obtain ⟨ns, ⟨hns, rfl⟩, rfl⟩ := h
      exact ⟨hns, rfl⟩
    · intro h
      obtain ⟨hns, rfl⟩ := h
      exact ⟨ms, ⟨hns, rfl⟩, rfl⟩
  | named definition d ih =>
    rw [check, ih, Conforms, and_assoc]
    constructor
    · intro h
      obtain ⟨hc, rfl⟩ := h
      exact ⟨hc.accepts, hc, rfl⟩
    · intro h
      obtain ⟨-, hc, rfl⟩ := h
      exact ⟨hc, rfl⟩

/-- Checking without defaults decides conformance, and a document that passes comes back as it was. -/
theorem check_decides_conforms (t : Template) (v : Json) :
    ((∃ w, t.check false v = .ok w) ↔ t.Conforms v) ∧ ∀ w, t.check false v = .ok w → w = v := by
  constructor
  · constructor
    · intro h
      obtain ⟨w, hw⟩ := h
      exact (check_false_eq_ok_iff.mp hw).1
    · intro hv
      exact ⟨v, check_false_eq_ok_iff.mpr ⟨hv, rfl⟩⟩
  · intro w hw
    exact (check_false_eq_ok_iff.mp hw).2

end Template

end Stencil
