import Stencil.Proofs.Conformance
import Stencil.Proofs.Expansion
import Stencil.Proofs.Verdicts

/-! Filling what has been filled. A second run leaves a filled document as it is exactly when every
default that the first run has put in is one that its own template leaves as it is. -/
namespace Stencil

variable {fill : Bool}

namespace Template

/-- The document passes, and filling it changes nothing. -/
def Settled (t : Template) (v : Json) : Prop := t.check true v = .ok v

variable {p : Property Template} {ps : List (Property Template)} {ms ns : List (String × Json)}

theorem fillAbsent_eq_self_iff (h : Entries.get? ms p.name = none) :
    fillAbsent true p ms = ms ↔ p.template.default? = none := by
  unfold fillAbsent
  cases p.template.default? with
  | none => simp
  | some d => simp [Entries.insert_eq_self_iff, h]

/-- A property leaves the members as they are when it admits what is there as settled and has no
default for what is not there. -/
theorem checkProperty_eq_self_iff :
    checkProperty true p ms = .ok ms ↔
      p.Admits p.template.Settled (Entries.get? ms p.name) ∧
        (Entries.get? ms p.name = none → p.template.default? = none) := by
  rw [checkProperty_eq_ok_iff]
  cases h : Entries.get? ms p.name with
  | none => simp [Property.Admits, eq_comm (a := ms), fillAbsent_eq_self_iff h, and_assoc]
  | some v =>
    by_cases hv : v = .null
    · subst v
      simp [Property.Admits]
    · simp [Property.admits_some hv, hv, eq_comm (a := ms), Entries.insert_eq_self_iff, h, Settled]

/-- Properties change no member but those that they declare. -/
theorem get?_checkProperties {k : String} (h : checkProperties fill ps ms = .ok ns)
    (hk : k ∉ ps.map (·.name)) : Entries.get? ns k = Entries.get? ms k := by
  induction ps generalizing ms with
  | nil =>
    cases h
    rfl
  | cons p ps ih =>
    rw [List.map_cons, List.mem_cons, not_or] at hk
    rw [checkProperties_cons] at h
    obtain ⟨ms', hms, h⟩ := Except.bind_eq_ok_iff.mp h
    rw [ih h hk.2, get?_checkProperty hms (Ne.symm hk.1)]

/-- Every property comes to its member while that is still as it was, and leaves it in its final form. -/
theorem exists_checkProperty (hd : (ps.map (·.name)).Nodup) (h : checkProperties fill ps ms = .ok ns)
    (hp : p ∈ ps) : ∃ before after, checkProperty fill p before = .ok after ∧
      Entries.get? before p.name = Entries.get? ms p.name ∧
      Entries.get? after p.name = Entries.get? ns p.name := by
  induction ps generalizing ms with
  | nil => cases hp
  | cons q ps ih =>
    rw [List.map_cons, List.nodup_cons] at hd
    rw [checkProperties_cons] at h
    obtain ⟨ms', hms, hrest⟩ := Except.bind_eq_ok_iff.mp h
    rcases List.mem_cons.mp hp with rfl | hp
    · exact ⟨ms, ms', hms, rfl, (get?_checkProperties hrest hd.1).symm⟩
    · obtain ⟨before, after, hstep, hbefore, hafter⟩ := ih hd.2 hrest hp
      have hne : q.name ≠ p.name := fun he => hd.1 (he ▸ List.mem_map_of_mem hp)
      exact ⟨before, after, hstep, hbefore.trans (get?_checkProperty hms hne), hafter⟩

/-- A property that leaves its own member as it is leaves all of them. -/
theorem checkProperty_eq_of_get? (h : checkProperty fill p ms = .ok ns)
    (hg : Entries.get? ns p.name = Entries.get? ms p.name) : ns = ms := by
  rcases checkProperty_eq_ok_iff.mp h with ⟨-, -, rfl⟩ | ⟨v, w, -, -, -, rfl⟩ | ⟨hnone, -, -, rfl⟩
  · rfl
  · rw [Entries.get?_insert_self] at hg
    exact Entries.insert_get? hg.symm
  · unfold fillAbsent at hg ⊢
    split
    · rename_i hd
      rw [hd, Entries.get?_insert_self, hnone] at hg
      cases hg
    · rfl

/-- Names being distinct, the properties leave the members as they are only if each of them does. -/
theorem checkProperties_eq_self_iff (hd : (ps.map (·.name)).Nodup) :
    checkProperties fill ps ms = .ok ms ↔ ∀ p ∈ ps, checkProperty fill p ms = .ok ms := by
  induction ps with
  | nil => simp [checkProperties]
  | cons p ps ih =>
    rw [List.map_cons, List.nodup_cons] at hd
    rw [checkProperties_cons, Except.bind_eq_ok_iff, List.forall_mem_cons, ← ih hd.2]
    constructor
    · intro h
      obtain ⟨ms', hms, h⟩ := h
      obtain rfl := checkProperty_eq_of_get? hms (get?_checkProperties h hd.1).symm
      exact ⟨hms, h⟩
    · intro h
      exact ⟨ms, h⟩

end Template

/-- What the property puts in the place of a missing value is settled, and so is what it puts into a
value, by `inside`. -/
def Property.AddsSettled (p : Property Template) (inside : Json → Prop) : Option Json → Prop
  | none => p.required = false → ∀ d, p.template.default? = some d → p.template.Settled d
  | some .null => True
  | some v => inside v

theorem Property.addsSettled_some {p : Property Template} {inside : Json → Prop} {v : Json}
    (hv : v ≠ .null) : p.AddsSettled inside (some v) ↔ inside v := by
  cases v with
  | null => exact absurd rfl hv
  | _ => exact Iff.rfl

namespace Template

mutual

/-- Every default that filling puts into the document is settled in its place. -/
def AddsSettled : Template → Json → Prop
  | value _ _, _ => True
  | array _ none, _ => True
  | array _ (some item), v => ∀ e ∈ v.items, AddsSettled item e
  | object _ ps, v => MembersAddSettled ps v.members
  | named definition _, v => AddsSettled definition.template v

def MembersAddSettled : List (Property Template) → List (String × Json) → Prop
  | [], _ => True
  | p :: ps, ms =>
    p.AddsSettled (fun v => AddsSettled p.template v) (Entries.get? ms p.name) ∧ MembersAddSettled ps ms

end

variable {p : Property Template} {ps : List (Property Template)} {ms ns : List (String × Json)}

theorem membersAddSettled_iff :
    MembersAddSettled ps ms ↔
      ∀ p ∈ ps, p.AddsSettled p.template.AddsSettled (Entries.get? ms p.name) := by
  induction ps with
  | nil => simp [MembersAddSettled]
  | cons p ps ih => simp [MembersAddSettled, ih]

theorem kind_check {t : Template} {v w : Json} (h : t.check fill v = .ok w) : w.kind = v.kind := by
  induction t with
  | value tag d =>
    cases (Tag.guard_eq_ok_iff.mp h).2
    rfl
  | freeArray d =>
    cases (Tag.guard_eq_ok_iff.mp h).2
    rfl
  | array d item ih =>
    obtain ⟨vs, ws, rfl, rfl, -⟩ := check_array_eq_ok_iff.mp h
    rfl
  | object d ps ih =>
    obtain ⟨ms, ns, rfl, rfl, -⟩ := check_object_eq_ok_iff.mp h
    rfl
  | named definition d ih => exact ih h

/-- What is not null does not become null. -/
theorem check_ne_null {t : Template} {v w : Json} (h : t.check fill v = .ok w) (hv : v ≠ .null) :
    w ≠ .null := by
  rintro rfl
  have hk := kind_check h
  cases v <;> simp [Json.kind] at hk hv

/-- A null of the right type is settled: nothing is declared inside it. -/
theorem settled_null {t : Template} (h : t.tag.accepts .null = true) : t.Settled .null := by
  induction t with
  | value tag d => exact Tag.guard_eq_ok_iff.mpr ⟨h, rfl⟩
  | freeArray d => cases h
  | array d item ih => cases h
  | object d ps ih => cases h
  | named definition d ih => exact ih h

/-- One property after a first run over all of them: it rests when what it has added is settled. -/
theorem checkProperty_filled_iff {before after : List (String × Json)}
    (hstep : checkProperty true p before = .ok after)
    (hbefore : Entries.get? before p.name = Entries.get? ms p.name)
    (hafter : Entries.get? after p.name = Entries.get? ns p.name)
    (hnull : p.template.default? = some .null → p.template.Settled .null)
    (ih : ∀ v w, p.template.check true v = .ok w → (p.template.Settled w ↔ p.template.AddsSettled v)) :
    checkProperty true p ns = .ok ns ↔
      p.AddsSettled p.template.AddsSettled (Entries.get? ms p.name) := by
  rw [checkProperty_eq_self_iff, ← hafter, ← hbefore]
  rcases checkProperty_eq_ok_iff.mp hstep with ⟨hg, hn, rfl⟩ | ⟨v, w, hg, hv, hw, rfl⟩ |
    ⟨hg, hr, hn, rfl⟩
  · simp [hg, Property.Admits, Property.AddsSettled, hn]
  · rw [hg, Entries.get?_insert_self, Property.admits_some (check_ne_null hw hv),
      Property.addsSettled_some hv, ih v w hw]
    simp
  · rw [hg, Property.AddsSettled]
    cases hd : p.template.default? with
    | none => simp [fillAbsent, hd, hg, Property.Admits, hr, hn]
    | some d =>
      have hget : Entries.get? (fillAbsent true p before) p.name = some d := by
        simp [fillAbsent, hd, Entries.get?_insert_self]
      by_cases hdn : d = .null
      · subst d
        simp [hget, Property.Admits, hn, hnull hd]
      · simp [hget, Property.admits_some hdn, hr]

theorem settled_array_iff {d : Option Json} {item : Template} {vs : List Json} :
    (array d (some item)).Settled (.array vs) ↔ ∀ v ∈ vs, item.Settled v := by
  rw [Settled, check_array_eq_ok_iff]
  constructor
  · intro h
    obtain ⟨_, _, hv, hw, hvs⟩ := h
    cases hv
    cases hw
    intro v hv
    exact List.forall₂_same.mp hvs v hv
  · intro h
    exact ⟨vs, vs, rfl, rfl, List.forall₂_same.mpr h⟩

theorem settled_object_iff {d : Option Json} (hd : (ps.map (·.name)).Nodup) :
    (object d ps).Settled (.object ms) ↔ ∀ p ∈ ps, checkProperty true p ms = .ok ms := by
  rw [Settled, check_object_eq_ok_iff, ← checkProperties_eq_self_iff hd]
  constructor
  · intro h
    obtain ⟨_, _, hv, hw, hms⟩ := h
    cases hv
    cases hw
    exact hms
  · intro h
    exact ⟨ms, ms, rfl, rfl, h⟩

theorem items_settled_iff {item : Template} {vs ws : List Json}
    (h : List.Forall₂ (fun v w => item.check true v = .ok w) vs ws)
    (ih : ∀ v w, item.check true v = .ok w → (item.Settled w ↔ item.AddsSettled v)) :
    (∀ w ∈ ws, item.Settled w) ↔ ∀ v ∈ vs, item.AddsSettled v := by
  induction h with
  | nil => simp
  | cons hw _ ihvs => rw [List.forall_mem_cons, List.forall_mem_cons, ih _ _ hw, ihvs]

/-- A document that has been filled is settled exactly when all that has been added is. -/
theorem settled_iff_addsSettled {t : Template} (ht : t.WellFormed) {v w : Json}
    (h : t.check true v = .ok w) : t.Settled w ↔ t.AddsSettled v := by
  induction t generalizing v w with
  | value tag d =>
    have hg := Tag.guard_eq_ok_iff.mp h
    cases hg.2
    exact iff_of_true h trivial
  | freeArray d =>
    have hg := Tag.guard_eq_ok_iff.mp h
    cases hg.2
    exact iff_of_true h trivial
  | array d item ih =>
    obtain ⟨vs, ws, rfl, rfl, hws⟩ := check_array_eq_ok_iff.mp h
    have hi := (everywhere_array_iff.mp ht).2
    rw [settled_array_iff, AddsSettled]
    exact items_settled_iff hws fun v w hw => ih hi hw
  | object d ps ih =>
    obtain ⟨ms, ns, rfl, rfl, hns⟩ := check_object_eq_ok_iff.mp h
    obtain ⟨hd, hps⟩ := ht.object
    rw [settled_object_iff hd, AddsSettled, membersAddSettled_iff]
    refine forall₂_congr fun p hp => ?_
    obtain ⟨before, after, hstep, hbefore, hafter⟩ := exists_checkProperty hd hns hp
    exact checkProperty_filled_iff hstep hbefore hafter
      (fun he => settled_null ((hps p hp).2.root.default_accepted _ he))
      fun v w hw => ih p hp (hps p hp).2 hw
  | named definition d ih => exact ih (everywhere_named_iff.mp ht).2 h

end Template

end Stencil
