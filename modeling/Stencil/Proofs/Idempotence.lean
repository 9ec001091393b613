import Stencil.Proofs.Filling
import Stencil.Proofs.Histories
import Stencil.Proofs.Samples
import Stencil.Proofs.Settling

/-! Filling twice, for all documents at once. A compiled template fills idempotently exactly when the
defaults that it may put in are settled, and of these only the ones need to be asked about whose
template says something of what is inside. -/
namespace Stencil.Template

/-- The defaults of optional properties whose template is structured are settled. -/
def DefaultsSettled (t : Template) : Prop :=
  ∀ p ∈ t.properties, p.required = false → p.template.Structured →
    ∀ d, p.template.default? = some d → p.template.Settled d

variable {p : Property Template} {ps : List (Property Template)}

theorem addsSettled_of_defaultsSettled {t : Template} (ht : t.WellFormed)
    (h : t.Everywhere DefaultsSettled) (v : Json) : t.AddsSettled v := by
  induction t generalizing v with
  | value tag d => trivial
  | freeArray d => trivial
  | array d item ih => exact fun e _ => ih (everywhere_array_iff.mp ht).2 (everywhere_array_iff.mp h).2 e
  | object d ps ih =>
    obtain ⟨-, hps⟩ := ht.object
    obtain ⟨hs, hds⟩ := everywhere_object_iff.mp h
    refine membersAddSettled_iff.mpr fun p hp => ?_
    cases Entries.get? v.members p.name with
    | none =>
      intro hr d hd
      by_cases hst : p.template.Structured
      · exact hs p hp hr hst d hd
      · exact check_default_of_not_structured (hps p hp).2.root hst hd
    | some e =>
      by_cases he : e = .null
      · subst e
        trivial
      · exact (Property.addsSettled_some he).mpr (ih p hp (hps p hp).2 (hds p hp) e)
  | named definition d ih => exact ih (everywhere_named_iff.mp ht).2 (everywhere_named_iff.mp h).2 v

theorem settled_of_defaultsSettled {t : Template} (ht : t.WellFormed) (hd : t.Everywhere DefaultsSettled)
    {v w : Json} (h : t.check true v = .ok w) : t.Settled w :=
  (settled_iff_addsSettled ht h).mpr (addsSettled_of_defaultsSettled ht hd v)

theorem Visits.addsSettled {s t : Template} {v w : Json} (h : Visits s v t w) (ha : t.AddsSettled w) :
    s.AddsSettled v := by
  induction h with
  | here => exact ha
  | item hw h ih => exact ih (ha _ hw)
  | property hp hget hw h ih =>
    have hadds := membersAddSettled_iff.mp ha _ hp
    rw [Json.members, hget, Property.addsSettled_some hw] at hadds
    exact ih hadds
  | definition h ih => exact ih ha

/-- What cannot be left out: a default that is not settled shows in some document. -/
theorem defaultsSettled_of_idempotent {t : Template} (ht : t.WellFormed)
    (h : ∀ v : Json, v.KeysDistinct → ∀ w, t.check true v = .ok w → t.Settled w) :
    t.Everywhere DefaultsSettled := by
  intro s hs p hp hr hst d hd
  cases s with
  | object d' ps =>
    have hsw : (object d' ps).WellFormed := ht.of_occurs hs
    obtain ⟨ms, hget, hc, hk⟩ := exists_conforms_without hsw hp hr
    obtain ⟨w, -, hwk, hwc, hvisit⟩ := exists_visits hs ht Json.noConfusion hk hc
    -- the document `w` passes, and as filling it is final all that is added to it is settled
    obtain ⟨w', hw'⟩ := (passes_iff_conforms ht.namesDistinct true w).mpr hwc
    have hadds := hvisit.addsSettled ((settled_iff_addsSettled ht hw').mp (h w hwk w' hw'))
    have hmember := membersAddSettled_iff.mp hadds p hp
    rw [Json.members, hget] at hmember
    exact hmember hr d hd
  | _ => cases hp

/-- Where the defaults that may be filled in are settled, a filled document passes again as it is, with
defaults and without. -/
theorem filled_for_good {t : Template} (ht : t.Compiled) (hd : t.Everywhere DefaultsSettled) {v w : Json}
    (h : t.check true v = .ok w) : t.check true w = .ok w ∧ t.check false w = .ok w := by
  have hw : t.Settled w := settled_of_defaultsSettled ht.wellFormed hd h
  have hc : t.Conforms w := (passes_iff_conforms ht.wellFormed.namesDistinct true w).mp ⟨w, hw⟩
  exact ⟨hw, check_false_eq_ok_iff.mpr ⟨hc, rfl⟩⟩

/-- Properties with a default inside which integers are asked for, without a default of its own, and with
a null. -/
def noteDefinition : Json :=
  .object [("pages default [1,2]", .array [.string ":int"]),
    ("author", .object [("name", .string "anna")]), ("parent default null", .string ":any")]

def noteTemplate : Template :=
  .object none
    [⟨"pages", false, true,
        .array (some (.array [.number (.int 1), .number (.int 2)])) (some (.value .int none))⟩,
      ⟨"author", false, true,
        .object none [⟨"name", false, true, .value .string (some (.string "anna"))⟩]⟩,
      ⟨"parent", false, true, .value .any (some .null)⟩]

theorem compile_noteDefinition : compile TypeRef.builtin? noteDefinition = .ok noteTemplate := by
  with_unfolding_all rfl

theorem noteTemplate_defaultsSettled : noteTemplate.Everywhere DefaultsSettled := by
  have hscalar : ∀ tag d, (value tag d).Everywhere DefaultsSettled := fun tag d =>
    everywhere_value_iff.mpr fun p hp => nomatch hp
  refine everywhere_object_iff.mpr ⟨fun p hp _ _ d hd => ?_, fun p hp => ?_⟩
  · simp only [properties, List.mem_cons, List.not_mem_nil, or_false] at hp
    rcases hp with rfl | rfl | rfl <;> cases hd <;> rfl
  · simp only [List.mem_cons, List.not_mem_nil, or_false] at hp
    rcases hp with rfl | rfl | rfl
    · exact everywhere_array_iff.mpr ⟨fun p hp => (nomatch hp), hscalar _ _⟩
    · refine everywhere_object_iff.mpr ⟨fun p hp _ _ d hd => ?_, fun p hp => ?_⟩
      · cases List.mem_singleton.mp hp
        cases hd
        rfl
      · exact List.mem_singleton.mp hp ▸ hscalar _ _
    · exact hscalar _ _

def note : Json := .object [("author", .object [])]

def filledNote : Json :=
  .object [("author", .object [("name", .string "anna")]),
    ("pages", .array [.number (.int 1), .number (.int 2)]), ("parent", .null)]

theorem note_filled_for_good :
    compile TypeRef.builtin? noteDefinition = .ok noteTemplate ∧
      noteTemplate.Everywhere DefaultsSettled ∧ noteTemplate.check true note = .ok filledNote ∧
      noteTemplate.check true filledNote = .ok filledNote ∧
      noteTemplate.check false filledNote = .ok filledNote := by
  have ht := History.compiled_of_builtin compile_noteDefinition
  have hfill : noteTemplate.check true note = .ok filledNote := rfl
  exact ⟨compile_noteDefinition, noteTemplate_defaultsSettled, hfill,
    filled_for_good ht noteTemplate_defaultsSettled hfill⟩

/-- Filling with a compiled template is idempotent exactly when the defaults that may be filled in are
settled. -/
theorem filling_idempotent_iff {t : Template} (ht : t.Compiled) :
    (∀ v : Json, v.KeysDistinct → ∀ w, t.check true v = .ok w → t.check true w = .ok w) ↔
      t.Everywhere DefaultsSettled := by
  constructor
  · intro h
    exact defaultsSettled_of_idempotent ht.wellFormed h
  · intro h v _ w hw
    exact settled_of_defaultsSettled ht.wellFormed h hw

theorem note_filling_idempotent :
    compile TypeRef.builtin? noteDefinition = .ok noteTemplate ∧
      ∀ v : Json, v.KeysDistinct → ∀ w, noteTemplate.check true v = .ok w →
        noteTemplate.check true w = .ok w :=
  ⟨compile_noteDefinition,
    (filling_idempotent_iff (History.compiled_of_builtin compile_noteDefinition)).mpr
      noteTemplate_defaultsSettled⟩

/-- A default that its own template refuses, and one that it would go on filling. -/
def tagsDefinition : Json := .object [("tags default [1]", .array [.string ":string"])]

def sizeDefinition : Json :=
  .object [("size default \x7b\x7d", .object [("width", .number (.int 5))])]

/-- Both are accepted in compiling. The first makes a filled document one that is refused, the second
one that is changed when it is filled again. -/
theorem filling_not_idempotent :
    (∃ t, compile TypeRef.builtin? tagsDefinition = .ok t ∧
        t.check true (.object []) = .ok (.object [("tags", .array [.number (.int 1)])]) ∧
        t.check true (.object [("tags", .array [.number (.int 1)])]) =
          .error (.mismatch ["tags", "0"] .string "1")) ∧
      ∃ t, compile TypeRef.builtin? sizeDefinition = .ok t ∧
        t.check true (.object []) = .ok (.object [("size", .object [])]) ∧
        t.check true (.object [("size", .object [])]) =
          .ok (.object [("size", .object [("width", .number (.int 5))])]) := by
  constructor
  · refine ⟨.object none [⟨"tags", false, true, .array (some (.array [.number (.int 1)]))
      (some (.value .string none))⟩], by with_unfolding_all rfl, rfl, rfl⟩
  · refine ⟨.object none [⟨"size", false, true, .object (some (.object []))
      [⟨"width", false, true, .value .number (some (.number (.int 5)))⟩]⟩], by with_unfolding_all rfl, rfl, rfl⟩

end Stencil.Template
