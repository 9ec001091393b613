import Mathlib.Data.List.Nodup
import Stencil.Proofs.Conformance
import Stencil.Proofs.Histories
import Stencil.Proofs.Verdicts

/-! Violations: all that is wrong with a document, in the order in which it is come to, and where in the
document it is. Checking stops at the first of them. -/
namespace Stencil

/-- The items of an array under their numbers in decimal, the first of them under `0`. -/
def Json.numbered (vs : List Json) : Entries Json := vs.zipIdx.map fun e => (toString e.2, e.1)

/-- What is in a document under a property name or the number of an item. -/
def Json.inner? : Json → String → Option Json
  | object ms, s => Entries.get? ms s
  | array vs, s => Entries.get? (numbered vs) s
  | _, _ => none

/-- What the path leads to from `v`. -/
def Json.follow? (v : Json) (p : Path) : Option Json := p.foldlM inner? v

/-- A number can be read off its decimal digits. -/
theorem decimal_injective {m n : Nat} (h : toString m = toString n) : m = n := by
  have hdigits : Nat.toDigits 10 m = Nat.toDigits 10 n := by
    rw [← Nat.toList_repr, ← Nat.toList_repr]
    exact congrArg String.toList h
  rw [← Nat.ofDigitChars_ten_toDigits (n := m), hdigits, Nat.ofDigitChars_ten_toDigits]

theorem Json.distinct_numbered (vs : List Json) : Entries.Distinct (numbered vs) := by
  have hkeys : Entries.keys (numbered vs) = (vs.zipIdx.map Prod.snd).map toString := by
    rw [Entries.keys, numbered, List.map_map, List.map_map]
    rfl
  rw [Entries.Distinct, hkeys, List.zipIdx_map_snd]
  exact List.Nodup.map (fun _ _ => decimal_injective) List.nodup_range'

theorem Json.follow?_cons {v w : Json} {s : String} (h : v.inner? s = some w) (p : Path) :
    v.follow? (s :: p) = w.follow? p := by
  rw [follow?, List.foldlM_cons, h]
  rfl

/-- In `v`, the path of the violation leads to the document that it tells of, or to the object that lacks
the member. -/
def Violation.LocatedIn (v : Json) : Violation → Prop
  | mismatch path expected found =>
    ∃ w, v.follow? path = some w ∧ expected.accepts w = false ∧ found = w.compact
  | missing path =>
    ∃ outer name ms, path = outer ++ [name] ∧ v.follow? outer = some (.object ms) ∧
      Entries.get? ms name = none
  | notNullable path => v.follow? path = some .null

/-- A violation inside a part of a document is one of the whole. -/
theorem Violation.LocatedIn.under {v w : Json} {s : String} {e : Violation} (hs : v.inner? s = some w)
    (h : e.LocatedIn w) : (e.under s).LocatedIn v := by
  cases e with
  | mismatch path expected found =>
    obtain ⟨x, hx, hrest⟩ := h
    exact ⟨x, (Json.follow?_cons hs path).trans hx, hrest⟩
  | missing path =>
    obtain ⟨outer, name, ms, rfl, houter, hname⟩ := h
    exact ⟨s :: outer, name, ms, rfl, (Json.follow?_cons hs outer).trans houter, hname⟩
  | notNullable path => exact (Json.follow?_cons hs path).trans h

/-- What is wrong with `v` where `t` is declared: `v` itself, or else what is wrong inside. -/
def Tag.objections (t : Tag) (v : Json) (inside : List Violation) : List Violation :=
  if t.accepts v then inside else [.mismatch [] t v.compact]

/-- What is wrong with the value of a property, if there is one. -/
def Property.objections {τ : Type} (p : Property τ) (inside : Json → List Violation) :
    Option Json → List Violation
  | none => if p.required || !p.nullable then [.missing []] else []
  | some .null => if p.nullable then [] else [.notNullable []]
  | some v => inside v

theorem Property.objections_some {τ : Type} {p : Property τ} {inside : Json → List Violation} {v : Json}
    (hv : v ≠ .null) : p.objections inside (some v) = inside v := by
  cases v with
  | null => exact absurd rfl hv
  | _ => rfl

namespace Template

mutual

/-- All that is wrong with a document: in the order of the items, or of the properties. -/
def violations : Template → Json → List Violation
  | value tag _, v => tag.objections v []
  | array _ none, v => Tag.array.objections v []
  | array _ (some item), v =>
    Tag.array.objections v ((Json.numbered v.items).flatMap fun e => (violations item e.2).map (.under e.1))
  | object _ ps, v => Tag.object.objections v (propertyViolations ps v.members)
  | named definition _, v => definition.template.tag.objections v (violations definition.template v)

def propertyViolations : List (Property Template) → List (String × Json) → List Violation
  | [], _ => []
  | p :: ps, ms =>
    (p.objections (fun v => violations p.template v) (Entries.get? ms p.name)).map (.under p.name) ++
      propertyViolations ps ms

end

end Template

/-- A result that is the first of the violations, or a success if there are none. -/
inductive Reports {α : Type} : Except Violation α → List Violation → Prop
  | ok (a : α) : Reports (.ok a) []
  | error (e : Violation) (rest : List Violation) : Reports (.error e) (e :: rest)

namespace Reports

variable {α β : Type} {x : Except Violation α} {vs ws : List Violation}

theorem ok_iff (h : Reports x vs) : (∃ a, x = .ok a) ↔ vs = [] := by
  cases h <;> simp

theorem error_iff (h : Reports x vs) {e : Violation} : x = .error e ↔ vs.head? = some e := by
  cases h <;> simp

theorem map (h : Reports x vs) (f : α → β) : Reports (x.map f) vs := by
  cases h with
  | ok a => exact .ok (f a)
  | error e rest => exact .error e rest

theorem under (h : Reports x vs) (s : String) : Reports (x.mapError (.under s)) (vs.map (.under s)) := by
  cases h with
  | ok a => exact .ok a
  | error e rest => exact .error _ _

/-- What comes second is reported on only when the first has nothing wrong with it. -/
theorem bind {f : α → Except Violation β} (h : Reports x vs) (hf : ∀ a, x = .ok a → Reports (f a) ws) :
    Reports (x >>= f) (vs ++ ws) := by
  cases h with
  | ok a => exact hf a rfl
  | error e rest => exact .error e (rest ++ ws)

theorem of_alike {y : Except Violation β} (h : Reports y vs) (hxy : Except.Alike x y) : Reports x vs := by
  cases hxy with
  | ok a b =>
    cases h
    exact .ok a
  | error e =>
    cases h with
    | error _ rest => exact .error e rest

theorem guard {t : Tag} {v : Json} {k : Except Violation Json} (h : t.accepts v = true → Reports k vs) :
    Reports (t.guard v k) (t.objections v vs) := by
  unfold Tag.guard Tag.objections
  split
  · exact h ‹_›
  · exact .error _ []

end Reports

theorem Tag.located_of_mem_objections {t : Tag} {v : Json} {inside : List Violation} {e : Violation}
    (hin : t.accepts v = true → ∀ e ∈ inside, e.LocatedIn v) (he : e ∈ t.objections v inside) :
    e.LocatedIn v := by
  unfold objections at he
  split at he
  · exact hin ‹_› e he
  · obtain rfl := List.mem_singleton.mp he
    exact ⟨v, rfl, Bool.eq_false_iff.mpr ‹_›, rfl⟩

namespace Template

theorem eachItem_reports {f : Json → Except Violation Json} {g : Json → List Violation}
    (h : ∀ v, Reports (f v) (g v)) (i : Nat) (vs : List Json) :
    Reports (eachItem f i vs) ((vs.zipIdx i).flatMap fun e => (g e.1).map (.under (toString e.2))) := by
  induction vs generalizing i with
  | nil => exact .ok []
  | cons v vs ih =>
    rw [List.zipIdx_cons, List.flatMap_cons]
    exact ((h v).under (toString i)).bind fun w _ => (ih (i + 1)).map (w :: ·)

theorem checkProperty_reports {p : Property Template} {inside : Json → List Violation}
    (h : ∀ v, Reports (p.template.check false v) (inside v)) (ms : List (String × Json)) :
    Reports (checkProperty false p ms)
      ((p.objections inside (Entries.get? ms p.name)).map (.under p.name)) := by
  cases hm : Entries.get? ms p.name with
  | none =>
    rw [checkProperty_of_none hm, Property.objections]
    split
    · exact .error _ []
    · exact .ok _
  | some v =>
    by_cases hv : v = .null
    · subst v
      rw [checkProperty_of_null hm, Property.objections]
      split
      · exact .ok ms
      · exact .error _ []
    · rw [checkProperty_of_some hm hv, Property.objections_some hv]
      exact ((h v).under p.name).map _

theorem checkProperties_reports {ps : List (Property Template)}
    (h : ∀ p ∈ ps, ∀ v, Reports (p.template.check false v) (p.template.violations v))
    (ms : List (String × Json)) : Reports (checkProperties false ps ms) (propertyViolations ps ms) := by
  induction ps with
  | nil => exact .ok ms
  | cons p ps ih =>
    rw [checkProperties_cons, propertyViolations]
    refine (checkProperty_reports (h p List.mem_cons_self) ms).bind fun ms' hms' => ?_
    -- a property that passes leaves the members to the others as they were
    obtain ⟨-, rfl⟩ := (checkProperty_false_eq_ok_iff fun _ _ => check_false_eq_ok_iff).mp hms'
    exact ih fun q hq => h q (List.mem_cons_of_mem p hq)

theorem violations_of_tag {t : Template} {v : Json} (h : t.tag.accepts v = false) :
    t.violations v = [.mismatch [] t.tag v.compact] := by
  have hobj : ∀ inside, t.tag.objections v inside = [.mismatch [] t.tag v.compact] := by
    intro inside
    rw [Tag.objections, h, if_neg Bool.false_ne_true]
  cases t with
  | array d item => cases item <;> exact hobj _
  | _ => exact hobj _

theorem check_false_reports (t : Template) (v : Json) : Reports (t.check false v) (t.violations v) := by
  induction t generalizing v with
  | value tag d => exact .guard fun _ => .ok v
  | freeArray d => exact .guard fun _ => .ok v
  | array d item ih =>
    refine .guard fun hv => ?_
    obtain ⟨vs, rfl⟩ := Tag.array_accepts_iff.mp hv
    rw [Json.numbered, List.flatMap_map]
    exact (eachItem_reports ih 0 vs).map _
  | object d ps ih =>
    refine .guard fun hv => ?_
    obtain ⟨ms, rfl⟩ := Tag.object_accepts_iff.mp hv
    exact (checkProperties_reports ih ms).map _
  | named definition d ih =>
    rw [check, violations, Tag.objections]
    split
    · exact ih v
    · rename_i hv
      rw [← violations_of_tag (Bool.eq_false_iff.mpr hv)]
      exact ih v

/-- What is wrong with a property is wrong with its value, or is that it has none. -/
theorem located_of_mem_propertyObjections {p : Property Template} {inside : Json → List Violation}
    {ms : List (String × Json)} {e : Violation} (h : ∀ w, ∀ e ∈ inside w, e.LocatedIn w)
    (he : e ∈ p.objections inside (Entries.get? ms p.name)) :
    (e.under p.name).LocatedIn (.object ms) := by
  cases hm : Entries.get? ms p.name with
  | none =>
    rw [hm, Property.objections] at he
    split at he
    · obtain rfl := List.mem_singleton.mp he
      exact ⟨[], p.name, ms, rfl, rfl, hm⟩
    · cases he
  | some w =>
    have hw : e.LocatedIn w := by
      rw [hm] at he
      by_cases hnull : w = .null
      · subst w
        rw [Property.objections] at he
        split at he
        · cases he
        · obtain rfl := List.mem_singleton.mp he
          rfl
      · rw [Property.objections_some hnull] at he
        exact h w e he
    exact hw.under hm

theorem located_of_mem_propertyViolations {ps : List (Property Template)} {ms : List (String × Json)}
    {e : Violation} (h : ∀ p ∈ ps, ∀ w, ∀ e ∈ p.template.violations w, e.LocatedIn w)
    (he : e ∈ propertyViolations ps ms) : e.LocatedIn (.object ms) := by
  induction ps with
  | nil => cases he
  | cons p ps ih =>
    rw [propertyViolations] at he
    rcases List.mem_append.mp he with he | he
    · obtain ⟨e', he', rfl⟩ := List.mem_map.mp he
      exact located_of_mem_propertyObjections (h p List.mem_cons_self) he'
    · exact ih (fun q hq => h q (List.mem_cons_of_mem p hq)) he

/-- Everything that is wrong with a document is wrong at the place that is given for it. -/
theorem located_of_mem_violations {t : Template} {v : Json} {e : Violation} (h : e ∈ t.violations v) :
    e.LocatedIn v := by
  induction t generalizing v e with
  | value tag d => exact Tag.located_of_mem_objections (fun _ _ he => absurd he List.not_mem_nil) h
  | freeArray d => exact Tag.located_of_mem_objections (fun _ _ he => absurd he List.not_mem_nil) h
  | array d item ih =>
    refine Tag.located_of_mem_objections (fun hv e he => ?_) h
    obtain ⟨vs, rfl⟩ := Tag.array_accepts_iff.mp hv
    obtain ⟨⟨s, w⟩, hw, he⟩ := List.mem_flatMap.mp he
    obtain ⟨e', he', rfl⟩ := List.mem_map.mp he
    exact (ih he').under (Entries.get?_of_mem (Json.distinct_numbered vs) hw)
  | object d ps ih =>
    refine Tag.located_of_mem_objections (fun hv e he => ?_) h
    obtain ⟨ms, rfl⟩ := Tag.object_accepts_iff.mp hv
    exact located_of_mem_propertyViolations (fun p hp w e he => ih p hp he) he
  | named definition d ih => exact Tag.located_of_mem_objections (fun _ e he => ih he) h

/-- Checking reports the first of all violations, as it is in the document that was given, and passes a
document exactly when there are none. -/
theorem check_reports_first_violation {t : Template} (ht : t.Compiled) (fill : Bool) (v : Json) :
    ((∃ w, t.check fill v = .ok w) ↔ t.violations v = []) ∧
      (∀ e, t.check fill v = .error e ↔ (t.violations v).head? = some e) ∧
      ∀ e ∈ t.violations v, e.LocatedIn v := by
  have hr : Reports (t.check fill v) (t.violations v) := by
    cases fill with
    | false => exact check_false_reports t v
    | true => exact (check_false_reports t v).of_alike (check_alike ht.wellFormed.namesDistinct v)
  exact ⟨hr.ok_iff, fun e => hr.error_iff, fun e => located_of_mem_violations⟩

def tableDefinition : Json :=
  .object [("id required", .string ":int"),
    ("rows", .array [.object [("n", .string ":int"), ("s required", .string ":char")]])]

/-- A row that is as it should be, one that lacks a member and has another of the wrong type, and a
number. -/
def tableDocument : Json :=
  .object [("id", .number (.int 1)),
    ("rows", .array [.object [("n", .number (.int 2)), ("s", .string "x")], .object [("n", .string "3")],
      .number (.int 5)])]

def tableViolations : List Violation :=
  [.mismatch ["rows", "1", "n"] .int "\"3\"", .missing ["rows", "1", "s"],
    .mismatch ["rows", "2"] .object "5"]

theorem table_fails_fast : ∃ t, Template.compile TypeRef.builtin? tableDefinition = .ok t ∧
    t.violations tableDocument = tableViolations ∧
    t.check true tableDocument = .error (.mismatch ["rows", "1", "n"] .int "\"3\"") := by
  obtain ⟨t, ht, hv⟩ : ∃ t, Template.compile TypeRef.builtin? tableDefinition = .ok t ∧
    t.violations tableDocument = tableViolations := ⟨_, by with_unfolding_all rfl, by with_unfolding_all rfl⟩
  obtain ⟨-, hfirst, -⟩ := check_reports_first_violation (History.compiled_of_builtin ht) true tableDocument
  refine ⟨t, ht, hv, (hfirst _).mpr ?_⟩
  rw [hv]
  rfl

end Template

end Stencil
