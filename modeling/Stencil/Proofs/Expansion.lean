import Stencil.Proofs.Checking
import Stencil.Proofs.WellFormed

/-! Definitions taken away. The use of a defined type stands for the template of the definition, with
the default declared at the use if there is one, and no document can tell the two apart. -/
namespace Stencil

variable {fill : Bool}

theorem Tag.guard_guard {t : Tag} {v : Json} {k : Except Violation Json} :
    t.guard v (t.guard v k) = t.guard v k := by
  unfold Tag.guard
  split <;> rfl

namespace Template

/-- The template that the definitions at the root lead to. -/
def unfolded : Template → Template
  | named definition _ => unfolded definition.template
  | t => t

/-- There is an item template, or there are properties, once the definitions at the root are taken away.
-/
def Structured (t : Template) : Prop := t.unfolded.item? ≠ none ∨ t.unfolded.properties ≠ []

/-- Where nothing is said of what is inside, the tag decides. -/
theorem check_of_not_structured {t : Template} (h : ¬ t.Structured) (v : Json) :
    t.check fill v = t.tag.guard v (.ok v) := by
  induction t with
  | value tag d => rfl
  | freeArray d => rfl
  | array d item ih => exact absurd (.inl (Option.some_ne_none item)) h
  | object d ps ih =>
    have hps : ps = [] := by
      by_contra hne
      exact h (.inr hne)
    subst hps
    cases v <;> rfl
  | named definition d ih => exact ih h

/-- A default has been tested for its type, and where the tag decides that is all there is to it. -/
theorem check_default_of_not_structured {t : Template} (ht : t.Sound) (hs : ¬ t.Structured) {d : Json}
    (hd : t.default? = some d) : t.check fill d = .ok d := by
  rw [check_of_not_structured hs]
  exact Tag.guard_eq_ok_iff.mpr ⟨ht.default_accepted d hd, rfl⟩

mutual

/-- The template with every use of a definition, at any depth, replaced by what it stands for. -/
def expand : Template → Template
  | value tag d => value tag d
  | array d none => array d none
  | array d (some item) => array d (some (expand item))
  | object d ps => object d (expandProperties ps)
  | named definition none => expand definition.template
  | named definition (some v) => (expand definition.template).setDefault v

def expandProperties : List (Property Template) → List (Property Template)
  | [] => []
  | p :: ps => ⟨p.name, p.required, p.nullable, expand p.template⟩ :: expandProperties ps

end

/-- No node is the use of a definition. -/
def DefinitionFree (t : Template) : Prop := t.Everywhere fun s => ∀ definition d, s ≠ named definition d

@[simp] theorem check_setDefault (v : Json) (t : Template) :
    (t.setDefault v).check fill = t.check fill := by
  cases t with
  | array d item => cases item <;> rfl
  | _ => rfl

@[simp] theorem tag_expand (t : Template) : t.expand.tag = t.tag := by
  induction t with
  | named definition d ih => cases d <;> simp [expand, tag, ih]
  | _ => rfl

@[simp] theorem default?_expand (t : Template) : t.expand.default? = t.default? := by
  induction t with
  | named definition d ih => cases d <;> simp [expand, default?, ih]
  | _ => rfl

theorem expandProperties_eq_map (ps : List (Property Template)) :
    expandProperties ps = ps.map fun p => ⟨p.name, p.required, p.nullable, p.template.expand⟩ := by
  induction ps with
  | nil => rfl
  | cons p ps ih => rw [expandProperties, ih, List.map_cons]

/-- A property that is expanded does to the members what it did before. -/
theorem checkProperty_expand {p : Property Template} (ih : p.template.expand.check fill = p.template.check fill)
    (ms : List (String × Json)) :
    checkProperty fill ⟨p.name, p.required, p.nullable, p.template.expand⟩ ms = checkProperty fill p ms := by
  simp only [checkProperty, fillAbsent, default?_expand, ih]

theorem checkProperties_expand {ps : List (Property Template)}
    (ih : ∀ p ∈ ps, p.template.expand.check fill = p.template.check fill) (ms : List (String × Json)) :
    checkProperties fill (expandProperties ps) ms = checkProperties fill ps ms := by
  induction ps generalizing ms with
  | nil => rfl
  | cons p ps ihps =>
    rw [expandProperties, checkProperties_cons, checkProperties_cons,
      checkProperty_expand (ih p List.mem_cons_self)]
    exact bind_congr fun ns => ihps (fun q hq => ih q (List.mem_cons_of_mem p hq)) ns

theorem check_expand (t : Template) : t.expand.check fill = t.check fill := by
  induction t with
  | value tag d => rfl
  | freeArray d => rfl
  | array d item ih =>
    funext v
    simp only [expand, check, ih]
  | object d ps ih =>
    funext v
    simp only [expand, check, checkProperties_expand ih]
  | named definition d ih =>
    funext v
    cases d with
    | none => exact congrFun ih v
    | some e => exact (congrFun (check_setDefault e _) v).trans (congrFun ih v)

theorem expand_definitionFree (t : Template) : t.expand.DefinitionFree := by
  induction t with
  | value tag d => exact everywhere_value_iff.mpr fun _ _ h => nomatch h
  | freeArray d => exact everywhere_freeArray_iff.mpr fun _ _ h => nomatch h
  | array d item ih => exact everywhere_array_iff.mpr ⟨fun _ _ h => (nomatch h), ih⟩
  | object d ps ih =>
    rw [expand, expandProperties_eq_map]
    refine everywhere_object_iff.mpr ⟨fun _ _ h => (nomatch h), fun q hq => ?_⟩
    obtain ⟨p, hp, rfl⟩ := List.mem_map.mp hq
    exact ih p hp
  | named definition d ih =>
    cases d with
    | none => exact ih
    | some v =>
      have hroot := ih.root
      refine Everywhere.setDefault ih fun definition' d' h => ?_
      -- only the use of a definition is one after a default has been put in
      cases hu : definition.template.expand with
      | named definition'' d'' => exact hroot definition'' d'' hu
      | _ => simp [hu, setDefault] at h

/-- A template asks for its tag before anything else, so asking for it in front changes nothing. -/
theorem guard_check (t : Template) (v : Json) : t.tag.guard v (t.check fill v) = t.check fill v := by
  induction t with
  | array d item ih => exact Tag.guard_guard
  | named definition d ih => exact ih
  | _ => exact Tag.guard_guard

/-- A template and its expansion fill every document alike, or refuse it for the same reason, present or
absent, with defaults or without. -/
theorem expand_indistinguishable (t : Template) :
    (∀ fill v?, t.validate fill v? = t.expand.validate fill v?) ∧
      t.tag = t.expand.tag ∧ t.default? = t.expand.default? ∧ t.expand.DefinitionFree ∧
      ∀ fill v, t.tag.guard v (t.check fill v) = t.expand.check fill v := by
  refine ⟨fun fill v? => ?_, (tag_expand t).symm, (default?_expand t).symm, expand_definitionFree t,
    fun fill v => ?_⟩
  · cases v? with
    | none => rw [validate, validate, tag_expand, default?_expand]
    | some v => rw [validate, validate, check_expand]
  · rw [guard_check, check_expand]

/-- A default that is declared on the way takes the place of the one that the chain leads to. -/
example (id id' : Nat) (d d' : Json) :
    expand (.named ⟨id, "member", .named ⟨id', "user", .value .string (some d)⟩ (some d')⟩ none) =
      .value .string (some d') := rfl

end Template

end Stencil
