import Stencil.Command.Run
import Stencil.Proofs.Checking
import Stencil.Proofs.Derivations
import Stencil.Proofs.Reading

/-! No document that is loaded binds a key twice, and no default that a template is compiled with. So no
document that is filled does. -/
namespace Stencil

/-- No default in the template binds a key twice. -/
def Template.DefaultsDistinct (t : Template) : Prop :=
  t.Everywhere fun s => ∀ v, s.default? = some v → v.KeysDistinct

def TypeRef.DefaultsDistinct : TypeRef → Prop
  | builtin _ => True
  | defined definition => definition.template.DefaultsDistinct

namespace Template

variable {resolve : Resolver}

theorem DefaultsDistinct.setDefault {t : Template} (h : t.DefaultsDistinct) {v : Json}
    (hv : v.KeysDistinct) : (t.setDefault v).DefaultsDistinct := by
  refine Everywhere.setDefault h fun w hw => ?_
  rw [default?_setDefault] at hw
  exact Option.some.inj hw ▸ hv

theorem instantiate_defaultsDistinct {ref : TypeRef} (hr : ref.DefaultsDistinct) {d : Option Json}
    (hd : ∀ v, d = some v → v.KeysDistinct) : (ref.instantiate d).DefaultsDistinct := by
  cases ref with
  | builtin tag =>
    cases tag with
    | array => exact everywhere_freeArray_iff.mpr hd
    | object => exact everywhere_object_iff.mpr ⟨hd, fun p hp => nomatch hp⟩
    | _ => exact everywhere_value_iff.mpr hd
  | defined definition =>
    refine everywhere_named_iff.mpr ⟨?_, hr⟩
    cases d with
    | none => exact hr.root
    | some w => exact hd

/-- The default of a directive has been read, like any document. -/
theorem Directive.defaultsDistinct (hr : ∀ name ref, resolve name = some ref → ref.DefaultsDistinct)
    {s : String} {t : Template} (h : Directive resolve s t) : t.DefaultsDistinct := by
  cases h with
  | plain _ href => exact instantiate_defaultsDistinct (hr _ _ href) nofun
  | withDefault _ href hv _ =>
    refine instantiate_defaultsDistinct (hr _ _ href) fun w hw => ?_
    exact Option.some.inj hw ▸ Json.readAll_keysDistinct hv

theorem DerivesProperty.defaultsDistinct {m : String × Json} {p : Property Template}
    (ih : ∀ t, Derives resolve m.2 t → t.DefaultsDistinct) (h : DerivesProperty resolve m p) :
    p.template.DefaultsDistinct := by
  cases h with
  | plain _ _ h _ => exact ih _ h
  | withDefault spelled default _ h _ _ _ =>
    refine (ih _ h).setDefault ?_
    cases spelled with
    | plain _ => cases default
    | withDefault _ hv => exact Option.some.inj default ▸ Json.readAll_keysDistinct hv

theorem forall₂_properties {ms : List (String × Json)} {ps : List (Property Template)}
    (h : List.Forall₂ (DerivesProperty resolve) ms ps)
    (ih : ∀ m ∈ ms, ∀ t, Derives resolve m.2 t → t.DefaultsDistinct) :
    ∀ p ∈ ps, p.template.DefaultsDistinct := by
  induction h with
  | nil => exact nofun
  | cons hp _ ihps =>
    obtain ⟨ihm, ihms⟩ := List.forall_mem_cons.mp ih
    exact List.forall_mem_cons.mpr ⟨hp.defaultsDistinct ihm, ihps ihms⟩

theorem Derives.defaultsDistinct (hr : ∀ name ref, resolve name = some ref → ref.DefaultsDistinct)
    {d : Json} {t : Template} (h : Derives resolve d t) : t.DefaultsDistinct := by
  -- the default of a constant is a scalar
  have hscalar : ∀ {tag : Tag} {v : Json}, v.KeysDistinct →
      (Template.value tag (some v)).DefaultsDistinct := fun hv =>
    everywhere_value_iff.mpr fun w hw => Option.some.inj hw ▸ hv
  induction d generalizing t with
  | null =>
    cases h
    exact hscalar .null
  | bool b =>
    cases h
    exact hscalar (.bool b)
  | number n =>
    cases h
    exact hscalar (.number n)
  | string s =>
    cases h with
    | text _ => exact hscalar (.string s)
    | escaped _ => exact hscalar (.string _)
    | directive _ _ h => exact h.defaultsDistinct hr
  | array ds ih =>
    cases h with
    | freeArray => exact everywhere_freeArray_iff.mpr nofun
    | array h _ => exact everywhere_array_iff.mpr ⟨nofun, ih _ List.mem_cons_self h⟩
  | object ms ih =>
    cases h with
    | object h _ => exact everywhere_object_iff.mpr ⟨nofun, forall₂_properties h fun m hm t => ih m hm⟩

section Filling

variable {fill : Bool} {p : Property Template} {ps : List (Property Template)}
  {ms ns : List (String × Json)}

theorem checkProperty_keysDistinct (hp : p.template.DefaultsDistinct)
    (ih : ∀ v w, v.KeysDistinct → p.template.check fill v = .ok w → w.KeysDistinct)
    (hms : ∀ m ∈ ms, m.2.KeysDistinct) (h : checkProperty fill p ms = .ok ns) :
    ∀ n ∈ ns, n.2.KeysDistinct := by
  have hinsert : ∀ w, w.KeysDistinct → ∀ n ∈ Entries.insert ms p.name w, n.2.KeysDistinct := by
    intro w hw n hn
    obtain rfl | hn := Entries.mem_insert hn
    · exact hw
    · exact hms n hn
  rcases checkProperty_eq_ok_iff.mp h with ⟨-, -, rfl⟩ | ⟨v, w, hget, -, hw, rfl⟩ | ⟨-, -, -, rfl⟩
  · exact hms
  · exact hinsert w (ih v w (hms _ (Entries.mem_of_get? hget)) hw)
  · unfold fillAbsent
    split
    · rename_i d hd
      exact hinsert d (hp.root d hd)
    · exact hms

theorem checkProperties_keysDistinct (hps : ∀ p ∈ ps, p.template.DefaultsDistinct)
    (ih : ∀ p ∈ ps, ∀ v w, v.KeysDistinct → p.template.check fill v = .ok w → w.KeysDistinct)
    (hd : Entries.Distinct ms) (hms : ∀ m ∈ ms, m.2.KeysDistinct)
    (h : checkProperties fill ps ms = .ok ns) : Entries.Distinct ns ∧ ∀ n ∈ ns, n.2.KeysDistinct := by
  induction ps generalizing ms with
  | nil =>
    cases h
    exact ⟨hd, hms⟩
  | cons p ps ihps =>
    obtain ⟨hp, hps⟩ := List.forall_mem_cons.mp hps
    obtain ⟨ihp, ih⟩ := List.forall_mem_cons.mp ih
    rw [checkProperties_cons] at h
    obtain ⟨ms', hms', h⟩ := Except.bind_eq_ok_iff.mp h
    exact ihps hps ih (distinct_checkProperty hd hms') (checkProperty_keysDistinct hp ihp hms hms') h

/-- What a document is filled to binds no key twice if neither it nor any default does. -/
theorem check_keysDistinct {t : Template} (ht : t.DefaultsDistinct) {v w : Json} (hv : v.KeysDistinct)
    (h : t.check fill v = .ok w) : w.KeysDistinct := by
  induction t generalizing v w with
  | value tag d => exact Except.ok.inj (Tag.guard_eq_ok_iff.mp h).2 ▸ hv
  | freeArray d => exact Except.ok.inj (Tag.guard_eq_ok_iff.mp h).2 ▸ hv
  | array d item ih =>
    obtain ⟨vs, ws, rfl, rfl, hws⟩ := check_array_eq_ok_iff.mp h
    have hitem := (everywhere_array_iff.mp ht).2
    have hvs := Json.keysDistinct_array_iff.mp hv
    refine Json.keysDistinct_array_iff.mpr ?_
    clear h hv
    induction hws with
    | nil => exact nofun
    | cons hw _ ihws =>
      obtain ⟨hv, hvs⟩ := List.forall_mem_cons.mp hvs
      exact List.forall_mem_cons.mpr ⟨ih hitem hv hw, ihws hvs⟩
  | object d ps ih =>
    obtain ⟨ms, ns, rfl, rfl, hns⟩ := check_object_eq_ok_iff.mp h
    have hps := (everywhere_object_iff.mp ht).2
    obtain ⟨hd, hms⟩ := Json.keysDistinct_object_iff.mp hv
    exact Json.keysDistinct_object_iff.mpr
      (checkProperties_keysDistinct hps (fun p hp v w => ih p hp (hps p hp)) hd hms hns)
  | named definition d ih => exact ih (everywhere_named_iff.mp ht).2 hv h

end Filling

end Template

namespace Namespace

/-- No default of a type in the namespace binds a key twice. -/
def DefaultsDistinct (ns : Namespace) : Prop := ∀ e ∈ ns.bindings, e.2.DefaultsDistinct

variable {ns other : Namespace}

theorem DefaultsDistinct.resolve (h : ns.DefaultsDistinct) {name : String} {ref : TypeRef}
    (hr : ns.resolve name = some ref) : ref.DefaultsDistinct := by
  unfold Namespace.resolve at hr
  split at hr
  · rename_i hg
    cases hr
    exact h _ (Entries.mem_of_get? hg)
  · obtain ⟨tag, -, rfl⟩ := Option.map_eq_some_iff.mp hr
    trivial

theorem DefaultsDistinct.compile (h : ns.DefaultsDistinct) {d : Json} {t : Template}
    (ht : ns.compile d = .ok t) : t.DefaultsDistinct :=
  (Template.compile_eq_ok_iff.mp ht).defaultsDistinct fun _ _ hr => h.resolve hr

theorem DefaultsDistinct.bind (h : ns.DefaultsDistinct) (name : String) {ref : TypeRef}
    (hr : ref.DefaultsDistinct) : (ns.bind name ref).DefaultsDistinct := by
  intro e he
  obtain rfl | he := Entries.mem_insert he
  · exact hr
  · exact h e he

end Namespace

namespace TypesFile

theorem defineTypes_defaultsDistinct {es : Entries Json} {n : Nat} {ns other : Namespace}
    (hns : ns.DefaultsDistinct) (h : defineTypes n ns es = .ok other) : other.DefaultsDistinct := by
  induction es generalizing n ns with
  | nil =>
    cases h
    exact hns
  | cons e es ih =>
    obtain ⟨name, d⟩ := e
    obtain ⟨ns', hns', h⟩ := Except.bind_eq_ok_iff.mp h
    obtain ⟨t, ht, rfl⟩ := Except.map_eq_ok_iff.mp (Except.mapError_eq_ok_iff.mp hns')
    have hdefined : (TypeRef.defined ⟨n, name, t⟩).DefaultsDistinct := hns.compile ht
    exact ih (hns.bind name hdefined) h

theorem defineAliases_defaultsDistinct {es : Entries String} {ns other : Namespace}
    (hns : ns.DefaultsDistinct) (h : defineAliases ns es = .ok other) : other.DefaultsDistinct := by
  induction es generalizing ns with
  | nil =>
    cases h
    exact hns
  | cons e es ih =>
    obtain ⟨newName, name⟩ := e
    obtain ⟨ns', hns', h⟩ := Except.bind_eq_ok_iff.mp h
    have hd := Except.mapError_eq_ok_iff.mp hns'
    unfold Namespace.defineAlias at hd
    split at hd
    · rename_i hr
      cases hd
      exact ih (hns.bind newName (hns.resolve hr)) h
    · cases hd

end TypesFile

/-- The template of a run has no default that binds a key twice. -/
theorem TemplateFiles.toTemplate_defaultsDistinct {f : TemplateFiles} {t : Template}
    (h : f.toTemplate = .ok t) : t.DefaultsDistinct := by
  obtain ⟨ns, hns, h⟩ := Except.bind_eq_ok_iff.mp h
  obtain ⟨bs, -, h⟩ := Except.bind_eq_ok_iff.mp h
  obtain ⟨d, -, h⟩ := Except.bind_eq_ok_iff.mp h
  have hempty : Namespace.DefaultsDistinct {} := fun _ he => nomatch he
  have hdistinct : ns.DefaultsDistinct := by
    unfold typesNamespace at hns
    split at hns
    · cases hns
      exact hempty
    · obtain ⟨_, -, hns⟩ := Except.bind_eq_ok_iff.mp hns
      obtain ⟨types, -, hns⟩ := Except.bind_eq_ok_iff.mp hns
      obtain ⟨ns', hns', hns⟩ := Except.bind_eq_ok_iff.mp (Except.mapError_eq_ok_iff.mp hns)
      exact TypesFile.defineAliases_defaultsDistinct
        (TypesFile.defineTypes_defaultsDistinct hempty hns') hns
  exact hdistinct.compile (Except.mapError_eq_ok_iff.mp h)

namespace Document

/-- No object in the document binds a key twice. -/
def KeysDistinct (d : Document) : Prop := d.value.KeysDistinct

theorem ofText_keysDistinct {pointer : Option String} {source : String} {text : Bytes} {d : Document}
    (h : ofText pointer source text = .ok d) : d.KeysDistinct := by
  unfold ofText at h
  split at h
  · cases h
  · rename_i v hv
    have hkeys := Json.readFirst_keysDistinct hv
    cases pointer with
    | none =>
      cases h
      exact hkeys
    | some p =>
      dsimp only at h
      split at h
      · rename_i w hw
        cases h
        exact hkeys.select? hw
      · cases h

theorem ofLines_keysDistinct {pointer : Option String} {path : String} {n : Nat} {ls : List (List Char)}
    {ds : List Document} (h : ofLines pointer path n ls = .ok ds) : ∀ d ∈ ds, d.KeysDistinct := by
  induction ls generalizing n ds with
  | nil =>
    cases h
    exact fun d hd => nomatch hd
  | cons l ls ih =>
    rw [ofLines] at h
    split at h
    · exact ih h
    · obtain ⟨d, hd, h⟩ := Except.bind_eq_ok_iff.mp h
      obtain ⟨ds', hds, h⟩ := Except.bind_eq_ok_iff.mp h
      cases h
      exact List.forall_mem_cons.mpr ⟨ofText_keysDistinct hd, ih hds⟩

theorem ofSource_keysDistinct {o : InputOptions} {path text : String} {ds : List Document}
    (h : ofSource o path text = .ok ds) : ∀ d ∈ ds, d.KeysDistinct := by
  unfold ofSource at h
  split at h
  · exact ofLines_keysDistinct h
  · obtain ⟨d, hd, rfl⟩ := Except.map_eq_ok_iff.mp h
    exact List.forall_mem_singleton.mpr (ofText_keysDistinct hd)

/-- Whatever a run loads binds no key twice. -/
theorem ofInputs_keysDistinct {o : InputOptions} {is : Inputs} {ds : List Document}
    (h : ofInputs o is = .ok ds) : ∀ d ∈ ds, d.KeysDistinct := by
  induction is generalizing ds with
  | nil =>
    cases h
    exact fun d hd => nomatch hd
  | cons i is ih =>
    obtain ⟨path, contents⟩ := i
    obtain ⟨text, -, h⟩ := Except.bind_eq_ok_iff.mp h
    obtain ⟨ds₁, h₁, h⟩ := Except.bind_eq_ok_iff.mp h
    obtain ⟨ds₂, h₂, h⟩ := Except.bind_eq_ok_iff.mp h
    cases h
    exact List.forall_mem_append.mpr ⟨ofSource_keysDistinct h₁, ih h₂⟩

end Document

theorem fillDocuments_keysDistinct {t : Template} (ht : t.DefaultsDistinct) {ds : List Document}
    (hds : ∀ d ∈ ds, d.KeysDistinct) {vs : List Json} (h : fillDocuments t ds = .ok vs) :
    ∀ v ∈ vs, v.KeysDistinct := by
  induction ds generalizing vs with
  | nil =>
    cases h
    exact nofun
  | cons d ds ih =>
    obtain ⟨hd, hds⟩ := List.forall_mem_cons.mp hds
    obtain ⟨v, hv, h⟩ := Except.bind_eq_ok_iff.mp h
    obtain ⟨vs', hvs', h⟩ := Except.bind_eq_ok_iff.mp h
    cases h
    have hcheck := Except.mapError_eq_ok_iff.mp hv
    exact List.forall_mem_cons.mpr ⟨Template.check_keysDistinct ht hd hcheck, ih hds hvs'⟩

end Stencil
