import Mathlib.Data.List.Forall2
import Stencil.Namespace
import Stencil.Proofs.Spelling
import Stencil.Proofs.WellFormed

/-! The definition language, given by rules. A definition compiles exactly when it can be derived by
them, and compiles to the tree of its derivation. -/
namespace Stencil

namespace Template

variable {resolve : Resolver}

mutual

/-- The definition stands for the template. Strings that do not start with exactly one colon are
constants, like all other scalars. -/
inductive Derives (resolve : Resolver) : Json → Template → Prop
  | null : Derives resolve .null (.value .null (some .null))
  | bool (b : Bool) : Derives resolve (.bool b) (.value .boolean (some (.bool b)))
  | number (n : Number) : Derives resolve (.number n) (.value .number (some (.number n)))
  | text {s : String} (plain : s.toList.head? ≠ some ':') :
      Derives resolve (.string s) (.value .string (some (.string s)))
  | escaped {s : String} {cs : List Char} (colons : s.toList = ':' :: ':' :: cs) :
      Derives resolve (.string s) (.value .string (some (.string (String.ofList (':' :: cs)))))
  | directive {s : String} {cs : List Char} {t : Template} (colon : s.toList = ':' :: cs)
      (single : cs.head? ≠ some ':') (h : Directive resolve (String.ofList cs) t) :
      Derives resolve (.string s) t
  | freeArray : Derives resolve (.array []) (.array none none)
  | array {d : Json} {item : Template} (h : Derives resolve d item)
      (plain : item.declaredDefault = none) : Derives resolve (.array [d]) (.array none (some item))
  | object {ms : List (String × Json)} {ps : List (Property Template)}
      (h : List.Forall₂ (DerivesProperty resolve) ms ps) (distinct : (ps.map (·.name)).Nodup) :
      Derives resolve (.object ms) (.object none ps)

/-- The member of an object definition stands for the property. The default of its key hides one that its
type brings with it. -/
inductive DerivesProperty (resolve : Resolver) : String × Json → Property Template → Prop
  | plain {s : String} {d : Json} {key : PropertyKey} {t : Template} (spelled : key.Spelled s)
      (noDefault : key.default? = none) (h : Derives resolve d t)
      (nulls : t.tag = .null → key.nullable = true) :
      DerivesProperty resolve (s, d) ⟨key.name, key.required, key.nullable, t⟩
  | withDefault {s : String} {d : Json} {key : PropertyKey} {t : Template} {v : Json}
      (spelled : key.Spelled s) (default : key.default? = some v) (optional : key.required = false)
      (h : Derives resolve d t) (undeclared : t.declaredDefault = none)
      (accepted : t.tag.accepts v = true) (nulls : t.tag = .null → key.nullable = true) :
      DerivesProperty resolve (s, d) ⟨key.name, key.required, key.nullable, t.setDefault v⟩

end

/-- One member of an object definition, once it is known what the definitions in it compile to. -/
theorem derivesProperty_iff {s : String} {d : Json} {p : Property Template}
    (ih : ∀ t, compile resolve d = .ok t ↔ Derives resolve d t) {earlier : List String} :
    (∃ key t u, PropertyKey.read s = .ok key ∧ compile resolve d = .ok t ∧ withDefault key t = .ok u ∧
        declare earlier key u = .ok p) ↔
      DerivesProperty resolve (s, d) p ∧ p.name ∉ earlier := by
  constructor
  · rintro ⟨key, t, u, hk, ht, hu, hp⟩
    have hspelled := PropertyKey.read_eq_ok_iff.mp hk
    have hd := (ih t).mp ht
    obtain ⟨hnull, hnew, rfl⟩ := declare_eq_ok_iff.mp hp
    rcases withDefault_eq_ok_iff.mp hu with ⟨hnone, rfl⟩ | ⟨v, hv, hopt, hplain, hacc, rfl⟩
    · exact ⟨.plain hspelled hnone hd hnull, hnew⟩
    · exact ⟨.withDefault hspelled hv hopt hd hplain hacc (tag_setDefault v t ▸ hnull), hnew⟩
  · rintro ⟨h, hnew⟩
    cases h with
    | @plain _ _ key t spelled noDefault h nulls =>
      exact ⟨key, t, t, PropertyKey.read_eq_ok_iff.mpr spelled, (ih t).mpr h,
        withDefault_eq_ok_iff.mpr (.inl ⟨noDefault, rfl⟩), declare_eq_ok_iff.mpr ⟨nulls, hnew, rfl⟩⟩
    | @withDefault _ _ key t v spelled default optional h undeclared accepted nulls =>
      exact ⟨key, t, t.setDefault v, PropertyKey.read_eq_ok_iff.mpr spelled, (ih t).mpr h,
        withDefault_eq_ok_iff.mpr (.inr ⟨v, default, optional, undeclared, accepted, rfl⟩),
        declare_eq_ok_iff.mpr ⟨(tag_setDefault v t).symm ▸ nulls, hnew, rfl⟩⟩

/-- The members of an object definition are derived one by one. Their names are all different, and
different from those of the members before them. -/
theorem compileMembers_eq_ok_iff {ms : List (String × Json)}
    (ih : ∀ m ∈ ms, ∀ t, compile resolve m.2 = .ok t ↔ Derives resolve m.2 t) {earlier : List String}
    {ps : List (Property Template)} :
    compileMembers resolve earlier ms = .ok ps ↔
      List.Forall₂ (DerivesProperty resolve) ms ps ∧ (ps.map (·.name)).Nodup ∧
        ∀ p ∈ ps, p.name ∉ earlier := by
  induction ms generalizing earlier ps with
  | nil =>
    rw [compileMembers, Except.ok.injEq, List.forall₂_nil_left_iff]
    constructor
    · rintro rfl
      simp
    · intro h
      exact h.1.symm
  | cons m ms ihms =>
    obtain ⟨s, d⟩ := m
    have hhead : ∀ {p}, _ ↔ DerivesProperty resolve (s, d) p ∧ p.name ∉ earlier := fun {p} =>
      derivesProperty_iff (ih (s, d) List.mem_cons_self)
    have htail : ∀ m ∈ ms, ∀ t, compile resolve m.2 = .ok t ↔ Derives resolve m.2 t := fun m hm =>
      ih m (List.mem_cons_of_mem _ hm)
    rw [compileMembers_cons_eq_ok_iff, List.forall₂_cons_left_iff]
    constructor
    · rintro ⟨key, t, u, p, qs, hk, ht, hu, hp, hqs, rfl⟩
      obtain ⟨hd, hnew⟩ := hhead.mp ⟨key, t, u, hk, ht, hu, hp⟩
      obtain ⟨hds, hnodup, hqnew⟩ := (ihms htail).mp hqs
      refine ⟨⟨p, qs, hd, hds, rfl⟩, ?_, List.forall_mem_cons.mpr ⟨hnew, fun q hq hmem => ?_⟩⟩
      · -- the members that follow know the name of this one among the earlier ones
        refine List.nodup_cons.mpr ⟨fun hmem => ?_, hnodup⟩
        obtain ⟨q, hq, hname⟩ := List.mem_map.mp hmem
        exact hqnew q hq (hname ▸ List.mem_append_right earlier List.mem_cons_self)
      · exact hqnew q hq (List.mem_append_left _ hmem)
    · rintro ⟨⟨p, qs, hd, hds, rfl⟩, hnodup, hnew⟩
      obtain ⟨hpnew, hqnew⟩ := List.forall_mem_cons.mp hnew
      obtain ⟨hp, hnodup⟩ := List.nodup_cons.mp hnodup
      obtain ⟨key, t, u, hk, ht, hu, hpd⟩ := hhead.mpr ⟨hd, hpnew⟩
      refine ⟨key, t, u, p, qs, hk, ht, hu, hpd, (ihms htail).mpr ⟨hds, hnodup, fun q hq hmem => ?_⟩, rfl⟩
      rcases List.mem_append.mp hmem with hmem | hmem
      · exact hqnew q hq hmem
      · exact hp (List.mem_map.mpr ⟨q, hq, List.mem_singleton.mp hmem⟩)

/-- A string is a constant or a directive, according to the colons in front. -/
theorem ofText_eq_ok_iff {s : String} {t : Template} :
    ofText resolve s = .ok t ↔ Derives resolve (.string s) t := by
  constructor
  · intro h
    rcases colons_cases s with plain | ⟨cs, colons⟩ | ⟨cs, colon, single⟩
    · rw [ofText_of_plain plain] at h
      cases h
      exact .text plain
    · rw [ofText_of_colons colons] at h
      cases h
      exact .escaped colons
    · rw [ofText_of_colon colon single] at h
      exact .directive colon single (directive_eq_ok_iff.mp h)
  · intro h
    cases h with
    | text plain => exact ofText_of_plain plain
    | escaped colons => exact ofText_of_colons colons
    | directive colon single h =>
      rw [ofText_of_colon colon single]
      exact directive_eq_ok_iff.mpr h

/-- The compiler and the rules agree, whatever type names stand for. -/
theorem compile_eq_ok_iff {d : Json} {t : Template} :
    compile resolve d = .ok t ↔ Derives resolve d t := by
  induction d generalizing t with
  | null =>
    rw [compile, Except.ok.injEq]
    constructor
    · rintro rfl
      exact .null
    · rintro ⟨⟩
      rfl
  | bool b =>
    rw [compile, Except.ok.injEq]
    constructor
    · rintro rfl
      exact .bool b
    · rintro ⟨⟩
      rfl
  | number n =>
    rw [compile, Except.ok.injEq]
    constructor
    · rintro rfl
      exact .number n
    · rintro ⟨⟩
      rfl
  | string s => exact ofText_eq_ok_iff
  | array ds ih =>
    cases ds with
    | nil =>
      rw [compile, Except.ok.injEq]
      constructor
      · rintro rfl
        exact .freeArray
      · rintro ⟨⟩
        rfl
    | cons d ds =>
      cases ds with
      | nil =>
        rw [compile]
        constructor
        · intro h
          obtain ⟨item, hi, h⟩ := Except.bind_eq_ok_iff.mp h
          obtain ⟨hplain, rfl⟩ := ofItem_eq_ok_iff.mp h
          exact .array ((ih d List.mem_cons_self).mp hi) hplain
        · intro h
          cases h with
          | array h plain =>
            exact Except.bind_eq_ok_iff.mpr
              ⟨_, (ih d List.mem_cons_self).mpr h, ofItem_eq_ok_iff.mpr ⟨plain, rfl⟩⟩
      | cons d' ds =>
        rw [compile]
        constructor
        · intro h
          cases h
        · intro h
          cases h
  | object ms ih =>
    have hmembers : ∀ {ps}, compileMembers resolve [] ms = .ok ps ↔ _ := fun {ps} =>
      compileMembers_eq_ok_iff fun m hm t => ih m hm
    rw [compile, Except.map_eq_ok_iff]
    constructor
    · rintro ⟨ps, hps, rfl⟩
      obtain ⟨hds, hnodup, -⟩ := hmembers.mp hps
      exact .object hds hnodup
    · intro h
      cases h with
      | object h distinct => exact ⟨_, hmembers.mpr ⟨h, distinct, fun _ _ => List.not_mem_nil⟩, rfl⟩

end Template

/-- The compiler accepts the definitions that can be derived, and no others; what it returns is the tree
of the derivation. -/
theorem compiles_iff_derivable :
    (∀ d t, Template.compile TypeRef.builtin? d = .ok t ↔ Template.Derives TypeRef.builtin? d t) ∧
      ∀ (ns : Namespace) (d t), ns.compile d = .ok t ↔ Template.Derives ns.resolve d t :=
  ⟨fun _ _ => Template.compile_eq_ok_iff, fun _ _ _ => Template.compile_eq_ok_iff⟩

end Stencil
