import Stencil.Proofs.Derivations

/-! The forms that the key of a property may have, and what each of them declares. Where the definition
behind the key says nothing more than that any document will do, the key alone decides whether the
property compiles, and to what; and no key is written in two forms. -/
namespace Stencil

open Words

/-- A key as it is written: the name, which modifiers stand behind it, and the text of a default. -/
structure KeyForm where
  name : String
  required : Bool
  reopened : Bool
  literal? : Option (List Char)

namespace KeyForm

/-- The word in front of a literal. -/
def marker : Option (List Char) → List String
  | none => []
  | some _ => ["default"]

def words (f : KeyForm) : List String := f.name :: PropertyKey.flags f.required f.reopened ++ marker f.literal?

/-- Without the spaces at its ends, `s` is `name [required] [nullable] [default literal]`, with spaces
between the parts. -/
def Writes (f : KeyForm) (s : String) : Prop := Splits s f.words (f.literal?.getD []) ∧ f.literal? ≠ some []

/-- The property that a key of the form `f` declares with a definition of the template `t`; if it is
required, it has no default. -/
inductive Declares (f : KeyForm) (t : Template) : Property Template → Prop
  | plain (h : f.literal? = none) : Declares f t ⟨f.name, f.required, f.reopened || !f.required, t⟩
  | withDefault {literal : List Char} {v : Json} (h : f.literal? = some literal)
      (optional : f.required = false) (hv : Json.readAll (Utf8.encode (String.ofList literal)) = .ok v) :
      Declares f t ⟨f.name, f.required, f.reopened || !f.required, t.setDefault v⟩

/-- Where a marker ends the words, nothing else is joined to what the literal is. -/
theorem joined_marker_nil {v : Words} (hv : v.Stripped) {l : Option (List Char)} (hl : l ≠ some [])
    {w : String} {ws : List String} {rest : List Char} (h : Joined (marker l) (l.getD []) v.rest)
    (h' : Joined (w :: ws) rest v.rest) : w = "default" := by
  obtain ⟨hw', -⟩ := (joined_cons_iff hv).mp h'
  cases l with
  | none =>
    have hnil : v.rest = [] := (joined_nil_iff hv).mp h
    have hend := current_next_eq_none_iff.mpr hnil
    cases hend.symm.trans hw'
  | some literal =>
    obtain ⟨hw, -⟩ := (joined_cons_iff hv).mp h
    exact Option.some.inj (hw'.symm.trans hw)

theorem joined_marker_inj {v : Words} (hv : v.Stripped) {l l' : Option (List Char)}
    (h : Joined (marker l) (l.getD []) v.rest) (h' : Joined (marker l') (l'.getD []) v.rest) :
    l = l' := by
  have hnone : ∀ literal, Joined ["default"] literal v.rest → ¬ Joined [] [] v.rest := by
    intro literal hsome hnil
    have hend := current_next_eq_none_iff.mpr ((joined_nil_iff hv).mp hnil)
    cases hend.symm.trans ((joined_cons_iff hv).mp hsome).1
  cases l with
  | none =>
    cases l' with
    | none => rfl
    | some literal => exact absurd h (hnone literal h')
  | some literal =>
    cases l' with
    | none => exact absurd h' (hnone literal h)
    | some literal' =>
      have hrest := (joined_nil_iff (stripped_next v)).mp ((joined_cons_iff hv).mp h).2
      have hrest' := (joined_nil_iff (stripped_next v)).mp ((joined_cons_iff hv).mp h').2
      exact congrArg some (hrest.symm.trans hrest')

/-- The first `default` ends the words, so words and literal can be told from the line. -/
theorem joined_inj {ws ws' : List String} (hws : "default" ∉ ws) (hws' : "default" ∉ ws')
    {l l' : Option (List Char)} (hl : l ≠ some []) (hl' : l' ≠ some []) {v : Words} (hv : v.Stripped)
    (h : Joined (ws ++ marker l) (l.getD []) v.rest)
    (h' : Joined (ws' ++ marker l') (l'.getD []) v.rest) : ws = ws' ∧ l = l' := by
  induction ws generalizing ws' v with
  | nil =>
    cases ws' with
    | nil => exact ⟨rfl, joined_marker_inj hv h h'⟩
    | cons w' ws' =>
      have hw := joined_marker_nil hv hl h h'
      exact absurd (hw ▸ List.mem_cons_self) hws'
  | cons w ws ih =>
    cases ws' with
    | nil =>
      have hw := joined_marker_nil hv hl' h' h
      exact absurd (hw ▸ List.mem_cons_self) hws
    | cons w' ws' =>
      obtain ⟨hw, htail⟩ := (joined_cons_iff hv).mp h
      obtain ⟨hw', htail'⟩ := (joined_cons_iff hv).mp h'
      obtain ⟨rfl, hl⟩ := ih (List.not_mem_of_not_mem_cons hws) (List.not_mem_of_not_mem_cons hws')
        (stripped_next v) htail htail'
      exact ⟨congrArg (· :: ws) (Option.some.inj (hw.symm.trans hw')), hl⟩

theorem default_notMem_flags (required reopened : Bool) :
    "default" ∉ PropertyKey.flags required reopened := by
  cases required <;> cases reopened <;> decide

theorem flags_inj {required required' reopened reopened' : Bool}
    (h : PropertyKey.flags required reopened = PropertyKey.flags required' reopened') :
    required = required' ∧ reopened = reopened' := by
  revert h
  cases required <;> cases required' <;> cases reopened <;> cases reopened' <;> decide

/-- A key is written in one form at most. Its name may be any word, a keyword too. -/
theorem Writes.unique {f g : KeyForm} {s : String} (hf : f.Writes s) (hg : g.Writes s) : f = g := by
  obtain ⟨name, required, reopened, l⟩ := f
  obtain ⟨name', required', reopened', l'⟩ := g
  have hs := stripped_ofString s
  obtain ⟨hw, h⟩ := (joined_cons_iff hs).mp (splits_iff_joined.mp hf.1)
  obtain ⟨hw', h'⟩ := (joined_cons_iff hs).mp (splits_iff_joined.mp hg.1)
  obtain rfl : name = name' := Option.some.inj (hw.symm.trans hw')
  obtain ⟨hflags, rfl⟩ := joined_inj (default_notMem_flags required reopened)
    (default_notMem_flags required' reopened') hf.2 hg.2 (stripped_next _) h h'
  obtain ⟨rfl, rfl⟩ := flags_inj hflags
  rfl

/-- What is read of a key of the form `f`. -/
inductive Reads (f : KeyForm) : PropertyKey → Prop
  | plain (h : f.literal? = none) : Reads f ⟨f.name, f.required, f.reopened || !f.required, none⟩
  | withDefault {literal : List Char} {v : Json} (h : f.literal? = some literal)
      (hv : Json.readAll (Utf8.encode (String.ofList literal)) = .ok v) :
      Reads f ⟨f.name, f.required, f.reopened || !f.required, some v⟩

/-- What a key spells is what is read of the form in which it is written. -/
theorem spelled_iff {s : String} {key : PropertyKey} :
    key.Spelled s ↔ ∃ f : KeyForm, f.Writes s ∧ f.Reads key := by
  constructor
  · intro h
    cases h with
    | @plain name required reopened h =>
      refine ⟨⟨name, required, reopened, none⟩, ⟨?_, nofun⟩, .plain rfl⟩
      rwa [words, marker, List.append_nil]
    | @withDefault name required reopened literal v h hv =>
      refine ⟨⟨name, required, reopened, some literal⟩, ⟨h, ?_⟩, .withDefault rfl hv⟩
      -- there is no document in an empty text
      rintro ⟨⟩
      cases hv
  · rintro ⟨⟨name, required, reopened, l⟩, ⟨h, hl⟩, hread⟩
    cases hread with
    | plain hnone =>
      obtain rfl : l = none := hnone
      rw [words, marker, List.append_nil] at h
      exact .plain h
    | withDefault hsome hv =>
      obtain rfl : l = some _ := hsome
      exact .withDefault h hv

/-- A form declares what is read of it, where the rules on defaults and nulls have nothing against it. -/
theorem declares_iff {f : KeyForm} {t : Template} {p : Property Template} (hany : t.tag = .any)
    (hplain : t.declaredDefault = none) :
    f.Declares t p ↔
      ∃ key u, f.Reads key ∧ Template.withDefault key t = .ok u ∧ Template.declare [] key u = .ok p := by
  have hnull : ∀ {u : Template} {key : PropertyKey}, u.tag = .any → u.tag = .null → key.nullable = true :=
    fun hu hn => nomatch hu.symm.trans hn
  constructor
  · intro h
    cases h with
    | plain h =>
      exact ⟨_, t, .plain h, Template.withDefault_eq_ok_iff.mpr (.inl ⟨rfl, rfl⟩),
        Template.declare_eq_ok_iff.mpr ⟨hnull hany, List.not_mem_nil, rfl⟩⟩
    | @withDefault literal v h optional hv =>
      have haccepts : t.tag.accepts v = true := by
        rw [hany]
        rfl
      have htag : (t.setDefault v).tag = .any := (Template.tag_setDefault v t).trans hany
      exact ⟨_, t.setDefault v, .withDefault h hv,
        Template.withDefault_eq_ok_iff.mpr (.inr ⟨v, rfl, optional, hplain, haccepts, rfl⟩),
        Template.declare_eq_ok_iff.mpr ⟨hnull htag, List.not_mem_nil, rfl⟩⟩
  · rintro ⟨key, u, hread, hu, hp⟩
    obtain ⟨-, -, rfl⟩ := Template.declare_eq_ok_iff.mp hp
    cases hread with
    | plain h =>
      obtain ⟨-, rfl⟩ | ⟨v, hv, -⟩ := Template.withDefault_eq_ok_iff.mp hu
      · exact .plain h
      · cases hv
    | withDefault h hv =>
      obtain ⟨hnone, -⟩ | ⟨v, hsome, optional, -, -, rfl⟩ := Template.withDefault_eq_ok_iff.mp hu
      · cases hnone
      · cases hsome
        exact .withDefault h optional hv

end KeyForm

namespace Template

variable {resolve : Resolver} {s : String} {d : Json} {t u : Template}

/-- An object definition with one member compiles to one property, or not at all. -/
theorem compile_single_eq_ok_iff :
    compile resolve (.object [(s, d)]) = .ok u ↔ ∃ key t v p, PropertyKey.read s = .ok key ∧
      compile resolve d = .ok t ∧ withDefault key t = .ok v ∧ declare [] key v = .ok p ∧
      u = .object none [p] := by
  rw [compile, Except.map_eq_ok_iff]
  constructor
  · rintro ⟨ps, hps, rfl⟩
    obtain ⟨key, t, v, p, ps, hk, ht, hv, hp, hnil, rfl⟩ := compileMembers_cons_eq_ok_iff.mp hps
    cases hnil
    exact ⟨key, t, v, p, hk, ht, hv, hp, rfl⟩
  · rintro ⟨key, t, v, p, hk, ht, hv, hp, rfl⟩
    exact ⟨[p], compileMembers_cons_eq_ok_iff.mpr ⟨key, t, v, p, [], hk, ht, hv, hp, rfl, rfl⟩, rfl⟩

/-- A property compiles if and only if its key is written in a form that declares one. A key is written
in one form at most. -/
theorem keys_recognised (hd : compile resolve d = .ok t) (hany : t.tag = .any)
    (hplain : t.declaredDefault = none) (s : String) :
    (∀ u, compile resolve (.object [(s, d)]) = .ok u ↔
        ∃ (f : KeyForm) (p : Property Template), f.Writes s ∧ f.Declares t p ∧ u = .object none [p]) ∧
      ∀ f g : KeyForm, f.Writes s → g.Writes s → f = g := by
  refine ⟨fun u => ?_, fun f g => KeyForm.Writes.unique⟩
  simp only [compile_single_eq_ok_iff, KeyForm.declares_iff hany hplain, PropertyKey.read_eq_ok_iff,
    KeyForm.spelled_iff]
  constructor
  · rintro ⟨key, t', w, p, ⟨f, hf, hread⟩, ht, hw, hp, rfl⟩
    cases hd.symm.trans ht
    exact ⟨f, p, hf, ⟨key, w, hread, hw, hp⟩, rfl⟩
  · rintro ⟨f, p, hf, ⟨key, w, hread, hw, hp⟩, rfl⟩
    exact ⟨key, t, w, p, ⟨f, hf, hread⟩, hd, hw, hp, rfl⟩

/-- The key of a property that is named like a keyword, with one more such word in its default. -/
def crowdedKey : String := "  default nullable default   \"no default\" "

theorem crowdedKey_written :
    KeyForm.Writes ⟨"default", false, true, some "\"no default\"".toList⟩ crowdedKey := by
  have hs := stripped_ofString crowdedKey
  have hlast : Joined [] "\"no default\"".toList (ofString crowdedKey).next.next.next.rest :=
    (joined_nil_iff (stripped_next _)).mpr rfl
  have hdefault := (joined_cons_iff (stripped_next _)).mpr ⟨rfl, hlast⟩
  have hnullable := (joined_cons_iff (stripped_next _)).mpr ⟨rfl, hdefault⟩
  exact ⟨splits_iff_joined.mpr ((joined_cons_iff hs).mpr ⟨rfl, hnullable⟩), nofun⟩

theorem crowdedKey_recognised :
    compile TypeRef.builtin? (.string ":any") = .ok (.value .any none) ∧
      (Template.value .any none).tag = .any ∧ (Template.value .any none).declaredDefault = none ∧
      compile TypeRef.builtin? (.object [(crowdedKey, .string ":any")]) =
        .ok (.object none
          [⟨"default", false, true, .value .any (some (.string "no default"))⟩]) := by
  have hd : compile TypeRef.builtin? (.string ":any") = .ok (.value .any none) := by
    with_unfolding_all rfl
  have hread : Json.readAll (Utf8.encode (String.ofList "\"no default\"".toList)) =
      .ok (.string "no default") := by
    with_unfolding_all rfl
  obtain ⟨hiff, -⟩ := keys_recognised hd rfl rfl crowdedKey
  exact ⟨hd, rfl, rfl, (hiff _).mpr ⟨_, _, crowdedKey_written, .withDefault rfl rfl hread, rfl⟩⟩

end Template

end Stencil
