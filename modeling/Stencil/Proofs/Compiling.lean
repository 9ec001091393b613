import Stencil.Template.Compile
import Stencil.Proofs.Results

/-! Compiling step by step: what a success at a directive, at a property and at the members of an object
definition is made of. -/
namespace Stencil.Template

variable {resolve : Resolver}

/-- What a directive comes to, read from behind the name of its type. -/
def behindName (ref : TypeRef) (w : Words) : Except DefinitionError Template :=
  match w.current with
  | none => .ok (ref.instantiate none)
  | some "default" =>
    match w.literal with
    | .error fault => .error (.malformed [] fault)
    | .ok v =>
      if ref.tag.accepts v then .ok (ref.instantiate (some v))
      else .error (.malformed [] (.conflictingDefault ref.tag))
  | some t => .error (.malformed [] (.unexpectedToken t))

section Directives

variable {s name : String} {ref : TypeRef} {w : Words} {t : Template}

theorem behindName_of_end (h : w.current = none) : behindName ref w = .ok (ref.instantiate none) := by
  unfold behindName
  simp only [h]

theorem behindName_of_default (h : w.current = some "default") :
    behindName ref w = match w.literal with
      | .error fault => .error (.malformed [] fault)
      | .ok v =>
        if ref.tag.accepts v then .ok (ref.instantiate (some v))
        else .error (.malformed [] (.conflictingDefault ref.tag)) := by
  unfold behindName
  simp only [h]

theorem behindName_of_other {word : String} (h : w.current = some word) (hword : word ≠ "default") :
    behindName ref w = .error (.malformed [] (.unexpectedToken word)) := by
  unfold behindName
  simp only [h]

/-- Behind the name of a type there is nothing, or a default that the type accepts. -/
theorem behindName_eq_ok_iff :
    behindName ref w = .ok t ↔
      (w.current = none ∧ t = ref.instantiate none) ∨
      ∃ v, w.current = some "default" ∧ w.literal = .ok v ∧ ref.tag.accepts v = true ∧
        t = ref.instantiate (some v) := by
  cases hword : w.current with
  | none => simp [behindName_of_end hword, @eq_comm _ t]
  | some word =>
    by_cases hdefault : word = "default"
    · subst hdefault
      rw [behindName_of_default hword]
      cases w.literal with
      | error fault => simp
      | ok v => by_cases ha : ref.tag.accepts v = true <;> simp [ha, @eq_comm _ t]
    · simp [behindName_of_other hword hdefault, hdefault]

theorem directive_of_blank (h : (Words.ofString s).next.current = none) :
    directive resolve s = .error (.malformed [] .noTypeName) := by
  unfold directive
  simp only [h]

/-- A type name is looked up before anything behind it is read, and nowhere else. -/
theorem directive_of_name (h : (Words.ofString s).next.current = some name) :
    directive resolve s = match resolve name with
      | none => .error (.undefinedType [] name)
      | some ref => behindName ref (Words.ofString s).next.next := by
  unfold directive
  simp only [h]
  rfl

theorem directive_eq_ok_iff_behindName :
    directive resolve s = .ok t ↔ ∃ name ref, (Words.ofString s).next.current = some name ∧
      resolve name = some ref ∧ behindName ref (Words.ofString s).next.next = .ok t := by
  cases hname : (Words.ofString s).next.current with
  | none => simp [directive_of_blank hname]
  | some name =>
    rw [directive_of_name hname]
    cases href : resolve name <;> simp [href]

/-- A directive names a type that is defined, and gives it no default or one that the type accepts. -/
theorem directive_eq_ok (h : directive resolve s = .ok t) :
    ∃ name ref d, resolve name = some ref ∧ (∀ v, d = some v → ref.tag.accepts v = true) ∧
      t = ref.instantiate d := by
  obtain ⟨name, ref, -, href, h⟩ := directive_eq_ok_iff_behindName.mp h
  obtain ⟨-, rfl⟩ | ⟨v, -, -, ha, rfl⟩ := behindName_eq_ok_iff.mp h
  · exact ⟨name, ref, none, href, (fun _ h => nomatch h), rfl⟩
  · refine ⟨name, ref, some v, href, fun w hw => ?_, rfl⟩
    cases hw
    exact ha

/-- A directive gives its type the default behind it, if the type accepts that. -/
theorem directive_of_default {v : Json} (hname : (Words.ofString s).next.current = some name)
    (href : resolve name = some ref) (hdefault : (Words.ofString s).next.next.current = some "default")
    (hlit : (Words.ofString s).next.next.literal = .ok v) (ha : ref.tag.accepts v = true) :
    directive resolve s = .ok (ref.instantiate (some v)) :=
  directive_eq_ok_iff_behindName.mpr
    ⟨name, ref, hname, href, behindName_eq_ok_iff.mpr (.inr ⟨v, hdefault, hlit, ha, rfl⟩)⟩

end Directives

section Strings

variable {s : String} {cs : List Char}

/-- In front of a string there is no colon, or two, or one alone. -/
theorem colons_cases (s : String) :
    s.toList.head? ≠ some ':' ∨ (∃ cs, s.toList = ':' :: ':' :: cs) ∨
      ∃ cs, s.toList = ':' :: cs ∧ cs.head? ≠ some ':' := by
  by_cases hcolon : s.toList.head? = some ':'
  · obtain ⟨cs, hcs⟩ := List.head?_eq_some_iff.mp hcolon
    by_cases hcolons : cs.head? = some ':'
    · obtain ⟨cs, rfl⟩ := List.head?_eq_some_iff.mp hcolons
      exact .inr (.inl ⟨cs, hcs⟩)
    · exact .inr (.inr ⟨cs, hcs, hcolons⟩)
  · exact .inl hcolon

theorem ofText_of_plain (h : s.toList.head? ≠ some ':') : ofText resolve s = .ok (constant (.string s)) := by
  unfold ofText
  split
  · rename_i hcs
    simp [hcs] at h
  · rename_i hcs
    simp [hcs] at h
  · rfl

theorem ofText_of_colons (h : s.toList = ':' :: ':' :: cs) :
    ofText resolve s = .ok (constant (.string (String.ofList (':' :: cs)))) := by
  unfold ofText
  rw [h]
  rfl

theorem ofText_of_colon (h : s.toList = ':' :: cs) (single : cs.head? ≠ some ':') :
    ofText resolve s = directive resolve (String.ofList cs) := by
  unfold ofText
  rw [h]
  split
  · rename_i hcs
    cases hcs
    simp at single
  · rename_i hcs
    cases hcs
    rfl
  · rename_i hplain
    exact absurd rfl (hplain cs)

/-- A string is a constant or a directive. -/
theorem ofText_eq_ok {t : Template} (h : ofText resolve s = .ok t) :
    (∃ text, t = constant (.string text)) ∨ ∃ text, directive resolve text = .ok t := by
  rcases colons_cases s with plain | ⟨cs, colons⟩ | ⟨cs, colon, single⟩
  · rw [ofText_of_plain plain] at h
    cases h
    exact .inl ⟨s, rfl⟩
  · rw [ofText_of_colons colons] at h
    cases h
    exact .inl ⟨_, rfl⟩
  · rw [ofText_of_colon colon single] at h
    exact .inr ⟨_, h⟩

end Strings

theorem ofItem_eq_ok_iff {item t : Template} :
    ofItem item = .ok t ↔ item.declaredDefault = none ∧ t = .array none (some item) := by
  unfold ofItem
  cases item.declaredDefault <;> simp [@eq_comm _ t]

/-- The template of a property whose definition compiles to `t`, with the default of its key. -/
def withDefault (key : PropertyKey) (t : Template) : Except SyntaxFault Template :=
  match key.default? with
  | none => .ok t
  | some v =>
    if key.required then .error .defaultOfRequired
    else if t.declaredDefault.isSome then .error .severalDefaults
    else if t.tag.accepts v then .ok (t.setDefault v)
    else .error (.conflictingDefault t.tag)

/-- The property with the template `t`, after properties named `earlier`. -/
def declare (earlier : List String) (key : PropertyKey) (t : Template) :
    Except SyntaxFault (Property Template) :=
  if t.tag = .null ∧ !key.nullable then .error .nullNotNullable
  else if key.name ∈ earlier then .error (.repeatedProperty key.name)
  else .ok ⟨key.name, key.required, key.nullable, t⟩

/-- The rules on defaults come before those on nulls and on repeated names. -/
theorem ofKey_eq (earlier : List String) (key : PropertyKey) (t : Template) :
    ofKey earlier key t = withDefault key t >>= declare earlier key := by
  unfold ofKey withDefault declare
  cases key.default? with
  | none => rfl
  | some v =>
    dsimp only
    cases key.required <;> cases t.declaredDefault.isSome <;> cases t.tag.accepts v <;> rfl

theorem withDefault_eq_ok_iff {key : PropertyKey} {t u : Template} :
    withDefault key t = .ok u ↔
      (key.default? = none ∧ u = t) ∨
      ∃ v, key.default? = some v ∧ key.required = false ∧ t.declaredDefault = none ∧
        t.tag.accepts v = true ∧ u = t.setDefault v := by
  unfold withDefault
  cases key.default? with
  | none => simp [@eq_comm _ u]
  | some v =>
    by_cases ha : t.tag.accepts v = true <;> cases key.required <;> cases t.declaredDefault <;>
      simp [ha, @eq_comm _ u]

theorem declare_eq_ok_iff {earlier : List String} {key : PropertyKey} {t : Template}
    {p : Property Template} :
    declare earlier key t = .ok p ↔
      (t.tag = .null → key.nullable = true) ∧ key.name ∉ earlier ∧
        p = ⟨key.name, key.required, key.nullable, t⟩ := by
  unfold declare
  by_cases hm : key.name ∈ earlier <;> by_cases ht : t.tag = .null <;> cases key.nullable <;>
    simp [hm, ht, @eq_comm _ p]

/-- The members of an object definition are compiled one after the other. -/
theorem compileMembers_cons_eq_ok_iff {earlier : List String} {s : String} {d : Json}
    {ms : List (String × Json)} {qs : List (Property Template)} :
    compileMembers resolve earlier ((s, d) :: ms) = .ok qs ↔
      ∃ key t u p ps, PropertyKey.read s = .ok key ∧ compile resolve d = .ok t ∧
        withDefault key t = .ok u ∧ declare earlier key u = .ok p ∧
        compileMembers resolve (earlier ++ [p.name]) ms = .ok ps ∧ qs = p :: ps := by
  rw [compileMembers]
  simp only [ofKey_eq, Except.bind_eq_ok_iff, Except.mapError_eq_ok_iff, Except.ok.injEq]
  constructor
  · intro h
    obtain ⟨p, ⟨key, hk, t, ht, u, hu, hp⟩, ps, hps, rfl⟩ := h
    exact ⟨key, t, u, p, ps, hk, ht, hu, hp, hps, rfl⟩
  · intro h
    obtain ⟨key, t, u, p, ps, hk, ht, hu, hp, hps, rfl⟩ := h
    exact ⟨p, ⟨key, hk, t, ht, u, hu, hp⟩, ps, hps, rfl⟩

end Stencil.Template
