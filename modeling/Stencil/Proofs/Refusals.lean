import Stencil.Proofs.Directives

/-! Why a definition is refused, and where. Compiling stops at the first fault in the order of the
definition, and reports it under the first words of the keys that lead to it; a member of an object is
refused for the same reason inside the object as by itself. -/
namespace Stencil

namespace DefinitionError

/-- The same error, seen from the definition that `path` leads into. -/
def within (path : Path) (e : DefinitionError) : DefinitionError := path.foldr under e

theorem path?_under (segment : String) (e : DefinitionError) :
    (e.under segment).path? = e.path?.map (segment :: ·) := by
  cases e <;> rfl

theorem path?_within (path : Path) (e : DefinitionError) :
    (e.within path).path? = e.path?.map (path ++ ·) := by
  induction path with
  | nil => exact Option.map_id_apply.symm
  | cons segment path ih =>
    change ((e.within path).under segment).path? = _
    rw [path?_under, ih, Option.map_map]
    rfl

end DefinitionError

/-- The segment that stands for a member in paths is the name that its key declares. -/
theorem PropertyKey.first_of_read {s : String} {key : PropertyKey} (h : read s = .ok key) :
    Words.first s = key.name := by
  obtain ⟨name, hname, h⟩ := read_eq_ok_iff_modifiers.mp h
  rw [(modifiers_eq_ok h).1]
  exact Words.first_of_current hname

namespace Template

variable {resolve : Resolver}

/-- What the rules on defaults and nulls have against a property of the key `key` with the template `t`. -/
inductive BreaksRule (key : PropertyKey) (t : Template) : SyntaxFault → Prop
  | required {v : Json} (h : key.default? = some v) (hr : key.required = true) :
      BreaksRule key t .defaultOfRequired
  | several {v w : Json} (h : key.default? = some v) (hr : key.required = false)
      (ht : t.declaredDefault = some w) : BreaksRule key t .severalDefaults
  | conflicting {v : Json} (h : key.default? = some v) (hr : key.required = false)
      (ht : t.declaredDefault = none) (ha : t.tag.accepts v = false) :
      BreaksRule key t (.conflictingDefault t.tag)
  | null (h : key.default? = none) (ht : t.tag = .null) (hn : key.nullable = false) :
      BreaksRule key t .nullNotNullable

/-- One member of an object definition, after members that declare the names `earlier`. -/
def compileMember (resolve : Resolver) (earlier : List String) (m : String × Json) :
    Except DefinitionError (Property Template) :=
  Except.mapError (.under (Words.first m.1)) do
    let key ← (PropertyKey.read m.1).mapError (.malformed [])
    let t ← compile resolve m.2
    (ofKey earlier key t).mapError (.malformed [])

theorem compileMembers_cons (earlier : List String) (m : String × Json) (ms : List (String × Json)) :
    compileMembers resolve earlier (m :: ms) =
      compileMember resolve earlier m >>= fun p =>
        (compileMembers resolve (earlier ++ [p.name]) ms).map (p :: ·) := by
  obtain ⟨s, d⟩ := m
  rw [compileMembers]
  refine congrArg (compileMember resolve earlier (s, d) >>= ·) (funext fun p => ?_)
  cases compileMembers resolve (earlier ++ [p.name]) ms <;> rfl

/-- The members in front are compiled first; the others only have to know their names. -/
theorem compileMembers_append (earlier : List String) (ms ns : List (String × Json)) :
    compileMembers resolve earlier (ms ++ ns) =
      compileMembers resolve earlier ms >>= fun ps =>
        (compileMembers resolve (earlier ++ ps.map (·.name)) ns).map (ps ++ ·) := by
  induction ms generalizing earlier with
  | nil =>
    rw [List.nil_append, compileMembers, Except.ok_bind, List.map_nil, List.append_nil]
    cases compileMembers resolve earlier ns <;> rfl
  | cons m ms ih =>
    rw [List.cons_append, compileMembers_cons, compileMembers_cons]
    cases compileMember resolve earlier m with
    | error e => rfl
    | ok p =>
      rw [Except.ok_bind, Except.ok_bind, ih]
      cases compileMembers resolve (earlier ++ [p.name]) ms with
      | error e => rfl
      | ok ps =>
        simp only [Except.ok_bind, Except.map, List.map_cons, List.append_assoc, List.singleton_append]
        cases compileMembers resolve (earlier ++ p.name :: ps.map (·.name)) ns <;> rfl

theorem compile_object (ms : List (String × Json)) :
    compile resolve (.object ms) = (compileMembers resolve [] ms).map (.object none) := by
  rw [compile]

theorem compile_object_eq_ok_iff {ms : List (String × Json)} {t : Template} :
    compile resolve (.object ms) = .ok t ↔
      ∃ ps, compileMembers resolve [] ms = .ok ps ∧ t = .object none ps := by
  rw [compile_object, Except.map_eq_ok_iff]
  simp only [eq_comm]

theorem compileMembers_of_compile {ms : List (String × Json)} {ps : List (Property Template)}
    (h : compile resolve (.object ms) = .ok (.object none ps)) : compileMembers resolve [] ms = .ok ps := by
  obtain ⟨ps', hps, heq⟩ := compile_object_eq_ok_iff.mp h
  cases heq
  exact hps

theorem compile_object_eq_error_iff {ms : List (String × Json)} {e : DefinitionError} :
    compile resolve (.object ms) = .error e ↔ compileMembers resolve [] ms = .error e := by
  rw [compile_object]
  cases compileMembers resolve [] ms <;> simp [Except.map]

theorem compileMember_nil_eq_ok_iff {m : String × Json} {p : Property Template} :
    compileMember resolve [] m = .ok p ↔ compile resolve (.object [m]) = .ok (.object none [p]) := by
  rw [compile_object, compileMembers_cons]
  cases compileMember resolve [] m <;> simp [compileMembers, Except.map, bind, Except.bind]

theorem compileMember_nil_eq_error_iff {m : String × Json} {e : DefinitionError} :
    compileMember resolve [] m = .error e ↔ compile resolve (.object [m]) = .error e := by
  rw [compile_object, compileMembers_cons]
  cases compileMember resolve [] m <;> simp [compileMembers, Except.map, bind, Except.bind]

/-- Whether a name is new is looked at last, when nothing else is wrong with a member. -/
theorem declare_eq (earlier : List String) (key : PropertyKey) (t : Template) :
    declare earlier key t = declare [] key t >>= fun p =>
      if p.name ∈ earlier then .error (.repeatedProperty p.name) else .ok p := by
  unfold declare
  by_cases hn : t.tag = .null ∧ !key.nullable
  · rw [if_pos hn, if_pos hn]
    rfl
  · rw [if_neg hn, if_neg hn, if_neg List.not_mem_nil]
    by_cases hm : key.name ∈ earlier <;> simp [hm, bind, Except.bind]

theorem compileMember_eq (earlier : List String) (m : String × Json) :
    compileMember resolve earlier m = compileMember resolve [] m >>= fun p =>
      if p.name ∈ earlier then .error (.malformed [Words.first m.1] (.repeatedProperty p.name))
      else .ok p := by
  unfold compileMember
  cases PropertyKey.read m.1 with
  | error f => rfl
  | ok key =>
    cases compile resolve m.2 with
    | error e => rfl
    | ok t =>
      simp only [Except.mapError, Except.ok_bind, ofKey_eq]
      cases withDefault key t with
      | error f => rfl
      | ok u =>
        simp only [Except.ok_bind, declare_eq earlier]
        cases declare [] key u with
        | error f => rfl
        | ok p =>
          simp only [Except.ok_bind]
          by_cases hm : p.name ∈ earlier
          · rw [if_pos hm, if_pos hm]
            rfl
          · rw [if_neg hm, if_neg hm]

theorem compileMember_eq_ok_iff {earlier : List String} {m : String × Json} {p : Property Template} :
    compileMember resolve earlier m = .ok p ↔
      compile resolve (.object [m]) = .ok (.object none [p]) ∧ p.name ∉ earlier := by
  rw [compileMember_eq, Except.bind_eq_ok_iff, ← compileMember_nil_eq_ok_iff]
  constructor
  · rintro ⟨q, hq, h⟩
    split at h
    · cases h
    · rename_i hnew
      cases h
      exact ⟨hq, hnew⟩
  · rintro ⟨hp, hnew⟩
    exact ⟨p, hp, if_neg hnew⟩

/-- A member is refused by itself, or else for a name that is declared before it. -/
theorem compileMember_eq_error_iff {earlier : List String} {m : String × Json} {e : DefinitionError} :
    compileMember resolve earlier m = .error e ↔ compile resolve (.object [m]) = .error e ∨
      ∃ p, compile resolve (.object [m]) = .ok (.object none [p]) ∧ p.name ∈ earlier ∧
        e = .malformed [Words.first m.1] (.repeatedProperty p.name) := by
  simp only [← compileMember_nil_eq_ok_iff, ← compileMember_nil_eq_error_iff]
  rw [compileMember_eq]
  cases compileMember resolve [] m with
  | error e' => simp [bind, Except.bind]
  | ok p =>
    by_cases hm : p.name ∈ earlier <;> simp [Except.ok_bind, hm, @eq_comm _ e]

/-- The first member that is refused stands behind members that are compiled. -/
theorem compileMembers_eq_error_iff {earlier : List String} {ms : List (String × Json)}
    {e : DefinitionError} :
    compileMembers resolve earlier ms = .error e ↔ ∃ before m after ps, ms = before ++ m :: after ∧
      compileMembers resolve earlier before = .ok ps ∧
        compileMember resolve (earlier ++ ps.map (·.name)) m = .error e := by
  constructor
  · intro h
    induction ms generalizing earlier with
    | nil => cases h
    | cons m ms ih =>
      rw [compileMembers_cons] at h
      cases hm : compileMember resolve earlier m with
      | error e' =>
        rw [hm] at h
        cases h
        exact ⟨[], m, ms, [], rfl, rfl, by rwa [List.map_nil, List.append_nil]⟩
      | ok p =>
        have hms : compileMembers resolve (earlier ++ [p.name]) ms = .error e := by
          rw [hm, Except.ok_bind] at h
          cases hms : compileMembers resolve (earlier ++ [p.name]) ms with
          | error e' =>
            rw [hms] at h
            cases h
            rfl
          | ok ps =>
            rw [hms] at h
            cases h
        obtain ⟨before, m', after, ps, rfl, hbefore, hm'⟩ := ih hms
        refine ⟨m :: before, m', after, p :: ps, rfl, ?_, ?_⟩
        · rw [compileMembers_cons, hm, Except.ok_bind, hbefore]
          rfl
        · rwa [List.append_assoc] at hm'
  · rintro ⟨before, m, after, ps, rfl, hbefore, hm⟩
    rw [compileMembers_append, hbefore, Except.ok_bind, compileMembers_cons, hm]
    rfl

/-- An object definition is refused for the first member that is refused by itself or declares a name
again, and for nothing else. -/
theorem compile_object_eq_error_iff_first {ms : List (String × Json)} {e : DefinitionError} :
    compile resolve (.object ms) = .error e ↔ ∃ before m after ps, ms = before ++ m :: after ∧
      compile resolve (.object before) = .ok (.object none ps) ∧
        (compile resolve (.object [m]) = .error e ∨
          ∃ p, compile resolve (.object [m]) = .ok (.object none [p]) ∧ p.name ∈ ps.map (·.name) ∧
            e = .malformed [Words.first m.1] (.repeatedProperty p.name)) := by
  rw [compile_object_eq_error_iff, compileMembers_eq_error_iff]
  constructor
  · rintro ⟨before, m, after, ps, rfl, hbefore, hm⟩
    exact ⟨before, m, after, ps, rfl, compile_object_eq_ok_iff.mpr ⟨ps, hbefore, rfl⟩,
      compileMember_eq_error_iff.mp hm⟩
  · rintro ⟨before, m, after, ps, rfl, hbefore, hm⟩
    exact ⟨before, m, after, ps, rfl, compileMembers_of_compile hbefore, compileMember_eq_error_iff.mpr hm⟩

/-- Each member of an object definition that compiles does so by itself, to its own property. -/
theorem forall₂_compile_single {earlier : List String} {ms : List (String × Json)}
    {ps : List (Property Template)} (h : compileMembers resolve earlier ms = .ok ps) :
    List.Forall₂ (fun m p => compile resolve (.object [m]) = .ok (.object none [p])) ms ps := by
  induction ms generalizing earlier ps with
  | nil =>
    cases h
    exact .nil
  | cons m ms ih =>
    rw [compileMembers_cons, Except.bind_eq_ok_iff] at h
    obtain ⟨p, hp, h⟩ := h
    obtain ⟨qs, hqs, rfl⟩ := Except.map_eq_ok_iff.mp h
    exact .cons (compileMember_eq_ok_iff.mp hp).1 (ih hqs)

theorem mem_names_iff {ms : List (String × Json)} {ps : List (Property Template)}
    (h : compile resolve (.object ms) = .ok (.object none ps)) {name : String} :
    name ∈ ps.map (·.name) ↔
      ∃ m ∈ ms, ∃ p, compile resolve (.object [m]) = .ok (.object none [p]) ∧ p.name = name := by
  have hmembers := forall₂_compile_single (compileMembers_of_compile h)
  clear h
  induction hmembers with
  | nil => simp
  | @cons m p ms ps hm _ ih =>
    have hname : (∃ q, compile resolve (.object [m]) = .ok (.object none [q]) ∧ q.name = name) ↔
        name = p.name := by
      simp [hm, eq_comm]
    rw [List.map_cons, List.mem_cons, List.exists_mem_cons_iff, hname]
    exact or_congr_right ih

/-- An object definition is refused exactly when one of its members is refused by itself, or declares a
name that one in front of it declares. -/
theorem compile_object_fails_iff {ms : List (String × Json)} :
    (∃ e, compile resolve (.object ms) = .error e) ↔ ∃ before m after, ms = before ++ m :: after ∧
      ((∃ e, compile resolve (.object [m]) = .error e) ∨
        ∃ p, compile resolve (.object [m]) = .ok (.object none [p]) ∧
          ∃ m' ∈ before, ∃ p', compile resolve (.object [m']) = .ok (.object none [p']) ∧
            p'.name = p.name) := by
  constructor
  · rintro ⟨e, he⟩
    obtain ⟨before, m, after, ps, rfl, hbefore, h⟩ := compile_object_eq_error_iff_first.mp he
    refine ⟨before, m, after, rfl, ?_⟩
    rcases h with h | ⟨p, hp, hmem, -⟩
    · exact .inl ⟨e, h⟩
    · exact .inr ⟨p, hp, (mem_names_iff hbefore).mp hmem⟩
  · rintro ⟨before, m, after, rfl, h⟩
    cases hall : compile resolve (.object (before ++ m :: after)) with
    | error e => exact ⟨e, rfl⟩
    | ok t =>
      -- with everything compiled, the member by itself is, and its name is new
      obtain ⟨qs, hqs, rfl⟩ := compile_object_eq_ok_iff.mp hall
      rw [compileMembers_append, Except.bind_eq_ok_iff] at hqs
      obtain ⟨ps, hps, hqs⟩ := hqs
      obtain ⟨rs, hrs, -⟩ := Except.map_eq_ok_iff.mp hqs
      rw [compileMembers_cons, Except.bind_eq_ok_iff] at hrs
      obtain ⟨p, hp, -⟩ := hrs
      obtain ⟨halone, hnew⟩ := compileMember_eq_ok_iff.mp hp
      have hbefore : compile resolve (.object before) = .ok (.object none ps) :=
        compile_object_eq_ok_iff.mpr ⟨ps, hps, rfl⟩
      rcases h with ⟨e, he⟩ | ⟨q, hq, hdeclared⟩
      · cases halone.symm.trans he
      · cases halone.symm.trans hq
        exact absurd ((mem_names_iff hbefore).mpr hdeclared) hnew

/-- The properties have the names that paths show for their members. -/
theorem names_eq_first {ms : List (String × Json)} {ps : List (Property Template)}
    (h : compile resolve (.object ms) = .ok (.object none ps)) :
    ps.map (·.name) = ms.map fun m => Words.first m.1 := by
  have hmembers := forall₂_compile_single (compileMembers_of_compile h)
  clear h
  induction hmembers with
  | nil => rfl
  | @cons m p ms ps hm _ ih =>
    obtain ⟨s, d⟩ := m
    obtain ⟨ps', hps, heq⟩ := compile_object_eq_ok_iff.mp hm
    obtain ⟨key, t, u, q, qs, hk, -, -, hq, -, rfl⟩ := compileMembers_cons_eq_ok_iff.mp hps
    cases heq
    obtain ⟨-, -, rfl⟩ := declare_eq_ok_iff.mp hq
    rw [List.map_cons, List.map_cons, ih, PropertyKey.first_of_read hk]

theorem withDefault_eq_error_iff {key : PropertyKey} {t : Template} {f : SyntaxFault} :
    withDefault key t = .error f ↔ BreaksRule key t f ∧ key.default?.isSome := by
  unfold withDefault
  constructor
  · intro h
    cases hv : key.default? with
    | none =>
      rw [hv] at h
      cases h
    | some v =>
      simp only [hv] at h
      refine ⟨?_, rfl⟩
      split at h
      · rename_i hr
        cases h
        exact .required hv hr
      · rename_i hr
        have hopt : key.required = false := by simpa using hr
        split at h
        · rename_i hd
          cases h
          obtain ⟨w, hw⟩ := Option.isSome_iff_exists.mp hd
          exact .several hv hopt hw
        · rename_i hd
          split at h
          · cases h
          · rename_i ha
            cases h
            exact .conflicting hv hopt (by simpa using hd) (by simpa using ha)
  · rintro ⟨h, hsome⟩
    cases h with
    | required h hr => simp [h, hr]
    | several h hr ht => simp [h, hr, ht]
    | conflicting h hr ht ha => simp [h, hr, ht, ha]
    | null h =>
      rw [h] at hsome
      cases hsome

/-- Where a property may be absent it may be null, so a null that is refused is one without a default. -/
theorem ofKey_nil_eq_error_iff {key : PropertyKey} {t : Template} {f : SyntaxFault}
    (hkey : key.required = false → key.nullable = true) :
    ofKey [] key t = .error f ↔ BreaksRule key t f := by
  rw [ofKey_eq]
  cases hu : withDefault key t with
  | error f' =>
    have hbroken := withDefault_eq_error_iff.mp hu
    constructor
    · intro h
      cases h
      exact hbroken.1
    · intro h
      have hbreak : withDefault key t = .error f := withDefault_eq_error_iff.mpr ⟨h, hbroken.2⟩
      rw [hu] at hbreak
      cases hbreak
      rfl
  | ok u =>
    have hdeclare : declare [] key u = .error f ↔
        u.tag = .null ∧ key.nullable = false ∧ f = .nullNotNullable := by
      unfold declare
      by_cases ht : u.tag = .null <;> cases key.nullable <;> simp [ht, @eq_comm _ f]
    rw [Except.ok_bind, hdeclare]
    rcases withDefault_eq_ok_iff.mp hu with ⟨hnone, rfl⟩ | ⟨v, hv, hopt, hplain, hacc, rfl⟩
    · constructor
      · rintro ⟨ht, hn, rfl⟩
        exact .null hnone ht hn
      · intro h
        cases h with
        | null _ ht hn => exact ⟨ht, hn, rfl⟩
        | required h => cases hnone.symm.trans h
        | several h => cases hnone.symm.trans h
        | conflicting h => cases hnone.symm.trans h
    · refine iff_of_false (fun h => ?_) fun h => ?_
      · cases (hkey hopt).symm.trans h.2.1
      · have hbreak := withDefault_eq_error_iff.mpr ⟨h, Option.isSome_iff_exists.mpr ⟨v, hv⟩⟩
        cases hu.symm.trans hbreak

/-- What is wrong with a member behind members that declare the names `earlier`, its value apart. -/
inductive MemberFault (resolve : Resolver) (earlier : List String) (s : String) (d : Json) :
    SyntaxFault → Prop
  | key {f : SyntaxFault} (h : PropertyKey.read s = .error f) : MemberFault resolve earlier s d f
  | rule {key : PropertyKey} {t : Template} {f : SyntaxFault} (hk : PropertyKey.read s = .ok key)
      (ht : compile resolve d = .ok t) (h : BreaksRule key t f) : MemberFault resolve earlier s d f
  | repeated {p : Property Template} (hp : compile resolve (.object [(s, d)]) = .ok (.object none [p]))
      (h : p.name ∈ earlier) : MemberFault resolve earlier s d (.repeatedProperty p.name)

variable {s : String} {d : Json} {e : DefinitionError}

/-- A member by itself is refused for its key, else for its value, else by the rules. -/
theorem compile_single_eq_error_iff :
    compile resolve (.object [(s, d)]) = .error e ↔
      (∃ f, MemberFault resolve [] s d f ∧ e = .malformed [Words.first s] f) ∨
        ∃ key e', PropertyKey.read s = .ok key ∧ compile resolve d = .error e' ∧
          e = e'.under (Words.first s) := by
  rw [← compileMember_nil_eq_error_iff]
  unfold compileMember
  cases hk : PropertyKey.read s with
  | error f =>
    constructor
    · intro h
      cases h
      exact .inl ⟨f, .key hk, rfl⟩
    · rintro (⟨f', h, rfl⟩ | ⟨key, e', hk', -, -⟩)
      · cases h with
        | key h =>
          cases hk.symm.trans h
          rfl
        | rule hk' => cases hk.symm.trans hk'
        | repeated _ h => cases h
      · cases hk'
  | ok key =>
    cases ht : compile resolve d with
    | error e' =>
      constructor
      · intro h
        cases h
        exact .inr ⟨key, e', rfl, rfl, rfl⟩
      · rintro (⟨f, h, rfl⟩ | ⟨_, e'', -, he, rfl⟩)
        · cases h with
          | key h => cases hk.symm.trans h
          | rule _ ht' => cases ht.symm.trans ht'
          | repeated _ h => cases h
        · cases he
          rfl
    | ok t =>
      have hrule : ∀ f, ofKey [] key t = .error f ↔ BreaksRule key t f := fun f =>
        ofKey_nil_eq_error_iff (PropertyKey.read_eq_ok hk).2.2
      simp only [Except.mapError, Except.ok_bind]
      constructor
      · intro h
        cases hf : ofKey [] key t with
        | ok p =>
          rw [hf] at h
          cases h
        | error f =>
          rw [hf] at h
          cases h
          exact .inl ⟨f, .rule hk ht ((hrule f).mp hf), rfl⟩
      · rintro (⟨f, h, rfl⟩ | ⟨_, e', -, he, -⟩)
        · cases h with
          | key h => cases hk.symm.trans h
          | rule hk' ht' h =>
            cases hk.symm.trans hk'
            cases ht.symm.trans ht'
            rw [(hrule f).mpr h]
            rfl
          | repeated _ h => cases h
        · cases he

theorem memberFault_iff {earlier : List String} {f : SyntaxFault} :
    MemberFault resolve earlier s d f ↔ MemberFault resolve [] s d f ∨
      ∃ p, compile resolve (.object [(s, d)]) = .ok (.object none [p]) ∧ p.name ∈ earlier ∧
        f = .repeatedProperty p.name := by
  constructor
  · intro h
    cases h with
    | key h => exact .inl (.key h)
    | rule hk ht h => exact .inl (.rule hk ht h)
    | repeated hp h => exact .inr ⟨_, hp, h, rfl⟩
  · rintro (h | ⟨p, hp, hmem, rfl⟩)
    · cases h with
      | key h => exact .key h
      | rule hk ht h => exact .rule hk ht h
      | repeated _ h => cases h
    · exact .repeated hp hmem

/-- Inside an object, too, a member is refused for what is wrong with it or for its value. -/
theorem compileMember_eq_error_iff_fault {earlier : List String} :
    compileMember resolve earlier (s, d) = .error e ↔
      (∃ f, MemberFault resolve earlier s d f ∧ e = .malformed [Words.first s] f) ∨
        ∃ key e', PropertyKey.read s = .ok key ∧ compile resolve d = .error e' ∧
          e = e'.under (Words.first s) := by
  rw [compileMember_eq_error_iff, compile_single_eq_error_iff]
  simp only [@memberFault_iff _ _ _ earlier]
  constructor
  · rintro ((⟨f, h, rfl⟩ | h) | ⟨p, hp, hmem, rfl⟩)
    · exact .inl ⟨f, .inl h, rfl⟩
    · exact .inr h
    · exact .inl ⟨_, .inr ⟨p, hp, hmem, rfl⟩, rfl⟩
  · rintro (⟨f, h | ⟨p, hp, hmem, rfl⟩, rfl⟩ | h)
    · exact .inl (.inl ⟨f, h, rfl⟩)
    · exact .inr ⟨p, hp, hmem, rfl⟩
    · exact .inl (.inr h)

/-- From `d` the path of first words leads to a definition inside it, past nothing that is refused. -/
inductive Reaches (resolve : Resolver) : Json → Path → Json → Prop
  | here (d : Json) : Reaches resolve d [] d
  | item {d d' : Json} {path : Path} (h : Reaches resolve d path d') : Reaches resolve (.array [d]) path d'
  | value {before after : List (String × Json)} {ps : List (Property Template)} {s : String}
      {key : PropertyKey} {d d' : Json} {path : Path}
      (hbefore : compile resolve (.object before) = .ok (.object none ps))
      (hk : PropertyKey.read s = .ok key) (h : Reaches resolve d path d') :
      Reaches resolve (.object (before ++ (s, d) :: after)) (Words.first s :: path) d'

/-- What is wrong with a definition itself, and not with one inside it. -/
inductive AtFault (resolve : Resolver) : Json → DefinitionError → Prop
  | text {s : String} {f : SyntaxFault} (h : ofText resolve s = .error (.malformed [] f)) :
      AtFault resolve (.string s) (.malformed [] f)
  | typeName {s name : String} (h : ofText resolve s = .error (.undefinedType [] name)) :
      AtFault resolve (.string s) (.undefinedType [] name)
  | defaultOfItem {d : Json} {item : Template} {v : Json} (h : compile resolve d = .ok item)
      (hv : item.declaredDefault = some v) : AtFault resolve (.array [d]) (.malformed [] .defaultOfItem)
  | severalItems (d d' : Json) (ds : List Json) :
      AtFault resolve (.array (d :: d' :: ds)) (.malformed [] .severalItems)
  | member {before after : List (String × Json)} {ps : List (Property Template)} {s : String} {d : Json}
      {f : SyntaxFault} (hbefore : compile resolve (.object before) = .ok (.object none ps))
      (h : MemberFault resolve (ps.map (·.name)) s d f) :
      AtFault resolve (.object (before ++ (s, d) :: after)) (.malformed [Words.first s] f)

/-- A string is refused where it stands. -/
theorem atFault_of_ofText (h : ofText resolve s = .error e) : AtFault resolve (.string s) e := by
  have hplace : (∃ f, e = .malformed [] f) ∨ ∃ name, e = .undefinedType [] name := by
    rcases colons_cases s with plain | ⟨cs, colons⟩ | ⟨cs, colon, single⟩
    · rw [ofText_of_plain plain] at h
      cases h
    · rw [ofText_of_colons colons] at h
      cases h
    · rw [ofText_of_colon colon single] at h
      cases directive_eq_error_iff.mp h with
      | undefined => exact .inr ⟨_, rfl⟩
      | _ => exact .inl ⟨_, rfl⟩
  rcases hplace with ⟨f, rfl⟩ | ⟨name, rfl⟩
  · exact .text h
  · exact .typeName h

theorem compile_item_eq_error_iff :
    compile resolve (.array [d]) = .error e ↔ compile resolve d = .error e ∨
      ∃ item v, compile resolve d = .ok item ∧ item.declaredDefault = some v ∧
        e = .malformed [] .defaultOfItem := by
  rw [compile]
  cases compile resolve d with
  | error e' => simp [Except.bind]
  | ok item =>
    cases hv : item.declaredDefault <;> simp [Except.bind, ofItem, hv, @eq_comm _ e]

/-- A member whose value is refused makes the object fail with the error of the value. -/
theorem compile_object_of_value {before after : List (String × Json)} {ps : List (Property Template)}
    {key : PropertyKey} (hbefore : compile resolve (.object before) = .ok (.object none ps))
    (hk : PropertyKey.read s = .ok key) (h : compile resolve d = .error e) :
    compile resolve (.object (before ++ (s, d) :: after)) = .error (e.under (Words.first s)) :=
  compile_object_eq_error_iff.mpr (compileMembers_eq_error_iff.mpr ⟨before, (s, d), after, ps, rfl,
    compileMembers_of_compile hbefore, compileMember_eq_error_iff_fault.mpr (.inr ⟨key, e, hk, h, rfl⟩)⟩)

theorem AtFault.refused (h : AtFault resolve d e) : compile resolve d = .error e := by
  cases h with
  | text h => exact h
  | typeName h => exact h
  | defaultOfItem h hv => exact compile_item_eq_error_iff.mpr (.inr ⟨_, _, h, hv, rfl⟩)
  | severalItems d d' ds => rw [compile]
  | member hbefore h =>
    exact compile_object_eq_error_iff.mpr (compileMembers_eq_error_iff.mpr ⟨_, _, _, _, rfl,
      compileMembers_of_compile hbefore, compileMember_eq_error_iff_fault.mpr (.inl ⟨_, h, rfl⟩)⟩)

theorem AtFault.exists_path (h : AtFault resolve d e) : ∃ own, e.path? = some own := by
  cases h <;> exact ⟨_, rfl⟩

theorem Reaches.refused {path : Path} {d' : Json} (h : Reaches resolve d path d')
    (he : compile resolve d' = .error e) : compile resolve d = .error (e.within path) := by
  induction h with
  | here d => exact he
  | item _ ih => exact compile_item_eq_error_iff.mpr (.inl (ih he))
  | value hbefore hk _ ih => exact compile_object_of_value hbefore hk (ih he)

theorem exists_atFault (h : compile resolve d = .error e) :
    ∃ path d' e', Reaches resolve d path d' ∧ AtFault resolve d' e' ∧ e = e'.within path := by
  induction d generalizing e with
  | string s => exact ⟨[], _, e, .here _, atFault_of_ofText h, rfl⟩
  | array ds ih =>
    cases ds with
    | nil => cases h
    | cons d ds =>
      cases ds with
      | nil =>
        rcases compile_item_eq_error_iff.mp h with h | ⟨item, v, hi, hv, rfl⟩
        · obtain ⟨path, d', e', hreach, hfault, rfl⟩ := ih d List.mem_cons_self h
          exact ⟨path, d', e', .item hreach, hfault, rfl⟩
        · exact ⟨[], _, _, .here _, .defaultOfItem hi hv, rfl⟩
      | cons d' ds =>
        rw [compile] at h
        cases h
        exact ⟨[], _, _, .here _, .severalItems d d' ds, rfl⟩
  | object ms ih =>
    obtain ⟨before, ⟨s, d⟩, after, ps, rfl, hps, hm⟩ :=
      compileMembers_eq_error_iff.mp (compile_object_eq_error_iff.mp h)
    have hbefore : compile resolve (.object before) = .ok (.object none ps) :=
      compile_object_eq_ok_iff.mpr ⟨ps, hps, rfl⟩
    rcases compileMember_eq_error_iff_fault.mp hm with ⟨f, hf, rfl⟩ | ⟨key, e', hk, he, rfl⟩
    · exact ⟨[], _, _, .here _, .member hbefore hf, rfl⟩
    · obtain ⟨path, d', e'', hreach, hfault, rfl⟩ :=
        ih (s, d) (List.mem_append_right before List.mem_cons_self) he
      exact ⟨Words.first s :: path, d', e'', .value hbefore hk hreach, hfault, rfl⟩
  | _ => cases h

/-- Refusals are located: a definition is refused for its first fault in the order of the document, under
the path of first words that leads there. -/
theorem refusals_located (resolve : Resolver) :
    (∀ d e, compile resolve d = .error e ↔
      ∃ path d' e', Reaches resolve d path d' ∧ AtFault resolve d' e' ∧ e = e'.within path) ∧
    (∀ d e, compile resolve d = .error e →
      compile resolve (.array [d]) = .error e ∧ (∃ path, e.path? = some path) ∧
        ∀ before after ps s key, compile resolve (.object before) = .ok (.object none ps) →
          PropertyKey.read s = .ok key →
            compile resolve (.object (before ++ (s, d) :: after)) = .error (e.under (Words.first s)) ∧
              (e.under (Words.first s)).path? = e.path?.map (Words.first s :: ·)) ∧
    (∀ ms, (∃ e, compile resolve (.object ms) = .error e) ↔ ∃ before m after, ms = before ++ m :: after ∧
      ((∃ e, compile resolve (.object [m]) = .error e) ∨
        ∃ p, compile resolve (.object [m]) = .ok (.object none [p]) ∧
          ∃ m' ∈ before, ∃ p', compile resolve (.object [m']) = .ok (.object none [p']) ∧
            p'.name = p.name)) ∧
    (∀ ms e, compile resolve (.object ms) = .error e ↔ ∃ before m after ps, ms = before ++ m :: after ∧
      compile resolve (.object before) = .ok (.object none ps) ∧
        (compile resolve (.object [m]) = .error e ∨
          ∃ p, compile resolve (.object [m]) = .ok (.object none [p]) ∧ p.name ∈ ps.map (·.name) ∧
            e = .malformed [Words.first m.1] (.repeatedProperty p.name))) ∧
    (∀ s d e, compile resolve (.object [(s, d)]) = .error e ↔
      (∃ f, MemberFault resolve [] s d f ∧ e = .malformed [Words.first s] f) ∨
        ∃ key e', PropertyKey.read s = .ok key ∧ compile resolve d = .error e' ∧
          e = e'.under (Words.first s)) ∧
    ∀ ms ps, compile resolve (.object ms) = .ok (.object none ps) →
      ps.map (·.name) = ms.map fun m => Words.first m.1 := by
  refine ⟨fun d e => ⟨exists_atFault, ?_⟩, fun d e he => ⟨compile_item_eq_error_iff.mpr (.inl he), ?_, ?_⟩,
    fun ms => compile_object_fails_iff, fun ms e => compile_object_eq_error_iff_first,
    fun s d e => compile_single_eq_error_iff, fun ms ps => names_eq_first⟩
  · rintro ⟨path, d', e', hreach, hfault, rfl⟩
    exact hreach.refused hfault.refused
  · obtain ⟨path, d', e', -, hfault, rfl⟩ := exists_atFault he
    obtain ⟨own, hown⟩ := hfault.exists_path
    exact ⟨path ++ own, by rw [DefinitionError.path?_within, hown, Option.map_some]⟩
  · intro before after ps s key hbefore hk
    exact ⟨compile_object_of_value hbefore hk he, DefinitionError.path?_under _ e⟩

def unknownType : Json := .string ":integer"

/-- The fault stands behind a member that compiles, two keys deep. -/
theorem unknownType_refused_inside :
    compile TypeRef.builtin? unknownType = .error (.undefinedType [] "integer") ∧
      compile TypeRef.builtin? (.object [("id", .string ":int"),
          ("size  required", .object [("width nullable", .array [unknownType]), ("", .null)])]) =
        .error (.undefinedType ["size", "width"] "integer") := by
  obtain ⟨-, hinside, -⟩ := refusals_located TypeRef.builtin?
  have hunknown : compile TypeRef.builtin? unknownType = .error (.undefinedType [] "integer") := by
    with_unfolding_all rfl
  obtain ⟨hitem, -⟩ := hinside _ _ hunknown
  obtain ⟨-, -, hmember⟩ := hinside _ _ hitem
  obtain ⟨hwidth, -⟩ := hmember [] [("", .null)] [] "width nullable" ⟨"width", false, true, none⟩ rfl
    (by with_unfolding_all rfl)
  obtain ⟨-, -, hobject⟩ := hinside _ _ hwidth
  obtain ⟨hsize, -⟩ := hobject [("id", .string ":int")] [] [⟨"id", false, true, .value .int none⟩]
    "size  required" ⟨"size", true, false, none⟩ (by with_unfolding_all rfl) (by with_unfolding_all rfl)
  exact ⟨hunknown, hsize⟩

end Template

end Stencil
