import Stencil.Proofs.Derivations
import Stencil.Proofs.Runs

/-! What a string is as a definition: a constant, unless a single colon stands in front; then a directive,
which names a type and may give it a default. A directive is accepted if and only if it has the form of one,
and refused for the first thing that is wrong with it. Every text can be written as a constant. -/
namespace Stencil

/-- Where type names are looked up: in a namespace, or among the built-in types alone. -/
abbrev Scope := Option Namespace

theorem Tag.ofName?_eq_some_iff {name : String} {tag : Tag} : ofName? name = some tag ↔ tag.name = name := by
  constructor
  · intro h
    rw [ofName?] at h
    simpa using List.find?_some h
  · rintro rfl
    exact ofName?_name tag

namespace Scope

def resolve : Scope → Resolver
  | none => TypeRef.builtin?
  | some ns => ns.resolve

def compile (scope : Scope) (definition : Json) : Except DefinitionError Template :=
  Template.compile scope.resolve definition

/-- What a type name means: what the namespace binds it to, else the built-in type of that name. -/
inductive Means (scope : Scope) : String → TypeRef → Prop
  | bound {ns : Namespace} {name : String} {ref : TypeRef} (within : scope = some ns)
      (h : Entries.get? ns.bindings name = some ref) : Means scope name ref
  | builtin (tag : Tag) (free : ∀ ns, scope = some ns → tag.name ∉ ns.names) :
      Means scope tag.name (.builtin tag)

variable {scope : Scope} {name : String} {ref : TypeRef}

theorem builtin?_eq_some_iff :
    TypeRef.builtin? name = some ref ↔ ∃ tag : Tag, tag.name = name ∧ ref = .builtin tag := by
  rw [TypeRef.builtin?, Option.map_eq_some_iff]
  simp only [Tag.ofName?_eq_some_iff, @eq_comm _ ref]

theorem resolve_eq_some_iff : scope.resolve name = some ref ↔ scope.Means name ref := by
  cases scope with
  | none =>
    rw [resolve, builtin?_eq_some_iff]
    constructor
    · rintro ⟨tag, rfl, rfl⟩
      exact .builtin tag fun ns h => nomatch h
    · intro h
      cases h with
      | bound within => cases within
      | builtin tag => exact ⟨tag, rfl, rfl⟩
  | some ns =>
    rw [resolve, Namespace.resolve_eq, Option.or_eq_some_iff, builtin?_eq_some_iff, Entries.get?_eq_none_iff]
    constructor
    · rintro (h | ⟨h, tag, rfl, rfl⟩)
      · exact .bound rfl h
      · exact .builtin tag fun ns' hns => Option.some.inj hns ▸ h
    · intro h
      cases h with
      | bound within h =>
        cases within
        exact .inl h
      | builtin tag free => exact .inr ⟨free ns rfl, tag, rfl, rfl⟩

end Scope

namespace Words

theorem strip_nil : strip [] = [] := rfl

theorem IsWord.getLast? {w : String} (h : IsWord w) : w.toList.getLast? ≠ some ' ' := by
  intro hlast
  exact h.2 (List.mem_of_getLast? hlast)

/-- Reading finds the first word behind any spaces, and keeps what stands behind it without the spaces at
its ends. -/
theorem next_ofChars {before behind : List Char} {w : String} (hbefore : Blank before) (hw : IsWord w)
    (hbehind : behind = [] ∨ behind.head? = some ' ') :
    (ofChars (before ++ w.toList ++ behind)).next = ⟨some w, strip behind⟩ := by
  obtain ⟨c, cs, hcs, hc⟩ := hw.exists_cons
  obtain ⟨gap, after, hsplit, hgap, hafter⟩ := exists_padding behind
  by_cases hnil : strip behind = []
  · have hblank : Blank behind := by
      rw [hsplit, hnil, List.append_nil]
      exact List.forall_mem_append.mpr ⟨hgap, hafter⟩
    have hnext := next_append (c := none) (r := []) hw (.inl rfl)
    rw [List.append_nil] at hnext
    rw [ofChars, strip_padded hbefore hblank (by simp [hcs, hc]) hw.getLast?, hnext, hnil, strip_nil]
  · have hlast : (w.toList ++ (gap ++ strip behind)).getLast? ≠ some ' ' := by
      rw [List.getLast?_append_of_ne_nil _ (by simp [hnil]), List.getLast?_append_of_ne_nil _ hnil]
      exact getLast?_strip behind
    have hhead : (gap ++ strip behind).head? = some ' ' := by
      have hne : behind ≠ [] := fun h => hnil (h ▸ strip_nil)
      have hfront := hbehind.resolve_left hne
      rw [hsplit, List.head?_append_of_ne_nil _ (by simp [hnil])] at hfront
      exact hfront
    have hline : before ++ w.toList ++ behind = before ++ (w.toList ++ (gap ++ strip behind)) ++ after := by
      conv_lhs => rw [hsplit]
      simp only [List.append_assoc]
    have hrest : strip (gap ++ strip behind) = strip behind := by
      have hstrip := strip_padded hgap blank_nil (head?_strip behind) (getLast?_strip behind)
      rwa [List.append_nil] at hstrip
    rw [ofChars, hline, strip_padded hbefore hafter (by simp [hcs, hc]) hlast, next_append hw (.inr hhead), hrest]

theorem literal_eq_error_iff {v : Words} {fault : SyntaxFault} :
    v.literal = .error fault ↔ (v.rest = [] ∧ fault = .missingDefault) ∨
      ∃ e, v.rest ≠ [] ∧ Json.readAll (Utf8.encode (String.ofList v.rest)) = .error e ∧
        fault = .invalidDefault (String.ofList v.rest) e := by
  cases hrest : v.rest with
  | nil => simp [literal, remainder?, hrest, eq_comm]
  | cons c r =>
    have hliteral : v.literal = (Json.readAll (Utf8.encode (String.ofList (c :: r)))).mapError
        (.invalidDefault (String.ofList (c :: r))) := by
      rw [literal, remainder?, hrest]
      rfl
    rw [hliteral]
    generalize String.ofList (c :: r) = text
    cases Json.readAll (Utf8.encode text) <;> simp [Except.mapError, @eq_comm _ fault]

end Words

namespace Template

open Words

variable {resolve : Resolver} {s : String}

/-- What is wrong with a directive, its colon left out: its type, the word behind it, or its default. -/
inductive DirectiveFault (resolve : Resolver) (s : String) : DefinitionError → Prop
  | blank (h : Blank s.toList) : DirectiveFault resolve s (.malformed [] .noTypeName)
  | undefined {name : String} {rest : List Char} (h : Splits s [name] rest) (href : resolve name = none) :
      DirectiveFault resolve s (.undefinedType [] name)
  | unexpected {name word : String} {rest : List Char} {ref : TypeRef} (h : Splits s [name, word] rest)
      (href : resolve name = some ref) (hword : word ≠ "default") :
      DirectiveFault resolve s (.malformed [] (.unexpectedToken word))
  | missing {name : String} {ref : TypeRef} (h : Splits s [name, "default"] [])
      (href : resolve name = some ref) : DirectiveFault resolve s (.malformed [] .missingDefault)
  | invalid {name : String} {literal : List Char} {ref : TypeRef} {e : ReadError}
      (h : Splits s [name, "default"] literal) (hne : literal ≠ []) (href : resolve name = some ref)
      (he : Json.readAll (Utf8.encode (String.ofList literal)) = .error e) :
      DirectiveFault resolve s (.malformed [] (.invalidDefault (String.ofList literal) e))
  | conflicting {name : String} {literal : List Char} {ref : TypeRef} {v : Json}
      (h : Splits s [name, "default"] literal) (href : resolve name = some ref)
      (hv : Json.readAll (Utf8.encode (String.ofList literal)) = .ok v) (ha : ref.tag.accepts v = false) :
      DirectiveFault resolve s (.malformed [] (.conflictingDefault ref.tag))

theorem directive_eq_error_iff {e : DefinitionError} :
    directive resolve s = .error e ↔ DirectiveFault resolve s e := by
  constructor
  · intro h
    cases hname : (ofString s).next.current with
    | none =>
      rw [directive_of_blank hname] at h
      cases h
      exact .blank (rest_ofString_eq_nil_iff.mp (current_next_eq_none_iff.mp hname))
    | some name =>
      rw [directive_of_name hname] at h
      cases href : resolve name with
      | none =>
        rw [href] at h
        cases h
        exact .undefined (splits_word_iff.mpr ⟨hname, rfl⟩) href
      | some ref =>
        simp only [href] at h
        cases hword : (ofString s).next.next.current with
        | none =>
          rw [behindName_of_end hword] at h
          cases h
        | some word =>
          have hsplit := splits_words_iff.mpr ⟨hname, hword, rfl⟩
          by_cases hdefault : word = "default"
          · subst hdefault
            rw [behindName_of_default hword] at h
            cases hlit : (ofString s).next.next.literal with
            | error fault =>
              rw [hlit] at h
              cases h
              obtain ⟨hnil, rfl⟩ | ⟨e, hne, he, rfl⟩ := literal_eq_error_iff.mp hlit
              · exact .missing (hnil ▸ hsplit) href
              · exact .invalid hsplit hne href he
            | ok v =>
              simp only [hlit] at h
              split at h
              · cases h
              · rename_i ha
                cases h
                exact .conflicting hsplit href (literal_eq_ok_iff.mp hlit) (Bool.eq_false_iff.mpr ha)
          · rw [behindName_of_other hword hdefault] at h
            cases h
            exact .unexpected hsplit href hdefault
  · intro h
    cases h with
    | blank h =>
      exact directive_of_blank (current_next_eq_none_iff.mpr (rest_ofString_eq_nil_iff.mpr h))
    | undefined h href =>
      rw [directive_of_name (splits_word_iff.mp h).1, href]
    | unexpected h href hword =>
      obtain ⟨hname, hnext, -⟩ := splits_words_iff.mp h
      rw [directive_of_name hname, href]
      exact behindName_of_other hnext hword
    | missing h href =>
      obtain ⟨hname, hnext, hrest⟩ := splits_words_iff.mp h
      rw [directive_of_name hname, href]
      dsimp only
      rw [behindName_of_default hnext, literal_eq_error_iff.mpr (.inl ⟨hrest, rfl⟩)]
    | invalid h hne href he =>
      obtain ⟨hname, hnext, rfl⟩ := splits_words_iff.mp h
      rw [directive_of_name hname, href]
      dsimp only
      rw [behindName_of_default hnext, literal_eq_error_iff.mpr (.inr ⟨_, hne, he, rfl⟩)]
    | conflicting h href hv ha =>
      obtain ⟨hname, hnext, rfl⟩ := splits_words_iff.mp h
      rw [directive_of_name hname, href]
      dsimp only
      rw [behindName_of_default hnext, literal_eq_ok_iff.mpr hv]
      dsimp only
      rw [if_neg (Bool.eq_false_iff.mp ha)]

/-- How the text `t` is written as a definition: a colon in front is doubled. -/
def escape (t : String) : String := if t.toList.head? = some ':' then ":" ++ t else t

theorem ofText_escape (t : String) : ofText resolve (escape t) = .ok (constant (.string t)) := by
  unfold escape
  split
  · rename_i hcolon
    obtain ⟨cs, hcs⟩ := List.head?_eq_some_iff.mp hcolon
    have hcolons : (":" ++ t).toList = ':' :: ':' :: cs := by rw [String.toList_append, hcs]; rfl
    rw [ofText_of_colons hcolons, ← hcs, String.ofList_toList]
  · rename_i hplain
    exact ofText_of_plain hplain

/-- Strings are recognised exactly, whatever type names mean: constants by their colons, directives by
their form, and refusals by their first fault. -/
theorem strings_recognised (scope : Scope) :
    (∀ name ref, scope.resolve name = some ref ↔ scope.Means name ref) ∧
    (∀ s : String, s.toList.head? ≠ some ':' →
      scope.compile (.string s) = .ok (.value .string (some (.string s)))) ∧
    (∀ (s : String) cs, s.toList = ':' :: ':' :: cs →
      scope.compile (.string s) = .ok (.value .string (some (.string (String.ofList (':' :: cs)))))) ∧
    (∀ (s : String) cs, s.toList = ':' :: cs → cs.head? ≠ some ':' →
      (∀ t, scope.compile (.string s) = .ok t ↔ Directive scope.resolve (String.ofList cs) t) ∧
      (∀ e, scope.compile (.string s) = .error e ↔ DirectiveFault scope.resolve (String.ofList cs) e) ∧
      ∀ name rest, Splits (String.ofList cs) [name] rest → (∀ ref, ¬ scope.Means name ref) →
        scope.compile (.string s) = .error (.undefinedType [] name)) ∧
    ∀ t : String, scope.compile (.string (escape t)) = .ok (.value .string (some (.string t))) ∧
      (Template.value .string (some (.string t))).default? = some (.string t) := by
  have hcompile : ∀ s, scope.compile (.string s) = ofText scope.resolve s := fun s => by
    rw [Scope.compile, Template.compile]
  simp only [hcompile]
  refine ⟨fun name ref => Scope.resolve_eq_some_iff, fun s => ofText_of_plain, fun s cs => ofText_of_colons,
    fun s cs hcs single => ?_, fun t => ⟨ofText_escape t, rfl⟩⟩
  rw [ofText_of_colon hcs single]
  refine ⟨fun t => directive_eq_ok_iff, fun e => directive_eq_error_iff, fun name rest hsplit hnone => ?_⟩
  refine directive_eq_error_iff.mpr (.undefined hsplit ?_)
  rw [Option.eq_none_iff_forall_ne_some]
  exact fun ref href => hnone ref (Scope.resolve_eq_some_iff.mp href)

/-- Here `string` is another name for the integers. -/
def relabelled : Scope := some ⟨[("string", .builtin .int)]⟩

/-- The name of a type may start with a colon, if there is a space in front of it. -/
def spacedName : String := ": :x  defalt"

theorem spacedName_splits : Splits (String.ofList " :x  defalt".toList) [":x"] "defalt".toList :=
  splits_word_iff.mpr ⟨rfl, rfl⟩

theorem relabelled_string : Scope.resolve relabelled "string" = some (.builtin .int) :=
  Scope.resolve_eq_some_iff.mpr (.bound rfl rfl)

theorem relabelled_recognised :
    (spacedName.toList = ':' :: " :x  defalt".toList ∧ " :x  defalt".toList.head? ≠ some ':' ∧
      (∀ ref, ¬ Scope.Means relabelled ":x" ref) ∧
      Scope.compile relabelled (.string spacedName) = .error (.undefinedType [] ":x")) ∧
    Scope.compile relabelled (.string ":string  default 5 ") = .ok (.value .int (some (.number (.int 5)))) ∧
    Scope.compile relabelled (.string ":string default true") =
      .error (.malformed [] (.conflictingDefault .int)) ∧
    Scope.compile relabelled (.string "::string") = .ok (.value .string (some (.string ":string"))) := by
  obtain ⟨hmeans, -, hescaped, hdirective, -⟩ := strings_recognised relabelled
  have hfree : ∀ ref, ¬ Scope.Means relabelled ":x" ref := by
    intro ref href
    have hresolve : Scope.resolve relabelled ":x" = some ref := (hmeans ":x" ref).mpr href
    cases hresolve
  have hnumber : Json.readAll (Utf8.encode (String.ofList ['5'])) = .ok (.number (.int 5)) := by
    with_unfolding_all rfl
  have htrue : Json.readAll (Utf8.encode (String.ofList "true".toList)) = .ok (.bool true) := by
    with_unfolding_all rfl
  obtain ⟨-, -, hundefined⟩ := hdirective spacedName " :x  defalt".toList rfl (by decide)
  obtain ⟨hok, -, -⟩ := hdirective ":string  default 5 " "string  default 5 ".toList rfl (by decide)
  obtain ⟨-, herror, -⟩ := hdirective ":string default true" "string default true".toList rfl (by decide)
  refine ⟨⟨rfl, by decide, hfree, hundefined _ _ spacedName_splits hfree⟩, ?_, ?_,
    hescaped "::string" "string".toList rfl⟩
  · exact (hok _).mpr (.withDefault (splits_words_iff.mpr ⟨rfl, rfl, rfl⟩) relabelled_string hnumber rfl)
  · exact (herror _).mpr (.conflicting (splits_words_iff.mpr ⟨rfl, rfl, rfl⟩) relabelled_string htrue rfl)

end Template

end Stencil
