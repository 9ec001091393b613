import Stencil.Proofs.CheckReport
import Stencil.Proofs.KeyForms
import Stencil.Proofs.Renaming

/-! Different ways of writing one default. It may stand behind the name of a property or behind the name of
its type, and the property is the same; a constant is the same as a directive for its type that has the
constant as its default. -/
namespace Stencil

namespace Words

variable {w : String}

theorem next_ofString_word (hw : IsWord w) : (ofString w).next = ⟨some w, []⟩ := by
  have hnext := next_ofChars blank_nil hw (.inl rfl)
  rwa [List.nil_append, List.append_nil, strip_nil] at hnext

/-- A word at the front of a line is read, and what stands behind the space is left. -/
theorem next_ofString_append (hw : IsWord w) (more : String) :
    (ofString (w ++ " " ++ more)).next = ⟨some w, (ofString more).rest⟩ := by
  have hnext : (ofChars ([] ++ w.toList ++ ' ' :: more.toList)).next = ⟨some w, strip (' ' :: more.toList)⟩ :=
    next_ofChars blank_nil hw (.inr rfl)
  rw [ofString, String.toList_append, String.toList_append, List.append_assoc]
  exact hnext

theorem default_isWord : IsWord "default" := by
  constructor <;> decide

theorem nullable_isWord : IsWord "nullable" := by
  constructor <;> decide

theorem append_default (s literal : String) :
    s ++ " default " ++ literal = s ++ " " ++ ("default" ++ " " ++ literal) := by
  have hspaced : " default " = " " ++ "default" ++ " " := by decide
  rw [hspaced]
  simp only [String.append_assoc]

end Words

open Words

namespace PropertyKey

variable {name : String} {w : Words}

theorem modifiers_of_end (h : w.current = none) : modifiers name w = .ok ⟨name, false, true, none⟩ := by
  simp [modifiers, accept, h]

theorem modifiers_of_default (h : w.current = some "default") :
    modifiers name w = w.literal.map fun v => ⟨name, false, true, some v⟩ := by
  simp [modifiers, accept, h]

/-- Where `required` is missing, `nullable` says nothing new. -/
theorem modifiers_of_nullable (h : w.current = some "nullable")
    (hnext : w.next.current = none ∨ w.next.current = some "default") :
    modifiers name w = modifiers name w.next := by
  rcases hnext with hnext | hnext <;> simp [modifiers, accept, h, hnext]

/-- A key that is only a name. -/
theorem read_word (hk : IsWord name) : read name = .ok ⟨name, false, true, none⟩ := by
  have hnext := next_ofString_word hk
  rw [read_of_name (congrArg Words.current hnext), hnext]
  exact modifiers_of_end rfl

/-- A key that is a name with more behind it. -/
theorem read_append (hk : IsWord name) (more : String) :
    read (name ++ " " ++ more) = modifiers name (ofString more).next := by
  have hnext := next_ofString_append hk more
  rw [read_of_name (congrArg Words.current hnext), hnext]
  rfl

theorem modifiers_default (literal : String) :
    modifiers name (ofString ("default" ++ " " ++ literal)).next =
      (ofString literal).literal.map fun v => ⟨name, false, true, some v⟩ := by
  have hnext := next_ofString_append default_isWord literal
  rw [modifiers_of_default (congrArg Words.current hnext), hnext]
  rfl

theorem read_default (hk : IsWord name) (literal : String) :
    read (name ++ " default " ++ literal) =
      (ofString literal).literal.map fun v => ⟨name, false, true, some v⟩ := by
  rw [append_default, read_append hk, modifiers_default]

theorem read_nullable (hk : IsWord name) : read (name ++ " nullable") = .ok ⟨name, false, true, none⟩ := by
  have hspaced : name ++ " nullable" = name ++ " " ++ "nullable" := by
    rw [String.append_assoc]
    rfl
  rw [hspaced, read_append hk, next_ofString_word nullable_isWord, modifiers_of_nullable rfl (.inl rfl)]
  exact modifiers_of_end rfl

theorem read_nullable_default (hk : IsWord name) (literal : String) :
    read (name ++ " nullable default " ++ literal) =
      (ofString literal).literal.map fun v => ⟨name, false, true, some v⟩ := by
  have hspaced : name ++ " nullable default " ++ literal =
      name ++ " " ++ ("nullable" ++ " " ++ ("default" ++ " " ++ literal)) := by
    have hwords : " nullable default " = " " ++ ("nullable" ++ (" " ++ ("default" ++ " "))) := by decide
    rw [hwords]
    simp only [String.append_assoc]
  have hdefault := next_ofString_append default_isWord literal
  have hnullable := next_ofString_append nullable_isWord ("default" ++ " " ++ literal)
  have hword : (⟨some "nullable", (ofString ("default" ++ " " ++ literal)).rest⟩ : Words).next.current =
      some "default" := congrArg Words.current hdefault
  rw [hspaced, read_append hk, hnullable, modifiers_of_nullable rfl (.inr hword)]
  exact modifiers_default literal

end PropertyKey

theorem TypeRef.setDefault_instantiate (ref : TypeRef) (v : Json) :
    (ref.instantiate none).setDefault v = ref.instantiate (some v) := by
  cases ref with
  | builtin tag => cases tag <;> rfl
  | defined d => rfl

theorem TypeRef.declaredDefault_instantiate (ref : TypeRef) (default? : Option Json) :
    (ref.instantiate default?).declaredDefault = default? := by
  cases ref with
  | builtin tag => cases tag <;> rfl
  | defined d => rfl

theorem TypeRef.tag_instantiate (ref : TypeRef) (default? : Option Json) :
    (ref.instantiate default?).tag = ref.tag := by
  cases ref with
  | builtin tag => cases tag <;> rfl
  | defined d => rfl

namespace Template

variable {resolve : Resolver} {key k name literal : String} {t : Template}

theorem typeNameAt_front (hname : IsTypeName name) {behind : List Char}
    (ends : behind = [] ∨ behind.head? = some ' ') {s : String} (hs : s.toList = ':' :: (name.toList ++ behind)) :
    TypeNameAt s [] name behind := ⟨hs, blank_nil, hname.1, ends, hname.2⟩

/-- A type name without a default. -/
theorem ofText_typeName (hname : IsTypeName name) :
    ofText resolve (":" ++ name) = .ok t ↔ ∃ ref, resolve name = some ref ∧ t = ref.instantiate none := by
  have hat : TypeNameAt (":" ++ name) [] name [] := typeNameAt_front hname (.inl rfl) (by simp)
  rw [ofText_of_typeNameAt hat]
  cases resolve name with
  | none => simp
  | some ref =>
    dsimp only
    rw [behindName_eq_ok_iff]
    simp [ofChars, strip_nil, Words.next]

/-- A type name with a default behind it. -/
theorem ofText_default (hname : IsTypeName name) (literal : String) :
    ofText resolve (":" ++ name ++ " default " ++ literal) = .ok t ↔ ∃ ref v, resolve name = some ref ∧
      (ofString literal).literal = .ok v ∧ ref.tag.accepts v = true ∧ t = ref.instantiate (some v) := by
  have hat : TypeNameAt (":" ++ name ++ " default " ++ literal) [] name
      (' ' :: ("default" ++ " " ++ literal).toList) := by
    refine typeNameAt_front hname (.inr rfl) ?_
    rw [append_default]
    simp
  have hbehind : (ofChars (' ' :: ("default" ++ " " ++ literal).toList)).next =
      ⟨some "default", (ofString literal).rest⟩ := next_ofString_append default_isWord literal
  have hliteral : Words.literal ⟨some "default", (ofString literal).rest⟩ = (ofString literal).literal := rfl
  rw [ofText_of_typeNameAt hat, hbehind]
  cases resolve name with
  | none => simp
  | some ref =>
    dsimp only
    rw [behindName_eq_ok_iff, hliteral]
    simp

/-- A property `k` that may be missing, of the type `name`, with the default that `literal` is the text of. -/
inductive Defaulted (resolve : Resolver) (k name literal : String) : Template → Prop
  | property {ref : TypeRef} {v : Json} (href : resolve name = some ref)
      (hv : (ofString literal).literal = .ok v) (ha : ref.tag.accepts v = true) :
      Defaulted resolve k name literal (.object none [⟨k, false, true, ref.instantiate (some v)⟩])

/-- With the default in the key, the node is made first and given its default later. -/
theorem compile_default_in_key (hname : IsTypeName name)
    (hread : PropertyKey.read key = (ofString literal).literal.map fun v => ⟨k, false, true, some v⟩) :
    compile resolve (.object [(key, .string (":" ++ name))]) = .ok t ↔ Defaulted resolve k name literal t := by
  have htype : compile resolve (.string (":" ++ name)) = ofText resolve (":" ++ name) := by rw [compile]
  rw [compile_single_eq_ok_iff]
  constructor
  · rintro ⟨_, u, w, p, hkey, hu, hw, hp, rfl⟩
    obtain ⟨v, hv, rfl⟩ := Except.map_eq_ok_iff.mp (hread.symm.trans hkey)
    obtain ⟨ref, href, rfl⟩ := (ofText_typeName hname).mp (htype.symm.trans hu)
    obtain ⟨hnone, -⟩ | ⟨v', hsome, -, -, ha, rfl⟩ := withDefault_eq_ok_iff.mp hw
    · cases hnone
    · cases hsome
      obtain ⟨-, -, rfl⟩ := declare_eq_ok_iff.mp hp
      rw [TypeRef.setDefault_instantiate]
      rw [TypeRef.tag_instantiate] at ha
      exact .property href hv ha
  · intro h
    cases h with
    | @property ref v href hv ha =>
      have hkey : PropertyKey.read key = .ok ⟨k, false, true, some v⟩ :=
        hread.trans (Except.map_eq_ok_iff.mpr ⟨v, hv, rfl⟩)
      have hu : compile resolve (.string (":" ++ name)) = .ok (ref.instantiate none) :=
        htype.trans ((ofText_typeName hname).mpr ⟨ref, href, rfl⟩)
      have hw : withDefault ⟨k, false, true, some v⟩ (ref.instantiate none) = .ok (ref.instantiate (some v)) := by
        have haccepts := (TypeRef.tag_instantiate ref none).symm ▸ ha
        exact withDefault_eq_ok_iff.mpr (.inr ⟨v, rfl, rfl, ref.declaredDefault_instantiate none, haccepts,
          (ref.setDefault_instantiate v).symm⟩)
      exact ⟨_, _, _, _, hkey, hu, hw, declare_eq_ok_iff.mpr ⟨fun _ => rfl, List.not_mem_nil, rfl⟩, rfl⟩

/-- With the default behind the type, the node is made with it. -/
theorem compile_default_in_type (hname : IsTypeName name)
    (hread : PropertyKey.read key = .ok ⟨k, false, true, none⟩) :
    compile resolve (.object [(key, .string (":" ++ name ++ " default " ++ literal))]) = .ok t ↔
      Defaulted resolve k name literal t := by
  have htype : compile resolve (.string (":" ++ name ++ " default " ++ literal)) =
      ofText resolve (":" ++ name ++ " default " ++ literal) := by rw [compile]
  rw [compile_single_eq_ok_iff]
  constructor
  · rintro ⟨_, u, w, p, hkey, hu, hw, hp, rfl⟩
    cases hread.symm.trans hkey
    obtain ⟨ref, v, href, hv, ha, rfl⟩ := (ofText_default hname literal).mp (htype.symm.trans hu)
    obtain ⟨-, rfl⟩ | ⟨v', hsome, -⟩ := withDefault_eq_ok_iff.mp hw
    · obtain ⟨-, -, rfl⟩ := declare_eq_ok_iff.mp hp
      exact .property href hv ha
    · cases hsome
  · intro h
    cases h with
    | @property ref v href hv ha =>
      exact ⟨_, _, _, _, hread, htype.trans ((ofText_default hname literal).mpr ⟨ref, v, href, hv, ha, rfl⟩),
        withDefault_eq_ok_iff.mpr (.inl ⟨rfl, rfl⟩),
        declare_eq_ok_iff.mpr ⟨fun _ => rfl, List.not_mem_nil, rfl⟩, rfl⟩

end Template

namespace Json

/-- A document without items and members, whose number, if it is one, is an integer of 64 bits. -/
inductive Scalar : Json → Prop
  | null : Scalar .null
  | bool (b : Bool) : Scalar (.bool b)
  | int {k : Int} (hk : Number.InRange k) : Scalar (.number (.int k))
  | string (s : String) : Scalar (.string s)

/-- How a scalar is written as a definition that is a constant. -/
def asConstant : Json → Json
  | .string s => .string (Template.escape s)
  | v => v

variable {v : Json}

theorem Scalar.legible (h : v.Scalar) : v.Legible maxDepth := by
  cases h with
  | null => exact .null
  | bool b => exact .bool b
  | int hk => exact .int hk
  | string s => exact .string s

theorem Scalar.keysDistinct (h : v.Scalar) : v.KeysDistinct := by
  cases h <;> simp

theorem Scalar.head?_compact (h : v.Scalar) : v.compact.toList.head? ≠ some ' ' := by
  obtain ⟨c, cs, hcs, hc⟩ := write_begins h.legible .compact 0 []
  rw [compact, String.toList_ofList, hcs]
  rintro ⟨⟩
  exact Bool.false_ne_true hc.symm

theorem Scalar.getLast?_compact (h : v.Scalar) : v.compact.toList.getLast? ≠ some ' ' := by
  rw [compact, String.toList_ofList]
  cases h with
  | null => decide
  | bool b => cases b <;> decide
  | @int k _ =>
    have htext : (Json.number (.int k)).write .compact 0 [] = (Number.int k).text.toList := List.append_nil _
    intro hlast
    rw [htext] at hlast
    exact absurd (mem_text_int (List.mem_of_getLast? hlast)).1 (by decide)
  | string s =>
    have htext : (Json.string s).write .compact 0 [] = quoted s := List.append_nil _
    rw [htext, quoted, List.getLast?_append_of_ne_nil _ (List.cons_ne_nil _ _)]
    decide

theorem Scalar.readAll_compact (h : v.Scalar) : readAll (Utf8.encode v.compact) = .ok v := by
  have hread := readAll_write h.legible h.keysDistinct .compact (.inl rfl)
  rwa [String.append_empty] at hread

/-- Behind `default`, a scalar is read back from its text. -/
theorem Scalar.literal (h : v.Scalar) : (ofString v.compact).literal = .ok v := by
  have hrest : (ofString v.compact).rest = v.compact.toList := strip_eq_self h.head?_compact h.getLast?_compact
  rw [literal_eq_ok_iff, hrest, String.ofList_toList]
  exact h.readAll_compact

theorem Scalar.compile_asConstant (h : v.Scalar) (resolve : Resolver) :
    Template.compile resolve v.asConstant = .ok (Template.constant v) := by
  cases h with
  | null => rfl
  | bool b => rfl
  | int _ => rfl
  | string s =>
    rw [asConstant, Template.compile]
    exact Template.ofText_escape s

theorem accepts_kind (v : Json) : (Tag.ofKind v.kind).accepts v = true := by
  simp [Tag.accepts, Tag.describes]

theorem Scalar.instantiate_kind (h : v.Scalar) :
    (TypeRef.builtin (Tag.ofKind v.kind)).instantiate (some v) = Template.constant v := by
  cases h <;> rfl

end Json

theorem Tag.isTypeName (tag : Tag) : IsTypeName tag.name := by
  cases tag <;> exact ⟨⟨by decide, by decide⟩, by decide⟩

/-- A definition of an object with one property `k` that may be missing, whose default stands behind its
name or behind its type. -/
def defaultForms (k name literal : String) : List Json :=
  [.object [(k ++ " default " ++ literal, .string (":" ++ name))],
    .object [(k, .string (":" ++ name ++ " default " ++ literal))],
    .object [(k ++ " nullable default " ++ literal, .string (":" ++ name))],
    .object [(k ++ " nullable", .string (":" ++ name ++ " default " ++ literal))]]

theorem compile_defaultForms {scope : Scope} {k name : String} (hk : IsWord k) (hname : IsTypeName name)
    {literal : String} {d : Json} (hd : d ∈ defaultForms k name literal) (t : Template) :
    scope.compile d = .ok t ↔ Template.Defaulted scope.resolve k name literal t := by
  simp only [defaultForms, List.mem_cons, List.not_mem_nil, or_false] at hd
  obtain rfl | rfl | rfl | rfl := hd
  · exact Template.compile_default_in_key hname (PropertyKey.read_default hk literal)
  · exact Template.compile_default_in_type hname (PropertyKey.read_word hk)
  · exact Template.compile_default_in_key hname (PropertyKey.read_nullable_default hk literal)
  · exact Template.compile_default_in_type hname (PropertyKey.read_nullable hk)

/-- The four forms of a default compile to one template, or none does. A scalar compiles as the directive
for its base type, if that name is free. -/
theorem default_forms_agree (scope : Scope) :
    (∀ k name literal, IsWord k → IsTypeName name → ∀ d ∈ defaultForms k name literal, ∀ t,
      (∀ d' ∈ defaultForms k name literal, scope.compile d = .ok t ↔ scope.compile d' = .ok t) ∧
      (scope.compile d = .ok t ↔ Template.Defaulted scope.resolve k name literal t)) ∧
    ∀ v : Json, v.Scalar → (∀ ns, scope = some ns → (Tag.ofKind v.kind).name ∉ ns.names) →
      scope.compile v.asConstant = .ok (.value (.ofKind v.kind) (some v)) ∧
      scope.compile (.string (":" ++ (Tag.ofKind v.kind).name ++ " default " ++ v.compact)) =
        scope.compile v.asConstant := by
  refine ⟨fun k name literal hk hname d hd t => ⟨fun d' hd' => ?_, compile_defaultForms hk hname hd t⟩,
    fun v hv free => ?_⟩
  · exact (compile_defaultForms hk hname hd t).trans (compile_defaultForms hk hname hd' t).symm
  · have hconstant : scope.compile v.asConstant = .ok (Template.constant v) :=
      hv.compile_asConstant scope.resolve
    have href : scope.resolve (Tag.ofKind v.kind).name = some (.builtin (.ofKind v.kind)) :=
      Scope.resolve_eq_some_iff.mpr (.builtin _ free)
    refine ⟨hconstant, ?_⟩
    rw [hconstant, Scope.compile, Template.compile]
    exact (Template.ofText_default (Tag.isTypeName _) v.compact).mpr
      ⟨_, v, href, hv.literal, v.accepts_kind, hv.instantiate_kind.symm⟩

/-- The forms where the name `string` is bound to the integers, and those for a text with quotes and a
space at its end. -/
theorem size_forms_agree :
    (∀ d ∈ defaultForms "size" "string" " 5 ", Scope.compile Template.relabelled d =
      .ok (.object none [⟨"size", false, true, .value .int (some (.number (.int 5)))⟩])) ∧
    Scope.compile none (.string ":string default \"::\\\"x\\\" \"") =
      Scope.compile none (.string ":::\"x\" ") := by
  have hliteral : (ofString " 5 ").literal = .ok (.number (.int 5)) := by
    with_unfolding_all rfl
  obtain ⟨hforms, -⟩ := default_forms_agree Template.relabelled
  obtain ⟨-, hscalar⟩ := default_forms_agree none
  constructor
  · intro d hd
    obtain ⟨-, hdefault⟩ := hforms "size" "string" " 5 " ⟨by decide, by decide⟩
      ⟨⟨by decide, by decide⟩, by decide⟩ d hd _
    exact hdefault.mpr (.property Template.relabelled_string hliteral rfl)
  · obtain ⟨-, hconstant⟩ := hscalar (.string "::\"x\" ") (.string _) (fun ns h => nomatch h)
    exact hconstant

end Stencil
