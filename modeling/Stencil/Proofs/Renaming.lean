import Stencil.Proofs.Directives
import Stencil.Proofs.Provenance
import Stencil.Proofs.Refusals

/-! Type names in definitions. They stand behind a single colon; whatever else is written in a definition is
no type name. Compiling sees a name only through what it means: with other names of the same meaning, and in
another scope, a definition compiles to the same template, or is refused alike. -/
namespace Stencil

open Words

/-- The string `s` is a directive: a colon, spaces, the name of a type, and what stands behind it. -/
structure TypeNameAt (s : String) (before : List Char) (name : String) (behind : List Char) : Prop where
  text : s.toList = ':' :: (before ++ name.toList ++ behind)
  blank : Blank before
  word : IsWord name
  ends : behind = [] ∨ behind.head? = some ' '
  single : (before ++ name.toList).head? ≠ some ':'

/-- The string `s` is a constant, or a colon with nothing but spaces behind it. -/
def Nameless (s : String) : Prop := ∀ before name behind, ¬ TypeNameAt s before name behind

/-- What can be written behind a single colon as the name of a type. -/
def IsTypeName (name : String) : Prop := IsWord name ∧ name.toList.head? ≠ some ':'

variable {r : String → String} {s name : String} {before behind : List Char}

theorem TypeNameAt.colon {s name : String} {before behind : List Char} (h : TypeNameAt s before name behind) :
    (before ++ name.toList ++ behind).head? ≠ some ':' := by
  obtain ⟨c, cs, hcs, -⟩ := h.word.exists_cons
  rw [List.head?_append_of_ne_nil _ (by simp [hcs])]
  exact h.single

/-- Behind a single colon there is a type name, unless there are only spaces. -/
theorem typeNameAt_of_colon {cs : List Char} (hs : s.toList = ':' :: cs) (single : cs.head? ≠ some ':')
    (h : ¬ Blank cs) :
    TypeNameAt s (cs.takeWhile isSpace) (String.ofList ((cs.dropWhile isSpace).takeWhile (!isSpace ·)))
      ((cs.dropWhile isSpace).dropWhile (!isSpace ·)) := by
  have hword : IsWord (String.ofList ((cs.dropWhile isSpace).takeWhile (!isSpace ·))) := by
    cases hdrop : cs.dropWhile isSpace with
    | nil => exact absurd (fun c hc => isSpace_iff.mp (List.dropWhile_eq_nil_iff.mp hdrop c hc)) h
    | cons c r =>
      have hhead := List.head?_dropWhile_not isSpace cs
      rw [hdrop] at hhead
      refine isWord_takeWhile r fun hc => ?_
      subst hc
      exact Bool.false_ne_true hhead.symm
  obtain ⟨c, r, hc, -⟩ := hword.exists_cons
  have hline : cs = cs.takeWhile isSpace ++ (cs.dropWhile isSpace).takeWhile (!isSpace ·) ++
      (cs.dropWhile isSpace).dropWhile (!isSpace ·) := by
    rw [List.append_assoc, List.takeWhile_append_dropWhile, List.takeWhile_append_dropWhile]
  refine ⟨?_, fun c hc => isSpace_iff.mp (List.mem_takeWhile_imp hc), hword, ?_, ?_⟩
  · rw [String.toList_ofList, ← hline, hs]
  · have hhead := List.head?_dropWhile_not (!isSpace ·) (cs.dropWhile isSpace)
    cases hbehind : (cs.dropWhile isSpace).dropWhile (!isSpace ·) with
    | nil => exact .inl rfl
    | cons c r =>
      rw [hbehind] at hhead
      exact .inr (congrArg some (isSpace_iff.mp (by simpa using hhead)))
  · rw [String.toList_ofList] at hc ⊢
    rwa [hline, List.head?_append_of_ne_nil _ (by simp [hc])] at single

/-- The string `s` with another name in the place of its type name. -/
def renameText (r : String → String) (s : String) : String :=
  let cs := s.toList.drop 1
  let name := (cs.dropWhile isSpace).takeWhile (!isSpace ·)
  if s.toList.head? = some ':' ∧ cs.head? ≠ some ':' ∧ name ≠ [] then
    String.ofList (':' :: (cs.takeWhile isSpace ++ (r (String.ofList name)).toList ++
      (cs.dropWhile isSpace).dropWhile (!isSpace ·)))
  else s

theorem toList_renameText (h : TypeNameAt s before name behind) :
    (renameText r s).toList = ':' :: (before ++ (r name).toList ++ behind) := by
  obtain ⟨c, cs, hcs, hc⟩ := h.word.exists_cons
  obtain ⟨hname, hbehind⟩ := h.word.takeWhile_append h.ends
  have hdrop : (before ++ name.toList ++ behind).dropWhile isSpace = name.toList ++ behind := by
    rw [List.append_assoc, dropWhile_isSpace_append h.blank, dropWhile_isSpace_of_head (by simp [hcs, hc])]
  have hbefore : (before ++ name.toList ++ behind).takeWhile isSpace = before := by
    have hback := List.takeWhile_append_dropWhile (p := isSpace) (l := before ++ name.toList ++ behind)
    rw [hdrop] at hback
    exact List.append_cancel_right (hback.trans (List.append_assoc _ _ _))
  have hne : name.toList ≠ [] := by simp [hcs]
  simp only [renameText, h.text, List.drop_one, List.tail_cons, hdrop, hbefore, hname, hbehind,
    String.ofList_toList]
  rw [if_pos ⟨rfl, h.colon, hne⟩, String.toList_ofList]

theorem renameText_of_nameless (h : Nameless s) : renameText r s = s := by
  refine if_neg ?_
  rintro ⟨hhead, single, hne⟩
  obtain ⟨cs, hs⟩ := List.head?_eq_some_iff.mp hhead
  rw [hs, List.drop_one, List.tail_cons] at single hne
  refine h _ _ _ (typeNameAt_of_colon hs single fun hblank => hne ?_)
  rw [List.dropWhile_eq_nil_iff.mpr fun c hc => isSpace_iff.mpr (hblank c hc)]
  rfl

theorem TypeNameAt.rename (h : TypeNameAt s before name behind) (hr : IsTypeName (r name) ∨ r name = name) :
    TypeNameAt (renameText r s) before (r name) behind := by
  rcases hr with ⟨hword, hplain⟩ | hsame
  · refine ⟨toList_renameText h, h.blank, hword, h.ends, ?_⟩
    cases before with
    | nil => exact hplain
    | cons c before =>
      obtain rfl : c = ' ' := h.blank c List.mem_cons_self
      simp
  · rw [hsame]
    exact ⟨hsame ▸ toList_renameText h, h.blank, h.word, h.ends, h.single⟩

/-- Somewhere in the definition a directive names the type. -/
inductive Json.UsesType (name : String) : Json → Prop
  | text {s : String} {before behind : List Char} (h : TypeNameAt s before name behind) :
      UsesType name (.string s)
  | item {ds : List Json} {d : Json} (hd : d ∈ ds) (h : UsesType name d) : UsesType name (.array ds)
  | member {ms : List (String × Json)} {m : String × Json} (hm : m ∈ ms) (h : UsesType name m.2) :
      UsesType name (.object ms)

mutual

/-- The definition with other names in the places of its type names. -/
def Json.renameTypes (r : String → String) : Json → Json
  | .string s => .string (renameText r s)
  | .array ds => .array (renameItems r ds)
  | .object ms => .object (renameMembers r ms)
  | d => d

def Json.renameItems (r : String → String) : List Json → List Json
  | [] => []
  | d :: ds => d.renameTypes r :: renameItems r ds

def Json.renameMembers (r : String → String) : List (String × Json) → List (String × Json)
  | [] => []
  | (key, d) :: ms => (key, d.renameTypes r) :: renameMembers r ms

end

mutual

/-- The definitions are the same but for names of types, where `R` relates one to the other. -/
inductive Respelled (R : String → String → Prop) : Json → Json → Prop
  | null : Respelled R .null .null
  | bool (b : Bool) : Respelled R (.bool b) (.bool b)
  | number (n : Number) : Respelled R (.number n) (.number n)
  | text {s : String} (h : Nameless s) : Respelled R (.string s) (.string s)
  | directive {s s' : String} {before behind : List Char} {name name' : String}
      (h : TypeNameAt s before name behind) (h' : TypeNameAt s' before name' behind) (hR : R name name') :
      Respelled R (.string s) (.string s')
  | array {ds ds' : List Json} (h : List.Forall₂ (Respelled R) ds ds') : Respelled R (.array ds) (.array ds')
  | object {ms ms' : List (String × Json)} (h : List.Forall₂ (RespelledMember R) ms ms') :
      Respelled R (.object ms) (.object ms')

inductive RespelledMember (R : String → String → Prop) : String × Json → String × Json → Prop
  | value {key : String} {d d' : Json} (h : Respelled R d d') : RespelledMember R (key, d) (key, d')

end

theorem renameItems_eq_map (ds : List Json) : Json.renameItems r ds = ds.map (Json.renameTypes r) := by
  induction ds with
  | nil => rfl
  | cons d ds ih => rw [Json.renameItems, ih, List.map_cons]

theorem renameMembers_eq_map (ms : List (String × Json)) :
    Json.renameMembers r ms = ms.map fun m => (m.1, m.2.renameTypes r) := by
  induction ms with
  | nil => rfl
  | cons m ms ih => rw [Json.renameMembers, ih, List.map_cons]

/-- A definition whose type names are changed is spelled differently in them alone. -/
theorem respelled_renameTypes {R : String → String → Prop} {d : Json}
    (h : ∀ name, d.UsesType name → (IsTypeName (r name) ∨ r name = name) ∧ R name (r name)) :
    Respelled R d (d.renameTypes r) := by
  induction d with
  | null => exact .null
  | bool b => exact .bool b
  | number n => exact .number n
  | string s =>
    rw [Json.renameTypes]
    by_cases hname : Nameless s
    · rw [renameText_of_nameless hname]
      exact .text hname
    · simp only [Nameless, not_forall, not_not] at hname
      obtain ⟨before, name, behind, hat⟩ := hname
      obtain ⟨hr, hR⟩ := h name (.text hat)
      exact .directive hat (hat.rename hr) hR
  | array ds ih =>
    rw [Json.renameTypes, renameItems_eq_map]
    refine .array (List.forall₂_map_right_iff.mpr (List.forall₂_same.mpr fun d hd => ?_))
    exact ih d hd fun name hname => h name (.item hd hname)
  | object ms ih =>
    rw [Json.renameTypes, renameMembers_eq_map]
    refine .object (List.forall₂_map_right_iff.mpr (List.forall₂_same.mpr fun m hm => ?_))
    exact .value (ih m hm fun name hname => h name (.member hm hname))

/-- Names that are left alone are left in their places. -/
theorem renameTypes_eq_self {d : Json} (h : ∀ name, d.UsesType name → r name = name) : d.renameTypes r = d := by
  induction d with
  | null => rfl
  | bool b => rfl
  | number n => rfl
  | string s =>
    rw [Json.renameTypes]
    by_cases hname : Nameless s
    · rw [renameText_of_nameless hname]
    · simp only [Nameless, not_forall, not_not] at hname
      obtain ⟨before, name, behind, hat⟩ := hname
      have htext := toList_renameText (r := r) hat
      rw [h name (.text hat), ← hat.text] at htext
      rw [String.toList_inj.mp htext]
  | array ds ih =>
    rw [Json.renameTypes, renameItems_eq_map]
    refine congrArg Json.array ((List.map_congr_left fun d hd => ?_).trans (List.map_id ds))
    exact ih d hd fun name hname => h name (.item hd hname)
  | object ms ih =>
    rw [Json.renameTypes, renameMembers_eq_map]
    refine congrArg Json.object ((List.map_congr_left fun m hm => ?_).trans (List.map_id ms))
    exact Prod.ext rfl (ih m hm fun name hname => h name (.member hm hname))

/-- The same refusal, but for the name of a type that is not defined. -/
inductive DefinitionError.Respelled (R : String → String → Prop) : DefinitionError → DefinitionError → Prop
  | malformed (path : Path) (fault : SyntaxFault) : Respelled R (.malformed path fault) (.malformed path fault)
  | undefinedType (path : Path) {name name' : String} (h : R name name') :
      Respelled R (.undefinedType path name) (.undefinedType path name')

/-- The refusal with another name in the place of a type that is not defined. -/
def DefinitionError.rename (r : String → String) : DefinitionError → DefinitionError
  | .undefinedType path name => .undefinedType path (r name)
  | e => e

/-- Results that are equal but for undefined names, where those are renamed by `r`. -/
theorem eq_mapError_of_related {α : Type} {R : String → String → Prop} {x y : Except DefinitionError α}
    (h : Except.Related (DefinitionError.Respelled R) Eq x y) (hR : ∀ name name', R name name' → name' = r name) :
    y = x.mapError (·.rename r) := by
  cases h with
  | ok h =>
    rw [h]
    rfl
  | error he =>
    cases he with
    | malformed path fault => rfl
    | undefinedType path h =>
      rw [hR _ _ h]
      rfl

theorem eq_of_related {α : Type} {R : String → String → Prop} {x y : Except DefinitionError α}
    (h : Except.Related (DefinitionError.Respelled R) Eq x y) (hR : ∀ name name', R name name' → name' = name) :
    y = x := by
  rw [eq_mapError_of_related (r := id) h hR]
  cases x with
  | ok a => rfl
  | error e => cases e <;> rfl

namespace Template

variable {resolve resolve' : Resolver} {R : String → String → Prop}

/-- What a directive compiles to depends on its type name only by what the name means. -/
theorem ofText_of_typeNameAt (h : TypeNameAt s before name behind) :
    ofText resolve s = match resolve name with
      | none => .error (.undefinedType [] name)
      | some ref => behindName ref (ofChars behind).next := by
  have hnext : (ofString (String.ofList (before ++ name.toList ++ behind))).next = ⟨some name, strip behind⟩ := by
    rw [ofString, String.toList_ofList, next_ofChars h.blank h.word h.ends]
  rw [ofText_of_colon h.text h.colon, directive_of_name (congrArg Words.current hnext), hnext]
  rfl

/-- Without a type name, a string is the same constant or the same refusal whatever type names mean. -/
theorem ofText_of_nameless (h : Nameless s) :
    (∃ t, ∀ resolve, ofText resolve s = .ok t) ∨
      ∀ resolve, ofText resolve s = .error (.malformed [] .noTypeName) := by
  rcases colons_cases s with plain | ⟨cs, colons⟩ | ⟨cs, colon, single⟩
  · exact .inl ⟨_, fun resolve => ofText_of_plain plain⟩
  · exact .inl ⟨_, fun resolve => ofText_of_colons colons⟩
  · have hblank : Blank cs := by
      by_contra hne
      exact h _ _ _ (typeNameAt_of_colon colon single hne)
    refine .inr fun resolve => ?_
    rw [ofText_of_colon colon single]
    exact directive_eq_error_iff.mpr (.blank (String.toList_ofList.symm ▸ hblank))

theorem related_malformed {α : Type} (path : Path) (x : Except SyntaxFault α) :
    Except.Related (DefinitionError.Respelled R) Eq (x.mapError (.malformed path))
      (x.mapError (.malformed path)) := by
  cases x with
  | error fault => exact .error (.malformed path fault)
  | ok a => exact .ok rfl

theorem behindName_related (ref : TypeRef) (w : Words) :
    Except.Related (DefinitionError.Respelled R) Eq (behindName ref w) (behindName ref w) := by
  unfold behindName
  split
  · exact .ok rfl
  · split
    · exact .error (.malformed [] _)
    · split
      · exact .ok rfl
      · exact .error (.malformed [] _)
  · exact .error (.malformed [] _)

/-- Where names of the same meaning are used, an undefined name stands in place of an undefined one. -/
def Undefined (resolve : Resolver) (R : String → String → Prop) (name name' : String) : Prop :=
  R name name' ∧ resolve name = none

theorem compileMembers_respelled {ms ms' : List (String × Json)} (earlier : List String)
    (h : List.Forall₂ (RespelledMember R) ms ms')
    (ih : ∀ m ∈ ms, ∀ d', Respelled R m.2 d' →
      Except.Related (DefinitionError.Respelled (Undefined resolve R)) Eq (compile resolve m.2)
        (compile resolve' d')) :
    Except.Related (DefinitionError.Respelled (Undefined resolve R)) Eq
      (compileMembers resolve earlier ms) (compileMembers resolve' earlier ms') := by
  induction h generalizing earlier with
  | nil => exact .ok rfl
  | @cons m m' ms ms' hm _ ihms =>
    obtain ⟨hhead, htail⟩ := List.forall_mem_cons.mp ih
    cases hm with
    | @value key d d' hd =>
      have hmember : Except.Related (DefinitionError.Respelled (Undefined resolve R)) Eq
          (compileMember resolve earlier (key, d)) (compileMember resolve' earlier (key, d')) := by
        refine Except.Related.mapError ?_ fun e e' he => ?_
        · refine (related_malformed [] (PropertyKey.read key)).bind fun k k' hk => ?_
          subst hk
          refine (hhead d' hd).bind fun t t' ht => ?_
          subst ht
          exact related_malformed [] (ofKey earlier k t)
        · cases he with
          | malformed path fault => exact .malformed _ fault
          | undefinedType path h => exact .undefinedType _ h
      rw [compileMembers_cons, compileMembers_cons]
      refine hmember.bind fun p p' hp => ?_
      subst hp
      refine (ihms (earlier ++ [p.name]) htail).map fun ps ps' hps => ?_
      rw [hps]

/-- Names of the same meaning can stand for each other. -/
theorem compile_respelled (hR : ∀ name name', R name name' → resolve' name' = resolve name) {d d' : Json}
    (h : Respelled R d d') :
    Except.Related (DefinitionError.Respelled (Undefined resolve R)) Eq (compile resolve d)
      (compile resolve' d') := by
  induction d generalizing d' with
  | null =>
    cases h
    exact .ok rfl
  | bool b =>
    cases h
    exact .ok rfl
  | number n =>
    cases h
    exact .ok rfl
  | string s =>
    cases h with
    | text hnone =>
      rw [compile, compile]
      obtain ⟨t, ht⟩ | hfault := ofText_of_nameless hnone
      · rw [ht, ht]
        exact .ok rfl
      · rw [hfault, hfault]
        exact .error (.malformed [] .noTypeName)
    | @directive _ s' _ _ name name' hat hat' hname =>
      rw [compile, compile, ofText_of_typeNameAt hat, ofText_of_typeNameAt hat', hR name name' hname]
      cases href : resolve name with
      | none => exact .error (.undefinedType [] ⟨hname, href⟩)
      | some ref => exact behindName_related ref _
  | array ds ih =>
    cases h with
    | array h =>
      cases h with
      | nil =>
        rw [compile, compile]
        exact .ok rfl
      | @cons d d' ds ds' hd hds =>
        cases hds with
        | nil =>
          rw [compile, compile]
          refine (ih d List.mem_cons_self hd).bind fun item item' hitem => ?_
          subst hitem
          unfold ofItem
          split
          · exact .error (.malformed [] .defaultOfItem)
          · exact .ok rfl
        | cons _ _ =>
          rw [compile, compile]
          exact .error (.malformed [] .severalItems)
  | object ms ih =>
    cases h with
    | object h =>
      rw [compile, compile]
      refine (compileMembers_respelled [] h fun m hm d' hd => ih m hm hd).map fun ps ps' hps => ?_
      rw [hps]

/-- The meanings of the type names in a definition are all that compiling sees of the scope. -/
theorem compile_congr {d : Json} (h : ∀ name, d.UsesType name → resolve' name = resolve name) :
    compile resolve' d = compile resolve d := by
  have hd : Respelled (fun name name' => name' = id name ∧ d.UsesType name) d (d.renameTypes id) :=
    respelled_renameTypes fun name hname => ⟨.inr rfl, rfl, hname⟩
  rw [renameTypes_eq_self (r := id) fun _ _ => rfl] at hd
  have hR : ∀ name name', name' = id name ∧ d.UsesType name → resolve' name' = resolve name := by
    intro name name' hname
    rw [hname.1]
    exact h name hname.2
  exact eq_of_related (compile_respelled hR hd) fun name name' hname => hname.1.1

end Template

namespace Scope

/-- Names may be changed to others of the same meaning. -/
theorem compile_renameTypes {scope scope' : Scope} {r : String → String} {d : Json}
    (h : ∀ name, d.UsesType name →
      (IsTypeName (r name) ∨ r name = name) ∧ scope'.resolve (r name) = scope.resolve name) :
    scope'.compile (d.renameTypes r) = (scope.compile d).mapError (·.rename r) := by
  have hd : Respelled (fun name name' => name' = r name ∧ d.UsesType name) d (d.renameTypes r) :=
    respelled_renameTypes fun name hname => ⟨(h name hname).1, rfl, hname⟩
  have hR : ∀ name name', name' = r name ∧ d.UsesType name → scope'.resolve name' = scope.resolve name := by
    rintro name name' ⟨rfl, hname⟩
    exact (h name hname).2
  exact eq_mapError_of_related (Template.compile_respelled hR hd) fun name name' hname => hname.1.1

end Scope

namespace Namespace

variable {ns ns' : Namespace}

/-- An alias can be put in the place of its target, in any number of places. -/
theorem compile_alias {newName name : String} (h : ns.defineAlias newName name = .ok ns') {d d' : Json}
    (hd : Respelled (fun n n' => n' = n ∨ n = name ∧ n' = newName) d d') : ns'.compile d' = ns'.compile d := by
  obtain ⟨ref, href, rfl⟩ : ∃ ref, ns.resolve name = some ref ∧ ns' = ns.bind newName ref := by
    unfold defineAlias at h
    split at h
    · rename_i ref href
      cases h
      exact ⟨ref, href, rfl⟩
    · cases h
  have hnew : (ns.bind newName ref).resolve newName = some ref := resolve_bind_self ns newName ref
  have hname : (ns.bind newName ref).resolve name = some ref := by
    by_cases heq : newName = name
    · rw [← heq, hnew]
    · rw [resolve_bind_of_ne ns ref heq, href]
  have hR : ∀ n n', n' = n ∨ n = name ∧ n' = newName →
      (ns.bind newName ref).resolve n' = (ns.bind newName ref).resolve n := by
    rintro n n' (rfl | ⟨rfl, rfl⟩)
    · rfl
    · rw [hnew, hname]
  refine eq_of_related (Template.compile_respelled hR hd) fun n n' hundefined => ?_
  obtain ⟨rfl | ⟨rfl, -⟩, hnone⟩ := hundefined
  · rfl
  · cases hname.symm.trans hnone

/-- An import brings with it what a definition needs, if all names that it uses and that are bound are asked
for. -/
theorem compile_imported {names : Option (List String)} (hd : Entries.Distinct ns.bindings)
    (h : ns.imported names = .ok ns') {d : Json}
    (hused : ∀ name, d.UsesType name → name ∈ ns.names → name ∈ ns.offers names) :
    ns'.compile d = ns.compile d := by
  refine Template.compile_congr fun name hname => ?_
  by_cases hoffered : name ∈ ns.offers names
  · exact resolve_importFrom_of_mem h hd hoffered
  · have hfree : name ∉ ns.names := fun hbound => hoffered (hused name hname hbound)
    rw [resolve_importFrom_of_notMem h hoffered, resolve_eq, resolve_eq ns, Entries.get?_eq_none_iff.mpr hfree]
    rfl

end Namespace

/-- Compiling sees type names through what they mean and in no other way; in a run, what they mean is
known by its identity. -/
theorem names_seen_through_meanings :
    (∀ (scope scope' : Scope) (r : String → String) (d : Json),
      (∀ name, d.UsesType name →
        (IsTypeName (r name) ∨ r name = name) ∧ scope'.resolve (r name) = scope.resolve name) →
      scope'.compile (d.renameTypes r) = (scope.compile d).mapError (·.rename r)) ∧
    (∀ es es₁ es₂ : List Edit, es₁ <:+ es → es₂ <:+ es → ∀ space₁ name₁ r₁ space₂ name₂ r₂,
      ((Workspace.after es₁).get space₁).resolve name₁ = some r₁ →
      ((Workspace.after es₂).get space₂).resolve name₂ = some r₂ → (r₁.same r₂ = true ↔ r₁ = r₂)) ∧
    (∀ d, Scope.compile none d = Scope.compile (some {}) d) ∧
    (∀ (ns ns' : Namespace) (newName name : String) (d d' : Json), ns.defineAlias newName name = .ok ns' →
      Respelled (fun n n' => n' = n ∨ n = name ∧ n' = newName) d d' → ns'.compile d' = ns'.compile d) ∧
    ∀ (ns ns' : Namespace) (names : Option (List String)) (d : Json), Entries.Distinct ns.bindings →
      ns.imported names = .ok ns' → (∀ name, d.UsesType name → name ∈ ns.names → name ∈ ns.offers names) →
      ns'.compile d = ns.compile d :=
  ⟨fun _ _ _ _ => Scope.compile_renameTypes,
    fun _ _ _ h₁ h₂ _ _ _ _ _ _ => Workspace.same_iff_eq h₁ h₂,
    fun _ => rfl,
    fun _ _ _ _ _ _ h hd => Namespace.compile_alias h hd,
    fun _ _ _ _ hd h hused => Namespace.compile_imported hd h hused⟩

/-- A type, another name for it, and a namespace that has nothing but the other name; the latest edit first. -/
def spotRun : List Edit :=
  [.createFrom "other" "types" (some ["spot"]), .defineAlias "types" "spot" "point",
    .defineType "types" "point" (.object [("x required", .string ":number")])]

def toSpot (name : String) : String := if name = "point" then "spot" else name

def routeDefinition : Json :=
  .object [("start required", .string ":  point"), ("sign", .string "::point"),
    ("stops default []", .array [.string ":point"])]

theorem spotRun_resolve (name : String) :
    (IsTypeName (toSpot name) ∨ toSpot name = name) ∧
      Scope.resolve (some ((Workspace.after spotRun).get "other")) (toSpot name) =
        Scope.resolve (some ((Workspace.after spotRun).get "types")) name := by
  unfold toSpot
  split
  · rename_i hname
    subst hname
    exact ⟨.inl ⟨⟨by decide, by decide⟩, by decide⟩, rfl⟩
  · rename_i hname
    obtain ⟨ref, htypes, hother⟩ : ∃ ref,
        ((Workspace.after spotRun).get "types").bindings = [("point", ref), ("spot", ref)] ∧
          ((Workspace.after spotRun).get "other").bindings = [("spot", ref)] := ⟨_, rfl, rfl⟩
    have hget : Entries.get? [("point", ref), ("spot", ref)] name = Entries.get? [("spot", ref)] name :=
      if_neg (Ne.symm hname)
    refine ⟨.inr rfl, ?_⟩
    rw [Scope.resolve, Scope.resolve, Namespace.resolve_eq, Namespace.resolve_eq, htypes, hother, hget]

/-- The route is written with the other name where that alone is known, and compiles to what it was. -/
theorem route_respelled : ∃ t,
    Scope.compile (some ((Workspace.after spotRun).get "types")) routeDefinition = .ok t ∧
      Scope.compile (some ((Workspace.after spotRun).get "other"))
        (.object [("start required", .string ":  spot"), ("sign", .string "::point"),
          ("stops default []", .array [.string ":spot"])]) = .ok t := by
  obtain ⟨hrename, -⟩ := names_seen_through_meanings
  have hroute := hrename _ _ toSpot routeDefinition fun name _ => spotRun_resolve name
  obtain ⟨t, ht⟩ : ∃ t, Scope.compile (some ((Workspace.after spotRun).get "types")) routeDefinition = .ok t :=
    ⟨_, by with_unfolding_all rfl⟩
  rw [ht] at hroute
  exact ⟨t, ht, hroute⟩

end Stencil
