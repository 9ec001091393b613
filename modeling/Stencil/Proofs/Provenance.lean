import Stencil.Proofs.Chronicles

/-! Where references come from. Followed back through aliases, imports and copies, what a name stands for
is a built-in type or was made by one edit of the run. Two references are the same exactly when they come
from the same. -/
namespace Stencil

inductive Origin where
  | builtin (tag : Tag)
  /-- The definition made by the edit that has so many edits before it. -/
  | edit (number : Nat)
deriving DecidableEq

def Origin.builtin? (name : String) : Option Origin := (Tag.ofName? name).map builtin

/-- Where to look, before an edit, for what a name stands for after it. -/
inductive Trail where
  /-- The edit has defined the name. -/
  | made
  /-- The name is not bound, and can be that of a built-in type only. -/
  | unbound
  /-- The name stands for what a name stood for before. -/
  | carried (space name : String)

namespace Edit

def trail (w : Workspace) (space name : String) (e : Edit) : Trail :=
  if e.rebinds w space name then
    match e with
    | create _ => .unbound
    | copy _ source => .carried source name
    | createFrom _ source names =>
      if name ∈ (w.get source).offers names then .carried source name else .unbound
    | importFrom _ source _ => .carried source name
    | defineType _ _ _ => .made
    | defineTemplate _ _ _ => .made
    | defineAlias _ _ n => .carried space n
    | remove _ _ => .unbound
  else .carried space name

theorem eq_target_of_rebinds {w : Workspace} {space name : String} {e : Edit}
    (h : e.rebinds w space name = true) : space = e.target := by
  cases e <;> grind [rebinds, target]

/-- The edit is a definition of the name in the namespace `space`. -/
inductive Defines (space name : String) : Edit → Prop
  | type (d : Json) : Defines space name (.defineType space name d)
  | template (t : Template) : Defines space name (.defineTemplate space name t)

theorem defines_of_trail {w : Workspace} {space name : String} {e : Edit}
    (h : e.trail w space name = .made) : e.Defines space name := by
  unfold trail at h
  split at h
  · rename_i hr
    cases e with
    | defineType target k d =>
      obtain ⟨rfl, rfl⟩ := of_decide_eq_true hr
      exact .type d
    | defineTemplate target k t =>
      obtain ⟨rfl, rfl⟩ := of_decide_eq_true hr
      exact .template t
    | createFrom target source names =>
      dsimp only at h
      split at h <;> cases h
    | _ => cases h
  · cases h

end Edit

namespace Workspace

/-- Where the reference that a name stands for at the end of a run comes from. -/
def origin? : List Edit → String → String → Option Origin
  | [], _, name => Origin.builtin? name
  | e :: es, space, name =>
    match (after es).edited e with
    | .error _ => origin? es space name
    | .ok _ =>
      match e.trail (after es) space name with
      | .made => some (.edit es.length)
      | .unbound => Origin.builtin? name
      | .carried space' name' => origin? es space' name'

variable {w w' : Workspace} {e : Edit} {space name : String}

theorem distinct_after (es : List Edit) (space : String) :
    Entries.Distinct ((after es).get space).bindings :=
  ((follows_after es).namespaces space).distinct

/-- What the trail of a name says of its reference after the edit. -/
def Leads (w : Workspace) (e : Edit) (name : String) (ref? : Option TypeRef) : Trail → Prop
  | .made => e.defines = true ∧ ∃ t, ref? = some (.defined ⟨w.defined, name, t⟩)
  | .unbound => ref? = TypeRef.builtin? name
  | .carried space' name' => ref? = (w.get space').resolve name'

theorem Changed.leads (hc : Changed w e w') (hd : ∀ source, Entries.Distinct (w.get source).bindings)
    (space name : String) : Leads w e name ((w'.get space).resolve name) (e.trail w space name) := by
  unfold Edit.trail
  split
  case isFalse h => exact hc.resolve_eq (Bool.eq_false_iff.mpr h)
  case isTrue h =>
    obtain rfl := Edit.eq_target_of_rebinds h
    have ht := hc.target
    generalize w'.get e.target = ns at ht
    cases e with
    | create target =>
      cases ht
      rfl
    | copy target source =>
      cases ht
      rfl
    | createFrom target source names =>
      dsimp only
      split
      case isTrue hn => exact Namespace.resolve_importFrom_of_mem ht (hd source) hn
      case isFalse hn => exact Namespace.resolve_importFrom_of_notMem ht hn
    | importFrom target source names =>
      exact Namespace.resolve_importFrom_of_mem ht (hd source) (of_decide_eq_true h).2
    | defineType target k d =>
      obtain ⟨t, -, rfl⟩ := Except.map_eq_ok_iff.mp ht
      obtain rfl := (of_decide_eq_true h).2
      exact ⟨rfl, t, Namespace.resolve_bind_self _ k _⟩
    | defineTemplate target k t =>
      cases ht
      obtain rfl := (of_decide_eq_true h).2
      exact ⟨rfl, t, Namespace.resolve_bind_self _ k _⟩
    | defineAlias target k n =>
      obtain rfl := (of_decide_eq_true h).2
      rw [edited, Namespace.defineAlias] at ht
      split at ht
      case h_1 ref hr =>
        cases ht
        exact (Namespace.resolve_bind_self _ k ref).trans hr.symm
      case h_2 => cases ht
    | remove target k =>
      cases ht
      obtain rfl := (of_decide_eq_true h).2
      exact Namespace.resolve_remove_self _ k

/-- The edit `e`, made after the run `es`, is a definition that was not refused. -/
def Made (e : Edit) (es : List Edit) : Prop := e.defines = true ∧ ∃ ns, (after es).edited e = .ok ns

/-- Within the run `es` the reference comes from the origin: the built-in type, or the edit that defined
it. -/
inductive Backs (es : List Edit) : Option TypeRef → Option Origin → Prop
  | nothing : Backs es none none
  | builtin (tag : Tag) : Backs es (some (.builtin tag)) (some (.builtin tag))
  | edit {call : Edit} {older : List Edit} (within : call :: older <:+ es) (made : Made call older)
      {d : TypeDef Template} (id : d.id = (after older).defined) :
      Backs es (some (.defined d)) (some (.edit older.length))

theorem backs_builtin (es : List Edit) (name : String) :
    Backs es (TypeRef.builtin? name) (Origin.builtin? name) := by
  rw [TypeRef.builtin?, Origin.builtin?]
  cases Tag.ofName? name with
  | none => exact .nothing
  | some tag => exact .builtin tag

theorem Backs.mono {es es' : List Edit} (h : es <:+ es') {ref? : Option TypeRef} {origin? : Option Origin}
    (hb : Backs es ref? origin?) : Backs es' ref? origin? := by
  cases hb with
  | nothing => exact .nothing
  | builtin tag => exact .builtin tag
  | edit within made id => exact .edit (within.trans h) made id

theorem backs_origin? (es : List Edit) (space name : String) :
    Backs es (((after es).get space).resolve name) (origin? es space name) := by
  induction es generalizing space name with
  | nil => exact backs_builtin [] name
  | cons e es ih =>
    have hsuffix : es <:+ e :: es := List.suffix_cons e es
    rw [origin?, after]
    cases he : (after es).edited e with
    | error err =>
      rw [attempt_of_error (apply_eq_error_iff.mpr he)]
      exact (ih space name).mono hsuffix
    | ok ns =>
      have hleads := (attempt_of_edited he).leads (distinct_after es) space name
      dsimp only
      cases htrail : e.trail (after es) space name with
      | made =>
        rw [htrail] at hleads
        obtain ⟨hdef, t, ht⟩ := hleads
        rw [ht]
        exact .edit (List.suffix_refl _) ⟨hdef, ns, he⟩ rfl
      | unbound =>
        rw [htrail] at hleads
        rw [hleads]
        exact backs_builtin _ name
      | carried space' name' =>
        rw [htrail] at hleads
        rw [hleads]
        exact (ih space' name').mono hsuffix

variable {es : List Edit} {e₁ e₂ : Edit} {older₁ older₂ : List Edit}

/-- A definition is counted. -/
theorem Made.defined (h : Made e es) : (after (e :: es)).defined = (after es).defined + 1 := by
  obtain ⟨hdef, ns, hns⟩ := h
  rw [after, (attempt_of_edited hns).defined, if_pos hdef]

theorem defined_lt_of_length_lt (h₁ : e₁ :: older₁ <:+ es) (h₂ : e₂ :: older₂ <:+ es)
    (hm : Made e₁ older₁) (hl : older₁.length < older₂.length) :
    (after older₁).defined < (after older₂).defined := by
  have hbefore : e₁ :: older₁ <:+ older₂ :=
    List.suffix_of_suffix_length_le h₁ ((List.suffix_cons e₂ older₂).trans h₂) hl
  calc (after older₁).defined
      < (after (e₁ :: older₁)).defined := by
        rw [hm.defined]
        exact Nat.lt_succ_self _
    _ ≤ (after older₂).defined := defined_le_after hbefore

/-- Definitions of one run are numbered apart. -/
theorem defined_eq_iff (h₁ : e₁ :: older₁ <:+ es) (h₂ : e₂ :: older₂ <:+ es) (hm₁ : Made e₁ older₁)
    (hm₂ : Made e₂ older₂) :
    (after older₁).defined = (after older₂).defined ↔ older₁.length = older₂.length := by
  constructor
  · intro h
    rcases Nat.lt_trichotomy older₁.length older₂.length with hl | hl | hl
    · exact absurd h (Nat.ne_of_lt (defined_lt_of_length_lt h₁ h₂ hm₁ hl))
    · exact hl
    · exact absurd h.symm (Nat.ne_of_lt (defined_lt_of_length_lt h₂ h₁ hm₂ hl))
  · intro h
    have hsame : older₁ = older₂ :=
      (List.suffix_of_suffix_length_le ((List.suffix_cons e₁ older₁).trans h₁)
        ((List.suffix_cons e₂ older₂).trans h₂) h.le).eq_of_length h
    rw [hsame]

/-- References within one run are the same exactly when they come from the same. -/
theorem Backs.same_iff {r₁ r₂ : TypeRef} {o₁? o₂? : Option Origin} (h₁ : Backs es (some r₁) o₁?)
    (h₂ : Backs es (some r₂) o₂?) : r₁.same r₂ = true ↔ o₁? = o₂? := by
  cases h₁ with
  | builtin tag =>
    cases h₂ with
    | builtin tag' => simp [TypeRef.same]
    | edit within made id => simp [TypeRef.same]
  | edit within made id =>
    cases h₂ with
    | builtin tag => simp [TypeRef.same]
    | edit within' made' id' =>
      rw [TypeRef.same, beq_iff_eq, id, id', defined_eq_iff within within' made made', Option.some.injEq,
        Origin.edit.injEq]

/-- The definition `e`, made after the run `es`, gives its name the reference `r`. -/
def Gives (e : Edit) (es : List Edit) (r : TypeRef) : Prop :=
  ∃ space name w, e.Defines space name ∧ (after es).apply e = .ok w ∧ (w.get space).resolve name = some r

theorem Gives.backs {r : TypeRef} (h : Gives e es r) :
    Backs (e :: es) (some r) (some (.edit es.length)) := by
  obtain ⟨space, name, w, hdef, hw, hr⟩ := h
  have hb := backs_origin? (e :: es) space name
  have hok : (after es).edited e = .ok (w.get e.target) := (changed_of_apply hw).target
  have htrail : e.trail (after es) space name = .made := by
    cases hdef <;> simp [Edit.trail, Edit.rebinds]
  rw [after, attempt_of_ok hw, hr, origin?, hok] at hb
  dsimp only at hb
  rw [htrail] at hb
  exact hb

/-- A definition that a name stands for was given by an edit of the run. -/
theorem exists_gives {d : TypeDef Template} (h : ((after es).get space).resolve name = some (.defined d)) :
    ∃ call older, call :: older <:+ es ∧ Gives call older (.defined d) := by
  have hbuiltin : ∀ name, TypeRef.builtin? name ≠ some (.defined d) := by
    intro name hname
    obtain ⟨tag, -, htag⟩ := Option.map_eq_some_iff.mp hname
    cases htag
  induction es generalizing space name with
  | nil => exact absurd h (hbuiltin name)
  | cons e es ih =>
    have hearlier : ∀ {space name}, ((after es).get space).resolve name = some (.defined d) →
        ∃ call older, call :: older <:+ e :: es ∧ Gives call older (.defined d) := by
      intro space name hr
      obtain ⟨call, older, hwithin, hgives⟩ := ih hr
      exact ⟨call, older, hwithin.trans (List.suffix_cons e es), hgives⟩
    cases he : (after es).apply e with
    | error err =>
      rw [after, attempt_of_error he] at h
      exact hearlier h
    | ok w =>
      rw [after, attempt_of_ok he] at h
      have hleads := (changed_of_apply he).leads (distinct_after es) space name
      cases htrail : e.trail (after es) space name with
      | made => exact ⟨e, es, List.suffix_refl _, space, name, w, Edit.defines_of_trail htrail, he, h⟩
      | unbound =>
        rw [htrail, h] at hleads
        exact absurd hleads.symm (hbuiltin name)
      | carried space' name' =>
        rw [htrail, h] at hleads
        exact hearlier hleads.symm

/-- An edit gives one reference at most. -/
theorem Gives.unique {r₁ r₂ : TypeRef} (h₁ : Gives e es r₁) (h₂ : Gives e es r₂) : r₁ = r₂ := by
  obtain ⟨space₁, name₁, w₁, hdef₁, hw₁, hr₁⟩ := h₁
  obtain ⟨space₂, name₂, w₂, hdef₂, hw₂, hr₂⟩ := h₂
  cases hw₁.symm.trans hw₂
  cases hdef₁ <;> cases hdef₂ <;> exact Option.some.inj (hr₁.symm.trans hr₂)

/-- Within one run references that are the same are equal: they have one name and one template. -/
theorem same_iff_eq {es₁ es₂ : List Edit} (h₁ : es₁ <:+ es) (h₂ : es₂ <:+ es) {space₁ name₁ space₂ name₂ : String}
    {r₁ r₂ : TypeRef} (hr₁ : ((after es₁).get space₁).resolve name₁ = some r₁)
    (hr₂ : ((after es₂).get space₂).resolve name₂ = some r₂) : r₁.same r₂ = true ↔ r₁ = r₂ := by
  constructor
  · intro hsame
    cases r₁ with
    | builtin tag =>
      cases r₂ with
      | builtin tag' => exact congrArg TypeRef.builtin (eq_of_beq hsame)
      | defined d => cases hsame
    | defined d₁ =>
      cases r₂ with
      | builtin tag => cases hsame
      | defined d₂ =>
        obtain ⟨call₁, older₁, hwithin₁, hgives₁⟩ := exists_gives hr₁
        obtain ⟨call₂, older₂, hwithin₂, hgives₂⟩ := exists_gives hr₂
        have hback₁ := hgives₁.backs.mono (hwithin₁.trans h₁)
        have hback₂ := hgives₂.backs.mono (hwithin₂.trans h₂)
        have horigin := (hback₁.same_iff hback₂).mp hsame
        have hlength : older₁.length = older₂.length := Origin.edit.inj (Option.some.inj horigin)
        have hcalls : call₁ :: older₁ = call₂ :: older₂ :=
          (List.suffix_of_suffix_length_le (hwithin₁.trans h₁) (hwithin₂.trans h₂)
            (by simp [hlength])).eq_of_length (by simp [hlength])
        cases hcalls
        exact hgives₁.unique hgives₂
  · rintro rfl
    cases r₁ <;> exact beq_self_eq_true _

/-- Wherever in a run two names are looked up, they stand for the same exactly when it is one built-in
type, or comes from one definition. -/
theorem same_iff_same_origin (es : List Edit) :
    (∀ es₁ es₂, es₁ <:+ es → es₂ <:+ es → ∀ space₁ name₁ r₁ space₂ name₂ r₂,
      ((after es₁).get space₁).resolve name₁ = some r₁ → ((after es₂).get space₂).resolve name₂ = some r₂ →
      (r₁.same r₂ = true ↔
        (∃ tag, r₁ = .builtin tag ∧ r₂ = .builtin tag) ∨
        ∃ call older, call :: older <:+ es ∧ Made call older ∧
          origin? es₁ space₁ name₁ = some (.edit older.length) ∧
          origin? es₂ space₂ name₂ = some (.edit older.length))) ∧
    ∀ e₁ es₁ e₂ es₂ r₁ r₂, e₁ :: es₁ <:+ es → e₂ :: es₂ <:+ es → es₁.length ≠ es₂.length →
      Gives e₁ es₁ r₁ → Gives e₂ es₂ r₂ → r₁.same r₂ = false := by
  constructor
  · intro es₁ es₂ h₁ h₂ space₁ name₁ r₁ space₂ name₂ r₂ hr₁ hr₂
    have hb₁ := (backs_origin? es₁ space₁ name₁).mono h₁
    have hb₂ := (backs_origin? es₂ space₂ name₂).mono h₂
    rw [hr₁] at hb₁
    rw [hr₂] at hb₂
    rw [hb₁.same_iff hb₂]
    generalize origin? es₁ space₁ name₁ = o₁? at hb₁
    generalize origin? es₂ space₂ name₂ = o₂? at hb₂
    constructor
    · rintro rfl
      cases hb₁ with
      | builtin tag =>
        cases hb₂
        exact .inl ⟨tag, rfl, rfl⟩
      | edit within made id => exact .inr ⟨_, _, within, made, rfl, rfl⟩
    · rintro (⟨tag, rfl, rfl⟩ | ⟨call, older, -, -, rfl, rfl⟩)
      · cases hb₁
        cases hb₂
        rfl
      · rfl
  · intro e₁ es₁ e₂ es₂ r₁ r₂ h₁ h₂ hne hg₁ hg₂
    rw [← Bool.not_eq_true, (hg₁.backs.mono h₁).same_iff (hg₂.backs.mono h₂), Option.some.injEq,
      Origin.edit.injEq]
    exact hne

def flagEdit : Edit := .defineType "base" "flag" (.bool true)

/-- A flag, another name for it, the same definition over again, and a copy before the other name is
dropped; the latest edit first. -/
def flagRun : List Edit :=
  [.remove "base" "switch", .importFrom "copy" "base" none, flagEdit, .defineAlias "base" "switch" "flag",
    flagEdit]

/-- In the copy, the other name is the first flag still, and the flag is the second. -/
theorem flags_told_apart : ∃ first second other,
    ((after [flagEdit]).get "base").resolve "flag" = some first ∧
      ((after flagRun).get "copy").resolve "flag" = some second ∧
      ((after flagRun).get "copy").resolve "switch" = some other ∧
      other.same first = true ∧ first.same second = false := by
  have hfirst : flagEdit :: [] <:+ flagRun := List.drop_suffix 4 flagRun
  have hsecond : flagEdit :: flagRun.drop 3 <:+ flagRun := List.drop_suffix 2 flagRun
  have hmade : Made flagEdit [] := ⟨rfl, _, rfl⟩
  have hdef : flagEdit.Defines "base" "flag" := .type (.bool true)
  obtain ⟨hsame, hapart⟩ := same_iff_same_origin flagRun
  refine ⟨_, _, _, rfl, rfl, rfl, ?_, ?_⟩
  · exact (hsame flagRun [flagEdit] (List.suffix_refl _) hfirst "copy" "switch" _ "base" "flag" _ rfl
      rfl).mpr (.inr ⟨flagEdit, [], hfirst, hmade, rfl, rfl⟩)
  · exact hapart flagEdit [] flagEdit (flagRun.drop 3) _ _ hfirst hsecond (by decide)
      ⟨"base", "flag", _, hdef, rfl, rfl⟩ ⟨"base", "flag", _, hdef, rfl, rfl⟩

end Workspace

end Stencil
