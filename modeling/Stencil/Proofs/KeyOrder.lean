import Stencil.Proofs.Derivations
import Stencil.Proofs.Expansion
import Stencil.Proofs.Reordering

/-! The order of keys, in definitions and in documents. It decides which of several violations is come
to first and where a default is put; it decides nothing else. -/
namespace Stencil

open Json

namespace Violation

/-- The same kind of violation in the same place; what has been found there may be written in another
order. -/
inductive SameSpot : Violation → Violation → Prop
  | mismatch (path : Path) (expected : Tag) (found found' : String) :
      SameSpot (.mismatch path expected found) (.mismatch path expected found')
  | missing (path : Path) : SameSpot (.missing path) (.missing path)
  | notNullable (path : Path) : SameSpot (.notNullable path) (.notNullable path)

/-- Violations that are in the same spot if `exact` holds, and need not have anything to do with each
other otherwise. -/
def Matches (exact : Prop) (e e' : Violation) : Prop := exact → e.SameSpot e'

variable {exact : Prop}

theorem Matches.refl (e : Violation) : e.Matches exact e := fun _ => by cases e <;> constructor

theorem Matches.under {e e' : Violation} (h : e.Matches exact e') (segment : String) :
    (e.under segment).Matches exact (e'.under segment) := by
  intro hx
  cases h hx <;> constructor

end Violation

variable {fill : Bool} {exact : Prop} {v w : Json} {ms ns : List (String × Json)}

/-- Results of checking documents that agree. -/
abbrev Json.ResultsAgree (exact : Prop) : Except Violation Json → Except Violation Json → Prop :=
  Except.Related (Violation.Matches exact) Agrees

theorem Tag.guard_agree {j k : Except Violation Json} (t : Tag) (h : Agrees v w)
    (hk : ResultsAgree exact j k) : ResultsAgree exact (t.guard v j) (t.guard w k) := by
  unfold Tag.guard
  rw [h.accepts t]
  split
  · exact hk
  · exact .error fun _ => .mismatch [] t _ _

theorem Json.onMembers_agree {f g : List (String × Json) → Except Violation (List (String × Json))}
    (h : Agrees v w)
    (hf : ∀ ms ns, MembersAgree ms ns →
      Except.Related (Violation.Matches exact) MembersAgree (f ms) (g ns)) :
    ResultsAgree exact (v.onMembers f) (w.onMembers g) := by
  cases h with
  | object hm => exact (hf _ _ hm).map fun _ _ => .object
  | array hs => exact .ok (.array hs)
  | _ =>
    refine .ok ?_
    constructor

theorem Json.onItems_agree {f g : List Json → Except Violation (List Json)} (h : Agrees v w)
    (hf : ∀ vs ws, List.Forall₂ Agrees vs ws →
      Except.Related (Violation.Matches exact) (List.Forall₂ Agrees) (f vs) (g ws)) :
    ResultsAgree exact (v.onItems f) (w.onItems g) := by
  cases h with
  | array hs => exact (hf _ _ hs).map fun _ _ => .array
  | object hm => exact .ok (.object hm)
  | _ =>
    refine .ok ?_
    constructor

namespace Template

theorem eachItem_agree {f g : Json → Except Violation Json} {i : Nat} {vs ws : List Json}
    (h : List.Forall₂ Agrees vs ws)
    (hf : ∀ v w, Agrees v w → ResultsAgree exact (f v) (g w)) :
    Except.Related (Violation.Matches exact) (List.Forall₂ Agrees) (eachItem f i vs) (eachItem g i ws) := by
  induction h generalizing i with
  | nil => exact .ok .nil
  | cons hvw _ ih =>
    rw [eachItem, eachItem]
    refine ((hf _ _ hvw).mapError fun _ _ he => he.under (toString i)).bind fun _ _ hd => ?_
    exact ih.bind fun _ _ hds => .ok (.cons hd hds)

/-- What a property puts in the place of what stands under its name, if anything. -/
def settle (fill : Bool) (p : Property Template) : Option Json → Except Violation (Option Json)
  | some .null => if p.nullable then .ok none else .error (.notNullable [p.name])
  | some v => ((check fill p.template v).mapError (.under p.name)).map some
  | none =>
    if p.required || !p.nullable then .error (.missing [p.name])
    else .ok (if fill then p.template.default? else none)

/-- The members with `v?` under `k`, if it is anything. -/
def put (ms : List (String × Json)) (k : String) : Option Json → List (String × Json)
  | some v => Entries.insert ms k v
  | none => ms

theorem fillAbsent_eq (p : Property Template) (ms : List (String × Json)) :
    fillAbsent fill p ms = put ms p.name (if fill then p.template.default? else none) := by
  unfold fillAbsent
  cases fill <;> cases p.template.default? <;> rfl

/-- A property looks at nothing but its own member, and changes nothing else. -/
theorem checkProperty_eq (p : Property Template) (ms : List (String × Json)) :
    checkProperty fill p ms = (settle fill p (Entries.get? ms p.name)).map (put ms p.name) := by
  cases h : Entries.get? ms p.name with
  | none =>
    rw [checkProperty_of_none h, settle, fillAbsent_eq]
    cases p.required || !p.nullable <;> rfl
  | some v =>
    by_cases hv : v = .null
    · subst hv
      rw [checkProperty_of_null h, settle]
      cases p.nullable <;> rfl
    · rw [checkProperty_of_some h hv, settle]
      · cases check fill p.template v <;> rfl
      · exact fun he => hv he

theorem put_agree (h : MembersAgree ms ns) (k : String) {v? w? : Option Json}
    (hv : Option.Rel Agrees v? w?) : MembersAgree (put ms k v?) (put ns k w?) := by
  cases hv with
  | none => exact h
  | some hv => exact h.insert k hv

theorem get?_put {ms : List (String × Json)} {k j : String} (v? : Option Json) (h : k ≠ j) :
    Entries.get? (put ms k v?) j = Entries.get? ms j := by
  cases v? with
  | none => rfl
  | some v => exact Entries.get?_insert_of_ne ms v h

theorem all_put (ms : List (String × Json)) (k j : String) (v? : Option Json) :
    Entries.all (put ms k v?) j =
      if k = j then v?.elim (Entries.all ms j) (· :: (Entries.all ms j).tail) else Entries.all ms j := by
  cases v? with
  | none => exact (ite_self _).symm
  | some v => exact Entries.all_insert ms k j v

/-- Under different names it does not matter what is put first. -/
theorem put_comm {k j : String} (h : k ≠ j) (ms : List (String × Json)) (v? w? : Option Json) :
    MembersAgree (put (put ms k v?) j w?) (put (put ms j w?) k v?) := by
  intro i
  have hall : Entries.all (put (put ms k v?) j w?) i = Entries.all (put (put ms j w?) k v?) i := by
    rw [all_put, all_put, all_put, all_put]
    by_cases hk : k = i
    · have hj : j ≠ i := fun hj => h (hk.trans hj.symm)
      rw [if_neg hj, if_neg hj]
    · rw [if_neg hk, if_neg hk]
  rw [hall]
  exact List.forall₂_same.mpr fun v _ => .refl v

/-- Templates that have the same defaults, and make of documents that agree what agrees. -/
structure Interchangeable (exact : Prop) (t u : Template) : Prop where
  tag : t.tag = u.tag
  declaredDefault : t.declaredDefault = u.declaredDefault
  default? : t.default? = u.default?
  check : ∀ fill {v w}, Agrees v w → ResultsAgree exact (t.check fill v) (u.check fill w)

/-- Properties that differ in nothing but templates that are interchangeable. -/
structure InterchangeableProperty (exact : Prop) (p q : Property Template) : Prop where
  name : p.name = q.name
  required : p.required = q.required
  nullable : p.nullable = q.nullable
  template : p.template.Interchangeable exact q.template

variable {p q : Property Template} {ps qs : List (Property Template)}

theorem names_eq (h : List.Forall₂ (InterchangeableProperty exact) ps qs) :
    ps.map (·.name) = qs.map (·.name) := by
  induction h with
  | nil => rfl
  | cons hpq _ ih => rw [List.map_cons, List.map_cons, hpq.name, ih]

theorem settle_agree (h : InterchangeableProperty exact p q) {v? w? : Option Json}
    (hv : Option.Rel Agrees v? w?) :
    Except.Related (Violation.Matches exact) (Option.Rel Agrees) (settle fill p v?) (settle fill q w?) := by
  cases hv with
  | none =>
    rw [settle, settle, h.name, h.required, h.nullable, h.template.default?]
    split
    · exact .error (.refl _)
    · refine .ok ?_
      split
      · cases q.template.default? with
        | none => exact .none
        | some d => exact .some (.refl d)
      · exact .none
  | @some v w hvw =>
    by_cases hnull : v = .null
    · obtain rfl := hnull
      obtain rfl := hvw.null_iff.mp rfl
      rw [settle, settle, h.name, h.nullable]
      split
      · exact .ok .none
      · exact .error (.refl _)
    · have hnull' : w ≠ .null := fun hw => hnull (hvw.null_iff.mpr hw)
      rw [settle, settle, h.name]
      · refine ((h.template.check fill hvw).mapError fun _ _ he => he.under q.name).map fun _ _ => .some
      · exact fun he => hnull' he
      · exact fun he => hnull he

theorem checkProperty_agree (h : InterchangeableProperty exact p q) (hm : MembersAgree ms ns) :
    Except.Related (Violation.Matches exact) MembersAgree (checkProperty fill p ms)
      (checkProperty fill q ns) := by
  rw [checkProperty_eq, checkProperty_eq]
  refine (settle_agree h (h.name ▸ hm.get? p.name)).map fun v? w? hv => ?_
  rw [h.name]
  exact put_agree hm q.name hv

theorem checkProperties_agree (h : List.Forall₂ (InterchangeableProperty exact) ps qs)
    (hm : MembersAgree ms ns) :
    Except.Related (Violation.Matches exact) MembersAgree (checkProperties fill ps ms)
      (checkProperties fill qs ns) := by
  induction h generalizing ms ns with
  | nil => exact .ok hm
  | cons hpq _ ih =>
    rw [checkProperties_cons, checkProperties_cons]
    exact (checkProperty_agree hpq hm).bind fun _ _ => ih

/-- A template is interchangeable with itself: documents that agree are filled alike, or refused in the
same spot. -/
theorem Interchangeable.refl (t : Template) : t.Interchangeable exact t := by
  refine ⟨rfl, rfl, rfl, ?_⟩
  intro fill v w h
  induction t generalizing fill v w with
  | value tag d => exact tag.guard_agree h (.ok h)
  | freeArray d => exact Tag.array.guard_agree h (.ok h)
  | array d item ih =>
    exact Tag.array.guard_agree h (onItems_agree h fun _ _ hs => eachItem_agree hs fun _ _ => ih fill)
  | object d ps ih =>
    have hps : List.Forall₂ (InterchangeableProperty exact) ps ps :=
      List.forall₂_same.mpr fun p hp => ⟨rfl, rfl, rfl, rfl, rfl, rfl, fun fill _ _ => ih p hp fill⟩
    exact Tag.object.guard_agree h (onMembers_agree h fun _ _ => checkProperties_agree hps)
  | named definition d ih => exact ih fill h

/-- Two properties of different names may change places. -/
theorem checkProperty_swap (h : p.name ≠ q.name) (ms : List (String × Json)) :
    Except.Related (Violation.Matches False) MembersAgree
      (checkProperty fill p ms >>= checkProperty fill q)
      (checkProperty fill q ms >>= checkProperty fill p) := by
  have hp : ∀ w?, checkProperty fill p (put ms q.name w?) =
      (settle fill p (Entries.get? ms p.name)).map (put (put ms q.name w?) p.name) := fun w? => by
    rw [checkProperty_eq, get?_put w? h.symm]
  have hq : ∀ v?, checkProperty fill q (put ms p.name v?) =
      (settle fill q (Entries.get? ms q.name)).map (put (put ms p.name v?) q.name) := fun v? => by
    rw [checkProperty_eq, get?_put v? h]
  rw [checkProperty_eq, checkProperty_eq]
  cases hv : settle fill p (Entries.get? ms p.name) with
  | error e =>
    cases hw : settle fill q (Entries.get? ms q.name) with
    | error e' => exact .error nofun
    | ok w? =>
      have hlast := hp w?
      rw [hv] at hlast
      change Except.Related _ _ (Except.error e) (checkProperty fill p (put ms q.name w?))
      rw [hlast]
      exact .error nofun
  | ok v? =>
    have hlast := hq v?
    change Except.Related _ _ (checkProperty fill q (put ms p.name v?)) _
    rw [hlast]
    cases hw : settle fill q (Entries.get? ms q.name) with
    | error e' => exact .error nofun
    | ok w? =>
      change Except.Related _ _ _ (checkProperty fill p (put ms q.name w?))
      rw [hp w?, hv]
      exact .ok (put_comm h ms v? w?)

/-- Properties whose names are all different may be checked in any order. -/
theorem checkProperties_perm (h : ps.Perm qs) (hd : (ps.map (·.name)).Nodup) (ms : List (String × Json)) :
    Except.Related (Violation.Matches False) MembersAgree (checkProperties fill ps ms)
      (checkProperties fill qs ms) := by
  have hself : ∀ ps : List (Property Template), List.Forall₂ (InterchangeableProperty False) ps ps :=
    fun ps => List.forall₂_same.mpr fun p _ => ⟨rfl, rfl, rfl, .refl _⟩
  induction h generalizing ms with
  | nil => exact .ok (.refl ms)
  | @cons p ps qs _ ih =>
    rw [checkProperties_cons, checkProperties_cons]
    cases checkProperty fill p ms with
    | error e => exact .error nofun
    | ok ms' => exact ih (List.nodup_cons.mp hd).2 ms'
  | swap p q ps =>
    have hne : q.name ≠ p.name := fun he =>
      (List.nodup_cons.mp hd).1 (List.mem_map.mpr ⟨p, List.mem_cons_self, he.symm⟩)
    have hsteps : ∀ a b : Property Template, checkProperties fill (a :: b :: ps) ms =
        (checkProperty fill a ms >>= checkProperty fill b) >>= checkProperties fill ps := fun a b => by
      rw [checkProperties_cons, bind_assoc]
      exact bind_congr fun ms' => checkProperties_cons b ps ms'
    rw [hsteps, hsteps]
    exact (checkProperty_swap hne ms).bind fun _ _ => checkProperties_agree (hself ps)
  | trans h₁ _ ih₁ ih₂ =>
    have hd₂ := ((h₁.map (·.name)).nodup_iff).mp hd
    exact (ih₁ hd ms).comp (ih₂ hd₂ ms) (fun _ _ _ _ _ => nofun) fun _ _ _ => .trans

namespace Interchangeable

variable {t u : Template}

theorem setDefault (h : t.Interchangeable exact u) (d : Json) :
    (t.setDefault d).Interchangeable exact (u.setDefault d) where
  tag := by rw [tag_setDefault, tag_setDefault, h.tag]
  declaredDefault := by rw [declaredDefault_setDefault, declaredDefault_setDefault]
  default? := by rw [default?_setDefault, default?_setDefault]
  check fill v w hvw := by
    rw [check_setDefault, check_setDefault]
    exact h.check fill hvw

theorem array (h : t.Interchangeable exact u) (d : Option Json) :
    (Template.array d (some t)).Interchangeable exact (Template.array d (some u)) :=
  ⟨rfl, rfl, rfl, fun fill _ _ hvw =>
    Tag.array.guard_agree hvw (onItems_agree hvw fun _ _ hs => eachItem_agree hs fun _ _ => h.check fill)⟩

/-- Object templates are interchangeable if their properties are, in one order or another. -/
theorem object {rs : List (Property Template)} (hperm : ps.Perm rs) (hd : (ps.map (·.name)).Nodup)
    (h : List.Forall₂ (InterchangeableProperty False) rs qs) (d : Option Json) :
    (Template.object d ps).Interchangeable False (Template.object d qs) := by
  refine ⟨rfl, rfl, rfl, fun fill v w hvw => ?_⟩
  refine Tag.object.guard_agree hvw (onMembers_agree hvw fun ms ns hm => ?_)
  exact (checkProperties_perm hperm hd ms).comp (checkProperties_agree h hm) (fun _ _ _ _ _ => nofun)
    fun _ _ _ => .trans

end Interchangeable

variable {resolve : Resolver}

/-- A member of a definition whose value is given in another order declares a property that is
interchangeable with the one it declared before. -/
theorem DerivesProperty.reordered {m n : String × Json} (h : DerivesProperty resolve m p)
    (hkey : m.1 = n.1)
    (ih : ∀ t, Derives resolve m.2 t → ∃ u, Derives resolve n.2 u ∧ t.Interchangeable False u) :
    ∃ q, DerivesProperty resolve n q ∧ InterchangeableProperty False p q := by
  obtain ⟨s, d⟩ := n
  obtain ⟨_, _⟩ := m
  obtain rfl := hkey
  cases h with
  | @plain _ _ key t spelled noDefault h nulls =>
    obtain ⟨u, hu, htu⟩ := ih t h
    exact ⟨_, .plain (spelled) noDefault hu (htu.tag ▸ nulls), rfl, rfl, rfl, htu⟩
  | @withDefault _ _ key t v spelled default optional h undeclared accepted nulls =>
    obtain ⟨u, hu, htu⟩ := ih t h
    exact ⟨_, .withDefault (spelled) default optional hu (htu.declaredDefault ▸ undeclared)
      (htu.tag ▸ accepted) (htu.tag ▸ nulls), rfl, rfl, rfl, htu.setDefault v⟩

/-- A definition given in another order is derivable again, and comes to a template that is
interchangeable with the one before. -/
theorem Derives.reordered {d d' : Json} {t : Template} (h : Derives resolve d t) (hd : Reordered d d') :
    ∃ u, Derives resolve d' u ∧ t.Interchangeable False u := by
  induction d generalizing d' t with
  | array ds ih =>
    cases hd with
    | array hs =>
      cases h with
      | freeArray =>
        cases hs
        exact ⟨_, .freeArray, .refl _⟩
      | @array d item h plain =>
        obtain ⟨d', ds', hdd, hnil, rfl⟩ := List.forall₂_cons_left_iff.mp hs
        obtain rfl := List.forall₂_nil_left_iff.mp hnil
        obtain ⟨u, hu, htu⟩ := ih d List.mem_cons_self h hdd
        exact ⟨_, .array hu (htu.declaredDefault ▸ plain), htu.array none⟩
  | object ms ih =>
    cases hd with
    | @object _ rs ns order members =>
      cases h with
      | @object _ ps h distinct =>
        obtain ⟨qs, hqs, hperm⟩ := List.perm_comp_forall₂ order.symm h
        have hnext : ∀ m ∈ rs, ∀ n, ReorderedMember m n → ∀ p, DerivesProperty resolve m p →
            ∃ q, DerivesProperty resolve n q ∧ InterchangeableProperty False p q := by
          intro m hm n hmn p hp
          obtain ⟨hkey, hvalue⟩ := reorderedMember_iff.mp hmn
          exact hp.reordered hkey fun t ht => ih m (order.mem_iff.mpr hm) ht hvalue
        obtain ⟨us, hus, hqu⟩ := exists_forall₂ (forall₂_of_mem members hnext) hqs
        have hnodup : (us.map (·.name)).Nodup :=
          names_eq hqu ▸ (hperm.map (·.name)).nodup_iff.mpr distinct
        exact ⟨_, .object hus hnodup, .object hperm.symm distinct hqu none⟩
  | _ =>
    cases hd
    exact ⟨t, h, .refl t⟩

theorem compile_reordered {d d' : Json} (h : Reordered d d') {t : Template}
    (ht : compile resolve d = .ok t) :
    ∃ u, compile resolve d' = .ok u ∧ t.Interchangeable False u := by
  obtain ⟨u, hu, htu⟩ := (compile_eq_ok_iff.mp ht).reordered h
  exact ⟨u, compile_eq_ok_iff.mpr hu, htu⟩

/-- Definitions that differ in the order of keys compile both or neither, and to templates that admit and
fill documents alike up to that order. -/
theorem key_order_irrelevant (resolve : Resolver) {d d' : Json} (h : Reordered d d') :
    ((∃ t, compile resolve d = .ok t) ↔ ∃ t', compile resolve d' = .ok t') ∧
      ∀ t t', compile resolve d = .ok t → compile resolve d' = .ok t' →
        ∀ fill v v', v.KeysDistinct → Reordered v v' →
          Except.Related (fun e e' => d = d' → e.SameSpot e') Reordered (t.check fill v)
            (t'.check fill v') := by
  refine ⟨⟨fun ⟨t, ht⟩ => ?_, fun ⟨t, ht⟩ => ?_⟩, fun t t' ht ht' fill v v' hd hv => ?_⟩
  · obtain ⟨u, hu, -⟩ := compile_reordered h ht
    exact ⟨u, hu⟩
  · obtain ⟨u, hu, -⟩ := compile_reordered h.symm ht
    exact ⟨u, hu⟩
  · have hresults : ResultsAgree (d = d') (t.check fill v) (t'.check fill v') := by
      by_cases heq : d = d'
      · subst heq
        obtain rfl := Except.ok.inj (ht.symm.trans ht')
        exact (Interchangeable.refl t).check fill (hv.agrees hd)
      · obtain ⟨u, hu, htu⟩ := compile_reordered h ht
        obtain rfl := Except.ok.inj (hu.symm.trans ht')
        exact (htu.check fill (hv.agrees hd)).imp (fun _ _ _ he => absurd he heq) fun _ _ => id
    exact hresults.imp (fun _ _ => id) fun _ _ => Agrees.reordered

def portMember : String × Json := ("port required", .string ":int")

def hostMember : String × Json := ("host", .string "localhost")

def portProperty : Property Template := ⟨"port", true, false, .value .int none⟩

def hostProperty : Property Template := ⟨"host", false, true, .value .string (some (.string "localhost"))⟩

theorem listener_keys_in_any_order :
    compile TypeRef.builtin? (.object [portMember, hostMember]) =
        .ok (.object none [portProperty, hostProperty]) ∧
      compile TypeRef.builtin? (.object [hostMember, portMember]) =
        .ok (.object none [hostProperty, portProperty]) ∧
      Except.Related (fun e e' => Json.object [portMember, hostMember] = .object [hostMember, portMember] →
          Violation.SameSpot e e') Reordered
        ((object none [portProperty, hostProperty]).check true (.object [("port", .number (.int 80)),
          ("tls", .bool true)]))
        ((object none [hostProperty, portProperty]).check true (.object [("tls", .bool true),
          ("port", .number (.int 80))])) := by
  have hdefinition : Reordered (.object [portMember, hostMember]) (.object [hostMember, portMember]) :=
    .object (.swap _ _ _) (.cons (.mk _ (.string _)) (.cons (.mk _ (.string _)) .nil))
  have hkeys : (Json.object [("port", .number (.int 80)), ("tls", .bool true)]).KeysDistinct :=
    .object (show ["port", "tls"].Nodup by decide) (by simp)
  have hdocument : Reordered (.object [("port", .number (.int 80)), ("tls", .bool true)])
      (.object [("tls", .bool true), ("port", .number (.int 80))]) :=
    .object (.swap _ _ _) (.cons (.mk _ (.bool _)) (.cons (.mk _ (.number _)) .nil))
  have ht : compile TypeRef.builtin? (.object [portMember, hostMember]) =
      .ok (.object none [portProperty, hostProperty]) := by with_unfolding_all rfl
  have ht' : compile TypeRef.builtin? (.object [hostMember, portMember]) =
      .ok (.object none [hostProperty, portProperty]) := by with_unfolding_all rfl
  exact ⟨ht, ht', (key_order_irrelevant TypeRef.builtin? hdefinition).2 _ _ ht ht' true _ _ hkeys hdocument⟩

end Template

end Stencil
