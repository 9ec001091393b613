import Stencil.Proofs.Compiling
import Stencil.Proofs.Documents
import Stencil.Proofs.Keys
import Stencil.Proofs.Occurrences

/-! Well-formed templates, and compiling, which delivers no others. -/
namespace Stencil

/-- What holds of a property that has been declared. -/
structure Property.Sound (p : Property Template) : Prop where
  name_ne_empty : p.name ≠ ""
  name_unbroken : ' ' ∉ p.name.toList
  /-- What need not be there may be null. -/
  nullable_of_optional : p.required = false → p.nullable = true
  nullable_of_null : p.template.tag = .null → p.nullable = true

namespace Template

/-- What holds at one node of a template that has been compiled. -/
structure Sound (t : Template) : Prop where
  default_accepted : ∀ v, t.default? = some v → t.tag.accepts v = true
  declaredDefault_accepted : ∀ v, t.declaredDefault = some v → t.tag.accepts v = true
  item_plain : ∀ item, t.item? = some item → item.declaredDefault = none
  names_distinct : (t.properties.map (·.name)).Nodup
  properties_sound : ∀ p ∈ t.properties, p.Sound
  value_scalar : ∀ tag d, t = value tag d → tag ≠ .array ∧ tag ≠ .object

/-- Every node is as it should be. -/
def WellFormed (t : Template) : Prop := t.Everywhere Sound

theorem WellFormed.namesDistinct {t : Template} (h : t.WellFormed) : t.NamesDistinct :=
  h.imp fun _ hs => hs.names_distinct

@[simp] theorem tag_setDefault (v : Json) (t : Template) : (t.setDefault v).tag = t.tag := by
  cases t <;> rfl

@[simp] theorem default?_setDefault (v : Json) (t : Template) : (t.setDefault v).default? = some v := by
  cases t <;> rfl

@[simp] theorem declaredDefault_setDefault (v : Json) (t : Template) :
    (t.setDefault v).declaredDefault = some v := by
  cases t <;> rfl

@[simp] theorem item?_setDefault (v : Json) (t : Template) : (t.setDefault v).item? = t.item? := by
  cases t <;> rfl

@[simp] theorem properties_setDefault (v : Json) (t : Template) :
    (t.setDefault v).properties = t.properties := by
  cases t <;> rfl

theorem Sound.setDefault {t : Template} (h : t.Sound) {v : Json} (hv : t.tag.accepts v = true) :
    (t.setDefault v).Sound where
  default_accepted w hw := by
    rw [default?_setDefault] at hw
    rw [tag_setDefault]
    exact Option.some.inj hw ▸ hv
  declaredDefault_accepted w hw := by
    rw [declaredDefault_setDefault] at hw
    rw [tag_setDefault]
    exact Option.some.inj hw ▸ hv
  item_plain item hi := h.item_plain item (item?_setDefault v t ▸ hi)
  names_distinct := by
    rw [properties_setDefault]
    exact h.names_distinct
  properties_sound p hp := h.properties_sound p (properties_setDefault v t ▸ hp)
  value_scalar tag d ht := by
    cases t with
    | value tag' d' =>
      cases ht
      exact h.value_scalar tag d' rfl
    | _ => cases ht

/-- What is known of an object template that is well formed. -/
theorem WellFormed.object {d : Option Json} {ps : List (Property Template)}
    (h : (Template.object d ps).WellFormed) :
    (ps.map (·.name)).Nodup ∧ ∀ p ∈ ps, p.Sound ∧ p.template.WellFormed := by
  obtain ⟨hs, hps⟩ := everywhere_object_iff.mp h
  exact ⟨hs.names_distinct, fun p hp => ⟨hs.properties_sound p hp, hps p hp⟩⟩

/-- A template stays well formed when it is given a default of its type. -/
theorem WellFormed.setDefault {t : Template} (h : t.WellFormed) {v : Json}
    (hv : t.tag.accepts v = true) : (t.setDefault v).WellFormed :=
  Everywhere.setDefault h (h.root.setDefault hv)

theorem default?_of_declaredDefault {t : Template} {v : Json} (h : t.declaredDefault = some v) :
    t.default? = some v := by
  cases t with
  | named definition d =>
    rw [declaredDefault] at h
    rw [h, default?]
  | _ => exact h

/-- A node without an item template and without properties. -/
theorem Sound.of_leaf {t : Template} (hi : t.item? = none) (hp : t.properties = [])
    (hd : ∀ v, t.default? = some v → t.tag.accepts v = true)
    (hs : ∀ tag d, t = value tag d → tag ≠ .array ∧ tag ≠ .object) : t.Sound where
  default_accepted := hd
  declaredDefault_accepted v hv := hd v (default?_of_declaredDefault hv)
  item_plain item h := by simp [hi] at h
  names_distinct := by simp [hp]
  properties_sound p h := by simp [hp] at h
  value_scalar := hs

theorem Sound.array {item : Template} (h : item.declaredDefault = none) :
    (Template.array none (some item)).Sound where
  default_accepted v hv := by cases hv
  declaredDefault_accepted v hv := by cases hv
  item_plain item' hi := by
    obtain rfl := Option.some.inj hi
    exact h
  names_distinct := List.nodup_nil
  properties_sound p hp := by cases hp
  value_scalar tag d ht := by cases ht

theorem Sound.object {ps : List (Property Template)} (hd : (ps.map (·.name)).Nodup)
    (h : ∀ p ∈ ps, p.Sound) : (Template.object none ps).Sound where
  default_accepted v hv := by cases hv
  declaredDefault_accepted v hv := by cases hv
  item_plain item hi := by cases hi
  names_distinct := hd
  properties_sound := h
  value_scalar tag d ht := by cases ht

theorem constant_wellFormed {v : Json} (ha : Tag.ofKind v.kind ≠ .array)
    (ho : Tag.ofKind v.kind ≠ .object) : (constant v).WellFormed := by
  refine everywhere_value_iff.mpr (.of_leaf rfl rfl (fun w hw => ?_) fun tag d ht => ?_)
  · obtain rfl := Option.some.inj hw
    exact Tag.ofKind_accepts v
  · cases ht
    exact ⟨ha, ho⟩

end Template

/-- What a type name may stand for: a built-in type or a well-formed definition. -/
def TypeRef.WellFormed : TypeRef → Prop
  | builtin _ => True
  | defined definition => definition.template.WellFormed

theorem TypeRef.instantiate_wellFormed {ref : TypeRef} (hr : ref.WellFormed) {d : Option Json}
    (hd : ∀ v, d = some v → ref.tag.accepts v = true) : (ref.instantiate d).WellFormed := by
  cases ref with
  | builtin tag =>
    cases tag with
    | array => exact Template.everywhere_freeArray_iff.mpr (.of_leaf rfl rfl hd fun _ _ h => nomatch h)
    | object =>
      refine Template.everywhere_object_iff.mpr ⟨.of_leaf rfl rfl hd (fun _ _ h => nomatch h), ?_⟩
      intro p hp
      cases hp
    | _ =>
      refine Template.everywhere_value_iff.mpr (.of_leaf rfl rfl hd fun tag d h => ?_)
      cases h
      decide
  | defined definition =>
    refine Template.everywhere_named_iff.mpr ⟨.of_leaf rfl rfl ?_ (fun _ _ h => nomatch h), hr⟩
    intro v hv
    cases d with
    | none => exact hr.root.default_accepted v hv
    | some w => exact hd v hv

namespace Template

variable {resolve : Resolver}

/-- A property whose template is well formed before its key has had its say. -/
theorem declare_sound {earlier : List String} {s : String} {key : PropertyKey} {t u : Template}
    {p : Property Template} (ht : t.WellFormed) (hk : PropertyKey.read s = .ok key)
    (hu : withDefault key t = .ok u) (hp : declare earlier key u = .ok p) :
    p.Sound ∧ p.template.WellFormed ∧ p.name ∉ earlier := by
  obtain ⟨hnull, hnew, rfl⟩ := declare_eq_ok_iff.mp hp
  obtain ⟨hne, hsp, hopt⟩ := PropertyKey.read_eq_ok hk
  refine ⟨⟨hne, hsp, hopt, hnull⟩, ?_, hnew⟩
  rcases withDefault_eq_ok_iff.mp hu with ⟨-, rfl⟩ | ⟨v, -, -, -, hv, rfl⟩
  · exact ht
  · exact ht.setDefault hv

theorem compileMembers_sound {ms : List (String × Json)}
    (ih : ∀ m ∈ ms, ∀ t, compile resolve m.2 = .ok t → t.WellFormed) {earlier : List String}
    {ps : List (Property Template)} (h : compileMembers resolve earlier ms = .ok ps) :
    (ps.map (·.name)).Nodup ∧ ∀ p ∈ ps, p.Sound ∧ p.template.WellFormed ∧ p.name ∉ earlier := by
  induction ms generalizing earlier ps with
  | nil =>
    cases h
    simp
  | cons m ms ihms =>
    obtain ⟨key, t, u, p, qs, hk, ht, hu, hp, hqs, rfl⟩ := compileMembers_cons_eq_ok_iff.mp h
    have hps := declare_sound (ih m List.mem_cons_self t ht) hk hu hp
    -- the members that follow know the name of this one among the earlier ones
    obtain ⟨hd, hall⟩ := ihms (fun n hn => ih n (List.mem_cons_of_mem m hn)) hqs
    constructor
    · rw [List.map_cons, List.nodup_cons]
      refine ⟨fun hm => ?_, hd⟩
      obtain ⟨q, hq, he⟩ := List.mem_map.mp hm
      exact (hall q hq).2.2 (he ▸ List.mem_append_right earlier List.mem_cons_self)
    · intro q hq
      rcases List.mem_cons.mp hq with rfl | hq
      · exact hps
      · obtain ⟨hs, hw, hn⟩ := hall q hq
        exact ⟨hs, hw, fun hm => hn (List.mem_append_left _ hm)⟩

/-- Compiling with names that stand for built-in types and well-formed definitions delivers a
well-formed template. -/
theorem compile_wellFormed (hr : ∀ name ref, resolve name = some ref → ref.WellFormed) {d : Json}
    {t : Template} (h : compile resolve d = .ok t) : t.WellFormed := by
  induction d generalizing t with
  | null | bool b | number n =>
    rw [compile] at h
    cases h
    exact constant_wellFormed (fun h => nomatch h) fun h => nomatch h
  | string s =>
    rw [compile] at h
    rcases ofText_eq_ok h with ⟨text, rfl⟩ | ⟨text, h⟩
    · exact constant_wellFormed (fun h => nomatch h) fun h => nomatch h
    · obtain ⟨name, ref, d, href, hd, rfl⟩ := directive_eq_ok h
      exact TypeRef.instantiate_wellFormed (hr name ref href) hd
  | array ds ih =>
    match ds with
    | [] =>
      rw [compile] at h
      cases h
      exact everywhere_freeArray_iff.mpr
        (.of_leaf rfl rfl (fun _ h => nomatch h) fun _ _ h => nomatch h)
    | [d] =>
      rw [compile] at h
      obtain ⟨item, hi, h⟩ := Except.bind_eq_ok_iff.mp h
      obtain ⟨hd, rfl⟩ := ofItem_eq_ok_iff.mp h
      exact everywhere_array_iff.mpr ⟨.array hd, ih d List.mem_cons_self hi⟩
    | _ :: _ :: _ =>
      rw [compile] at h
      cases h
  | object ms ih =>
    rw [compile] at h
    obtain ⟨ps, hps, rfl⟩ := Except.map_eq_ok_iff.mp h
    obtain ⟨hd, hall⟩ := compileMembers_sound (fun m hm t ht => ih m hm ht) hps
    exact everywhere_object_iff.mpr
      ⟨.object hd fun p hp => (hall p hp).1, fun p hp => (hall p hp).2.1⟩

end Template

end Stencil
