import Mathlib.Data.List.Nodup
import Stencil.Proofs.Conformance
import Stencil.Proofs.WellFormed

/-! Documents made up for a template. Every well-formed template has one that conforms to it, and every
node of the template is come to in checking one of them. -/
namespace Stencil

/-- A document of the type; it is null only where nothing else will do. -/
def Tag.sample : Tag → Json
  | int | number => .number (.int 0)
  | string | char => .string "a"
  | boolean | any => .bool false
  | null => .null
  | array => .array []
  | object => .object []

theorem Tag.accepts_sample (t : Tag) : t.accepts t.sample = true := by
  cases t <;> decide

theorem Tag.sample_eq_null {t : Tag} (h : t.sample = .null) : t = null := by
  cases t <;> first | rfl | cases h

theorem Tag.sample_keysDistinct (t : Tag) : t.sample.KeysDistinct := by
  cases t <;> simp [sample, Json.keysDistinct_array_iff, Json.keysDistinct_object_iff, Entries.Distinct]

namespace Template

mutual

/-- A document that has all that the template declares, and no items. -/
def sample : Template → Json
  | value tag _ => tag.sample
  | array _ _ => .array []
  | object _ ps => .object (sampleMembers ps)
  | named definition _ => sample definition.template

def sampleMembers : List (Property Template) → List (String × Json)
  | [] => []
  | p :: ps => (p.name, sample p.template) :: sampleMembers ps

end

variable {p : Property Template} {ps : List (Property Template)}

theorem sampleMembers_eq_map (ps : List (Property Template)) :
    sampleMembers ps = ps.map fun p => (p.name, p.template.sample) := by
  induction ps with
  | nil => rfl
  | cons p ps ih => rw [sampleMembers, ih, List.map_cons]

theorem keys_sampleMembers (ps : List (Property Template)) :
    Entries.keys (sampleMembers ps) = ps.map (·.name) := by
  simp [sampleMembers_eq_map, Entries.keys]

theorem distinct_sampleMembers (hd : (ps.map (·.name)).Nodup) : Entries.Distinct (sampleMembers ps) := by
  rw [Entries.Distinct, keys_sampleMembers]
  exact hd

theorem get?_sampleMembers (hd : (ps.map (·.name)).Nodup) (hp : p ∈ ps) :
    Entries.get? (sampleMembers ps) p.name = some p.template.sample := by
  refine Entries.get?_of_mem (distinct_sampleMembers hd) ?_
  rw [sampleMembers_eq_map]
  exact List.mem_map_of_mem hp

theorem sample_eq_null {t : Template} (h : t.sample = .null) : t.tag = .null := by
  induction t with
  | value tag d => exact Tag.sample_eq_null h
  | named definition d ih => exact ih h
  | _ => cases h

theorem conforms_array_iff {d : Option Json} {item : Template} {vs : List Json} :
    (array d (some item)).Conforms (.array vs) ↔ ∀ v ∈ vs, item.Conforms v := by
  rw [Conforms]
  exact and_iff_right rfl

theorem conforms_object_iff {d : Option Json} {ms : List (String × Json)} :
    (object d ps).Conforms (.object ms) ↔
      ∀ p ∈ ps, p.Admits p.template.Conforms (Entries.get? ms p.name) := by
  rw [Conforms, Json.members, admitMembers_iff]
  exact and_iff_right rfl

/-- A property admits the sample of its template; where that is null, null is allowed. -/
theorem admits_sample (hp : p.Sound) (h : p.template.Conforms p.template.sample) :
    p.Admits p.template.Conforms (some p.template.sample) := by
  by_cases hs : p.template.sample = .null
  · rw [hs]
    exact hp.nullable_of_null (sample_eq_null hs)
  · exact (Property.admits_some hs).mpr h

theorem sample_conforms {t : Template} (ht : t.WellFormed) : t.Conforms t.sample := by
  induction t with
  | value tag d => exact Tag.accepts_sample tag
  | freeArray d => rfl
  | array d item ih => exact conforms_array_iff.mpr fun v hv => nomatch hv
  | object d ps ih =>
    obtain ⟨hd, hps⟩ := ht.object
    refine conforms_object_iff.mpr fun p hp => ?_
    rw [get?_sampleMembers hd hp]
    exact admits_sample (hps p hp).1 (ih p hp (hps p hp).2)
  | named definition d ih =>
    have hc := ih (everywhere_named_iff.mp ht).2
    exact ⟨hc.accepts, hc⟩

theorem sample_keysDistinct {t : Template} (ht : t.NamesDistinct) : t.sample.KeysDistinct := by
  induction t with
  | value tag d => exact tag.sample_keysDistinct
  | freeArray d => exact Json.keysDistinct_array_iff.mpr fun v hv => nomatch hv
  | array d item ih => exact Json.keysDistinct_array_iff.mpr fun v hv => nomatch hv
  | object d ps ih =>
    obtain ⟨hd, hps⟩ := everywhere_object_iff.mp ht
    refine Json.keysDistinct_object_iff.mpr ⟨distinct_sampleMembers hd, fun m hm => ?_⟩
    rw [sampleMembers_eq_map] at hm
    obtain ⟨p, hp, rfl⟩ := List.mem_map.mp hm
    exact ih p hp (hps p hp)
  | named definition d ih => exact ih (everywhere_named_iff.mp ht).2

/-- An optional property may be missing from a document that conforms. -/
theorem exists_conforms_without {d : Option Json} (ht : (object d ps).WellFormed) (hp : p ∈ ps)
    (hr : p.required = false) :
    ∃ ms, Entries.get? ms p.name = none ∧ (object d ps).Conforms (.object ms) ∧
      (Json.object ms).KeysDistinct := by
  obtain ⟨hd, hps⟩ := ht.object
  let others := ps.filter (·.name ≠ p.name)
  have hdo : (others.map (·.name)).Nodup := hd.sublist (List.filter_sublist.map _)
  have hnone : Entries.get? (sampleMembers others) p.name = none := by
    rw [Entries.get?_eq_none_iff, keys_sampleMembers]
    simp [others]
  refine ⟨sampleMembers others, hnone, conforms_object_iff.mpr fun q hq => ?_, ?_⟩
  · by_cases hqp : q.name = p.name
    · rw [hqp, hnone]
      obtain rfl := List.inj_on_of_nodup_map hd hq hp hqp
      exact ⟨hr, (hps q hq).1.nullable_of_optional hr⟩
    · have hqo : q ∈ others := List.mem_filter.mpr ⟨hq, decide_eq_true hqp⟩
      rw [get?_sampleMembers hdo hqo]
      exact admits_sample (hps q hq).1 (sample_conforms (hps q hq).2)
  · have hn : (object d others).NamesDistinct := by
      refine everywhere_object_iff.mpr ⟨hdo, fun q hq => ?_⟩
      exact (hps q (List.mem_filter.mp hq).1).2.namesDistinct
    exact sample_keysDistinct hn

/-- `Visits s v t w`: in checking `w` against `t`, the document `v` inside `w` is checked against the
node `s` of `t`. -/
inductive Visits (s : Template) (v : Json) : Template → Json → Prop
  | here : Visits s v s v
  | item {d : Option Json} {item : Template} {ws : List Json} {w : Json} (mem : w ∈ ws)
      (h : Visits s v item w) : Visits s v (.array d (some item)) (.array ws)
  | property {d : Option Json} {ps : List (Property Template)} {p : Property Template}
      {ms : List (String × Json)} {w : Json} (mem : p ∈ ps) (get : Entries.get? ms p.name = some w)
      (present : w ≠ .null) (h : Visits s v p.template w) : Visits s v (.object d ps) (.object ms)
  | definition {definition : TypeDef Template} {d : Option Json} {w : Json}
      (h : Visits s v definition.template w) : Visits s v (.named definition d) w

/-- The samples of the properties, with another document in the place of one of them. -/
theorem conforms_insert {d : Option Json} {w : Json} (ht : (object d ps).WellFormed) (hp : p ∈ ps)
    (hc : p.template.Conforms w) (hw : w ≠ .null) :
    (object d ps).Conforms (.object (Entries.insert (sampleMembers ps) p.name w)) := by
  obtain ⟨hd, hps⟩ := ht.object
  refine conforms_object_iff.mpr fun q hq => ?_
  by_cases hpq : p.name = q.name
  · obtain rfl := List.inj_on_of_nodup_map hd hp hq hpq
    rw [Entries.get?_insert_self]
    exact (Property.admits_some hw).mpr hc
  · rw [Entries.get?_insert_of_ne _ _ hpq, get?_sampleMembers hd hq]
    exact admits_sample (hps q hq).1 (sample_conforms (hps q hq).2)

theorem keysDistinct_insert {d : Option Json} {w : Json} (ht : (object d ps).NamesDistinct)
    (hw : w.KeysDistinct) (k : String) :
    (Json.object (Entries.insert (sampleMembers ps) k w)).KeysDistinct := by
  have hsample := Json.keysDistinct_object_iff.mp (sample_keysDistinct ht)
  refine Json.keysDistinct_object_iff.mpr ⟨Entries.distinct_insert hsample.1 k w, fun m hm => ?_⟩
  rcases Entries.mem_insert hm with rfl | hm
  · exact hw
  · exact hsample.2 m hm

/-- Whatever conforms to a node can be checked against it as a part of a document that conforms to the
whole template. -/
theorem exists_visits {s t : Template} (h : Occurs s t) (ht : t.WellFormed) {v : Json} (hv : v ≠ .null)
    (hd : v.KeysDistinct) (hc : s.Conforms v) :
    ∃ w, w ≠ .null ∧ w.KeysDistinct ∧ t.Conforms w ∧ Visits s v t w := by
  induction h with
  | here => exact ⟨v, hv, hd, hc, .here⟩
  | item h ih =>
    obtain ⟨w, -, hwd, hwc, hvisit⟩ := ih (everywhere_array_iff.mp ht).2
    refine ⟨.array [w], Json.noConfusion, ?_, ?_, .item List.mem_cons_self hvisit⟩
    · exact Json.keysDistinct_array_iff.mpr (List.forall_mem_singleton.mpr hwd)
    · exact conforms_array_iff.mpr (List.forall_mem_singleton.mpr hwc)
  | property hp h ih =>
    obtain ⟨w, hw, hwd, hwc, hvisit⟩ := ih ((everywhere_object_iff.mp ht).2 _ hp)
    refine ⟨_, Json.noConfusion, keysDistinct_insert ht.namesDistinct hwd _,
      conforms_insert ht hp hwc hw, .property hp (Entries.get?_insert_self _ _ _) hw hvisit⟩
  | definition h ih =>
    obtain ⟨w, hw, hwd, hwc, hvisit⟩ := ih (everywhere_named_iff.mp ht).2
    exact ⟨w, hw, hwd, ⟨hwc.accepts, hwc⟩, .definition hvisit⟩

end Template

end Stencil
