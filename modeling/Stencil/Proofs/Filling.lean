import Stencil.Proofs.Conformance
import Stencil.Proofs.Verdicts

/-! What a document is filled to. The loop over the properties of an object changes one member at a
time; what it comes to is a map over the members there are, and then the defaults of those that there
are not. -/
namespace Stencil

namespace Template

/-- The defaults of the properties that are not among the members, in the order of the properties. -/
def absentDefaults (ps : List (Property Template)) (ms : List (String × Json)) : List (String × Json) :=
  ps.filterMap fun p => if p.name ∈ Entries.keys ms then none else p.template.default?.map (p.name, ·)

mutual

/-- The document with all defaults in the places of what it lacks. -/
def filled : Template → Json → Json
  | value _ _, v => v
  | array _ none, v => v
  | array _ (some item), v => v.mapItems (filled item)
  | object _ ps, v =>
    v.mapMembers fun ms => ms.map (fun m => (m.1, filledMember ps m.1 m.2)) ++ absentDefaults ps ms
  | named definition _, v => filled definition.template v

/-- What becomes of the value of the member `k`. -/
def filledMember : List (Property Template) → String → Json → Json
  | [], _, v => v
  | p :: ps, k, v =>
    if p.name = k then (if v.isNull then v else filled p.template v) else filledMember ps k v

end

/-- The members of an object once its properties have been seen to. -/
def filledMembers (ps : List (Property Template)) (ms : List (String × Json)) : List (String × Json) :=
  ms.map (fun m => (m.1, filledMember ps m.1 m.2)) ++ absentDefaults ps ms

variable {p : Property Template} {ps : List (Property Template)} {ms ns : List (String × Json)}

theorem filledMember_of_notMem {k : String} (h : k ∉ ps.map (·.name)) (v : Json) :
    filledMember ps k v = v := by
  induction ps with
  | nil => rfl
  | cons p ps ih =>
    rw [List.map_cons, List.mem_cons, not_or] at h
    rw [filledMember, if_neg (Ne.symm h.1), ih h.2]

theorem filledMember_cons (hp : p.name ∉ ps.map (·.name)) (k : String) (v : Json) :
    filledMember (p :: ps) k v = filledMember ps k (filledMember [p] k v) := by
  simp only [filledMember]
  by_cases h : p.name = k
  · subst h
    rw [if_pos rfl, if_pos rfl, filledMember_of_notMem hp]
  · rw [if_neg h, if_neg h]

theorem filledMember_self {v : Json} (hv : v ≠ .null) :
    filledMember [p] p.name v = p.template.filled v := by
  rw [filledMember, if_pos rfl, if_neg (mt Json.isNull_iff.mp hv)]

theorem filledMember_null : filledMember [p] p.name .null = .null := by
  simp [filledMember, Json.isNull]

theorem absentDefaults_congr (h : ∀ p ∈ ps, p.name ∈ Entries.keys ms ↔ p.name ∈ Entries.keys ns) :
    absentDefaults ps ms = absentDefaults ps ns :=
  List.filterMap_congr fun p hp => by simp only [h p hp]

theorem absentDefaults_cons :
    absentDefaults (p :: ps) ms = absentDefaults [p] ms ++ absentDefaults ps ms :=
  List.filterMap_append (l := [p])

/-- What is added are defaults of properties that were not there. -/
theorem mem_absentDefaults_iff {e : String × Json} :
    e ∈ absentDefaults ps ms ↔
      ∃ p ∈ ps, p.name = e.1 ∧ e.1 ∉ Entries.keys ms ∧ p.template.default? = some e.2 := by
  unfold absentDefaults
  rw [List.mem_filterMap]
  refine exists_congr fun p => and_congr_right fun _ => ?_
  split
  · rename_i h
    simp only [reduceCtorEq, false_iff, not_and]
    intro he hn
    exact absurd (he ▸ h) hn
  · rename_i h
    rw [Option.map_eq_some_iff]
    constructor
    · intro h
      obtain ⟨d, hd, rfl⟩ := h
      exact ⟨rfl, h, hd⟩
    · intro he
      exact ⟨e.2, he.2.2, Prod.ext he.1 rfl⟩

theorem keys_filledMembers :
    Entries.keys (filledMembers ps ms) = Entries.keys ms ++ Entries.keys (absentDefaults ps ms) := by
  rw [filledMembers, Entries.keys_append]
  simp [Entries.keys]

/-- Seeing to one property and then to the others is seeing to all of them. -/
theorem filledMembers_cons (hp : p.name ∉ ps.map (·.name)) :
    filledMembers (p :: ps) ms = filledMembers ps (filledMembers [p] ms) := by
  have hnames : ∀ e ∈ absentDefaults [p] ms, e.1 = p.name := by
    intro e he
    obtain ⟨q, hq, hname, -⟩ := mem_absentDefaults_iff.mp he
    rw [← hname, List.mem_singleton.mp hq]
  have hnew : (absentDefaults [p] ms).map (fun m => (m.1, filledMember ps m.1 m.2)) =
      absentDefaults [p] ms := by
    refine (List.map_congr_left fun e he => ?_).trans (List.map_id _)
    rw [filledMember_of_notMem (hnames e he ▸ hp)]
    rfl
  -- what `p` adds has its own name, which the others do not look for
  have hrest : absentDefaults ps (filledMembers [p] ms) = absentDefaults ps ms := by
    refine absentDefaults_congr fun q hq => ?_
    rw [keys_filledMembers, List.mem_append, or_iff_left]
    intro h
    obtain ⟨e, he, hk⟩ := List.mem_map.mp h
    exact hp (hnames e he ▸ hk ▸ List.mem_map_of_mem hq)
  rw [filledMembers, filledMembers, hrest, absentDefaults_cons, ← List.append_assoc]
  congr 1
  rw [filledMembers, List.map_append, hnew, List.map_map]
  congr 1
  exact List.map_congr_left fun m _ => by simp only [Function.comp, filledMember_cons hp]

/-- Where keys are distinct, a member is filled by what its key is bound to. -/
theorem map_filledMember (hd : Entries.Distinct ms) {v : Json} (h : Entries.get? ms p.name = some v) :
    ms.map (fun m => (m.1, filledMember [p] m.1 m.2)) =
      Entries.insert ms p.name (filledMember [p] p.name v) := by
  have hk : p.name ∈ Entries.keys ms := Entries.mem_keys_of_mem (Entries.mem_of_get? h)
  rw [Entries.insert_of_mem hd _ hk]
  refine List.map_congr_left fun m hm => ?_
  by_cases he : m.1 = p.name
  · have hv : m.2 = v := Option.some.inj ((Entries.get?_of_mem hd (he ▸ hm)).symm.trans h)
    rw [if_pos he, he, hv]
  · rw [if_neg he, filledMember, if_neg (Ne.symm he), filledMember]

theorem absentDefaults_of_present {v : Json} (h : Entries.get? ms p.name = some v) :
    absentDefaults [p] ms = [] := by
  have hk : p.name ∈ Entries.keys ms := Entries.mem_keys_of_mem (Entries.mem_of_get? h)
  simp [absentDefaults, hk]

theorem filledMembers_of_absent (h : Entries.get? ms p.name = none) :
    filledMembers [p] ms = fillAbsent true p ms := by
  have hk : p.name ∉ Entries.keys ms := Entries.get?_eq_none_iff.mp h
  have hsame : ms.map (fun m => (m.1, filledMember [p] m.1 m.2)) = ms := by
    refine (List.map_congr_left fun m hm => ?_).trans (List.map_id ms)
    have hne : p.name ≠ m.1 := fun he => hk (he ▸ List.mem_map_of_mem hm)
    rw [filledMember, if_neg hne, filledMember]
    rfl
  rw [filledMembers, hsame]
  cases hd : p.template.default? with
  | none => simp [absentDefaults, fillAbsent, hd]
  | some d => simp [absentDefaults, fillAbsent, hd, hk, Entries.insert_of_notMem]

/-- One property fills the members that it finds. -/
theorem checkProperty_true (hd : Entries.Distinct ms)
    (ih : ∀ v w, Entries.get? ms p.name = some v → p.template.check true v = .ok w →
      w = p.template.filled v)
    (h : checkProperty true p ms = .ok ns) : ns = filledMembers [p] ms := by
  rcases checkProperty_eq_ok_iff.mp h with ⟨hg, -, rfl⟩ | ⟨v, w, hg, hv, hw, rfl⟩ | ⟨hg, -, -, rfl⟩
  · rw [filledMembers, absentDefaults_of_present hg, List.append_nil, map_filledMember hd hg,
      filledMember_null, Entries.insert_get? hg]
  · rw [filledMembers, absentDefaults_of_present hg, List.append_nil, map_filledMember hd hg,
      filledMember_self hv, ih v w hg hw]
  · rw [filledMembers_of_absent hg]

/-- All properties fill the members one after the other; each finds its own member as it was. -/
theorem checkProperties_true (hd : Entries.Distinct ms) (hn : (ps.map (·.name)).Nodup)
    (ih : ∀ p ∈ ps, ∀ v w, Entries.get? ms p.name = some v → p.template.check true v = .ok w →
      w = p.template.filled v)
    (h : checkProperties true ps ms = .ok ns) : ns = filledMembers ps ms := by
  induction ps generalizing ms with
  | nil =>
    cases h
    simp [filledMembers, filledMember, absentDefaults]
  | cons p ps ihps =>
    rw [List.map_cons, List.nodup_cons] at hn
    rw [checkProperties_cons] at h
    obtain ⟨ms', hms, h⟩ := Except.bind_eq_ok_iff.mp h
    have hfill := checkProperty_true hd (ih p List.mem_cons_self) hms
    -- the members that `p` leaves behind are those that the rest starts from
    rw [filledMembers_cons hn.1, ← hfill]
    refine ihps (distinct_checkProperty hd hms) hn.2 (fun q hq v w hv hw => ?_) h
    have hne : p.name ≠ q.name := fun he => hn.1 (he ▸ List.mem_map_of_mem hq)
    rw [get?_checkProperty hms hne] at hv
    exact ih q (List.mem_cons_of_mem p hq) v w hv hw

theorem items_true {item : Template} {vs ws : List Json}
    (ih : ∀ v ∈ vs, ∀ w, item.check true v = .ok w → w = item.filled v)
    (h : List.Forall₂ (fun v w => item.check true v = .ok w) vs ws) : ws = vs.map item.filled := by
  induction h with
  | nil => rfl
  | cons hw _ ihvs =>
    have hv := ih _ List.mem_cons_self _ hw
    have hvs := ihvs fun v hv => ih v (List.mem_cons_of_mem _ hv)
    rw [List.map_cons, ← hv, ← hvs]

/-- Where names and keys are distinct, a document that passes is filled. -/
theorem check_true {t : Template} (ht : t.NamesDistinct) {v w : Json} (hv : v.KeysDistinct)
    (h : t.check true v = .ok w) : w = t.filled v := by
  induction t generalizing v w with
  | value tag d => exact (Except.ok.inj (Tag.guard_eq_ok_iff.mp h).2).symm
  | freeArray d => exact (Except.ok.inj (Tag.guard_eq_ok_iff.mp h).2).symm
  | array d item ih =>
    obtain ⟨vs, ws, rfl, rfl, hws⟩ := check_array_eq_ok_iff.mp h
    have hi := (everywhere_array_iff.mp ht).2
    have hvs := Json.keysDistinct_array_iff.mp hv
    have heq := items_true (fun v hv w hw => ih hi (hvs v hv) hw) hws
    rw [heq, filled, Json.mapItems]
  | object d ps ih =>
    obtain ⟨ms, ns, rfl, rfl, hns⟩ := check_object_eq_ok_iff.mp h
    obtain ⟨hn, hps⟩ := everywhere_object_iff.mp ht
    obtain ⟨hd, hvs⟩ := Json.keysDistinct_object_iff.mp hv
    have heq : ns = filledMembers ps ms :=
      checkProperties_true hd hn (fun p hp v w hg hw => ih p hp (hps p hp)
        (hvs _ (Entries.mem_of_get? hg)) hw) hns
    rw [heq, filled, Json.mapMembers, filledMembers]
  | named definition d ih => exact ih (everywhere_named_iff.mp ht).2 hv h

/-- With defaults or without, the documents that pass are those that conform. -/
theorem passes_iff_conforms {t : Template} (ht : t.NamesDistinct) (fill : Bool) (v : Json) :
    (∃ w, t.check fill v = .ok w) ↔ t.Conforms v := by
  cases fill with
  | false => simp [check_false_eq_ok_iff]
  | true =>
    rw [(check_alike ht v).ok_iff]
    simp [check_false_eq_ok_iff]

theorem check_true_eq_ok_iff {t : Template} (ht : t.NamesDistinct) {v w : Json} (hv : v.KeysDistinct) :
    t.check true v = .ok w ↔ t.Conforms v ∧ w = t.filled v := by
  have hpass := passes_iff_conforms ht true v
  constructor
  · intro h
    exact ⟨hpass.mp ⟨w, h⟩, check_true ht hv h⟩
  · intro h
    obtain ⟨hc, rfl⟩ := h
    obtain ⟨w, hw⟩ := hpass.mpr hc
    rw [← check_true ht hv hw]
    exact hw

end Template

end Stencil
