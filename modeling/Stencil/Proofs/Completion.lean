import Stencil.Proofs.Filling
import Stencil.Proofs.Histories
import Stencil.Proofs.Reading

/-! What filling may do to a document, and what it does. -/
namespace Stencil.Template

/-- An entry that may be added to the members `ms`: the default of a property that is declared,
optional and absent. -/
def Addable (ps : List (Property Template)) (ms : List (String × Json)) (e : String × Json) : Prop :=
  e.1 ∉ Entries.keys ms ∧
    ∃ p ∈ ps, p.name = e.1 ∧ p.required = false ∧ p.nullable = true ∧ p.template.default? = some e.2

mutual

/-- The second document is the first with nothing but defaults added. All that is there stays, in its
order, and so does every null. -/
inductive Completes : Template → Json → Json → Prop
  | same (t : Template) (v : Json) : Completes t v v
  | array {d : Option Json} {item : Template} {vs ws : List Json} (items : CompletesItems item vs ws) :
      Completes (.array d (some item)) (.array vs) (.array ws)
  | object {d : Option Json} {ps : List (Property Template)} {ms ns more : List (String × Json)}
      (kept : CompletesMembers ps ms ns) (added : ∀ e ∈ more, Addable ps ms e) :
      Completes (.object d ps) (.object ms) (.object (ns ++ more))
  | named {definition : TypeDef Template} {d : Option Json} {v w : Json}
      (h : Completes definition.template v w) : Completes (.named definition d) v w

/-- Item by item. -/
inductive CompletesItems : Template → List Json → List Json → Prop
  | nil {item : Template} : CompletesItems item [] []
  | cons {item : Template} {v w : Json} {vs ws : List Json} (head : Completes item v w)
      (tail : CompletesItems item vs ws) : CompletesItems item (v :: vs) (w :: ws)

/-- Member by member: the key is kept, and so is the value unless a property declares it. -/
inductive CompletesMembers :
    List (Property Template) → List (String × Json) → List (String × Json) → Prop
  | nil {ps : List (Property Template)} : CompletesMembers ps [] []
  | keep {ps : List (Property Template)} {m : String × Json} {ms ns : List (String × Json)}
      (tail : CompletesMembers ps ms ns) : CompletesMembers ps (m :: ms) (m :: ns)
  | complete {ps : List (Property Template)} {p : Property Template} {v w : Json}
      {ms ns : List (String × Json)} (mem : p ∈ ps) (present : v ≠ .null)
      (head : Completes p.template v w) (tail : CompletesMembers ps ms ns) :
      CompletesMembers ps ((p.name, v) :: ms) ((p.name, w) :: ns)

end

variable {ps : List (Property Template)} {ms ns : List (String × Json)}

theorem completesItems_map {item : Template} {vs : List Json}
    (h : ∀ v ∈ vs, Completes item v (item.filled v)) : CompletesItems item vs (vs.map item.filled) := by
  induction vs with
  | nil => exact .nil
  | cons v vs ih =>
    have tail := ih fun e he => h e (List.mem_cons_of_mem v he)
    exact .cons (h v List.mem_cons_self) tail

/-- A member is filled by a property that declares it, if there is one. -/
theorem filledMember_cases (ps : List (Property Template)) (k : String) (v : Json) :
    filledMember ps k v = v ∨
      ∃ p ∈ ps, p.name = k ∧ v ≠ .null ∧ filledMember ps k v = p.template.filled v := by
  induction ps with
  | nil => exact .inl rfl
  | cons p ps ih =>
    rw [filledMember]
    split
    · rename_i hk
      by_cases hv : v = .null
      · subst v
        exact .inl rfl
      · rw [if_neg (mt Json.isNull_iff.mp hv)]
        exact .inr ⟨p, List.mem_cons_self, hk, hv, rfl⟩
    · rcases ih with h | ⟨q, hq, hk, hv, h⟩
      · exact .inl h
      · exact .inr ⟨q, List.mem_cons_of_mem p hq, hk, hv, h⟩

theorem completesMembers_map
    (h : ∀ m ∈ ms, ∀ p ∈ ps, p.name = m.1 → m.2 ≠ .null →
      Completes p.template m.2 (p.template.filled m.2)) :
    CompletesMembers ps ms (ms.map fun m => (m.1, filledMember ps m.1 m.2)) := by
  induction ms with
  | nil => exact .nil
  | cons m ms ih =>
    have tail := ih fun m' hm => h m' (List.mem_cons_of_mem m hm)
    obtain ⟨k, v⟩ := m
    rw [List.map_cons]
    rcases filledMember_cases ps k v with he | ⟨p, hp, rfl, hv, he⟩
    · rw [he]
      exact .keep tail
    · rw [he]
      exact .complete hp hv (h _ List.mem_cons_self p hp rfl hv) tail

/-- What a property admits is optional where it is absent. -/
theorem addable_of_mem (ha : AdmitMembers ps ms) {e : String × Json} (he : e ∈ absentDefaults ps ms) :
    Addable ps ms e := by
  obtain ⟨p, hp, hname, hk, hd⟩ := mem_absentDefaults_iff.mp he
  have hadm := admitMembers_iff.mp ha p hp
  rw [hname, Entries.get?_eq_none_iff.mpr hk] at hadm
  exact ⟨hk, p, hp, hname, hadm.1, hadm.2, hd⟩

theorem filled_completes {t : Template} {v : Json} (hv : v.KeysDistinct) (hc : t.Conforms v) :
    t.Completes v (t.filled v) := by
  induction t generalizing v with
  | value tag d => exact .same _ v
  | freeArray d => exact .same _ v
  | array d item ih =>
    obtain ⟨hacc, hitems⟩ := hc
    obtain ⟨vs, rfl⟩ := Tag.array_accepts_iff.mp hacc
    have hvs := Json.keysDistinct_array_iff.mp hv
    exact .array (completesItems_map fun e he => ih (hvs e he) (hitems e he))
  | object d ps ih =>
    obtain ⟨hacc, hmembers⟩ := hc
    obtain ⟨ms, rfl⟩ := Tag.object_accepts_iff.mp hacc
    obtain ⟨hd, hvs⟩ := Json.keysDistinct_object_iff.mp hv
    refine .object (completesMembers_map fun m hm p hp hname hnull => ?_)
      fun e he => addable_of_mem hmembers he
    have hadm := admitMembers_iff.mp hmembers p hp
    have hget : Entries.get? ms m.1 = some m.2 := Entries.get?_of_mem hd hm
    rw [Json.members, hname, hget, Property.admits_some hnull] at hadm
    exact ih p hp (hvs m hm) hadm
  | named definition d ih => exact .named (ih hv hc.2)

/-- Checking passes the documents that conform, and adds nothing to them but defaults of optional
properties that are absent. -/
theorem check_fills {t : Template} (ht : t.Compiled) :
    (∀ v : Json, v.KeysDistinct → ∀ w,
        (t.check true v = .ok w ↔ t.Conforms v ∧ w = t.filled v) ∧
          (t.check true v = .ok w → t.Completes v w)) ∧
      ∀ source v, Json.readFirst source = .ok v → v.KeysDistinct := by
  refine ⟨fun v hv w => ?_, fun source v h => Json.readFirst_keysDistinct h⟩
  have hiff : t.check true v = .ok w ↔ t.Conforms v ∧ w = t.filled v :=
    check_true_eq_ok_iff ht.wellFormed.namesDistinct hv
  refine ⟨hiff, fun hw => ?_⟩
  obtain ⟨hc, rfl⟩ := hiff.mp hw
  exact filled_completes hv hc

def basketDefinition : Json :=
  .object [("status", .string "open"), ("note", .string ":string"),
    ("lines", .array [.object [("count", .bool true), ("sku required", .string ":string")]])]

def basket : Json :=
  .object [("lines", .array [.object [("sku", .string "A-1")],
    .object [("gift", .bool true), ("sku", .string "B-2"), ("count", .null)]])]

def filledBasket : Json :=
  .object [("lines", .array [.object [("sku", .string "A-1"), ("count", .bool true)],
    .object [("gift", .bool true), ("sku", .string "B-2"), ("count", .null)]]),
    ("status", .string "open")]

theorem basket_filled : ∃ t, compile TypeRef.builtin? basketDefinition = .ok t ∧ basket.KeysDistinct ∧
    t.Conforms basket ∧ t.filled basket = filledBasket ∧ t.Completes basket filledBasket := by
  obtain ⟨t, ht, hw⟩ : ∃ t, compile TypeRef.builtin? basketDefinition = .ok t ∧
    t.check true basket = .ok filledBasket := ⟨_, rfl, rfl⟩
  have hv : basket.KeysDistinct := by
    simp [basket, Json.keysDistinct_object_iff, Json.keysDistinct_array_iff, Entries.Distinct]
  obtain ⟨hiff, hadd⟩ := (check_fills (History.compiled_of_builtin ht)).1 basket hv filledBasket
  obtain ⟨hc, hf⟩ := hiff.mp hw
  exact ⟨t, ht, hv, hc, hf.symm, hadd hw⟩

end Stencil.Template
