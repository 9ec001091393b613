import Mathlib.Data.List.Forall2
import Mathlib.Data.List.Perm.Basic
import Stencil.Proofs.Documents
import Stencil.Proofs.Entries

/-! Documents that are equal up to the order of keys. For documents that bind no key twice this is to
find equal things under equal keys, which is all that looking up a key can tell. -/
namespace Stencil

theorem forall₂_of_mem {α β : Type} {R S : α → β → Prop} {as : List α} {bs : List β}
    (h : List.Forall₂ R as bs) (ih : ∀ a ∈ as, ∀ b, R a b → S a b) : List.Forall₂ S as bs := by
  induction h with
  | nil => exact .nil
  | cons hab _ ihs =>
    obtain ⟨ha, has⟩ := List.forall_mem_cons.mp ih
    exact .cons (ha _ hab) (ihs has)

theorem forall₂_trans {α : Type} {R : α → α → Prop} {as bs cs : List α} (h : List.Forall₂ R as bs)
    (h' : List.Forall₂ R bs cs) (ih : ∀ a ∈ as, ∀ b c, R a b → R b c → R a c) :
    List.Forall₂ R as cs := by
  induction h generalizing cs with
  | nil => exact h'
  | cons hab _ ihs =>
    obtain ⟨ha, has⟩ := List.forall_mem_cons.mp ih
    cases h' with
    | cons hbc h' => exact .cons (ha _ _ hab hbc) (ihs h' has)

/-- A list that is related to the first of two has a counterpart that is related to the second. -/
theorem exists_forall₂ {α β γ δ : Type} {P : α → γ → Prop} {Q : β → δ → Prop} {R : γ → δ → Prop}
    {as : List α} {bs : List β} {cs : List γ}
    (h : List.Forall₂ (fun a b => ∀ c, P a c → ∃ d, Q b d ∧ R c d) as bs) (hP : List.Forall₂ P as cs) :
    ∃ ds, List.Forall₂ Q bs ds ∧ List.Forall₂ R cs ds := by
  induction h generalizing cs with
  | nil =>
    cases hP
    exact ⟨[], .nil, .nil⟩
  | cons hab _ ih =>
    obtain ⟨c, cs', hc, hcs, rfl⟩ := List.forall₂_cons_left_iff.mp hP
    obtain ⟨d, hd, hcd⟩ := hab c hc
    obtain ⟨ds, hds, hrest⟩ := ih hcs
    exact ⟨d :: ds, .cons hd hds, .cons hcd hrest⟩

namespace Entries

variable {α β : Type} {es : Entries α} {k : String} {a : α}

/-- All that `k` is bound to, first binding first. -/
def all (es : Entries α) (k : String) : List α := (es.filter (·.1 = k)).map Prod.snd

theorem all_cons (e : String × α) (es : Entries α) (k : String) :
    all (e :: es) k = if e.1 = k then e.2 :: all es k else all es k := by
  by_cases h : e.1 = k
  · rw [all, List.filter_cons_of_pos (by simpa using h), if_pos h]
    rfl
  · rw [all, List.filter_cons_of_neg (by simpa using h), if_neg h]
    rfl

theorem all_append (es more : Entries α) (k : String) : all (es ++ more) k = all es k ++ all more k := by
  rw [all, List.filter_append, List.map_append]
  rfl

theorem mem_of_mem_all (h : a ∈ all es k) : (k, a) ∈ es := by
  obtain ⟨e, he, rfl⟩ := List.mem_map.mp h
  obtain ⟨hmem, hk⟩ := List.mem_filter.mp he
  rwa [← of_decide_eq_true hk]

theorem get?_eq_head?_all (es : Entries α) (k : String) : get? es k = (all es k).head? := by
  induction es with
  | nil => rfl
  | cons e es ih =>
    rw [get?, all_cons]
    split
    · rfl
    · exact ih

/-- A key that is bound keeps all but its first binding. -/
theorem all_insert (es : Entries α) (k j : String) (a : α) :
    all (insert es k a) j = if k = j then a :: (all es j).tail else all es j := by
  induction es with
  | nil =>
    rw [insert, all_cons]
    rfl
  | cons e es ih =>
    obtain ⟨k', b⟩ := e
    rw [insert]
    by_cases hk : k' = k
    · subst hk
      rw [if_pos rfl, all_cons, all_cons]
      split <;> rfl
    · rw [if_neg hk, all_cons, all_cons, ih]
      by_cases hj : k = j
      · have hne : k' ≠ j := hj ▸ hk
        rw [if_pos hj, if_pos hj, if_neg hne, if_neg hne]
      · rw [if_neg hj, if_neg hj]

theorem all_of_distinct (hd : Distinct es) (k : String) : all es k = (get? es k).toList := by
  induction es with
  | nil => rfl
  | cons e es ih =>
    obtain ⟨hnew, hd⟩ := List.nodup_cons.mp hd
    rw [all_cons, get?, ih hd]
    split
    · rename_i he
      rw [get?_eq_none_iff.mpr (he ▸ hnew)]
      rfl
    · rfl

/-- The first binding of a key, with what is before it and behind it. -/
theorem exists_append_of_all {as : List α} (h : all es k = a :: as) :
    ∃ before after, es = before ++ (k, a) :: after ∧ all before k = [] := by
  induction es with
  | nil => cases h
  | cons e es ih =>
    obtain ⟨k', b⟩ := e
    rw [all_cons] at h
    split at h
    · rename_i hk
      obtain ⟨rfl, -⟩ := List.cons.inj h
      exact ⟨[], es, by rw [← hk]; rfl, rfl⟩
    · rename_i hk
      obtain ⟨before, after, rfl, hbefore⟩ := ih h
      exact ⟨(k', b) :: before, after, rfl, by rw [all_cons, if_neg hk, hbefore]⟩

/-- Entries that bind every key to related things are, in another order, related one by one. -/
theorem exists_perm_of_all {R : α → β → Prop} {ms : Entries α} {ns : Entries β}
    (h : ∀ k, List.Forall₂ R (all ms k) (all ns k)) :
    ∃ rs, ms.Perm rs ∧ List.Forall₂ (fun m n => m.1 = n.1 ∧ R m.2 n.2) rs ns := by
  induction ns generalizing ms with
  | nil =>
    cases ms with
    | nil => exact ⟨[], .nil, .nil⟩
    | cons m ms =>
      have hm := h m.1
      rw [all_cons, if_pos rfl] at hm
      cases hm
  | cons n ns ih =>
    obtain ⟨k, b⟩ := n
    have hk := h k
    rw [all_cons, if_pos rfl, List.forall₂_cons_right_iff] at hk
    obtain ⟨a, as, hab, has, hall⟩ := hk
    obtain ⟨before, after, rfl, hbefore⟩ := exists_append_of_all hall
    -- without the first binding of `k` on both sides, the others are still related
    have hrest : ∀ j, List.Forall₂ R (all (before ++ after) j) (all ns j) := by
      intro j
      have hj := h j
      rw [all_append, all_cons, all_cons] at hj
      rw [all_append]
      by_cases hkj : k = j
      · subst hkj
        rw [if_pos rfl, if_pos rfl, hbefore, List.nil_append] at hj
        rw [hbefore, List.nil_append]
        exact (List.forall₂_cons.mp hj).2
      · rwa [if_neg hkj, if_neg hkj] at hj
    obtain ⟨rs, hperm, hrs⟩ := ih hrest
    exact ⟨(k, a) :: rs, List.perm_middle.trans (hperm.cons _), .cons ⟨rfl, hab⟩ hrs⟩

theorem forall₂_all {R : α → β → Prop} {ms : Entries α} {ns : Entries β}
    (h : List.Forall₂ (fun m n => m.1 = n.1 ∧ R m.2 n.2) ms ns) (k : String) :
    List.Forall₂ R (all ms k) (all ns k) := by
  induction h with
  | nil => exact .nil
  | cons hmn _ ih =>
    rw [all_cons, all_cons, hmn.1]
    split
    · exact .cons hmn.2 ih
    · exact ih

/-- Where keys are distinct, what a key is bound to does not depend on the order. -/
theorem all_perm {ms rs : Entries α} (hd : Distinct ms) (h : ms.Perm rs) (k : String) :
    all ms k = all rs k := by
  have hd' : Distinct rs := (h.map Prod.fst).nodup_iff.mp hd
  have hget : get? ms k = get? rs k := by
    apply Option.ext
    intro a
    exact ⟨fun ha => get?_of_mem hd' (h.mem_iff.mp (mem_of_get? ha)),
      fun ha => get?_of_mem hd (h.mem_iff.mpr (mem_of_get? ha))⟩
  rw [all_of_distinct hd, all_of_distinct hd', hget]

end Entries

namespace Json

mutual

/-- Equal up to the order of keys, at every depth. -/
inductive Reordered : Json → Json → Prop
  | null : Reordered null null
  | bool (b : Bool) : Reordered (bool b) (bool b)
  | number (n : Number) : Reordered (number n) (number n)
  | string (s : String) : Reordered (string s) (string s)
  | array {vs ws : List Json} (items : List.Forall₂ Reordered vs ws) : Reordered (array vs) (array ws)
  | object {ms rs ns : List (String × Json)} (order : ms.Perm rs)
      (members : List.Forall₂ ReorderedMember rs ns) : Reordered (object ms) (object ns)

/-- The same key, with values that are equal up to the order of keys. -/
inductive ReorderedMember : String × Json → String × Json → Prop
  | mk (k : String) {v w : Json} (h : Reordered v w) : ReorderedMember (k, v) (k, w)

end

/-- Under every key there is the same on both sides, as far as looking up keys can tell. -/
inductive Agrees : Json → Json → Prop
  | null : Agrees null null
  | bool (b : Bool) : Agrees (bool b) (bool b)
  | number (n : Number) : Agrees (number n) (number n)
  | string (s : String) : Agrees (string s) (string s)
  | array {vs ws : List Json} (items : List.Forall₂ Agrees vs ws) : Agrees (array vs) (array ws)
  | object {ms ns : List (String × Json)}
      (members : ∀ k, List.Forall₂ Agrees (Entries.all ms k) (Entries.all ns k)) :
      Agrees (object ms) (object ns)

/-- Members that agree key by key. -/
def MembersAgree (ms ns : List (String × Json)) : Prop :=
  ∀ k, List.Forall₂ Agrees (Entries.all ms k) (Entries.all ns k)

variable {v w : Json} {vs ws : List Json} {ms ns : List (String × Json)}

theorem agrees_object_iff : Agrees (.object ms) (.object ns) ↔ MembersAgree ms ns :=
  ⟨fun h => by cases h; assumption, .object⟩

theorem Agrees.refl (v : Json) : Agrees v v := by
  induction v with
  | null => exact .null
  | bool b => exact .bool b
  | number n => exact .number n
  | string s => exact .string s
  | array vs ih => exact .array (List.forall₂_same.mpr ih)
  | object ms ih =>
    exact .object fun k => List.forall₂_same.mpr fun v hv => ih _ (Entries.mem_of_mem_all hv)

theorem Agrees.trans {u : Json} (h : Agrees u v) (h' : Agrees v w) : Agrees u w := by
  induction u generalizing v w with
  | array us ih =>
    cases h with
    | array hs =>
      cases h' with
      | array hs' => exact .array (forall₂_trans hs hs' fun a ha b c => ih a ha)
  | object ms ih =>
    cases h with
    | object hm =>
      cases h' with
      | object hm' =>
        exact .object fun k => forall₂_trans (hm k) (hm' k) fun a ha b c =>
          ih _ (Entries.mem_of_mem_all ha)
  | _ =>
    cases h
    exact h'

theorem MembersAgree.refl (ms : List (String × Json)) : MembersAgree ms ms :=
  agrees_object_iff.mp (.refl _)

theorem MembersAgree.trans {ms' : List (String × Json)} (h : MembersAgree ms ms')
    (h' : MembersAgree ms' ns) : MembersAgree ms ns :=
  agrees_object_iff.mp ((Agrees.object h).trans (.object h'))

/-- A key is found on both sides or on neither, and with it what agrees. -/
theorem MembersAgree.get? (h : MembersAgree ms ns) (k : String) :
    Option.Rel Agrees (Entries.get? ms k) (Entries.get? ns k) := by
  rw [Entries.get?_eq_head?_all, Entries.get?_eq_head?_all]
  have hk := h k
  generalize Entries.all ms k = vs, Entries.all ns k = ws at hk
  cases hk with
  | nil => exact .none
  | cons h _ => exact .some h

theorem MembersAgree.insert (h : MembersAgree ms ns) (k : String) (hv : Agrees v w) :
    MembersAgree (Entries.insert ms k v) (Entries.insert ns k w) := by
  intro j
  rw [Entries.all_insert, Entries.all_insert]
  split
  · rw [← List.drop_one, ← List.drop_one]
    exact .cons hv (List.forall₂_drop 1 (h j))
  · exact h j

theorem Agrees.accepts (h : Agrees v w) (t : Tag) : t.accepts v = t.accepts w := by
  cases h <;> rfl

theorem Agrees.null_iff (h : Agrees v w) : v = .null ↔ w = .null := by
  cases h <;> simp

theorem reorderedMember_iff {m n : String × Json} :
    ReorderedMember m n ↔ m.1 = n.1 ∧ Reordered m.2 n.2 := by
  constructor
  · intro h
    cases h with
    | mk k h => exact ⟨rfl, h⟩
  · obtain ⟨k, v⟩ := m
    rintro ⟨rfl, h⟩
    exact .mk _ h

theorem Reordered.symm (h : Reordered v w) : Reordered w v := by
  induction v generalizing w with
  | array vs ih =>
    cases h with
    | array hs => exact .array (forall₂_of_mem hs fun a ha b => ih a ha).flip
  | object ms ih =>
    cases h with
    | @object _ rs ns order members =>
      have hback : List.Forall₂ ReorderedMember ns rs := by
        refine (forall₂_of_mem members fun m hm n hmn => ?_).flip
        obtain ⟨hkey, hvalue⟩ := reorderedMember_iff.mp hmn
        exact reorderedMember_iff.mpr ⟨hkey.symm, ih m (order.mem_iff.mpr hm) hvalue⟩
      have hswap : Relation.Comp List.Perm (List.Forall₂ ReorderedMember) ns ms :=
        List.forall₂_comp_perm_eq_perm_comp_forall₂ ▸ ⟨rs, hback, order.symm⟩
      obtain ⟨rs', hperm, hmembers⟩ := hswap
      exact .object hperm hmembers
  | _ =>
    cases h
    constructor

/-- Where no key is bound twice, equality up to the order of keys is seen by looking them up. -/
theorem Reordered.agrees (hd : v.KeysDistinct) (h : Reordered v w) : Agrees v w := by
  induction v generalizing w with
  | array vs ih =>
    have hvs := keysDistinct_array_iff.mp hd
    cases h with
    | array hs => exact .array (forall₂_of_mem hs fun a ha b => ih a ha (hvs a ha))
  | object ms ih =>
    obtain ⟨hkeys, hvs⟩ := keysDistinct_object_iff.mp hd
    cases h with
    | @object _ rs ns order members =>
      refine .object fun k => ?_
      have hall : List.Forall₂ Agrees (Entries.all rs k) (Entries.all ns k) :=
        Entries.forall₂_all (forall₂_of_mem members fun m hm n hmn => by
          obtain ⟨hkey, hvalue⟩ := reorderedMember_iff.mp hmn
          have hmem := order.mem_iff.mpr hm
          exact ⟨hkey, ih m hmem (hvs m hmem) hvalue⟩) k
      rwa [Entries.all_perm hkeys order]
  | _ =>
    cases h
    constructor

theorem Agrees.reordered (h : Agrees v w) : Reordered v w := by
  induction v generalizing w with
  | array vs ih =>
    cases h with
    | array hs => exact .array (forall₂_of_mem hs fun a ha b => ih a ha)
  | object ms ih =>
    cases h with
    | @object _ ns members =>
      have hall : ∀ k, List.Forall₂ Reordered (Entries.all ms k) (Entries.all ns k) := fun k =>
        forall₂_of_mem (members k) fun a ha b => ih _ (Entries.mem_of_mem_all ha)
      obtain ⟨rs, hperm, hrs⟩ := Entries.exists_perm_of_all hall
      exact .object hperm (hrs.imp fun m n hmn => reorderedMember_iff.mpr hmn)
  | _ =>
    cases h
    constructor

end Json

end Stencil
