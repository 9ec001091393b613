import Stencil.Entries

/-! Looking up, binding and dropping keys: which entries there are afterwards, and in what order. -/
namespace Stencil.Entries

variable {α : Type}

theorem keys_append (es more : Entries α) : keys (es ++ more) = keys es ++ keys more :=
  List.map_append

theorem mem_keys_of_mem {es : Entries α} {k : String} {a : α} (h : (k, a) ∈ es) : k ∈ keys es :=
  List.mem_map_of_mem h

theorem get?_eq_none_iff {es : Entries α} {k : String} : get? es k = none ↔ k ∉ keys es := by
  induction es with
  | nil => simp [get?]
  | cons e es ih =>
    obtain ⟨k', a⟩ := e
    by_cases h : k' = k
    · simp [get?, h]
    · simp [get?, h, Ne.symm h, ih]

theorem mem_of_get? {es : Entries α} {k : String} {a : α} (h : get? es k = some a) :
    (k, a) ∈ es := by
  induction es with
  | nil => simp [get?] at h
  | cons e es ih =>
    obtain ⟨k', b⟩ := e
    rw [get?] at h
    split at h
    · obtain rfl := Option.some.inj h
      subst k'
      exact List.mem_cons_self
    · exact List.mem_cons_of_mem _ (ih h)

theorem get?_of_mem {es : Entries α} (hd : Distinct es) {k : String} {a : α} (h : (k, a) ∈ es) :
    get? es k = some a := by
  induction es with
  | nil => cases h
  | cons e es ih =>
    obtain ⟨k', b⟩ := e
    obtain ⟨hk, hd⟩ := List.nodup_cons.mp hd
    rcases List.mem_cons.mp h with he | he
    · cases he
      simp [get?]
    · have hne : k' ≠ k := by
        intro hkk
        exact hk (hkk ▸ mem_keys_of_mem he)
      rw [get?, if_neg hne]
      exact ih hd he

/-- Binding a key to what it is bound to changes nothing. -/
theorem insert_get? {es : Entries α} {k : String} {a : α} (h : get? es k = some a) :
    insert es k a = es := by
  induction es with
  | nil => simp [get?] at h
  | cons e es ih =>
    obtain ⟨k', b⟩ := e
    rw [get?] at h
    rw [insert]
    split at h
    · obtain rfl := Option.some.inj h
      subst k'
      rw [if_pos rfl]
    · rename_i hne
      rw [if_neg hne, ih h]

theorem insert_eq_self_iff {es : Entries α} {k : String} {a : α} :
    insert es k a = es ↔ get? es k = some a := by
  constructor
  · intro h
    rw [← h]
    exact get?_insert_self es k a
  · exact insert_get?

theorem insert_of_notMem {es : Entries α} {k : String} (a : α) (h : k ∉ keys es) :
    insert es k a = es ++ [(k, a)] := by
  induction es with
  | nil => rfl
  | cons e es ih =>
    obtain ⟨k', b⟩ := e
    rw [keys_cons, List.mem_cons, not_or] at h
    rw [insert, if_neg (Ne.symm h.1), ih h.2, List.cons_append]

/-- Where keys are distinct, binding one of them is a change of one entry. -/
theorem insert_of_mem {es : Entries α} (hd : Distinct es) {k : String} (a : α) (h : k ∈ keys es) :
    insert es k a = es.map fun e => if e.1 = k then (k, a) else e := by
  induction es with
  | nil => cases h
  | cons e es ih =>
    obtain ⟨k', b⟩ := e
    obtain ⟨hk, hd⟩ := List.nodup_cons.mp hd
    rw [insert, List.map_cons]
    by_cases he : k' = k
    · subst he
      have hrest : es.map (fun e => if e.1 = k' then (k', a) else e) = es := by
        refine (List.map_congr_left fun e hm => if_neg ?_).trans (List.map_id es)
        intro heq
        exact hk (heq ▸ mem_keys_of_mem hm)
      rw [if_pos rfl, if_pos rfl, hrest]
    · have hmem : k ∈ keys es := by
        rw [keys_cons, List.mem_cons] at h
        exact h.resolve_left (Ne.symm he)
      rw [if_neg he, if_neg he, ih hd hmem]

theorem mem_insert {es : Entries α} {k : String} {a : α} {e : String × α}
    (h : e ∈ insert es k a) : e = (k, a) ∨ e ∈ es := by
  induction es with
  | nil => exact .inl (List.mem_singleton.mp h)
  | cons e' es ih =>
    obtain ⟨k', b⟩ := e'
    rw [insert] at h
    split at h
    · rcases List.mem_cons.mp h with he | he
      · exact .inl he
      · exact .inr (List.mem_cons_of_mem _ he)
    · rcases List.mem_cons.mp h with rfl | he
      · exact .inr List.mem_cons_self
      · exact (ih he).imp_right (List.mem_cons_of_mem _)

theorem mem_insertAll {es more : Entries α} {e : String × α} (h : e ∈ insertAll es more) :
    e ∈ es ∨ e ∈ more := by
  induction more generalizing es with
  | nil => exact .inl h
  | cons m more ih =>
    rcases ih h with h | h
    · rcases mem_insert h with rfl | h
      · exact .inr List.mem_cons_self
      · exact .inl h
    · exact .inr (List.mem_cons_of_mem _ h)

theorem distinct_insert {es : Entries α} (hd : Distinct es) (k : String) (a : α) :
    Distinct (insert es k a) := by
  rw [Distinct, keys_insert]
  split
  · exact hd
  · rename_i h
    refine List.nodup_append.mpr ⟨hd, List.pairwise_singleton _ k, fun x hx y hy he => ?_⟩
    rw [he, List.mem_singleton.mp hy] at hx
    exact h hx

theorem get?_insert (es : Entries α) (k j : String) (a : α) :
    get? (insert es k a) j = if k = j then some a else get? es j := by
  by_cases h : k = j
  · subst h
    rw [get?_insert_self, if_pos rfl]
  · rw [get?_insert_of_ne es a h, if_neg h]

theorem keys_erase (es : Entries α) (k : String) :
    keys (erase es k) = (keys es).filter (· ≠ k) := by
  rw [keys, keys, erase, List.filter_map]
  rfl

theorem get?_erase (es : Entries α) (k j : String) :
    get? (erase es k) j = if k = j then none else get? es j := by
  induction es with
  | nil => simp [erase, get?]
  | cons e es ih =>
    obtain ⟨k', a⟩ := e
    rw [erase] at ih ⊢
    by_cases hk : k' = k
    · subst hk
      rw [List.filter_cons_of_neg (by simp), ih]
      split
      · rfl
      · rename_i hj
        rw [get?, if_neg hj]
    · rw [List.filter_cons_of_pos (by simpa using hk), get?, get?, ih]
      split
      · rename_i hj
        rw [if_neg (hj ▸ Ne.symm hk)]
      · rfl

theorem insertAll_cons (es : Entries α) (e : String × α) (more : Entries α) :
    insertAll es (e :: more) = insertAll (insert es e.1 e.2) more := rfl

/-- Keys keep their places. New ones follow, each where it first comes. -/
theorem keys_insertAll (es more : Entries α) :
    keys (insertAll es more) = keys es ++ ((keys more).filter (· ∉ keys es)).eraseDups := by
  induction more generalizing es with
  | nil => simp [insertAll]
  | cons e more ih =>
    rw [insertAll_cons, ih, keys_cons, keys_insert]
    by_cases h : e.1 ∈ keys es
    · rw [if_pos h, List.filter_cons_of_neg (by simpa using h)]
    · have hrest : ((keys more).filter (· ∉ keys es)).filter (fun k => !k == e.1) =
          (keys more).filter (· ∉ keys es ++ [e.1]) := by
        rw [List.filter_filter]
        refine List.filter_congr fun k _ => ?_
        by_cases hk : k = e.1 <;> simp [hk]
      rw [if_neg h, List.filter_cons_of_pos (by simpa using h), List.eraseDups_cons, hrest, List.append_assoc]
      rfl

theorem insertAll_eq_self {es more : Entries α} (h : ∀ e ∈ more, get? es e.1 = some e.2) :
    insertAll es more = es := by
  induction more with
  | nil => rfl
  | cons e more ih =>
    obtain ⟨he, hrest⟩ := List.forall_mem_cons.mp h
    rw [insertAll_cons, insert_get? he, ih hrest]

theorem get?_insertAll_of_notMem (es : Entries α) {more : Entries α} {k : String}
    (h : k ∉ keys more) : get? (insertAll es more) k = get? es k := by
  induction more generalizing es with
  | nil => rfl
  | cons e more ih =>
    rw [keys_cons, List.mem_cons, not_or] at h
    rw [insertAll_cons, ih _ h.2, get?_insert_of_ne es e.2 (Ne.symm h.1)]

/-- A key may be bound several times if it is always to the same. -/
theorem get?_insertAll_of_mem (es : Entries α) {more : Entries α} {k : String} {a : α}
    (h : k ∈ keys more) (ha : ∀ e ∈ more, e.1 = k → e.2 = a) :
    get? (insertAll es more) k = some a := by
  induction more generalizing es with
  | nil => cases h
  | cons e more ih =>
    obtain ⟨he, hrest⟩ := List.forall_mem_cons.mp ha
    rw [insertAll_cons]
    by_cases hm : k ∈ keys more
    · exact ih _ hm hrest
    · have hk : k = e.1 := by
        rw [keys_cons, List.mem_cons] at h
        exact h.resolve_right hm
      rw [get?_insertAll_of_notMem _ hm, hk, get?_insert_self, he hk.symm]

end Stencil.Entries
