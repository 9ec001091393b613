import Mathlib.Data.List.Basic
import Stencil.Proofs.Runs

/-! Journals: what has been done to the names of a namespace, and what the namespace holds because of
it. A name stands for its last binding, and names are in the order in which they were first bound since
they were last removed. -/
namespace Stencil

/-- Where keys are distinct, the entries are the keys with what these are bound to. -/
theorem Entries.eq_filterMap_keys {α : Type} {es : Entries α} (hd : Distinct es) :
    es = (keys es).filterMap fun k => (get? es k).map (k, ·) := by
  have hsome : ∀ e ∈ es, ((fun k => (get? es k).map (k, ·)) ∘ Prod.fst) e = some e := by
    intro e he
    simp only [Function.comp, get?_of_mem hd he, Option.map_some]
  rw [keys, List.filterMap_map, List.filterMap_congr hsome, List.filterMap_some]

inductive Event where
  | bound (name : String) (ref : TypeRef)
  | removed (name : String)

/-- What has been done to the names of a namespace, the latest first. -/
abbrev Journal := List Event

namespace Journal

/-- The last binding of a name that has not been removed since. -/
def last? : Journal → String → Option TypeRef
  | [], _ => none
  | .bound k ref :: log, name => if k = name then some ref else last? log name
  | .removed k :: log, name => if k = name then none else last? log name

/-- When a name was first bound since it was last removed: the number of events before that. -/
def since? : Journal → String → Option Nat
  | [], _ => none
  | .bound k _ :: log, name =>
    if k = name then some ((since? log name).getD log.length) else since? log name
  | .removed k :: log, name => if k = name then none else since? log name

/-- A name that is bound again keeps its place; one that is bound anew goes to the end. -/
def names : Journal → List String
  | [] => []
  | .bound k _ :: log => if k ∈ names log then names log else names log ++ [k]
  | .removed k :: log => (names log).filter (· ≠ k)

/-- The names with their last bindings. -/
def entries (log : Journal) : Entries TypeRef :=
  log.names.filterMap fun name => (log.last? name).map (name, ·)

/-- The last binding of a name, else the built-in type of that name. -/
def resolve (log : Journal) : Resolver := fun name => (log.last? name).or (TypeRef.builtin? name)

/-- The journal once the entries have been bound, the first of them first. -/
def bindAll (log : Journal) (es : Entries TypeRef) : Journal :=
  es.foldl (fun log e => .bound e.1 e.2 :: log) log

/-- The name has been bound and not been removed since. -/
def Stands (log : Journal) (name : String) : Prop :=
  ∃ newer ref older, log = newer ++ .bound name ref :: older ∧ .removed name ∉ newer

/-- `m` was bound before `n` was, each for the first time since it was last removed. -/
def Precedes (log : Journal) (m n : String) : Prop :=
  ∃ i j, log.since? m = some i ∧ log.since? n = some j ∧ i < j

variable {log : Journal}

theorem stands_cons_iff {e : Event} {name : String} :
    Stands (e :: log) name ↔ (∃ ref, e = .bound name ref) ∨ (e ≠ .removed name ∧ Stands log name) := by
  constructor
  · intro h
    obtain ⟨newer, ref, older, heq, hn⟩ := h
    cases newer with
    | nil =>
      cases heq
      exact .inl ⟨ref, rfl⟩
    | cons e' newer =>
      cases heq
      rw [List.mem_cons, not_or] at hn
      exact .inr ⟨Ne.symm hn.1, newer, ref, older, rfl, hn.2⟩
  · rintro (⟨ref, rfl⟩ | ⟨he, newer, ref, older, rfl, hn⟩)
    · exact ⟨[], ref, log, rfl, List.not_mem_nil⟩
    · refine ⟨e :: newer, ref, older, rfl, ?_⟩
      rw [List.mem_cons, not_or]
      exact ⟨Ne.symm he, hn⟩

theorem stands_bound_iff {k name : String} {ref : TypeRef} :
    Stands (.bound k ref :: log) name ↔ k = name ∨ Stands log name := by
  simp [stands_cons_iff]

theorem stands_removed_iff {k name : String} :
    Stands (.removed k :: log) name ↔ k ≠ name ∧ Stands log name := by
  simp [stands_cons_iff]

theorem stands_iff {name : String} : log.Stands name ↔ ∃ ref, log.last? name = some ref := by
  induction log with
  | nil => simp [Stands, last?]
  | cons e log ih =>
    cases e with
    | bound k ref =>
      rw [stands_bound_iff, last?, ih]
      split <;> simp_all
    | removed k =>
      rw [stands_removed_iff, last?, ih]
      split <;> simp_all

theorem since?_isSome (name : String) : (log.since? name).isSome = (log.last? name).isSome := by
  induction log with
  | nil => rfl
  | cons e log ih => cases e <;> rw [since?, last?] <;> split <;> simp [ih]

theorem mem_names_iff {name : String} : name ∈ log.names ↔ log.Stands name := by
  induction log with
  | nil => simp [names, Stands]
  | cons e log ih =>
    cases e with
    | bound k ref =>
      rw [names, stands_bound_iff, ← ih]
      split
      · rename_i hk
        exact (or_iff_right_of_imp fun h => h ▸ hk).symm
      · rw [List.mem_append, List.mem_singleton, or_comm, eq_comm]
    | removed k =>
      rw [names, stands_removed_iff, ← ih, List.mem_filter, decide_eq_true_iff, and_comm]
      exact and_congr_left fun _ => ne_comm

theorem since?_lt {name : String} {i : Nat} (h : log.since? name = some i) : i < log.length := by
  induction log generalizing i with
  | nil => cases h
  | cons e log ih =>
    rw [List.length_cons]
    cases e with
    | bound k ref =>
      rw [since?] at h
      split at h
      · cases hs : since? log name with
        | none =>
          rw [hs] at h
          cases h
          exact Nat.lt_succ_self _
        | some j =>
          rw [hs] at h
          cases h
          exact Nat.lt_succ_of_lt (ih hs)
      · exact Nat.lt_succ_of_lt (ih h)
    | removed k =>
      rw [since?] at h
      split at h
      · cases h
      · exact Nat.lt_succ_of_lt (ih h)

theorem exists_since?_iff {name : String} : (∃ i, log.since? name = some i) ↔ name ∈ log.names := by
  rw [mem_names_iff, stands_iff, ← Option.isSome_iff_exists, ← Option.isSome_iff_exists, since?_isSome]

/-- A name that stands keeps its place whatever is done to it, short of removing it. -/
theorem since?_cons {e : Event} {name : String} {i : Nat} (h : log.since? name = some i)
    (he : e ≠ .removed name) : since? (e :: log) name = some i := by
  cases e with
  | bound k ref =>
    rw [since?, h]
    split <;> rfl
  | removed k =>
    rw [since?, if_neg fun hk => he (congrArg Event.removed hk)]
    exact h

theorem Precedes.cons {e : Event} {m n : String} (h : log.Precedes m n) (hm : e ≠ .removed m)
    (hn : e ≠ .removed n) : Precedes (e :: log) m n := by
  obtain ⟨i, j, hi, hj, hij⟩ := h
  exact ⟨i, j, since?_cons hi hm, since?_cons hj hn, hij⟩

/-- A name that did not stand comes after all that did. -/
theorem precedes_bound {k m : String} {ref : TypeRef} (hk : k ∉ log.names) (hm : m ∈ log.names) :
    Precedes (.bound k ref :: log) m k := by
  obtain ⟨i, hi⟩ := exists_since?_iff.mpr hm
  have hnew : since? (.bound k ref :: log) k = some log.length := by
    have hnone : log.since? k = none := by
      by_contra h
      exact hk (exists_since?_iff.mp (Option.ne_none_iff_exists'.mp h))
    rw [since?, if_pos rfl, hnone, Option.getD_none]
  exact ⟨i, log.length, since?_cons hi Event.noConfusion, hnew, since?_lt hi⟩

theorem names_ordered (log : Journal) : log.names.Pairwise log.Precedes := by
  induction log with
  | nil => exact .nil
  | cons e log ih =>
    cases e with
    | bound k ref =>
      have hold : (names log).Pairwise (Precedes (.bound k ref :: log)) :=
        ih.imp fun h => h.cons Event.noConfusion Event.noConfusion
      rw [names]
      split
      · exact hold
      · rename_i hk
        refine List.pairwise_append.mpr ⟨hold, List.pairwise_singleton _ _, fun m hm n hn => ?_⟩
        rw [List.mem_singleton.mp hn]
        exact precedes_bound hk hm
    | removed k =>
      rw [names]
      refine (ih.filter _).imp_of_mem fun hm hn h => ?_
      have hm := of_decide_eq_true (List.mem_filter.mp hm).2
      have hn := of_decide_eq_true (List.mem_filter.mp hn).2
      exact h.cons (fun he => hm (by cases he; rfl)) (fun he => hn (by cases he; rfl))

theorem names_nodup (log : Journal) : log.names.Nodup := by
  refine (names_ordered log).imp fun h he => ?_
  subst he
  obtain ⟨i, j, hi, hj, hij⟩ := h
  cases hi.symm.trans hj
  exact Nat.lt_irrefl i hij

end Journal

end Stencil
