import Mathlib.Tactic.SplitIfs
import Stencil.Json.Pointer
import Stencil.Json.Reader
import Stencil.Proofs.Documents
import Stencil.Proofs.Results

/-! Documents that have been read: no object in them binds a key twice. -/
namespace Stencil

namespace Scan

variable {α σ : Type}

/-- Whatever `p` reads has the property. -/
def Yields (P : α → Prop) (p : Reader α) : Prop := ∀ s r, p s = .ok r → P r.value

variable {P : α → Prop} {p : Reader α}

theorem Yields.spaced (h : Yields P p) : Yields P (spaced p) := by
  intro s r hr
  obtain ⟨t, ht, rfl⟩ := Except.map_eq_ok_iff.mp hr
  exact h _ t ht

theorem Yields.moreItems (h : Yields P p) (i : Nat) : Yields (∀ x ∈ ·, P x) (moreItems p i) := by
  intro s r hr
  fun_induction Scan.moreItems p i s with
  | case1 => cases hr
  | case2 =>
    cases hr
    exact List.forall_mem_nil P
  | case3 i s t hn ih =>
    obtain ⟨⟨x, u, hu⟩, hx, hr⟩ := Except.bind_eq_ok_iff.mp hr
    obtain ⟨⟨xs, v, hv⟩, hxs, hr⟩ := Except.bind_eq_ok_iff.mp hr
    cases hr
    exact List.forall_mem_cons.mpr ⟨h t _ (Except.mapError_eq_ok_iff.mp hx), ih u hu _ hxs⟩

theorem Yields.items (h : Yields P p) : Yields (∀ x ∈ ·, P x) (items p) := by
  intro s r hr
  unfold Scan.items at hr
  split at hr
  · cases hr
  · cases hr
    exact List.forall_mem_nil P
  · obtain ⟨⟨x, u, hu⟩, hx, hr⟩ := Except.bind_eq_ok_iff.mp hr
    obtain ⟨⟨xs, v, hv⟩, hxs, hr⟩ := Except.bind_eq_ok_iff.mp hr
    cases hr
    exact List.forall_mem_cons.mpr ⟨h _ _ (Except.mapError_eq_ok_iff.mp hx), h.moreItems 1 u _ hxs⟩

theorem Yields.valueOf (h : Yields P p) (k : String) : Yields P (valueOf k p) := by
  refine Yields.spaced fun s r hr => ?_
  split at hr
  · cases hr
  · split at hr
    · obtain ⟨t, ht, rfl⟩ := Except.map_eq_ok_iff.mp hr
      exact h _ t (Except.mapError_eq_ok_iff.mp ht)
    · cases hr

/-- Whatever is gathered has the property, as long as what has been gathered before has it. -/
def Keeps (I : σ → Prop) (m : Member σ) : Prop := ∀ acc k, I acc → Yields I (m acc k)

variable {I : σ → Prop} {m : Member σ}

theorem Keeps.member (h : Keeps I m) {acc : σ} (ha : I acc) : Yields I (member m acc) := by
  intro s r hr
  obtain ⟨⟨k, t, ht⟩, -, hr⟩ := Except.bind_eq_ok_iff.mp hr
  obtain ⟨u, hu, rfl⟩ := Except.map_eq_ok_iff.mp hr
  exact h acc k ha t u hu

theorem Keeps.moreMembers (h : Keeps I m) {acc : σ} (ha : I acc) : Yields I (moreMembers m acc) := by
  intro s r hr
  fun_induction Scan.moreMembers m acc s with
  | case1 => cases hr
  | case2 =>
    cases hr
    exact ha
  | case3 acc s t hn ih =>
    obtain ⟨⟨acc', u, hu⟩, hacc, hr⟩ := Except.bind_eq_ok_iff.mp hr
    obtain ⟨⟨acc'', v, hv⟩, hmore, hr⟩ := Except.bind_eq_ok_iff.mp hr
    cases hr
    exact ih acc' u hu (h.member ha t _ hacc) _ hmore

theorem Keeps.members (h : Keeps I m) {acc : σ} (ha : I acc) : Yields I (members m acc) := by
  intro s r hr
  unfold Scan.members at hr
  split at hr
  · cases hr
  · cases hr
    exact ha
  · obtain ⟨⟨acc', u, hu⟩, hacc, hr⟩ := Except.bind_eq_ok_iff.mp hr
    obtain ⟨⟨acc'', v, hv⟩, hmore, hr⟩ := Except.bind_eq_ok_iff.mp hr
    cases hr
    exact h.moreMembers (h.member ha _ _ hacc) u _ hmore

/-- A key that is read again takes the place that it has. -/
theorem Yields.binding (h : Yields P p) :
    Keeps (fun es => Entries.Distinct es ∧ ∀ e ∈ es, P e.2) (binding p) := by
  intro es k hes s r hr
  obtain ⟨t, ht, rfl⟩ := Except.map_eq_ok_iff.mp hr
  refine ⟨Entries.distinct_insert hes.1 k t.value, fun e he => ?_⟩
  rcases Entries.mem_insert he with rfl | he
  · exact h.valueOf k s t ht
  · exact hes.2 e he

theorem Yields.arrayOf {p : Reader Json} (h : Yields Json.KeysDistinct p) :
    Yields Json.KeysDistinct (arrayOf p) := by
  intro s r hr
  obtain ⟨t, ht, rfl⟩ := Except.map_eq_ok_iff.mp hr
  exact .array (h.items s t ht)

theorem Yields.objectOf {p : Reader Json} (h : Yields Json.KeysDistinct p) :
    Yields Json.KeysDistinct (objectOf p) := by
  intro s r hr
  obtain ⟨t, ht, rfl⟩ := Except.map_eq_ok_iff.mp hr
  have hnil : Entries.Distinct ([] : Entries Json) ∧ ∀ e ∈ ([] : Entries Json), e.2.KeysDistinct :=
    ⟨List.nodup_nil, List.forall_mem_nil _⟩
  obtain ⟨hd, hvs⟩ := h.binding.members hnil s t ht
  exact .object hd hvs

theorem constant_value {v : Json} {letters : String} {b : UInt8} {s : Bytes} {r : Read Json (b :: s)}
    (h : constant v letters b s = .ok r) : r.value = v := by
  obtain ⟨t, -, rfl⟩ := Except.map_eq_ok_iff.mp h
  rfl

theorem document_keysDistinct {inner : Option (Reader Json)}
    (h : ∀ p ∈ inner, Yields Json.KeysDistinct p) : Yields Json.KeysDistinct (document inner) := by
  refine Yields.spaced fun s r hr => ?_
  split at hr
  · cases hr
  split_ifs at hr
  · exact constant_value hr ▸ .null
  · exact constant_value hr ▸ .bool true
  · exact constant_value hr ▸ .bool false
  · obtain ⟨t, -, rfl⟩ := Except.map_eq_ok_iff.mp hr
    exact .number _
  · obtain ⟨t, -, rfl⟩ := Except.map_eq_ok_iff.mp hr
    exact .number _
  · obtain ⟨t, -, rfl⟩ := Except.map_eq_ok_iff.mp hr
    exact .string _
  · cases inner with
    | none => cases hr
    | some p =>
      obtain ⟨t, ht, rfl⟩ := Except.map_eq_ok_iff.mp hr
      exact (h p rfl).arrayOf _ t ht
  · cases inner with
    | none => cases hr
    | some p =>
      obtain ⟨t, ht, rfl⟩ := Except.map_eq_ok_iff.mp hr
      exact (h p rfl).objectOf _ t ht
  · cases hr

theorem value_keysDistinct (depth : Nat) : Yields Json.KeysDistinct (value depth) := by
  induction depth with
  | zero => exact document_keysDistinct fun p hp => nomatch hp
  | succ depth ih => exact document_keysDistinct fun p hp => Option.some.inj hp ▸ ih

end Scan

namespace Json

theorem readFirst_keysDistinct {source : Bytes} {v : Json} (h : readFirst source = .ok v) :
    v.KeysDistinct := by
  unfold readFirst at h
  split at h
  · rename_i r hr
    cases h
    exact Scan.value_keysDistinct maxDepth source r hr
  · cases h

theorem readAll_keysDistinct {source : Bytes} {v : Json} (h : readAll source = .ok v) :
    v.KeysDistinct := by
  unfold readAll at h
  split at h
  · rename_i r hr
    split at h
    · cases h
      exact Scan.value_keysDistinct maxDepth source r hr
    · cases h
  · cases h

theorem KeysDistinct.child? {v w : Json} (hv : v.KeysDistinct) {step : String}
    (h : v.child? step = some w) : w.KeysDistinct := by
  cases v with
  | object ms => exact (keysDistinct_object_iff.mp hv).2 _ (Entries.mem_of_get? h)
  | array vs =>
    obtain ⟨i, -, hi⟩ := Option.bind_eq_some_iff.mp h
    exact keysDistinct_array_iff.mp hv w (List.mem_of_getElem? hi)
  | _ => cases h

theorem KeysDistinct.select? {v w : Json} (hv : v.KeysDistinct) {pointer : String}
    (h : v.select? pointer = some w) : w.KeysDistinct := by
  obtain ⟨steps, -, hs⟩ := Option.bind_eq_some_iff.mp h
  clear h
  induction steps generalizing v with
  | nil =>
    cases hs
    exact hv
  | cons step steps ih =>
    rw [List.foldlM_cons] at hs
    obtain ⟨u, hu, hs⟩ := Option.bind_eq_some_iff.mp hs
    exact ih (hv.child? hu) hs

end Json

end Stencil
