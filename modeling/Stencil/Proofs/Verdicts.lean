import Stencil.Proofs.Checking
import Stencil.Proofs.Occurrences

/-! Defaults and verdicts: a document passes with defaults filled in exactly when it passes without,
and it is refused for the same reason. -/
namespace Stencil

open Except (Alike)

theorem Tag.guard_alike {t : Tag} {v : Json} {k l : Except Violation Json} (h : Alike k l) :
    Alike (t.guard v k) (t.guard v l) := by
  unfold Tag.guard
  split
  · exact h
  · exact .error _

namespace Template

theorem eachItem_alike {f g : Json → Except Violation Json} (h : ∀ v, Alike (f v) (g v)) (i : Nat)
    (vs : List Json) : Alike (eachItem f i vs) (eachItem g i vs) := by
  induction vs generalizing i with
  | nil => exact .ok [] []
  | cons v vs ih =>
    have hv := (h v).mapError (Violation.under (toString i))
    exact hv.bind fun w w' _ _ => (ih (i + 1)).bind fun ws ws' _ _ => .ok (w :: ws) (w' :: ws')

theorem checkProperty_alike {p : Property Template} {ms ns : List (String × Json)}
    (hp : ∀ v, Alike (p.template.check true v) (p.template.check false v))
    (hg : Entries.get? ms p.name = Entries.get? ns p.name) :
    Alike (checkProperty true p ms) (checkProperty false p ns) := by
  cases hm : Entries.get? ms p.name with
  | none =>
    rw [checkProperty_of_none hm, checkProperty_of_none (hg ▸ hm)]
    split
    · exact .error _
    · exact .ok _ _
  | some v =>
    by_cases hv : v = .null
    · subst v
      rw [checkProperty_of_null hm, checkProperty_of_null (hg ▸ hm)]
      split
      · exact .ok _ _
      · exact .error _
    · rw [checkProperty_of_some hm hv, checkProperty_of_some (hg ▸ hm) hv]
      exact ((hp v).mapError _).map _ _

/-- Names being distinct, defaults that have been filled in are none of the members that are still to be
looked at. -/
theorem checkProperties_alike {ps : List (Property Template)} {ms ns : List (String × Json)}
    (hps : ∀ p ∈ ps, ∀ v, Alike (p.template.check true v) (p.template.check false v))
    (hd : (ps.map (·.name)).Nodup) (hg : ∀ p ∈ ps, Entries.get? ms p.name = Entries.get? ns p.name) :
    Alike (checkProperties true ps ms) (checkProperties false ps ns) := by
  induction ps generalizing ms ns with
  | nil => exact .ok ms ns
  | cons p ps ih =>
    rw [List.map_cons, List.nodup_cons] at hd
    rw [checkProperties_cons, checkProperties_cons]
    have hp := checkProperty_alike (hps p List.mem_cons_self) (hg p List.mem_cons_self)
    -- both runs have changed the member of `p` only, and `p` is not declared again
    refine hp.bind fun ms' ns' hms hns => ?_
    refine ih (fun q hq => hps q (List.mem_cons_of_mem p hq)) hd.2 fun q hq => ?_
    have hne : p.name ≠ q.name := by
      intro he
      exact hd.1 (he ▸ List.mem_map_of_mem hq)
    rw [get?_checkProperty hms hne, get?_checkProperty hns hne]
    exact hg q (List.mem_cons_of_mem p hq)

theorem check_alike {t : Template} (ht : t.NamesDistinct) (v : Json) :
    Alike (t.check true v) (t.check false v) := by
  induction t generalizing v with
  | value tag d => exact Tag.guard_alike (.ok v v)
  | freeArray d => exact Tag.guard_alike (.ok v v)
  | array d item ih =>
    have hi := (everywhere_array_iff.mp ht).2
    refine Tag.guard_alike ?_
    cases v with
    | array vs => exact (eachItem_alike (ih hi) 0 vs).map _ _
    | _ => exact .ok _ _
  | object d ps ih =>
    obtain ⟨hd, hps⟩ := everywhere_object_iff.mp ht
    refine Tag.guard_alike ?_
    cases v with
    | object ms =>
      have hg : ∀ p ∈ ps, Entries.get? ms p.name = Entries.get? ms p.name := fun _ _ => rfl
      exact (checkProperties_alike (fun p hp => ih p hp (hps p hp)) hd hg).map _ _
    | _ => exact .ok _ _
  | named definition d ih => exact ih (everywhere_named_iff.mp ht).2 v

end Template

end Stencil
