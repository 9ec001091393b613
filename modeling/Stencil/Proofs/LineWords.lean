import Stencil.Proofs.Spelling

/-! Lines read word by word. The words of a line are its pieces between spaces, the empty ones left out;
a reader comes to them one after the other, and always has the end of the line from the next word on in
front of it, until it gives the line up. -/
namespace Stencil

/-- The pieces between spaces that have characters. -/
def lineWords (cs : List Char) : List String := ((cs.splitOn ' ').filter (· ≠ [])).map String.ofList

theorem lineWords_nil : lineWords [] = [] := rfl

theorem lineWords_append_space (cs ds : List Char) :
    lineWords (cs ++ ' ' :: ds) = lineWords cs ++ lineWords ds := by
  unfold lineWords
  rw [List.splitOn_append_cons_self, List.filter_append, List.map_append]

theorem lineWords_cons_space (cs : List Char) : lineWords (' ' :: cs) = lineWords cs :=
  lineWords_append_space [] cs

theorem lineWords_word {w : String} (hw : Words.IsWord w) : lineWords w.toList = [w] := by
  have hne : w.toList ≠ [] := fun h => hw.1 (String.toList_eq_nil_iff.mp h)
  unfold lineWords
  rw [List.splitOn_eq_singleton hw.2, List.filter_cons_of_pos (by simpa using hne)]
  simp [String.ofList_toList]

theorem lineWords_blank_append {gap : List Char} (h : Words.Blank gap) (cs : List Char) :
    lineWords (gap ++ cs) = lineWords cs := by
  induction gap with
  | nil => rfl
  | cons c gap ih =>
    obtain ⟨rfl, hgap⟩ := List.forall_mem_cons.mp h
    rw [List.cons_append, lineWords_cons_space, ih hgap]

theorem lineWords_append_blank {gap : List Char} (h : Words.Blank gap) (cs : List Char) :
    lineWords (cs ++ gap) = lineWords cs := by
  cases gap with
  | nil => rw [List.append_nil]
  | cons c gap =>
    obtain ⟨rfl, hgap⟩ := List.forall_mem_cons.mp h
    have hblank : lineWords gap = [] := by
      have := lineWords_blank_append hgap []
      rwa [List.append_nil, lineWords_nil] at this
    rw [lineWords_append_space, hblank, List.append_nil]

namespace Words

theorem lineWords_strip (cs : List Char) : lineWords (strip cs) = lineWords cs := by
  obtain ⟨before, after, hcs, hbefore, hafter⟩ := exists_padding cs
  conv_rhs => rw [hcs]
  rw [lineWords_append_blank hafter, lineWords_blank_append hbefore]

/-- Words that are joined are those of the line, with the words of the rest behind them. -/
theorem Joined.lineWords_eq {ws : List String} {rest cs : List Char} (h : Joined ws rest cs) :
    lineWords cs = ws ++ lineWords rest := by
  induction h with
  | rest => rfl
  | last hw => rw [lineWords_word hw, lineWords_nil, List.append_nil]
  | more hw hgap _ _ ih =>
    rw [List.append_assoc, List.cons_append, lineWords_append_space, lineWords_word hw,
      lineWords_blank_append hgap, ih]
    rfl

/-- One step: the next word is the first that is left, and the others are left after it. -/
theorem lineWords_next {v : Words} (hv : v.Stripped) :
    v.next.current = (lineWords v.rest).head? ∧ lineWords v.next.rest = (lineWords v.rest).tail := by
  cases hw : v.next.current with
  | none =>
    have hnil : v.rest = [] := current_next_eq_none_iff.mp hw
    have hnext : v.next.rest = [] := by simp [next, hnil]
    rw [hnil, hnext]
    exact ⟨rfl, rfl⟩
  | some w =>
    have hjoined : Joined [w] v.next.rest v.rest :=
      (joined_cons_iff hv).mpr ⟨hw, (joined_nil_iff (stripped_next v)).mpr rfl⟩
    have heq : lineWords v.rest = w :: lineWords v.next.rest := hjoined.lineWords_eq
    rw [heq]
    exact ⟨rfl, rfl⟩

theorem lineWords_eq_nil_iff {v : Words} (hv : v.Stripped) : lineWords v.rest = [] ↔ v.rest = [] := by
  rw [← current_next_eq_none_iff, (lineWords_next hv).1, List.head?_eq_none_iff]

/-- What a reader may be asked for: the next word, or to give up the rest of the line. -/
inductive Call where
  | next
  | done
deriving DecidableEq

def Call.on : Call → Words → Words
  | next, v => v.next
  | done, v => v.done

/-- The reader after the calls. -/
def after (v : Words) (calls : List Call) : Words := calls.foldl (fun v call => call.on v) v

/-- What the calls for a word have returned, in their order. -/
def answers (v : Words) : List Call → List (Option String)
  | [] => []
  | .next :: calls => v.next.current :: answers v.next calls
  | .done :: calls => answers v.done calls

theorem after_append (v : Words) (calls later : List Call) :
    v.after (calls ++ later) = (v.after calls).after later := List.foldl_append

theorem answers_append (v : Words) (calls later : List Call) :
    v.answers (calls ++ later) = v.answers calls ++ (v.after calls).answers later := by
  induction calls generalizing v with
  | nil => rfl
  | cons call calls ih =>
    cases call with
    | next => exact congrArg (v.next.current :: ·) (ih v.next)
    | done => exact ih v.done

section Reading

variable {v : Words} (hv : v.Stripped) (k : Nat)
include hv

theorem stripped_after_next : (v.after (.replicate k .next)).Stripped := by
  induction k generalizing v with
  | zero => exact hv
  | succ k ih => exact ih (stripped_next v)

/-- After `k` calls the first `k` words have been read, and the others are left. -/
theorem lineWords_after_next : lineWords (v.after (.replicate k .next)).rest = (lineWords v.rest).drop k := by
  induction k generalizing v with
  | zero => rfl
  | succ k ih =>
    have hstep : lineWords (v.after (.replicate (k + 1) .next)).rest = (lineWords v.next.rest).drop k :=
      ih (stripped_next v)
    rw [hstep, (lineWords_next hv).2, List.drop_tail]

theorem next_after_next :
    (v.after (.replicate k .next)).next.current = (lineWords v.rest)[k]? := by
  rw [(lineWords_next (stripped_after_next hv k)).1, lineWords_after_next hv, List.head?_drop]

theorem answers_next :
    v.answers (.replicate k .next) = (List.range k).map fun i => (lineWords v.rest)[i]? := by
  induction k with
  | zero => rfl
  | succ k ih =>
    rw [List.replicate_succ', answers_append, ih, List.range_succ, List.map_append]
    exact congrArg _ (congrArg ([·]) (next_after_next hv k))

/-- What is left in front of the reader is joined to the words before it. -/
theorem joined_after_next (hk : k ≤ (lineWords v.rest).length) :
    Joined ((lineWords v.rest).take k) (v.after (.replicate k .next)).rest v.rest := by
  induction k generalizing v with
  | zero => exact (joined_nil_iff hv).mpr rfl
  | succ k ih =>
    obtain ⟨hcurrent, htail⟩ := lineWords_next hv
    cases hws : lineWords v.rest with
    | nil => simp [hws] at hk
    | cons w ws =>
      rw [hws] at hcurrent htail hk
      have hrest := ih (stripped_next v) (by rw [htail]; exact Nat.le_of_succ_le_succ hk)
      rw [htail] at hrest
      exact (joined_cons_iff hv).mpr ⟨hcurrent, hrest⟩

end Reading

/-- A reader shows the word that it has returned last. -/
theorem current_after_next {v : Words} (hv : v.current = none) (k : Nat) :
    (v.after (.replicate k .next)).current = (v.answers (.replicate k .next)).getLast?.join := by
  cases k with
  | zero => exact hv
  | succ k =>
    rw [List.replicate_succ', after_append, answers_append]
    simp only [answers, List.getLast?_append_cons, List.getLast?_singleton, Option.join_some]
    rfl

theorem remainder?_eq_none_iff {v : Words} : v.remainder? = none ↔ v.rest = [] := by
  unfold remainder?
  cases v.rest <;> simp

theorem remainder?_eq_some_iff {v : Words} {r : String} :
    v.remainder? = some r ↔ v.rest ≠ [] ∧ r.toList = v.rest := by
  unfold remainder?
  cases v.rest with
  | nil => simp
  | cons c cs =>
    simp only [List.isEmpty_cons, Bool.false_eq_true, if_false, Option.some.injEq, ne_eq, reduceCtorEq,
      not_false_eq_true, true_and]
    constructor
    · rintro rfl
      exact String.toList_ofList
    · intro h
      rw [← h, String.ofList_toList]

/-- A line that has been given up stays so. -/
theorem after_done (v : Words) (later : List Call) : v.after (.done :: later) = v.done := by
  induction later generalizing v with
  | nil => rfl
  | cons call later ih =>
    cases call with
    | next => exact ih v
    | done => exact ih v

theorem answers_done (v : Words) (later : List Call) :
    v.answers (.done :: later) = .replicate (later.count .next) none := by
  induction later generalizing v with
  | nil => rfl
  | cons call later ih =>
    cases call with
    | next =>
      rw [List.count_cons_self, List.replicate_succ]
      exact congrArg (none :: ·) (ih v)
    | done =>
      rw [List.count_cons_of_ne (by decide)]
      exact ih v

theorem eq_replicate_next {calls : List Call} (h : Call.done ∉ calls) :
    calls = .replicate calls.length .next := by
  refine List.eq_replicate_iff.mpr ⟨rfl, fun call hcall => ?_⟩
  cases call with
  | next => rfl
  | done => exact absurd hcall h

/-- The first word of a line, without a reader. -/
theorem first_eq (s : String) : first s = (lineWords s.toList).head?.getD "" := by
  have hwords : lineWords (ofString s).rest = lineWords s.toList := lineWords_strip s.toList
  have hcurrent := (lineWords_next (stripped_ofString s)).1
  rw [hwords] at hcurrent
  rw [← hcurrent]
  cases hw : (ofString s).next.current with
  | some w => exact first_of_current hw
  | none =>
    have hblank := rest_ofString_eq_nil_iff.mp (current_next_eq_none_iff.mp hw)
    have hdrop := dropWhile_isSpace_append hblank []
    rw [List.append_nil] at hdrop
    rw [first, hdrop]
    rfl

/-- The words of a line are read one after the other, with none behind the last, and none once the line
has been given up. -/
theorem words_one_by_one (s : String) :
    (∀ calls, Call.done ∉ calls →
      (ofString s).answers calls = (List.range calls.length).map (fun i => (lineWords s.toList)[i]?) ∧
      ((ofString s).after calls).current = ((ofString s).answers calls).getLast?.join ∧
      (((ofString s).after calls).remainder? = none ↔ (lineWords s.toList).length ≤ calls.length) ∧
      ∀ r, ((ofString s).after calls).remainder? = some r →
        Splits s ((lineWords s.toList).take calls.length) r.toList ∧
        ∀ n, (ofString r).answers (.replicate n .next) =
          (List.range n).map fun i => (lineWords s.toList)[calls.length + i]?) ∧
    (∀ calls later,
      ((ofString s).after (calls ++ .done :: later)).current = none ∧
      ((ofString s).after (calls ++ .done :: later)).remainder? = none ∧
      (ofString s).answers (calls ++ .done :: later) =
        (ofString s).answers calls ++ .replicate (later.count .next) none) ∧
    first s = (lineWords s.toList).head?.getD "" ∧ first s = (ofString s).next.current.getD "" := by
  have hs := stripped_ofString s
  have hwords : lineWords (ofString s).rest = lineWords s.toList := lineWords_strip s.toList
  refine ⟨fun calls hcalls => ?_, fun calls later => ?_, first_eq s, ?_⟩
  · -- without `done` the calls differ in their number only
    rw [eq_replicate_next hcalls, List.length_replicate]
    generalize calls.length = k
    have hleft := lineWords_after_next hs k
    have hend := lineWords_eq_nil_iff (stripped_after_next hs k)
    rw [hleft, List.drop_eq_nil_iff] at hend
    rw [hwords] at hleft hend
    refine ⟨hwords ▸ answers_next hs k, current_after_next rfl k, ?_, fun r hr => ?_⟩
    · rw [remainder?_eq_none_iff, hend]
    · obtain ⟨hne, hr⟩ := remainder?_eq_some_iff.mp hr
      have hk : k ≤ (lineWords s.toList).length := by
        by_contra hlt
        exact hne (hend.mp (by omega))
      have hfresh : lineWords (ofString r).rest = (lineWords s.toList).drop k := by
        rw [← hleft, ← hr]
        exact lineWords_strip r.toList
      refine ⟨?_, fun n => ?_⟩
      · rw [splits_iff_joined, hr, ← hwords]
        exact joined_after_next hs k (hwords ▸ hk)
      · rw [answers_next (stripped_ofString r), hfresh]
        simp only [List.getElem?_drop]
  · rw [after_append, answers_append, after_done, answers_done]
    exact ⟨rfl, rfl, rfl⟩
  · rw [first_eq, (lineWords_next hs).1, hwords]

/-- A key with a tab in its name and a literal with spaces in it. -/
def spacedLine : String := " n\tx  default [1,   2] "

theorem spacedLine_one_by_one :
    Call.done ∉ [Call.next, Call.next] ∧
      ((ofString spacedLine).after [.next, .next]).remainder? = some "[1,   2]" ∧
      (ofString spacedLine).answers [.next, .next] = [some "n\tx", some "default"] ∧
      Splits spacedLine ["n\tx", "default"] "[1,   2]".toList ∧
      (ofString "[1,   2]").answers [.next, .next, .next] = [some "[1,", some "2]", none] := by
  have hcalls : Call.done ∉ [Call.next, Call.next] := by decide
  have hwords : lineWords spacedLine.toList = ["n\tx", "default", "[1,", "2]"] := by decide
  have hrest : ((ofString spacedLine).after [.next, .next]).remainder? = some "[1,   2]" := by decide
  obtain ⟨hanswers, -, -, hremainder⟩ := (words_one_by_one spacedLine).1 [.next, .next] hcalls
  obtain ⟨hsplits, hfresh⟩ := hremainder _ hrest
  rw [hwords] at hanswers hsplits hfresh
  exact ⟨hcalls, hrest, hanswers, hsplits, hfresh 3⟩

end Words

end Stencil
