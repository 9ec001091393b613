import Mathlib.Data.List.DropRight
import Stencil.Proofs.Compiling
import Stencil.Proofs.Keys

/-! How keys and directives are spelled: lines of words with spaces between them, and perhaps a literal
behind the last word. This says nothing of how a line is read; reading one word after the other accepts
exactly the lines that are spelled this way, and comes to what they spell. -/
namespace Stencil

namespace Words

/-- Nothing but spaces. -/
def Blank (cs : List Char) : Prop := ∀ c ∈ cs, c = ' '

/-- Some characters, none of them a space. -/
def IsWord (w : String) : Prop := w ≠ "" ∧ ' ' ∉ w.toList

/-- The words `ws` and then `rest`, with one or more spaces between one and the next. -/
inductive Joined : List String → List Char → List Char → Prop
  | rest {rest : List Char} (h : rest.head? ≠ some ' ') : Joined [] rest rest
  | last {w : String} (hw : IsWord w) : Joined [w] [] w.toList
  | more {w : String} {ws : List String} {gap rest cs : List Char} (hw : IsWord w) (hgap : Blank gap)
      (hcs : cs ≠ []) (h : Joined ws rest cs) : Joined (w :: ws) rest (w.toList ++ ' ' :: gap ++ cs)

/-- The line `s`, without the spaces at its ends, consists of `ws` and then of `rest`. -/
def Splits (s : String) (ws : List String) (rest : List Char) : Prop :=
  ∃ before core after, s.toList = before ++ core ++ after ∧ Blank before ∧ Blank after ∧
    core.getLast? ≠ some ' ' ∧ Joined ws rest core

theorem blank_nil : Blank [] := fun _ h => nomatch h

theorem isSpace_iff {c : Char} : isSpace c = true ↔ c = ' ' := by
  rw [isSpace, beq_iff_eq]

theorem dropWhile_isSpace_append {cs : List Char} (h : Blank cs) (r : List Char) :
    (cs ++ r).dropWhile isSpace = r.dropWhile isSpace :=
  List.dropWhile_append_of_pos fun c hc => isSpace_iff.mpr (h c hc)

theorem dropWhile_isSpace_of_head {r : List Char} (h : r.head? ≠ some ' ') :
    r.dropWhile isSpace = r := by
  cases r with
  | nil => rfl
  | cons c r =>
    rw [List.dropWhile_cons_of_neg]
    intro hc
    exact h (congrArg some (isSpace_iff.mp hc))

theorem rdropWhile_isSpace_append {r cs : List Char} (h : Blank cs) (hr : r.getLast? ≠ some ' ') :
    (r ++ cs).rdropWhile isSpace = r := by
  have hrev : r.reverse.head? ≠ some ' ' := by rwa [List.head?_reverse]
  have hcs : Blank cs.reverse := fun c hc => h c (List.mem_reverse.mp hc)
  rw [List.rdropWhile, List.reverse_append, dropWhile_isSpace_append hcs,
    dropWhile_isSpace_of_head hrev, List.reverse_reverse]

/-- Stripping takes away the spaces at both ends and no others. -/
theorem strip_padded {before core after : List Char} (hb : Blank before) (ha : Blank after)
    (hhead : core.head? ≠ some ' ') (hlast : core.getLast? ≠ some ' ') :
    strip (before ++ core ++ after) = core := by
  change ((before ++ core ++ after).dropWhile isSpace).rdropWhile isSpace = core
  rw [List.append_assoc, dropWhile_isSpace_append hb]
  cases core with
  | nil => simpa [List.rdropWhile_eq_nil_iff, List.dropWhile_append_of_pos, isSpace_iff] using
      fun c hc => ha c ((List.dropWhile_sublist _).mem hc)
  | cons c core =>
    rw [dropWhile_isSpace_of_head (by simpa using hhead)]
    exact rdropWhile_isSpace_append ha hlast

theorem head?_strip (cs : List Char) : (strip cs).head? ≠ some ' ' := by
  intro h
  obtain ⟨r, hr⟩ := List.head?_eq_some_iff.mp h
  have := isSpace_of_strip hr
  simp [isSpace] at this

theorem getLast?_strip (cs : List Char) : (strip cs).getLast? ≠ some ' ' := by
  intro h
  rw [strip, List.getLast?_reverse] at h
  have := List.head?_dropWhile_not isSpace (cs.dropWhile isSpace).reverse
  rw [h] at this
  simp [isSpace] at this

theorem exists_padding (cs : List Char) :
    ∃ before after, cs = before ++ strip cs ++ after ∧ Blank before ∧ Blank after := by
  refine ⟨cs.takeWhile isSpace, (cs.dropWhile isSpace).rtakeWhile isSpace, ?_, fun c hc => ?_,
    fun c hc => ?_⟩
  · have hback : strip cs ++ (cs.dropWhile isSpace).rtakeWhile isSpace = cs.dropWhile isSpace :=
      List.rdropWhile_append_rtakeWhile
    rw [List.append_assoc, hback, List.takeWhile_append_dropWhile]
  · exact isSpace_iff.mp (List.mem_takeWhile_imp hc)
  · exact isSpace_iff.mp (List.mem_rtakeWhile_imp hc)

theorem strip_eq_self {r : List Char} (hhead : r.head? ≠ some ' ') (hlast : r.getLast? ≠ some ' ') :
    strip r = r := by
  have h := strip_padded blank_nil blank_nil hhead hlast
  simpa using h

theorem IsWord.exists_cons {w : String} (h : IsWord w) : ∃ c cs, w.toList = c :: cs ∧ c ≠ ' ' := by
  cases hw : w.toList with
  | nil => exact absurd (String.toList_eq_nil_iff.mp hw) h.1
  | cons c cs =>
    refine ⟨c, cs, rfl, ?_⟩
    rintro rfl
    exact h.2 (hw ▸ List.mem_cons_self)

theorem Joined.head? {ws : List String} {rest cs : List Char} (h : Joined ws rest cs) :
    cs.head? ≠ some ' ' := by
  cases h with
  | rest h => exact h
  | last hw =>
    obtain ⟨c, cs, hcs, hc⟩ := hw.exists_cons
    simp [hcs, hc]
  | more hw =>
    obtain ⟨c, cs, hcs, hc⟩ := hw.exists_cons
    simp [hcs, hc]

theorem splits_iff {s : String} {ws : List String} {rest : List Char} :
    Splits s ws rest ↔ Joined ws rest (strip s.toList) := by
  constructor
  · rintro ⟨before, core, after, hs, hb, ha, hlast, h⟩
    rwa [hs, strip_padded hb ha h.head? hlast]
  · intro h
    obtain ⟨before, after, hs, hb, ha⟩ := exists_padding s.toList
    exact ⟨before, strip s.toList, after, hs, hb, ha, getLast?_strip _, h⟩

theorem getLast?_of_append {r cs : List Char} (h : (r ++ cs).getLast? ≠ some ' ') (hcs : cs ≠ []) :
    cs.getLast? ≠ some ' ' := by
  rwa [List.getLast?_append_of_ne_nil _ hcs] at h

/-- A word ends at the first space behind it. -/
theorem IsWord.takeWhile_append {w : String} {r : List Char} (hw : IsWord w)
    (hr : r = [] ∨ r.head? = some ' ') :
    (w.toList ++ r).takeWhile (!isSpace ·) = w.toList ∧ (w.toList ++ r).dropWhile (!isSpace ·) = r := by
  have hall : ∀ a ∈ w.toList, (!isSpace a) = true := by
    intro a ha
    rw [Bool.not_eq_true', Bool.eq_false_iff, ne_eq, isSpace_iff]
    exact fun he => hw.2 (he ▸ ha)
  have hstop : r.takeWhile (!isSpace ·) = [] ∧ r.dropWhile (!isSpace ·) = r := by
    rcases hr with rfl | hr
    · exact ⟨rfl, rfl⟩
    · obtain ⟨r', rfl⟩ := List.head?_eq_some_iff.mp hr
      exact ⟨rfl, rfl⟩
  rw [List.takeWhile_append_of_pos hall, List.dropWhile_append_of_pos hall, hstop.1, hstop.2,
    List.append_nil]
  exact ⟨rfl, rfl⟩

theorem next_append {c : Option String} {w : String} {r : List Char} (hw : IsWord w)
    (hr : r = [] ∨ r.head? = some ' ') :
    (⟨c, w.toList ++ r⟩ : Words).next = ⟨some w, strip r⟩ := by
  obtain ⟨a, cs, hcs, -⟩ := hw.exists_cons
  obtain ⟨htake, hdrop⟩ := hw.takeWhile_append hr
  have hne : (w.toList ++ r).isEmpty = false := by simp [hcs]
  simp only [next, hne, htake, hdrop, String.ofList_toList, Bool.false_eq_true, if_false]

/-- What has been joined begins with a word that reading finds, and goes on with what it leaves. -/
theorem Joined.next {c : Option String} {w : String} {ws : List String} {rest r : List Char}
    (h : Joined (w :: ws) rest r) (hlast : r.getLast? ≠ some ' ') :
    (⟨c, r⟩ : Words).next.current = some w ∧ Joined ws rest (⟨c, r⟩ : Words).next.rest := by
  cases h with
  | last hw =>
    have hnext := next_append (c := c) (r := []) hw (.inl rfl)
    rw [List.append_nil] at hnext
    rw [hnext]
    exact ⟨rfl, .rest (by simp)⟩
  | @more _ _ gap _ cs hw hgap hcs h =>
    rw [List.append_assoc] at hlast ⊢
    rw [next_append hw (.inr rfl)]
    have hblank : Blank (' ' :: gap) := List.forall_mem_cons.mpr ⟨rfl, hgap⟩
    have hstrip := strip_padded hblank blank_nil h.head?
      (getLast?_of_append (getLast?_of_append hlast (by simp)) hcs)
    rw [List.append_nil] at hstrip
    rw [hstrip]
    exact ⟨rfl, h⟩

theorem Joined.eq_nil {ws : List String} {rest cs : List Char} (h : Joined ws rest cs)
    (hcs : cs = []) : ws = [] ∧ rest = [] := by
  cases h with
  | rest => exact ⟨rfl, hcs⟩
  | last hw =>
    obtain ⟨c, cs, he, -⟩ := hw.exists_cons
    simp [he] at hcs
  | more hw => simp at hcs

/-- The characters up to the first space are a word if there are any. -/
theorem isWord_takeWhile {c : Char} (r : List Char) (hc : c ≠ ' ') :
    IsWord (String.ofList ((c :: r).takeWhile (!isSpace ·))) := by
  constructor
  · have hspace : isSpace c = false := by
      rw [Bool.eq_false_iff, ne_eq, isSpace_iff]
      exact hc
    simp [hspace]
  · rw [String.toList_ofList]
    intro hm
    have := List.mem_takeWhile_imp hm
    simp [isSpace] at this

/-- Spaces, and then what is left of a line that does not end with one. -/
theorem exists_gap {t : List Char} (hlast : (' ' :: t).getLast? ≠ some ' ') :
    ∃ gap cs, t = gap ++ cs ∧ Blank gap ∧ cs ≠ [] ∧ strip (' ' :: t) = cs := by
  have hblank : Blank (t.takeWhile isSpace) := fun c hc => isSpace_iff.mp (List.mem_takeWhile_imp hc)
  have hsplit : t.takeWhile isSpace ++ t.dropWhile isSpace = t := List.takeWhile_append_dropWhile
  have hne : t.dropWhile isSpace ≠ [] := by
    intro hnil
    rw [hnil, List.append_nil] at hsplit
    have hall : Blank (' ' :: t) := List.forall_mem_cons.mpr ⟨rfl, hsplit ▸ hblank⟩
    have hmem := List.getLast_mem (List.cons_ne_nil ' ' t)
    exact hlast ((List.getLast?_eq_some_getLast _).trans (congrArg some (hall _ hmem)))
  refine ⟨t.takeWhile isSpace, t.dropWhile isSpace, hsplit.symm, hblank, hne, ?_⟩
  have hhead : (t.dropWhile isSpace).head? ≠ some ' ' := by
    intro hh
    have := List.head?_dropWhile_not isSpace t
    rw [hh] at this
    simp [isSpace] at this
  have hback : (t.dropWhile isSpace).getLast? ≠ some ' ' := by
    rw [← hsplit, ← List.cons_append] at hlast
    exact getLast?_of_append hlast hne
  have hgap : Blank (' ' :: t.takeWhile isSpace) := List.forall_mem_cons.mpr ⟨rfl, hblank⟩
  have hstrip := strip_padded hgap blank_nil hhead hback
  rwa [List.append_nil, List.cons_append, hsplit] at hstrip

theorem joined_of_next {c : Option String} {w : String} {ws : List String} {rest r : List Char}
    (hhead : r.head? ≠ some ' ') (hlast : r.getLast? ≠ some ' ')
    (hw : (⟨c, r⟩ : Words).next.current = some w) (h : Joined ws rest (⟨c, r⟩ : Words).next.rest) :
    Joined (w :: ws) rest r := by
  cases r with
  | nil => simp [Words.next] at hw
  | cons a r =>
    obtain ⟨t, ht⟩ : ∃ t, (a :: r).dropWhile (!isSpace ·) = t := ⟨_, rfl⟩
    have hword : String.ofList ((a :: r).takeWhile (!isSpace ·)) = w := by simpa [Words.next] using hw
    have hisWord : IsWord w := hword ▸ isWord_takeWhile r (by simpa using hhead)
    have hsplit : a :: r = w.toList ++ t := by
      rw [← hword, ← ht, String.toList_ofList, List.takeWhile_append_dropWhile]
    have hrest : Joined ws rest (strip t) := by simpa [Words.next, ht] using h
    rw [hsplit] at hlast ⊢
    cases t with
    | nil =>
      obtain ⟨rfl, rfl⟩ := hrest.eq_nil rfl
      rw [List.append_nil]
      exact .last hisWord
    | cons b t =>
      obtain rfl : b = ' ' := by
        have := List.head?_dropWhile_not (!isSpace ·) (a :: r)
        rw [ht] at this
        simpa [isSpace_iff] using this
      obtain ⟨gap, cs, rfl, hgap, hcs, hstrip⟩ := exists_gap (getLast?_of_append hlast (by simp))
      rw [hstrip] at hrest
      rw [← List.cons_append, ← List.append_assoc]
      exact .more hisWord hgap hcs hrest

/-- A line that is being read has been stripped. -/
def Stripped (v : Words) : Prop := v.rest.head? ≠ some ' ' ∧ v.rest.getLast? ≠ some ' '

theorem stripped_ofString (s : String) : (ofString s).Stripped := ⟨head?_strip _, getLast?_strip _⟩

theorem stripped_next (v : Words) : v.next.Stripped := by
  unfold next
  split
  · exact ⟨by simp, by simp⟩
  · exact ⟨head?_strip _, getLast?_strip _⟩

variable {v : Words}

theorem joined_cons_iff (hv : v.Stripped) {w : String} {ws : List String} {rest : List Char} :
    Joined (w :: ws) rest v.rest ↔ v.next.current = some w ∧ Joined ws rest v.next.rest :=
  ⟨fun h => h.next hv.2, fun h => joined_of_next hv.1 hv.2 h.1 h.2⟩

theorem joined_nil_iff (hv : v.Stripped) {rest : List Char} : Joined [] rest v.rest ↔ v.rest = rest := by
  constructor
  · intro h
    cases h
    rfl
  · rintro rfl
    exact .rest hv.1

/-- There is no next word when nothing is left, and then only. -/
theorem current_next_eq_none_iff : v.next.current = none ↔ v.rest = [] := by
  unfold next
  cases v.rest <;> simp

theorem splits_iff_joined {s : String} {ws : List String} {rest : List Char} :
    Splits s ws rest ↔ Joined ws rest (ofString s).rest := splits_iff

theorem rest_ofString_eq_nil_iff {s : String} : (ofString s).rest = [] ↔ Blank s.toList := by
  constructor
  · intro h
    obtain ⟨before, after, hs, hbefore, hafter⟩ := exists_padding s.toList
    have hstrip : strip s.toList = [] := h
    rw [hs, hstrip, List.append_nil]
    exact List.forall_mem_append.mpr ⟨hbefore, hafter⟩
  · intro h
    have hstrip : strip (s.toList ++ [] ++ []) = [] := strip_padded h blank_nil (by simp) (by simp)
    rwa [List.append_nil, List.append_nil] at hstrip

/-- The first word of a line is the first one that is read. -/
theorem first_of_current {s w : String} (h : (ofString s).next.current = some w) : first s = w := by
  obtain ⟨before, after, hs, hb, ha⟩ := exists_padding s.toList
  have hrest : (ofString s).rest = strip s.toList := rfl
  rw [next, hrest] at h
  cases hstrip : strip s.toList with
  | nil => simp [hstrip] at h
  | cons c r =>
    have hword : String.ofList ((c :: r).takeWhile (!isSpace ·)) = w := by simpa [hstrip] using h
    have hhead : (c :: r ++ after).head? ≠ some ' ' := fun hc => head?_strip s.toList (hstrip ▸ hc)
    have hblank : after.takeWhile (!isSpace ·) = [] := by
      cases after with
      | nil => rfl
      | cons a after => simp [isSpace_iff.mpr (ha a List.mem_cons_self)]
    have htake : (c :: r ++ after).takeWhile (!isSpace ·) = (c :: r).takeWhile (!isSpace ·) := by
      rw [List.takeWhile_append, hblank, List.append_nil]
      split
      · rename_i hlen
        exact ((List.takeWhile_prefix _).eq_of_length hlen).symm
      · rfl
    rw [first, hs, hstrip, List.append_assoc, dropWhile_isSpace_append hb, dropWhile_isSpace_of_head hhead,
      htake, hword]

/-- The first word of a line, and what it stands in front of. -/
theorem splits_word_iff {s w : String} {rest : List Char} :
    Splits s [w] rest ↔ (ofString s).next.current = some w ∧ (ofString s).next.rest = rest := by
  rw [splits_iff_joined, joined_cons_iff (stripped_ofString s), joined_nil_iff (stripped_next _)]

theorem splits_words_iff {s w w' : String} {rest : List Char} :
    Splits s [w, w'] rest ↔ (ofString s).next.current = some w ∧
      (ofString s).next.next.current = some w' ∧ (ofString s).next.next.rest = rest := by
  rw [splits_iff_joined, joined_cons_iff (stripped_ofString s), joined_cons_iff (stripped_next _),
    joined_nil_iff (stripped_next _)]

/-- The next word is the first of those that are joined, unless only a rest is left. -/
theorem current_next_of_joined (hv : v.Stripped) {ws : List String} {rest : List Char}
    (h : Joined ws rest v.rest) (hrest : ws = [] → rest = []) : v.next.current = ws.head? := by
  cases ws with
  | nil => exact current_next_eq_none_iff.mpr ((joined_nil_iff hv).mp h ▸ hrest rfl)
  | cons w ws => exact ((joined_cons_iff hv).mp h).1

/-- A keyword that may stand in front of other words is accepted where it does. -/
theorem accept_of_joined (hv : v.Stripped) {keyword : String} {given : Bool} {ws : List String}
    {rest : List Char} (h : Joined ((if given then [keyword] else []) ++ ws) rest v.rest)
    (hws : ws.head? ≠ some keyword) (hrest : ws = [] → rest = []) :
    ∃ u : Words, v.next.accept keyword = (given, u.next) ∧ u.Stripped ∧ Joined ws rest u.rest := by
  cases given with
  | true =>
    obtain ⟨hw, h⟩ := (joined_cons_iff hv).mp h
    exact ⟨v.next, by rw [accept, if_pos hw], stripped_next v, h⟩
  | false =>
    have hcur : v.next.current ≠ some keyword := current_next_of_joined hv h hrest ▸ hws
    exact ⟨v, by rw [accept, if_neg hcur], hv, h⟩

theorem joined_of_accept (hv : v.Stripped) {keyword : String} {given : Bool} {u : Words}
    (h : v.next.accept keyword = (given, u)) :
    ∃ u' : Words, u = u'.next ∧ u'.Stripped ∧ ∀ ws rest, Joined ws rest u'.rest →
      Joined ((if given then [keyword] else []) ++ ws) rest v.rest := by
  rw [accept] at h
  split at h
  · rename_i hw
    cases h
    exact ⟨v.next, rfl, stripped_next v, fun ws rest h => (joined_cons_iff hv).mpr ⟨hw, h⟩⟩
  · cases h
    exact ⟨v, rfl, hv, fun ws rest h => h⟩

/-- What is left of a line, read as one document. -/
theorem literal_eq_ok_iff {d : Json} :
    v.literal = .ok d ↔ Json.readAll (Utf8.encode (String.ofList v.rest)) = .ok d := by
  unfold literal remainder?
  cases v.rest with
  | nil => simp [show Json.readAll (Utf8.encode (String.ofList [])) = .error _ from rfl]
  | cons c r => simp [Except.mapError_eq_ok_iff]

end Words

namespace PropertyKey

open Words

/-- The modifiers of a key in front of a default. -/
def flags (required reopened : Bool) : List String :=
  (if required then ["required"] else []) ++ if reopened then ["nullable"] else []

/-- The key `s` is spelled `name [required] [nullable] [default literal]`. -/
inductive Spelled (s : String) : PropertyKey → Prop
  | plain {name : String} {required reopened : Bool} (h : Splits s (name :: flags required reopened) []) :
      Spelled s ⟨name, required, reopened || !required, none⟩
  | withDefault {name : String} {required reopened : Bool} {literal : List Char} {v : Json}
      (h : Splits s (name :: flags required reopened ++ ["default"]) literal)
      (hv : Json.readAll (Utf8.encode (String.ofList literal)) = .ok v) :
      Spelled s ⟨name, required, reopened || !required, some v⟩

variable {v : Words} {name : String} {key : PropertyKey}

/-- What the modifiers behind a name may be. -/
theorem modifiers_eq_ok_iff (hv : v.Stripped) :
    modifiers name v.next = .ok key ↔ ∃ required reopened,
      (Joined (flags required reopened) [] v.rest ∧
        key = ⟨name, required, reopened || !required, none⟩) ∨
      ∃ literal d, Joined (flags required reopened ++ ["default"]) literal v.rest ∧
        Json.readAll (Utf8.encode (String.ofList literal)) = .ok d ∧
        key = ⟨name, required, reopened || !required, some d⟩ := by
  constructor
  · intro h
    unfold modifiers at h
    obtain ⟨⟨required, u₁⟩, h₁⟩ : ∃ r, v.next.accept "required" = r := ⟨_, rfl⟩
    obtain ⟨v₁, rfl, hv₁, hjoin₁⟩ := joined_of_accept hv h₁
    obtain ⟨⟨reopened, u₂⟩, h₂⟩ : ∃ r, v₁.next.accept "nullable" = r := ⟨_, rfl⟩
    obtain ⟨v₂, rfl, hv₂, hjoin₂⟩ := joined_of_accept hv₁ h₂
    have hjoin : ∀ ws rest, Joined ws rest v₂.rest →
        Joined (flags required reopened ++ ws) rest v.rest := by
      intro ws rest hws
      rw [flags, List.append_assoc]
      exact hjoin₁ _ _ (hjoin₂ _ _ hws)
    refine ⟨required, reopened, ?_⟩
    simp only [h₁, h₂] at h
    split at h
    · rename_i hend
      cases h
      have hnil := current_next_eq_none_iff.mp hend
      exact .inl ⟨by simpa using hjoin [] [] ((joined_nil_iff hv₂).mpr hnil), rfl⟩
    · rename_i hword
      obtain ⟨d, hd, rfl⟩ := Except.map_eq_ok_iff.mp h
      have hlast : Joined ["default"] v₂.next.rest v₂.rest :=
        (joined_cons_iff hv₂).mpr ⟨hword, (joined_nil_iff (stripped_next v₂)).mpr rfl⟩
      exact .inr ⟨_, d, hjoin _ _ hlast, literal_eq_ok_iff.mp hd, rfl⟩
    · cases h
  · rintro ⟨required, reopened, ⟨h, rfl⟩ | ⟨literal, d, h, hd, rfl⟩⟩
    · rw [← List.append_nil (flags required reopened), flags, List.append_assoc] at h
      obtain ⟨v₁, h₁, hv₁, h⟩ := accept_of_joined hv h (by cases reopened <;> decide) fun _ => rfl
      obtain ⟨v₂, h₂, hv₂, h⟩ := accept_of_joined hv₁ h (by decide) fun _ => rfl
      have hend := current_next_eq_none_iff.mpr ((joined_nil_iff hv₂).mp h)
      simp only [modifiers, h₁, h₂, hend]
    · rw [flags, List.append_assoc] at h
      obtain ⟨v₁, h₁, hv₁, h⟩ := accept_of_joined hv h (by cases reopened <;> decide) (by simp)
      obtain ⟨v₂, h₂, hv₂, h⟩ := accept_of_joined hv₁ h (by decide) (by simp)
      obtain ⟨hword, h⟩ := (joined_cons_iff hv₂).mp h
      rw [← (joined_nil_iff (stripped_next v₂)).mp h] at hd
      simp only [modifiers, h₁, h₂, hword, literal_eq_ok_iff.mpr hd, Except.map]

/-- Reading a key accepts exactly what is spelled like one, and comes to what is spelled. -/
theorem read_eq_ok_iff {s : String} : read s = .ok key ↔ Spelled s key := by
  have hs := stripped_ofString s
  rw [read_eq_ok_iff_modifiers]
  constructor
  · rintro ⟨name, hname, h⟩
    obtain ⟨required, reopened, ⟨hj, rfl⟩ | ⟨literal, d, hj, hd, rfl⟩⟩ :=
      (modifiers_eq_ok_iff (stripped_next _)).mp h
    · exact .plain (splits_iff_joined.mpr ((joined_cons_iff hs).mpr ⟨hname, hj⟩))
    · exact .withDefault (splits_iff_joined.mpr ((joined_cons_iff hs).mpr ⟨hname, hj⟩)) hd
  · intro h
    cases h with
    | plain h =>
      obtain ⟨hname, h⟩ := (joined_cons_iff hs).mp (splits_iff_joined.mp h)
      exact ⟨_, hname, (modifiers_eq_ok_iff (stripped_next _)).mpr ⟨_, _, .inl ⟨h, rfl⟩⟩⟩
    | withDefault h hd =>
      obtain ⟨hname, h⟩ := (joined_cons_iff hs).mp (splits_iff_joined.mp h)
      exact ⟨_, hname, (modifiers_eq_ok_iff (stripped_next _)).mpr ⟨_, _, .inr ⟨_, _, h, hd, rfl⟩⟩⟩

end PropertyKey

namespace Template

open Words

/-- The directive `:type-name [default literal]`, the colon left out, stands for `t`. -/
inductive Directive (resolve : Resolver) (s : String) : Template → Prop
  | plain {name : String} {ref : TypeRef} (h : Splits s [name] []) (href : resolve name = some ref) :
      Directive resolve s (ref.instantiate none)
  | withDefault {name : String} {ref : TypeRef} {literal : List Char} {v : Json}
      (h : Splits s [name, "default"] literal) (href : resolve name = some ref)
      (hv : Json.readAll (Utf8.encode (String.ofList literal)) = .ok v)
      (accepted : ref.tag.accepts v = true) : Directive resolve s (ref.instantiate (some v))

theorem directive_eq_ok_iff {resolve : Resolver} {s : String} {t : Template} :
    directive resolve s = .ok t ↔ Directive resolve s t := by
  rw [directive_eq_ok_iff_behindName]
  constructor
  · rintro ⟨name, ref, hname, href, h⟩
    obtain ⟨hend, rfl⟩ | ⟨v, hword, hv, ha, rfl⟩ := behindName_eq_ok_iff.mp h
    · exact .plain (splits_word_iff.mpr ⟨hname, current_next_eq_none_iff.mp hend⟩) href
    · exact .withDefault (splits_words_iff.mpr ⟨hname, hword, rfl⟩) href (literal_eq_ok_iff.mp hv) ha
  · intro h
    cases h with
    | plain h href =>
      obtain ⟨hname, hrest⟩ := splits_word_iff.mp h
      exact ⟨_, _, hname, href, behindName_of_end (current_next_eq_none_iff.mpr hrest)⟩
    | withDefault h href hv ha =>
      obtain ⟨hname, hword, rfl⟩ := splits_words_iff.mp h
      exact ⟨_, _, hname, href, behindName_eq_ok_iff.mpr (.inr ⟨_, hword, literal_eq_ok_iff.mpr hv, ha, rfl⟩)⟩

end Template

end Stencil
