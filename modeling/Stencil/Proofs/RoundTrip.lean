import Mathlib.Data.List.DropRight
import Stencil.Proofs.Documents
import Stencil.Proofs.Numerals
import Stencil.Proofs.Quoting

/-! Documents that are written can be read: in either layout and in front of whatever may follow a value,
the reader takes the text of a document for that document. -/
namespace Stencil

/-- All numbers of the document are integers of 64 bits, and its brackets are nested at most `depth`
times. -/
inductive Json.Legible : Nat → Json → Prop
  | null {depth : Nat} : Legible depth .null
  | bool {depth : Nat} (b : Bool) : Legible depth (.bool b)
  | int {depth : Nat} {k : Int} (hk : Number.InRange k) : Legible depth (.number (.int k))
  | string {depth : Nat} (s : String) : Legible depth (.string s)
  | array {depth : Nat} {vs : List Json} (items : ∀ v ∈ vs, Legible depth v) :
    Legible (depth + 1) (.array vs)
  | object {depth : Nat} {ms : List (String × Json)} (values : ∀ m ∈ ms, Legible depth m.2) :
    Legible (depth + 1) (.object ms)

namespace Scan

open Ascii Utf8

variable {s r t : Bytes} {b : UInt8}

section Punctuation

theorem firstItem_bracket (hs : skipSpace s = closeBracket :: r) : firstItem s = .ok (false, r) := by
  rw [firstItem, hs]
  rfl

theorem firstItem_begins (hs : skipSpace s = b :: r) (hb : b ≠ closeBracket) :
    firstItem s = .ok (true, b :: r) := by
  simp only [firstItem, hs, if_neg hb]

theorem nextItem_bracket (hs : skipSpace s = closeBracket :: r) : nextItem s = .ok (false, r) := by
  rw [nextItem, hs]
  rfl

theorem nextItem_comma (hs : skipSpace s = comma :: r) (hr : skipSpace r = b :: t) (hb : b ≠ closeBracket) :
    nextItem s = .ok (true, b :: t) := by
  have hcomma : comma ≠ closeBracket := by decide
  simp only [nextItem, hs, if_neg hcomma, if_true, hr, if_neg hb]

theorem firstMember_brace (hs : skipSpace s = closeBrace :: r) : firstMember s = .ok (false, r) := by
  rw [firstMember, hs]
  rfl

theorem firstMember_quote (hs : skipSpace s = quote :: r) : firstMember s = .ok (true, r) := by
  rw [firstMember, hs]
  rfl

theorem nextMember_brace (hs : skipSpace s = closeBrace :: r) : nextMember s = .ok (false, r) := by
  rw [nextMember, hs]
  rfl

theorem nextMember_comma (hs : skipSpace s = comma :: r) (hr : skipSpace r = quote :: t) :
    nextMember s = .ok (true, t) := by
  have hcomma : comma ≠ closeBrace := by decide
  simp only [nextMember, hs, if_neg hcomma, if_true, hr]

theorem skipSpace_idem (s : Bytes) : skipSpace (skipSpace s) = skipSpace s :=
  List.dropWhile_idempotent (p := isSpace) s

theorem value_eq (n : Nat) : ∃ inner, value n = document inner := by
  cases n with
  | zero => exact ⟨none, rfl⟩
  | succ n => exact ⟨some (value n), rfl⟩

theorem value_spaced (n : Nat) : ∃ p, value n = spaced p := by
  obtain ⟨inner, h⟩ := value_eq n
  exact ⟨_, h⟩

theorem value_of_skipSpace_eq {n : Nat} {v : Json} (h : Takes (value n) s v r)
    (ht : skipSpace t = skipSpace s) : Takes (value n) t v r := by
  obtain ⟨inner, hvalue⟩ := value_eq n
  rw [hvalue] at h ⊢
  exact h.of_skipSpace_eq ht

/-- A document begins behind the white space in front of it, and not with a closing bracket. -/
theorem value_begins {n : Nat} {v : Json} (h : Takes (value n) s v r) :
    ∃ b t, skipSpace s = b :: t ∧ b ≠ closeBracket ∧ Takes (value n) (b :: t) v r := by
  obtain ⟨inner, hvalue⟩ := value_eq n
  have hdoc := takes_spaced_iff.mp (hvalue ▸ h)
  cases hs : skipSpace s with
  | nil =>
    rw [hs] at hdoc
    obtain ⟨_, hdoc⟩ := hdoc
    cases hdoc
  | cons b t =>
    refine ⟨b, t, rfl, ?_, value_of_skipSpace_eq h (hs ▸ skipSpace_idem s)⟩
    rintro rfl
    rw [hs] at hdoc
    obtain ⟨_, hdoc⟩ := hdoc
    cases hdoc

end Punctuation

section Writing

open Json

variable {l : Layout} {n d : Nat} {c : Char} {cs : List Char}

theorem lineBreak_spaces (l : Layout) (d : Nat) : ∀ b ∈ encodeChars (l.lineBreak d), isSpace b = true := by
  cases l with
  | compact => exact nofun
  | pretty =>
    intro b hb
    obtain ⟨c, hc, hb⟩ := List.mem_flatMap.mp hb
    obtain rfl | hc := List.mem_cons.mp hc
    · rw [utf8EncodeChar_of_lt (by decide), List.mem_singleton] at hb
      rw [hb]
      decide
    · rw [List.eq_of_mem_replicate hc, utf8EncodeChar_of_lt (by decide), List.mem_singleton] at hb
      rw [hb]
      decide

theorem skipSpace_append {w : Bytes} (hw : ∀ b ∈ w, isSpace b = true) (s : Bytes) :
    skipSpace (w ++ s) = skipSpace s := List.dropWhile_append_of_pos hw

theorem skipSpace_lineBreak (l : Layout) (d : Nat) (cs : List Char) :
    skipSpace (encodeChars (l.lineBreak d ++ cs)) = skipSpace (encodeChars cs) := by
  rw [encodeChars_append, skipSpace_append (lineBreak_spaces l d)]

theorem skipSpace_ascii (hc : c.toNat < 0x80) (hs : isSpace (UInt8.ofNat c.toNat) = false) (cs : List Char) :
    skipSpace (encodeChars (c :: cs)) = UInt8.ofNat c.toNat :: encodeChars cs := by
  rw [encodeChars_cons_of_lt hc, skipSpace_cons hs]

/-- Behind the line break, if there is one, stands the bracket that closes a container. -/
theorem skipSpace_close (hc : c = ']' ∨ c = '\x7d') (l : Layout) (d : Nat) (cs : List Char) :
    skipSpace (encodeChars (l.lineBreak d ++ c :: cs)) = UInt8.ofNat c.toNat :: encodeChars cs := by
  rw [skipSpace_lineBreak]
  obtain rfl | rfl := hc
  · exact skipSpace_ascii (by decide) (by decide) cs
  · exact skipSpace_ascii (by decide) (by decide) cs

theorem ends_ascii (hc : c = ',' ∨ c = ']' ∨ c = '\x7d' ∨ c = '\n') (cs : List Char) :
    Ends (encodeChars (c :: cs)) := by
  obtain rfl | rfl | rfl | rfl := hc
  all_goals
    rw [encodeChars_cons_of_lt (by decide)]
    rintro b ⟨⟩
    decide

theorem ends_close (hc : c = ']' ∨ c = '\x7d') (l : Layout) (d : Nat) (cs : List Char) :
    Ends (encodeChars (l.lineBreak d ++ c :: cs)) := by
  cases l with
  | compact => exact ends_ascii (hc.elim (.inr ∘ .inl) (.inr ∘ .inr ∘ .inl)) cs
  | pretty => exact ends_ascii (.inr (.inr (.inr rfl))) _

theorem encodeChars_quoted (s : String) (cs : List Char) :
    encodeChars (quoted s ++ cs) =
      quote :: (encodeChars (s.toList.flatMap escapeChar) ++ quote :: encodeChars cs) := by
  have hquote : ∀ ds, encodeChars ('"' :: ds) = quote :: encodeChars ds :=
    encodeChars_cons_of_lt (by decide)
  rw [quoted, List.cons_append, List.cons_append, hquote, List.append_assoc, encodeChars_append,
    List.singleton_append, hquote]

theorem skipSpace_key (l : Layout) (d : Nat) (k : String) (cs : List Char) :
    skipSpace (encodeChars (l.lineBreak d ++ (quoted k ++ cs))) =
      quote :: (encodeChars (k.toList.flatMap escapeChar) ++ quote :: encodeChars cs) := by
  rw [skipSpace_lineBreak, encodeChars_quoted, skipSpace_cons (by decide)]

/-- The colon behind a key, and at most white space between it and the value. -/
theorem skipSpace_colon (l : Layout) (cs : List Char) :
    ∃ r, skipSpace (encodeChars (l.colon ++ cs)) = colon :: r ∧ skipSpace r = skipSpace (encodeChars cs) := by
  have hcolon := fun ds => skipSpace_ascii (c := ':') (by decide) (by decide) ds
  cases l with
  | compact => exact ⟨_, hcolon cs, rfl⟩
  | pretty =>
    have hspace : ∀ b ∈ [0x20], isSpace b = true := List.forall_mem_singleton.mpr (by decide)
    exact ⟨_, hcolon (' ' :: cs), skipSpace_append hspace _⟩

/-- Wherever the document is written in this layout, it is read back. -/
def ReadsBack (n : Nat) (l : Layout) (v : Json) : Prop :=
  ∀ d rest, Ends (encodeChars rest) →
    Takes (value n) (encodeChars (v.write l d rest)) v (encodeChars rest)

theorem ends_items (h : Ends (encodeChars cs)) (l : Layout) (d : Nat) (xs : List Json) :
    Ends (encodeChars (writeItems l d xs cs)) := by
  cases xs with
  | nil => exact h
  | cons x xs => exact ends_ascii (.inl rfl) _

theorem ends_members (h : Ends (encodeChars cs)) (l : Layout) (d : Nat) (ms : List (String × Json)) :
    Ends (encodeChars (writeMembers l d ms cs)) := by
  cases ms with
  | nil => exact h
  | cons m ms => exact ends_ascii (.inl rfl) _

theorem moreItems_takes {xs : List Json} (hxs : ∀ x ∈ xs, ReadsBack n l x) (i d d' : Nat) (cs : List Char) :
    Takes (moreItems (value n) i) (encodeChars (writeItems l d xs (l.lineBreak d' ++ ']' :: cs))) xs
      (encodeChars cs) := by
  induction xs generalizing i with
  | nil => exact moreItems_end (nextItem_bracket (skipSpace_close (.inl rfl) l d' cs))
  | cons x xs ih =>
    obtain ⟨hx, hxs⟩ := List.forall_mem_cons.mp hxs
    have hread := hx d _ (ends_items (ends_close (.inl rfl) l d' cs) l d xs)
    obtain ⟨b, t, hs, hb, hread⟩ := value_begins hread
    have hcomma := fun ds => skipSpace_ascii (c := ',') (by decide) (by decide) ds
    exact moreItems_next (nextItem_comma (hcomma _) ((skipSpace_lineBreak l d _).trans hs) hb) hread
      (ih hxs (i + 1))

theorem array_readsBack {xs : List Json} (hxs : ∀ x ∈ xs, ReadsBack n l x) :
    ReadsBack (n + 1) l (.array xs) := by
  intro d rest _
  have hopen := fun ds => skipSpace_ascii (c := '[') (by decide) (by decide) ds
  cases xs with
  | nil =>
    have hclose := skipSpace_ascii (c := ']') (by decide) (by decide) rest
    exact document_array (hopen _) (items_end (firstItem_bracket hclose))
  | cons x xs =>
    obtain ⟨hx, hxs⟩ := List.forall_mem_cons.mp hxs
    have hread := hx (d + 1) _ (ends_items (ends_close (.inl rfl) l d rest) l (d + 1) xs)
    obtain ⟨b, t, hs, hb, hread⟩ := value_begins hread
    have hfirst := firstItem_begins ((skipSpace_lineBreak l (d + 1) _).trans hs) hb
    exact document_array (hopen _) (items_first hfirst hread (moreItems_takes hxs 1 (d + 1) d rest))

section Members

variable {α σ : Type} {m : Member σ} {p : Reader α} {acc acc' : σ} {ms : List (String × Json)}

/-- Wherever the document is written in this layout, `p` takes it for `a`. -/
def ReadsAs (p : Reader α) (l : Layout) (v : Json) (a : α) : Prop :=
  ∀ d rest, Ends (encodeChars rest) → Takes p (encodeChars (v.write l d rest)) a (encodeChars rest)

/-- Wherever the members are written in this layout, they take `m` from what has been gathered before
them to what has been gathered behind them. -/
inductive Gathers (m : Member σ) (l : Layout) : σ → List (String × Json) → σ → Prop
  | nil (acc : σ) : Gathers m l acc [] acc
  | cons {acc acc₁ acc₂ : σ} {k : String} {v : Json} {ms : List (String × Json)}
      (first : ∀ d rest, Ends (encodeChars rest) →
        Takes (m acc k) (encodeChars (l.colon ++ v.write l d rest)) acc₁ (encodeChars rest))
      (more : Gathers m l acc₁ ms acc₂) : Gathers m l acc ((k, v) :: ms) acc₂

theorem moreMembers_takes (h : Gathers m l acc ms acc') (d d' : Nat) (cs : List Char) :
    Takes (moreMembers m acc) (encodeChars (writeMembers l d ms (l.lineBreak d' ++ '\x7d' :: cs))) acc'
      (encodeChars cs) := by
  induction h with
  | nil acc => exact moreMembers_end (nextMember_brace (skipSpace_close (.inr rfl) l d' cs))
  | @cons _ _ _ k _ ms first _ ih =>
    have hread := member_takes (string_takes k _)
      (first d _ (ends_members (ends_close (.inr rfl) l d' cs) l d ms))
    have hcomma := fun ds => skipSpace_ascii (c := ',') (by decide) (by decide) ds
    exact moreMembers_next (nextMember_comma (hcomma _) (skipSpace_key l d k _)) hread ih

theorem members_takes (h : Gathers m l acc ms acc') (d : Nat) (rest : List Char) :
    ∃ r, skipSpace (encodeChars ((object ms).write l d rest)) = openBrace :: r ∧
      Takes (members m acc) r acc' (encodeChars rest) := by
  have hopen := fun ds => skipSpace_ascii (c := '\x7b') (by decide) (by decide) ds
  cases h with
  | nil =>
    have hclose := skipSpace_ascii (c := '\x7d') (by decide) (by decide) rest
    exact ⟨_, hopen _, members_end (firstMember_brace hclose)⟩
  | @cons _ _ _ k _ ms first more =>
    have hread := member_takes (string_takes k _)
      (first (d + 1) _ (ends_members (ends_close (.inr rfl) l d rest) l (d + 1) ms))
    exact ⟨_, hopen _, members_first (firstMember_quote (skipSpace_key l (d + 1) k _)) hread
      (moreMembers_takes more (d + 1) d rest)⟩

theorem valueOf_readsAs {v : Json} {a : α} (h : ReadsAs (spaced p) l v a) (k : String) (d : Nat)
    (hcs : Ends (encodeChars cs)) :
    Takes (valueOf k (spaced p)) (encodeChars (l.colon ++ v.write l d cs)) a (encodeChars cs) := by
  obtain ⟨r, hcolon, hr⟩ := skipSpace_colon l (v.write l d cs)
  exact valueOf_takes hcolon ((h d cs hcs).of_skipSpace_eq hr)

/-- The keys are new, so each member goes to the end of those before it. -/
theorem gathers_binding {g : α → Json} {as : Entries α} (h : ∀ m ∈ as, ReadsAs (spaced p) l (g m.2) m.2)
    (es : Entries α) (hd : Entries.Distinct (es ++ as)) :
    Gathers (binding (spaced p)) l es (as.map fun m => (m.1, g m.2)) (es ++ as) := by
  induction as generalizing es with
  | nil =>
    rw [List.append_nil]
    exact .nil es
  | cons m as ih =>
    obtain ⟨k, a⟩ := m
    obtain ⟨ha, has⟩ := List.forall_mem_cons.mp h
    have hnew : k ∉ Entries.keys es := by
      rw [Entries.Distinct, Entries.keys_append, List.nodup_append] at hd
      exact fun hk => hd.2.2 k hk k List.mem_cons_self rfl
    have hmore := ih has (es ++ [(k, a)]) (by rwa [List.append_assoc])
    rw [List.append_assoc] at hmore
    refine .cons (fun d cs hcs => ?_) hmore
    rw [← Entries.insert_of_notMem a hnew]
    exact binding_takes (valueOf_readsAs ha k d hcs)

theorem gathers_values (hms : ∀ m ∈ ms, ReadsBack n l m.2) (hd : Entries.Distinct ms) :
    Gathers (binding (value n)) l [] ms ms := by
  obtain ⟨p, hvalue⟩ := value_spaced n
  have hread : ∀ m ∈ ms, ReadsAs (spaced p) l (id m.2) m.2 := by
    rw [← hvalue]
    exact hms
  have h := gathers_binding hread [] hd
  rw [hvalue]
  simpa using h

end Members

theorem object_readsBack {ms : List (String × Json)} (hms : ∀ m ∈ ms, ReadsBack n l m.2)
    (hd : Entries.Distinct ms) : ReadsBack (n + 1) l (.object ms) := by
  intro d rest _
  obtain ⟨r, hopen, hread⟩ := members_takes (gathers_values hms hd) d rest
  exact document_object hopen hread

theorem skipSpace_word {b : UInt8} {w letters : String} (hw : encodeChars w.toList = b :: encode letters)
    (hb : isSpace b = false) (cs : List Char) :
    skipSpace (encodeChars (w.toList ++ cs)) = b :: (encode letters ++ encodeChars cs) := by
  rw [encodeChars_append, hw, List.cons_append, skipSpace_cons hb]

theorem null_readsBack : ReadsBack n l .null := by
  intro d rest _
  obtain ⟨inner, hvalue⟩ := value_eq n
  rw [hvalue]
  exact document_null (skipSpace_word (w := "null") rfl (by decide) rest)

theorem bool_readsBack (b : Bool) : ReadsBack n l (.bool b) := by
  intro d rest _
  obtain ⟨inner, hvalue⟩ := value_eq n
  rw [hvalue]
  cases b with
  | true => exact document_true (skipSpace_word (w := "true") rfl (by decide) rest)
  | false => exact document_false (skipSpace_word (w := "false") rfl (by decide) rest)

theorem int_readsBack {k : Int} (hk : Number.InRange k) : ReadsBack n l (.number (.int k)) := by
  intro d rest hr
  obtain ⟨inner, hvalue⟩ := value_eq n
  change Takes (value n) (encodeChars ((Number.int k).text.toList ++ rest)) _ _
  rw [hvalue, encodeChars_append]
  exact document_int hk hr

theorem string_readsBack (s : String) : ReadsBack n l (.string s) := by
  intro d rest _
  obtain ⟨inner, hvalue⟩ := value_eq n
  change Takes (value n) (encodeChars (quoted s ++ rest)) _ _
  rw [hvalue, encodeChars_quoted]
  exact document_string (skipSpace_cons (by decide) _) (string_takes s _)

theorem readsBack {v : Json} (h : v.Legible n) (hk : v.KeysDistinct) (l : Layout) : ReadsBack n l v := by
  induction h with
  | null => exact null_readsBack
  | bool b => exact bool_readsBack b
  | int hrange => exact int_readsBack hrange
  | string s => exact string_readsBack s
  | array _ ih => exact array_readsBack fun v hv => ih v hv (keysDistinct_array_iff.mp hk v hv)
  | object _ ih =>
    obtain ⟨hd, hms⟩ := keysDistinct_object_iff.mp hk
    exact object_readsBack (fun m hm => ih m hm (hms m hm)) hd

end Writing

end Scan

end Stencil
