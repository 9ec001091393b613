import Stencil.Json.Reader
import Stencil.Proofs.Results

/-! Readings that succeed, put together as the reader puts them together: from what each part takes off
the front of a text follows what the whole takes. -/
namespace Stencil.Scan

open Ascii

variable {α β σ : Type}

/-- Off the front of `s`, `p` takes `a` and leaves `rest`. -/
def Takes (p : Reader α) (s : Bytes) (a : α) (rest : Bytes) : Prop := ∃ h, p s = .ok ⟨a, rest, h⟩

variable {p : Reader α} {s r t rest : Bytes} {a : α}

theorem Takes.map (h : Takes p s a rest) (f : α → β) :
    Takes (fun s => (·.map f) <$> p s) s (f a) rest := by
  obtain ⟨hlt, h⟩ := h
  refine ⟨hlt, ?_⟩
  change (·.map f) <$> p s = _
  rw [h]
  rfl

theorem Takes.spaced (h : Takes p (skipSpace s) a rest) : Takes (spaced p) s a rest := by
  obtain ⟨hlt, h⟩ := h
  refine ⟨Nat.lt_of_lt_of_le hlt (skipSpace_length s), ?_⟩
  rw [Scan.spaced, h]
  rfl

theorem takes_spaced_iff : Takes (spaced p) s a rest ↔ Takes p (skipSpace s) a rest := by
  refine ⟨fun h => ?_, Takes.spaced⟩
  obtain ⟨hlt, h⟩ := h
  obtain ⟨⟨b, u, hu⟩, hp, hread⟩ := Except.map_eq_ok_iff.mp h
  cases hread
  exact ⟨hu, hp⟩

/-- White space in front makes no difference to what is read behind white space. -/
theorem Takes.of_skipSpace_eq (h : Takes (Scan.spaced p) s a rest) (ht : skipSpace t = skipSpace s) :
    Takes (Scan.spaced p) t a rest := by
  rw [takes_spaced_iff, ht]
  exact takes_spaced_iff.mp h

theorem inside_ok (step : Step) (x : Read α s) : inside step (.ok x) = .ok x := rfl

section Items

variable {item : Reader α} {as : List α} {i : Nat}

theorem moreItems_end (h : nextItem s = .ok (false, r)) : Takes (moreItems item i) s [] r := by
  refine ⟨nextItem_length h, ?_⟩
  rw [moreItems]
  split <;> rename_i hn <;> cases hn.symm.trans h
  rfl

theorem moreItems_next (h : nextItem s = .ok (true, r)) (ha : Takes item r a t)
    (has : Takes (moreItems item (i + 1)) t as rest) : Takes (moreItems item i) s (a :: as) rest := by
  obtain ⟨hlt, ha⟩ := ha
  obtain ⟨hlt', has⟩ := has
  refine ⟨Nat.lt_trans hlt' (Nat.lt_trans hlt (nextItem_length h)), ?_⟩
  rw [moreItems]
  split <;> rename_i hn <;> cases hn.symm.trans h
  simp only [ha, inside_ok, Except.ok_bind, has]

theorem items_end (h : firstItem s = .ok (false, r)) : Takes (items item) s [] r := by
  refine ⟨(firstItem_length h).2 rfl, ?_⟩
  unfold items
  split <;> rename_i hn <;> cases hn.symm.trans h
  rfl

theorem items_first (h : firstItem s = .ok (true, r)) (ha : Takes item r a t)
    (has : Takes (moreItems item 1) t as rest) : Takes (items item) s (a :: as) rest := by
  obtain ⟨hlt, ha⟩ := ha
  obtain ⟨hlt', has⟩ := has
  refine ⟨Nat.lt_trans hlt' (Nat.lt_of_lt_of_le hlt (firstItem_length h).1), ?_⟩
  unfold items
  split <;> rename_i hn <;> cases hn.symm.trans h
  simp only [ha, inside_ok, Except.ok_bind, has]

end Items

section Members

variable {m : Member σ} {acc acc' acc'' : σ} {key : String}

theorem valueOf_takes (hs : skipSpace s = colon :: r) (h : Takes p r a rest) :
    Takes (valueOf key p) s a rest := by
  obtain ⟨hlt, h⟩ := h
  refine Takes.spaced ?_
  rw [hs]
  refine ⟨Nat.lt_succ_of_lt hlt, ?_⟩
  change (·.behind colon) <$> inside (.key key) (p r) = _
  rw [h, inside_ok, Except.ok_map]
  rfl

theorem member_takes (hkey : Takes string s key r) (h : Takes (m acc key) r acc' rest) :
    Takes (member m acc) s acc' rest := by
  obtain ⟨hlt, hkey⟩ := hkey
  obtain ⟨hlt', h⟩ := h
  refine ⟨Nat.lt_trans hlt' hlt, ?_⟩
  simp only [member, hkey, inside_ok, Except.ok_bind, h, Except.ok_map]
  rfl

theorem moreMembers_end (h : nextMember s = .ok (false, r)) : Takes (moreMembers m acc) s acc r := by
  refine ⟨nextMember_length h, ?_⟩
  rw [moreMembers]
  split <;> rename_i hn <;> cases hn.symm.trans h
  rfl

theorem moreMembers_next (h : nextMember s = .ok (true, r)) (ha : Takes (member m acc) r acc' t)
    (has : Takes (moreMembers m acc') t acc'' rest) : Takes (moreMembers m acc) s acc'' rest := by
  obtain ⟨hlt, ha⟩ := ha
  obtain ⟨hlt', has⟩ := has
  refine ⟨Nat.lt_trans hlt' (Nat.lt_trans hlt (nextMember_length h)), ?_⟩
  rw [moreMembers]
  split <;> rename_i hn <;> cases hn.symm.trans h
  simp only [ha, Except.ok_bind, has]

theorem members_end (h : firstMember s = .ok (false, r)) : Takes (members m acc) s acc r := by
  refine ⟨firstMember_length h, ?_⟩
  unfold members
  split <;> rename_i hn <;> cases hn.symm.trans h
  rfl

theorem members_first (h : firstMember s = .ok (true, r)) (ha : Takes (member m acc) r acc' t)
    (has : Takes (moreMembers m acc') t acc'' rest) : Takes (members m acc) s acc'' rest := by
  obtain ⟨hlt, ha⟩ := ha
  obtain ⟨hlt', has⟩ := has
  refine ⟨Nat.lt_trans hlt' (Nat.lt_trans hlt (firstMember_length h)), ?_⟩
  unfold members
  split <;> rename_i hn <;> cases hn.symm.trans h
  simp only [ha, Except.ok_bind, has]

theorem binding_takes {es : Entries α} (h : Takes (valueOf key p) s a rest) :
    Takes (binding p es key) s (Entries.insert es key a) rest :=
  h.map (Entries.insert es key)

end Members

section Documents

variable {inner : Option (Reader Json)} {read : Reader Json}

theorem word_append (w rest : Bytes) : ∃ h, word w (w ++ rest) = .ok ⟨rest, h⟩ := by
  induction w with
  | nil => exact ⟨Nat.le_refl _, rfl⟩
  | cons c w ih =>
    obtain ⟨hle, ih⟩ := ih
    refine ⟨Nat.le_succ_of_le hle, ?_⟩
    change word (c :: w) (c :: (w ++ rest)) = _
    rw [word, if_pos rfl, ih]
    rfl

theorem constant_append (v : Json) (letters : String) (b : UInt8) (rest : Bytes) :
    ∃ h, constant v letters b (Utf8.encode letters ++ rest) = .ok ⟨v, rest, h⟩ := by
  obtain ⟨hle, hw⟩ := word_append (Utf8.encode letters) rest
  refine ⟨Nat.lt_succ_of_le hle, ?_⟩
  rw [constant, hw]
  rfl

theorem document_null (hs : skipSpace s = letterN :: (Utf8.encode "ull" ++ rest)) :
    Takes (document inner) s .null rest := by
  refine Takes.spaced ?_
  rw [hs]
  exact constant_append .null "ull" letterN rest

theorem document_true (hs : skipSpace s = letterT :: (Utf8.encode "rue" ++ rest)) :
    Takes (document inner) s (.bool true) rest := by
  refine Takes.spaced ?_
  rw [hs]
  exact constant_append (.bool true) "rue" letterT rest

theorem document_false (hs : skipSpace s = letterF :: (Utf8.encode "alse" ++ rest)) :
    Takes (document inner) s (.bool false) rest := by
  refine Takes.spaced ?_
  rw [hs]
  exact constant_append (.bool false) "alse" letterF rest

theorem document_negative {n : Number} (hs : skipSpace s = minus :: r)
    (h : Takes (numeral true) r n rest) : Takes (document inner) s (.number n) rest := by
  obtain ⟨hlt, h⟩ := h
  refine Takes.spaced ?_
  rw [hs]
  refine ⟨Nat.lt_succ_of_lt hlt, ?_⟩
  change (fun x => (x.map Json.number).behind minus) <$> numeral true r = _
  rw [h]
  rfl

theorem document_numeral {n : Number} {b : UInt8} (hb : isDigit b = true) (hs : skipSpace s = b :: r)
    (h : Takes (numeral false) (b :: r) n rest) : Takes (document inner) s (.number n) rest := by
  obtain ⟨hlt, h⟩ := h
  have hne : ∀ c : UInt8, isDigit c = false → b ≠ c := by
    rintro c hc rfl
    exact absurd (hb.symm.trans hc) nofun
  refine Takes.spaced ?_
  rw [hs]
  refine ⟨hlt, ?_⟩
  dsimp only
  rw [if_neg (hne letterN rfl), if_neg (hne letterT rfl), if_neg (hne letterF rfl), if_neg (hne minus rfl),
    if_pos hb, h]
  rfl

theorem document_string {text : String} (hs : skipSpace s = quote :: r) (h : Takes string r text rest) :
    Takes (document inner) s (.string text) rest := by
  obtain ⟨hlt, h⟩ := h
  refine Takes.spaced ?_
  rw [hs]
  refine ⟨Nat.lt_succ_of_lt hlt, ?_⟩
  change (fun x => (x.map Json.string).behind quote) <$> string r = _
  rw [h]
  rfl

theorem document_array {vs : List Json} (hs : skipSpace s = openBracket :: r)
    (h : Takes (items read) r vs rest) : Takes (document (some read)) s (.array vs) rest := by
  have harray : Takes (arrayOf read) r (.array vs) rest := h.map Json.array
  obtain ⟨hlt, harray⟩ := harray
  refine Takes.spaced ?_
  rw [hs]
  refine ⟨Nat.lt_succ_of_lt hlt, ?_⟩
  change (fun x => x.behind openBracket) <$> arrayOf read r = _
  rw [harray]
  rfl

theorem document_object {ms : List (String × Json)} (hs : skipSpace s = openBrace :: r)
    (h : Takes (members (binding read) []) r ms rest) :
    Takes (document (some read)) s (.object ms) rest := by
  have hobject : Takes (objectOf read) r (.object ms) rest := h.map Json.object
  obtain ⟨hlt, hobject⟩ := hobject
  refine Takes.spaced ?_
  rw [hs]
  refine ⟨Nat.lt_succ_of_lt hlt, ?_⟩
  change (fun x => x.behind openBrace) <$> objectOf read r = _
  rw [hobject]
  rfl

end Documents

end Stencil.Scan
