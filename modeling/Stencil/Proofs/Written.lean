import Stencil.Json.Text
import Stencil.Proofs.RoundTrip
import Stencil.Text.Lines

/-! What a written document looks like: it begins with a character that can be seen, and on one line no
control character is left of it. -/
namespace Stencil.Json

variable {l : Layout} {n d : Nat} {v : Json} {rest : List Char}

section Append

variable (l) (more : List Char)

theorem writeItems_append {xs : List Json}
    (hxs : ∀ x ∈ xs, ∀ d rest, x.write l d (rest ++ more) = x.write l d rest ++ more) (d : Nat)
    (rest : List Char) : writeItems l d xs (rest ++ more) = writeItems l d xs rest ++ more := by
  induction xs with
  | nil => rfl
  | cons x xs ih =>
    obtain ⟨hx, hxs⟩ := List.forall_mem_cons.mp hxs
    change ',' :: (l.lineBreak d ++ x.write l d (writeItems l d xs (rest ++ more))) =
      ',' :: (l.lineBreak d ++ x.write l d (writeItems l d xs rest)) ++ more
    rw [ih hxs, hx, List.cons_append, List.append_assoc]

theorem writeMembers_append {ms : List (String × Json)}
    (hms : ∀ m ∈ ms, ∀ d rest, m.2.write l d (rest ++ more) = m.2.write l d rest ++ more) (d : Nat)
    (rest : List Char) : writeMembers l d ms (rest ++ more) = writeMembers l d ms rest ++ more := by
  induction ms with
  | nil => rfl
  | cons m ms ih =>
    obtain ⟨k, v⟩ := m
    obtain ⟨hv, hms⟩ := List.forall_mem_cons.mp hms
    change ',' :: (l.lineBreak d ++
        (quoted k ++ (l.colon ++ v.write l d (writeMembers l d ms (rest ++ more))))) =
      ',' :: (l.lineBreak d ++ (quoted k ++ (l.colon ++ v.write l d (writeMembers l d ms rest)))) ++ more
    rw [ih hms, hv, List.cons_append, List.append_assoc, List.append_assoc, List.append_assoc]

/-- What is written in front of a text does not depend on the text. -/
theorem write_append (v : Json) (d : Nat) (rest : List Char) :
    v.write l d (rest ++ more) = v.write l d rest ++ more := by
  induction v generalizing d rest with
  | null => exact (List.append_assoc _ _ _).symm
  | bool b => cases b <;> exact (List.append_assoc _ _ _).symm
  | number n => exact (List.append_assoc _ _ _).symm
  | string s => exact (List.append_assoc _ _ _).symm
  | array items ih =>
    cases items with
    | nil => rfl
    | cons x xs =>
      obtain ⟨hx, hxs⟩ := List.forall_mem_cons.mp ih
      have hitems := writeItems_append l more hxs (d + 1) (l.lineBreak d ++ ']' :: rest)
      rw [List.append_assoc, List.cons_append] at hitems
      change '[' :: (l.lineBreak (d + 1) ++ x.write l (d + 1)
          (writeItems l (d + 1) xs (l.lineBreak d ++ ']' :: (rest ++ more)))) =
        '[' :: (l.lineBreak (d + 1) ++ x.write l (d + 1)
          (writeItems l (d + 1) xs (l.lineBreak d ++ ']' :: rest))) ++ more
      rw [hitems, hx, List.cons_append, List.append_assoc]
  | object members ih =>
    cases members with
    | nil => rfl
    | cons m ms =>
      obtain ⟨k, v⟩ := m
      obtain ⟨hv, hms⟩ := List.forall_mem_cons.mp ih
      have hmembers := writeMembers_append l more hms (d + 1) (l.lineBreak d ++ '\x7d' :: rest)
      rw [List.append_assoc, List.cons_append] at hmembers
      change '\x7b' :: (l.lineBreak (d + 1) ++ (quoted k ++ (l.colon ++ v.write l (d + 1)
          (writeMembers l (d + 1) ms (l.lineBreak d ++ '\x7d' :: (rest ++ more)))))) =
        '\x7b' :: (l.lineBreak (d + 1) ++ (quoted k ++ (l.colon ++ v.write l (d + 1)
          (writeMembers l (d + 1) ms (l.lineBreak d ++ '\x7d' :: rest))))) ++ more
      rw [hmembers, hv, List.cons_append, List.append_assoc, List.append_assoc, List.append_assoc]

end Append

section Visible

/-- The digits of an integer and its sign can be seen. -/
theorem mem_text_int {k : Int} {c : Char} (hc : c ∈ (Number.int k).text.toList) :
    0x20 < c.toNat ∧ c.toNat < 0x80 := by
  have hdigit : ∀ n, c ∈ Nat.toDigits 10 n → 0x20 < c.toNat ∧ c.toNat < 0x80 := fun n hc => by
    have := Scan.digit_bounds (Nat.isDigit_of_mem_toDigits (by decide) (by decide) hc)
    omega
  cases k with
  | ofNat n =>
    rw [Scan.text_ofNat] at hc
    exact hdigit n hc
  | negSucc n =>
    rw [Scan.text_negSucc] at hc
    obtain rfl | hc := List.mem_cons.mp hc
    · decide
    · exact hdigit (n + 1) hc

theorem text_int_ne_nil (k : Int) : (Number.int k).text.toList ≠ [] := by
  cases k with
  | ofNat n =>
    rw [Scan.text_ofNat]
    exact Nat.toDigits_ne_nil
  | negSucc n =>
    rw [Scan.text_negSucc]
    exact List.cons_ne_nil _ _

theorem not_isBlank {c : Char} (hlow : 0x20 < c.toNat) (hhigh : c.toNat < 0x80) : isBlank c = false := by
  have hspace : c ≠ ' ' := by
    rintro rfl
    exact absurd hlow (by decide)
  have hcodes : ∀ n ∈ blankCodes, 0x80 ≤ n := by decide
  have hcode : c.toNat ∉ blankCodes := fun hc => absurd (hcodes _ hc) (Nat.not_le.mpr hhigh)
  have hcontrol : ¬ c.toNat ≤ 0x0D := by omega
  simp [isBlank, hspace, hcode, hcontrol]

theorem write_begins (h : v.Legible n) (l : Layout) (d : Nat) (rest : List Char) :
    ∃ c cs, v.write l d rest = c :: cs ∧ isBlank c = false := by
  cases h with
  | null => exact ⟨_, _, rfl, by decide⟩
  | bool b => cases b <;> exact ⟨_, _, rfl, by decide⟩
  | @int _ k _ =>
    change ∃ c cs, (Number.int k).text.toList ++ rest = c :: cs ∧ _
    cases htext : (Number.int k).text.toList with
    | nil => exact absurd htext (text_int_ne_nil k)
    | cons c cs =>
      have hmem : c ∈ (Number.int k).text.toList := htext ▸ List.mem_cons_self
      obtain ⟨hlow, hhigh⟩ := mem_text_int hmem
      exact ⟨c, cs ++ rest, rfl, not_isBlank hlow hhigh⟩
  | string s => exact ⟨_, _, rfl, by decide⟩
  | @array _ vs _ => cases vs <;> exact ⟨_, _, rfl, by decide⟩
  | @object _ ms _ => cases ms <;> exact ⟨_, _, rfl, by decide⟩

end Visible

section OneLine

/-- No control character stands in the text. -/
def Printable (cs : List Char) : Prop := ∀ c ∈ cs, 0x20 ≤ c.toNat

instance (cs : List Char) : Decidable (Printable cs) :=
  List.decidableBAll (fun c : Char => 0x20 ≤ c.toNat) cs

theorem escapeChar_printable (c : Char) : Printable (escapeChar c) := by
  unfold escapeChar
  split
  · decide
  · decide
  · decide
  · decide
  · decide
  · decide
  · decide
  · split
    · have hdigit : ∀ d < 16, 0x20 ≤ (Nat.digitChar d).toNat := by decide
      simp only [Printable, List.forall_mem_cons, List.not_mem_nil, false_implies, implies_true, and_true]
      exact ⟨by decide, by decide, by decide, by decide, hdigit _ (by omega), hdigit _ (by omega)⟩
    · rename_i hlow
      exact List.forall_mem_singleton.mpr (Nat.not_lt.mp hlow)

variable {cs ds : List Char}

theorem Printable.append (hcs : Printable cs) (hds : Printable ds) : Printable (cs ++ ds) :=
  List.forall_mem_append.mpr ⟨hcs, hds⟩

theorem Printable.cons {c : Char} (hc : 0x20 ≤ c.toNat) (hcs : Printable cs) : Printable (c :: cs) :=
  List.forall_mem_cons.mpr ⟨hc, hcs⟩

theorem quoted_printable (s : String) : Printable (quoted s) := by
  have hbody : Printable (s.toList.flatMap escapeChar) := fun e he => by
    obtain ⟨c, -, he⟩ := List.mem_flatMap.mp he
    exact escapeChar_printable c e he
  exact (hbody.cons (by decide)).append (by decide)

theorem writeItems_printable {xs : List Json}
    (hxs : ∀ x ∈ xs, ∀ d rest, Printable rest → Printable (x.write .compact d rest)) (d : Nat)
    (hr : Printable rest) : Printable (writeItems .compact d xs rest) := by
  induction xs with
  | nil => exact hr
  | cons x xs ih =>
    obtain ⟨hx, hxs⟩ := List.forall_mem_cons.mp hxs
    exact (hx d _ (ih hxs)).cons (by decide)

theorem writeMembers_printable {ms : List (String × Json)}
    (hms : ∀ m ∈ ms, ∀ d rest, Printable rest → Printable (m.2.write .compact d rest)) (d : Nat)
    (hr : Printable rest) : Printable (writeMembers .compact d ms rest) := by
  induction ms with
  | nil => exact hr
  | cons m ms ih =>
    obtain ⟨k, v⟩ := m
    obtain ⟨hv, hms⟩ := List.forall_mem_cons.mp hms
    have hvalue := (hv d _ (ih hms)).cons (c := ':') (by decide)
    exact ((quoted_printable k).append hvalue).cons (by decide)

theorem write_printable (h : v.Legible n) (d : Nat) {rest : List Char} (hr : Printable rest) :
    Printable (v.write .compact d rest) := by
  induction h generalizing d rest with
  | null =>
    have hword : Printable "null".toList := by decide
    exact hword.append hr
  | bool b =>
    have htrue : Printable "true".toList := by decide
    have hfalse : Printable "false".toList := by decide
    cases b with
    | true => exact htrue.append hr
    | false => exact hfalse.append hr
  | @int _ k _ =>
    have htext : Printable (Number.int k).text.toList := fun c hc => Nat.le_of_lt (mem_text_int hc).1
    exact htext.append hr
  | string s => exact (quoted_printable s).append hr
  | @array _ vs _ ih =>
    cases vs with
    | nil => exact (hr.cons (by decide)).cons (by decide)
    | cons x xs =>
      obtain ⟨hx, hxs⟩ := List.forall_mem_cons.mp ih
      have hitems := writeItems_printable hxs (d + 1) (hr.cons (c := ']') (by decide))
      exact (hx (d + 1) hitems).cons (by decide)
  | @object _ ms _ ih =>
    cases ms with
    | nil => exact (hr.cons (by decide)).cons (by decide)
    | cons m ms =>
      obtain ⟨k, v⟩ := m
      obtain ⟨hv, hms⟩ := List.forall_mem_cons.mp ih
      have hmembers := writeMembers_printable hms (d + 1) (hr.cons (c := '\x7d') (by decide))
      have hvalue := (hv (d + 1) hmembers).cons (c := ':') (by decide)
      exact ((quoted_printable k).append hvalue).cons (by decide)

end OneLine

end Stencil.Json
