import Stencil.Json.Text
import Stencil.Proofs.Encoding
import Stencil.Proofs.Scanning

/-! Strings in quotes, read back: every character of a string is written as it stands or escaped, and
read as itself either way. -/
namespace Stencil.Scan

open Ascii Utf8

variable {r t rest bs : Bytes} {c : Char}

theorem stringBytes_end (rest : Bytes) : Takes stringBytes (quote :: rest) [] rest := by
  refine ⟨Nat.lt_succ_self _, ?_⟩
  rw [stringBytes, if_pos rfl]

theorem stringBytes_plain {b : UInt8} (hquote : b ≠ quote) (hslash : b ≠ backslash) (hlow : ¬ b < 0x20)
    (h : Takes stringBytes r bs rest) : Takes stringBytes (b :: r) (b :: bs) rest := by
  obtain ⟨hlt, h⟩ := h
  refine ⟨Nat.lt_succ_of_lt hlt, ?_⟩
  rw [stringBytes, if_neg hquote, if_neg hslash, if_neg hlow, h]
  rfl

theorem stringBytes_escape (hc : Takes escape r c t) (h : Takes stringBytes t bs rest) :
    Takes stringBytes (backslash :: r) (String.utf8EncodeChar c ++ bs) rest := by
  obtain ⟨hlt, hc⟩ := hc
  obtain ⟨hlt', h⟩ := h
  refine ⟨Nat.lt_succ_of_lt (Nat.lt_trans hlt' hlt), ?_⟩
  have hne : backslash ≠ quote := by decide
  rw [stringBytes, if_neg hne, if_pos rfl]
  simp only [hc, Except.ok_bind, h]

theorem escape_letter {b : UInt8} (h : letterEscape? b = some c) (r : Bytes) : Takes escape (b :: r) c r := by
  refine ⟨Nat.lt_succ_self _, ?_⟩
  rw [escape, h]

theorem hexDigit?_digitChar : ∀ d < 16, hexDigit? (UInt8.ofNat (Nat.digitChar d).toNat) = some d := by
  decide

theorem digitChar_lt : ∀ d < 16, (Nat.digitChar d).toNat < 0x80 := by
  decide

theorem not_surrogate {n : Nat} (h : n < 0x20) :
    isTrailingSurrogate n = false ∧ isLeadingSurrogate n = false := by
  have htrailing : ¬ 0xDC00 ≤ n := by omega
  have hleading : ¬ 0xD800 ≤ n := by omega
  simp [isTrailingSurrogate, isLeadingSurrogate, htrailing, hleading]

theorem hex4_low {n : Nat} (h : n < 0x20) (r : Bytes) :
    Takes hex4 (zero :: zero :: UInt8.ofNat (Nat.digitChar (n / 16)).toNat ::
      UInt8.ofNat (Nat.digitChar (n % 16)).toNat :: r) n r := by
  have hhigh := hexDigit?_digitChar (n / 16) (by omega)
  have hlow := hexDigit?_digitChar (n % 16) (by omega)
  have hzero : hexDigit? zero = some 0 := by decide
  have hn : ((0 * 16 + 0) * 16 + n / 16) * 16 + n % 16 = n := by omega
  refine ⟨by simp only [List.length_cons]; omega, ?_⟩
  simp only [hex4, hzero, hhigh, hlow, hn]

/-- The escape of a character below the space: two zeros and two more digits. -/
theorem escape_low (h : c.toNat < 0x20) (r : Bytes) :
    Takes escape (letterU :: zero :: zero :: UInt8.ofNat (Nat.digitChar (c.toNat / 16)).toNat ::
      UInt8.ofNat (Nat.digitChar (c.toNat % 16)).toNat :: r) c r := by
  obtain ⟨hlt, hhex⟩ := hex4_low h r
  obtain ⟨htrailing, hleading⟩ := not_surrogate h
  refine ⟨Nat.lt_succ_of_lt hlt, ?_⟩
  have hletter : letterEscape? letterU = none := by decide
  simp only [escape, hletter, if_true, unicodeEscape, hhex, Except.ok_bind, htrailing, hleading,
    Bool.false_eq_true, if_false, Except.ok_map, Char.ofNat_toNat]
  rfl

/-- A byte that stands for itself inside quotes. -/
def Plain (b : UInt8) : Prop := b ≠ quote ∧ b ≠ backslash ∧ ¬ b < 0x20

theorem stringBytes_append (hp : ∀ b ∈ bs, Plain b) {cs : Bytes} (h : Takes stringBytes r cs rest) :
    Takes stringBytes (bs ++ r) (bs ++ cs) rest := by
  induction bs with
  | nil => exact h
  | cons b bs ih =>
    obtain ⟨⟨hquote, hslash, hlow⟩, hbs⟩ := List.forall_mem_cons.mp hp
    exact stringBytes_plain hquote hslash hlow (ih hbs)

/-- All bytes of a character stand for themselves if it is none of those that are escaped. -/
theorem plain_of_mem (hquote : c ≠ '"') (hslash : c ≠ '\\') (hlow : ¬ c.toNat < 0x20) :
    ∀ b ∈ String.utf8EncodeChar c, Plain b := by
  intro b hb
  by_cases hascii : c.toNat < 0x80
  · rw [utf8EncodeChar_of_lt hascii, List.mem_singleton] at hb
    have hnat : b.toNat = c.toNat := by rw [hb, toNat_ofNat (by omega)]
    have hne : ∀ d : Char, c ≠ d → b.toNat ≠ d.toNat := fun d hd heq =>
      hd (Char.toNat_inj.mp (hnat.symm.trans heq))
    refine ⟨fun h => hne '"' hquote (h ▸ rfl), fun h => hne '\\' hslash (h ▸ rfl), fun h => hlow ?_⟩
    rw [← hnat]
    exact UInt8.lt_iff_toNat_lt.mp h
  · have hhigh := le_of_mem_utf8EncodeChar (Nat.not_lt.mp hascii) hb
    refine ⟨?_, ?_, fun h => ?_⟩
    · rintro rfl
      exact absurd hhigh (by decide)
    · rintro rfl
      exact absurd hhigh (by decide)
    · have hlt : b.toNat < 0x20 := UInt8.lt_iff_toNat_lt.mp h
      omega

theorem stringBytes_escapeChar (c : Char) (h : Takes stringBytes t bs rest) :
    Takes stringBytes (encodeChars (Json.escapeChar c) ++ t) (String.utf8EncodeChar c ++ bs) rest := by
  unfold Json.escapeChar
  split
  · exact stringBytes_escape (escape_letter rfl _) h
  · exact stringBytes_escape (escape_letter rfl _) h
  · exact stringBytes_escape (escape_letter rfl _) h
  · exact stringBytes_escape (escape_letter rfl _) h
  · exact stringBytes_escape (escape_letter rfl _) h
  · exact stringBytes_escape (escape_letter rfl _) h
  · exact stringBytes_escape (escape_letter rfl _) h
  · rename_i hquote hslash _ _ _ _ _
    split
    · rename_i hlow
      have hbytes : encodeChars ['\\', 'u', '0', '0', Nat.digitChar (c.toNat / 16),
          Nat.digitChar (c.toNat % 16)] =
          [backslash, letterU, zero, zero, UInt8.ofNat (Nat.digitChar (c.toNat / 16)).toNat,
            UInt8.ofNat (Nat.digitChar (c.toNat % 16)).toNat] := by
        rw [encodeChars_cons_of_lt (by decide), encodeChars_cons_of_lt (by decide),
          encodeChars_cons_of_lt (by decide), encodeChars_cons_of_lt (by decide),
          encodeChars_cons_of_lt (digitChar_lt _ (by omega)),
          encodeChars_cons_of_lt (digitChar_lt _ (by omega))]
        rfl
      rw [hbytes]
      exact stringBytes_escape (escape_low hlow t) h
    · rename_i hlow
      have hplain := plain_of_mem hquote hslash hlow
      have hone : encodeChars [c] = String.utf8EncodeChar c := List.append_nil _
      rw [hone]
      exact stringBytes_append hplain h

theorem string_takes (s : String) (rest : Bytes) :
    Takes string (encodeChars (s.toList.flatMap Json.escapeChar) ++ quote :: rest) s rest := by
  have hbytes : ∀ cs : List Char, Takes stringBytes
      (encodeChars (cs.flatMap Json.escapeChar) ++ quote :: rest) (encodeChars cs) rest := by
    intro cs
    induction cs with
    | nil => exact stringBytes_end rest
    | cons c cs ih =>
      rw [List.flatMap_cons, encodeChars_append, List.append_assoc, encodeChars_cons]
      exact stringBytes_escapeChar c ih
  obtain ⟨hlt, h⟩ := hbytes s.toList
  refine ⟨hlt, ?_⟩
  simp only [string, h, Except.ok_bind, decodeChars_encodeChars, String.ofList_toList]

end Stencil.Scan
