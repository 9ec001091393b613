import Mathlib.Data.List.Basic
import Stencil.Text.Utf8

/-! Text that is encoded can be decoded: every character takes back the bytes that it was written in,
and no others. -/
namespace Stencil.Utf8

def encodeChars (cs : List Char) : Bytes := cs.flatMap String.utf8EncodeChar

theorem encode_eq (s : String) : encode s = encodeChars s.toList := rfl

theorem encodeChars_cons (c : Char) (cs : List Char) :
    encodeChars (c :: cs) = String.utf8EncodeChar c ++ encodeChars cs := List.flatMap_cons

theorem encodeChars_append (cs ds : List Char) :
    encodeChars (cs ++ ds) = encodeChars cs ++ encodeChars ds := List.flatMap_append

theorem toNat_ofNat {n : Nat} (h : n < 0x100) : (UInt8.ofNat n).toNat = n := by
  rw [UInt8.toNat_ofNat']
  exact Nat.mod_eq_of_lt h

/-- A character of seven bits is one byte. -/
theorem utf8EncodeChar_of_lt {c : Char} (h : c.toNat < 0x80) :
    String.utf8EncodeChar c = [UInt8.ofNat c.toNat] := by
  have hle : c.val.toNat ≤ 0x7f := Nat.le_of_lt_succ h
  rw [String.utf8EncodeChar, if_pos hle]
  rfl

theorem encodeChars_cons_of_lt {c : Char} (h : c.toNat < 0x80) (cs : List Char) :
    encodeChars (c :: cs) = UInt8.ofNat c.toNat :: encodeChars cs := by
  rw [encodeChars_cons, utf8EncodeChar_of_lt h]
  rfl

/-- All bytes of any other character have the highest bit set. -/
theorem le_of_mem_utf8EncodeChar {c : Char} (h : 0x80 ≤ c.toNat) {b : UInt8}
    (hb : b ∈ String.utf8EncodeChar c) : 0x80 ≤ b.toNat := by
  have hone : ¬ c.val.toNat ≤ 0x7f := Nat.not_le.mpr h
  have hofNat : ∀ n, 0x80 ≤ n → n < 0x100 → 0x80 ≤ (UInt8.ofNat n).toNat := fun n hn hn' => by
    rwa [toNat_ofNat hn']
  rw [String.utf8EncodeChar, if_neg hone] at hb
  split at hb
  · simp only [List.mem_cons, List.not_mem_nil, or_false] at hb
    rcases hb with rfl | rfl
    · exact hofNat _ (by omega) (by omega)
    · exact hofNat _ (by omega) (by omega)
  · split at hb
    · simp only [List.mem_cons, List.not_mem_nil, or_false] at hb
      rcases hb with rfl | rfl | rfl
      · exact hofNat _ (by omega) (by omega)
      · exact hofNat _ (by omega) (by omega)
      · exact hofNat _ (by omega) (by omega)
    · simp only [List.mem_cons, List.not_mem_nil, or_false] at hb
      rcases hb with rfl | rfl | rfl | rfl
      · exact hofNat _ (by omega) (by omega)
      · exact hofNat _ (by omega) (by omega)
      · exact hofNat _ (by omega) (by omega)
      · exact hofNat _ (by omega) (by omega)

theorem lead?_ofNat {n : Nat} (h : n < 0x100) :
    lead? (UInt8.ofNat n) =
      if n < 0x80 then some (0, n, 0)
      else if n < 0xC0 then none
      else if n < 0xE0 then some (1, n - 0xC0, 0x80)
      else if n < 0xF0 then some (2, n - 0xE0, 0x800)
      else if n < 0xF8 then some (3, n - 0xF0, 0x10000)
      else none := by
  simp only [lead?, UInt8.lt_iff_toNat_lt, toNat_ofNat h]
  rfl

theorem continuation?_cons (n code m : Nat) (r : Bytes) :
    continuation? (n + 1) code (UInt8.ofNat (m % 0x40 + 0x80) :: r) =
      continuation? n (code * 64 + m % 0x40) r := by
  have hb : (UInt8.ofNat (m % 0x40 + 0x80)).toNat = m % 0x40 + 0x80 := toNat_ofNat (by omega)
  rw [continuation?, if_pos]
  · rw [hb, Nat.add_sub_cancel]
  · rw [UInt8.le_iff_toNat_le, UInt8.lt_iff_toNat_lt, hb]
    exact ⟨Nat.le_add_left _ _, show m % 0x40 + 0x80 < 0xC0 by omega⟩

/-- A first byte with the continuation bytes behind it, when they are those of the character `c`. -/
theorem decodeChar?_of_code {c : Char} {b : UInt8} {r t : Bytes} {n bits least : Nat}
    (hb : lead? b = some (n, bits, least)) (hr : continuation? n bits r = some (c.toNat, t))
    (hleast : least ≤ c.toNat) : decodeChar? (b :: r) = some (c, t) := by
  have hvalid : c.toNat.isValidChar := c.valid
  simp only [decodeChar?, hb, hr]
  rw [if_pos ⟨hleast, hvalid⟩, Char.ofNat_toNat]

/-- A character is decoded from its own bytes, whatever follows them. -/
theorem decodeChar?_append (c : Char) (r : Bytes) :
    decodeChar? (String.utf8EncodeChar c ++ r) = some (c, r) := by
  have hbound : c.toNat < 0x110000 := by
    have hvalid : c.toNat.isValidChar := c.valid
    rcases hvalid with h | h <;> omega
  change c.val.toNat < 0x110000 at hbound
  unfold String.utf8EncodeChar
  generalize hv : c.val.toNat = v at hbound
  replace hv : c.toNat = v := hv
  dsimp only
  split
  · have hlead : lead? (UInt8.ofNat v) = some (0, v, 0) := by
      rw [lead?_ofNat (by omega), if_pos (by omega)]
    rw [List.cons_append, List.nil_append]
    refine decodeChar?_of_code hlead ?_ (Nat.zero_le _)
    rw [continuation?, hv]
  · split
    · have hlead : lead? (UInt8.ofNat (v / 64 % 0x20 + 0xc0)) = some (1, v / 64, 0x80) := by
        rw [lead?_ofNat (by omega), if_neg (by omega), if_neg (by omega), if_pos (by omega),
          Nat.add_sub_cancel, Nat.mod_eq_of_lt (by omega)]
      rw [List.cons_append, List.cons_append, List.nil_append]
      refine decodeChar?_of_code hlead ?_ (by omega)
      have hcode : v / 64 * 64 + v % 64 = v := by omega
      rw [continuation?_cons, continuation?, hv, hcode]
    · split
      · have hlead : lead? (UInt8.ofNat (v / 4096 % 0x10 + 0xe0)) = some (2, v / 4096, 0x800) := by
          rw [lead?_ofNat (by omega), if_neg (by omega), if_neg (by omega), if_neg (by omega),
            if_pos (by omega), Nat.add_sub_cancel, Nat.mod_eq_of_lt (by omega)]
        rw [List.cons_append, List.cons_append, List.cons_append, List.nil_append]
        refine decodeChar?_of_code hlead ?_ (by omega)
        have hcode : (v / 4096 * 64 + v / 64 % 64) * 64 + v % 64 = v := by omega
        rw [continuation?_cons, continuation?_cons, continuation?, hv, hcode]
      · have hlead : lead? (UInt8.ofNat (v / 262144 % 0x08 + 0xf0)) = some (3, v / 262144, 0x10000) := by
          rw [lead?_ofNat (by omega), if_neg (by omega), if_neg (by omega), if_neg (by omega),
            if_neg (by omega), if_pos (by omega), Nat.add_sub_cancel, Nat.mod_eq_of_lt (by omega)]
        rw [List.cons_append, List.cons_append, List.cons_append, List.cons_append, List.nil_append]
        refine decodeChar?_of_code hlead ?_ (by omega)
        have hcode : ((v / 262144 * 64 + v / 4096 % 64) * 64 + v / 64 % 64) * 64 + v % 64 = v := by omega
        rw [continuation?_cons, continuation?_cons, continuation?_cons, continuation?, hv, hcode]

theorem decodeChars_of_decodeChar? {s t : Bytes} {c : Char} (h : decodeChar? s = some (c, t)) :
    decodeChars s = (c :: ·) <$> decodeChars t := by
  cases s with
  | nil => cases h
  | cons b r =>
    rw [decodeChars]
    split
    · rename_i hnone
      cases hnone.symm.trans h
    · rename_i hsome
      cases hsome.symm.trans h
      rfl

theorem decodeChars_encodeChars (cs : List Char) : decodeChars (encodeChars cs) = .ok cs := by
  induction cs with
  | nil =>
    rw [encodeChars, List.flatMap_nil, decodeChars]
  | cons c cs ih =>
    rw [encodeChars_cons, decodeChars_of_decodeChar? (decodeChar?_append c _), ih]
    rfl

theorem decode?_encode (s : String) : decode? (encode s) = some s := by
  rw [decode?, encode_eq, decodeChars_encodeChars]
  exact congrArg some String.ofList_toList

end Stencil.Utf8
