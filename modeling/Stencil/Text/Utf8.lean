/-! Text as bytes: UTF-8 written and read one character at a time. -/
namespace Stencil

abbrev Bytes := List UInt8

namespace Utf8

def encode (s : String) : Bytes := s.toList.flatMap String.utf8EncodeChar

/-- `n` continuation bytes, six bits each, behind the bits of `code`. -/
def continuation? : Nat → Nat → Bytes → Option (Nat × Bytes)
  | 0, code, r => some (code, r)
  | n + 1, code, b :: r =>
    if 0x80 ≤ b ∧ b < 0xC0 then continuation? n (code * 64 + (b.toNat - 0x80)) r else none
  | _ + 1, _, [] => none

/-- The number of continuation bytes after the first byte `b`, the bits that `b` holds, and the least
code point that is written in this length. -/
def lead? (b : UInt8) : Option (Nat × Nat × Nat) :=
  if b < 0x80 then some (0, b.toNat, 0)
  else if b < 0xC0 then none
  else if b < 0xE0 then some (1, b.toNat - 0xC0, 0x80)
  else if b < 0xF0 then some (2, b.toNat - 0xE0, 0x800)
  else if b < 0xF8 then some (3, b.toNat - 0xF0, 0x10000)
  else none

/-- The first character and what follows it; surrogates, overlong forms and code points past the last
one are refused. -/
def decodeChar? : Bytes → Option (Char × Bytes)
  | [] => none
  | b :: r =>
    match lead? b with
    | none => none
    | some (n, bits, least) =>
      match continuation? n bits r with
      | none => none
      | some (code, t) => if least ≤ code ∧ code.isValidChar then some (Char.ofNat code, t) else none

theorem continuation?_length {n code code' : Nat} {r t : Bytes}
    (h : continuation? n code r = some (code', t)) : t.length ≤ r.length := by
  induction n generalizing code r with
  | zero => simp_all [continuation?]
  | succ n ih =>
    cases r with
    | nil => simp [continuation?] at h
    | cons b r =>
      simp only [continuation?] at h
      split at h
      · exact Nat.le_succ_of_le (ih h)
      · simp at h

theorem decodeChar?_length {c : Char} {s t : Bytes} (h : decodeChar? s = some (c, t)) :
    t.length < s.length := by
  cases s with
  | nil => simp [decodeChar?] at h
  | cons b r =>
    simp only [decodeChar?] at h
    split at h
    · simp at h
    · split at h
      · simp at h
      · rename_i hc
        split at h
        · have := continuation?_length hc
          cases h
          exact Nat.lt_succ_of_le this
        · simp at h

/-- The characters of `s`, or `s` from its first malformed byte on. -/
def decodeChars (s : Bytes) : Except Bytes (List Char) :=
  match s with
  | [] => .ok []
  | b :: r =>
    match _h : decodeChar? (b :: r) with
    | none => .error (b :: r)
    | some (c, t) => (c :: ·) <$> decodeChars t
termination_by s.length
decreasing_by exact decodeChar?_length _h

def decode? (s : Bytes) : Option String := (decodeChars s).toOption.map String.ofList

end Utf8

end Stencil
