import Stencil.Json.Fault

/-! The pieces of a document's text: white space, words and strings. -/
namespace Stencil

/-- Something read off the front of `s`, with the part of `s` that is left. -/
structure Read (α : Type) (s : Bytes) where
  value : α
  rest : Bytes
  shorter : rest.length < s.length

/-- The same reading of a text that begins with something else. -/
def Read.after {α : Type} {s t : Bytes} (r : Read α t) (h : t.length ≤ s.length) : Read α s :=
  ⟨r.value, r.rest, Nat.lt_of_lt_of_le r.shorter h⟩

/-- The same reading of a text with one byte more in front. -/
def Read.behind {α : Type} {s : Bytes} (b : UInt8) (r : Read α s) : Read α (b :: s) :=
  r.after (Nat.le_succ _)

def Read.map {α β : Type} {s : Bytes} (f : α → β) (r : Read α s) : Read β s :=
  ⟨f r.value, r.rest, r.shorter⟩

abbrev Reader (α : Type) := (s : Bytes) → Except Failure (Read α s)

/-- A refusal at the end of what was read, `rest` being left. -/
def fail {α : Type} (cause : Cause) (rest : Bytes) : Except Failure α := .error ⟨cause, rest, []⟩

/-- Marks the failures of a part with the step that leads to it. -/
def inside {α : Type} (step : Step) : Except Failure α → Except Failure α :=
  Except.mapError (·.inside step)

namespace Scan

open Ascii

def skipSpace (s : Bytes) : Bytes := s.dropWhile isSpace

theorem skipSpace_length (s : Bytes) : (skipSpace s).length ≤ s.length :=
  (List.dropWhile_sublist _).length_le

/-- The rest of a word whose first letter has been read. -/
def word (w s : Bytes) : Except Failure { r : Bytes // r.length ≤ s.length } :=
  match w, s with
  | [], s => .ok ⟨s, Nat.le_refl _⟩
  | _ :: _, [] => fail .eofValue []
  | c :: w, b :: r =>
    if b = c then (fun t => ⟨t.1, Nat.le_succ_of_le t.2⟩) <$> word w r else fail .expectedWord r

def hex4 : Reader Nat
  | a :: b :: c :: d :: r =>
    match hexDigit? a, hexDigit? b, hexDigit? c, hexDigit? d with
    | some a, some b, some c, some d =>
      .ok ⟨((a * 16 + b) * 16 + c) * 16 + d, r, by simp only [List.length_cons]; omega⟩
    | _, _, _, _ => fail .invalidEscape r
  | _ => fail .eofString []

def isLeadingSurrogate (n : Nat) : Bool := 0xD800 ≤ n && n ≤ 0xDBFF

def isTrailingSurrogate (n : Nat) : Bool := 0xDC00 ≤ n && n ≤ 0xDFFF

def trailingEscape : Reader Nat
  | [] => fail .eofString []
  | b :: r =>
    if b = backslash then
      match r with
      | [] => fail .eofString []
      | c :: t =>
        if c = letterU then do
          let ⟨n, u, h⟩ ← hex4 t
          if isTrailingSurrogate n then
            .ok ⟨n, u, by simp only [List.length_cons]; omega⟩
          else fail .loneSurrogate u
        else fail .unfinishedSurrogate t
    else fail .unfinishedSurrogate r

/-- The character of a hexadecimal escape. One beyond 16 bits takes two escapes, a leading and a
trailing surrogate. -/
def unicodeEscape (s : Bytes) : Except Failure (Read Char s) := do
  let ⟨n, r, h⟩ ← hex4 s
  if isTrailingSurrogate n then
    fail .loneSurrogate r
  else if isLeadingSurrogate n then
    let ⟨n', t, h'⟩ ← trailingEscape r
    .ok ⟨Char.ofNat ((n - 0xD800) * 0x400 + (n' - 0xDC00) + 0x10000), t, Nat.lt_trans h' h⟩
  else
    .ok ⟨Char.ofNat n, r, h⟩

def letterEscape? (b : UInt8) : Option Char :=
  if b = quote then some '"'
  else if b = backslash then some '\\'
  else if b = 0x2F then some '/'
  else if b = 0x62 then some '\x08'
  else if b = 0x66 then some '\x0c'
  else if b = 0x6E then some '\n'
  else if b = 0x72 then some '\r'
  else if b = 0x74 then some '\t'
  else none

def escape : Reader Char
  | [] => fail .eofString []
  | b :: r =>
    match letterEscape? b with
    | some c => .ok ⟨c, r, Nat.lt_succ_self _⟩
    | none =>
      if b = letterU then (·.behind b) <$> unicodeEscape r else fail .invalidEscape r

/-- The bytes of a string up to the closing quote, with each escape replaced by the bytes of its
character. -/
def stringBytes (s : Bytes) : Except Failure (Read Bytes s) :=
  match s with
  | [] => fail .eofString []
  | b :: r =>
    if b = quote then
      .ok ⟨[], r, Nat.lt_succ_self _⟩
    else if b = backslash then do
      let ⟨c, t, h⟩ ← escape r
      let ⟨bs, u, h'⟩ ← stringBytes t
      .ok ⟨String.utf8EncodeChar c ++ bs, u, by simp only [List.length_cons]; omega⟩
    else if b < 0x20 then
      fail .controlCharacter r
    else
      (fun t => (t.map (b :: ·)).behind b) <$> stringBytes r
termination_by s.length
decreasing_by
  · simp only [List.length_cons]; omega
  · exact Nat.lt_succ_self _

/-- A string whose opening quote has been read. Malformed bytes are refused as far from its end as there
are bytes from the first of them on. -/
def string : Reader String := fun s => do
  let ⟨bs, r, h⟩ ← stringBytes s
  match Utf8.decodeChars bs with
  | .ok cs => .ok ⟨String.ofList cs, r, h⟩
  | .error malformed => fail .invalidCodePoint (s.drop (s.length - (r.length + malformed.length)))

end Scan

end Stencil
