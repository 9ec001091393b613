import Stencil.Json.Numeral
import Stencil.Json.Basic

/-! Reading documents from text. -/
namespace Stencil

namespace Scan

open Ascii

/-- Reads with `p` behind white space. -/
def spaced {α : Type} (p : Reader α) : Reader α := fun s =>
  (·.after (skipSpace_length s)) <$> p (skipSpace s)

/-- The start of an array, its opening bracket read: whether it has an item. -/
def firstItem (s : Bytes) : Except Failure (Bool × Bytes) :=
  match skipSpace s with
  | [] => fail .eofList []
  | b :: r => .ok (if b = closeBracket then (false, r) else (true, b :: r))

/-- The text behind an item: whether another one follows. -/
def nextItem (s : Bytes) : Except Failure (Bool × Bytes) :=
  match skipSpace s with
  | [] => fail .eofList []
  | b :: r =>
    if b = closeBracket then .ok (false, r)
    else if b = comma then
      match skipSpace r with
      | [] => fail .eofValue []
      | c :: t => if c = closeBracket then fail .trailingComma t else .ok (true, c :: t)
    else fail .expectedListEnd r

theorem firstItem_length {s r : Bytes} {more : Bool} (h : firstItem s = .ok (more, r)) :
    r.length ≤ s.length ∧ (more = false → r.length < s.length) := by
  have hs := skipSpace_length s
  simp only [firstItem] at h
  split at h
  · simp [fail] at h
  · rename_i hb
    rw [hb, List.length_cons] at hs
    rw [Except.ok.injEq] at h
    split at h
    · cases h
      exact ⟨Nat.le_of_lt hs, fun _ => hs⟩
    · cases h
      exact ⟨hs, fun h => Bool.noConfusion h⟩

theorem nextItem_length {s r : Bytes} {more : Bool} (h : nextItem s = .ok (more, r)) :
    r.length < s.length := by
  have hs := skipSpace_length s
  simp only [nextItem] at h
  split at h
  · simp [fail] at h
  · rename_i t hb
    have ht := skipSpace_length t
    rw [hb, List.length_cons] at hs
    split at h
    · cases h
      exact hs
    · split at h
      · split at h
        · simp [fail] at h
        · rename_i hc
          rw [hc] at ht
          split at h
          · simp [fail] at h
          · cases h
            exact Nat.lt_of_le_of_lt ht hs
      · simp [fail] at h

/-- The items behind the `i`-th one, up to the closing bracket. -/
def moreItems {α : Type} (item : Reader α) (i : Nat) (s : Bytes) : Except Failure (Read (List α) s) :=
  match h : nextItem s with
  | .error f => .error f
  | .ok (false, r) => .ok ⟨[], r, nextItem_length h⟩
  | .ok (true, r) => do
    let ⟨x, t, ht⟩ ← inside (.index i) (item r)
    have ht := Nat.lt_trans ht (nextItem_length h)
    let ⟨xs, u, hu⟩ ← moreItems item (i + 1) t
    .ok ⟨x :: xs, u, Nat.lt_trans hu ht⟩
termination_by s.length

/-- The items of an array whose opening bracket has been read. -/
def items {α : Type} (item : Reader α) : Reader (List α) := fun s =>
  match h : firstItem s with
  | .error f => .error f
  | .ok (false, r) => .ok ⟨[], r, (firstItem_length h).2 rfl⟩
  | .ok (true, r) => do
    let ⟨x, t, ht⟩ ← inside (.index 0) (item r)
    let ⟨xs, u, hu⟩ ← moreItems item 1 t
    .ok ⟨x :: xs, u, Nat.lt_trans hu (Nat.lt_of_lt_of_le ht (firstItem_length h).1)⟩

/-- What comes behind a key: the colon and the value, read with `p`. -/
def valueOf {α : Type} (key : String) (p : Reader α) : Reader α := spaced fun s =>
  match s with
  | [] => fail .eofObject []
  | b :: r =>
    if b = colon then (·.behind b) <$> inside (.key key) (p r)
    else fail .expectedColon r

/-- How one member is read: from what has been gathered so far and its key. -/
abbrev Member (σ : Type) := σ → String → Reader σ

/-- A member whose opening quote has been read. -/
def member {σ : Type} (m : Member σ) (acc : σ) : Reader σ := fun s => do
  let ⟨k, r, h⟩ ← inside .unknown (string s)
  (·.after (Nat.le_of_lt h)) <$> m acc k r

/-- The start of an object, its opening brace read: whether it has a member. The quote in front of
its key is read too. -/
def firstMember (s : Bytes) : Except Failure (Bool × Bytes) :=
  match skipSpace s with
  | [] => fail .eofObject []
  | b :: r =>
    if b = closeBrace then .ok (false, r)
    else if b = quote then .ok (true, r)
    else fail .keyNotString r

/-- The text behind a member: whether another one follows. The quote in front of its key is read too. -/
def nextMember (s : Bytes) : Except Failure (Bool × Bytes) :=
  match skipSpace s with
  | [] => fail .eofObject []
  | b :: r =>
    if b = closeBrace then .ok (false, r)
    else if b = comma then
      match skipSpace r with
      | [] => fail .eofValue []
      | c :: t =>
        if c = quote then .ok (true, t)
        else fail (if c = closeBrace then .trailingComma else .keyNotString) t
    else fail .expectedObjectEnd r

theorem firstMember_length {s r : Bytes} {more : Bool} (h : firstMember s = .ok (more, r)) :
    r.length < s.length := by
  have hs := skipSpace_length s
  simp only [firstMember] at h
  split at h
  · simp [fail] at h
  · rename_i hb
    rw [hb, List.length_cons] at hs
    split at h
    · cases h
      exact hs
    · split at h
      · cases h
        exact hs
      · simp [fail] at h

theorem nextMember_length {s r : Bytes} {more : Bool} (h : nextMember s = .ok (more, r)) :
    r.length < s.length := by
  have hs := skipSpace_length s
  simp only [nextMember] at h
  split at h
  · simp [fail] at h
  · rename_i t hb
    have ht := skipSpace_length t
    rw [hb, List.length_cons] at hs
    split at h
    · cases h
      exact hs
    · split at h
      · split at h
        · simp [fail] at h
        · rename_i hc
          rw [hc, List.length_cons] at ht
          split at h
          · cases h
            exact Nat.lt_trans ht hs
          · simp [fail] at h
      · simp [fail] at h

/-- The members behind one, up to the closing brace. -/
def moreMembers {σ : Type} (m : Member σ) (acc : σ) (s : Bytes) : Except Failure (Read σ s) :=
  match h : nextMember s with
  | .error f => .error (f.inside .unknown)
  | .ok (false, r) => .ok ⟨acc, r, nextMember_length h⟩
  | .ok (true, r) => do
    let ⟨acc, t, ht⟩ ← member m acc r
    have ht := Nat.lt_trans ht (nextMember_length h)
    let ⟨acc, u, hu⟩ ← moreMembers m acc t
    .ok ⟨acc, u, Nat.lt_trans hu ht⟩
termination_by s.length

/-- The members of an object whose opening brace has been read. -/
def members {σ : Type} (m : Member σ) (acc : σ) : Reader σ := fun s =>
  match h : firstMember s with
  | .error f => .error (f.inside .unknown)
  | .ok (false, r) => .ok ⟨acc, r, firstMember_length h⟩
  | .ok (true, r) => do
    let ⟨acc, t, ht⟩ ← member m acc r
    let ⟨acc, u, hu⟩ ← moreMembers m acc t
    .ok ⟨acc, u, Nat.lt_trans hu (Nat.lt_trans ht (firstMember_length h))⟩

/-- The document that a word stands for, whose first letter has been read. -/
def constant (v : Json) (letters : String) (b : UInt8) (r : Bytes) : Except Failure (Read Json (b :: r)) :=
  (fun t => ⟨v, t.1, Nat.lt_succ_of_le t.2⟩) <$> word (Utf8.encode letters) r

def arrayOf (p : Reader Json) : Reader Json := fun s => (·.map .array) <$> items p s

/-- Members by name: a repeated name keeps its place and takes the last value. -/
def binding {α : Type} (p : Reader α) : Member (Entries α) := fun es k s =>
  (·.map (Entries.insert es k)) <$> valueOf k p s

def objectOf (p : Reader Json) : Reader Json := fun s => (·.map .object) <$> members (binding p) [] s

/-- A document whose items and members are read with `inner`; without one they are too deep. -/
def document (inner : Option (Reader Json)) : Reader Json := spaced fun s =>
  match s with
  | [] => fail .eofValue []
  | b :: r =>
    if b = letterN then constant .null "ull" b r
    else if b = letterT then constant (.bool true) "rue" b r
    else if b = letterF then constant (.bool false) "alse" b r
    else if b = minus then (·.map .number |>.behind b) <$> numeral true r
    else if isDigit b then (·.map .number) <$> numeral false (b :: r)
    else if b = quote then (·.map .string |>.behind b) <$> string r
    else if b = openBracket then
      match inner with
      | none => fail .recursionLimit r
      | some p => (·.behind b) <$> arrayOf p r
    else if b = openBrace then
      match inner with
      | none => fail .recursionLimit r
      | some p => (·.behind b) <$> objectOf p r
    else fail .expectedValue r

/-- A document in which brackets are nested at most `depth` times. -/
def value : Nat → Reader Json
  | 0 => document none
  | depth + 1 => document (some (value depth))

end Scan

namespace Json

/-- The number of brackets that may be open at once. -/
def maxDepth : Nat := 127

/-- Reads a document and leaves what follows it. -/
def readFirst (source : Bytes) : Except ReadError Json :=
  match Scan.value maxDepth source with
  | .ok r => .ok r.value
  | .error f => .error (.ofFailure source f)

/-- Reads a document that is followed by white space only. -/
def readAll (source : Bytes) : Except ReadError Json :=
  match Scan.value maxDepth source with
  | .ok r =>
    match Scan.skipSpace r.rest with
    | [] => .ok r.value
    | _ :: t => .error (.ofFailure source ⟨.trailingCharacters, t, []⟩)
  | .error f => .error (.ofFailure source f)

end Json

end Stencil
