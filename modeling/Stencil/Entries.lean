/-! Bindings kept in the order in which their keys were first bound. -/
namespace Stencil

/-- Keys with what they are bound to, oldest key first. -/
abbrev Entries (α : Type) := List (String × α)

namespace Entries

variable {α : Type}

def keys (es : Entries α) : List String := es.map Prod.fst

/-- What the first binding of `k` holds. -/
def get? : Entries α → String → Option α
  | [], _ => none
  | (k', a) :: es, k => if k' = k then some a else get? es k

/-- Binds `k` to `a`: a key that is bound keeps its place, a new one goes to the end. -/
def insert : Entries α → String → α → Entries α
  | [], k, a => [(k, a)]
  | (k', b) :: es, k, a => if k' = k then (k, a) :: es else (k', b) :: insert es k a

/-- Drops the bindings of `k`; the others keep their order. -/
def erase (es : Entries α) (k : String) : Entries α := es.filter (·.1 ≠ k)

def insertAll (es more : Entries α) : Entries α :=
  more.foldl (fun acc e => insert acc e.1 e.2) es

def Distinct (es : Entries α) : Prop := (keys es).Nodup

@[simp] theorem keys_nil : keys ([] : Entries α) = [] := rfl

@[simp] theorem keys_cons (e : String × α) (es : Entries α) : keys (e :: es) = e.1 :: keys es := rfl

theorem get?_insert_self (es : Entries α) (k : String) (a : α) : get? (insert es k a) k = some a := by
  induction es with
  | nil => simp [insert, get?]
  | cons e es ih =>
    obtain ⟨k', b⟩ := e
    by_cases h : k' = k <;> simp [insert, get?, h, ih]

theorem get?_insert_of_ne (es : Entries α) {k j : String} (a : α) (h : k ≠ j) :
    get? (insert es k a) j = get? es j := by
  induction es with
  | nil => simp [insert, get?, h]
  | cons e es ih =>
    obtain ⟨k', b⟩ := e
    by_cases hk : k' = k
    · subst hk
      simp [insert, get?, h]
    · by_cases hj : k' = j
      · subst hj
        simp [insert, get?, hk]
      · simp [insert, get?, hk, hj, ih]

theorem keys_insert (es : Entries α) (k : String) (a : α) :
    keys (insert es k a) = if k ∈ keys es then keys es else keys es ++ [k] := by
  induction es with
  | nil => simp [insert]
  | cons e es ih =>
    obtain ⟨k', b⟩ := e
    by_cases h : k' = k
    · subst h
      simp [insert]
    · by_cases hm : k ∈ keys es <;> simp [insert, h, ih, hm, Ne.symm h]

end Entries

end Stencil
