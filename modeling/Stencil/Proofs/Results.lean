/-! Results that may be errors: what a success is made of, results that fail alike, and results that
are related. -/
namespace Except

variable {ε ε' α β : Type}

theorem ok_bind (a : α) (f : α → Except ε β) : (.ok a >>= f) = f a := rfl

theorem ok_map (a : α) (f : α → β) : f <$> (.ok a : Except ε α) = .ok (f a) := rfl

theorem bind_eq_ok_iff {x : Except ε α} {f : α → Except ε β} {b : β} :
    x >>= f = .ok b ↔ ∃ a, x = .ok a ∧ f a = .ok b := by
  cases x <;> simp [bind, Except.bind]

theorem map_eq_ok_iff {x : Except ε α} {f : α → β} {b : β} :
    x.map f = .ok b ↔ ∃ a, x = .ok a ∧ f a = b := by
  cases x <;> simp [Except.map]

theorem mapError_eq_ok_iff {x : Except ε α} {f : ε → ε'} {a : α} :
    x.mapError f = .ok a ↔ x = .ok a := by
  cases x <;> constructor <;> intro h <;> cases h <;> rfl

/-- Two results that are both successes, or both the same error. -/
inductive Alike : Except ε α → Except ε β → Prop
  | ok (a : α) (b : β) : Alike (.ok a) (.ok b)
  | error (e : ε) : Alike (.error e) (.error e)

namespace Alike

variable {γ δ : Type}

theorem bind {x : Except ε α} {y : Except ε β} {f : α → Except ε γ} {g : β → Except ε δ}
    (h : Alike x y) (hf : ∀ a b, x = .ok a → y = .ok b → Alike (f a) (g b)) :
    Alike (x >>= f) (y >>= g) := by
  cases h with
  | ok a b => exact hf a b rfl rfl
  | error e => exact .error e

theorem map {x : Except ε α} {y : Except ε β} (h : Alike x y) (f : α → γ) (g : β → δ) :
    Alike (x.map f) (y.map g) := by
  cases h with
  | ok a b => exact .ok _ _
  | error e => exact .error e

theorem mapError {x : Except ε α} {y : Except ε β} (h : Alike x y) (f : ε → ε') :
    Alike (x.mapError f) (y.mapError f) := by
  cases h with
  | ok a b => exact .ok a b
  | error e => exact .error _

theorem eq_error {x : Except ε α} {e : ε} (h : Alike x (.error e : Except ε β)) : x = .error e := by
  cases h
  rfl

/-- One of two results that fail alike is a success exactly when the other is. -/
theorem ok_iff {x : Except ε α} {y : Except ε β} (h : Alike x y) :
    (∃ a, x = .ok a) ↔ ∃ b, y = .ok b := by
  cases h <;> simp

end Alike

/-- Two results that are both successes, with related values, or both errors, related as well. -/
inductive Related (E : ε → ε' → Prop) (R : α → β → Prop) : Except ε α → Except ε' β → Prop
  | ok {a : α} {b : β} (h : R a b) : Related E R (.ok a) (.ok b)
  | error {e : ε} {e' : ε'} (h : E e e') : Related E R (.error e) (.error e')

namespace Related

variable {γ δ : Type} {E : ε → ε' → Prop} {R : α → β → Prop} {S : γ → δ → Prop}
  {x : Except ε α} {y : Except ε' β}

theorem bind {f : α → Except ε γ} {g : β → Except ε' δ} (h : Related E R x y)
    (hf : ∀ a b, R a b → Related E S (f a) (g b)) : Related E S (x >>= f) (y >>= g) := by
  cases h with
  | ok h => exact hf _ _ h
  | error h => exact .error h

theorem map {f : α → γ} {g : β → δ} (h : Related E R x y) (hf : ∀ a b, R a b → S (f a) (g b)) :
    Related E S (x.map f) (y.map g) := by
  cases h with
  | ok h => exact .ok (hf _ _ h)
  | error h => exact .error h

theorem mapError {f : ε → ε} {g : ε' → ε'} (h : Related E R x y) (hf : ∀ e e', E e e' → E (f e) (g e')) :
    Related E R (x.mapError f) (y.mapError g) := by
  cases h with
  | ok h => exact .ok h
  | error h => exact .error (hf _ _ h)

theorem comp {ε'' : Type} {z : Except ε'' γ} {E₂ : ε' → ε'' → Prop} {E₃ : ε → ε'' → Prop}
    {R₂ : β → γ → Prop} {R₃ : α → γ → Prop} (h : Related E R x y) (h₂ : Related E₂ R₂ y z)
    (hE : ∀ e e' e'', E e e' → E₂ e' e'' → E₃ e e'') (hR : ∀ a b c, R a b → R₂ b c → R₃ a c) :
    Related E₃ R₃ x z := by
  cases h with
  | ok h =>
    cases h₂ with
    | ok h₂ => exact .ok (hR _ _ _ h h₂)
  | error h =>
    cases h₂ with
    | error h₂ => exact .error (hE _ _ _ h h₂)

theorem imp {E' : ε → ε' → Prop} {R' : α → β → Prop} (h : Related E R x y)
    (hE : ∀ e e', E e e' → E' e e') (hR : ∀ a b, R a b → R' a b) : Related E' R' x y := by
  cases h with
  | ok h => exact .ok (hR _ _ h)
  | error h => exact .error (hE _ _ h)

end Related

end Except
