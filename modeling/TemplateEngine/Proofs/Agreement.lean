/-!
What computations come to: two of them that fail alike or succeed with related results, and one of
which the errors and the results have known properties.
-/

namespace TemplateEngine

variable {ε ε' α β γ δ : Type}

/-- Both computations fail with the same error, or both succeed and their results are related. -/
inductive Agree (R : α → β → Prop) : Except ε α → Except ε β → Prop
  | error (e : ε) : Agree R (.error e) (.error e)
  | ok {a : α} {b : β} (h : R a b) : Agree R (.ok a) (.ok b)

namespace Agree

theorem mono {R S : α → β → Prop} {x : Except ε α} {y : Except ε β} (h : Agree R x y)
    (hRS : ∀ a b, R a b → S a b) : Agree S x y := by
  cases h with
  | error e => exact .error e
  | ok h => exact .ok (hRS _ _ h)

theorem bind {R : α → β → Prop} {S : γ → δ → Prop} {x : Except ε α} {y : Except ε β}
    {f : α → Except ε γ} {g : β → Except ε δ} (h : Agree R x y)
    (hfg : ∀ a b, R a b → Agree S (f a) (g b)) : Agree S (x >>= f) (y >>= g) := by
  cases h with
  | error e => exact .error e
  | ok h => exact hfg _ _ h

theorem map {R : α → β → Prop} {S : γ → δ → Prop} {x : Except ε α} {y : Except ε β} {f : α → γ}
    {g : β → δ} (h : Agree R x y) (hfg : ∀ a b, R a b → S (f a) (g b)) :
    Agree S (x.map f) (y.map g) := by
  cases h with
  | error e => exact .error e
  | ok h => exact .ok (hfg _ _ h)

theorem map_right {R : α → β → Prop} {S : α → γ → Prop} {x : Except ε α} {y : Except ε β}
    {g : β → γ} (h : Agree R x y) (hg : ∀ a b, R a b → S a (g b)) : Agree S x (y.map g) := by
  cases h with
  | error e => exact .error e
  | ok h => exact .ok (hg _ _ h)

theorem mapError {R : α → β → Prop} {x : Except ε α} {y : Except ε β} (h : Agree R x y)
    (f : ε → ε') : Agree R (x.mapError f) (y.mapError f) := by
  cases h with
  | error e => exact .error (f e)
  | ok h => exact .ok h

theorem error_iff {R : α → β → Prop} {x : Except ε α} {y : Except ε β} (h : Agree R x y) (e : ε) :
    x = .error e ↔ y = .error e := by
  cases h with
  | error e' => simp
  | ok h => simp

/-- Computations that agree up to views of their results are equal after the views. -/
theorem map_eq {x : Except ε α} {y : Except ε β} {f : α → γ} {g : β → γ}
    (h : Agree (fun a b => f a = g b) x y) : x.map f = y.map g := by
  cases h with
  | error e => rfl
  | ok h => exact congrArg Except.ok h

theorem eq_map {x : Except ε α} {y : Except ε β} {g : β → α} (h : Agree (fun a b => a = g b) x y) :
    x = y.map g := by
  cases h with
  | error e => rfl
  | ok h => exact congrArg Except.ok h

theorem bind_eq {R : α → β → Prop} {x : Except ε α} {y : Except ε β} {f : α → Except ε γ}
    {g : β → Except ε γ} (h : Agree R x y) (hfg : ∀ a b, R a b → f a = g b) :
    x >>= f = y >>= g := by
  cases h with
  | error e => rfl
  | ok h => exact hfg _ _ h

end Agree

inductive ComesTo (E : ε → Prop) (P : α → Prop) : Except ε α → Prop
  | error {e : ε} (h : E e) : ComesTo E P (.error e)
  | ok {a : α} (h : P a) : ComesTo E P (.ok a)

namespace ComesTo

variable {E E' : ε → Prop} {F : ε' → Prop} {P P' : α → Prop} {Q : β → Prop} {x : Except ε α}

theorem of_error {e : ε} (h : ComesTo E P x) (he : x = .error e) : E e := by
  subst he
  cases h with
  | error h => exact h

theorem of_ok {a : α} (h : ComesTo E P x) (ha : x = .ok a) : P a := by
  subst ha
  cases h with
  | ok h => exact h

theorem mono (h : ComesTo E P x) (hE : ∀ e, E e → E' e) (hP : ∀ a, P a → P' a) :
    ComesTo E' P' x := by
  cases h with
  | error h => exact .error (hE _ h)
  | ok h => exact .ok (hP _ h)

theorem bind {f : α → Except ε β} (h : ComesTo E P x) (hf : ∀ a, P a → ComesTo E Q (f a)) :
    ComesTo E Q (x >>= f) := by
  cases h with
  | error h => exact .error h
  | ok h => exact hf _ h

theorem map {f : α → β} (h : ComesTo E P x) (hf : ∀ a, P a → Q (f a)) : ComesTo E Q (x.map f) := by
  cases h with
  | error h => exact .error h
  | ok h => exact .ok (hf _ h)

theorem mapError {f : ε → ε'} (h : ComesTo E P x) (hf : ∀ e, E e → F (f e)) :
    ComesTo F P (x.mapError f) := by
  cases h with
  | error h => exact .error (hf _ h)
  | ok h => exact .ok h

end ComesTo

instance decidableEqError [DecidableEq ε] (e : ε) : (x : Except ε α) → Decidable (x = .error e)
  | .error e' => decidable_of_iff (e' = e) ⟨congrArg Except.error, Except.error.inj⟩
  | .ok _ => .isFalse (by simp)

instance decidableEqOk [DecidableEq α] (a : α) : (x : Except ε α) → Decidable (x = .ok a)
  | .error _ => .isFalse (by simp)
  | .ok b => decidable_of_iff (b = a) ⟨congrArg Except.ok, Except.ok.inj⟩

@[simp] theorem ok_bind (a : α) (f : α → Except ε β) : (.ok a >>= f : Except ε β) = f a :=
  rfl

theorem bind_eq_ok {x : Except ε α} {f : α → Except ε β} {b : β} :
    x >>= f = .ok b ↔ ∃ a, x = .ok a ∧ f a = .ok b := by
  cases x <;> simp [bind, Except.bind]

theorem map_eq_ok {x : Except ε α} {f : α → β} {b : β} :
    x.map f = .ok b ↔ ∃ a, x = .ok a ∧ f a = b := by
  cases x <;> simp [Except.map]

@[simp] theorem mapError_error (f : ε → ε') (e : ε) :
    (.error e : Except ε α).mapError f = .error (f e) :=
  rfl

@[simp] theorem mapError_ok (f : ε → ε') (a : α) : (.ok a : Except ε α).mapError f = .ok a :=
  rfl

@[simp] theorem mapError_eq_ok {x : Except ε α} {f : ε → ε'} {a : α} :
    x.mapError f = .ok a ↔ x = .ok a := by
  cases x <;> simp

end TemplateEngine
