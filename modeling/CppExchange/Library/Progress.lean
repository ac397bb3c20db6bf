import CppExchange.Library.Fallible

/-!
# Runs that get somewhere

A rule for runs of a fallible step function in which some inputs are work and
some set the work back (`foldlM_progress`).  It bounds how much work a goal can
take, whatever comes between: a level rises by the work of each input, unless the
goal is reached, and no input lowers it by more than its loss.
-/

namespace CppExchange.Library

section Weight

variable {ι : Type} {w : ι → ℕ} {i : ι} {is : List ι}

/-- What the inputs weigh together. -/
def weight (w : ι → ℕ) : List ι → ℕ
  | [] => 0
  | i :: is => w i + weight w is

@[simp] theorem weight_nil : weight w [] = 0 := rfl

@[simp] theorem weight_cons : weight w (i :: is) = w i + weight w is := rfl

/-- Inputs of no weight weigh nothing together. -/
theorem weight_zero : weight (fun _ => 0) is = 0 := by
  induction is with
  | nil => rfl
  | cons i is ih => rw [weight_cons, ih]

/-- A common factor of the weights is one of the sum. -/
theorem weight_mul (c : ℕ) : weight (fun i => c * w i) is = c * weight w is := by
  induction is with
  | nil => rfl
  | cons i is ih => rw [weight_cons, weight_cons, ih, Nat.mul_add]

end Weight

section Progress

variable {ε σ ι : Type} {step : σ → ι → Except ε σ} {cond : σ → ι → Prop} {P Q : σ → Prop}
  {s₀ s : σ}

/-- **The progress rule.**  When every step from a state with `P` keeps `P` and
the goal `Q`, and reaches the goal or raises the level by the work of its input
less the loss, a run reaches the goal or raises the level by all its work less
all its losses. -/
theorem foldlM_progress (level : σ → ℕ) (work loss : ι → ℕ) (init : P s₀)
    (keep : ∀ s i s', P s → cond s i → step s i = Except.ok s' → P s')
    (stay : ∀ s i s', P s → Q s → step s i = Except.ok s' → Q s')
    (rise : ∀ s i s', P s → step s i = Except.ok s' →
      Q s' ∨ level s + work i ≤ level s' + loss i)
    {is : List ι} (hc : EachStep step cond s₀ is) (h : is.foldlM step s₀ = Except.ok s) :
    Q s ∨ level s₀ + weight work is ≤ level s + weight loss is := by
  induction is generalizing s₀ with
  | nil =>
    rw [List.foldlM_nil, pure_eq_ok] at h
    obtain rfl := Except.ok.inj h
    exact Or.inr (Nat.le_refl _)
  | cons i is ih =>
    rw [List.foldlM_cons, bind_eq_ok] at h
    obtain ⟨s₁, hs₁, h⟩ := h
    obtain ⟨hi, hcs⟩ := (EachStep.cons_of_ok hs₁).1 hc
    have hP₁ : P s₁ := keep s₀ i s₁ init hi hs₁
    rcases rise s₀ i s₁ init hs₁ with hQ | hle
    · refine Or.inl (foldlM_invariant (P := fun s => P s ∧ Q s) ⟨hP₁, hQ⟩ ?_ hcs h).2
      exact fun s i s' hs hi hstep => ⟨keep s i s' hs.1 hi hstep, stay s i s' hs.1 hs.2 hstep⟩
    · refine (ih hP₁ hcs h).imp_right fun hrest => ?_
      rw [weight_cons, weight_cons]
      omega

end Progress

end CppExchange.Library
