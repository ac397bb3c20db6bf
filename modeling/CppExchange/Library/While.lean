import CppExchange.Library.Fallible
import Mathlib.Data.Fintype.Card
import Mathlib.Data.Fintype.Pigeonhole
import Mathlib.Logic.Function.Iterate

/-!
# `while` loops with fuel

`whileLoop hang cond body fuel s` runs `while (cond) body` from `s`, where the
test and the body may fail.  The fuel is the number of tests the loop may
make; a loop that would make more reports `hang`.

The rules are the usual ones: partial correctness from an invariant
(`whileLoop_invariant`), total correctness from a measure (`whileLoop_total`),
and a simulation between two loops (`whileLoop_map`).

Fuel is only a device.  Over a finite state space a loop that makes as many
tests as there are states has come back to a state it was in, so it makes
every number of tests: with that much fuel `hang` is reported exactly when the
loop does not end (`whileLoop_hang_of_card`).
-/

namespace CppExchange.Library

variable {ε σ τ : Type}

/-- `while (cond) body` from `s`, at most `fuel` tests. -/
def whileLoop (hang : ε) (cond : σ → Except ε Bool) (body : σ → Except ε σ) :
    ℕ → σ → Except ε σ
  | 0, _ => .error hang
  | fuel + 1, s => do
      if ← cond s then
        let s' ← body s
        whileLoop hang cond body fuel s'
      else
        return s

variable {hang : ε} {cond : σ → Except ε Bool} {body : σ → Except ε σ} {fuel : ℕ} {s s' t : σ}

theorem whileLoop_of_false (h : cond s = .ok false) :
    whileLoop hang cond body (fuel + 1) s = .ok s := by
  simp [whileLoop, h]

theorem whileLoop_of_true {t : σ} (h : cond s = .ok true) (hb : body s = .ok t) :
    whileLoop hang cond body (fuel + 1) s = whileLoop hang cond body fuel t := by
  simp [whileLoop, h, hb]

/-- A loop that returns tested false at once, or ran its body and returned. -/
theorem whileLoop_cases (h : whileLoop hang cond body (fuel + 1) s = .ok t) :
    cond s = .ok false ∧ t = s ∨
      cond s = .ok true ∧ ∃ s', body s = .ok s' ∧ whileLoop hang cond body fuel s' = .ok t := by
  rw [whileLoop, bind_eq_ok] at h
  obtain ⟨b, hb, h⟩ := h
  cases b with
  | false => exact Or.inl ⟨hb, by simpa [eq_comm] using h⟩
  | true => exact Or.inr ⟨hb, bind_eq_ok.1 h⟩

/-- **Partial correctness.**  An invariant of the body holds when the loop
returns, and the test is false there. -/
theorem whileLoop_invariant {I : σ → Prop}
    (step : ∀ s s', I s → cond s = .ok true → body s = .ok s' → I s')
    (hs : I s) (h : whileLoop hang cond body fuel s = .ok t) : I t ∧ cond t = .ok false := by
  induction fuel generalizing s with
  | zero => cases h
  | succ fuel ih =>
    rcases whileLoop_cases h with ⟨hc, rfl⟩ | ⟨hc, s', hb, h'⟩
    · exact ⟨hs, hc⟩
    · exact ih (step s s' hs hc hb) h'

/-- A loop fails with the errors of its test and its body, or runs out of fuel. -/
theorem whileLoop_ne_error {e : ε} (he : e ≠ hang) (test : ∀ s, cond s ≠ .error e)
    (step : ∀ s, body s ≠ .error e) : whileLoop hang cond body fuel s ≠ .error e := by
  induction fuel generalizing s with
  | zero => exact fun h => he (Except.error.inj h).symm
  | succ fuel ih =>
    rw [whileLoop, Ne, bind_eq_error]
    rintro (h | ⟨b, -, h⟩)
    · exact test s h
    · cases b with
      | false => cases h
      | true =>
        rcases bind_eq_error.1 h with h | ⟨s', -, h⟩
        · exact step s h
        · exact ih h

/-- **Total correctness.**  When, under the invariant, the test does not fail,
and the body fails only with errors in `E` and otherwise lowers the measure,
fuel above the measure is enough: the loop returns, or fails with an error in
`E`. -/
theorem whileLoop_total {I : σ → Prop} {E : ε → Prop} (μ : σ → ℕ)
    (test : ∀ s, I s → ∃ b, cond s = .ok b)
    (step : ∀ s, I s → cond s = .ok true →
      (∃ s', body s = .ok s' ∧ I s' ∧ μ s' < μ s) ∨ ∃ e, E e ∧ body s = .error e)
    (hs : I s) (hμ : μ s < fuel) :
    (∃ t, whileLoop hang cond body fuel s = .ok t ∧ I t ∧ cond t = .ok false) ∨
      ∃ e, E e ∧ whileLoop hang cond body fuel s = .error e := by
  induction fuel generalizing s with
  | zero => omega
  | succ fuel ih =>
    obtain ⟨b, hb⟩ := test s hs
    cases b with
    | false => exact Or.inl ⟨s, whileLoop_of_false hb, hs, hb⟩
    | true =>
      rcases step s hs hb with ⟨s', hbody, hs', hlt⟩ | ⟨e, he, hbody⟩
      · rw [whileLoop_of_true hb hbody]
        exact ih hs' (by omega)
      · exact Or.inr ⟨e, he, by simp [whileLoop, hb, hbody]⟩

/-- **Simulation.**  A map of states that carries one test and one body to
another, on states with the invariant, carries one loop to the other. -/
theorem whileLoop_map {cond' : τ → Except ε Bool} {body' : τ → Except ε τ} {I : σ → Prop}
    (φ : σ → τ) (test : ∀ s, I s → cond' (φ s) = cond s)
    (step : ∀ s, I s → cond s = .ok true → body' (φ s) = (body s).map φ)
    (inv : ∀ s s', I s → cond s = .ok true → body s = .ok s' → I s') (hs : I s) :
    whileLoop hang cond' body' fuel (φ s) = (whileLoop hang cond body fuel s).map φ := by
  induction fuel generalizing s with
  | zero => rfl
  | succ fuel ih =>
    rw [whileLoop, whileLoop, test s hs, map_bind]
    cases hc : cond s with
    | error e => rfl
    | ok b =>
      cases b with
      | false => rfl
      | true =>
        simp only [ok_bind, if_true]
        rw [step s hs hc, bind_map, map_bind]
        cases hb : body s with
        | error e => rfl
        | ok s' => exact ih (inv s s' hs hc hb)

/-! ### What `hang` means -/

/-- One round of the loop: the next state, when the test is true and the body
returns. -/
def round (cond : σ → Except ε Bool) (body : σ → Except ε σ) (s : σ) : Option σ :=
  match cond s, body s with
  | .ok true, .ok s' => some s'
  | _, _ => none

/-- Running out of fuel is making one round for each unit of it. -/
theorem whileLoop_eq_hang_iff (hcond : ∀ s, cond s ≠ .error hang)
    (hbody : ∀ s, body s ≠ .error hang) :
    whileLoop hang cond body fuel s = .error hang ↔
      (fun o => o.bind (round cond body))^[fuel] (some s) ≠ none := by
  have hnone : ∀ k, (fun o => Option.bind o (round cond body))^[k] none = none :=
    fun k => Function.iterate_fixed rfl k
  induction fuel generalizing s with
  | zero => simp [whileLoop]
  | succ fuel ih =>
    rw [Function.iterate_succ_apply, Option.bind_some, whileLoop, round]
    cases hc : cond s with
    | error e =>
      have he : e ≠ hang := fun h => hcond s (h ▸ hc)
      simpa [hnone] using he
    | ok b =>
      cases b with
      | false => simp [hnone]
      | true =>
        cases hb : body s with
        | error e =>
          have he : e ≠ hang := fun h => hbody s (h ▸ hb)
          simpa [hnone] using he
        | ok s' => simpa using ih

/-- A partial function on a finite type that can be applied as often as the
type has elements can be applied any number of times. -/
theorem iterate_bind_ne_none [Fintype σ] (f : σ → Option σ) (s : σ)
    (h : (fun o => o.bind f)^[Fintype.card σ] (some s) ≠ none) (k : ℕ) :
    (fun o => o.bind f)^[k] (some s) ≠ none := by
  set g : Option σ → Option σ := fun o => o.bind f with hg
  have hnone : ∀ k, g^[k] none = none := fun k => Function.iterate_fixed rfl k
  have hle : ∀ k ≤ Fintype.card σ, g^[k] (some s) ≠ none := by
    intro k hk he
    refine h ?_
    rw [show Fintype.card σ = (Fintype.card σ - k) + k by omega, Function.iterate_add_apply, he,
      hnone]
  choose a ha using fun i : Fin (Fintype.card σ + 1) =>
    Option.ne_none_iff_exists'.1 (hle i (by omega))
  obtain ⟨i, j, hij, he⟩ := Fintype.exists_ne_map_eq_of_card_lt a (by simp)
  wlog hlt : i < j generalizing i j
  · exact this j i hij.symm he.symm (lt_of_le_of_ne (not_lt.1 hlt) hij.symm)
  have hper : g^[(i : ℕ)] (some s) = g^[(j : ℕ)] (some s) := by rw [ha i, ha j, he]
  induction k using Nat.strong_induction_on with
  | _ k ih =>
    rcases le_or_gt k j with hk | hk
    · exact hle k (by omega)
    · rw [show k = (k - j) + j by omega, Function.iterate_add_apply, ← hper,
        ← Function.iterate_add_apply]
      exact ih (k - j + i) (by omega)

/-- **With one unit of fuel for each state, `hang` is non-termination:** no
amount of fuel lets the loop end. -/
theorem whileLoop_hang_of_card [Fintype σ] (hcond : ∀ s, cond s ≠ .error hang)
    (hbody : ∀ s, body s ≠ .error hang)
    (h : whileLoop hang cond body (Fintype.card σ) s = .error hang) (k : ℕ) :
    whileLoop hang cond body k s = .error hang :=
  (whileLoop_eq_hang_iff hcond hbody).2
    (iterate_bind_ne_none _ s ((whileLoop_eq_hang_iff hcond hbody).1 h) k)

end CppExchange.Library
