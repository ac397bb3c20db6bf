import Mathlib.Data.List.Induction

/-!
# Fallible computations and their runs

A computation that can fail is a value of `Except ε`.  This file has what the
rest of the development needs of that monad: when a bind returns
(`bind_eq_ok`), and runs of a fallible step function over a list of inputs,
`List.foldlM`, with their invariant rules.

A rule about runs takes the last step off the run (`foldlM_concat_eq_ok`), so
an invariant may speak about all the inputs consumed so far
(`foldlM_induction`).  `EachStep` says that every input of a run meets a
condition in the state that meets it; `foldlM_of_eachStep` is the total rule
for such runs, where a step may only fail with one given error.
`foldlM_refines` carries runs over to the runs of a step relation (`Runs`).
-/

namespace CppExchange.Library

section Bind

variable {ε α β : Type}

@[simp] theorem ok_bind (a : α) (f : α → Except ε β) : (Except.ok a >>= f) = f a := rfl

@[simp] theorem error_bind (e : ε) (f : α → Except ε β) :
    (Except.error e >>= f) = Except.error e := rfl

@[simp] theorem pure_eq_ok (a : α) : (pure a : Except ε α) = Except.ok a := rfl

@[simp] theorem throw_eq_error (e : ε) : (throw e : Except ε α) = Except.error e := rfl

/-- **A bind returns** exactly when both of its halves do. -/
theorem bind_eq_ok {x : Except ε α} {f : α → Except ε β} {b : β} :
    (x >>= f) = Except.ok b ↔ ∃ a, x = Except.ok a ∧ f a = Except.ok b := by
  cases x with
  | error e => simp
  | ok a => simp

/-- A bind fails in its first half, or in its second after the first returned. -/
theorem bind_eq_error {x : Except ε α} {f : α → Except ε β} {e : ε} :
    (x >>= f) = Except.error e ↔
      x = Except.error e ∨ ∃ a, x = Except.ok a ∧ f a = Except.error e := by
  cases x with
  | error e' => simp
  | ok a => simp

/-- A computation that is seen to succeed has a result. -/
theorem exists_of_isOk {x : Except ε α} (h : x.isOk = true) : ∃ a, x = Except.ok a := by
  cases x with
  | error e => cases h
  | ok a => exact ⟨a, rfl⟩

instance decidableExistsOk {x : Except ε α} {p : α → Prop} [DecidablePred p] :
    Decidable (∃ a, x = Except.ok a ∧ p a) :=
  match x with
  | .ok a => decidable_of_iff (p a) (by simp)
  | .error _ => .isFalse (by simp)

instance decidableEqError {x : Except ε α} {e : ε} [DecidableEq ε] :
    Decidable (x = Except.error e) :=
  match x with
  | .ok _ => .isFalse (by simp)
  | .error e' => decidable_of_iff (e' = e) (by simp)

/-- Mapping the result of a bind maps the result of its second half. -/
theorem map_bind {γ : Type} (g : β → γ) (x : Except ε α) (f : α → Except ε β) :
    (x >>= f).map g = x >>= fun a => (f a).map g := by
  cases x <;> rfl

/-- What returns does so whatever the errors are called. -/
theorem mapError_eq_ok {ε' : Type} {f : ε → ε'} {x : Except ε α} {a : α} :
    x.mapError f = Except.ok a ↔ x = Except.ok a := by
  cases x <;> simp [Except.mapError]

/-- A bind after a map is a bind. -/
theorem bind_map {γ : Type} (g : α → γ) (x : Except ε α) (f : γ → Except ε β) :
    (x.map g >>= f) = x >>= fun a => f (g a) := by
  cases x <;> rfl

end Bind

section Run

variable {ε σ ι : Type} {step : σ → ι → Except ε σ} {s₀ s : σ}

/-- A run over one more input is a run and a step. -/
theorem foldlM_concat_eq_ok {is : List ι} {i : ι} :
    (is ++ [i]).foldlM step s₀ = Except.ok s ↔
      ∃ s', is.foldlM step s₀ = Except.ok s' ∧ step s' i = Except.ok s := by
  rw [List.foldlM_append, bind_eq_ok]
  refine exists_congr fun s' => and_congr_right fun _ => ?_
  rw [List.foldlM_cons, bind_eq_ok]
  simp

/-- **The run rule.**  A property of the inputs consumed and the state reached
that holds of the empty run, and that every further step preserves, holds of
every run that returns. -/
theorem foldlM_induction {P : List ι → σ → Prop} (nil : P [] s₀)
    (snoc : ∀ is i s s', is.foldlM step s₀ = Except.ok s → P is s →
      step s i = Except.ok s' → P (is ++ [i]) s')
    {is : List ι} (h : is.foldlM step s₀ = Except.ok s) : P is s := by
  induction is using List.reverseRecOn generalizing s with
  | nil =>
    rw [List.foldlM_nil, pure_eq_ok] at h
    obtain rfl := Except.ok.inj h
    exact nil
  | append_singleton is i ih =>
    obtain ⟨s', hs', hstep⟩ := foldlM_concat_eq_ok.1 h
    exact snoc is i s' s hs' (ih hs') hstep

/-- Every input of a run meets `cond` in the state the run has reached when it
consumes that input. -/
def EachStep (step : σ → ι → Except ε σ) (cond : σ → ι → Prop) : σ → List ι → Prop
  | _, [] => True
  | s, i :: is => cond s i ∧
      match step s i with
      | .ok s' => EachStep step cond s' is
      | .error _ => True

instance EachStep.decidable (step : σ → ι → Except ε σ) (cond : σ → ι → Prop)
    [∀ s i, Decidable (cond s i)] : ∀ s is, Decidable (EachStep step cond s is)
  | _, [] => .isTrue trivial
  | s, i :: is =>
    have : Decidable (match step s i with
        | .ok s' => EachStep step cond s' is
        | .error _ => True) :=
      match step s i with
      | .ok s' => EachStep.decidable step cond s' is
      | .error _ => .isTrue trivial
    inferInstanceAs (Decidable (_ ∧ _))

theorem EachStep.cons_of_ok {cond : σ → ι → Prop} {i : ι} {is : List ι} {s' : σ}
    (hs : step s i = Except.ok s') :
    EachStep step cond s (i :: is) ↔ cond s i ∧ EachStep step cond s' is := by
  simp only [EachStep, hs]

/-- Two conditions of a run are one. -/
theorem EachStep.and {cond cond' : σ → ι → Prop} {is : List ι} (h : EachStep step cond s₀ is)
    (h' : EachStep step cond' s₀ is) : EachStep step (fun s i => cond s i ∧ cond' s i) s₀ is := by
  induction is generalizing s₀ with
  | nil => trivial
  | cons i is ih =>
    refine ⟨⟨h.1, h'.1⟩, ?_⟩
    cases hs : step s₀ i with
    | error e => trivial
    | ok s => exact ih ((EachStep.cons_of_ok hs).1 h).2 ((EachStep.cons_of_ok hs).1 h').2

/-- **Two conditions that agree along a run.**  When an invariant of the steps
whose input meets `pre` and the second condition makes the two conditions say the
same, they say the same of every run whose inputs all meet `pre`: the first step
that breaks one breaks the other. -/
theorem EachStep.congr_of_keep {pre cond cond' : σ → ι → Prop} {P : σ → Prop} (init : P s₀)
    (keep : ∀ s i s', P s → pre s i → cond' s i → step s i = Except.ok s' → P s')
    (same : ∀ s i, P s → pre s i → (cond s i ↔ cond' s i)) {is : List ι}
    (h : EachStep step pre s₀ is) : EachStep step cond s₀ is ↔ EachStep step cond' s₀ is := by
  induction is generalizing s₀ with
  | nil => exact Iff.rfl
  | cons i is ih =>
    have hi := same s₀ i init h.1
    cases hs : step s₀ i with
    | error e => simp only [EachStep, hs, hi]
    | ok s =>
      rw [EachStep.cons_of_ok hs, EachStep.cons_of_ok hs, hi]
      refine and_congr_right fun hc => ?_
      exact ih (keep s₀ i s init h.1 hc hs) ((EachStep.cons_of_ok hs).1 h).2

/-- The same with an invariant of all steps whose input meets `pre`. -/
theorem EachStep.congr {pre cond cond' : σ → ι → Prop} {P : σ → Prop} (init : P s₀)
    (keep : ∀ s i s', P s → pre s i → step s i = Except.ok s' → P s')
    (same : ∀ s i, P s → pre s i → (cond s i ↔ cond' s i)) {is : List ι}
    (h : EachStep step pre s₀ is) : EachStep step cond s₀ is ↔ EachStep step cond' s₀ is :=
  EachStep.congr_of_keep init (fun s i s' hP hi _ hs => keep s i s' hP hi hs) same h

/-- A condition holds along a run when it holds of each input in the state that
the inputs before it lead to, if it held of them. -/
theorem EachStep.of_prefixes {cond : σ → ι → Prop} {is : List ι}
    (h : ∀ done i rest s, is = done ++ i :: rest → EachStep step cond s₀ done →
      done.foldlM step s₀ = Except.ok s → cond s i) : EachStep step cond s₀ is := by
  induction is generalizing s₀ with
  | nil => trivial
  | cons i is ih =>
    have hi : cond s₀ i := h [] i is s₀ rfl trivial rfl
    cases hs : step s₀ i with
    | error e => exact ⟨hi, by rw [hs]; trivial⟩
    | ok s₁ =>
      refine (EachStep.cons_of_ok hs).2 ⟨hi, ih fun done j rest s he hdone hrun => ?_⟩
      refine h (i :: done) j rest s (by rw [he]; rfl) ((EachStep.cons_of_ok hs).2 ⟨hi, hdone⟩) ?_
      rw [List.foldlM_cons, hs]
      exact hrun

/-- A condition of a run is one of its beginnings. -/
theorem EachStep.of_append {cond : σ → ι → Prop} {is js : List ι}
    (h : EachStep step cond s₀ (is ++ js)) : EachStep step cond s₀ is := by
  induction is generalizing s₀ with
  | nil => trivial
  | cons i is ih =>
    refine ⟨h.1, ?_⟩
    cases hs : step s₀ i with
    | error e => trivial
    | ok s => exact ih ((EachStep.cons_of_ok hs).1 h).2

/-- The condition holds of the inputs before the last one, and of the last one
in the state they lead to. -/
theorem EachStep.of_concat {cond : σ → ι → Prop} {is : List ι} {i : ι}
    (h : EachStep step cond s₀ (is ++ [i])) :
    EachStep step cond s₀ is ∧ ∀ s, is.foldlM step s₀ = Except.ok s → cond s i := by
  induction is generalizing s₀ with
  | nil =>
    refine ⟨trivial, fun s hs => ?_⟩
    rw [List.foldlM_nil, pure_eq_ok] at hs
    obtain rfl := Except.ok.inj hs
    exact h.1
  | cons j js ih =>
    cases hj : step s₀ j with
    | error e =>
      refine ⟨⟨h.1, by rw [hj]; trivial⟩, fun s hs => ?_⟩
      rw [List.foldlM_cons, hj] at hs
      cases hs
    | ok s' =>
      rw [List.cons_append, EachStep.cons_of_ok hj] at h
      obtain ⟨hjs, hi⟩ := ih h.2
      refine ⟨(EachStep.cons_of_ok hj).2 ⟨h.1, hjs⟩, fun s hs => hi s ?_⟩
      rwa [List.foldlM_cons, hj, ok_bind] at hs

/-- **The run rule for conditioned runs.**  When a step from a state with `P`
whose input meets the condition reaches a state with `P` or fails with `e`, a
run whose inputs all meet the condition reaches a state with `P` or fails with
`e`.  `P` may speak about the inputs consumed; `Q` is a hypothesis about all
inputs that passes to prefixes. -/
theorem foldlM_of_eachStep {cond : σ → ι → Prop} {e : ε} {P : List ι → σ → Prop}
    {Q : List ι → Prop} (hQ : ∀ is i, Q (is ++ [i]) → Q is) (nil : P [] s₀)
    (snoc : ∀ is i s, Q (is ++ [i]) → P is s → cond s i →
      (∃ s', step s i = Except.ok s' ∧ P (is ++ [i]) s') ∨ step s i = Except.error e)
    {is : List ι} (hq : Q is) (hc : EachStep step cond s₀ is) :
    (∃ s, is.foldlM step s₀ = Except.ok s ∧ P is s) ∨ is.foldlM step s₀ = Except.error e := by
  induction is using List.reverseRecOn with
  | nil => exact Or.inl ⟨s₀, rfl, nil⟩
  | append_singleton is i ih =>
    obtain ⟨hcs, hci⟩ := EachStep.of_concat hc
    rcases ih (hQ is i hq) hcs with ⟨s, hs, hP⟩ | he
    · rcases snoc is i s hq hP (hci s hs) with ⟨s', hs', hP'⟩ | he
      · exact Or.inl ⟨s', foldlM_concat_eq_ok.2 ⟨s, hs, hs'⟩, hP'⟩
      · refine Or.inr ?_
        rw [List.foldlM_append, hs, ok_bind, List.foldlM_cons, he, error_bind]
    · refine Or.inr ?_
      rw [List.foldlM_append, he, error_bind]

/-- **The total rule for conditioned runs.**  When every step whose input meets
the condition returns, a run whose inputs all meet it returns. -/
theorem foldlM_total {cond : σ → ι → Prop} {P : List ι → σ → Prop} (nil : P [] s₀)
    (snoc : ∀ is i s, P is s → cond s i → ∃ s', step s i = Except.ok s' ∧ P (is ++ [i]) s')
    {is : List ι} (hc : EachStep step cond s₀ is) :
    ∃ s, is.foldlM step s₀ = Except.ok s ∧ P is s := by
  induction is using List.reverseRecOn with
  | nil => exact ⟨s₀, rfl, nil⟩
  | append_singleton is i ih =>
    obtain ⟨hcs, hci⟩ := EachStep.of_concat hc
    obtain ⟨s, hs, hP⟩ := ih hcs
    obtain ⟨s', hs', hP'⟩ := snoc is i s hP (hci s hs)
    exact ⟨s', foldlM_concat_eq_ok.2 ⟨s, hs, hs'⟩, hP'⟩

/-- **The invariant rule for conditioned runs.**  A property that a step whose
input meets the condition preserves holds of every run that returns and whose
inputs all meet it. -/
theorem foldlM_invariant {cond : σ → ι → Prop} {P : σ → Prop} (init : P s₀)
    (keep : ∀ s i s', P s → cond s i → step s i = Except.ok s' → P s') {is : List ι}
    (hc : EachStep step cond s₀ is) (h : is.foldlM step s₀ = Except.ok s) : P s := by
  induction is generalizing s₀ with
  | nil =>
    rw [List.foldlM_nil, pure_eq_ok] at h
    exact Except.ok.inj h ▸ init
  | cons i is ih =>
    rw [List.foldlM_cons, bind_eq_ok] at h
    obtain ⟨s₁, hs₁, h⟩ := h
    obtain ⟨hi, hcs⟩ := (EachStep.cons_of_ok hs₁).1 hc
    exact ih (keep s₀ i s₁ init hi hs₁) hcs h

/-- A run fails with `e` only when one of its steps does. -/
theorem foldlM_ne_error {cond : σ → ι → Prop} {e : ε} {P : σ → Prop} (init : P s₀)
    (keep : ∀ s i s', P s → cond s i → step s i = Except.ok s' → P s')
    (safe : ∀ s i, P s → cond s i → step s i ≠ Except.error e) {is : List ι}
    (hc : EachStep step cond s₀ is) : is.foldlM step s₀ ≠ Except.error e := by
  induction is generalizing s₀ with
  | nil => simp
  | cons i is ih =>
    rw [List.foldlM_cons, Ne, bind_eq_error]
    rintro (h | ⟨s₁, hs₁, h⟩)
    · exact safe s₀ i init hc.1 h
    · obtain ⟨hi, hcs⟩ := (EachStep.cons_of_ok hs₁).1 hc
      exact ih (keep s₀ i s₁ init hi hs₁) hcs h

end Run

section Refinement

variable {ε σ τ ι : Type} {step : σ → ι → Except ε σ} {Step : τ → ι → τ → Prop}

/-- The states that steps of a relation lead to over a list of inputs. -/
inductive Runs (Step : τ → ι → τ → Prop) (t₀ : τ) : List ι → τ → Prop
  | nil : Runs Step t₀ [] t₀
  | snoc {is : List ι} {i : ι} {t t' : τ} (run : Runs Step t₀ is t) (step : Step t i t') :
      Runs Step t₀ (is ++ [i]) t'

/-- Two runs in a row are a run. -/
theorem Runs.append {t₀ t t' : τ} {is js : List ι} (h : Runs Step t₀ is t)
    (h' : Runs Step t js t') : Runs Step t₀ (is ++ js) t' := by
  induction h' with
  | nil => rwa [List.append_nil]
  | snoc _ step ih =>
    rw [← List.append_assoc]
    exact ih.snoc step

/-- **Refinement.**  When every step that returns is matched by a step of the
relation, every run that returns is matched by one of its runs. -/
theorem foldlM_refines {R : σ → τ → Prop} {s₀ s : σ} {t₀ : τ} {is : List ι} (init : R s₀ t₀)
    (sim : ∀ s t i s', R s t → step s i = Except.ok s' → ∃ t', Step t i t' ∧ R s' t')
    (h : is.foldlM step s₀ = Except.ok s) : ∃ t, Runs Step t₀ is t ∧ R s t := by
  refine foldlM_induction (P := fun is s => ∃ t, Runs Step t₀ is t ∧ R s t) ⟨t₀, .nil, init⟩ ?_ h
  rintro is i s s' - ⟨t, ht, hR⟩ hs
  obtain ⟨t', ht', hR'⟩ := sim s t i s' hR hs
  exact ⟨t', ht.snoc ht', hR'⟩

end Refinement

end CppExchange.Library
