import CppExchange.Library.Fallible

/-!
# Steps that are one or nothing

Simulation between two fallible step functions of different grain: an input of the
finer one stands for an input of the coarser one or for none, and each of its
steps is that step of the coarser function or leaves its state alone
(`foldlM_simulates`).  So the coarse run takes some of the inputs that the fine
run stands for, in their order, and all of those that are observed.
-/

namespace CppExchange.Library

variable {ε ε' σ τ ι κ γ : Type} {step : σ → ι → Except ε σ} {step' : τ → κ → Except ε' τ}
  {cond : σ → ι → Prop} {cond' : τ → κ → Prop} {g : ι → Option κ} {obs : κ → Option γ}
  {R : σ → τ → Prop} {s s₀ s' : σ} {t₀ : τ} {is : List ι} {i : ι}

/-- The step to `s'` over `i` leaves the coarse state `t`, and `i` is not
observed. -/
def Silent (g : ι → Option κ) (obs : κ → Option γ) (R : σ → τ → Prop) (t : τ) (i : ι) (s' : σ) :
    Prop :=
  (g i).bind obs = none ∧ R s' t

/-- The step to `s'` over `i` is the step of the coarse state `t` that `i` stands
for. -/
def Effective (step' : τ → κ → Except ε' τ) (cond' : τ → κ → Prop) (g : ι → Option κ)
    (R : σ → τ → Prop) (t : τ) (i : ι) (s' : σ) : Prop :=
  ∃ j t', g i = some j ∧ cond' t j ∧ step' t j = Except.ok t' ∧ R s' t'

/-- **Simulation with stuttering.**  When every step of the fine function that
meets its condition is silent or effective, every run of it is a run of the
coarse one over some of the inputs. -/
theorem foldlM_simulates (init : R s₀ t₀)
    (sim : ∀ s t i s', R s t → cond s i → step s i = Except.ok s' →
      Silent g obs R t i s' ∨ Effective step' cond' g R t i s')
    (hc : EachStep step cond s₀ is) (h : is.foldlM step s₀ = Except.ok s) :
    ∃ js t, js.Sublist (is.filterMap g) ∧
      js.filterMap obs = is.filterMap (fun i => (g i).bind obs) ∧
      EachStep step' cond' t₀ js ∧ js.foldlM step' t₀ = Except.ok t ∧ R s t := by
  induction is generalizing s₀ t₀ with
  | nil =>
    obtain rfl := Except.ok.inj h
    exact ⟨[], t₀, List.Sublist.refl _, rfl, trivial, rfl, init⟩
  | cons i is ih =>
    rw [List.foldlM_cons, bind_eq_ok] at h
    obtain ⟨s₁, hs₁, h⟩ := h
    obtain ⟨hi, hcs⟩ := (EachStep.cons_of_ok hs₁).1 hc
    rcases sim s₀ t₀ i s₁ init hi hs₁ with ⟨hquiet, hR⟩ | ⟨j, t₁, hj, hcj, ht₁, hR⟩
    · obtain ⟨js, t, hsub, hobs, hjs, ht, hRt⟩ := ih hR hcs h
      refine ⟨js, t, ?_, ?_, hjs, ht, hRt⟩
      · exact hsub.trans ((List.sublist_cons_self i is).filterMap g)
      · rw [hobs, List.filterMap_cons, hquiet]
    · obtain ⟨js, t, hsub, hobs, hjs, ht, hRt⟩ := ih hR hcs h
      refine ⟨j :: js, t, ?_, ?_, (EachStep.cons_of_ok ht₁).2 ⟨hcj, hjs⟩, ?_, hRt⟩
      · rw [List.filterMap_cons, hj]
        exact hsub.cons_cons j
      · rw [List.filterMap_cons, List.filterMap_cons, hj, hobs, Option.bind_some]
      · rw [List.foldlM_cons, ht₁]
        exact ht

end CppExchange.Library
