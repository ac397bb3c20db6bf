import Mathlib.Data.List.Basic
import Mathlib.Logic.Function.Basic

/-!
# Machines fed from one stream

A machine consumes inputs by a partial step.  Many machines of one kind, each
with a key, may be fed from a single stream whose inputs name the machine they
are for (`keyed`).  However the inputs for different machines are interleaved,
the stream can be consumed exactly when each machine can consume the inputs for
it, and then each ends where these lead (`foldlM_keyed`).
-/

namespace CppExchange.Library

variable {σ ι κ : Type} {f : σ → ι → Option σ} {key : ι → κ} {i : ι} {is js : List ι}
  {s t : σ}

/-- A stream that can be consumed can be consumed as far as one likes. -/
theorem foldlM_of_prefix (hp : is <+: js) (h : js.foldlM f s = some t) :
    ∃ t', is.foldlM f s = some t' := by
  obtain ⟨rest, rfl⟩ := hp
  rw [List.foldlM_append] at h
  obtain ⟨t', ht', -⟩ := Option.bind_eq_some_iff.1 h
  exact ⟨t', ht'⟩

section Keyed

variable [DecidableEq κ] {machines machines' : κ → σ}

/-- The machine that the input names takes a step. -/
def keyed (f : σ → ι → Option σ) (key : ι → κ) (machines : κ → σ) (i : ι) : Option (κ → σ) :=
  (f (machines (key i)) i).map (Function.update machines (key i))

/-- **Each machine sees its own inputs,** in their order, and nothing else. -/
theorem foldlM_keyed : is.foldlM (keyed f key) machines = some machines' ↔
    ∀ k, (is.filter fun i => key i = k).foldlM f (machines k) = some (machines' k) := by
  induction is generalizing machines with
  | nil =>
    simp only [List.foldlM_nil, List.filter_nil, Option.pure_def, Option.some.injEq]
    exact funext_iff
  | cons i is ih =>
    rw [List.foldlM_cons, keyed]
    cases hs : f (machines (key i)) i with
    | none =>
      constructor
      · intro h
        cases h
      · intro h
        have hk := h (key i)
        rw [List.filter_cons_of_pos (by simp), List.foldlM_cons, hs] at hk
        cases hk
    | some s =>
      refine ih.trans (forall_congr' fun k => ?_)
      by_cases hk : key i = k
      · subst hk
        rw [List.filter_cons_of_pos (by simp), List.foldlM_cons, hs, Function.update_self]
        rfl
      · rw [List.filter_cons_of_neg (by simpa using hk), Function.update_of_ne (Ne.symm hk)]

end Keyed

end CppExchange.Library
