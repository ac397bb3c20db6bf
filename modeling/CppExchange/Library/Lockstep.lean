import CppExchange.Library.While

/-!
# Two computations in lockstep

`Lockstep R x y` says that `x` and `y` fail with the same error, or both return
and the results are related by `R`.  The rules follow the shape of the
computations: a bind (`Lockstep.bind`), a loop (`whileLoop_lockstep`), a run
(`foldlM_lockstep`), and a result that is read (`Lockstep.of_ok`).

What the two append to their logs is compared by `Grown`: entry by entry, each
side seen through a function of its own.
-/

namespace CppExchange.Library

variable {ε α β γ δ : Type} {R R' : α → β → Prop} {S : γ → δ → Prop} {x : Except ε α}
  {y : Except ε β} {a : α} {b : β}

/-- Both fail with one error, or return related values. -/
inductive Lockstep (R : α → β → Prop) : Except ε α → Except ε β → Prop
  | error (e : ε) : Lockstep R (.error e) (.error e)
  | ok {a : α} {b : β} (related : R a b) : Lockstep R (.ok a) (.ok b)

/-- A computation is in lockstep with itself. -/
theorem Lockstep.refl (x : Except ε α) : Lockstep Eq x x := by
  cases x with
  | error e => exact .error e
  | ok a => exact .ok rfl

theorem Lockstep.of_eq {x' : Except ε α} (h : x = x') : Lockstep Eq x x' := h ▸ Lockstep.refl x

/-- A computation is in lockstep with its image. -/
theorem Lockstep.of_map {f : α → β} (h : y = x.map f) : Lockstep (fun a b => b = f a) x y := by
  subst h
  cases x with
  | error e => exact .error e
  | ok a => exact .ok rfl

/-- When results are related to their image only, one computation is the image of
the other. -/
theorem Lockstep.eq_map {f : α → β} (h : Lockstep R x y) (hf : ∀ a b, R a b → b = f a) :
    y = x.map f := by
  cases h with
  | error e => rfl
  | ok related => exact congrArg Except.ok (hf _ _ related)

/-- What is known of the result of one of them. -/
theorem Lockstep.and_ok {P : α → Prop} (h : Lockstep R x y) (hx : ∀ a, x = .ok a → P a) :
    Lockstep (fun a b => R a b ∧ P a) x y := by
  cases h with
  | error e => exact .error e
  | ok related => exact .ok ⟨related, hx _ rfl⟩

/-- When one returns, so does the other. -/
theorem Lockstep.of_ok (h : Lockstep R x y) (hx : x = .ok a) : ∃ b, y = .ok b ∧ R a b := by
  subst hx
  cases h with
  | ok related => exact ⟨_, rfl, related⟩

/-- The first computation succeeds with the second, and the results are related. -/
theorem Lockstep.of_ok_right (h : Lockstep R x y) (hy : y = .ok b) : ∃ a, x = .ok a ∧ R a b := by
  subst hy
  cases h with
  | ok related => exact ⟨_, rfl, related⟩

/-- When one fails, so does the other. -/
theorem Lockstep.of_error {e : ε} (h : Lockstep R x y) (hx : x = .error e) : y = .error e := by
  subst hx
  cases h with
  | error e => rfl

/-- The first computation fails with the second. -/
theorem Lockstep.of_error_right {e : ε} (h : Lockstep R x y) (hy : y = .error e) :
    x = .error e := by
  subst hy
  cases h with
  | error e => rfl

/-- **Lockstep of binds.**  The second halves may use that the first ones
returned. -/
theorem Lockstep.bind {f : α → Except ε γ} {g : β → Except ε δ} (h : Lockstep R x y)
    (hf : ∀ a b, x = .ok a → y = .ok b → R a b → Lockstep S (f a) (g b)) :
    Lockstep S (x >>= f) (y >>= g) := by
  cases h with
  | error e => exact .error e
  | ok related => exact hf _ _ rfl rfl related

/-- **Lockstep of loops** whose tests agree and whose bodies are in lockstep. -/
theorem whileLoop_lockstep {hang : ε} {cond : α → Except ε Bool} {body : α → Except ε α}
    {cond' : β → Except ε Bool} {body' : β → Except ε β} {fuel : ℕ} (hr : R a b)
    (test : ∀ a b, R a b → cond a = cond' b)
    (step : ∀ a b, R a b → cond a = .ok true → Lockstep R (body a) (body' b)) :
    Lockstep R (whileLoop hang cond body fuel a) (whileLoop hang cond' body' fuel b) := by
  induction fuel generalizing a b with
  | zero => exact .error hang
  | succ fuel ih =>
    rw [whileLoop, whileLoop, ← test a b hr]
    refine (Lockstep.refl (cond a)).bind ?_
    rintro c _ hc - rfl
    cases c with
    | false => exact .ok hr
    | true => exact (step a b hr hc).bind fun a' b' _ _ hr' => ih hr'

/-- **Lockstep of runs** whose steps are in lockstep. -/
theorem foldlM_lockstep {ι κ : Type} {step : α → ι → Except ε α} {step' : β → κ → Except ε β}
    {f : ι → κ} {is : List ι} (hr : R a b)
    (steps : ∀ i ∈ is, ∀ a b, R a b → Lockstep R (step a i) (step' b (f i))) :
    Lockstep R (is.foldlM step a) ((is.map f).foldlM step' b) := by
  induction is generalizing a b with
  | nil => exact .ok hr
  | cons i is ih =>
    rw [List.map_cons, List.foldlM_cons, List.foldlM_cons]
    refine (steps i (List.mem_cons_self ..) a b hr).bind fun a' b' _ _ hr' => ?_
    exact ih hr' fun j hj => steps j (List.mem_cons_of_mem _ hj)

/-- **A run of images** is the image of the run. -/
theorem foldlM_map {ι κ : Type} {step : α → ι → Except ε α} {step' : β → κ → Except ε β}
    (φ : α → β) {f : ι → κ} {is : List ι}
    (steps : ∀ a i, step' (φ a) (f i) = (step a i).map φ) :
    (is.map f).foldlM step' (φ a) = (is.foldlM step a).map φ := by
  have hlock : Lockstep (fun a b => b = φ a) (is.foldlM step a)
      ((is.map f).foldlM step' (φ a)) := by
    refine foldlM_lockstep rfl ?_
    rintro i - a _ rfl
    exact .of_map (steps a i)
  exact hlock.eq_map fun _ _ h => h

/-! ### Logs -/

section Grown

variable {p : α → Prop} {f g : α → β} {xs₀ ys₀ xs ys : List α} {c d : α}

/-- Two logs have grown from `xs₀` and `ys₀` by entries that `f` and `g` make the
same; those of the first log meet `p`. -/
def Grown (p : α → Prop) (f g : α → β) (xs₀ ys₀ xs ys : List α) : Prop :=
  ∃ as bs, xs = xs₀ ++ as ∧ ys = ys₀ ++ bs ∧ as.map f = bs.map g ∧ ∀ a ∈ as, p a

theorem Grown.refl : Grown p f g xs ys xs ys := ⟨[], [], by simp, by simp, rfl, by simp⟩

/-- One more entry each. -/
theorem Grown.push (h : Grown p f g xs₀ ys₀ xs ys) (he : f c = g d) (hp : p c) :
    Grown p f g xs₀ ys₀ (xs ++ [c]) (ys ++ [d]) := by
  obtain ⟨as, bs, rfl, rfl, hmap, hall⟩ := h
  refine ⟨as ++ [c], bs ++ [d], by simp, by simp, by simp [hmap, he], fun a ha => ?_⟩
  rcases List.mem_append.1 ha with ha | ha
  · exact hall a ha
  · rwa [List.mem_singleton.1 ha]

/-- What the first log got from nothing, the second one got behind what it had. -/
theorem Grown.map_eq (h : Grown p f g [] ys₀ xs ys) : ys.map g = ys₀.map g ++ xs.map f := by
  obtain ⟨as, bs, rfl, rfl, hmap, -⟩ := h
  rw [List.map_append, hmap]

/-- Logs that are the same where `q` holds stay so when the new entries are
among these. -/
theorem Grown.map_filter {q : α → Prop} [DecidablePred q] {k : β → γ}
    (h : Grown p f g xs₀ ys₀ xs ys) (hpq : ∀ a, p a → q a)
    (hmap : (xs₀.filter fun a => q a).map (k ∘ f) = ys₀.map (k ∘ g)) :
    (xs.filter fun a => q a).map (k ∘ f) = ys.map (k ∘ g) := by
  obtain ⟨as, bs, rfl, rfl, hnew, hall⟩ := h
  have hkeep : as.filter (fun a => q a) = as :=
    List.filter_eq_self.2 fun a ha => decide_eq_true (hpq a (hall a ha))
  have hentries : as.map (k ∘ f) = bs.map (k ∘ g) := by
    rw [← List.map_map, hnew, List.map_map]
  rw [List.filter_append, List.map_append, List.map_append, hmap, hkeep, hentries]

/-- A log does not grow where its new entries are not. -/
theorem Grown.filter_eq {q : α → Prop} [DecidablePred q] (h : Grown p f g xs₀ ys₀ xs ys)
    (hpq : ∀ a, p a → ¬q a) : (xs.filter fun a => q a) = xs₀.filter fun a => q a := by
  obtain ⟨as, bs, rfl, -, -, hall⟩ := h
  have hdrop : as.filter (fun a => q a) = [] :=
    List.filter_eq_nil_iff.2 fun a ha => by simpa using hpq a (hall a ha)
  rw [List.filter_append, hdrop, List.append_nil]

end Grown

end CppExchange.Library
