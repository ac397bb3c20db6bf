import CppExchange.EndToEnd
import CppExchange.Library.Progress

/-!
# How long a request waits

A request that is in the ring is answered when the loop of the exchange has made
as many passes as there are requests before it, and two more; each `stop` costs a
pass.  This is so while pushes find room.  No step of another thread can hold it
up: the thread of the exchange is never stuck in a pass (`Serves.ready`), a pass
that finds the ring empty has caught up with every request (`Serves.level_le`),
and a message is read by the time that as many were taken as were in its ring.

The level of the work is the number of requests popped, and of what is sure to
come of the pass under way (`System.level`).
-/

namespace CppExchange

open Library

namespace Pipeline

variable {m l n k u : ℕ} [NeZero n] [NeZero k] [NeZero u] {e₀ : Exchange m l}
  {tickerIds : List TickerIdT} {clock : ℕ → NsTimestampT}
  {b : List (List ReceiveTimeClientRequest) × List ReceiveTimeClientRequest}
  {s s' s₀ s₁ : System m l n k u} {actions later : List Action} {a : Action} {N : ℕ}

/-! ### The passes of the loop -/

/-- A pass of the loop begins. -/
def Action.passes : Action → ℕ
  | .test => 1
  | _ => 0

/-- The loop is told to end. -/
def Action.stops : Action → ℕ
  | .stop => 1
  | _ => 0

/-- The requests that are popped and not yet answered in full. -/
def Phase.underWay : Phase → ℕ
  | .processing | .pushing => 1
  | _ => 0

/-- The number of requests that were answered in full. -/
def System.answered (s : System m l n k u) : ℕ := s.requests.popped.length - s.phase.underWay

/-- The next test does not end the loop, or there is no loop. -/
def System.Going (s : System m l n k u) : Prop :=
  s.running = true ∨ s.phase = .joined ∨ s.phase = .ended

instance (s : System m l n k u) : Decidable s.Going := inferInstanceAs (Decidable (_ ∨ _ ∨ _))

/-- The requests popped, the one that the pass under way is about to pop, and one
if the next pass will not be the end. -/
def System.level (s : System m l n k u) : ℕ :=
  s.requests.popped.length + s.phase.due + if s.Going then 1 else 0

omit [NeZero n] [NeZero k] [NeZero u] in
/-- A level of two more than a number of requests is above the answer to the last
of them. -/
theorem level_le_answered (s : System m l n k u) : s.level ≤ s.answered + 2 := by
  rw [System.level, System.answered]
  cases s.phase <;> simp only [Phase.due, Phase.underWay] <;> split_ifs <;> omega

omit [NeZero n] [NeZero k] [NeZero u] in
theorem popped_le_level (s : System m l n k u) : s.requests.popped.length ≤ s.level := by
  rw [System.level]
  omega

omit [NeZero n] [NeZero k] [NeZero u] in
/-- A step that pops nothing and leaves the thread where it is for the loop. -/
theorem level_congr (hpopped : s'.requests.popped = s.requests.popped)
    (hdue : s'.phase.due = s.phase.due) (hgoing : s.Going → s'.Going) : s.level ≤ s'.level := by
  rw [System.level, System.level, hpopped, hdue]
  split_ifs with h h'
  · exact le_rfl
  · exact absurd (hgoing h) h'
  all_goals omega

/-- **A pop** takes the next request, or every request pushed so far is
answered. -/
theorem Serves.level_pop (h : Serves e₀ b s) (hN : N ≤ s.requests.pushed.length)
    (hs : Pipeline.step s .pop = .ok s') : N ≤ s'.answered ∨ s.level ≤ s'.level := by
  simp only [Pipeline.step] at hs
  split at hs
  · rename_i hphase
    obtain rfl := Except.ok.inj hs
    rcases h.requests.pop_cases with ⟨hall, hitem, hpopped, -⟩ | ⟨x, rest, -, hitem, hpopped, -⟩
    · refine Or.inl ?_
      rw [← hall, ← hpopped] at hN
      simpa [System.answered, hitem, Phase.underWay] using hN
    · refine Or.inr ?_
      have hlen := congrArg List.length hpopped
      rw [List.length_append, List.length_singleton] at hlen
      simp [System.level, hphase, Phase.due, Option.isSome_iff_ne_none.2 hitem, hlen,
        System.Going]
  · cases hs

/-- **Every step** raises the level by the pass it begins, less the stop it is,
unless everything pushed is answered. -/
theorem Serves.level_le (h : Serves e₀ b s) (hN : N ≤ s.requests.pushed.length)
    (hs : Pipeline.step s a = .ok s') :
    N ≤ s'.answered ∨ s.level + a.passes ≤ s'.level + a.stops := by
  cases a with
  | pop => exact (h.level_pop hN hs)
  | test =>
    simp only [Pipeline.step] at hs
    split at hs
    · rename_i hphase
      obtain rfl := Except.ok.inj hs
      refine Or.inr ?_
      cases hrun : s.running <;>
        simp [System.level, System.Going, hphase, hrun, Phase.due, Action.passes, Action.stops]
    · cases hs
  | stop =>
    obtain rfl := Except.ok.inj hs
    refine Or.inr ?_
    simp only [System.level, Action.passes, Action.stops]
    split_ifs <;> omega
  | start =>
    simp only [Pipeline.step] at hs
    split at hs
    · rename_i hphase
      obtain rfl := Except.ok.inj hs
      exact Or.inr (level_congr rfl (by rw [hphase]; rfl) fun _ => Or.inl rfl)
    · cases hs
  | join =>
    simp only [Pipeline.step] at hs
    split at hs
    · rename_i hphase
      obtain rfl := Except.ok.inj hs
      exact Or.inr (level_congr rfl (by rw [hphase]; rfl) fun _ => Or.inr (Or.inl rfl))
    · cases hs
  | addRequest request timestamp =>
    simp only [Pipeline.step] at hs
    split at hs
    · obtain ⟨sequencer, -, hs⟩ := bind_eq_ok.1 hs
      obtain rfl := Except.ok.inj hs
      exact Or.inr (level_congr rfl rfl id)
    · cases hs
  | process =>
    simp only [Pipeline.step] at hs
    split at hs
    · rename_i hphase _
      obtain ⟨exchange, -, hs⟩ := bind_eq_ok.1 hs
      obtain rfl := Except.ok.inj hs
      exact Or.inr (level_congr rfl (by rw [hphase]; rfl) (by simp [System.Going, hphase]))
    · cases hs
  | done =>
    simp only [Pipeline.step] at hs
    split at hs
    · rename_i hphase _ _
      obtain rfl := Except.ok.inj hs
      exact Or.inr (level_congr rfl (by rw [hphase]; rfl) (by simp [System.Going, hphase]))
    · cases hs
  | takeResponse | takeUpdate =>
    obtain rfl := Except.ok.inj hs
    exact Or.inr (level_congr rfl rfl id)
  | sequence | publish | respond | update =>
    simp only [Pipeline.step] at hs
    split at hs
    all_goals first
      | (obtain rfl := Except.ok.inj hs
         exact Or.inr (level_congr rfl rfl id))
      | cases hs

/-! ### What the steps leave -/

/-- What was pushed and what was popped before is the beginning of what was
since. -/
structure Onward (s s' : System m l n k u) : Prop where
  requests : s.requests.pushed <+: s'.requests.pushed ∧ s.requests.popped <+: s'.requests.popped
  responses : s.responses.pushed <+: s'.responses.pushed ∧
    s.responses.popped <+: s'.responses.popped
  updates : s.updates.pushed <+: s'.updates.pushed ∧ s.updates.popped <+: s'.updates.popped

omit [NeZero n] [NeZero k] [NeZero u] in
theorem Onward.refl (s : System m l n k u) : Onward s s :=
  ⟨⟨List.prefix_refl _, List.prefix_refl _⟩, ⟨List.prefix_refl _, List.prefix_refl _⟩,
    List.prefix_refl _, List.prefix_refl _⟩

omit [NeZero n] [NeZero k] [NeZero u] in
theorem Onward.trans (h : Onward s s') (h' : Onward s' s₁) : Onward s s₁ :=
  ⟨⟨h.requests.1.trans h'.requests.1, h.requests.2.trans h'.requests.2⟩,
    ⟨h.responses.1.trans h'.responses.1, h.responses.2.trans h'.responses.2⟩,
    h.updates.1.trans h'.updates.1, h.updates.2.trans h'.updates.2⟩

/-- **A step takes nothing back:** it pushes to a ring, pops from one, or leaves
the rings as they are. -/
theorem onward_of_step (hs : step s a = .ok s') : Onward s s' := by
  have h := Onward.refl s
  cases a with
  | takeResponse =>
    obtain rfl := Except.ok.inj hs
    exact ⟨h.requests, Channel.prefix_pop, h.updates⟩
  | takeUpdate =>
    obtain rfl := Except.ok.inj hs
    exact ⟨h.requests, h.responses, Channel.prefix_pop⟩
  | stop =>
    obtain rfl := Except.ok.inj hs
    exact ⟨h.requests, h.responses, h.updates⟩
  | addRequest request timestamp =>
    simp only [step] at hs
    split at hs
    · obtain ⟨sequencer, -, hs⟩ := bind_eq_ok.1 hs
      obtain rfl := Except.ok.inj hs
      exact ⟨h.requests, h.responses, h.updates⟩
    · cases hs
  | process =>
    simp only [step] at hs
    split at hs
    · obtain ⟨exchange, -, hs⟩ := bind_eq_ok.1 hs
      obtain rfl := Except.ok.inj hs
      exact ⟨h.requests, h.responses, h.updates⟩
    · cases hs
  | publish =>
    simp only [step] at hs
    split at hs
    · cases hs
    · obtain rfl := Except.ok.inj hs
      exact ⟨Channel.prefix_push _, h.responses, h.updates⟩
  | pop =>
    simp only [step] at hs
    split at hs
    · obtain rfl := Except.ok.inj hs
      exact ⟨Channel.prefix_pop, h.responses, h.updates⟩
    · cases hs
  | respond =>
    simp only [step] at hs
    split at hs
    · obtain rfl := Except.ok.inj hs
      exact ⟨h.requests, Channel.prefix_push _, h.updates⟩
    · cases hs
  | update =>
    simp only [step] at hs
    split at hs
    · obtain rfl := Except.ok.inj hs
      exact ⟨h.requests, h.responses, Channel.prefix_push _⟩
    · cases hs
  | sequence | start | join | test | done =>
    simp only [step] at hs
    split at hs
    all_goals first
      | (obtain rfl := Except.ok.inj hs
         exact ⟨h.requests, h.responses, h.updates⟩)
      | cases hs

/-- A step that is not a pop leaves the requests popped, and puts none under
way. -/
theorem underWay_of_step (ha : a ≠ .pop) (hs : step s a = .ok s') :
    s'.requests.popped = s.requests.popped ∧ s'.phase.underWay ≤ s.phase.underWay := by
  cases a with
  | pop => exact absurd rfl ha
  | addRequest request timestamp =>
    simp only [step] at hs
    split at hs
    · obtain ⟨sequencer, -, hs⟩ := bind_eq_ok.1 hs
      obtain rfl := Except.ok.inj hs
      exact ⟨rfl, le_rfl⟩
    · cases hs
  | process =>
    simp only [step] at hs
    split at hs
    · rename_i hphase _
      obtain ⟨exchange, -, hs⟩ := bind_eq_ok.1 hs
      obtain rfl := Except.ok.inj hs
      exact ⟨rfl, by rw [hphase]; exact le_rfl⟩
    · cases hs
  | test =>
    simp only [step] at hs
    split at hs
    · obtain rfl := Except.ok.inj hs
      refine ⟨rfl, ?_⟩
      dsimp only
      split_ifs <;> exact Nat.zero_le _
    · cases hs
  | stop | takeResponse | takeUpdate =>
    obtain rfl := Except.ok.inj hs
    exact ⟨rfl, le_rfl⟩
  | start | join | done =>
    simp only [step] at hs
    split at hs
    all_goals first
      | (obtain rfl := Except.ok.inj hs
         exact ⟨rfl, Nat.zero_le _⟩)
      | cases hs
  | sequence | publish | respond | update =>
    simp only [step] at hs
    split at hs
    all_goals first
      | (obtain rfl := Except.ok.inj hs
         exact ⟨rfl, le_rfl⟩)
      | cases hs

/-- What was answered stays answered. -/
theorem Serves.answered_mono (h : Serves e₀ b s) (hs : Pipeline.step s a = .ok s') :
    s.answered ≤ s'.answered := by
  by_cases ha : a = .pop
  · subst ha
    simp only [Pipeline.step] at hs
    split at hs
    · rename_i hphase
      obtain rfl := Except.ok.inj hs
      rcases h.requests.pop_cases with ⟨-, hitem, hpopped, -⟩ | ⟨x, rest, -, hitem, hpopped, -⟩
      · simp [System.answered, hphase, hitem, hpopped, Phase.underWay]
      · simp [System.answered, hphase, Option.isSome_iff_ne_none.2 hitem, hpopped, Phase.underWay]
    · cases hs
  · obtain ⟨hpopped, hunder⟩ := underWay_of_step ha hs
    rw [System.answered, System.answered, hpopped]
    omega

/-! ### What the answered requests led to -/

/-- The messages of the requests that were answered are in their rings. -/
def Answers (e₀ : Exchange m l) (s : System m l n k u) : Prop :=
  ∃ e, e₀.run (s.requests.popped.take s.answered) = .ok e ∧
    e.responses <+: s.responses.pushed ∧ e.updates <+: s.updates.pushed

/-- Before the thread pushes, every request processed is answered. -/
theorem Serves.answers (h : Serves e₀ b s) (hphase : s.phase ≠ .pushing) : Answers e₀ s := by
  obtain ⟨hresp, hupd⟩ := h.between hphase
  refine ⟨s.exchange, ?_, hresp ▸ List.prefix_refl _, hupd ▸ List.prefix_refl _⟩
  refine Eq.trans (congrArg e₀.run ?_) h.ran
  rw [System.answered, System.processed]
  cases hp : s.phase with
  | pushing => exact absurd hp hphase
  | processing => rw [if_pos rfl, List.dropLast_eq_take, Phase.underWay]
  | _ => simp [Phase.underWay]

/-- **A step keeps** what was answered in the rings, and puts there what it
answers. -/
theorem Answers.step (h : Answers e₀ s) (h' : Serves e₀ b s') (hs : Pipeline.step s a = .ok s') :
    Answers e₀ s' := by
  by_cases hphase : s'.phase = .pushing
  · have ha : a ≠ .pop := by
      rintro rfl
      simp only [Pipeline.step] at hs
      split at hs
      · obtain rfl := Except.ok.inj hs
        dsimp only at hphase
        split_ifs at hphase
      · cases hs
    obtain ⟨hpopped, hunder⟩ := underWay_of_step ha hs
    obtain ⟨e, he, hresp, hupd⟩ := h
    have hone : s.phase.underWay = 1 := by
      rw [hphase] at hunder
      cases hp : s.phase <;> simp_all [Phase.underWay]
    have hanswered : s'.answered = s.answered := by
      rw [System.answered, System.answered, hpopped, hone, hphase]
      rfl
    have honward := onward_of_step hs
    refine ⟨e, by rw [hpopped, hanswered, he], hresp.trans honward.responses.1,
      hupd.trans honward.updates.1⟩
  · exact h'.answers hphase

/-- The messages of some requests are the beginning of those of more requests. -/
theorem prefix_of_run (h₀ : Exchange.new m l tickerIds clock = .ok e₀)
    {done more : List ClientRequest} {e : Exchange m l} (h : e₀.run (done ++ more) = .ok e) :
    ∃ e', e₀.run done = .ok e' ∧ e'.responses <+: e.responses ∧ e'.updates <+: e.updates := by
  induction more using List.reverseRecOn generalizing e with
  | nil =>
    rw [List.append_nil] at h
    exact ⟨e, h, List.prefix_refl _, List.prefix_refl _⟩
  | append_singleton more request ih =>
    rw [← List.append_assoc] at h
    obtain ⟨e₁, he₁, hreq⟩ := foldlM_concat_eq_ok.1 h
    obtain ⟨e', he', hresp, hupd⟩ := ih he₁
    obtain ⟨hresp', hupd'⟩ := prefix_of_processRequest (Exchange.booked_of_run h₀ he₁) hreq
    exact ⟨e', he', hresp.trans hresp', hupd.trans hupd'⟩

/-! ### Work that is done in time -/

/-- What holds of the pipeline from the state `s₀` on. -/
structure Working (e₀ : Exchange m l) (s₀ s : System m l n k u) : Prop where
  serves : ∃ b, Serves e₀ b s
  answers : Answers e₀ s
  onward : Onward s₀ s

/-- A step that finds room keeps what holds of the pipeline since `s₀`. -/
theorem Working.step (h₀ : Exchange.new m l tickerIds clock = .ok e₀) (h : Working e₀ s₀ s)
    (hc : Allowed s a) (hs : Pipeline.step s a = .ok s') : Working e₀ s₀ s' := by
  obtain ⟨b, hserves⟩ := h.serves
  have hserves' := hserves.step h₀ hc hs
  exact ⟨⟨_, hserves'⟩, h.answers.step hserves' hs, h.onward.trans (onward_of_step hs)⟩

/-- A run whose pushes find room keeps it as well. -/
theorem Working.run (h₀ : Exchange.new m l tickerIds clock = .ok e₀) (h : Working e₀ s₀ s)
    (hc : EachStep Pipeline.step Allowed s later)
    (hrun : later.foldlM Pipeline.step s = .ok s') : Working e₀ s₀ s' :=
  foldlM_invariant h (fun _ _ _ hw hc hs => hw.step h₀ hc hs) hc hrun

theorem Working.start (h : Working e₀ s₀ s) : Working e₀ s s := { h with onward := .refl s }

/-- Every state that is reached can be the first of the two. -/
theorem working_of_run (h₀ : Exchange.new m l tickerIds clock = .ok e₀)
    (hc : EachStep step Allowed (init e₀ : System m l n k u) actions)
    (h : actions.foldlM step (init e₀) = .ok s) : Working e₀ s s := by
  have hfresh := (Exchange.new_ok h₀).1
  have hinit : Serves e₀ ([], []) (init e₀ : System m l n k u) :=
    .init hfresh.responses hfresh.updates
  have hworking : Working e₀ (init e₀ : System m l n k u) (init e₀) :=
    ⟨⟨_, hinit⟩, hinit.answers (by simp [init]), .refl _⟩
  exact (hworking.run h₀ hc h).start

/-- **The requests are answered** when the loop has made enough passes. -/
theorem Working.answered (h₀ : Exchange.new m l tickerIds clock = .ok e₀) (h : Working e₀ s s)
    (hc : EachStep Pipeline.step Allowed s later)
    (hrun : later.foldlM Pipeline.step s = .ok s')
    (hpasses : s.requests.pushed.length + weight Action.stops later + 2 ≤
      s.requests.popped.length + weight Action.passes later) :
    ∃ e, e₀.run s.requests.pushed = .ok e ∧ e.responses <+: s'.responses.pushed ∧
      e.updates <+: s'.updates.pushed := by
  have hworking := h.run h₀ hc hrun
  have hanswered : s.requests.pushed.length ≤ s'.answered := by
    rcases foldlM_progress (P := Working e₀ s)
      (Q := fun s' => s.requests.pushed.length ≤ s'.answered) System.level Action.passes
      Action.stops h (fun _ _ _ hw hc hs => hw.step h₀ hc hs)
      (fun _ _ _ hw hQ hs => hQ.trans (hw.serves.choose_spec.answered_mono hs))
      (fun _ _ _ hw hs => hw.serves.choose_spec.level_le hw.onward.requests.1.length_le hs)
      hc hrun with hQ | hle
    · exact hQ
    · have hpopped := popped_le_level s
      have hlevel := level_le_answered s'
      omega
  obtain ⟨e, he, hresp, hupd⟩ := hworking.answers
  obtain ⟨b, hserves⟩ := hworking.serves
  have hbeginning : s.requests.pushed <+: s'.requests.popped.take s'.answered := by
    refine List.prefix_of_prefix_length_le hworking.onward.requests.1
      ((List.take_prefix _ _).trans hserves.requests.isPrefix) ?_
    rw [List.length_take, System.answered] at *
    omega
  obtain ⟨more, hmore⟩ := hbeginning
  rw [← hmore] at he
  obtain ⟨e', he', hresp', hupd'⟩ := prefix_of_run h₀ he
  exact ⟨e', he', hresp'.trans hresp, hupd'.trans hupd⟩

/-- **The messages are read** when as many were taken as were in their ring. -/
theorem Working.read {T : Type} {c : ℕ} [NeZero c] (ring : System m l n k u → Channel T c)
    (takes : Action → ℕ) (hcarries : ∀ b s, Serves e₀ b s → (ring s).Carries)
    (honward : ∀ s s', Onward s s' →
      (ring s).pushed <+: (ring s').pushed ∧ (ring s).popped <+: (ring s').popped)
    (htakes : ∀ s a s', Pipeline.step s a = .ok s' →
      takes a = 0 ∨ takes a = 1 ∧ ring s' = (ring s).pop)
    (h₀ : Exchange.new m l tickerIds clock = .ok e₀) (h : Working e₀ s s)
    (hc : EachStep Pipeline.step Allowed s later)
    (hrun : later.foldlM Pipeline.step s = .ok s')
    (henough : (ring s).pushed.length ≤ (ring s).popped.length + weight takes later) :
    (ring s).pushed <+: (ring s').popped := by
  have hworking := h.run h₀ hc hrun
  have hrise : ∀ s₁ a s₂, Working e₀ s s₁ → Pipeline.step s₁ a = .ok s₂ →
      (ring s).pushed.length ≤ (ring s₂).popped.length ∨
        (ring s₁).popped.length + takes a ≤ (ring s₂).popped.length + 0 := by
    intro s₁ a s₂ hw hs
    rcases htakes s₁ a s₂ hs with hnone | ⟨hone, hpop⟩
    · rw [hnone]
      exact Or.inr (honward _ _ (onward_of_step hs)).2.length_le
    · rw [hone, hpop]
      obtain ⟨b, hserves⟩ := hw.serves
      rcases (hcarries b s₁ hserves).pop_cases with ⟨hall, -, hpopped, -⟩ | ⟨x, rest, -, -, hx, -⟩
      · rw [hpopped, hall]
        exact Or.inl (honward _ _ hw.onward).1.length_le
      · rw [hx, List.length_append]
        exact Or.inr le_rfl
  have hread : (ring s).pushed.length ≤ (ring s').popped.length := by
    rcases foldlM_progress (P := Working e₀ s)
      (Q := fun s' => (ring s).pushed.length ≤ (ring s').popped.length)
      (fun s => (ring s).popped.length) takes (fun _ => 0) h
      (fun _ _ _ hw hc hs => hw.step h₀ hc hs)
      (fun _ _ _ _ hQ hs => hQ.trans (honward _ _ (onward_of_step hs)).2.length_le)
      hrise hc hrun with hQ | hle
    · exact hQ
    · rw [weight_zero] at hle
      omega
  obtain ⟨b, hserves⟩ := hworking.serves
  exact List.prefix_of_prefix_length_le (honward _ _ hworking.onward).1
    (hcarries b s' hserves).isPrefix hread

/-- A response is taken. -/
def Action.takesResponse : Action → ℕ
  | .takeResponse => 1
  | _ => 0

/-- An update is taken. -/
def Action.takesUpdate : Action → ℕ
  | .takeUpdate => 1
  | _ => 0

/-- A step takes one response or none. -/
theorem takesResponse_cases (hs : step s a = .ok s') :
    a.takesResponse = 0 ∨ a.takesResponse = 1 ∧ s'.responses = s.responses.pop := by
  cases a with
  | takeResponse =>
    obtain rfl := Except.ok.inj hs
    exact Or.inr ⟨rfl, rfl⟩
  | _ => exact Or.inl rfl

/-- A step takes one update or none. -/
theorem takesUpdate_cases (hs : step s a = .ok s') :
    a.takesUpdate = 0 ∨ a.takesUpdate = 1 ∧ s'.updates = s.updates.pop := by
  cases a with
  | takeUpdate =>
    obtain rfl := Except.ok.inj hs
    exact Or.inr ⟨rfl, rfl⟩
  | _ => exact Or.inl rfl

/-! ### The steps of the thread -/

/-- The thread of the exchange makes a step. -/
def Action.steps : Action → ℕ
  | .test | .pop | .process | .respond | .update | .done => 1
  | _ => 0

/-- The steps of a pass that are behind the thread, but for its pushes. -/
def Phase.behind : Phase → ℕ
  | .popping => 0
  | .processing => 1
  | .pushing => 2
  | _ => 3

/-- The messages pushed, and the steps of the pass behind the thread. -/
def System.steps (s : System m l n k u) : ℕ :=
  s.responses.pushed.length + s.updates.pushed.length + s.phase.behind

/-- **Every step of the thread** is a push or brings it on in its pass. -/
theorem steps_le (hs : step s a = .ok s') :
    s.steps + a.steps ≤ s'.steps + 4 * a.passes := by
  cases a with
  | stop | takeResponse | takeUpdate =>
    obtain rfl := Except.ok.inj hs
    exact le_rfl
  | addRequest request timestamp =>
    simp only [step] at hs
    split at hs
    · obtain ⟨sequencer, -, hs⟩ := bind_eq_ok.1 hs
      obtain rfl := Except.ok.inj hs
      exact le_rfl
    · cases hs
  | process =>
    simp only [step] at hs
    split at hs
    · rename_i hphase _
      obtain ⟨exchange, -, hs⟩ := bind_eq_ok.1 hs
      obtain rfl := Except.ok.inj hs
      simp only [System.steps, hphase]
      exact le_rfl
    · cases hs
  | pop =>
    simp only [step] at hs
    split at hs
    · rename_i hphase
      obtain rfl := Except.ok.inj hs
      simp only [System.steps, hphase]
      split_ifs <;> simp only [Phase.behind, Action.steps] <;> omega
    · cases hs
  | test =>
    simp only [step] at hs
    split at hs
    · rename_i hphase
      obtain rfl := Except.ok.inj hs
      simp only [System.steps, hphase, Action.steps, Action.passes]
      split_ifs <;> simp only [Phase.behind] <;> omega
    · cases hs
  | respond | update =>
    simp only [step] at hs
    split at hs
    · obtain rfl := Except.ok.inj hs
      simp only [System.steps, Channel.pushed_push, List.length_append, List.length_singleton,
        Action.steps]
      omega
    · cases hs
  | start | join | done | sequence | publish =>
    simp only [step] at hs
    split at hs
    all_goals first
      | (obtain rfl := Except.ok.inj hs
         simp_all [System.steps, Phase.behind, Action.steps, Action.passes])
      | cases hs

/-- **The steps of a run** are counted by its pushes and its passes, of four
steps each. -/
theorem steps_of_run (hrun : later.foldlM step s = .ok s') :
    s.steps + weight Action.steps later ≤ s'.steps + 4 * weight Action.passes later := by
  have hall : EachStep step (fun _ _ => True) s later := .of_prefixes fun _ _ _ _ _ _ _ => trivial
  rw [← weight_mul]
  rcases foldlM_progress (P := fun _ => True) (Q := fun _ => False) System.steps Action.steps
    (fun a => 4 * a.passes) trivial (fun _ _ _ _ _ _ => trivial) (fun _ _ _ _ hQ _ => hQ)
    (fun _ _ _ _ hs => Or.inr (steps_le hs)) hall hrun with hQ | hle
  · exact hQ.elim
  · exact hle

/-- **The thread is never stuck:** wherever it is in its loop, a step of its own
is the next. -/
theorem Serves.ready (h : Serves e₀ b s) (hjoined : s.phase ≠ .joined) (hended : s.phase ≠ .ended) :
    ∃ a : Action, a.OfExchange ∧ Pipeline.step s a ≠ .error .outOfTurn := by
  cases hphase : s.phase with
  | joined => exact absurd hphase hjoined
  | ended => exact absurd hphase hended
  | testing => exact ⟨.test, trivial, by simp [Pipeline.step, hphase]⟩
  | popping => exact ⟨.pop, trivial, by simp [Pipeline.step, hphase]⟩
  | processing =>
    obtain ⟨-, request, -, hread⟩ := h.requests.read_eq (h.inHand hphase)
    refine ⟨.process, trivial, ?_⟩
    simp only [Pipeline.step, hphase, hread]
    cases s.exchange.processRequest request <;> simp [Except.mapError]
  | pushing =>
    cases hresp : s.exchange.responses[s.responses.pushed.length]? with
    | some response => exact ⟨.respond, trivial, by simp [Pipeline.step, hphase, hresp]⟩
    | none =>
      cases hupd : s.exchange.updates[s.updates.pushed.length]? with
      | some update => exact ⟨.update, trivial, by simp [Pipeline.step, hphase, hupd]⟩
      | none => exact ⟨.done, trivial, by simp [Pipeline.step, hphase, hresp, hupd]⟩

/-! ### Runs -/

/-- The loop makes as many passes as there are requests in the ring, one for each
stop, and two more; then the messages that are in the rings are taken. -/
structure Enough (s : System m l n k u) (working : List Action) (s₁ : System m l n k u)
    (reading : List Action) : Prop where
  passes : s.requests.pushed.length + weight Action.stops working + 2 ≤
    s.requests.popped.length + weight Action.passes working
  responses : s₁.responses.pushed.length ≤
    s₁.responses.popped.length + weight Action.takesResponse reading
  updates : s₁.updates.pushed.length ≤
    s₁.updates.popped.length + weight Action.takesUpdate reading

instance (s s₁ : System m l n k u) (working reading : List Action) :
    Decidable (Enough s working s₁ reading) :=
  decidable_of_iff (_ ∧ _ ∧ _) ⟨fun h => ⟨h.1, h.2.1, h.2.2⟩, fun h => ⟨h.1, h.2, h.3⟩⟩

/-- **No request waits for ever.**  In every state that is reached while pushes
find room, the thread of the exchange has a step to make while it is in its
loop, and makes no more than four and its pushes in a pass.  Whatever the
threads do from there, while pushes find room, after enough passes and enough
takes every request that was in the ring is answered, and the clients have read
all that came of it. -/
theorem prompt_of_run (h₀ : Exchange.new m l tickerIds clock = .ok e₀)
    (hc : EachStep step Allowed (init e₀ : System m l n k u) actions)
    (h : actions.foldlM step (init e₀) = .ok s) :
    (s.phase ≠ .joined → s.phase ≠ .ended →
      ∃ a : Action, a.OfExchange ∧ step s a ≠ .error .outOfTurn) ∧
    ∀ working s₁, EachStep step Allowed s working → working.foldlM step s = .ok s₁ →
      s.steps + weight Action.steps working ≤ s₁.steps + 4 * weight Action.passes working ∧
      ∀ reading s₂, EachStep step Allowed s₁ reading → reading.foldlM step s₁ = .ok s₂ →
        Enough s working s₁ reading →
        ∃ e, e₀.run s.requests.pushed = .ok e ∧ e.responses <+: s₂.responses.popped ∧
          e.updates <+: s₂.updates.popped := by
  have hworking := working_of_run h₀ hc h
  refine ⟨hworking.serves.choose_spec.ready, fun working s₁ hcw hw => ⟨steps_of_run hw, ?_⟩⟩
  intro reading s₂ hcr hr henough
  obtain ⟨e, he, hresp, hupd⟩ := hworking.answered h₀ hcw hw henough.passes
  have hworking₁ := (hworking.run h₀ hcw hw).start
  have hreadResp := hworking₁.read (·.responses) Action.takesResponse
    (fun _ _ hs => hs.responses) (fun _ _ ho => ho.responses)
    (fun _ _ _ hs => takesResponse_cases hs) h₀ hcr hr henough.responses
  have hreadUpd := hworking₁.read (·.updates) Action.takesUpdate
    (fun _ _ hs => hs.updates) (fun _ _ ho => ho.updates)
    (fun _ _ _ hs => takesUpdate_cases hs) h₀ hcr hr henough.updates
  exact ⟨e, he, hresp.trans hreadResp, hupd.trans hreadUpd⟩

/-- The offer is in hand and the bid in the ring. -/
def waitingActions : List Action :=
  [.addRequest sampleBid 7, .start, .addRequest sampleOffer 5, .sequence (.favouring {}), .publish,
    .test, .publish, .pop]

/-- Both are processed, and the loop goes around once more. -/
def workingActions : List Action :=
  [.process, .update, .respond, .done, .test, .takeUpdate, .pop, .process, .respond, .update,
    .respond, .respond, .update, .done, .test, .pop, .test, .pop]

/-- The messages are taken. -/
def readingActions : List Action :=
  [.takeResponse, .takeUpdate, .takeResponse, .takeResponse, .test, .takeUpdate, .takeResponse]

/-- The three parts of the interleaving run to their ends, find room, and are
long enough. -/
theorem waitingActions_returns :
    ∃ e₀, Exchange.new maxOrderIds maxPriceLevels [1] (fun _ => 0) = .ok e₀ ∧
      EachStep step Allowed (init e₀ : System _ _ 4 8 8) waitingActions ∧
      ∃ s, waitingActions.foldlM step (init e₀ : System _ _ 4 8 8) = .ok s ∧
        EachStep step Allowed s workingActions ∧
        ∃ s₁, workingActions.foldlM step s = .ok s₁ ∧ EachStep step Allowed s₁ readingActions ∧
          Enough s workingActions s₁ readingActions ∧
          ∃ s₂, readingActions.foldlM step s₁ = .ok s₂ ∧ s.requests.popped.length = 1 := by
  decide +kernel

/-- The three parts are an instance. -/
theorem prompt_of_waitingActions :
    ∃ (e₀ e : Exchange maxOrderIds maxPriceLevels) (s s₁ s₂ : System _ _ 4 8 8),
      waitingActions.foldlM step (init e₀) = .ok s ∧ workingActions.foldlM step s = .ok s₁ ∧
      readingActions.foldlM step s₁ = .ok s₂ ∧ e₀.run s.requests.pushed = .ok e ∧
      e.responses <+: s₂.responses.popped ∧ e.updates <+: s₂.updates.popped := by
  obtain ⟨e₀, h₀, hc, s, h, hcw, s₁, hw, hcr, henough, s₂, hr, -⟩ := waitingActions_returns
  obtain ⟨e, he⟩ := ((prompt_of_run h₀ hc h).2 _ s₁ hcw hw).2 _ s₂ hcr hr henough
  exact ⟨e₀, e, s, s₁, s₂, h, hw, hr, he⟩

end Pipeline

end CppExchange
