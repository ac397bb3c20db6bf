import CppExchange.EndToEnd
import CppExchange.Markets

/-!
# What the clients of the pipeline read

The sequencer, the rings, the thread of the exchange and its books put together.
As long as the pushes find room and the requests are regular, no interleaving
ends the program, unless a pool of a book runs out, and what the clients have read
is, for each ticker and but for timestamps and trade ids, a beginning of what the
reference book sends for the requests in the order in which they were taken
(`reads_of_run`).
-/

namespace CppExchange

open Library

namespace Pipeline

variable {m l n k u : ℕ} [NeZero n] [NeZero k] [NeZero u] {e₀ : Exchange m l}
  {tickerIds : List TickerIdT} {clock : ℕ → NsTimestampT}
  {b : List (List ReceiveTimeClientRequest) × List ReceiveTimeClientRequest}
  {s s' : System m l n k u} {actions : List Action} {a : Action} {halt : Halt}
  {request : ClientRequest} {t : TickerIdT}

/-- The request that is processed is regular: for a ticker of the exchange, to
buy or to sell if it adds an order, and any level it creates opens in front. -/
def Orderly (s : System m l n k u) : Action → Prop
  | .process => ∀ request ∈ s.requests.read, s.exchange.Regular request
  | _ => True

instance (s : System m l n k u) : ∀ a : Action, Decidable (Orderly s a)
  | .process => inferInstanceAs (Decidable (∀ request ∈ s.requests.read, _))
  | .addRequest _ _ | .sequence _ | .publish | .start | .stop | .join | .test | .pop | .respond
  | .update | .done | .takeResponse | .takeUpdate => .isTrue trivial

/-- For every ticker, what was read from the rings is a beginning of what the
reference book sends for the requests processed, up to timestamps and the ids of
trades, and all of it when nothing is under way. -/
structure Reads (s : System m l n k u) : Prop where
  responses : ∀ t, (responsesFor t s.responses.popped).map ClientResponse.untimed <+:
    (Exchange.reference t s.processed).announced t
  updates : ∀ t, (updatesFor t s.updates.popped).map MarketUpdate.unnumbered <+:
    ((Exchange.reference t s.processed).published t).map MarketUpdate.unnumbered
  quiet : Quiet s → ∀ t, (responsesFor t s.responses.popped).map ClientResponse.untimed =
      (Exchange.reference t s.processed).announced t ∧
    (updatesFor t s.updates.popped).map MarketUpdate.unnumbered =
      ((Exchange.reference t s.processed).published t).map MarketUpdate.unnumbered

/-! ### The steps -/

omit [NeZero n] [NeZero k] [NeZero u] in
theorem processed_of_idle (h : s.phase ≠ .processing) : s.processed = s.requests.popped :=
  if_neg h

omit [NeZero n] [NeZero k] [NeZero u] in
/-- The requests processed are the same when no request was popped, and none is
in hand that was not, or the other way round. -/
theorem processed_congr (hpopped : s'.requests.popped = s.requests.popped)
    (hphase : s'.phase = .processing ↔ s.phase = .processing) : s'.processed = s.processed := by
  simp only [System.processed, hpopped, hphase]

/-- A pop puts a request in hand, or does not find one. -/
theorem processed_pop (h : Serves e₀ b s) (hs : step s .pop = .ok s') :
    s'.processed = s.processed ∧ s'.exchange = s.exchange := by
  simp only [step] at hs
  split at hs
  · rename_i hphase
    obtain rfl := Except.ok.inj hs
    refine ⟨?_, rfl⟩
    rw [processed_of_idle (s := s) (by simp [hphase]), System.processed]
    rcases h.requests.pop_cases with ⟨-, hitem, hpopped, -⟩ | ⟨x, rest, -, hitem, hpopped, -⟩
    · rw [if_neg (by simp [hitem])]
      exact hpopped
    · rw [if_pos (by simp [Option.isSome_iff_ne_none.2 hitem])]
      simp only [hpopped, List.dropLast_concat]
  · cases hs

/-- **The request in hand is processed.** -/
theorem processed_process (h : Serves e₀ b s) (hs : step s .process = .ok s') :
    ∃ request, s.requests.read = some request ∧ s'.processed = s.processed ++ [request] ∧
      s.exchange.processRequest request = .ok s'.exchange := by
  simp only [step] at hs
  split at hs
  · rename_i request hphase hread
    obtain ⟨xs, x, hpopped, hx⟩ := h.requests.read_eq (h.inHand hphase)
    obtain rfl : request = x := Option.some.inj (hread.symm.trans hx)
    obtain ⟨exchange, hreq, hs⟩ := bind_eq_ok.1 hs
    obtain rfl := Except.ok.inj hs
    refine ⟨request, hread, ?_, mapError_eq_ok.1 hreq⟩
    rw [processed_of_idle (by simp), System.processed, if_pos hphase, hpopped, List.dropLast_concat]
  · cases hs

/-- **The other steps** process no request. -/
theorem processed_step (h : Serves e₀ b s) (ha : a ≠ .process) (hs : step s a = .ok s') :
    s'.processed = s.processed ∧ s'.exchange = s.exchange := by
  cases a with
  | process => exact absurd rfl ha
  | pop => exact processed_pop h hs
  | addRequest request timestamp =>
    simp only [step] at hs
    split at hs
    · obtain ⟨sequencer, -, hs⟩ := bind_eq_ok.1 hs
      obtain rfl := Except.ok.inj hs
      exact ⟨processed_congr rfl Iff.rfl, rfl⟩
    · cases hs
  | stop =>
    obtain rfl := Except.ok.inj hs
    exact ⟨processed_congr rfl Iff.rfl, rfl⟩
  | takeResponse =>
    obtain rfl := Except.ok.inj hs
    exact ⟨processed_congr rfl Iff.rfl, rfl⟩
  | takeUpdate =>
    obtain rfl := Except.ok.inj hs
    exact ⟨processed_congr rfl Iff.rfl, rfl⟩
  | sequence std =>
    simp only [step] at hs
    split at hs
    · obtain rfl := Except.ok.inj hs
      exact ⟨processed_congr rfl Iff.rfl, rfl⟩
    · cases hs
  | publish =>
    simp only [step] at hs
    split at hs
    · cases hs
    · obtain rfl := Except.ok.inj hs
      exact ⟨processed_congr rfl Iff.rfl, rfl⟩
  | test =>
    simp only [step] at hs
    split at hs
    · rename_i hphase
      obtain rfl := Except.ok.inj hs
      refine ⟨processed_congr rfl ?_, rfl⟩
      simp only [hphase]
      split_ifs <;> simp
    · cases hs
  | start | join | respond | update | done =>
    simp only [step] at hs
    split at hs
    · obtain rfl := Except.ok.inj hs
      exact ⟨processed_congr rfl (by simp [*]), rfl⟩
    · cases hs

/-- The pipeline serves, and the books are the reference books for the requests
processed. -/
structure Faithful (e₀ : Exchange m l) (s : System m l n k u) : Prop where
  serves : ∃ b, Serves e₀ b s
  refines : Exchange.Refines s.processed s.exchange

/-- **Every step** that finds room and opens levels in front keeps the books
those of the reference. -/
theorem Faithful.step (h₀ : Exchange.new m l tickerIds clock = .ok e₀) (h : Faithful e₀ s)
    (hc : Allowed s a) (hr : Orderly s a) (hs : step s a = .ok s') : Faithful e₀ s' := by
  obtain ⟨b, hserves⟩ := h.serves
  refine ⟨⟨_, hserves.step h₀ hc hs⟩, ?_⟩
  by_cases ha : a = .process
  · subst ha
    obtain ⟨request, hread, hprocessed, hreq⟩ := processed_process hserves hs
    rw [hprocessed]
    rcases h.refines.step (hr request hread) with ⟨e, he, href⟩ | hfull
    · obtain rfl := Except.ok.inj (hreq.symm.trans he)
      exact href
    · rw [hreq] at hfull
      cases hfull
  · obtain ⟨hprocessed, hexchange⟩ := processed_step hserves ha hs
    rw [hprocessed, hexchange]
    exact h.refines

/-- **Why a step is not made:** it is not its turn, or a pool runs out. -/
theorem Faithful.error (h : Faithful e₀ s) (hc : Allowed s a) (hr : Orderly s a)
    (hs : Pipeline.step s a = .error halt) :
    halt = .outOfTurn ∨ halt = .fault bufferIsFull := by
  cases a with
  | process =>
    simp only [Pipeline.step] at hs
    split at hs
    · rename_i request hphase hread
      rcases h.refines.step (hr request hread) with ⟨e, he, -⟩ | hfull
      · rw [he] at hs
        cases hs
      · rw [hfull] at hs
        exact Or.inr (Except.error.inj hs).symm
    · exact Or.inl (Except.error.inj hs).symm
  | addRequest request timestamp =>
    simp only [Pipeline.step] at hs
    split at hs
    · obtain ⟨sequencer, hseq, -⟩ := FifoSequencer.addRequest_ok s.sequencer request timestamp
        (by rwa [FifoSequencer.length_pending])
      rw [hseq] at hs
      cases hs
    · exact Or.inl (Except.error.inj hs).symm
  | stop | takeResponse | takeUpdate => cases hs
  | publish =>
    simp only [Pipeline.step] at hs
    split at hs
    · exact Or.inl (Except.error.inj hs).symm
    · cases hs
  | sequence | start | join | test | pop | respond | update | done =>
    simp only [Pipeline.step] at hs
    split at hs
    · cases hs
    · exact Or.inl (Except.error.inj hs).symm

/-! ### Runs -/

section Runs

variable (hm : 0 < m) (hl : 0 < l) (h₀ : Exchange.new m l tickerIds clock = .ok e₀)
  (hc : EachStep step Allowed (init e₀ : System m l n k u) actions)
  (hr : EachStep step Orderly (init e₀ : System m l n k u) actions)

include hm hl h₀

theorem faithful_init : Faithful e₀ (init e₀ : System m l n k u) := by
  have hfresh := (Exchange.new_ok h₀).1
  exact ⟨⟨_, .init hfresh.responses hfresh.updates⟩, hfresh.refines hm hl⟩

include hc hr

theorem faithful_of_run (h : actions.foldlM step (init e₀) = .ok s) : Faithful e₀ s :=
  foldlM_invariant (faithful_init hm hl h₀) (fun _ _ _ hf hcr hs => hf.step h₀ hcr.1 hcr.2 hs)
    (hc.and hr) h

/-- A step that cannot be made is out of turn, but for a request that finds a
pool of its book used up. -/
theorem halt_of_run (h : actions.foldlM step (init e₀ : System m l n k u) = .error halt) :
    halt = .outOfTurn ∨ halt = .fault bufferIsFull := by
  by_contra hne
  refine foldlM_ne_error (P := Faithful e₀) (faithful_init hm hl h₀)
    (fun _ _ _ hf hcr hs => hf.step h₀ hcr.1 hcr.2 hs)
    (fun s a hf hcr hs => hne (hf.error hcr.1 hcr.2 hs)) (hc.and hr) h

/-- What an interleaving that did not fail has let the clients read: for each
ticker a beginning of what its reference book sends. -/
theorem reads_of_ok (h : actions.foldlM step (init e₀) = .ok s) : Reads s := by
  have hend := endToEnd_of_run h₀ hc h
  have href := (faithful_of_run hm hl h₀ hc hr h).refines
  refine ⟨fun t => ?_, fun t => ?_, fun hq t => ?_⟩
  · rw [← href.responses t]
    exact (hend.responses.filter _).map _
  · rw [← href.updates t]
    exact (hend.updates.filter _).map _
  · obtain ⟨-, hresp, hupd⟩ := hend.quiet hq
    rw [hresp, hupd]
    exact ⟨href.responses t, href.updates t⟩

/-- **The clients read what the reference books send.**  No interleaving of
regular requests, with room for its pushes, ends the program, unless a pool of a
book runs out; in all others that the threads can take turns in, the clients
have read, for each ticker, a beginning of what its reference book sends, but
for timestamps and trade ids, and all of it when nothing is under way. -/
theorem reads_of_run :
    (∃ s, actions.foldlM step (init e₀ : System m l n k u) = .ok s ∧ Reads s) ∨
      actions.foldlM step (init e₀ : System m l n k u) = .error .outOfTurn ∨
      actions.foldlM step (init e₀ : System m l n k u) = .error (.fault bufferIsFull) := by
  cases hrun : actions.foldlM step (init e₀ : System m l n k u) with
  | ok s => exact Or.inl ⟨s, rfl, reads_of_ok hm hl h₀ hc hr hrun⟩
  | error halt =>
    rcases halt_of_run hm hl h₀ hc hr hrun with rfl | rfl
    · exact Or.inr (Or.inl rfl)
    · exact Or.inr (Or.inr rfl)

end Runs

/-- The sample interleaving is orderly. -/
theorem orderly_of_sampleActions :
    ∃ e₀, Exchange.new maxOrderIds maxPriceLevels [1] (fun _ => 0) = .ok e₀ ∧
      EachStep step Orderly (init e₀ : System _ _ 4 8 8) sampleActions := by
  decide +kernel

/-- The sample interleaving is an instance. -/
theorem reads_of_sampleActions :
    ∃ (e₀ : Exchange maxOrderIds maxPriceLevels) (s : System _ _ 4 8 8),
      sampleActions.foldlM step (init e₀) = .ok s ∧ Reads s := by
  obtain ⟨e₀, h₀, -, hc, s, h, -⟩ := sampleActions_returns
  obtain ⟨e₁, h₁, hr⟩ := orderly_of_sampleActions
  obtain rfl := Except.ok.inj (h₀.symm.trans h₁)
  rcases reads_of_run (by decide) (by decide) h₀ hc hr with ⟨s', h', hreads⟩ | herror | herror
  · exact ⟨e₀, s', h', hreads⟩
  all_goals
    rw [h] at herror
    cases herror

end Pipeline

end CppExchange
