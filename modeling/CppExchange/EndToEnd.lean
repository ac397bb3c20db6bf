import CppExchange.Desk
import CppExchange.Pipeline

/-!
# What comes out of the pipeline

Four results about every interleaving of the pipeline whose pushes find room.
What its consumers have read is a beginning of what the exchange computes on the
sequenced requests, one after the other, across any number of starts and stops
(`endToEnd_of_run`).  So a desk that reads the updates while the others are at
work can apply all of them, and shows the books whenever the pipeline is quiet
(`watched_of_run`).  The rings need room for no more than the number of requests
says (`allowed_of_count`).  After a `stop` at most one more request is taken, and
the thread can come to its end, unless the request in hand ends the program
(`stops_of_run`).
-/

namespace CppExchange

open Library

namespace Pipeline

variable {m l n k u : ℕ} [NeZero n] [NeZero k] [NeZero u] {e₀ : Exchange m l}
  {tickerIds : List TickerIdT} {clock : ℕ → NsTimestampT}
  {b : List (List ReceiveTimeClientRequest) × List ReceiveTimeClientRequest}
  {s s' : System m l n k u} {actions later : List Action} {a : Action} {N : ℕ}

/-- **Every interleaving whose pushes find room serves:** the exchange is where
the requests it processed have led it from `e₀`, and the rings hold what they
have still to deliver. -/
theorem serves_of_run (h₀ : Exchange.new m l tickerIds clock = .ok e₀)
    (hc : EachStep step Allowed (init e₀ : System m l n k u) actions)
    (h : actions.foldlM step (init e₀) = .ok s) : Serves e₀ (batches actions) s := by
  induction actions using List.reverseRecOn generalizing s with
  | nil =>
    obtain rfl := Except.ok.inj h
    have hfresh := (Exchange.new_ok h₀).1
    exact .init hfresh.responses hfresh.updates
  | append_singleton actions a ih =>
    obtain ⟨hcs, hca⟩ := hc.of_concat
    obtain ⟨s₁, hs₁, hs⟩ := foldlM_concat_eq_ok.1 h
    rw [batches_concat]
    exact (ih hcs hs₁).step h₀ (hca s₁ hs₁) hs

/-- Nothing is under way. -/
structure Quiet (s : System m l n k u) : Prop where
  published : s.toPublish = []
  requests : s.requests.queue.empty = true
  idle : s.phase ≠ .processing ∧ s.phase ≠ .pushing
  responses : s.responses.queue.empty = true
  updates : s.updates.queue.empty = true

/-- The requests were pushed in an order that the batches allow, were processed
in that order, and what was read is a beginning of what came of it; all of it
was read when nothing is under way. -/
structure EndToEnd (e₀ : Exchange m l) (actions : List Action) (s : System m l n k u) : Prop where
  sequenced : ∃ arranged, List.Forall₂ Delivery.Arrangement (batches actions).1 arranged ∧
    s.requests.pushed ++ s.toPublish = arranged.flatten.map (·.request)
  processed : s.processed <+: s.requests.pushed
  ran : e₀.run s.processed = .ok s.exchange
  responses : s.responses.popped <+: s.exchange.responses
  updates : s.updates.popped <+: s.exchange.updates
  quiet : Quiet s → s.processed = s.requests.pushed ∧
    s.responses.popped = s.exchange.responses ∧ s.updates.popped = s.exchange.updates

/-- What a serving system has computed and delivered, told of the actions that
led to it. -/
theorem Serves.endToEnd (h : Serves e₀ (batches actions) s) : EndToEnd e₀ actions s where
  sequenced := h.arranged
  processed := by
    refine List.IsPrefix.trans ?_ h.requests.isPrefix
    rw [System.processed]
    split_ifs
    · exact List.dropLast_prefix _
    · exact List.prefix_refl _
  ran := h.ran
  responses := h.responses.isPrefix.trans h.responded
  updates := h.updates.isPrefix.trans h.updated
  quiet hq := by
    obtain ⟨hresp, hupd⟩ := h.between hq.idle.2
    rw [System.processed, if_neg hq.idle.1]
    exact ⟨h.requests.empty_iff.1 hq.requests, (h.responses.empty_iff.1 hq.responses).trans hresp,
      (h.updates.empty_iff.1 hq.updates).trans hupd⟩

/-- **End to end.**  In every interleaving whose pushes find room, what the
consumers have read is a beginning of what the exchange computes on the requests
it has processed, these are a beginning of the requests in the order in which
they were sequenced, and when nothing is under way all of it has arrived. -/
theorem endToEnd_of_run (h₀ : Exchange.new m l tickerIds clock = .ok e₀)
    (hc : EachStep step Allowed (init e₀ : System m l n k u) actions)
    (h : actions.foldlM step (init e₀) = .ok s) : EndToEnd e₀ actions s :=
  (serves_of_run h₀ hc h).endToEnd

/-! ### The number of requests -/

/-- The number of requests that were given to the sequencer. -/
def requestsAdded (actions : List Action) : ℕ :=
  (actions.filter fun a => match a with
    | .addRequest _ _ => true
    | _ => false).length

/-- The requests given to the sequencer are in a batch, or still wait for one. -/
theorem length_batches :
    (batches actions).1.flatten.length + (batches actions).2.length = requestsAdded actions := by
  induction actions using List.reverseRecOn with
  | nil => rfl
  | append_singleton actions a ih =>
    have hadded : requestsAdded (actions ++ [a]) = requestsAdded actions + requestsAdded [a] := by
      rw [requestsAdded, List.filter_append, List.length_append]
      rfl
    rw [batches_concat, hadded, ← ih]
    cases a with
    | addRequest request timestamp =>
      simp only [Action.call?, Delivery.collect, List.length_append, List.length_singleton]
      exact Nat.add_assoc _ _ 1
    | sequence std =>
      simp only [Action.call?, Delivery.collect, List.flatten_append, List.length_append,
        List.flatten_singleton, List.length_nil]
      rfl
    | _ => rfl

/-- An arrangement of batches has their requests. -/
theorem length_of_arranged {done arranged : List (List ReceiveTimeClientRequest)}
    (h : List.Forall₂ Delivery.Arrangement done arranged) :
    arranged.flatten.length = done.flatten.length := by
  induction h with
  | nil => rfl
  | cons ha _ ih => rw [List.flatten_cons, List.flatten_cons, List.length_append,
      List.length_append, ha.1.length_eq, ih]

/-- The requests that were pushed were given to the sequencer. -/
theorem Serves.length_pushed_le (h : Serves e₀ (batches actions) s) :
    s.requests.pushed.length ≤ requestsAdded actions := by
  obtain ⟨arranged, hall, heq⟩ := h.arranged
  have hlen := congrArg List.length heq
  rw [List.length_append, List.length_map, length_of_arranged hall] at hlen
  have hadded : _ + (batches actions).2.length = _ := length_batches
  omega

theorem Serves.length_processed_le (h : Serves e₀ (batches actions) s) :
    s.processed.length ≤ requestsAdded actions :=
  h.endToEnd.processed.length_le.trans h.length_pushed_le

/-! ### The market data at the end of its ring -/

/-- **The market can be watched.**  In every interleaving whose pushes find
room, with fewer than `2 ^ 32` requests, a desk that reads the ring of the
updates can apply every update it has read, and when nothing is under way it
shows every book. -/
theorem watched_of_run (h₀ : Exchange.new m l tickerIds clock = .ok e₀)
    (hc : EachStep step Allowed (init e₀ : System m l n k u) actions)
    (h : actions.foldlM step (init e₀) = .ok s) (hadded : requestsAdded actions < 2 ^ 32) :
    ∃ desk, Desk.empty.replay s.updates.popped = some desk ∧ (Quiet s → desk.Shows s.exchange) := by
  have hserves := serves_of_run h₀ hc h
  have hend := hserves.endToEnd
  have hadds : (addRequests s.processed).length < 2 ^ 32 :=
    (List.length_filter_le _ _).trans_lt (hserves.length_processed_le.trans_lt hadded)
  obtain ⟨hparts, desk, hreplay, hshows⟩ := Desk.shows_of_run h₀ hend.ran hadds
  obtain ⟨desk', hdesk'⟩ := hparts _ hend.updates
  refine ⟨desk', hdesk', fun hq => ?_⟩
  rw [(hend.quiet hq).2.2, hreplay] at hdesk'
  exact Option.some.inj hdesk' ▸ hshows

/-! ### The size of the rings -/

/-- The sequencer has a place for the request. -/
def Room (s : System m l n k u) : Action → Prop
  | .addRequest _ _ => s.sequencer.pendingRequestsIndex < maxPendingRequests
  | _ => True

instance (s : System m l n k u) : ∀ a : Action, Decidable (Room s a)
  | .addRequest _ _ => inferInstanceAs (Decidable (_ < _))
  | .publish | .sequence _ | .start | .stop | .join | .test | .pop | .process | .respond | .update
  | .done | .takeResponse | .takeUpdate => .isTrue trivial

/-- Rings with a slot for each request, three for each message queue, and two to
spare, have room for every push. -/
theorem Serves.allowed (h₀ : Exchange.new m l tickerIds clock = .ok e₀)
    (h : Serves e₀ (batches actions) s) (hN : requestsAdded actions ≤ N) (hn : N + 2 ≤ n)
    (hk : 3 * N + 2 ≤ k) (hu : 3 * N + 2 ≤ u) (hroom : Room s a) : Allowed s a := by
  have hpushed := h.length_pushed_le
  have hprocessed := h.length_processed_le
  have hadds : (addRequests s.processed).length ≤ s.processed.length := List.length_filter_le _ _
  obtain ⟨hresp, hupd⟩ := Exchange.length_le_of_run h₀ h.ran
  have hresponded := h.responded.length_le
  have hupdated := h.updated.length_le
  cases a with
  | addRequest request timestamp => exact hroom
  | publish =>
    rw [Allowed, Channel.Roomy]
    omega
  | respond =>
    rw [Allowed, Channel.Roomy]
    omega
  | update =>
    rw [Allowed, Channel.Roomy]
    omega
  | _ => trivial

/-- **The rings never overflow.**  When the request ring has two slots more than
there are requests, and each ring for messages three times as many and two more,
every push of every interleaving finds room, even if nothing is ever read.  The
sequencer, which ends the program otherwise, has a place for each request it is
given. -/
theorem allowed_of_count (h₀ : Exchange.new m l tickerIds clock = .ok e₀)
    (hn : requestsAdded actions + 2 ≤ n) (hk : 3 * requestsAdded actions + 2 ≤ k)
    (hu : 3 * requestsAdded actions + 2 ≤ u)
    (hroom : EachStep step Room (init e₀ : System m l n k u) actions) :
    EachStep step Allowed (init e₀ : System m l n k u) actions := by
  refine EachStep.of_prefixes fun done a rest s he hdone hrun => ?_
  have hbefore : requestsAdded done ≤ requestsAdded actions := by
    rw [he, requestsAdded, requestsAdded, List.filter_append, List.length_append]
    exact Nat.le_add_right _ _
  have hsplit : actions = (done ++ [a]) ++ rest := by rw [he, List.append_assoc]; rfl
  rw [hsplit] at hroom
  exact (serves_of_run h₀ hdone hrun).allowed h₀ hbefore hn hk hu
    (hroom.of_append.of_concat.2 s hrun)

/-! ### The end of the thread -/

/-- A step of the thread of the exchange. -/
def Action.OfExchange : Action → Prop
  | .test | .pop | .process | .respond | .update | .done => True
  | _ => False

/-- The requests that the thread takes before it looks at `running` again. -/
def Phase.due : Phase → ℕ
  | .popping => 1
  | _ => 0

/-- **One step** while `running` is false takes no request but the one that is
due. -/
theorem step_of_stopped (hstop : s.running = false) (ha : a ≠ .start)
    (hs : step s a = .ok s') : s'.running = false ∧
      s'.requests.popped.length + s'.phase.due ≤ s.requests.popped.length + s.phase.due ∧
      s.requests.popped <+: s'.requests.popped := by
  cases a with
  | start => exact absurd rfl ha
  | pop =>
    simp only [step] at hs
    split at hs
    · rename_i hphase
      obtain rfl := Except.ok.inj hs
      have hdue : (if s.requests.pop.item.isSome then Phase.processing else .testing).due = 0 := by
        split_ifs <;> rfl
      refine ⟨hstop, ?_, Channel.popped_prefix_pop⟩
      simp only [hphase, hdue]
      exact Channel.length_popped_pop_le
    · cases hs
  | test =>
    simp only [step, hstop] at hs
    split at hs
    · obtain rfl := Except.ok.inj hs
      exact ⟨rfl, Nat.le_add_right _ _, List.prefix_refl _⟩
    · cases hs
  | addRequest request timestamp =>
    simp only [step] at hs
    split at hs
    · obtain ⟨sequencer, -, hs⟩ := bind_eq_ok.1 hs
      obtain rfl := Except.ok.inj hs
      exact ⟨hstop, le_rfl, List.prefix_refl _⟩
    · cases hs
  | process =>
    simp only [step] at hs
    split at hs
    · obtain ⟨exchange, -, hs⟩ := bind_eq_ok.1 hs
      obtain rfl := Except.ok.inj hs
      exact ⟨hstop, Nat.le_add_right _ _, List.prefix_refl _⟩
    · cases hs
  | stop | takeResponse | takeUpdate =>
    obtain rfl := Except.ok.inj hs
    exact ⟨by first | rfl | exact hstop, le_rfl, List.prefix_refl _⟩
  | sequence | publish | join | respond | update | done =>
    simp only [step] at hs
    split at hs
    all_goals first
      | (obtain rfl := Except.ok.inj hs
         exact ⟨hstop, by first | exact le_rfl | exact Nat.le_add_right _ _, List.prefix_refl _⟩)
      | cases hs

/-- After a stop the thread takes one more request at most. -/
theorem run_of_stopped (hstop : s.running = false) (hstart : ∀ a ∈ later, a ≠ .start)
    (h : later.foldlM step s = .ok s') : s'.running = false ∧
      s'.requests.popped.length ≤ s.requests.popped.length + s.phase.due ∧
      s.requests.popped <+: s'.requests.popped := by
  refine (foldlM_induction (P := fun later s' => (∀ a ∈ later, a ≠ .start) → s'.running = false ∧
    s'.requests.popped.length + s'.phase.due ≤ s.requests.popped.length + s.phase.due ∧
    s.requests.popped <+: s'.requests.popped) (fun _ => ⟨hstop, le_rfl, List.prefix_refl _⟩) ?_ h
    hstart).imp_right fun hle => ⟨by omega, hle.2⟩
  intro later a s₁ s₂ _ hP hs hall
  obtain ⟨hrun, hle, hp⟩ := hP fun a' ha' => hall a' (List.mem_append_left _ ha')
  obtain ⟨hrun', hle', hp'⟩ := step_of_stopped hrun
    (hall a (List.mem_append_right _ (List.mem_singleton_self a))) hs
  exact ⟨hrun', hle'.trans hle, hp.trans hp'⟩

/-- The thread comes to the end of its loop, or the program ends before. -/
def Ends (s : System m l n k u) : Prop :=
  ∃ later : List Action, (∀ a ∈ later, a.OfExchange) ∧
    ((∃ s', later.foldlM step s = .ok s' ∧ s'.phase = .ended) ∨
      ∃ f, later.foldlM step s = .error (.fault f))

/-- A step of the thread on its way to the end. -/
theorem Ends.of_step (hs : step s a = .ok s') (ha : a.OfExchange) (h : Ends s') : Ends s := by
  obtain ⟨later, hall, hend⟩ := h
  refine ⟨a :: later, by simpa [ha] using hall, ?_⟩
  simpa only [List.foldlM_cons, hs, ok_bind] using hend

/-- A stopped exchange that tests its flag leaves the loop. -/
theorem ends_of_testing (hstop : s.running = false) (hphase : s.phase = .testing) : Ends s := by
  have hs : step s .test = .ok { s with phase := .ended } := by
    simp only [step, hphase, hstop]
    rfl
  exact .of_step hs trivial ⟨[], by simp, Or.inl ⟨_, rfl, rfl⟩⟩

/-- What is left to push is pushed, one message after the other. -/
theorem ends_of_pushing (hstop : s.running = false) (hphase : s.phase = .pushing) (left : ℕ)
    (hleft : s.exchange.responses.length - s.responses.pushed.length +
      (s.exchange.updates.length - s.updates.pushed.length) = left) : Ends s := by
  induction left using Nat.strong_induction_on generalizing s with
  | _ left ih =>
    cases hresp : s.exchange.responses[s.responses.pushed.length]? with
    | some response =>
      have hlt := (List.getElem?_eq_some_iff.1 hresp).1
      have hs : step s .respond = .ok { s with responses := s.responses.push response } := by
        simp only [step, hphase, hresp]
      refine .of_step hs trivial (ih _ ?_ hstop hphase rfl)
      simp only [Channel.pushed_push, List.length_append, List.length_singleton]
      omega
    | none =>
      cases hupd : s.exchange.updates[s.updates.pushed.length]? with
      | some update =>
        have hlt := (List.getElem?_eq_some_iff.1 hupd).1
        have hs : step s .update = .ok { s with updates := s.updates.push update } := by
          simp only [step, hphase, hupd]
        refine .of_step hs trivial (ih _ ?_ hstop hphase rfl)
        simp only [Channel.pushed_push, List.length_append, List.length_singleton]
        omega
      | none =>
        have hs : step s .done = .ok { s with phase := .testing } := by
          simp only [step, hphase, hresp, hupd]
        exact .of_step hs trivial (ends_of_testing hstop rfl)

/-- A request in hand is processed and its messages are pushed before the flag is
tested; or processing it ends the program. -/
theorem Serves.ends_of_processing (h : Serves e₀ b s) (hstop : s.running = false)
    (hphase : s.phase = .processing) : Ends s := by
  obtain ⟨-, request, -, hread⟩ := h.requests.read_eq (h.inHand hphase)
  cases hreq : s.exchange.processRequest request with
  | error f =>
    refine ⟨[.process], by simp [Action.OfExchange], Or.inr ⟨f, ?_⟩⟩
    simp only [List.foldlM_cons, Pipeline.step, hphase, hread, hreq]
    rfl
  | ok exchange =>
    have hs : Pipeline.step s .process = .ok { s with exchange, phase := .pushing } := by
      simp only [Pipeline.step, hphase, hread, hreq]
      rfl
    exact .of_step hs trivial (ends_of_pushing hstop rfl _ rfl)

/-- The thread of a stopped exchange comes to its end, wherever it is. -/
theorem Serves.ends (h : Serves e₀ b s) (hstop : s.running = false) (hphase : s.phase ≠ .joined) :
    Ends s := by
  cases hp : s.phase with
  | joined => exact absurd hp hphase
  | testing => exact ends_of_testing hstop hp
  | popping =>
    have hs : Pipeline.step s .pop = .ok { s with
        requests := s.requests.pop
        phase := if s.requests.pop.item.isSome then .processing else .testing } := by
      simp only [Pipeline.step, hp]
    refine .of_step hs trivial ?_
    by_cases hitem : s.requests.pop.item.isSome = true
    · exact (h.pop hs).ends_of_processing hstop (if_pos hitem)
    · exact ends_of_testing hstop (if_neg hitem)
  | processing => exact h.ends_of_processing hstop hp
  | pushing => exact ends_of_pushing hstop hp _ rfl
  | ended => exact ⟨[], by simp, Or.inl ⟨s, rfl, hp⟩⟩

/-- **A stop stops.**  Whenever `running` is false, in a run whose pushes find
room, and until the next start, the thread takes no request but the one that it
was about to pop, whatever the other threads do; what it has not taken stays in
the ring; and it can run to the end of its loop, where `stop` joins it, unless
the program ends in the request in hand. -/
theorem stops_of_run (h₀ : Exchange.new m l tickerIds clock = .ok e₀)
    (hc : EachStep step Allowed (init e₀ : System m l n k u) actions)
    (h : actions.foldlM step (init e₀) = .ok s) (hstop : s.running = false) :
    (∀ (later : List Action) (s' : System m l n k u), (∀ a ∈ later, a ≠ .start) →
      later.foldlM step s = .ok s' → s'.running = false ∧
        s'.requests.popped.length ≤ s.requests.popped.length + s.phase.due ∧
        s.requests.popped <+: s'.requests.popped) ∧
    (s.phase ≠ .joined → Ends s) :=
  ⟨fun _ _ hstart hrun => run_of_stopped hstop hstart hrun, (serves_of_run h₀ hc h).ends hstop⟩

/-! ### An interleaving -/

/-- An offer. -/
def sampleOffer : ClientRequest :=
  { type := .add, tickerId := 1, clientId := 1, side := .sell, quantity := 10, limitPrice := 100 }

/-- A bid that takes a part of it. -/
def sampleBid : ClientRequest :=
  { type := .add, tickerId := 1, clientId := 2, side := .buy, quantity := 4, limitPrice := 100 }

/-- The two are processed while their messages are read, with a stop between
them. -/
def sampleActions : List Action :=
  [.addRequest sampleBid 7, .start, .addRequest sampleOffer 5, .test, .pop,
    .sequence (.favouring {}), .test, .publish, .pop, .publish, .process, .update, .stop,
    .takeUpdate, .respond, .done, .test, .takeResponse, .join, .start, .test, .pop, .process,
    .respond, .update, .takeUpdate, .respond, .takeResponse, .respond, .update, .done,
    .takeResponse, .takeUpdate, .takeResponse, .stop]

/-- The interleaving runs to its end, finds room throughout, and leaves a stopped
exchange about to test its flag. -/
theorem sampleActions_returns :
    ∃ e₀, Exchange.new maxOrderIds maxPriceLevels [1] (fun _ => 0) = .ok e₀ ∧
      EachStep step Room (init e₀ : System _ _ 4 8 8) sampleActions ∧
      EachStep step Allowed (init e₀ : System _ _ 4 8 8) sampleActions ∧
      ∃ s, sampleActions.foldlM step (init e₀ : System _ _ 4 8 8) = .ok s ∧
        s.running = false ∧ s.phase = .testing := by
  decide +kernel

/-- What comes out at the two ends of the interleaving is an instance. -/
theorem endToEnd_of_sampleActions :
    ∃ (e₀ : Exchange maxOrderIds maxPriceLevels) (s : System _ _ 4 8 8),
      sampleActions.foldlM step (init e₀) = .ok s ∧ EndToEnd e₀ sampleActions s := by
  obtain ⟨e₀, h₀, -, hc, s, h, -⟩ := sampleActions_returns
  exact ⟨e₀, s, h, endToEnd_of_run h₀ hc h⟩

/-- The desk of a subscriber that reads the interleaving is an instance. -/
theorem watched_of_sampleActions :
    ∃ (e₀ : Exchange maxOrderIds maxPriceLevels) (s : System _ _ 4 8 8),
      sampleActions.foldlM step (init e₀) = .ok s ∧
      ∃ desk, Desk.empty.replay s.updates.popped = some desk ∧
        (Quiet s → desk.Shows s.exchange) := by
  obtain ⟨e₀, h₀, -, hc, s, h, -⟩ := sampleActions_returns
  exact ⟨e₀, s, h, watched_of_run h₀ hc h (by decide)⟩

/-- The requests of the interleaving, when counted, tell without a look at the
rings that its pushes find room. -/
theorem allowed_of_sampleActions :
    ∃ e₀ : Exchange maxOrderIds maxPriceLevels,
      EachStep step Room (init e₀ : System _ _ 4 8 8) sampleActions ∧
      EachStep step Allowed (init e₀ : System _ _ 4 8 8) sampleActions := by
  obtain ⟨e₀, h₀, hroom, -⟩ := sampleActions_returns
  exact ⟨e₀, hroom, allowed_of_count h₀ (by decide) (by decide) (by decide) hroom⟩

/-- The state it ends in, with the exchange stopped, is an instance. -/
theorem stops_of_sampleActions :
    ∃ (e₀ : Exchange maxOrderIds maxPriceLevels) (s : System _ _ 4 8 8),
      sampleActions.foldlM step (init e₀) = .ok s ∧ s.running = false ∧
      (∀ (later : List Action) (s' : System _ _ 4 8 8), (∀ a ∈ later, a ≠ .start) →
        later.foldlM step s = .ok s' → s'.running = false ∧
          s'.requests.popped.length ≤ s.requests.popped.length + s.phase.due ∧
          s.requests.popped <+: s'.requests.popped) ∧
      (s.phase ≠ .joined → Ends s) := by
  obtain ⟨e₀, h₀, -, hc, s, h, hstop, -⟩ := sampleActions_returns
  exact ⟨e₀, s, h, hstop, stops_of_run h₀ hc h hstop⟩

end Pipeline

end CppExchange
