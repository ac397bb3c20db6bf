import CppExchange.Channel
import CppExchange.Delivery
import CppExchange.Tape

/-!
# The pipeline

The exchange of `include/cppexchange/cppexchange.h` with its three queues and the
threads at their ends: a sequencer that publishes requests, the thread of
`Exchange::run` between `start` and `stop`, and a consumer each for the responses
and the updates.  A step is one operation of one thread on what it shares, a push
or a pop, or a piece of a thread's own work; the steps of the threads come in any
order.

The requests are processed out of the ring, through the pointer that `pop`
returned, and the messages of a request are pushed one by one, in the order in
which `Exchange.responses` and `Exchange.updates` have them.  While every push
leaves two slots (`Allowed`), the pipeline computes what the exchange computes on
the sequenced requests alone (`Serves`), whatever the interleaving.
-/

namespace CppExchange

open Library

/-- `ClientResponse()`. -/
instance : Inhabited ClientResponse := ⟨{}⟩

/-- `MarketUpdate()`. -/
instance : Inhabited MarketUpdate := ⟨{}⟩

namespace Pipeline

/-- Where the thread of `Exchange::run` is. -/
inductive Phase
  /-- There is no thread. -/
  | joined
  /-- It is about to test `running`. -/
  | testing
  /-- It is about to pop. -/
  | popping
  /-- It has a request, through the pointer. -/
  | processing
  /-- It pushes what the request led to. -/
  | pushing
  /-- It has left the loop. -/
  | ended
  deriving DecidableEq

/-- The state that the threads share, and where each of them is. -/
structure System (m l n k u : ℕ) where
  sequencer : FifoSequencer := .new
  /-- The pushes that `sequenceAndPublish` has still to make. -/
  toPublish : List ClientRequest := []
  requests : Channel ClientRequest n
  running : Bool := false
  phase : Phase := .joined
  exchange : Exchange m l
  responses : Channel ClientResponse k
  updates : Channel MarketUpdate u

/-- A step of a thread. -/
inductive Action
  /-- The sequencer takes a request. -/
  | addRequest (request : ClientRequest) (timestamp : NsTimestampT)
  /-- It sorts the requests that wait. -/
  | sequence (std : StdSort)
  /-- It pushes the next of them. -/
  | publish
  /-- `start()`. -/
  | start
  /-- The first half of `stop()`. -/
  | stop
  /-- The second half of `stop()`. -/
  | join
  /-- The thread of the exchange tests `running`. -/
  | test
  /-- It pops a request. -/
  | pop
  /-- It runs `processRequest()`. -/
  | process
  /-- It pushes the next response. -/
  | respond
  /-- It pushes the next update. -/
  | update
  /-- It returns from `processRequest()`. -/
  | done
  /-- A response is popped. -/
  | takeResponse
  /-- An update is popped. -/
  | takeUpdate

/-- Why a step was not made: it is not the next one of its thread, or the program
has ended there. -/
inductive Halt
  | outOfTurn
  | fatal (fatal : Fatal)
  | fault (fault : Fault)
  deriving DecidableEq

variable {m l n k u : ℕ} [NeZero n] [NeZero k] [NeZero u]

/-- The system before anything was started. -/
def init (e₀ : Exchange m l) : System m l n k u where
  requests := .new
  exchange := e₀
  responses := .new
  updates := .new

def step (s : System m l n k u) : Action → Except Halt (System m l n k u)
  | .addRequest request timestamp =>
    match s.toPublish with
    | [] => do
      let sequencer ← (s.sequencer.addRequest request timestamp).mapError .fatal
      return { s with sequencer }
    | _ :: _ => .error .outOfTurn
  | .sequence std =>
    match s.toPublish with
    | [] => .ok { s with
        sequencer := (s.sequencer.sequenceAndPublish std s.requests.queue).1
        toPublish := (s.sequencer.published std).map (·.request) }
    | _ :: _ => .error .outOfTurn
  | .publish =>
    match s.toPublish with
    | [] => .error .outOfTurn
    | request :: toPublish => .ok { s with requests := s.requests.push request, toPublish }
  | .start =>
    match s.phase with
    | .joined => .ok { s with running := true, phase := .testing }
    | _ => .error .outOfTurn
  | .stop => .ok { s with running := false }
  | .join =>
    match s.phase with
    | .ended => .ok { s with phase := .joined }
    | _ => .error .outOfTurn
  | .test =>
    match s.phase with
    | .testing => .ok { s with phase := if s.running then .popping else .ended }
    | _ => .error .outOfTurn
  | .pop =>
    match s.phase with
    | .popping => .ok { s with
        requests := s.requests.pop
        phase := if s.requests.pop.item.isSome then .processing else .testing }
    | _ => .error .outOfTurn
  | .process =>
    match s.phase, s.requests.read with
    | .processing, some request => do
      let exchange ← (s.exchange.processRequest request).mapError .fault
      return { s with exchange, phase := .pushing }
    | _, _ => .error .outOfTurn
  | .respond =>
    match s.phase, s.exchange.responses[s.responses.pushed.length]? with
    | .pushing, some response => .ok { s with responses := s.responses.push response }
    | _, _ => .error .outOfTurn
  | .update =>
    match s.phase, s.exchange.updates[s.updates.pushed.length]? with
    | .pushing, some update => .ok { s with updates := s.updates.push update }
    | _, _ => .error .outOfTurn
  | .done =>
    match s.phase, s.exchange.responses[s.responses.pushed.length]?,
        s.exchange.updates[s.updates.pushed.length]? with
    | .pushing, none, none => .ok { s with phase := .testing }
    | _, _, _ => .error .outOfTurn
  | .takeResponse => .ok { s with responses := s.responses.pop }
  | .takeUpdate => .ok { s with updates := s.updates.pop }

omit [NeZero k] [NeZero u] in
/-- The pushes one by one are those of `sequenceAndPublish`. -/
theorem foldl_push_published (s : System m l n k u) (std : StdSort) :
    ((s.sequencer.published std).map (·.request)).foldl LFQueue.push s.requests.queue =
      (s.sequencer.sequenceAndPublish std s.requests.queue).2 := List.foldl_map

/-- No more than `MAX_PENDING_REQUESTS` requests wait, and every push leaves two
slots. -/
def Allowed (s : System m l n k u) : Action → Prop
  | .addRequest _ _ => s.sequencer.pendingRequestsIndex < maxPendingRequests
  | .publish => s.requests.Roomy
  | .respond => s.responses.Roomy
  | .update => s.updates.Roomy
  | _ => True

instance (s : System m l n k u) : ∀ a : Action, Decidable (Allowed s a)
  | .addRequest _ _ => inferInstanceAs (Decidable (_ < _))
  | .publish => inferInstanceAs (Decidable s.requests.Roomy)
  | .respond => inferInstanceAs (Decidable s.responses.Roomy)
  | .update => inferInstanceAs (Decidable s.updates.Roomy)
  | .sequence _ | .start | .stop | .join | .test | .pop | .process | .done | .takeResponse
  | .takeUpdate => .isTrue trivial

/-- The call of the sequencer that a step is. -/
def Action.call? : Action → Option Delivery.Call
  | .addRequest request timestamp => some (.add request timestamp)
  | .sequence std => some (.publish std)
  | _ => none

/-- The batches that were sequenced, and the requests added since. -/
def batches (actions : List Action) :
    List (List ReceiveTimeClientRequest) × List ReceiveTimeClientRequest :=
  Delivery.batches (actions.filterMap Action.call?)

/-- The requests that were processed: those popped, but for the one in hand. -/
def System.processed (s : System m l n k u) : List ClientRequest :=
  if s.phase = .processing then s.requests.popped.dropLast else s.requests.popped

/-- **The invariant.**  The exchange is where `e₀` gets on the requests
processed, and the rings carry what it pushes. -/
structure Serves (e₀ : Exchange m l)
    (b : List (List ReceiveTimeClientRequest) × List ReceiveTimeClientRequest)
    (s : System m l n k u) : Prop where
  pending : s.sequencer.pending = b.2
  arranged : Delivery.Arranged b.1 (s.requests.pushed ++ s.toPublish)
  requests : s.requests.Carries
  responses : s.responses.Carries
  updates : s.updates.Carries
  ran : e₀.run s.processed = .ok s.exchange
  inHand : s.phase = .processing → s.requests.item ≠ none
  responded : s.responses.pushed <+: s.exchange.responses
  updated : s.updates.pushed <+: s.exchange.updates
  between : s.phase ≠ .pushing →
    s.responses.pushed = s.exchange.responses ∧ s.updates.pushed = s.exchange.updates

variable {e₀ : Exchange m l} {tickerIds : List TickerIdT} {clock : ℕ → NsTimestampT}
  {b : List (List ReceiveTimeClientRequest) × List ReceiveTimeClientRequest}
  {s s' : System m l n k u} {actions : List Action} {a : Action}

/-- The batches of a run, with one more action: only a call of the sequencer
changes them. -/
theorem batches_concat : batches (actions ++ [a]) =
    match a.call? with
    | some c => Delivery.collect (batches actions) c
    | none => batches actions := by
  rw [batches, List.filterMap_append]
  cases hc : a.call? with
  | none => simp [hc, batches]
  | some c => simp [hc, Delivery.batches_concat, batches]

/-- The pipeline starts with nothing given to it and nothing to deliver. -/
theorem Serves.init (hr : e₀.responses = []) (hu : e₀.updates = []) :
    Serves e₀ ([], []) (init e₀ : System m l n k u) where
  pending := rfl
  arranged := ⟨[], .nil, rfl⟩
  requests := .new
  responses := .new
  updates := .new
  ran := rfl
  inHand h := by cases h
  responded := List.nil_prefix
  updated := List.nil_prefix
  between _ := ⟨hr.symm, hu.symm⟩

/-- The next item goes to the end of a beginning. -/
theorem concat_prefix {α : Type} {xs ys : List α} {y : α} (hp : xs <+: ys)
    (hy : ys[xs.length]? = some y) : xs ++ [y] <+: ys := by
  obtain ⟨zs, rfl⟩ := hp
  rw [List.getElem?_append_right le_rfl, Nat.sub_self] at hy
  cases zs with
  | nil => cases hy
  | cons z zs =>
    obtain rfl := Option.some.inj hy
    exact ⟨zs, by simp⟩

/-- A beginning that is not followed by anything is all. -/
theorem eq_of_isPrefix {α : Type} {xs ys : List α} (hp : xs <+: ys) (hy : ys[xs.length]? = none) :
    xs = ys := by
  obtain ⟨zs, rfl⟩ := hp
  rw [List.getElem?_append_right le_rfl, Nat.sub_self] at hy
  cases zs with
  | nil => exact (List.append_nil _).symm
  | cons z zs => cases hy

/-- **A request adds to the messages** that were pushed before. -/
theorem prefix_of_processRequest {e e' : Exchange m l} {requests : List ClientRequest}
    {request : ClientRequest} (hb : Exchange.Booked requests e)
    (h : e.processRequest request = .ok e') :
    e.responses <+: e'.responses ∧ e.updates <+: e'.updates := by
  rcases Exchange.processRequest_ok h with ⟨-, rfl⟩ | ⟨op, book, w, -, hbook, hw, rfl⟩
  · exact ⟨List.prefix_refl _, List.prefix_refl _⟩
  · obtain ⟨L, hk⟩ := hb.ledger request.tickerId
    obtain ⟨-, ring, hh⟩ := hk.book book hbook
    obtain ⟨w', hp⟩ := World.step_self hh.toSound hw
    obtain ⟨as, -, has, -⟩ := hp.responses
    obtain ⟨bs, -, hbs, -⟩ := hp.updates
    exact ⟨⟨as, has.symm⟩, ⟨bs, hbs.symm⟩⟩

/-! ### The steps -/

/-- A request that is added waits behind the others. -/
theorem Serves.addRequest {request : ClientRequest} {timestamp : NsTimestampT}
    (h : Serves e₀ b s) (hlt : s.sequencer.pendingRequestsIndex < maxPendingRequests)
    (hs : step s (.addRequest request timestamp) = .ok s') :
    Serves e₀ (b.1, b.2 ++ [⟨timestamp, request⟩]) s' := by
  simp only [step] at hs
  split at hs
  · obtain ⟨sequencer, hseq, hp⟩ := FifoSequencer.addRequest_ok s.sequencer request timestamp
      (by rwa [FifoSequencer.length_pending])
    rw [hseq] at hs
    obtain rfl := Except.ok.inj hs
    exact { h with pending := by rw [hp, h.pending] }
  · cases hs

/-- **The sort** arranges the requests that wait. -/
theorem Serves.sequence {std : StdSort} (h : Serves e₀ b s)
    (hs : step s (.sequence std) = .ok s') : Serves e₀ (b.1 ++ [b.2], []) s' := by
  simp only [step] at hs
  split at hs
  · rename_i hnone
    obtain rfl := Except.ok.inj hs
    have harranged := h.arranged
    rw [hnone, List.append_nil] at harranged
    refine { h with
      pending := FifoSequencer.pending_sequenceAndPublish s.sequencer std s.requests.queue
      arranged := ?_ }
    rw [FifoSequencer.published_eq, h.pending]
    exact harranged.concat ⟨std.perm b.2, std.pairwise_le b.2⟩
  · cases hs

/-- **A push of the sequencer** moves a request of the batch into the ring. -/
theorem Serves.publish (h : Serves e₀ b s) (hroom : s.requests.Roomy)
    (hs : step s .publish = .ok s') : Serves e₀ b s' := by
  simp only [step] at hs
  split at hs
  · cases hs
  · rename_i request toPublish hnext
    obtain rfl := Except.ok.inj hs
    have harranged := h.arranged
    rw [hnext] at harranged
    refine { h with requests := h.requests.push hroom request, arranged := ?_ }
    rwa [Channel.pushed_push, List.append_assoc, List.singleton_append]

/-- A step that only moves the thread of the exchange, with nothing left to
push. -/
theorem Serves.move {running : Bool} {phase : Phase} (h : Serves e₀ b s)
    (hhand : s.phase ≠ .processing) (hphase : phase ≠ .processing)
    (hall : s.responses.pushed = s.exchange.responses ∧ s.updates.pushed = s.exchange.updates) :
    Serves e₀ b { s with running, phase } := by
  refine { h with ran := ?_, inHand := fun hp => absurd hp hphase, between := fun _ => hall }
  have hran := h.ran
  rw [System.processed, if_neg hhand] at hran
  rwa [System.processed, if_neg hphase]

/-- **The thread pops:** nothing is there, or a request is in its hand. -/
theorem Serves.pop (h : Serves e₀ b s) (hs : step s .pop = .ok s') : Serves e₀ b s' := by
  simp only [step] at hs
  split at hs
  · rename_i hphase
    obtain rfl := Except.ok.inj hs
    have hall := h.between (by simp [hphase])
    have hran := h.ran
    rw [System.processed, if_neg (by simp [hphase])] at hran
    rcases h.requests.pop_cases with ⟨-, hitem, hpopped, hc⟩ | ⟨x, rest, -, hitem, hpopped, hc⟩
    · refine { h with requests := hc, ran := ?_, inHand := ?_, between := fun _ => hall }
      · rw [System.processed, if_neg (by simp [hitem])]
        exact hpopped ▸ hran
      · simp [hitem]
    · have hsome : s.requests.pop.item.isSome = true := Option.isSome_iff_ne_none.2 hitem
      refine { h with
        requests := hc
        ran := ?_
        inHand := fun _ => hitem
        between := fun _ => hall }
      rw [System.processed, if_pos (by simp [hsome])]
      simp only [hpopped, List.dropLast_concat]
      exact hran
  · cases hs

/-- **The request is processed** that the pointer shows, which is the one
popped. -/
theorem Serves.process (h₀ : Exchange.new m l tickerIds clock = .ok e₀) (h : Serves e₀ b s)
    (hs : step s .process = .ok s') : Serves e₀ b s' := by
  simp only [step] at hs
  split at hs
  · rename_i request hphase hread
    obtain ⟨xs, x, hpopped, hx⟩ := h.requests.read_eq (h.inHand hphase)
    obtain rfl : request = x := Option.some.inj (hread.symm.trans hx)
    have hran := h.ran
    rw [System.processed, if_pos hphase, hpopped, List.dropLast_concat] at hran
    obtain ⟨exchange, hreq, hs⟩ := bind_eq_ok.1 hs
    obtain rfl := Except.ok.inj hs
    rw [mapError_eq_ok] at hreq
    obtain ⟨hresp, hupd⟩ := prefix_of_processRequest (Exchange.booked_of_run h₀ hran) hreq
    refine { h with
      ran := ?_
      inHand := fun hp => by cases hp
      responded := h.responded.trans hresp
      updated := h.updated.trans hupd
      between := fun hp => absurd rfl hp }
    rw [System.processed, if_neg (by simp), hpopped]
    exact foldlM_concat_eq_ok.2 ⟨s.exchange, hran, hreq⟩
  · cases hs

/-- **A push of a response** that finds room delivers the next one. -/
theorem Serves.respond (h : Serves e₀ b s) (hroom : s.responses.Roomy)
    (hs : step s .respond = .ok s') : Serves e₀ b s' := by
  simp only [step] at hs
  split at hs
  · rename_i response hphase hnext
    obtain rfl := Except.ok.inj hs
    exact { h with
      responses := h.responses.push hroom response
      responded := concat_prefix h.responded hnext
      between := fun hp => absurd hphase hp }
  · cases hs

/-- **A push of an update** that finds room delivers the next one. -/
theorem Serves.update (h : Serves e₀ b s) (hroom : s.updates.Roomy)
    (hs : step s .update = .ok s') : Serves e₀ b s' := by
  simp only [step] at hs
  split at hs
  · rename_i update hphase hnext
    obtain rfl := Except.ok.inj hs
    exact { h with
      updates := h.updates.push hroom update
      updated := concat_prefix h.updated hnext
      between := fun hp => absurd hphase hp }
  · cases hs

/-- The request is done when there is nothing left to push. -/
theorem Serves.done (h : Serves e₀ b s) (hs : step s .done = .ok s') : Serves e₀ b s' := by
  simp only [step] at hs
  split at hs
  · rename_i hphase hresp hupd
    obtain rfl := Except.ok.inj hs
    exact h.move (by simp [hphase]) (by simp)
      ⟨eq_of_isPrefix h.responded hresp, eq_of_isPrefix h.updated hupd⟩
  · cases hs

/-- **Every step** that is allowed keeps the invariant. -/
theorem Serves.step (h₀ : Exchange.new m l tickerIds clock = .ok e₀) (h : Serves e₀ b s)
    (hc : Allowed s a) (hs : step s a = .ok s') :
    Serves e₀ (match a.call? with
      | some c => Delivery.collect b c
      | none => b) s' := by
  cases a with
  | addRequest request timestamp => exact h.addRequest hc hs
  | sequence std => exact h.sequence hs
  | publish => exact h.publish hc hs
  | start =>
    simp only [Pipeline.step] at hs
    split at hs
    · rename_i hphase
      obtain rfl := Except.ok.inj hs
      exact h.move (by simp [hphase]) (by simp) (h.between (by simp [hphase]))
    · cases hs
  | stop =>
    obtain rfl := Except.ok.inj hs
    exact { h with }
  | join =>
    simp only [Pipeline.step] at hs
    split at hs
    · rename_i hphase
      obtain rfl := Except.ok.inj hs
      exact h.move (by simp [hphase]) (by simp) (h.between (by simp [hphase]))
    · cases hs
  | test =>
    simp only [Pipeline.step] at hs
    split at hs
    · rename_i hphase
      obtain rfl := Except.ok.inj hs
      refine h.move (by simp [hphase]) ?_ (h.between (by simp [hphase]))
      split_ifs <;> simp
    · cases hs
  | pop => exact h.pop hs
  | process => exact h.process h₀ hs
  | respond => exact h.respond hc hs
  | update => exact h.update hc hs
  | done => exact h.done hs
  | takeResponse =>
    obtain rfl := Except.ok.inj hs
    exact { h with responses := h.responses.pop }
  | takeUpdate =>
    obtain rfl := Except.ok.inj hs
    exact { h with updates := h.updates.pop }

end Pipeline

end CppExchange
