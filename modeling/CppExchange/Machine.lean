import CppExchange.Atomic
import CppExchange.EndToEnd
import CppExchange.Library.Stuttering

/-!
# The pipeline, load by load

The pipeline again, with its pushes and pops in the steps in which they touch the
rings (`Handoff`): between any two of them the other threads may make steps of
theirs, so a ring can be popped while an item is written to it, and what a client
has popped is read later, through the pointer.  Each run of this machine does what
a run of the `Pipeline` does, over some of its steps in their order
(`atomic_of_run`): a push takes effect when it advances its index, a pop when it
advances its own or finds the indices equal.  So what was proved of the pipeline
holds of what is read in the machine, and in rings that are large enough for the
requests every interleaving delivers (`delivers_of_run`).
-/

namespace CppExchange

open Library

namespace Machine

open Handoff (ConsumerPhase ProducerPhase)
open Pipeline (Phase Halt)

/-- The state that the threads share, and where each of them is. -/
structure System (m l n k u : ℕ) where
  sequencer : FifoSequencer := .new
  /-- The pushes that `sequenceAndPublish` has still to finish. -/
  toPublish : List ClientRequest := []
  requests : Handoff.State ClientRequest n
  running : Bool := false
  phase : Phase := .joined
  exchange : Exchange m l
  responses : Handoff.State ClientResponse k
  updates : Handoff.State MarketUpdate u

/-- A step of a thread. -/
inductive Action
  /-- The next step of what is one step of the pipeline. -/
  | next (a : Pipeline.Action)
  /-- A response is read through the pointer. -/
  | readResponse
  /-- An update is read through the pointer. -/
  | readUpdate

/-- The step of the pipeline that this is a part of. -/
def Action.next? : Action → Option Pipeline.Action
  | .next a => some a
  | _ => none

variable {T : Type} {m l n k u : ℕ} [NeZero n] [NeZero k] [NeZero u]

/-- The system before anything was started. -/
def init (e₀ : Exchange m l) : System m l n k u where
  requests := Handoff.start
  exchange := e₀
  responses := Handoff.start
  updates := Handoff.start

/-- The ring after a step of one of its threads. -/
def ringStep (q : Handoff.State T n) (a : Handoff.Action T) : Except Halt (Handoff.State T n) :=
  (Handoff.step q a).mapError fun _ => .outOfTurn

/-- Where the thread is in `run` when its pop is where it is. -/
def after : ConsumerPhase n → Phase
  | .idle (some _) => .processing
  | .idle none => .testing
  | _ => .popping

def step (s : System m l n k u) : Action → Except Halt (System m l n k u)
  | .next (.addRequest request timestamp) =>
    match s.toPublish with
    | [] => do
      let sequencer ← (s.sequencer.addRequest request timestamp).mapError .fatal
      return { s with sequencer }
    | _ :: _ => .error .outOfTurn
  | .next (.sequence std) =>
    match s.toPublish with
    | [] => .ok { s with
        sequencer := (s.sequencer.sequenceAndPublish std s.requests.queue).1
        toPublish := (s.sequencer.published std).map (·.request) }
    | _ :: _ => .error .outOfTurn
  | .next .publish =>
    match s.toPublish with
    | [] => .error .outOfTurn
    | request :: toPublish => do
      let requests ← ringStep s.requests (s.requests.pushing request)
      return { s with
        requests
        toPublish := if requests.producer = .idle then toPublish else s.toPublish }
  | .next .start =>
    match s.phase with
    | .joined => .ok { s with running := true, phase := .testing }
    | _ => .error .outOfTurn
  | .next .stop => .ok { s with running := false }
  | .next .join =>
    match s.phase with
    | .ended => .ok { s with phase := .joined }
    | _ => .error .outOfTurn
  | .next .test =>
    match s.phase with
    | .testing => .ok { s with phase := if s.running then .popping else .ended }
    | _ => .error .outOfTurn
  | .next .pop =>
    match s.phase with
    | .popping => do
      let requests ← ringStep s.requests s.requests.popping
      return { s with requests, phase := after requests.consumer }
    | _ => .error .outOfTurn
  | .next .process =>
    match s.phase, s.requests.current with
    | .processing, some request => do
      let exchange ← (s.exchange.processRequest request).mapError .fault
      return { s with exchange, phase := .pushing }
    | _, _ => .error .outOfTurn
  | .next .respond =>
    match s.phase, s.exchange.responses[s.responses.landed.length]?, s.updates.producer with
    | .pushing, some response, .idle => do
      let responses ← ringStep s.responses (s.responses.pushing response)
      return { s with responses }
    | _, _, _ => .error .outOfTurn
  | .next .update =>
    match s.phase, s.exchange.updates[s.updates.landed.length]?, s.responses.producer with
    | .pushing, some update, .idle => do
      let updates ← ringStep s.updates (s.updates.pushing update)
      return { s with updates }
    | _, _, _ => .error .outOfTurn
  | .next .done =>
    match s.phase, s.exchange.responses[s.responses.landed.length]?,
        s.exchange.updates[s.updates.landed.length]? with
    | .pushing, none, none => .ok { s with phase := .testing }
    | _, _, _ => .error .outOfTurn
  | .next .takeResponse => do
    let responses ← ringStep s.responses s.responses.popping
    return { s with responses }
  | .next .takeUpdate => do
    let updates ← ringStep s.updates s.updates.popping
    return { s with updates }
  | .readResponse => do
    let responses ← ringStep s.responses .read
    return { s with responses }
  | .readUpdate => do
    let updates ← ringStep s.updates .read
    return { s with updates }

/-- No more than `MAX_PENDING_REQUESTS` requests wait, and every push begins with
two slots to spare. -/
def Allowed (s : System m l n k u) : Action → Prop
  | .next (.addRequest _ _) => s.sequencer.pendingRequestsIndex < maxPendingRequests
  | .next .publish => s.requests.Roomy
  | .next .respond => s.responses.Roomy
  | .next .update => s.updates.Roomy
  | _ => True

instance (s : System m l n k u) : ∀ a : Action, Decidable (Allowed s a)
  | .next (.addRequest _ _) => inferInstanceAs (Decidable (_ < _))
  | .next .publish => inferInstanceAs (Decidable s.requests.Roomy)
  | .next .respond => inferInstanceAs (Decidable s.responses.Roomy)
  | .next .update => inferInstanceAs (Decidable s.updates.Roomy)
  | .next (.sequence _) | .next .start | .next .stop | .next .join | .next .test | .next .pop
  | .next .process | .next .done | .next .takeResponse | .next .takeUpdate | .readResponse
  | .readUpdate => .isTrue trivial

/-! ### What the pipeline sees -/

/-- Where the thread is for the pipeline: a pop that found nothing is over. -/
def System.seenPhase (s : System m l n k u) : Phase :=
  if s.phase = .popping ∧ s.requests.consumer = .looked true then .testing else s.phase

/-- The pipeline with these rings. -/
def System.seen (s : System m l n k u) (requests : Channel ClientRequest n)
    (responses : Channel ClientResponse k) (updates : Channel MarketUpdate u) :
    Pipeline.System m l n k u where
  sequencer := s.sequencer
  toPublish := s.toPublish
  requests := requests
  running := s.running
  phase := s.seenPhase
  exchange := s.exchange
  responses := responses
  updates := updates

/-- **The abstraction.**  The rings show what the threads have made of them, what
is being pushed is the next item, and only the pop of `run` takes requests. -/
structure Agrees (s : System m l n k u) (c : Channel ClientRequest n)
    (d : Channel ClientResponse k) (e : Channel MarketUpdate u) : Prop where
  requests : Handoff.Shows s.requests c
  responses : Handoff.Shows s.responses d
  updates : Handoff.Shows s.updates e
  publishing : s.requests.producer = .written → ∃ request rest,
    s.toPublish = request :: rest ∧ s.requests.pushed = s.requests.landed ++ [request]
  responding : s.responses.producer = .written → s.phase = .pushing ∧ ∃ response,
    s.exchange.responses[s.responses.landed.length]? = some response ∧
      s.responses.pushed = s.responses.landed ++ [response]
  updating : s.updates.producer = .written → s.phase = .pushing ∧ ∃ update,
    s.exchange.updates[s.updates.landed.length]? = some update ∧
      s.updates.pushed = s.updates.landed ++ [update]
  popping : s.phase ≠ .popping → ∃ item, s.requests.consumer = .idle item

/-- What the pipeline makes of the state. -/
def Abstracts (s : System m l n k u) (t : Pipeline.System m l n k u) : Prop :=
  ∃ c d e, s.seen c d e = t ∧ Agrees s c d e

/-- The step to `s'` is no step of the pipeline, or the one that it is a part
of. -/
def Simulated (t : Pipeline.System m l n k u) (a : Action) (s' : System m l n k u) : Prop :=
  Silent Action.next? Pipeline.Action.call? Abstracts t a s' ∨
    Effective Pipeline.step Pipeline.Allowed Action.next? Abstracts t a s'

variable {s s' : System m l n k u} {t : Pipeline.System m l n k u} {a : Action}
  {b : Pipeline.Action} {c : Channel ClientRequest n} {d : Channel ClientResponse k}
  {e : Channel MarketUpdate u} {e₀ : Exchange m l} {actions : List Action}
  {tickerIds : List TickerIdT} {clock : ℕ → NsTimestampT}

theorem Agrees.silent (h : Agrees s' c d e) (ht : s'.seen c d e = t)
    (ha : a.next?.bind Pipeline.Action.call? = none) : Simulated t a s' :=
  Or.inl ⟨ha, c, d, e, ht, h⟩

theorem Agrees.effective (h : Agrees s' c d e) (hb : Pipeline.Allowed t b)
    (hs : Pipeline.step t b = .ok (s'.seen c d e)) : Simulated t (.next b) s' :=
  Or.inr ⟨b, _, rfl, hb, hs, c, d, e, rfl, h⟩

/-- The machine and the pipeline start alike. -/
theorem Agrees.init {e₀ : Exchange m l} :
    Agrees (init e₀ : System m l n k u) .new .new .new where
  requests := .start
  responses := .start
  updates := .start
  publishing h := by cases h
  responding h := by cases h
  updating h := by cases h
  popping _ := ⟨none, rfl⟩

omit [NeZero n] [NeZero k] [NeZero u] in
theorem seenPhase_of_ne (h : s.requests.consumer ≠ .looked true) : s.seenPhase = s.phase :=
  if_neg fun hp => h hp.2

/-- Between two pops of `run` the phases are the same. -/
theorem Agrees.seenPhase (h : Agrees s c d e) (hp : s.phase ≠ .popping) :
    s.seenPhase = s.phase := by
  obtain ⟨item, hi⟩ := h.popping hp
  exact seenPhase_of_ne (by rw [hi]; simp)

/-- Only `processRequest` pushes messages. -/
theorem Agrees.idle (h : Agrees s c d e) (hp : s.phase ≠ .pushing) :
    s.responses.producer ≠ .written ∧ s.updates.producer ≠ .written :=
  ⟨fun hw => hp (h.responding hw).1, fun hw => hp (h.updating hw).1⟩

/-! ### The steps -/

/-- An add is one step on either side, as long as nothing of the last batch is
left to push. -/
theorem Agrees.addRequest {request : ClientRequest} {timestamp : NsTimestampT}
    (h : Agrees s c d e) (hlt : s.sequencer.pendingRequestsIndex < maxPendingRequests)
    (hs : step s (.next (.addRequest request timestamp)) = .ok s') :
    Simulated (s.seen c d e) (.next (.addRequest request timestamp)) s' := by
  simp only [step] at hs
  split at hs
  · rename_i hnone
    obtain ⟨sequencer, hseq, hs⟩ := bind_eq_ok.1 hs
    obtain rfl := Except.ok.inj hs
    refine Agrees.effective (c := c) (d := d) (e := e) { h with } hlt ?_
    simp only [Pipeline.step, System.seen, hnone, hseq]
    rfl
  · cases hs

/-- The sort is one step on either side: no push can be under way of it. -/
theorem Agrees.sequence {std : StdSort} (h : Agrees s c d e)
    (hs : step s (.next (.sequence std)) = .ok s') :
    Simulated (s.seen c d e) (.next (.sequence std)) s' := by
  simp only [step] at hs
  split at hs
  · rename_i hnone
    obtain rfl := Except.ok.inj hs
    refine Agrees.effective (c := c) (d := d) (e := e) { h with publishing := ?_ } trivial ?_
    · intro hw
      obtain ⟨request, rest, hnext, -⟩ := h.publishing hw
      rw [hnone] at hnext
      cases hnext
    · simp only [Pipeline.step, System.seen, hnone]
      rfl
  · cases hs

/-- **A step of the sequencer's push.** -/
theorem Agrees.publish (h : Agrees s c d e) (hroom : s.requests.Roomy)
    (hs : step s (.next .publish) = .ok s') :
    Simulated (s.seen c d e) (.next .publish) s' := by
  simp only [step] at hs
  split at hs
  · cases hs
  · rename_i request toPublish hnext
    obtain ⟨requests, hstep, hs⟩ := bind_eq_ok.1 hs
    obtain rfl := Except.ok.inj hs
    have hx : s.requests.producer = .written →
        s.requests.pushed = s.requests.landed ++ [request] := by
      intro hw
      obtain ⟨request', rest, hnext', hpushed⟩ := h.publishing hw
      rw [hnext] at hnext'
      rw [hpushed, (List.cons.inj hnext').1]
    obtain ⟨hconsumer, ⟨hshows, hwritten, hpushed, -⟩ | ⟨hshows, hroomy, hidle, -⟩⟩ :=
      h.requests.push hx hroom (mapError_eq_ok.1 hstep)
    · rw [if_neg (by rw [hwritten]; simp)]
      refine Agrees.silent (c := c) (d := d) (e := e) { h with
        requests := hshows
        publishing := fun _ => ⟨request, toPublish, hnext, hpushed⟩
        popping := fun hp => by rw [hconsumer]; exact h.popping hp } ?_ rfl
      simp only [System.seen, System.seenPhase, hconsumer]
    · rw [if_pos hidle]
      refine Agrees.effective (c := c.push request) (d := d) (e := e) { h with
        requests := hshows
        publishing := fun hw => by rw [hidle] at hw; cases hw
        popping := fun hp => by rw [hconsumer]; exact h.popping hp } hroomy ?_
      simp only [Pipeline.step, System.seen, System.seenPhase, hnext, hconsumer]

/-- The thread of the exchange moves, with nothing under way of its pushes and
pops. -/
theorem Agrees.move (h : Agrees s c d e) {running : Bool} {phase : Phase}
    (hp : s.phase ≠ .popping)
    (hidle : s.responses.producer ≠ .written ∧ s.updates.producer ≠ .written)
    (hb : Pipeline.Allowed (s.seen c d e) b)
    (hs : Pipeline.step (s.seen c d e) b = .ok { s.seen c d e with running, phase }) :
    Simulated (s.seen c d e) (.next b) { s with running, phase } := by
  have hagrees : Agrees { s with running, phase } c d e := { h with
    responding := fun hw => absurd hw hidle.1
    updating := fun hw => absurd hw hidle.2
    popping := fun _ => h.popping hp }
  refine hagrees.effective hb (hs.trans ?_)
  obtain ⟨item, hi⟩ := h.popping hp
  have hseen : ({ s with running, phase } : System m l n k u).seenPhase = phase :=
    seenPhase_of_ne (by rw [hi]; simp)
  simp only [System.seen, hseen]

/-- The thread is started at once. -/
theorem Agrees.start (h : Agrees s c d e) (hs : step s (.next .start) = .ok s') :
    Simulated (s.seen c d e) (.next .start) s' := by
  simp only [step] at hs
  split at hs
  · rename_i hphase
    obtain rfl := Except.ok.inj hs
    have hseen := h.seenPhase (by simp [hphase])
    refine h.move (by simp [hphase]) (h.idle (by simp [hphase])) trivial ?_
    simp only [Pipeline.step, System.seen, hseen, hphase]
  · cases hs

/-- A stop is one write on either side. -/
theorem Agrees.stop (h : Agrees s c d e) (hs : step s (.next .stop) = .ok s') :
    Simulated (s.seen c d e) (.next .stop) s' := by
  obtain rfl := Except.ok.inj hs
  exact Agrees.effective (c := c) (d := d) (e := e) { h with } trivial rfl

/-- It is joined at once. -/
theorem Agrees.join (h : Agrees s c d e) (hs : step s (.next .join) = .ok s') :
    Simulated (s.seen c d e) (.next .join) s' := by
  simp only [step] at hs
  split at hs
  · rename_i hphase
    obtain rfl := Except.ok.inj hs
    have hseen := h.seenPhase (by simp [hphase])
    refine h.move (by simp [hphase]) (h.idle (by simp [hphase])) trivial ?_
    simp only [Pipeline.step, System.seen, hseen, hphase]
  · cases hs

/-- The flag is tested at once. -/
theorem Agrees.test (h : Agrees s c d e) (hs : step s (.next .test) = .ok s') :
    Simulated (s.seen c d e) (.next .test) s' := by
  simp only [step] at hs
  split at hs
  · rename_i hphase
    obtain rfl := Except.ok.inj hs
    have hseen := h.seenPhase (by simp [hphase])
    refine h.move (by simp [hphase]) (h.idle (by simp [hphase])) trivial ?_
    simp only [Pipeline.step, System.seen, hseen, hphase]
  · cases hs

omit [NeZero n] in
/-- A pop that is not over has not found the ring empty. -/
theorem after_of_midway {consumer : ConsumerPhase n} (h : consumer.Midway) :
    after consumer = .popping ∧ consumer ≠ .looked true := by
  rcases consumer with item | _ | p
  · cases h
  · refine ⟨rfl, ?_⟩
    rintro ⟨⟩
    cases h
  · exact ⟨rfl, by simp⟩

/-- **A step of the pop of `run`.** -/
theorem Agrees.pop (h : Agrees s c d e) (hs : step s (.next .pop) = .ok s') :
    Simulated (s.seen c d e) (.next .pop) s' := by
  simp only [step] at hs
  split at hs
  · rename_i hphase
    obtain ⟨requests, hstep, hs⟩ := bind_eq_ok.1 hs
    obtain rfl := Except.ok.inj hs
    obtain ⟨hproducer, hpushed, hcases⟩ := h.requests.pop (mapError_eq_ok.1 hstep)
    have hidle := h.idle (by simp [hphase])
    have hlanded : requests.landed = s.requests.landed := Handoff.landed_congr hproducer hpushed
    have hagrees : ∀ c', Handoff.Shows requests c' →
        Agrees { s with requests, phase := after requests.consumer } c' d e := by
      intro c' hshows
      refine { h with
        requests := hshows
        publishing := fun hw => ?_
        responding := fun hw => absurd hw hidle.1
        updating := fun hw => absurd hw hidle.2
        popping := fun hp => ?_ }
      · rw [hpushed, hlanded]
        exact h.publishing (hproducer ▸ hw)
      · revert hp
        rcases requests.consumer with item | empty | p
        · exact fun _ => ⟨item, rfl⟩
        · exact fun hp => absurd rfl hp
        · exact fun hp => absurd rfl hp
    rcases hcases with ⟨hshows, ⟨hlooked, hnone⟩ | ⟨hne, hmidway⟩⟩ |
      ⟨hshows, hne, ⟨hlooked, hitem⟩ | ⟨p, hsome, hitem⟩⟩
    · -- the pop was over when the indices were read
      refine (hagrees c hshows).silent ?_ rfl
      simp [System.seen, System.seenPhase, hphase, hlooked, hnone, after]
    · obtain ⟨hafter, hne'⟩ := after_of_midway hmidway
      refine (hagrees c hshows).silent ?_ rfl
      simp [System.seen, System.seenPhase, hphase, hne, hafter, hne']
    · refine (hagrees c.pop hshows).effective trivial ?_
      simp [Pipeline.step, System.seen, System.seenPhase, hphase, hne, hlooked, hitem, after]
    · refine (hagrees c.pop hshows).effective trivial ?_
      simp [Pipeline.step, System.seen, System.seenPhase, hphase, hne, hsome, hitem, after]
  · cases hs

/-- **The request is processed** that the pipeline has in its hand. -/
theorem Agrees.process (h : Agrees s c d e) (hs : step s (.next .process) = .ok s') :
    Simulated (s.seen c d e) (.next .process) s' := by
  simp only [step] at hs
  split at hs
  · rename_i request hphase hcurrent
    obtain ⟨exchange, hreq, hs⟩ := bind_eq_ok.1 hs
    obtain rfl := Except.ok.inj hs
    obtain ⟨item, hi⟩ := h.popping (by simp [hphase])
    have hidle := h.idle (by simp [hphase])
    have hseen := h.seenPhase (by simp [hphase])
    have hread : c.read = some request := (h.requests.current hi).symm.trans hcurrent
    have hagrees : Agrees { s with exchange, phase := .pushing } c d e := { h with
      responding := fun hw => absurd hw hidle.1
      updating := fun hw => absurd hw hidle.2
      popping := fun _ => ⟨item, hi⟩ }
    refine hagrees.effective trivial ?_
    have hseen' := hagrees.seenPhase (by simp)
    simp only [Pipeline.step, System.seen, hseen, hphase, hread, hreq, hseen']
    rfl
  · cases hs

/-- **A step of the push of a response.** -/
theorem Agrees.respond (h : Agrees s c d e) (hroom : s.responses.Roomy)
    (hs : step s (.next .respond) = .ok s') :
    Simulated (s.seen c d e) (.next .respond) s' := by
  simp only [step] at hs
  split at hs
  · rename_i response hphase hnext hother
    obtain ⟨responses, hstep, hs⟩ := bind_eq_ok.1 hs
    obtain rfl := Except.ok.inj hs
    have hx : s.responses.producer = .written →
        s.responses.pushed = s.responses.landed ++ [response] := by
      intro hw
      obtain ⟨-, response', hnext', hpushed⟩ := h.responding hw
      rw [hnext] at hnext'
      rw [hpushed, Option.some.inj hnext']
    obtain ⟨-, ⟨hshows, hwritten, hpushed, hlanded⟩ | ⟨hshows, hroomy, hidle, -⟩⟩ :=
      h.responses.push hx hroom (mapError_eq_ok.1 hstep)
    · refine Agrees.silent (c := c) (d := d) (e := e) { h with
        responses := hshows
        responding := fun _ => ⟨hphase, response, by rw [hlanded]; exact hnext, hpushed⟩ } rfl rfl
    · refine Agrees.effective (c := c) (d := d.push response) (e := e) { h with
        responses := hshows
        responding := fun hw => by rw [hidle] at hw; cases hw } hroomy ?_
      rw [← h.responses.pushed] at hnext
      simp [Pipeline.step, System.seen, System.seenPhase, hphase, hnext]
  · cases hs

/-- **A step of the push of an update.** -/
theorem Agrees.update (h : Agrees s c d e) (hroom : s.updates.Roomy)
    (hs : step s (.next .update) = .ok s') :
    Simulated (s.seen c d e) (.next .update) s' := by
  simp only [step] at hs
  split at hs
  · rename_i update hphase hnext hother
    obtain ⟨updates, hstep, hs⟩ := bind_eq_ok.1 hs
    obtain rfl := Except.ok.inj hs
    have hx : s.updates.producer = .written →
        s.updates.pushed = s.updates.landed ++ [update] := by
      intro hw
      obtain ⟨-, update', hnext', hpushed⟩ := h.updating hw
      rw [hnext] at hnext'
      rw [hpushed, Option.some.inj hnext']
    obtain ⟨-, ⟨hshows, hwritten, hpushed, hlanded⟩ | ⟨hshows, hroomy, hidle, -⟩⟩ :=
      h.updates.push hx hroom (mapError_eq_ok.1 hstep)
    · refine Agrees.silent (c := c) (d := d) (e := e) { h with
        updates := hshows
        updating := fun _ => ⟨hphase, update, by rw [hlanded]; exact hnext, hpushed⟩ } rfl rfl
    · refine Agrees.effective (c := c) (d := d) (e := e.push update) { h with
        updates := hshows
        updating := fun hw => by rw [hidle] at hw; cases hw } hroomy ?_
      rw [← h.updates.pushed] at hnext
      simp [Pipeline.step, System.seen, System.seenPhase, hphase, hnext]
  · cases hs

/-- A request is done when there is nothing left to push, and no push is under
way. -/
theorem Agrees.done (h : Agrees s c d e) (hs : step s (.next .done) = .ok s') :
    Simulated (s.seen c d e) (.next .done) s' := by
  simp only [step] at hs
  split at hs
  · rename_i hphase hresp hupd
    obtain rfl := Except.ok.inj hs
    have hidle : s.responses.producer ≠ .written ∧ s.updates.producer ≠ .written := by
      refine ⟨fun hw => ?_, fun hw => ?_⟩
      · obtain ⟨-, response, hnext, -⟩ := h.responding hw
        rw [hresp] at hnext
        cases hnext
      · obtain ⟨-, update, hnext, -⟩ := h.updating hw
        rw [hupd] at hnext
        cases hnext
    have hseen := h.seenPhase (by simp [hphase])
    refine h.move (by simp [hphase]) hidle trivial ?_
    rw [← h.responses.pushed] at hresp
    rw [← h.updates.pushed] at hupd
    simp only [Pipeline.step, System.seen, hseen, hphase, hresp, hupd]
  · cases hs

/-- **A step of the pop of a client.** -/
theorem Agrees.takeResponse (h : Agrees s c d e) (hs : step s (.next .takeResponse) = .ok s') :
    Simulated (s.seen c d e) (.next .takeResponse) s' := by
  obtain ⟨responses, hstep, hs⟩ := bind_eq_ok.1 hs
  obtain rfl := Except.ok.inj hs
  obtain ⟨hproducer, hpushed, hcases⟩ := h.responses.pop (mapError_eq_ok.1 hstep)
  have hlanded : responses.landed = s.responses.landed := Handoff.landed_congr hproducer hpushed
  have hagrees : ∀ d', Handoff.Shows responses d' → Agrees { s with responses } c d' e := by
    intro d' hshows
    refine { h with responses := hshows, responding := fun hw => ?_ }
    rw [hpushed, hlanded]
    exact h.responding (hproducer ▸ hw)
  rcases hcases with ⟨hshows, -⟩ | ⟨hshows, -⟩
  · exact (hagrees d hshows).silent rfl rfl
  · exact (hagrees d.pop hshows).effective trivial rfl

/-- **A step of the pop of an update,** which is over when the index is written,
or the ring was found empty. -/
theorem Agrees.takeUpdate (h : Agrees s c d e) (hs : step s (.next .takeUpdate) = .ok s') :
    Simulated (s.seen c d e) (.next .takeUpdate) s' := by
  obtain ⟨updates, hstep, hs⟩ := bind_eq_ok.1 hs
  obtain rfl := Except.ok.inj hs
  obtain ⟨hproducer, hpushed, hcases⟩ := h.updates.pop (mapError_eq_ok.1 hstep)
  have hlanded : updates.landed = s.updates.landed := Handoff.landed_congr hproducer hpushed
  have hagrees : ∀ e', Handoff.Shows updates e' → Agrees { s with updates } c d e' := by
    intro e' hshows
    refine { h with updates := hshows, updating := fun hw => ?_ }
    rw [hpushed, hlanded]
    exact h.updating (hproducer ▸ hw)
  rcases hcases with ⟨hshows, -⟩ | ⟨hshows, -⟩
  · exact (hagrees e hshows).silent rfl rfl
  · exact (hagrees e.pop hshows).effective trivial rfl

/-- **A read through a pointer** is none of the pipeline's steps. -/
theorem Agrees.readResponse (h : Agrees s c d e) (hs : step s .readResponse = .ok s') :
    Simulated (s.seen c d e) .readResponse s' := by
  obtain ⟨responses, hstep, hs⟩ := bind_eq_ok.1 hs
  obtain rfl := Except.ok.inj hs
  obtain ⟨hshows, -, hproducer, hpushed⟩ := h.responses.read (mapError_eq_ok.1 hstep)
  have hlanded : responses.landed = s.responses.landed := Handoff.landed_congr hproducer hpushed
  refine Agrees.silent (c := c) (d := d) (e := e)
    { h with responses := hshows, responding := fun hw => ?_ } rfl rfl
  rw [hpushed, hlanded]
  exact h.responding (hproducer ▸ hw)

/-- **So is a read of an update.** -/
theorem Agrees.readUpdate (h : Agrees s c d e) (hs : step s .readUpdate = .ok s') :
    Simulated (s.seen c d e) .readUpdate s' := by
  obtain ⟨updates, hstep, hs⟩ := bind_eq_ok.1 hs
  obtain rfl := Except.ok.inj hs
  obtain ⟨hshows, -, hproducer, hpushed⟩ := h.updates.read (mapError_eq_ok.1 hstep)
  have hlanded : updates.landed = s.updates.landed := Handoff.landed_congr hproducer hpushed
  refine Agrees.silent (c := c) (d := d) (e := e)
    { h with updates := hshows, updating := fun hw => ?_ } rfl rfl
  rw [hpushed, hlanded]
  exact h.updating (hproducer ▸ hw)

/-- **Every step** is none of the pipeline, or the one that it is a part of. -/
theorem Agrees.step (h : Agrees s c d e) (hc : Allowed s a) (hs : step s a = .ok s') :
    Simulated (s.seen c d e) a s' := by
  cases a with
  | next b =>
    cases b with
    | addRequest request timestamp => exact h.addRequest hc hs
    | sequence std => exact h.sequence hs
    | publish => exact h.publish hc hs
    | start => exact h.start hs
    | stop => exact h.stop hs
    | join => exact h.join hs
    | test => exact h.test hs
    | pop => exact h.pop hs
    | process => exact h.process hs
    | respond => exact h.respond hc hs
    | update => exact h.update hc hs
    | done => exact h.done hs
    | takeResponse => exact h.takeResponse hs
    | takeUpdate => exact h.takeUpdate hs
  | readResponse => exact h.readResponse hs
  | readUpdate => exact h.readUpdate hs

/-! ### A run -/

/-- The call of the sequencer that a step is. -/
def Action.call? (a : Action) : Option Delivery.Call := a.next?.bind Pipeline.Action.call?

/-- **A run of the machine is one of the pipeline,** whose steps are among those of
the machine in their order, and which calls the sequencer at the same steps. -/
theorem abstracts_of_run (hc : EachStep step Allowed (init e₀ : System m l n k u) actions)
    (h : actions.foldlM step (init e₀) = .ok s) :
    ∃ (coarse : List Pipeline.Action) (t : Pipeline.System m l n k u),
      coarse.Sublist (actions.filterMap Action.next?) ∧
      coarse.filterMap Pipeline.Action.call? = actions.filterMap Action.call? ∧
      EachStep Pipeline.step Pipeline.Allowed
        (Pipeline.init e₀ : Pipeline.System m l n k u) coarse ∧
      coarse.foldlM Pipeline.step (Pipeline.init e₀) = .ok t ∧ Abstracts s t := by
  refine foldlM_simulates ⟨.new, .new, .new, rfl, .init⟩ ?_ hc h
  rintro s t a s' ⟨c, d, e, rfl, hagrees⟩ ha hs
  exact hagrees.step ha hs

/-- What was read through each pointer is what a pop of the pipeline gave out. -/
def ReadAs (popped : List T) (reads : List (List T)) : Prop :=
  List.Forall₂ (fun v vs => ∀ x ∈ vs, x = v) popped reads

/-- The machine does what the pipeline does over `coarse`. -/
structure Atomic (e₀ : Exchange m l) (actions : List Action) (s : System m l n k u)
    (coarse : List Pipeline.Action) (t : Pipeline.System m l n k u) : Prop where
  inOrder : coarse.Sublist (actions.filterMap Action.next?)
  calls : coarse.filterMap Pipeline.Action.call? = actions.filterMap Action.call?
  allowed : EachStep Pipeline.step Pipeline.Allowed
    (Pipeline.init e₀ : Pipeline.System m l n k u) coarse
  run : coarse.foldlM Pipeline.step (Pipeline.init e₀) = .ok t
  sequencer : t.sequencer = s.sequencer
  toPublish : t.toPublish = s.toPublish
  exchange : t.exchange = s.exchange
  requests : t.requests.pushed = s.requests.landed
  responses : t.responses.pushed = s.responses.landed
  updates : t.updates.pushed = s.updates.landed
  responsesRead : ReadAs t.responses.popped s.responses.reads
  updatesRead : ReadAs t.updates.popped s.updates.reads

/-- **Pushes and pops are atomic.**  In every interleaving of the loads and
stores in which a push begins with two slots to spare, the threads do what they
do in a run of the pipeline, where a push or a pop is one step: over some of the
steps, in the order in which they were made, with the same calls of the
sequencer, the same exchange and the same rings; and every read through a
pointer is of the item that the pop gave out there. -/
theorem atomic_of_run (hc : EachStep step Allowed (init e₀ : System m l n k u) actions)
    (h : actions.foldlM step (init e₀) = .ok s) : ∃ coarse t, Atomic e₀ actions s coarse t := by
  obtain ⟨coarse, t, hsub, hcalls, hallowed, hrun, c, d, e, rfl, hagrees⟩ := abstracts_of_run hc h
  exact ⟨coarse, _, hsub, hcalls, hallowed, hrun, rfl, rfl, rfl, hagrees.requests.pushed,
    hagrees.responses.pushed, hagrees.updates.pushed, hagrees.responses.reads,
    hagrees.updates.reads⟩

/-! ### What arrives -/

/-- The batches that were sequenced, and the requests added since. -/
def batches (actions : List Action) :
    List (List ReceiveTimeClientRequest) × List ReceiveTimeClientRequest :=
  Delivery.batches (actions.filterMap Action.call?)

/-- The number of requests that were given to the sequencer. -/
def requestsAdded (actions : List Action) : ℕ :=
  Pipeline.requestsAdded (actions.filterMap Action.next?)

/-- Nothing is under way. -/
structure Quiet (s : System m l n k u) : Prop where
  published : s.toPublish = []
  requests : s.requests.queue.empty = true
  idle : s.phase ≠ .processing ∧ s.phase ≠ .pushing
  responses : s.responses.queue.empty = true
  updates : s.updates.queue.empty = true

/-- The requests were pushed in an order that the batches allow, the first of
them were processed in that order, and what is read through the pointers is what
came of it, message after message; all of it was given out when nothing is under
way. -/
structure Delivers (e₀ : Exchange m l) (actions : List Action) (s : System m l n k u) : Prop where
  sequenced : ∃ arranged, List.Forall₂ Delivery.Arrangement (batches actions).1 arranged ∧
    s.requests.landed ++ s.toPublish = arranged.flatten.map (·.request)
  processed : ∃ requests, requests <+: s.requests.landed ∧ e₀.run requests = .ok s.exchange ∧
    (Quiet s → requests = s.requests.landed)
  responses : ∃ popped, popped <+: s.exchange.responses ∧ ReadAs popped s.responses.reads ∧
    (Quiet s → popped = s.exchange.responses)
  updates : ∃ popped, popped <+: s.exchange.updates ∧ ReadAs popped s.updates.reads ∧
    (Quiet s → popped = s.exchange.updates)

/-- The sequencer has a place for the request. -/
def Room (s : System m l n k u) : Action → Prop
  | .next (.addRequest _ _) => s.sequencer.pendingRequestsIndex < maxPendingRequests
  | _ => True

instance (s : System m l n k u) : ∀ a : Action, Decidable (Room s a)
  | .next (.addRequest _ _) => inferInstanceAs (Decidable (_ < _))
  | .next .publish | .next .respond | .next .update | .next (.sequence _) | .next .start
  | .next .stop | .next .join | .next .test | .next .pop | .next .process | .next .done
  | .next .takeResponse | .next .takeUpdate | .readResponse | .readUpdate => .isTrue trivial

/-- When nothing is under way in the machine, nothing is in the pipeline. -/
theorem Agrees.quiet (h : Agrees s c d e) (hq : Quiet s) : Pipeline.Quiet (s.seen c d e) where
  published := hq.published
  requests := h.requests.empty_eq.trans hq.requests
  idle := by
    simp only [System.seen, System.seenPhase]
    split_ifs
    · simp
    · exact hq.idle
  responses := h.responses.empty_eq.trans hq.responses
  updates := h.updates.empty_eq.trans hq.updates

/-- When the pipeline has room for a push, so has the machine. -/
theorem Agrees.allowed (h : Agrees s c d e) (hroom : Room s a)
    (ha : ∀ b, Pipeline.Room (s.seen c d e) b → Pipeline.Allowed (s.seen c d e) b) :
    Allowed s a := by
  cases a with
  | next b =>
    cases b with
    | addRequest request timestamp => exact hroom
    | publish => exact h.requests.roomy_of (ha .publish trivial)
    | respond => exact h.responses.roomy_of (ha .respond trivial)
    | update => exact h.updates.roomy_of (ha .update trivial)
    | _ => trivial
  | _ => trivial

/-- **Large rings have room** for every push of every interleaving. -/
theorem allowed_of_room (h₀ : Exchange.new m l tickerIds clock = .ok e₀)
    (hn : requestsAdded actions + 2 ≤ n) (hk : 3 * requestsAdded actions + 2 ≤ k)
    (hu : 3 * requestsAdded actions + 2 ≤ u)
    (hroom : EachStep step Room (init e₀ : System m l n k u) actions) :
    EachStep step Allowed (init e₀ : System m l n k u) actions := by
  refine EachStep.of_prefixes fun done a rest s he hdone hrun => ?_
  obtain ⟨coarse, t, hsub, -, hallowed, hcoarse, c, d, e, rfl, hagrees⟩ :=
    abstracts_of_run hdone hrun
  have hdone' : done.Sublist actions := by
    rw [he]
    exact List.sublist_append_left _ _
  have hcount : Pipeline.requestsAdded coarse ≤ requestsAdded actions :=
    ((hsub.trans (hdone'.filterMap _)).filter _).length_le
  have hserves := Pipeline.serves_of_run h₀ hallowed hcoarse
  have hsplit : actions = (done ++ [a]) ++ rest := by rw [he, List.append_assoc]; rfl
  rw [hsplit] at hroom
  exact hagrees.allowed (hroom.of_append.of_concat.2 s hrun) fun b hb =>
    hserves.allowed h₀ hcount hn hk hu hb

/-- **Delivery, load by load.**  When the request ring has two slots more than
there are requests, and each ring for messages three times as many and two more,
then in every interleaving of the loads and stores of the pushes and pops the
requests are processed in the order in which they were sequenced, every pointer
shows its message at every read, the messages come one after the other, and when
nothing is under way all of them have come. -/
theorem delivers_of_run (h₀ : Exchange.new m l tickerIds clock = .ok e₀)
    (hn : requestsAdded actions + 2 ≤ n) (hk : 3 * requestsAdded actions + 2 ≤ k)
    (hu : 3 * requestsAdded actions + 2 ≤ u)
    (hroom : EachStep step Room (init e₀ : System m l n k u) actions)
    (h : actions.foldlM step (init e₀) = .ok s) : Delivers e₀ actions s := by
  obtain ⟨coarse, t, -, hcalls, hallowed, hcoarse, c, d, e, rfl, hagrees⟩ :=
    abstracts_of_run (allowed_of_room h₀ hn hk hu hroom) h
  have hend := Pipeline.endToEnd_of_run h₀ hallowed hcoarse
  refine ⟨?_, ⟨_, ?_, hend.ran, fun hq => ?_⟩, ⟨_, hend.responses, hagrees.responses.reads, ?_⟩,
    ⟨_, hend.updates, hagrees.updates.reads, ?_⟩⟩
  · rw [batches, ← hcalls, ← hagrees.requests.pushed]
    exact hend.sequenced
  · rw [← hagrees.requests.pushed]
    exact hend.processed
  · rw [← hagrees.requests.pushed]
    exact (hend.quiet (hagrees.quiet hq)).1
  · exact fun hq => (hend.quiet (hagrees.quiet hq)).2.1
  · exact fun hq => (hend.quiet (hagrees.quiet hq)).2.2

/-! ### An interleaving -/

/-- The bid is written while the offer is popped, and the update of the offer is
looked for, found and taken while its response is pushed; it is read twice, the
second time while the bid is processed. -/
def sampleActions : List Action :=
  [.addRequest Pipeline.sampleBid 7, .start, .addRequest Pipeline.sampleOffer 5, .test, .pop,
    .sequence (.favouring {}), .publish, .pop, .publish, .test, .pop, .publish, .pop, .pop,
    .process, .publish, .update, .takeUpdate, .update, .takeUpdate, .respond, .takeUpdate,
    .respond, .takeUpdate, .done, .test, .pop, .takeUpdate].map .next ++
  [.readUpdate] ++
  [.pop, .takeResponse, .pop, .takeResponse, .process, .respond, .takeResponse].map .next ++
  [.readResponse, .readUpdate] ++
  [.respond, .update, .update, .respond, .takeUpdate, .respond, .takeUpdate, .respond,
    .takeUpdate, .respond, .update, .update, .done, .stop, .test].map .next ++
  [.readUpdate]

/-- The interleaving runs to its end, and every push in it finds room. -/
theorem sampleActions_returns :
    ∃ e₀, Exchange.new maxOrderIds maxPriceLevels [1] (fun _ => 0) = .ok e₀ ∧
      EachStep step Room (init e₀ : System _ _ 4 8 8) sampleActions ∧
      EachStep step Allowed (init e₀ : System _ _ 4 8 8) sampleActions ∧
      ∃ s, sampleActions.foldlM step (init e₀ : System _ _ 4 8 8) = .ok s ∧
        s.phase = .ended := by
  decide +kernel

/-- The interleaving is an instance of the simulation. -/
theorem atomic_of_sampleActions :
    ∃ (e₀ : Exchange maxOrderIds maxPriceLevels) (s : System _ _ 4 8 8),
      sampleActions.foldlM step (init e₀) = .ok s ∧
      ∃ coarse t, Atomic e₀ sampleActions s coarse t := by
  obtain ⟨e₀, h₀, -, hc, s, h, -⟩ := sampleActions_returns
  exact ⟨e₀, s, h, atomic_of_run hc h⟩

/-- It is an instance of the delivery. -/
theorem delivers_of_sampleActions :
    ∃ (e₀ : Exchange maxOrderIds maxPriceLevels) (s : System _ _ 4 8 8),
      sampleActions.foldlM step (init e₀) = .ok s ∧ Delivers e₀ sampleActions s := by
  obtain ⟨e₀, h₀, hroom, -, s, h, -⟩ := sampleActions_returns
  exact ⟨e₀, s, h, delivers_of_run h₀ (by decide) (by decide) (by decide) hroom h⟩

end Machine

end CppExchange
