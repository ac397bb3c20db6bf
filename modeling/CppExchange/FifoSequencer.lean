import CppExchange.Library.Fallible
import CppExchange.Library.Ties
import CppExchange.LFQueue
import CppExchange.Messages

/-!
# The sequencer

`include/communication/fifo_sequencer.h`: requests wait in an array with the
time each was received, until `sequenceAndPublish` sorts those that wait by
their times and pushes them to the queue.

The sort is `std::sort`, of which the language promises a permutation of the
range, ordered by `operator<`, and nothing about elements of which neither is
less (`StdSort`).  So a batch is pushed in order of arrival, whatever the sort
makes of it, if and only if no two different requests of it have the same time
(`fair_iff`).
-/

namespace CppExchange

open Library

/-- `MAX_PENDING_REQUESTS`. -/
def maxPendingRequests : ℕ := 1024

structure ReceiveTimeClientRequest where
  receiveTimestamp : NsTimestampT := 0
  request : ClientRequest := {}
  deriving DecidableEq, Repr

/-- `operator<`. -/
def ReceiveTimeClientRequest.lt (p other : ReceiveTimeClientRequest) : Bool :=
  p.receiveTimestamp < other.receiveTimestamp

/-- A call of `FATAL`, which prints its message and exits. -/
structure Fatal where
  msg : String
  deriving DecidableEq, Repr

/-- What the language promises of `std::sort` on a range. -/
structure StdSort where
  sort : List ReceiveTimeClientRequest → List ReceiveTimeClientRequest
  perm : ∀ range, (sort range).Perm range
  ordered : ∀ range, (sort range).Pairwise fun p other => other.lt p = false

/-- The times of a sorted range do not decrease. -/
theorem StdSort.pairwise_le (std : StdSort) (range : List ReceiveTimeClientRequest) :
    (std.sort range).Pairwise fun p other => p.receiveTimestamp ≤ other.receiveTimestamp :=
  (std.ordered range).imp fun h => Int64.not_lt.1 (of_decide_eq_false h)

/-- `Communication::FifoSequencer`, without the address of its queue. -/
structure FifoSequencer where
  pendingRequests : List ReceiveTimeClientRequest
  pendingRequestsIndex : ℕ
  size : pendingRequests.length = maxPendingRequests
  index_le : pendingRequestsIndex ≤ maxPendingRequests

namespace FifoSequencer

variable {n : ℕ} [NeZero n]

/-- The constructor value-initialises the array. -/
def new : FifoSequencer where
  pendingRequests := List.replicate maxPendingRequests {}
  pendingRequestsIndex := 0
  size := List.length_replicate
  index_le := Nat.zero_le _

def addRequest (s : FifoSequencer) (request : ClientRequest) (timestamp : NsTimestampT) :
    Except Fatal FifoSequencer :=
  if h : s.pendingRequestsIndex = maxPendingRequests then
    .error ⟨"Too many pending requests."⟩
  else
    .ok {
      pendingRequests := s.pendingRequests.set s.pendingRequestsIndex ⟨timestamp, request⟩
      pendingRequestsIndex := s.pendingRequestsIndex + 1
      size := List.length_set.trans s.size
      index_le := Nat.lt_of_le_of_ne s.index_le h }

/-- The requests that wait. -/
def pending (s : FifoSequencer) : List ReceiveTimeClientRequest :=
  s.pendingRequests.take s.pendingRequestsIndex

/-- The array when `std::sort` returns: what lies behind the range stays. -/
def sorted (s : FifoSequencer) (std : StdSort) : List ReceiveTimeClientRequest :=
  std.sort (s.pendingRequests.take s.pendingRequestsIndex) ++
    s.pendingRequests.drop s.pendingRequestsIndex

/-- The elements the loop of `sequenceAndPublish` goes through. -/
def published (s : FifoSequencer) (std : StdSort) : List ReceiveTimeClientRequest :=
  (s.sorted std).take s.pendingRequestsIndex

def sequenceAndPublish (s : FifoSequencer) (std : StdSort) (requests : LFQueue ClientRequest n) :
    FifoSequencer × LFQueue ClientRequest n :=
  ({ pendingRequests := s.sorted std
     pendingRequestsIndex := 0
     size := by
       rw [sorted, List.length_append, (std.perm _).length_eq, ← List.length_append,
         List.take_append_drop, s.size]
     index_le := Nat.zero_le _ },
   (s.published std).foldl (fun q p => q.push p.request) requests)

/-- The array never runs out: the requests that wait are as many as the index
says. -/
theorem length_pending (s : FifoSequencer) : s.pending.length = s.pendingRequestsIndex := by
  rw [pending, List.length_take, s.size]
  exact Nat.min_eq_left s.index_le

/-- **A request is added** behind those that wait. -/
theorem addRequest_ok (s : FifoSequencer) (request : ClientRequest) (timestamp : NsTimestampT)
    (h : s.pending.length < maxPendingRequests) :
    ∃ s', s.addRequest request timestamp = .ok s' ∧
      s'.pending = s.pending ++ [⟨timestamp, request⟩] := by
  rw [length_pending] at h
  refine ⟨_, dif_neg h.ne, ?_⟩
  have hlt : s.pendingRequestsIndex < s.pendingRequests.length := by rwa [s.size]
  rw [pending, pending, List.take_succ_eq_append_getElem (by rwa [List.length_set]),
    List.take_set_of_le le_rfl, List.getElem_set_self]

/-- A publish goes through the requests that wait, in the order of the sort. -/
theorem published_eq (s : FifoSequencer) (std : StdSort) :
    s.published std = std.sort s.pending := by
  have hlen : (std.sort s.pending).length = s.pendingRequestsIndex := by
    rw [(std.perm _).length_eq, length_pending]
  exact List.take_left' hlen

@[simp] theorem pending_sequenceAndPublish (s : FifoSequencer) (std : StdSort)
    (requests : LFQueue ClientRequest n) : (s.sequenceAndPublish std requests).1.pending = [] :=
  List.take_zero

/-- The requests of a batch are added one after the other. -/
def addAll (s : FifoSequencer) (batch : List ReceiveTimeClientRequest) :
    Except Fatal FifoSequencer :=
  batch.foldlM (fun s p => s.addRequest p.request p.receiveTimestamp) s

/-- Requests up to the capacity of the array are added behind those that wait. -/
theorem addAll_ok (s : FifoSequencer) (batch : List ReceiveTimeClientRequest)
    (h : s.pending.length + batch.length ≤ maxPendingRequests) :
    ∃ s', s.addAll batch = .ok s' ∧ s'.pending = s.pending ++ batch := by
  induction batch generalizing s with
  | nil => exact ⟨s, rfl, (List.append_nil _).symm⟩
  | cons p batch ih =>
    rw [List.length_cons] at h
    obtain ⟨s₁, hs₁, hp₁⟩ := addRequest_ok s p.request p.receiveTimestamp (by omega)
    have hlen : s₁.pending.length = s.pending.length + 1 := by
      rw [hp₁, List.length_append, List.length_singleton]
    obtain ⟨s', hs', hp'⟩ := ih s₁ (by omega)
    refine ⟨s', ?_, by rw [hp', hp₁, List.append_assoc]; rfl⟩
    rw [addAll, List.foldlM_cons, hs₁]
    exact hs'

/-- The requests are in the order of their times, and those of one time in the
order of the batch. -/
def Fair (batch published : List ReceiveTimeClientRequest) : Prop :=
  (published.Pairwise fun p other => p.receiveTimestamp ≤ other.receiveTimestamp) ∧
    KeepsTies (·.receiveTimestamp) batch published

/-- What `sequenceAndPublish` pushes, to any queue, is the batch in the order of
its times, and those of one time in the order of the batch. -/
def PublishesFairly (s : FifoSequencer) (std : StdSort) (batch : List ReceiveTimeClientRequest) :
    Prop :=
  ∀ (n : ℕ) [NeZero n] (requests : LFQueue ClientRequest n), ∃ arranged, Fair batch arranged ∧
    (s.sequenceAndPublish std requests).2 =
      (arranged.map (·.request)).foldl LFQueue.push requests

/-- The pushes of the loop are those of its requests. -/
theorem snd_sequenceAndPublish (s : FifoSequencer) (std : StdSort)
    (requests : LFQueue ClientRequest n) : (s.sequenceAndPublish std requests).2 =
      ((s.published std).map (·.request)).foldl LFQueue.push requests :=
  List.foldl_map.symm

/-- Lists of the same times in their order, with the same requests, are equal. -/
theorem eq_of_map_request {xs ys : List ReceiveTimeClientRequest} (hp : xs.Perm ys)
    (hx : xs.Pairwise fun p other => p.receiveTimestamp ≤ other.receiveTimestamp)
    (hy : ys.Pairwise fun p other => p.receiveTimestamp ≤ other.receiveTimestamp)
    (h : xs.map (·.request) = ys.map (·.request)) : xs = ys := by
  have htimes : xs.map (·.receiveTimestamp) = ys.map (·.receiveTimestamp) := by
    refine List.Perm.eq_of_pairwise (fun a b _ _ (hab : a ≤ b) hba => Int64.le_antisymm hab hba)
      ?_ ?_ (hp.map _)
    · exact List.pairwise_map.2 hx
    · exact List.pairwise_map.2 hy
  refine List.ext_getElem hp.length_eq fun i hi hi' => ?_
  have ht := List.getElem_of_eq htimes (by simpa using hi)
  have hr := List.getElem_of_eq h (by simpa using hi)
  simp only [List.getElem_map] at ht hr
  rcases hxi : xs[i] with ⟨tx, rx⟩
  rcases hyi : ys[i] with ⟨ty, ry⟩
  rw [hxi, hyi] at ht hr
  obtain rfl : tx = ty := ht
  obtain rfl : rx = ry := hr
  rfl

/-- **What is pushed to a new queue that has room** tells in which order the
batch was published. -/
theorem publishesFairly_iff {s : FifoSequencer} {std : StdSort} :
    s.PublishesFairly std s.pending ↔ Fair s.pending (s.published std) := by
  constructor
  · intro h
    obtain ⟨arranged, hfair, hpush⟩ := h (s.pending.length + 1) .new
    have hperm : arranged.Perm (s.published std) := by
      rw [published_eq]
      exact hfair.2.perm.trans (std.perm _).symm
    have hlen : (s.published std).length = s.pending.length :=
      hperm.length_eq.symm.trans hfair.2.perm.length_eq
    rw [snd_sequenceAndPublish] at hpush
    have hrequests := LFQueue.pushAll_inj (by simp [hperm.length_eq])
      (by rw [List.length_map]; omega) hpush
    have hsorted : (s.published std).Pairwise
        fun p other => p.receiveTimestamp ≤ other.receiveTimestamp := by
      rw [published_eq]
      exact std.pairwise_le _
    rw [← eq_of_map_request hperm hfair.1 hsorted hrequests.symm]
    exact hfair
  · exact fun h n _ requests => ⟨s.published std, h, snd_sequenceAndPublish s std requests⟩

end FifoSequencer

namespace StdSort

variable {p : ReceiveTimeClientRequest} {batch : List ReceiveTimeClientRequest}

/-- A sort that puts `p` before the other requests of its time. -/
def favouring (p : ReceiveTimeClientRequest) : StdSort where
  sort range := sortByKey (·.receiveTimestamp) (if p ∈ range then p :: range.erase p else range)
  perm range := by
    refine sortByKey_perm.trans ?_
    split_ifs with hp
    · exact (List.perm_cons_erase hp).symm
    · exact List.Perm.refl _
  ordered _ := (pairwise_sortByKey ReceiveTimeClientRequest.receiveTimestamp _).imp fun h =>
    decide_eq_false (Int64.not_lt.2 h)

/-- A sort that favours one element of the batch keeps the order of ties as soon
as that element is in front. -/
theorem keepsTies_favouring (hp : p ∈ batch) :
    KeepsTies (·.receiveTimestamp) (p :: batch.erase p) ((favouring p).sort batch) := by
  have hsort : (favouring p).sort batch = sortByKey (·.receiveTimestamp) (p :: batch.erase p) := by
    change sortByKey _ (if p ∈ batch then _ else batch) = _
    rw [if_pos hp]
  rw [hsort]
  exact keepsTies_sortByKey

end StdSort

namespace FifoSequencer

/-- **A batch is pushed in order of arrival** with every sort that the language
allows, if and only if different requests of it have different times. -/
theorem fair_iff (s : FifoSequencer) (batch : List ReceiveTimeClientRequest)
    (hs : s.pendingRequestsIndex = 0) (hlen : batch.length ≤ maxPendingRequests) :
    ∃ s', s.addAll batch = .ok s' ∧ ((∀ std, s'.PublishesFairly std batch) ↔
      ∀ p ∈ batch, ∀ other ∈ batch, p.receiveTimestamp = other.receiveTimestamp → p = other) := by
  have hnil : s.pending = [] := by rw [pending, hs, List.take_zero]
  obtain ⟨s', hs', hp'⟩ := addAll_ok s batch (by rw [hnil]; simpa using hlen)
  rw [hnil, List.nil_append] at hp'
  refine ⟨s', hs', ?_⟩
  simp only [← hp', publishesFairly_iff, published_eq]
  constructor
  · intro hfair p hp other hother
    refine eq_of_keepsTies_cons (fun q hq => ?_) hp hother
    exact (hfair (.favouring q)).2.trans (StdSort.keepsTies_favouring hq).symm
  · intro hties std
    exact ⟨std.pairwise_le s'.pending, keepsTies_of_perm (std.perm s'.pending) hties⟩

/-- The request of a client. -/
def requestOf (clientId : ClientIdT) : ClientRequest := { type := .add, clientId }

/-- Seventeen requests, the first two of one time. -/
def tiedBatch : List ReceiveTimeClientRequest :=
  ⟨5, requestOf 1⟩ :: ⟨5, requestOf 2⟩ ::
    (List.range 15).map fun i => ⟨Int64.ofNat (i + 8), requestOf (UInt32.ofNat (i + 3))⟩

/-- The seventeen requests are an instance: they are added in full, and two of
them share a time. -/
theorem fair_tiedBatch : (new : FifoSequencer).pendingRequestsIndex = 0 ∧
    tiedBatch.length ≤ maxPendingRequests ∧
    ∃ s', new.addAll tiedBatch = .ok s' ∧ ((∀ std, s'.PublishesFairly std tiedBatch) ↔
      ∀ p ∈ tiedBatch, ∀ other ∈ tiedBatch,
        p.receiveTimestamp = other.receiveTimestamp → p = other) :=
  ⟨rfl, by decide, fair_iff new tiedBatch rfl (by decide)⟩

/-- A sort that the language allows pushes the second of two requests of one time
before the first, and the others behind them. -/
theorem not_fair_tiedBatch : ∃ s' std, new.addAll tiedBatch = .ok s' ∧
    (s'.sequenceAndPublish std (.new : LFQueue ClientRequest 32)).2 =
      ([2, 1, 3, 4, 5, 6, 7, 8, 9, 10, 11, 12, 13, 14, 15, 16, 17].map requestOf).foldl
        LFQueue.push .new ∧
    ¬ s'.PublishesFairly std tiedBatch := by
  obtain ⟨s', hs', hp'⟩ := addAll_ok new tiedBatch (by decide +kernel)
  have hnil : (new : FifoSequencer).pending = [] := rfl
  rw [hnil, List.nil_append] at hp'
  refine ⟨s', .favouring ⟨5, requestOf 2⟩, hs', ?_, ?_⟩
  · rw [snd_sequenceAndPublish, published_eq, hp']
    refine congrArg (List.foldl LFQueue.push .new) ?_
    decide +kernel
  · rw [← hp', publishesFairly_iff, published_eq, hp']
    intro hfair
    have hmem : ⟨5, requestOf 2⟩ ∈ tiedBatch := by decide
    have hfive := hfair.2 5
    rw [StdSort.keepsTies_favouring hmem 5] at hfive
    exact absurd hfive (by decide +kernel)

end FifoSequencer

end CppExchange
