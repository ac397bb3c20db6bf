import CppExchange.Library.Window
import Mathlib.Data.List.Infix
import Mathlib.Data.List.Induction

/-!
# The queue between two threads

`include/communication/lf_queue.h`: a ring of `n` slots with an index for the
next write and one for the next read, each advanced modulo `n`.  The queue is
empty when the two indices agree.  `pop` gives out a pointer into the ring, null
when the queue is empty.

Over the history of a queue `LFQueue.Holds` says which items it has: `pushed`
were pushed, the first `taken` of them were popped, and the rest are in their
slots.  The indices agree when nothing is outstanding and when `n` items are
(`Holds.empty_iff`), so a ring that has been filled reads as empty.  A sequence
of calls that never has more than `n` items outstanding gets the answers of a
FIFO queue if and only if it never pops a full ring (`fifo_iff`).
-/

namespace CppExchange

open Library

/-- `Communication::LFQueue<T>`, with `n` slots. -/
structure LFQueue (T : Type) (n : ℕ) where
  data : Fin n → T
  nextWriteIndex : Fin n
  nextReadIndex : Fin n

namespace LFQueue

variable {T : Type} {n : ℕ} [NeZero n]

/-- `LFQueue(n)`. -/
def new [Inhabited T] : LFQueue T n := ⟨fun _ => default, 0, 0⟩

/-- `(index + 1) % data_.size()`. -/
def next (index : Fin n) : Fin n := slot n (index + 1)

def empty (q : LFQueue T n) : Bool := q.nextReadIndex == q.nextWriteIndex

/-- `data_[next_write_index_] = item`, the first half of a push. -/
def writeSlot (q : LFQueue T n) (item : T) : LFQueue T n :=
  { q with data := Function.update q.data q.nextWriteIndex item }

/-- The second half of a push. -/
def advanceWrite (q : LFQueue T n) : LFQueue T n :=
  { q with nextWriteIndex := next q.nextWriteIndex }

def push (q : LFQueue T n) (item : T) : LFQueue T n := (q.writeSlot item).advanceWrite

/-- The second half of a pop that found an item. -/
def advanceRead (q : LFQueue T n) : LFQueue T n :=
  { q with nextReadIndex := next q.nextReadIndex }

/-- `pop`, with the slot that the returned pointer points to. -/
def pop (q : LFQueue T n) : LFQueue T n × Option (Fin n) :=
  let item := if !q.empty then some q.nextReadIndex else none
  (if item.isSome then q.advanceRead else q, item)

theorem next_slot (i : ℕ) : next (slot n i) = slot n (i + 1) :=
  Fin.ext (Nat.mod_add_mod i n 1)

/-- The queue after `pushed` were pushed and the first `taken` of them popped. -/
structure Holds (q : LFQueue T n) (pushed : List T) (taken : ℕ) : Prop where
  write : q.nextWriteIndex = slot n pushed.length
  read : q.nextReadIndex = slot n taken
  behind : taken ≤ pushed.length
  window : Window q.data pushed taken

variable {q : LFQueue T n} {pushed : List T} {taken : ℕ}

/-- A new queue holds nothing. -/
theorem Holds.new [Inhabited T] : Holds (.new : LFQueue T n) [] 0 where
  write := Fin.ext (Nat.zero_mod n).symm
  read := Fin.ext (Nat.zero_mod n).symm
  behind := le_rfl
  window := .nil

/-- A push while a slot is free adds its item to the history. -/
theorem Holds.push (h : q.Holds pushed taken) (item : T) (hroom : pushed.length < taken + n) :
    (q.push item).Holds (pushed ++ [item]) taken where
  write := by
    rw [List.length_append, List.length_singleton, ← next_slot, ← h.write]
    rfl
  read := h.read
  behind := by
    have := h.behind
    rw [List.length_append, List.length_singleton]
    omega
  window := by
    have := h.window.push (x := item) hroom
    rwa [← h.write] at this

/-- **The indices agree** when nothing is outstanding, and when the ring is
full. -/
theorem Holds.empty_iff (h : q.Holds pushed taken) :
    q.empty = true ↔ pushed.length = taken ∨ pushed.length = taken + n := by
  have hbehind := h.behind
  have hwidth := h.window.width
  rw [LFQueue.empty, beq_iff_eq, h.read, h.write]
  constructor
  · intro he
    by_contra hne
    exact slot_ne (by omega) (by omega) he
  · rintro (he | he)
    · rw [he]
    · rw [he, slot_add_self]

/-- A pop of an empty queue, or of a full ring, returns null. -/
theorem pop_of_empty (h : q.empty = true) : q.pop = (q, none) := by
  simp [pop, h]

theorem pop_of_not_empty (h : q.empty = false) :
    q.pop = (q.advanceRead, some q.nextReadIndex) := by
  simp [pop, h]

/-- Taking one more item keeps the rest. -/
theorem Holds.advanceRead (h : q.Holds pushed taken) (hlt : taken < pushed.length) :
    q.advanceRead.Holds pushed (taken + 1) where
  write := h.write
  read := by
    rw [← next_slot, ← h.read]
    rfl
  behind := hlt
  window := h.window.mono (Nat.le_succ taken)

/-- **The oldest outstanding item** is under the pointer. -/
theorem Holds.head (h : q.Holds pushed taken) (hlt : taken < pushed.length) :
    pushed[taken]? = some (q.data q.nextReadIndex) := by
  rw [List.getElem?_eq_getElem hlt, h.read,
    h.window.kept taken pushed[taken] le_rfl (List.getElem?_eq_getElem hlt)]

/-- **A pop** of a ring that is not full returns null when nothing is
outstanding, and otherwise gives out the oldest item. -/
theorem Holds.pop (h : q.Holds pushed taken) (hroom : pushed.length < taken + n) :
    (pushed.length = taken ∧ q.pop = (q, none)) ∨
      (taken < pushed.length ∧ q.pop = (q.advanceRead, some q.nextReadIndex)) := by
  have hbehind := h.behind
  cases he : q.empty with
  | true =>
    refine Or.inl ⟨?_, pop_of_empty he⟩
    rcases h.empty_iff.1 he with he | he
    · exact he
    · omega
  | false =>
    refine Or.inr ⟨?_, pop_of_not_empty he⟩
    have hne : ¬ (pushed.length = taken ∨ pushed.length = taken + n) := by
      rw [← h.empty_iff, he]
      simp
    omega

/-- Items pushed one after the other, into slots that are free. -/
theorem Holds.pushAll (h : q.Holds pushed taken) (items : List T)
    (hroom : pushed.length + items.length ≤ taken + n) :
    (items.foldl LFQueue.push q).Holds (pushed ++ items) taken := by
  induction items generalizing q pushed with
  | nil => rwa [List.append_nil]
  | cons item items ih =>
    rw [List.length_cons] at hroom
    have := ih (h.push item (by omega)) (by simp; omega)
    rwa [List.append_assoc, List.singleton_append] at this

/-- A new ring tells what was pushed to it. -/
theorem pushAll_inj [Inhabited T] {items items' : List T} (hlen : items.length = items'.length)
    (hroom : items.length ≤ n)
    (h : items.foldl LFQueue.push (new : LFQueue T n) = items'.foldl LFQueue.push new) :
    items = items' := by
  have hitems := (Holds.new (T := T) (n := n)).pushAll items (by simpa using hroom)
  have hitems' := (Holds.new (T := T) (n := n)).pushAll items' (by simpa [← hlen] using hroom)
  rw [← h, List.nil_append] at hitems'
  exact hitems.window.eq_of_length hitems'.window hlen

end LFQueue

/-- A call on a queue. -/
inductive QueueCall (T : Type)
  | push (item : T)
  | pop
  deriving DecidableEq

namespace LFQueue

variable {T : Type} {n : ℕ}

/-- A call on a FIFO queue without bound, with the answers given so far. -/
def fifoCall (s : List T × List (Option T)) : QueueCall T → List T × List (Option T)
  | .push item => (s.1 ++ [item], s.2)
  | .pop => (s.1.tail, s.2 ++ [s.1.head?])

/-- The items outstanding after the calls, and the answers to their pops. -/
def fifo (calls : List (QueueCall T)) : List T × List (Option T) :=
  calls.foldl fifoCall ([], [])

/-- There are never more than `n` items outstanding. -/
def Within (n : ℕ) (calls : List (QueueCall T)) : Prop :=
  ∀ p ∈ calls.inits, (fifo p).1.length ≤ n

/-- No pop is made while the ring is full. -/
def NoFullPop (n : ℕ) (calls : List (QueueCall T)) : Prop :=
  ∀ p ∈ calls.inits, p ++ [.pop] ∈ calls.inits → (fifo p).1.length < n

instance (calls : List (QueueCall T)) : Decidable (Within n calls) := List.decidableBAll _ _

instance [DecidableEq T] (calls : List (QueueCall T)) : Decidable (NoFullPop n calls) :=
  List.decidableBAll _ _

theorem fifo_concat {calls : List (QueueCall T)} {c : QueueCall T} :
    fifo (calls ++ [c]) = fifoCall (fifo calls) c := List.foldl_append

/-- Staying within the bound is a matter of the calls before and of what the
last call leaves. -/
theorem Within.of_concat {calls : List (QueueCall T)} {c : QueueCall T}
    (h : Within n (calls ++ [c])) : Within n calls ∧ (fifo (calls ++ [c])).1.length ≤ n := by
  constructor
  · intro p hp
    exact h p (by rw [List.inits_append]; exact List.mem_append_left _ hp)
  · exact h _ ((List.mem_inits _ _).2 (List.prefix_refl _))

/-- Popping from a queue that is not full is a matter of the calls before and,
for a pop, of what is outstanding when it is made. -/
theorem noFullPop_concat {calls : List (QueueCall T)} {c : QueueCall T} :
    NoFullPop n (calls ++ [c]) ↔
      NoFullPop n calls ∧ (c = .pop → (fifo calls).1.length < n) := by
  simp only [NoFullPop, List.mem_inits]
  constructor
  · intro h
    refine ⟨fun p hp hpop => ?_, fun hc => ?_⟩
    · exact h p (hp.trans (List.prefix_append _ _)) (hpop.trans (List.prefix_append _ _))
    · exact h calls (List.prefix_append _ _) (by rw [hc])
  · rintro ⟨h, hc⟩ p - hpop
    rcases List.prefix_concat_iff.1 hpop with he | hp
    · obtain ⟨rfl, hcc⟩ := List.append_inj' he rfl
      exact hc (List.cons.inj hcc).1.symm
    · exact h p ((List.prefix_append _ _).trans hp) hp

variable [NeZero n]

/-- A call, with the items that the pops so far have given out: what is read
through the pointer, or nothing for null. -/
def call (s : LFQueue T n × List (Option T)) : QueueCall T → LFQueue T n × List (Option T)
  | .push item => (s.1.push item, s.2)
  | .pop =>
    let r := s.1.pop
    (r.1, s.2 ++ [r.2.map r.1.data])

/-- The calls made on a new queue with `n` slots. -/
def run [Inhabited T] (n : ℕ) [NeZero n] (calls : List (QueueCall T)) :
    LFQueue T n × List (Option T) :=
  calls.foldl call (new, [])

theorem run_concat [Inhabited T] {calls : List (QueueCall T)} {c : QueueCall T} :
    run n (calls ++ [c]) = call (run n calls) c := List.foldl_append

/-- The queue has the items `outstanding`, the oldest one first. -/
def Outstanding (q : LFQueue T n) (outstanding : List T) : Prop :=
  ∃ pushed taken, q.Holds pushed taken ∧ outstanding = pushed.drop taken

/-- **One call** on a ring that has its items, when it pushes into a free slot or
pops while the ring is not full, has the answer of the FIFO queue. -/
theorem call_sim {s : LFQueue T n × List (Option T)} {t : List T × List (Option T)}
    {c : QueueCall T} (hq : Outstanding s.1 t.1) (ha : s.2 = t.2)
    (hlen : (fifoCall t c).1.length ≤ n) (hpop : c = .pop → t.1.length < n) :
    Outstanding (call s c).1 (fifoCall t c).1 ∧ (call s c).2 = (fifoCall t c).2 := by
  obtain ⟨pushed, taken, h, ht⟩ := hq
  have hbehind := h.behind
  have hlength : t.1.length = pushed.length - taken := by rw [ht, List.length_drop]
  cases c with
  | push item =>
    rw [fifoCall, List.length_append, List.length_singleton] at hlen
    refine ⟨⟨pushed ++ [item], taken, h.push item (by omega), ?_⟩, ha⟩
    rw [fifoCall, List.drop_append_of_le_length h.behind, ← ht]
  | pop =>
    have hroom := hpop rfl
    simp only [call, fifoCall]
    rcases h.pop (by omega) with ⟨he, hp⟩ | ⟨hlt, hp⟩
    · have hnil : t.1 = [] := by rw [ht, List.drop_of_length_le (by omega)]
      rw [hp, hnil, ha]
      exact ⟨⟨pushed, taken, h, by rw [← ht, hnil]; rfl⟩, rfl⟩
    · rw [hp, ha]
      refine ⟨⟨pushed, taken + 1, h.advanceRead hlt, ?_⟩, ?_⟩
      · rw [ht, List.tail_drop]
      · rw [ht, List.head?_drop, h.head hlt]
        rfl

/-- A pop of a full ring says that nothing is there. -/
theorem call_full {s : LFQueue T n × List (Option T)} {t : List T × List (Option T)}
    (hq : Outstanding s.1 t.1) (hlen : t.1.length = n) :
    (call s .pop).2 = s.2 ++ [none] ∧ ∃ x, (fifoCall t .pop).2 = t.2 ++ [some x] := by
  obtain ⟨pushed, taken, h, ht⟩ := hq
  have hbehind := h.behind
  have hpos := Nat.pos_of_ne_zero (NeZero.ne n)
  have hlength : t.1.length = pushed.length - taken := by rw [ht, List.length_drop]
  constructor
  · rw [call, pop_of_empty (h.empty_iff.2 (Or.inr (by omega)))]
    rfl
  · exact ⟨_, by rw [fifoCall, ht, List.head?_drop, h.head (by omega)]⟩

/-- **While no pop is made on a full ring** the ring has the items of the FIFO
queue and gives its answers. -/
theorem run_sim [Inhabited T] {calls : List (QueueCall T)} (hcap : Within n calls)
    (hpop : NoFullPop n calls) :
    Outstanding (run n calls).1 (fifo calls).1 ∧ (run n calls).2 = (fifo calls).2 := by
  induction calls using List.reverseRecOn with
  | nil => exact ⟨⟨[], 0, .new, rfl⟩, rfl⟩
  | append_singleton calls c ih =>
    obtain ⟨hcalls, hlen⟩ := hcap.of_concat
    obtain ⟨hpops, hc⟩ := noFullPop_concat.1 hpop
    obtain ⟨hq, ha⟩ := ih hcalls hpops
    rw [fifo_concat] at hlen ⊢
    rw [run_concat]
    exact call_sim hq ha hlen hc

/-- **The queue is a FIFO queue,** for calls that never have more than `n` items
outstanding, if and only if no pop is made while it has `n`: every answer is the
oldest item outstanding, or nothing when there is none, exactly then. -/
theorem fifo_iff [Inhabited T] (calls : List (QueueCall T)) (hcap : Within n calls) :
    (run n calls).2 = (fifo calls).2 ↔ NoFullPop n calls := by
  refine ⟨fun ha => ?_, fun hpop => (run_sim hcap hpop).2⟩
  induction calls using List.reverseRecOn with
  | nil =>
    intro p hp hpp
    simp at hpp
  | append_singleton calls c ih =>
    obtain ⟨hcalls, -⟩ := hcap.of_concat
    rw [run_concat, fifo_concat] at ha
    cases c with
    | push item => exact noFullPop_concat.2 ⟨ih hcalls ha, fun hc => by cases hc⟩
    | pop =>
      have hpops := ih hcalls (List.append_inj' ha rfl).1
      refine noFullPop_concat.2 ⟨hpops, fun _ => ?_⟩
      by_contra hfull
      have hle := hcalls calls ((List.mem_inits _ _).2 (List.prefix_refl _))
      obtain ⟨hnone, x, hsome⟩ := call_full (run_sim hcalls hpops).1 (by omega)
      rw [hnone, hsome] at ha
      cases (List.append_inj' ha rfl).2

/-- Ten pushes into ten slots and the pops that take them back. -/
def tenThenPops : List (QueueCall ℕ) :=
  (List.range 10).map .push ++ List.replicate 10 .pop

/-- Three items through two slots, one at a time. -/
def oneByOne : List (QueueCall ℕ) := [.push 4, .pop, .pop, .push 5, .pop, .push 6, .pop]

theorem fifo_oneByOne : Within 2 oneByOne ∧
    ((run 2 oneByOne).2 = (fifo oneByOne).2 ↔ NoFullPop 2 oneByOne) :=
  ⟨by decide, fifo_iff oneByOne (by decide)⟩

/-- The calls of a ring of ten that takes ten items: they keep to its capacity,
and its first pop returns null. -/
theorem not_fifo_tenThenPops : Within 10 tenThenPops ∧
    (run 10 tenThenPops).2 ≠ (fifo tenThenPops).2 ∧
    (run 10 tenThenPops).2.head? = some none ∧ (fifo tenThenPops).2.head? = some (some 0) := by
  decide

end LFQueue

end CppExchange
