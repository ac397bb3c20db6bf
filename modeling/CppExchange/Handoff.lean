import CppExchange.Library.Fallible
import CppExchange.LFQueue
import Mathlib.Data.List.Forall2

/-!
# One producer and one consumer

The steps in which a push and a pop of `include/communication/lf_queue.h` touch
the ring, with one thread on each side, and the reads of the item through the
pointer that the pop returned, as `Exchange::run` makes them through
`next_request`.  The steps of the two threads come in any order.

The pointer stays in use after its slot was given back, so a push that begins
when `n - 1` items are outstanding writes over it.  While a push begins with at
most `n - 2` items outstanding (`Paced`), the slot behind the read index keeps
its item (`Handoff.Safe`), and every read yields what was pushed
(`delivered_of_run`).
-/

namespace CppExchange

open Library

namespace Handoff

/-- Where the producer is in a push. -/
inductive ProducerPhase
  | idle
  | written
  deriving DecidableEq

/-- Where the consumer is in a pop; between two pops it has the pointer that the
last one returned. -/
inductive ConsumerPhase (n : ℕ)
  | idle (item : Option (Fin n))
  | looked (empty : Bool)
  | remembered (item : Fin n)
  deriving DecidableEq

/-- The queue and the two threads, with the items of the pushes begun and, for
each pointer returned, the values read through it. -/
structure State (T : Type) (n : ℕ) where
  queue : LFQueue T n
  producer : ProducerPhase := .idle
  consumer : ConsumerPhase n := .idle none
  pushed : List T := []
  reads : List (List T) := []

/-- A step of either thread. -/
inductive Action (T : Type)
  /-- The producer writes its item into the slot at `next_write_index_`. -/
  | write (item : T)
  /-- It advances `next_write_index_`. -/
  | advanceWrite
  /-- The consumer reads both indices. -/
  | look
  /-- It takes the address of the slot at `next_read_index_`, or null. -/
  | remember
  /-- It advances `next_read_index_`, and returns the pointer. -/
  | advanceRead
  /-- It reads the item through the pointer. -/
  | read
  deriving DecidableEq

/-- The step is not the next one of its thread. -/
inductive OutOfTurn
  | outOfTurn
  deriving DecidableEq

variable {T : Type} {n : ℕ} [NeZero n]

def start [Inhabited T] : State T n := { queue := .new }

def step (s : State T n) : Action T → Except OutOfTurn (State T n)
  | .write item =>
    match s.producer with
    | .idle => .ok { s with
        queue := s.queue.writeSlot item
        producer := .written
        pushed := s.pushed ++ [item] }
    | .written => .error .outOfTurn
  | .advanceWrite =>
    match s.producer with
    | .idle => .error .outOfTurn
    | .written => .ok { s with queue := s.queue.advanceWrite, producer := .idle }
  | .look =>
    match s.consumer with
    | .idle _ => .ok { s with consumer := .looked s.queue.empty }
    | _ => .error .outOfTurn
  | .remember =>
    match s.consumer with
    | .looked true => .ok { s with consumer := .idle none }
    | .looked false => .ok { s with consumer := .remembered s.queue.nextReadIndex }
    | _ => .error .outOfTurn
  | .advanceRead =>
    match s.consumer with
    | .remembered item => .ok { s with
        queue := s.queue.advanceRead
        consumer := .idle (some item)
        reads := s.reads ++ [[]] }
    | _ => .error .outOfTurn
  | .read =>
    match s.consumer with
    | .idle (some item) =>
      .ok { s with reads := s.reads.modify (s.reads.length - 1) (· ++ [s.queue.data item]) }
    | _ => .error .outOfTurn

/-- A push begins only while at most `n - 2` items are outstanding. -/
def Paced (s : State T n) : Action T → Prop
  | .write _ => s.pushed.length + 2 ≤ s.reads.length + n
  | _ => True

/-- The item of a push that begins. -/
def Action.item? : Action T → Option T
  | .write item => some item
  | _ => none

/-- The end of a pop that returns an item. -/
def Action.takes : Action T → Bool
  | .advanceRead => true
  | _ => false

/-- The items of the pushes that began. -/
def itemsWritten (actions : List (Action T)) : List T := actions.filterMap Action.item?

/-- How many pops returned an item. -/
def popsTaken (actions : List (Action T)) : ℕ := actions.countP Action.takes

/-- What the consumer has is the slot of the item it is about to take, or of the
last one it took. -/
def ConsumerPhase.Points (taken landed : ℕ) : ConsumerPhase n → Prop
  | .idle none => True
  | .idle (some item) => 0 < taken ∧ item = slot n (taken - 1)
  | .looked true => True
  | .looked false => taken < landed
  | .remembered item => taken < landed ∧ item = slot n taken

/-- A consumer that has a slot still has it when more items land. -/
theorem ConsumerPhase.Points.mono {consumer : ConsumerPhase n} {taken landed landed' : ℕ}
    (h : consumer.Points taken landed) (hle : landed ≤ landed') :
    consumer.Points taken landed' := by
  unfold Points at *
  split at h
  · trivial
  · exact h
  · trivial
  · omega
  · exact ⟨by omega, h.2⟩

/-- The items whose slots the producer has finished with. -/
def State.landed (s : State T n) : List T :=
  match s.producer with
  | .idle => s.pushed
  | .written => s.pushed.dropLast

/-- **The invariant,** after `landed` pushes and `taken` pops that returned an
item: the items from the last one taken on are in their slots, and what was read
is what was pushed. -/
structure Safe (s : State T n) (landed taken : ℕ) : Prop where
  landed_eq : s.landed.length = landed
  taken_eq : s.reads.length = taken
  begun : s.pushed.length = match s.producer with
    | .idle => landed
    | .written => landed + 1
  writeIndex : s.queue.nextWriteIndex = slot n landed
  readIndex : s.queue.nextReadIndex = slot n taken
  behind : taken ≤ landed
  room : s.pushed.length < taken + n
  window : Window s.queue.data s.pushed (taken - 1)
  points : s.consumer.Points taken landed
  reads : ∀ (i : ℕ) vs, s.reads[i]? = some vs → ∀ x ∈ vs, s.pushed[i]? = some x

variable {s : State T n} {landed taken : ℕ}

theorem Safe.landed_le (h : Safe s landed taken) : landed ≤ s.pushed.length := by
  have := h.begun
  split at this <;> omega

/-- The indices agree only when every item that landed was taken. -/
theorem Safe.empty_iff (h : Safe s landed taken) : s.queue.empty = true ↔ landed = taken := by
  have hbehind := h.behind
  have hlanded := h.landed_le
  have hroom := h.room
  rw [LFQueue.empty, beq_iff_eq, h.readIndex, h.writeIndex, slot_inj hbehind (by omega)]
  exact eq_comm

/-- The ring as it is built is safe, with nothing landed and nothing taken. -/
theorem Safe.start [Inhabited T] : Safe (start : State T n) 0 0 where
  landed_eq := rfl
  taken_eq := rfl
  begun := rfl
  writeIndex := Fin.ext (Nat.zero_mod n).symm
  readIndex := Fin.ext (Nat.zero_mod n).symm
  behind := le_rfl
  room := Nat.lt_add_left _ (Nat.pos_of_ne_zero (NeZero.ne n))
  window := .nil
  points := trivial
  reads := fun i vs hi => by simp [Handoff.start] at hi

/-- **The producer writes** into a slot that nobody reads from. -/
theorem Safe.write (h : Safe s landed taken) (hidle : s.producer = .idle) (item : T)
    (hp : s.pushed.length + 2 ≤ taken + n) :
    Safe { s with
      queue := s.queue.writeSlot item
      producer := .written
      pushed := s.pushed ++ [item] } landed taken := by
  have hbegun := h.begun
  rw [hidle] at hbegun
  have hlength : (s.pushed ++ [item]).length = s.pushed.length + 1 := List.length_append
  have hroom : s.pushed.length + 1 < taken + n := hp
  have hwindow := h.window.push (x := item) (by omega)
  refine ⟨?_, h.taken_eq, ?_, h.writeIndex, h.readIndex, h.behind, ?_, ?_, h.points,
    fun i vs hi x hx => ?_⟩
  · simp [State.landed, hbegun]
  · simpa using hbegun
  · rwa [hlength]
  · rwa [hbegun, ← h.writeIndex] at hwindow
  · have hx := h.reads i vs hi x hx
    have hlt := (List.getElem?_eq_some_iff.1 hx).1
    rwa [List.getElem?_append_left hlt]

/-- The written item lands. -/
theorem Safe.advanceWrite (h : Safe s landed taken) (hwritten : s.producer = .written) :
    Safe { s with queue := s.queue.advanceWrite, producer := .idle } (landed + 1) taken := by
  have hbegun := h.begun
  rw [hwritten] at hbegun
  refine ⟨hbegun, h.taken_eq, hbegun, ?_, h.readIndex, Nat.le_succ_of_le h.behind, h.room,
    h.window, ?_, h.reads⟩
  · rw [← LFQueue.next_slot, ← h.writeIndex]
    rfl
  · exact h.points.mono (Nat.le_succ landed)

/-- Looking at the indices changes neither; when they differ, an item has landed
that was not taken. -/
theorem Safe.look (h : Safe s landed taken) :
    Safe { s with consumer := .looked s.queue.empty } landed taken := by
  have hbehind := h.behind
  refine ⟨h.landed_eq, h.taken_eq, h.begun, h.writeIndex, h.readIndex, h.behind, h.room, h.window,
    ?_, h.reads⟩
  cases he : s.queue.empty with
  | true => trivial
  | false =>
    have hne : ¬ landed = taken := by rw [← h.empty_iff, he]; simp
    exact Nat.lt_of_le_of_ne h.behind (Ne.symm hne)

/-- **The consumer takes** the item it has the address of, which stays where it
is. -/
theorem Safe.advanceRead {item : Fin n} (h : Safe s landed taken)
    (hr : s.consumer = .remembered item) :
    Safe { s with
      queue := s.queue.advanceRead
      consumer := .idle (some item)
      reads := s.reads ++ [[]] } landed (taken + 1) := by
  have hpoints := h.points
  rw [hr] at hpoints
  obtain ⟨hlt, hitem⟩ := hpoints
  refine ⟨h.landed_eq, ?_, h.begun, h.writeIndex, ?_, hlt, ?_, h.window.mono (Nat.sub_le _ _),
    ⟨Nat.succ_pos _, hitem⟩, fun i vs hi x hx => ?_⟩
  · rw [List.length_append, h.taken_eq, List.length_singleton]
  · rw [← LFQueue.next_slot, ← h.readIndex]
    rfl
  · exact h.room.trans (by omega)
  · rcases Nat.lt_or_ge i s.reads.length with hlt | hge
    · rw [List.getElem?_append_left hlt] at hi
      exact h.reads i vs hi x hx
    · rw [List.getElem?_append_right hge, List.getElem?_singleton] at hi
      split_ifs at hi
      obtain rfl := Option.some.inj hi
      cases hx

/-- **The pointer shows** the item of the last pop. -/
theorem Safe.shown {item : Fin n} (h : Safe s landed taken) (hr : s.consumer = .idle (some item)) :
    s.pushed[taken - 1]? = some (s.queue.data item) := by
  have hpoints := h.points
  rw [hr] at hpoints
  obtain ⟨hpos, rfl⟩ := hpoints
  have hlt : taken - 1 < s.pushed.length := by
    have := h.behind
    have := h.landed_le
    omega
  rw [h.window.kept _ _ le_rfl (List.getElem?_eq_getElem hlt), List.getElem?_eq_getElem hlt]

/-- **The consumer reads** the item that was pushed. -/
theorem Safe.readItem {item : Fin n} (h : Safe s landed taken)
    (hr : s.consumer = .idle (some item)) :
    Safe { s with reads := s.reads.modify (s.reads.length - 1) (· ++ [s.queue.data item]) }
      landed taken := by
  have hval := h.shown hr
  refine ⟨h.landed_eq, ?_, h.begun, h.writeIndex, h.readIndex, h.behind, h.room, h.window,
    h.points, fun i vs hi x hx => ?_⟩
  · rw [List.length_modify, h.taken_eq]
  · rw [h.taken_eq, List.getElem?_modify] at hi
    split_ifs at hi with he
    · subst he
      obtain ⟨ws, hws, rfl⟩ := Option.map_eq_some_iff.1 hi
      rcases List.mem_append.1 hx with hx | hx
      · exact h.reads _ ws hws x hx
      · rw [List.mem_singleton.1 hx]
        exact hval
    · exact h.reads i vs (by simpa using hi) x hx

/-- **Every step** of a paced run keeps the invariant. -/
theorem Safe.step {s' : State T n} {a : Action T} (h : Safe s landed taken) (hp : Paced s a)
    (hs : step s a = .ok s') : ∃ landed' taken', Safe s' landed' taken' := by
  cases a with
  | write item =>
    cases hc : s.producer <;> simp only [Handoff.step, hc] at hs <;> cases hs
    exact ⟨_, _, h.write hc item (by rw [← h.taken_eq]; exact hp)⟩
  | advanceWrite =>
    cases hc : s.producer <;> simp only [Handoff.step, hc] at hs <;> cases hs
    exact ⟨_, _, h.advanceWrite hc⟩
  | look =>
    cases hc : s.consumer <;> simp only [Handoff.step, hc] at hs <;> cases hs
    exact ⟨_, _, h.look⟩
  | remember =>
    have hpoints := h.points
    rcases hc : s.consumer with p | b | p <;> simp only [Handoff.step, hc] at hs
    · cases hs
    · rw [hc] at hpoints
      cases b <;> cases hs
      · exact ⟨_, _, { h with points := ⟨hpoints, h.readIndex⟩ }⟩
      · exact ⟨_, _, { h with points := trivial }⟩
    · cases hs
  | advanceRead =>
    cases hc : s.consumer <;> simp only [Handoff.step, hc] at hs <;> cases hs
    exact ⟨_, _, h.advanceRead hc⟩
  | read =>
    rcases hc : s.consumer with (_ | p) | b | p <;> simp only [Handoff.step, hc] at hs <;> cases hs
    exact ⟨landed, taken, by simpa only [hc] using h.readItem hc⟩

/-- The log of a state is what the steps did: the items of the writes, and an
entry for each pop that returned an item. -/
def Logs (actions : List (Action T)) (s : State T n) : Prop :=
  s.pushed = itemsWritten actions ∧ s.reads.length = popsTaken actions

/-- A step is logged as the actions tell it: a write adds its item, taking an
index adds a pop, a read belongs to the last pop. -/
theorem Logs.step {s' : State T n} {actions : List (Action T)} {a : Action T}
    (h : Logs actions s) (hs : step s a = .ok s') : Logs (actions ++ [a]) s' := by
  obtain ⟨hpushed, hreads⟩ := h
  rw [Logs, itemsWritten, popsTaken, List.filterMap_append, List.countP_append, ← itemsWritten,
    ← popsTaken, ← hpushed, ← hreads]
  cases a with
  | write item | advanceWrite =>
    cases hc : s.producer <;> simp only [Handoff.step, hc] at hs <;> cases hs
    exact ⟨by simp [Action.item?], by simp [Action.takes]⟩
  | look | remember | advanceRead | read =>
    rcases hc : s.consumer with (_ | p) | (_ | _) | p <;> simp only [Handoff.step, hc] at hs <;>
      cases hs <;> exact ⟨by simp [Action.item?], by simp [Action.takes]⟩

/-- **The log is what the steps did.** -/
theorem logs_of_run [Inhabited T] {actions : List (Action T)} {s : State T n}
    (h : actions.foldlM Handoff.step start = .ok s) : Logs actions s :=
  foldlM_induction (P := fun actions s => Logs actions s) ⟨rfl, rfl⟩
    (fun _ _ _ _ _ hl hs => hl.step hs) h

/-- What was read through each pointer, when all but the last were read through,
is a beginning of what was pushed. -/
theorem firstReads_initial {values : List T} {reads : List (List T)}
    (h : List.Forall₂ (fun v vs => ∀ x ∈ vs, x = v) values reads)
    (hread : ∀ vs ∈ reads.dropLast, vs ≠ []) : reads.filterMap List.head? <+: values := by
  induction h with
  | nil => exact List.prefix_refl _
  | @cons v vs values reads hv hrest ih =>
    cases hrest with
    | nil =>
      cases vs with
      | nil => exact List.nil_prefix
      | cons x xs => rw [hv x (List.mem_cons_self ..)]; exact List.prefix_refl _
    | @cons w ws values reads hw hrest =>
      obtain ⟨x, xs, rfl⟩ := List.exists_cons_of_ne_nil (hread vs (by simp))
      rw [hv x (List.mem_cons_self ..)]
      simp only [List.filterMap_cons, List.head?_cons, List.prefix_cons_inj]
      exact ih fun us hus => hread us (by simp [hus])

/-- Every interleaving whose writes are paced is safe at its end. -/
theorem safe_of_run [Inhabited T] {actions : List (Action T)} {s : State T n}
    (hp : EachStep step Paced (start : State T n) actions)
    (h : actions.foldlM step start = .ok s) : ∃ landed taken, Safe s landed taken :=
  foldlM_invariant (P := fun s => ∃ landed taken, Safe s landed taken) ⟨0, 0, .start⟩
    (fun _ _ _ ⟨_, _, hs⟩ hp hstep => hs.step hp hstep) hp h

/-- **Every read is of the item of the last pop,** in terms of what the steps
before it wrote and took. -/
theorem shown_of_run [Inhabited T] {actions done rest : List (Action T)} {s s₁ : State T n}
    (hp : EachStep step Paced (start : State T n) actions) (h : actions.foldlM step start = .ok s)
    (he : actions = done ++ .read :: rest) (h₁ : done.foldlM step start = .ok s₁) :
    ∃ item, s₁.consumer = .idle (some item) ∧
      (itemsWritten done)[popsTaken done - 1]? = some (s₁.queue.data item) := by
  subst he
  obtain ⟨landed, taken, hs⟩ := safe_of_run hp.of_append h₁
  obtain ⟨hpushed, hreads⟩ := logs_of_run h₁
  rw [List.foldlM_append, h₁, ok_bind, List.foldlM_cons, bind_eq_ok] at h
  obtain ⟨s₂, hread, -⟩ := h
  rcases hc : s₁.consumer with (_ | item) | b | p <;> simp only [step, hc] at hread <;> cases hread
  refine ⟨item, rfl, ?_⟩
  rw [← hpushed, ← hreads, hs.taken_eq]
  exact hs.shown hc

/-- **Delivery through returned pointers.**  In every interleaving in which a
push begins only while at most `n - 2` items are outstanding, the `i`-th pointer
returned yields the `i`-th item pushed at every read, so the values read are a
beginning of those pushed; and the consumer finds the queue empty only when it
has taken every item that landed.  What was pushed is what the steps wrote, each
pop that returned an item has its reads, and each of the reads finds in memory
the item that this pop took. -/
theorem delivered_of_run [Inhabited T] {actions : List (Action T)} {s : State T n}
    (hp : EachStep step Paced (start : State T n) actions)
    (h : actions.foldlM step start = .ok s) :
    s.reads.length ≤ s.pushed.length ∧
      List.Forall₂ (fun v vs => ∀ x ∈ vs, x = v) (s.pushed.take s.reads.length) s.reads ∧
      ((∀ vs ∈ s.reads.dropLast, vs ≠ []) → s.reads.filterMap List.head? <+: s.pushed) ∧
      (s.queue.empty = true ↔ s.landed.length = s.reads.length) ∧
      s.pushed = itemsWritten actions ∧ s.reads.length = popsTaken actions ∧
      ∀ done rest (s₁ : State T n), actions = done ++ .read :: rest →
        done.foldlM step start = .ok s₁ → ∃ item, s₁.consumer = .idle (some item) ∧
          (itemsWritten done)[popsTaken done - 1]? = some (s₁.queue.data item) := by
  obtain ⟨landed, taken, hs⟩ := safe_of_run hp h
  have hle : s.reads.length ≤ s.pushed.length := by
    rw [hs.taken_eq]
    exact hs.behind.trans hs.landed_le
  have hall : List.Forall₂ (fun v vs => ∀ x ∈ vs, x = v) (s.pushed.take s.reads.length)
      s.reads := by
    rw [List.forall₂_iff_get]
    refine ⟨by rw [List.length_take]; omega, fun i hi hi' x hx => ?_⟩
    have := hs.reads i _ (List.getElem?_eq_getElem hi') x hx
    rw [List.getElem?_eq_getElem (by omega)] at this
    simpa using (Option.some.inj this).symm
  obtain ⟨hpushed, hreads⟩ := logs_of_run h
  refine ⟨hle, hall, fun hread => ?_, ?_, hpushed, hreads, fun _ _ _ he h₁ =>
    shown_of_run hp h he h₁⟩
  · exact (firstReads_initial hall hread).trans (List.take_prefix _ _)
  · rw [hs.empty_iff, hs.landed_eq, hs.taken_eq]

instance (s : State T n) : ∀ a : Action T, Decidable (Paced s a)
  | .write _ => inferInstanceAs (Decidable (_ ≤ _))
  | .advanceWrite | .look | .remember | .advanceRead | .read => .isTrue trivial

/-- Four items go once around a ring of three slots; the producer writes while
the consumer still reads. -/
def around : List (Action ℕ) :=
  [.look, .write 7, .remember, .advanceWrite, .look, .remember, .write 8, .advanceRead, .read,
    .advanceWrite, .write 9, .read, .advanceWrite, .look, .remember, .advanceRead, .read,
    .write 10, .read, .advanceWrite, .look, .remember, .advanceRead, .read]

/-- The four items are an instance, and the third slot is written while the
first is read. -/
theorem delivered_around : ∃ s : State ℕ 3, around.foldlM step start = .ok s ∧
    s.reads.length ≤ s.pushed.length ∧
    List.Forall₂ (fun v vs => ∀ x ∈ vs, x = v) (s.pushed.take s.reads.length) s.reads ∧
    ((∀ vs ∈ s.reads.dropLast, vs ≠ []) → s.reads.filterMap List.head? <+: s.pushed) ∧
    (s.queue.empty = true ↔ s.landed.length = s.reads.length) ∧
    s.pushed = itemsWritten around ∧ s.reads.length = popsTaken around ∧
    ∀ done rest (s₁ : State ℕ 3), around = done ++ .read :: rest → done.foldlM step start = .ok s₁ →
      ∃ item, s₁.consumer = .idle (some item) ∧
        (itemsWritten done)[popsTaken done - 1]? = some (s₁.queue.data item) := by
  obtain ⟨s, hs⟩ := exists_of_isOk (show (around.foldlM step (start : State ℕ 3)).isOk = true
    by decide)
  exact ⟨s, hs, delivered_of_run (by decide) hs⟩

end Handoff

end CppExchange
