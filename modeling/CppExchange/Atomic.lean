import CppExchange.Channel
import CppExchange.Handoff

/-!
# Pushes and pops at once

The loads and stores of a push and a pop (`Handoff`) against a ring on which they
are one step each (`Channel`).  A push counts when `next_write_index_` is
advanced, a pop that finds an item when `next_read_index_` is, and a pop that
finds none when the two indices are read; the other steps are silent.  What a
step does to the two is told by `Shows.push` and `Shows.pop`, and what is read
through a pointer, by `Shows.current` and `Shows.reads`.
-/

namespace CppExchange

open Library

namespace Handoff

variable {T : Type} {n : ℕ} [NeZero n] {s s' : State T n} {c : Channel T n} {x : T} {p : Fin n}
  {item : Option (Fin n)}

/-- The next step of a push of `x`. -/
def State.pushing (s : State T n) (x : T) : Action T :=
  match s.producer with
  | .idle => .write x
  | .written => .advanceWrite

/-- The next step of a pop. -/
def State.popping (s : State T n) : Action T :=
  match s.consumer with
  | .idle _ => .look
  | .looked _ => .remember
  | .remembered _ => .advanceRead

/-- A push would begin with two slots to spare. -/
def State.Roomy (s : State T n) : Prop :=
  s.producer = .idle → s.pushed.length + 2 ≤ s.reads.length + n

instance (s : State T n) : Decidable s.Roomy := inferInstanceAs (Decidable (_ → _))

/-- What is read through the pointer, between two pops. -/
def State.current (s : State T n) : Option T :=
  match s.consumer with
  | .idle item => item.map s.queue.data
  | _ => none

/-- The pointer of the ring `c` when the consumer is where it is. -/
def ConsumerPhase.Shows (readIndex : Fin n) (pointer : Option (Fin n)) : ConsumerPhase n → Prop
  | .idle item => pointer = item
  | .looked true => pointer = none
  | .looked false => True
  | .remembered p => p = readIndex

/-- The consumer is to take an item that it saw. -/
def ConsumerPhase.Midway : ConsumerPhase n → Prop
  | .looked false | .remembered _ => True
  | _ => False

/-- The ring `c` is what the two threads have made of the queue: what landed is
pushed, what was taken is popped, and but for the slot that is being written the
two are the same in memory. -/
structure Shows (s : State T n) (c : Channel T n) : Prop where
  safe : Safe s s.landed.length s.reads.length
  carries : c.Carries
  readIndex : c.queue.nextReadIndex = s.queue.nextReadIndex
  writeIndex : c.queue.nextWriteIndex = s.queue.nextWriteIndex
  data : ∀ p, (s.producer = .written → p ≠ s.queue.nextWriteIndex) →
    c.queue.data p = s.queue.data p
  pushed : c.pushed = s.landed
  popped : c.popped.length = s.reads.length
  pointer : s.consumer.Shows s.queue.nextReadIndex c.item

/-- The ring as it is built shows the empty channel. -/
theorem Shows.start [Inhabited T] : Shows (start : State T n) .new where
  safe := .start
  carries := .new
  readIndex := rfl
  writeIndex := rfl
  data _ _ := rfl
  pushed := rfl
  popped := rfl
  pointer := rfl

theorem Shows.empty_eq (h : Shows s c) : c.queue.empty = s.queue.empty := by
  rw [LFQueue.empty, LFQueue.empty, h.readIndex, h.writeIndex]

/-- There are two slots to spare when a push ends, as there were when it began. -/
theorem Shows.roomy (h : Shows s c) (hw : s.producer = .written) : c.Roomy := by
  have hroom := h.safe.room
  have hbegun := h.safe.begun
  rw [hw] at hbegun
  have hbegun' : s.pushed.length = s.landed.length + 1 := hbegun
  rw [Channel.Roomy, h.pushed, h.popped]
  omega

/-! ### A push -/

omit [NeZero n] in
theorem landed_of_idle (h : s.producer = .idle) : s.landed = s.pushed := by
  rw [State.landed, h]

omit [NeZero n] in
theorem landed_congr (hproducer : s'.producer = s.producer) (hpushed : s'.pushed = s.pushed) :
    s'.landed = s.landed := by
  rw [State.landed, State.landed, hproducer, hpushed]

/-- A push can begin in a ring that has two slots to spare. -/
theorem Shows.roomy_of (h : Shows s c) (hroom : c.Roomy) : s.Roomy := by
  intro hidle
  rw [Channel.Roomy, h.pushed, h.popped, landed_of_idle hidle] at hroom
  exact hroom

/-- The item of a push that has begun is in its slot. -/
theorem Shows.written (h : Shows s c)
    (hx : s.pushed = s.landed ++ [x]) : s.queue.data s.queue.nextWriteIndex = x := by
  have hslot : s.pushed[s.landed.length]? = some x := by
    rw [hx, List.getElem?_append_right le_rfl, Nat.sub_self]
    rfl
  rw [h.safe.writeIndex]
  refine h.safe.window.kept _ x ?_ hslot
  have := h.safe.behind
  omega

/-- **The first step of a push** leaves the ring. -/
theorem Shows.write (h : Shows s c) (hi : s.producer = .idle)
    (hroom : s.pushed.length + 2 ≤ s.reads.length + n) (hs : step s (.write x) = .ok s') :
    Shows s' c ∧ s'.producer = .written ∧ s'.pushed = s.landed ++ [x] ∧ s'.landed = s.landed ∧
      s'.consumer = s.consumer := by
  simp only [step, hi] at hs
  obtain rfl := Except.ok.inj hs
  have hlanded : (s.pushed ++ [x]).dropLast = s.landed := by
    rw [List.dropLast_concat, landed_of_idle hi]
  have hsafe := h.safe.write hi x hroom
  refine ⟨{ h with safe := ?_, data := fun p hp => ?_, pushed := h.pushed.trans hlanded.symm },
    rfl, by rw [landed_of_idle hi], hlanded, rfl⟩
  · have hlen : (s.pushed ++ [x]).dropLast.length = s.landed.length := congrArg _ hlanded
    rw [← hlen] at hsafe
    exact hsafe
  · have hne : p ≠ s.queue.nextWriteIndex := hp rfl
    rw [h.data p fun hw => by rw [hi] at hw; cases hw]
    exact (Function.update_of_ne hne x s.queue.data).symm

/-- **The second step of a push** is the push. -/
theorem Shows.advanceWrite (h : Shows s c) (hw : s.producer = .written)
    (hx : s.pushed = s.landed ++ [x]) (hs : step s .advanceWrite = .ok s') :
    Shows s' (c.push x) ∧ s'.producer = .idle ∧ s'.landed = s.landed ++ [x] ∧
      s'.consumer = s.consumer := by
  have hslot := h.written hx
  simp only [step, hw] at hs
  obtain rfl := Except.ok.inj hs
  have hsafe := h.safe.advanceWrite hw
  refine ⟨{ h with
    safe := ?_
    carries := h.carries.push (h.roomy hw) x
    writeIndex := ?_
    data := fun p _ => ?_
    pushed := ?_ }, rfl, hx, rfl⟩
  · have hlen : s.pushed.length = s.landed.length + 1 := by
      rw [hx, List.length_append, List.length_singleton]
    rw [← hlen] at hsafe
    exact hsafe
  · exact congrArg LFQueue.next h.writeIndex
  · show Function.update c.queue.data c.queue.nextWriteIndex x p = s.queue.data p
    rw [h.writeIndex]
    by_cases hp : p = s.queue.nextWriteIndex
    · rw [hp, Function.update_self, hslot]
    · rw [Function.update_of_ne hp]
      exact h.data p fun _ => hp
  · rw [Channel.pushed_push, h.pushed]
    exact hx.symm

/-- **A step of a push** is nothing or the push. -/
theorem Shows.push (h : Shows s c) (hx : s.producer = .written → s.pushed = s.landed ++ [x])
    (hroom : s.Roomy) (hs : step s (s.pushing x) = .ok s') :
    s'.consumer = s.consumer ∧
      (Shows s' c ∧ s'.producer = .written ∧ s'.pushed = s'.landed ++ [x] ∧
          s'.landed = s.landed ∨
        Shows s' (c.push x) ∧ c.Roomy ∧ s'.producer = .idle ∧ s'.landed = s.landed ++ [x]) := by
  cases hp : s.producer with
  | idle =>
    rw [State.pushing, hp] at hs
    obtain ⟨hshows, hwritten, hpushed, hlanded, hconsumer⟩ := h.write hp (hroom hp) hs
    exact ⟨hconsumer, Or.inl ⟨hshows, hwritten, by rw [hpushed, hlanded], hlanded⟩⟩
  | written =>
    rw [State.pushing, hp] at hs
    obtain ⟨hshows, hidle, hlanded, hconsumer⟩ := h.advanceWrite hp (hx hp) hs
    exact ⟨hconsumer, Or.inr ⟨hshows, h.roomy hp, hidle, hlanded⟩⟩

/-! ### A pop -/

/-- **A look at an empty queue** is the pop. -/
theorem Shows.look_empty (h : Shows s c) (hi : s.consumer = .idle item)
    (he : s.queue.empty = true) (hs : step s .look = .ok s') :
    Shows s' c.pop ∧ s' = { s with consumer := .looked true } ∧ c.pop.item = none := by
  simp only [step, hi, he] at hs
  obtain rfl := Except.ok.inj hs
  have hpop : c.queue.pop = (c.queue, none) := LFQueue.pop_of_empty (h.empty_eq.trans he)
  have hc : c.pop = { c with item := none } := by
    simp only [Channel.pop, hpop, Option.map_none, Option.toList_none, List.append_nil]
  have hsafe := h.safe.look
  rw [he] at hsafe
  refine ⟨?_, rfl, by rw [hc]⟩
  have hcarries := h.carries.pop
  rw [hc] at hcarries ⊢
  exact ⟨hsafe, hcarries, h.readIndex, h.writeIndex, h.data, h.pushed, h.popped, rfl⟩

/-- A look at a queue that is not empty is silent. -/
theorem Shows.look (h : Shows s c) (hi : s.consumer = .idle item)
    (he : s.queue.empty = false) (hs : step s .look = .ok s') :
    Shows s' c ∧ s' = { s with consumer := .looked false } := by
  simp only [step, hi, he] at hs
  obtain rfl := Except.ok.inj hs
  have hsafe := h.safe.look
  rw [he] at hsafe
  exact ⟨⟨hsafe, h.carries, h.readIndex, h.writeIndex, h.data, h.pushed, h.popped, trivial⟩, rfl⟩

/-- The consumer of an empty queue returns null. -/
theorem Shows.remember_empty (h : Shows s c) (hl : s.consumer = .looked true)
    (hs : step s .remember = .ok s') : Shows s' c ∧ s' = { s with consumer := .idle none } := by
  have hpointer := h.pointer
  rw [hl] at hpointer
  simp only [step, hl] at hs
  obtain rfl := Except.ok.inj hs
  exact ⟨⟨{ h.safe with points := trivial }, h.carries, h.readIndex, h.writeIndex, h.data,
    h.pushed, h.popped, hpointer⟩, rfl⟩

/-- Loading the index a second time gives the index that was tested: only the
consumer itself moves it. -/
theorem Shows.remember (h : Shows s c) (hl : s.consumer = .looked false)
    (hs : step s .remember = .ok s') :
    Shows s' c ∧ s' = { s with consumer := .remembered s.queue.nextReadIndex } := by
  have hpoints := h.safe.points
  rw [hl] at hpoints
  simp only [step, hl] at hs
  obtain rfl := Except.ok.inj hs
  exact ⟨⟨{ h.safe with points := ⟨hpoints, h.safe.readIndex⟩ }, h.carries, h.readIndex,
    h.writeIndex, h.data, h.pushed, h.popped, rfl⟩, rfl⟩

/-- **The last step of a pop** that found an item is the pop. -/
theorem Shows.advanceRead (h : Shows s c) (hr : s.consumer = .remembered p)
    (hs : step s .advanceRead = .ok s') :
    Shows s' c.pop ∧ s'.consumer = .idle (some p) ∧ c.pop.item ≠ none ∧
      s'.producer = s.producer ∧ s'.pushed = s.pushed := by
  have hpoints := h.safe.points
  have hpointer := h.pointer
  rw [hr] at hpoints hpointer
  have hp : p = s.queue.nextReadIndex := hpointer
  have hne : c.queue.empty = false := by
    rw [h.empty_eq, Bool.eq_false_iff]
    intro he
    have heq := h.safe.empty_iff.1 he
    exact absurd hpoints.1 (by omega)
  have hsafe := h.safe.advanceRead hr
  simp only [step, hr] at hs
  obtain rfl := Except.ok.inj hs
  have hpop : c.pop = { c with
      queue := c.queue.advanceRead
      item := some c.queue.nextReadIndex
      popped := c.popped ++ [c.queue.data c.queue.nextReadIndex] } := by
    simp only [Channel.pop, LFQueue.pop, hne]
    rfl
  have hcarries := h.carries.pop
  rw [hpop] at hcarries ⊢
  refine ⟨⟨?_, hcarries, congrArg LFQueue.next h.readIndex, h.writeIndex, h.data, h.pushed, ?_, ?_⟩,
    rfl, by simp, rfl, rfl⟩
  · rw [List.length_append]
    exact hsafe
  · rw [List.length_append, List.length_append, h.popped]
    rfl
  · show some c.queue.nextReadIndex = some p
    rw [h.readIndex, hp]

/-- **A step of a pop** is nothing or the pop. -/
theorem Shows.pop (h : Shows s c) (hs : step s s.popping = .ok s') :
    s'.producer = s.producer ∧ s'.pushed = s.pushed ∧
      (Shows s' c ∧ (s.consumer = .looked true ∧ s'.consumer = .idle none ∨
          s.consumer ≠ .looked true ∧ s'.consumer.Midway) ∨
        Shows s' c.pop ∧ s.consumer ≠ .looked true ∧
          (s'.consumer = .looked true ∧ c.pop.item = none ∨
            ∃ p, s'.consumer = .idle (some p) ∧ c.pop.item ≠ none)) := by
  rcases hc : s.consumer with item | empty | p <;> simp only [State.popping, hc] at hs
  · cases he : s.queue.empty with
    | true =>
      obtain ⟨hshows, rfl, hitem⟩ := h.look_empty hc he hs
      exact ⟨rfl, rfl, Or.inr ⟨hshows, by simp, Or.inl ⟨rfl, hitem⟩⟩⟩
    | false =>
      obtain ⟨hshows, rfl⟩ := h.look hc he hs
      exact ⟨rfl, rfl, Or.inl ⟨hshows, Or.inr ⟨by simp, trivial⟩⟩⟩
  · cases empty with
    | true =>
      obtain ⟨hshows, rfl⟩ := h.remember_empty hc hs
      exact ⟨rfl, rfl, Or.inl ⟨hshows, Or.inl ⟨rfl, rfl⟩⟩⟩
    | false =>
      obtain ⟨hshows, rfl⟩ := h.remember hc hs
      exact ⟨rfl, rfl, Or.inl ⟨hshows, Or.inr ⟨by simp, trivial⟩⟩⟩
  · obtain ⟨hshows, hconsumer, hitem, hproducer, hpushed⟩ := h.advanceRead hc hs
    exact ⟨hproducer, hpushed, Or.inr ⟨hshows, by simp, Or.inr ⟨p, hconsumer, hitem⟩⟩⟩

/-- **What is read through the pointer** is what the ring shows. -/
theorem Shows.current (h : Shows s c) (hi : s.consumer = .idle item) : s.current = c.read := by
  have hpoints := h.safe.points
  have hpointer := h.pointer
  rw [hi] at hpoints hpointer
  have hitem : c.item = item := hpointer
  rw [State.current, hi, Channel.read, hitem]
  cases item with
  | none => rfl
  | some p =>
    have hslot : p ≠ s.queue.nextWriteIndex ∨ s.producer ≠ .written := by
      by_contra hboth
      push Not at hboth
      obtain ⟨hp, hw⟩ := hboth
      obtain ⟨hpos, rfl⟩ := hpoints
      have hroom := h.safe.room
      have hbehind := h.safe.behind
      have hbegun := h.safe.begun
      rw [hw] at hbegun
      have hbegun' : s.pushed.length = s.landed.length + 1 := hbegun
      rw [h.safe.writeIndex, slot_inj (by omega) (by omega)] at hp
      omega
    refine congrArg some ?_
    exact (h.data p fun hw => hslot.resolve_right (fun hn => hn hw)).symm

/-- A read through the pointer is silent. -/
theorem Shows.read (h : Shows s c) (hs : step s .read = .ok s') :
    Shows s' c ∧ s'.consumer = s.consumer ∧ s'.producer = s.producer ∧ s'.pushed = s.pushed := by
  rcases hc : s.consumer with (_ | p) | b | p <;> simp only [step, hc] at hs <;> cases hs
  have hsafe := h.safe.readItem hc
  have hpointer := h.pointer
  rw [hc] at hsafe hpointer
  have hlen : (s.reads.modify (s.reads.length - 1) (· ++ [s.queue.data p])).length =
      s.reads.length := List.length_modify ..
  refine ⟨⟨?_, h.carries, h.readIndex, h.writeIndex, h.data, h.pushed, ?_, ?_⟩, rfl, rfl, rfl⟩
  · rw [hlen]
    exact hsafe
  · rw [hlen]
    exact h.popped
  · exact hpointer

/-- **What was read** through each pointer is what the ring gave out. -/
theorem Shows.reads (h : Shows s c) :
    List.Forall₂ (fun v vs => ∀ x ∈ vs, x = v) c.popped s.reads := by
  rw [List.forall₂_iff_get]
  refine ⟨h.popped, fun i hi hi' x hx => ?_⟩
  have hpushed := h.safe.reads i _ (List.getElem?_eq_getElem hi') x hx
  have hlanded : c.pushed <+: s.pushed := by
    rw [h.pushed, State.landed]
    cases s.producer with
    | idle => exact List.prefix_refl _
    | written => exact List.dropLast_prefix _
  obtain ⟨rest, hrest⟩ := h.carries.isPrefix.trans hlanded
  rw [← hrest, List.getElem?_append_left hi, List.getElem?_eq_getElem hi] at hpushed
  exact (Option.some.inj hpushed).symm

end Handoff

end CppExchange
