import CppExchange.PriceLevel

/-!
# A price level is a queue

Calls of `add` and `cancel` on one price level, from an empty level in any
memory.  As long as an order is added that is not on the level, and `cancel` is
called while the level is not empty, the level holds the list that `add` appends
to and `cancel` erases the first order of an id from (`queued_of_run`).
-/

namespace CppExchange

open Library

namespace OrdersPriceLevel

variable {m l : ℕ}

/-- A call on a price level. -/
inductive Call (m : ℕ)
  | add (order : Fin m)
  | cancel (orderId : OrderIdT)

/-- A price level, the memory its orders lie in, and what the last call
returned. -/
structure State (m l : ℕ) where
  level : OrdersPriceLevel m l
  heap : Fin m → Order m
  returned : Option (Fin m) := none

/-- One call. -/
def call (s : State m l) : Call m → Except Fault (State m l)
  | .add order => do
    let (level, heap) ← s.level.add s.heap order
    return { level, heap }
  | .cancel orderId => do
    let (level, heap, returned) ← s.level.cancel s.heap orderId
    return { level, heap, returned }

/-- An order that is added is not on the level, and a level that is searched is
not empty. -/
def Allowed (s : State m l) : Call m → Prop
  | .add order => order ∉ s.level.orders s.heap
  | .cancel _ => s.level.topOrder ≠ none

instance (s : State m l) (c : Call m) : Decidable (Allowed s c) :=
  match c with
  | .add _ => inferInstanceAs (Decidable (_ ∉ _))
  | .cancel _ => inferInstanceAs (Decidable (_ ≠ _))

/-- The call on a list of orders: append, or erase the first one with the id. -/
def listCall (heap : Fin m → Order m) (xs : List (Fin m)) : Call m → List (Fin m)
  | .add order => xs ++ [order]
  | .cancel orderId => xs.eraseP fun x => (heap x).orderId = orderId

/-- The calls on the empty list. -/
def listOf (heap : Fin m → Order m) (calls : List (Call m)) : List (Fin m) :=
  calls.foldl (listCall heap) []

/-- The level holds the orders `xs`, which are as they were in the memory `heap`
but for their links. -/
structure Queue (heap : Fin m → Order m) (s : State m l) (xs : List (Fin m)) : Prop where
  ring : RingAt s.heap xs
  top : s.level.topOrder = xs.head?
  body : ∀ x, (s.heap x).body = (heap x).body

/-- What a call on a level with the orders `xs` returns, and which orders it
leaves alone. -/
def Answers (s : State m l) (xs : List (Fin m)) (s' : State m l) : Call m → Prop
  | .add order => s'.returned = none ∧ ∀ x ∉ xs, x ≠ order → s'.heap x = s.heap x
  | .cancel orderId =>
    (s'.returned = xs.find? fun x => (s.heap x).orderId = orderId) ∧
      (∀ o, s'.returned = some o → (s'.heap o).next = none ∧ (s'.heap o).previous = none) ∧
      (s'.returned = none → s'.level = s.level ∧ s'.heap = s.heap) ∧
      ∀ x ∉ xs, s'.heap x = s.heap x

variable {heap : Fin m → Order m} {s : State m l} {xs : List (Fin m)} {c : Call m}
  {calls : List (Call m)} {level : OrdersPriceLevel m l} {o : Fin m} {orderId : OrderIdT}

theorem Queue.orders_eq (h : Queue heap s xs) : s.level.orders s.heap = xs :=
  OrdersPriceLevel.orders_eq h.ring h.top

theorem Queue.orderId_eq (h : Queue heap s xs) (x : Fin m) :
    (s.heap x).orderId = (heap x).orderId :=
  eq_of_body Order.orderId (fun _ => rfl) (h.body x)

/-- **An add goes to the end of the queue,** whether the level was empty or had
a top order. -/
theorem Queue.add (h : Queue heap s xs) (ho : o ∉ xs) :
    ∃ s', call s (.add o) = .ok s' ∧ Queue heap s' (xs ++ [o]) ∧ Answers s xs s' (.add o) := by
  obtain ⟨heap', hadd, hring, hbody, hframe⟩ := add_spec h.ring h.top ho
  refine ⟨_, by rw [call, hadd]; rfl, ⟨hring, rfl, fun x => ?_⟩, rfl, hframe⟩
  rw [hbody, h.body]

/-- **A cancel takes out the first order of its id,** or comes around to the top
when there is none. An order at the front passes the top on; the last one of all
leaves the level empty. -/
theorem Queue.cancel (h : Queue heap s xs) (hne : xs ≠ []) (orderId : OrderIdT) :
    ∃ s', call s (.cancel orderId) = .ok s' ∧
      Queue heap s' (xs.eraseP fun x => (heap x).orderId = orderId) ∧
      Answers s xs s' (.cancel orderId) := by
  simp only [← h.orderId_eq]
  by_cases hhit : ∃ x ∈ xs, (s.heap x).orderId = orderId
  · obtain ⟨x, hx, hxid⟩ := hhit
    obtain ⟨o, before, after, hbefore, ho, rfl, herase⟩ := List.exists_of_eraseP
      (p := fun x => (s.heap x).orderId = orderId) hx (by simpa using hxid)
    simp only [decide_eq_true_eq] at hbefore ho
    obtain ⟨heap', hcancel, hring, hbody, hframe, hnull⟩ := cancel_hit h.ring h.top hbefore ho
    have hfind : ((before ++ o :: after).find? fun x => (s.heap x).orderId = orderId) =
        some o := by
      rw [List.find?_append, List.find?_eq_none.2 (by simpa using hbefore)]
      simp [ho]
    rw [herase]
    refine ⟨_, by rw [call, hcancel]; rfl, ⟨hring, rfl, fun x => ?_⟩, hfind.symm, ?_, ?_, hframe⟩
    · rw [hbody, h.body]
    · rintro x hx
      obtain rfl := Option.some.inj hx
      exact hnull
    · exact fun h0 => by cases h0
  · have hmiss : ∀ x ∈ xs, (s.heap x).orderId ≠ orderId := fun x hx he => hhit ⟨x, hx, he⟩
    have herase : (xs.eraseP fun x => (s.heap x).orderId = orderId) = xs :=
      List.eraseP_of_forall_not (by simpa using hmiss)
    have hfind : (xs.find? fun x => (s.heap x).orderId = orderId) = none :=
      List.find?_eq_none.2 (by simpa using hmiss)
    rw [herase]
    have hcall : call s (.cancel orderId) = .ok { s with returned := none } := by
      rw [call, cancel_miss h.ring h.top hne hmiss]
      rfl
    refine ⟨_, hcall, ⟨h.ring, h.top, h.body⟩, hfind.symm, fun x hx => ?_, fun _ => ⟨rfl, rfl⟩,
      fun _ _ => rfl⟩
    cases hx

/-- **A call on a level is the call on its list.** -/
theorem Queue.call (h : Queue heap s xs) (hc : Allowed s c) :
    ∃ s', call s c = .ok s' ∧ Queue heap s' (listCall heap xs c) ∧ Answers s xs s' c := by
  cases c with
  | add o =>
    rw [Allowed, h.orders_eq] at hc
    exact h.add hc
  | cancel orderId =>
    rw [Allowed, h.top, Ne, List.head?_eq_none_iff] at hc
    exact h.cancel hc orderId

/-- **A price level is a queue with removal by id** after every sequence of calls
on an empty level. -/
theorem queued_of_run (hempty : level.topOrder = none)
    (hcalls : EachStep call Allowed { level, heap } calls) :
    ∃ s, calls.foldlM call { level, heap } = .ok s ∧
      s.level.orders s.heap = listOf heap calls ∧
      s.level.topOrder = (listOf heap calls).head? ∧
      (s.level.topOrder = none ↔ listOf heap calls = []) ∧
      (∀ x ∈ listOf heap calls, (∃ y ∈ listOf heap calls, (s.heap x).next = some y) ∧
        ∃ y ∈ listOf heap calls, (s.heap x).previous = some y) ∧
      (∀ x ∈ listOf heap calls, ∀ y ∈ listOf heap calls,
        (s.heap x).next = some y ↔ (s.heap y).previous = some x) ∧
      ∀ c, Allowed s c → ∃ s', call s c = .ok s' ∧ Answers s (listOf heap calls) s' c := by
  obtain ⟨s, hs, hq⟩ := foldlM_total (P := fun calls s => Queue heap s (listOf heap calls))
    ⟨IsRing.nil, hempty, fun _ => rfl⟩
    (fun calls c s hq hc => by
      obtain ⟨s', hs', hq', -⟩ := hq.call hc
      refine ⟨s', hs', ?_⟩
      rwa [listOf, List.foldl_append]) hcalls
  refine ⟨s, hs, hq.orders_eq, hq.top, ?_, fun x hx => ⟨?_, ?_⟩, fun x hx y hy => ?_,
    fun c hc => ?_⟩
  · rw [hq.top, List.head?_eq_none_iff]
  · obtain ⟨y, hy, hl⟩ := hq.ring.exists_next hx
    exact ⟨y, hy, hl.1⟩
  · obtain ⟨y, hy, hl⟩ := hq.ring.exists_prev hx
    exact ⟨y, hy, hl.2⟩
  · exact hq.ring.next_eq_iff hx hy
  · obtain ⟨s', hs', -, hanswers⟩ := hq.call hc
    exact ⟨s', hs', hanswers⟩

/-- Four orders with two ids between them. -/
def sampleHeap (o : Fin 4) : Order 4 := { orderId := if o.val < 2 then 1 else 2 }

/-- Removals from the middle, the end and the front, and a search in vain. -/
def sampleCalls : List (Call 4) :=
  [.add 0, .add 2, .add 1, .add 3, .cancel 2, .cancel 2, .cancel 2, .add 2, .cancel 1]

/-- The sample calls, with ids that repeat, are an instance. -/
theorem queued_of_sampleCalls :
    ∃ s : State 4 4, sampleCalls.foldlM call { level := {}, heap := sampleHeap } = .ok s ∧
      s.level.orders s.heap = listOf sampleHeap sampleCalls ∧
      s.level.topOrder = (listOf sampleHeap sampleCalls).head? := by
  have hempty : ({} : OrdersPriceLevel 4 4).topOrder = none := rfl
  have hcalls : EachStep call Allowed ({ level := {}, heap := sampleHeap } : State 4 4)
      sampleCalls := by
    decide
  obtain ⟨s, hs, horders, htop, -⟩ := queued_of_run hempty hcalls
  exact ⟨s, hs, horders, htop⟩

example : listOf sampleHeap sampleCalls = [1, 2] := by decide

end OrdersPriceLevel

end CppExchange
