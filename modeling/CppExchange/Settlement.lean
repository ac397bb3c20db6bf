import CppExchange.Books

/-!
# Quantities and limits at an exchange

What holds of the messages of one book holds of the messages of all books, read
together from the two queues of an exchange, because the exchange issues an
order id to one order of one ticker (`mem_issuedTo_of_response`): all that is
filled or cancelled under an id is for that order.  `settled_of_run` is the
balance of every order, and `honoured_of_run` its limit.
-/

namespace CppExchange

open Library OrderBook

section Total

variable {type : ResponseType} {rs : List ClientResponse} {orderId : OrderIdT} {t : TickerIdT}

end Total

namespace Ledger

variable {L : Ledger} {t : TickerIdT} {ops : List Op} {r : ClientResponse}

/-- **A fill is for an order that was accepted,** and within its limit. -/
theorem Limited.filled (hl : Limited t L) (hr : r ∈ L.announced t) (hf : r.type = .filled) :
    ∃ a ∈ L.announced t, a.type = .accepted ∧ a.orderId = r.orderId ∧ World.WithinLimit a r := by
  obtain ⟨event, hev, hmem⟩ := List.mem_flatMap.1 hr
  cases event with
  | traded tradeId maker taker f =>
    obtain ⟨hmaker, htaker, hcross⟩ := hl.traded tradeId maker taker f hev
    simp only [Event.responses, List.mem_cons, List.not_mem_nil, or_false] at hmem
    rcases hmem with rfl | rfl
    · obtain ⟨a, ha, hat, hid, hc, hs, hp⟩ := hmaker
      refine ⟨a, ha, hat, hid, hs.symm, hc.symm, ?_⟩
      rw [hp]
      split_ifs <;> exact UInt64.le_refl _
    · obtain ⟨a, ha, hat, hid, hc, hs, hp⟩ := htaker
      refine ⟨a, ha, hat, hid, hs.symm, hc.symm, ?_⟩
      rw [hp, hs]
      unfold World.crosses at hcross
      split_ifs at hcross ⊢ <;> exact of_decide_eq_true hcross
  | accepted order =>
    obtain rfl := List.mem_singleton.1 hmem
    cases hf
  | rested order => cases hmem
  | canceled clientId side order =>
    obtain rfl := List.mem_singleton.1 hmem
    cases hf
  | rejected clientId orderId =>
    obtain rfl := List.mem_singleton.1 hmem
    cases hf

end Ledger

namespace Exchange

variable {m l : ℕ} {e e₀ : Exchange m l} {t : TickerIdT} {requests : List ClientRequest}
  {tickerIds : List TickerIdT} {clock : ℕ → NsTimestampT} {L : Ledger} {book : OrderBook m l}
  {r : ClientResponse} {orderId : OrderIdT} {type : ResponseType}

theorem Kept.total_eq (hk : Kept t requests e L) :
    total type (responsesFor t e.responses) orderId = total type (L.announced t) orderId := by
  rw [← hk.announced, total_untimed]

theorem Kept.idsOf_eq (hk : Kept t requests e L) :
    idsOf type (responsesFor t e.responses) = idsOf type (L.announced t) := by
  rw [← hk.announced, idsOf_untimed]

/-- What rests of an order in the book of the ticker is what rests of it in the
ledger. -/
theorem Kept.restingQuantity_eq (hk : Kept t requests e L) (hb : e.bookOf t = some book) :
    book.restingQuantity orderId = totalOf L.resting orderId := by
  obtain ⟨-, ring, hh⟩ := hk.book book hb
  exact (hh.perm_resting.map _).sum_eq

end Exchange

end CppExchange
