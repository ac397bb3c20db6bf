import CppExchange.Books
import CppExchange.Library.Keyed

/-!
# One subscriber to all tickers

The updates of all books go to one queue.  A desk reads that queue and keeps a
`Subscriber` for each ticker, which it chooses by the ticker of an update.  After
every run of an exchange, and with the updates of the tickers mixed as they
are, the desk has been able to apply every update, and what it has is what rests
on each of the books (`shows_of_run`).
-/

namespace CppExchange

open Library OrderBook

/-- What a subscriber to all tickers knows. -/
abbrev Desk := TickerIdT → Subscriber

namespace Desk

/-- A desk that has seen nothing. -/
def empty : Desk := fun _ => Subscriber.empty

/-- The updates in order, each for its ticker. -/
def replay (desk : Desk) (updates : List MarketUpdate) : Option Desk :=
  updates.foldlM (keyed Subscriber.apply MarketUpdate.tickerId) desk

variable {m l : ℕ} {e e₀ : Exchange m l} {desk : Desk} {updates : List MarketUpdate}
  {requests : List ClientRequest} {tickerIds : List TickerIdT} {clock : ℕ → NsTimestampT}

theorem replay_eq_some : empty.replay updates = some desk ↔
    ∀ t, Subscriber.empty.replay (updatesFor t updates) = some (desk t) := foldlM_keyed

/-- The desk has the orders at rest on each of the books, and no others. -/
structure Shows (desk : Desk) (e : Exchange m l) : Prop where
  books : ∀ t book, e.bookOf t = some book → World.Mirrors (desk t) book
  unlisted : ∀ t, e.bookOf t = none → desk t = Subscriber.empty
  /-- An order is known for one ticker. -/
  apart : ∀ t t' orderId, desk t orderId ≠ none → desk t' orderId ≠ none → t = t'

/-- The view of the orders that a book has is a view of the book. -/
theorem mirrors_view {book : OrderBook m l} {ring : Fin l → List (Fin m)} {resting : List Entry}
    (hh : Holds book ring resting) (hd : Ledger.Distinct resting) :
    World.Mirrors (Ledger.view resting) book := by
  have hperm := hh.perm_resting
  constructor
  · intro orderId held
    rw [Ledger.view_eq_some hd]
    constructor
    · rintro ⟨order, ho, hid, hheld⟩
      obtain ⟨o, ho', rfl⟩ := List.mem_map.1 (hperm.mem_iff.2 ho)
      exact ⟨o, ho', hid, hheld⟩
    · rintro ⟨o, ho, hid, hheld⟩
      exact ⟨_, hperm.mem_iff.1 (List.mem_map_of_mem ho), hid, hheld⟩
  · have h := (hperm.map Entry.orderId).nodup_iff.2 hd
    rwa [entries, List.map_map] at h

/-- **The feed of an exchange reconstructs all its books.**  After every run in
which the order ids did not wrap, the updates of all tickers, read from one
queue, can be applied one after the other, at any point of the queue; and in the
end the desk has the orders that rest, each for its ticker. -/
theorem shows_of_run (h₀ : Exchange.new m l tickerIds clock = .ok e₀)
    (h : e₀.run requests = .ok e) (hadds : (addRequests requests).length < 2 ^ 32) :
    (∀ updates, updates <+: e.updates → ∃ desk, empty.replay updates = some desk) ∧
      ∃ desk, empty.replay e.updates = some desk ∧ desk.Shows e := by
  choose L hk using (Exchange.booked_of_run h₀ h).ledger
  have hreplay : empty.replay e.updates = some fun t => Ledger.view (L t).resting := by
    refine replay_eq_some.2 fun t => ?_
    rw [← World.replay_untimed, (hk t).published]
    exact Ledger.replays_of_turns t (hk t).runs (Exchange.addedIds_callsOn_nodup hadds)
  refine ⟨fun updates hp => foldlM_of_prefix hp hreplay, _, hreplay, ?_⟩
  have hissued : ∀ t orderId, Ledger.view (L t).resting orderId ≠ none →
      orderId ∈ issuedTo t 1 requests := by
    intro t orderId hne
    rw [Ne, Ledger.view_eq_none, not_not] at hne
    obtain ⟨order, ho, rfl⟩ := List.mem_map.1 hne
    exact (hk t).mem_issuedTo ho
  refine ⟨fun t book hb => ?_, fun t hb => ?_, fun t t' orderId hne hne' => ?_⟩
  · obtain ⟨-, ring, hh⟩ := (hk t).book book hb
    refine mirrors_view hh ?_
    exact (Ledger.counted_of_turns t (hk t).runs).distinct (Exchange.addedIds_callsOn_nodup hadds)
  · rw [(hk t).unlisted hb]
    rfl
  · exact ticker_of_issuedTo hadds (hissued t orderId hne) (hissued t' orderId hne')

/-- The requests for two tickers in turn are an instance. -/
theorem shows_of_mixedRequests :
    ∃ e₀ e, Exchange.new maxOrderIds maxPriceLevels [1, 2] (fun _ => 0) = .ok e₀ ∧
      e₀.run Exchange.mixedRequests = .ok e ∧
      (∀ updates, updates <+: e.updates → ∃ desk, empty.replay updates = some desk) ∧
      ∃ desk, empty.replay e.updates = some desk ∧ desk.Shows e := by
  obtain ⟨e₀, e, h₀, h⟩ := Exchange.mixedRequests_returns
  exact ⟨e₀, e, h₀, h, shows_of_run h₀ h (by decide)⟩

end Desk

end CppExchange
