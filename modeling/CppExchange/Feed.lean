import CppExchange.Conservation

/-!
# The market data feed

A subscriber that starts empty and replays the updates of a run holds the orders
that rest on the book (`replay_of_run`), whatever the state of the chains.  The
replay is partial: it stops at an update that names an order the wrong way, so
that it succeeds is part of the result.
-/

namespace CppExchange

open Library OrderBook

/-- What a subscriber knows of an order. -/
structure Held where
  side : OrderSide
  price : PriceT
  quantity : QuantityT
  deriving DecidableEq, Repr

/-- The orders a subscriber knows of. -/
abbrev Subscriber := OrderIdT → Option Held

namespace Subscriber

/-- A subscriber that has seen nothing. -/
def empty : Subscriber := fun _ => none

/-- One update.  An ADD of an order that is held, and a MODIFY or a REMOVE of one
that is not, cannot be applied. -/
def apply (s : Subscriber) (update : MarketUpdate) : Option Subscriber :=
  match update.type, s update.orderId with
  | .add, none =>
    some (Function.update s update.orderId
      (some ⟨update.side, update.price, update.quantity⟩))
  | .modify, some held =>
    some (Function.update s update.orderId (some { held with quantity := update.quantity }))
  | .remove, some _ => some (Function.update s update.orderId none)
  | .trade, _ => some s
  | _, _ => none

/-- The updates in order. -/
def replay (s : Subscriber) (updates : List MarketUpdate) : Option Subscriber :=
  updates.foldlM apply s

end Subscriber

/-- An order as the feed shows it. -/
def Entry.held (order : Entry) : Held := ⟨order.side, order.limitPrice, order.quantity⟩

namespace Ledger

open Subscriber

variable {L L' : Ledger} {taker taker' order : Entry} {older newer resting : List Entry} {op : Op}
  {ops : List Op} {tickerId : TickerIdT} {orderId : OrderIdT}

/-- The resting orders as a subscriber should know them. -/
def view (resting : List Entry) : Subscriber := fun orderId =>
  (resting.find? fun order => order.orderId = orderId).map Entry.held

/-- The updates that announce the history, for a ticker. -/
def published (L : Ledger) (tickerId : TickerIdT) : List MarketUpdate :=
  L.events.flatMap (Event.updates tickerId)

/-- The ids of resting orders differ. -/
def Distinct (resting : List Entry) : Prop := (resting.map Entry.orderId).Nodup

theorem view_eq_none : view resting orderId = none ↔ orderId ∉ resting.map Entry.orderId := by
  simp [view, List.find?_eq_none]

/-- An order in the list is seen under its id. -/
theorem view_middle (h : Distinct (older ++ order :: newer)) :
    view (older ++ order :: newer) =
      Function.update (view (older ++ newer)) order.orderId (some order.held) := by
  have hold : ∀ x ∈ older, x.orderId ≠ order.orderId := by
    rw [Distinct, List.map_append, List.map_cons, List.nodup_append] at h
    exact fun x hx => h.2.2 x.orderId (List.mem_map_of_mem hx) order.orderId (by simp)
  funext orderId
  rcases eq_or_ne orderId order.orderId with rfl | hne
  · rw [Function.update_self, view, List.find?_append,
      List.find?_eq_none.2 (by simpa using hold)]
    simp
  · rw [Function.update_of_ne hne, view, view, List.find?_append, List.find?_append,
      List.find?_cons_of_neg (by simpa using hne.symm)]

/-- Of orders that have distinct ids, a subscriber holds under an id exactly the
order that has it. -/
theorem view_eq_some (h : Distinct resting) {held : Held} :
    view resting orderId = some held ↔
      ∃ order ∈ resting, order.orderId = orderId ∧ order.held = held := by
  constructor
  · intro hv
    obtain ⟨order, hf, hh⟩ := Option.map_eq_some_iff.1 hv
    exact ⟨order, List.mem_of_find?_eq_some hf, by simpa using List.find?_some hf, hh⟩
  · rintro ⟨order, ho, rfl, rfl⟩
    obtain ⟨older, newer, rfl⟩ := List.append_of_mem ho
    rw [view_middle h, Function.update_self]

/-- Without the order its id is free, and the others are seen as before. -/
theorem view_without (h : Distinct (older ++ order :: newer)) :
    view (older ++ newer) =
      Function.update (view (older ++ order :: newer)) order.orderId none := by
  have hfree : view (older ++ newer) order.orderId = none := by
    rw [Distinct, List.map_append, List.map_cons, List.nodup_middle, List.nodup_cons] at h
    rw [view_eq_none, List.map_append]
    exact h.1
  rw [view_middle h, Function.update_idem, ← hfree, Function.update_eq_self]

/-- Replaying the published updates gives the orders at rest. -/
def Replays (tickerId : TickerIdT) (L : Ledger) : Prop :=
  replay empty (L.published tickerId) = some (view L.resting)

/-- One more event, replayed from what the subscriber has. -/
theorem Replays.of_event {event : Event} (hr : Replays tickerId L)
    (he : L'.events = L.events ++ [event])
    (h : replay (view L.resting) (event.updates tickerId) = some (view L'.resting)) :
    Replays tickerId L' := by
  unfold Replays published at hr ⊢
  rw [he, List.flatMap_append, List.flatMap_singleton, replay, List.foldlM_append]
  rw [replay] at hr
  rw [hr]
  exact h

/-- **A trade is one REMOVE or one MODIFY** of an order that is held. -/
theorem Fill.replays (h : L.Fill taker L' taker') (hd : Distinct L.resting)
    (hr : Replays tickerId L) : Replays tickerId L' := by
  obtain ⟨hrest, -, -, -, -⟩ := h
  rename_i maker older newer
  refine hr.of_event rfl ?_
  rw [hrest] at hd ⊢
  have hheld : view (older ++ maker :: newer) maker.orderId = some maker.held := by
    rw [view_middle hd, Function.update_self]
  by_cases hfull : maker.quantity = taker.fillQuantity maker
  · have hleft : maker.left (taker.fillQuantity maker) = [] := if_pos hfull
    simp only [Event.updates, if_pos hfull, trade, hleft, List.append_nil, view_without hd]
    simp [replay, apply, hheld]
  · have hleft : maker.left (taker.fillQuantity maker) =
        [{ maker with quantity := maker.quantity - taker.fillQuantity maker }] := if_neg hfull
    have hd' : Distinct (older ++ { maker with
        quantity := maker.quantity - taker.fillQuantity maker } :: newer) := by
      simpa [Distinct] using hd
    have hview : view (older ++ { maker with
        quantity := maker.quantity - taker.fillQuantity maker } :: newer) =
        Function.update (view (older ++ maker :: newer)) maker.orderId
          (some ⟨maker.side, maker.limitPrice, maker.quantity - taker.fillQuantity maker⟩) := by
      rw [view_middle hd', view_middle hd, Function.update_idem]
      rfl
    simp only [Event.updates, if_neg hfull, trade, hleft, List.append_assoc, List.singleton_append,
      hview]
    simp [replay, apply, hheld, Entry.held]

/-- Orders that are counted among distinct ids have distinct ids. -/
theorem Counted.distinct {ids : List OrderIdT} (hc : Counted tickerId ids L) (hd : ids.Nodup) :
    Distinct L.resting := by
  refine List.nodup_iff_count_le_one.2 fun orderId => ?_
  have hcount := hc orderId
  have hle := List.nodup_iff_count_le_one.1 hd orderId
  omega

/-- An order of an id that was not added before is at rest for the first time. -/
theorem Counted.view_eq_none {ids : List OrderIdT} (hc : Counted tickerId ids L)
    (hid : orderId ∉ ids) : view L.resting orderId = none := by
  refine Ledger.view_eq_none.2 (List.count_eq_zero.1 ?_)
  have hcount := hc orderId
  rw [List.count_eq_zero.2 hid] at hcount
  omega

/-- **A call publishes what it does to the orders at rest.** -/
theorem Step.replays (h : L.Step op L') (hd : (addedIds (ops ++ [op])).Nodup)
    (hc : Counted tickerId (addedIds ops) L) (hr : Replays tickerId L) : Replays tickerId L' := by
  rw [addedIds_concat] at hd
  have hd₀ := (List.nodup_append.1 hd).1
  refine h.keeps (P := fun L => Counted tickerId (addedIds ops) L ∧ Replays tickerId L)
    (R := Replays tickerId)
    (Q := fun L taker => op.addedId = some taker.orderId ∧
      Counted tickerId (addedIds ops) L ∧ Replays tickerId L)
    (fun order hop hp => ⟨by rw [hop]; rfl, fun id => ?_, hp.2.of_event rfl rfl⟩)
    (fun fill hq => ⟨by rw [fill.taker_eq]; exact hq.1, fill.counted hq.2.1,
      fill.replays (hq.2.1.distinct hd₀) hq.2.2⟩)
    (fun _ _ hq _ => hq.2.2) (fun L order hq _ => hq.2.2.of_event rfl ?_)
    (fun older order newer _ _ _ resting hp => hp.2.of_event rfl ?_)
    (fun _ _ _ _ _ hp => hp.2.of_event rfl rfl) ⟨hc, hr⟩
  · rw [idsOf_announced rfl]
    simpa [Event.responses, idsOf, record] using hp.1 id
  · have hnew : order.orderId ∉ addedIds ops := by
      rw [hq.1] at hd
      exact fun hmem => (List.nodup_append.1 hd).2.2 _ hmem _ (by simp) rfl
    have hnone := hq.2.1.view_eq_none hnew
    have hdis : Distinct (L.resting ++ order :: []) := by
      rw [Distinct, List.map_append, List.map_cons, List.nodup_middle, List.nodup_cons]
      refine ⟨?_, by simpa [Distinct] using hq.2.1.distinct hd₀⟩
      simpa using Ledger.view_eq_none.1 hnone
    rw [view_middle hdis, List.append_nil]
    simp [Event.updates, replay, apply, hnone, Entry.held]
  · have hdis : Distinct (older ++ order :: newer) := resting ▸ hp.1.distinct hd₀
    have hheld : view (older ++ order :: newer) order.orderId = some order.held := by
      rw [view_middle hdis, Function.update_self]
    rw [withdraw, resting, view_without hdis]
    simp [Event.updates, replay, apply, hheld]

/-- **The messages of a ledger replay:** every beginning of them can be applied,
and the whole of them leads to the orders at rest. -/
theorem replays_of_runs (h : Runs Step {} ops L) (hd : (addedIds ops).Nodup) :
    Replays tickerId L := by
  induction h with
  | nil => rfl
  | snoc run step ih =>
    have hd₀ := hd
    rw [addedIds_concat] at hd₀
    exact step.replays hd (counted_of_runs tickerId run) (ih (List.nodup_append.1 hd₀).1)

end Ledger

namespace World

open Subscriber

variable {m l : ℕ} {w : World m l} {tickerId : TickerIdT} {clock : ℕ → NsTimestampT}
  {ops : List Op}

/-- A subscriber does not look at timestamps. -/
theorem replay_untimed (s : Subscriber) (updates : List MarketUpdate) :
    replay s (updates.map MarketUpdate.untimed) = replay s updates := by
  rw [replay, List.foldlM_map]
  rfl

/-- The subscriber holds the orders at rest, each under an id of its own. -/
def Mirrors (s : Subscriber) (book : OrderBook m l) : Prop :=
  (∀ orderId held, s orderId = some held ↔
    ∃ o ∈ book.resting, (book.order o).orderId = orderId ∧ (book.order o).entry.held = held) ∧
  (book.resting.map fun o => (book.order o).orderId).Nodup

/-- **The feed reconstructs the book.**  In every run of distinct ids that
returned, the updates can be replayed from nothing, and lead to exactly the
orders that rest. -/
theorem replay_of_run (hd : (addedIds ops).Nodup)
    (h : (new m l tickerId clock).run ops = .ok w) :
    ∃ s, replay empty w.updates = some s ∧ Mirrors s w.toOrderBook := by
  obtain ⟨L, hr, hk⟩ := run_refines (keeps_new m l tickerId clock) h
  obtain ⟨ring, hh⟩ := hk.holds
  have hperm := hh.perm_resting
  have hdis := (Ledger.counted_of_runs tickerId hr).distinct hd
  refine ⟨Ledger.view L.resting, ?_, fun orderId held => ?_, ?_⟩
  · rw [← replay_untimed, hk.published]
    exact Ledger.replays_of_runs hr hd
  · rw [Ledger.view_eq_some hdis]
    constructor
    · rintro ⟨order, ho, hid, hheld⟩
      obtain ⟨o, ho', rfl⟩ := List.mem_map.1 (hperm.mem_iff.2 ho)
      exact ⟨o, ho', hid, hheld⟩
    · rintro ⟨o, ho, hid, hheld⟩
      exact ⟨_, hperm.mem_iff.1 (List.mem_map_of_mem ho), hid, hheld⟩
  · have h := (hperm.map Entry.orderId).nodup_iff.2 hdis
    rwa [entries, List.map_map] at h

/-- The sample run, which ends with orders at rest on either side, is an
instance. -/
theorem replay_of_sampleOps :
    ∃ w, (new maxOrderIds maxPriceLevels 3 fun _ => 0).run sampleOps = .ok w ∧
      ∃ s, replay empty w.updates = some s ∧ Mirrors s w.toOrderBook := by
  obtain ⟨w, hw, -⟩ := sampleOps_returns
  exact ⟨w, hw, replay_of_run (by decide) hw⟩

end World

end CppExchange
