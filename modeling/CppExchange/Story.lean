import CppExchange.Coherence
import CppExchange.Library.Counter
import CppExchange.Turns

/-!
# The two streams of one `add`

What an `add` tells the clients and what it tells the market are one story, a
list of deals (`Deal`): a pair of FILLED responses and a TRADE with a REMOVE or a
MODIFY for each of them, between the ACCEPTED and the ADD of what is left.
`Dealt` says what such a list is like; it holds of the trades of the ledger by
induction over them (`Fills.dealt`), since a resting order that is not used up
leaves nothing to trade with.
-/

namespace CppExchange

open Library OrderBook

/-- A trade of an incoming order with `maker`, which is here as it rested before
the trade. -/
structure Deal where
  tradeId : TradeIdT
  maker : Entry
  quantity : QuantityT
  deriving DecidableEq, Repr

/-- The event of a deal of `order`. -/
def Deal.event (order : Entry) (deal : Deal) : Event :=
  .traded deal.tradeId deal.maker order deal.quantity

/-- The deals of `order`, the first one with the id `nextTradeId`, that leave
`left` of it. -/
structure Dealt (nextTradeId : TradeIdT) (order : Entry) (deals : List Deal) (left : QuantityT) :
    Prop where
  /-- The trade ids are handed out one after the other. -/
  tradeIds : deals.map Deal.tradeId = countFrom nextTradeId deals.length
  /-- Every deal is for something. -/
  positive : ∀ deal ∈ deals, deal.quantity ≠ 0
  /-- No deal is for more than the maker has. -/
  within : ∀ deal ∈ deals, deal.quantity ≤ deal.maker.quantity
  /-- What was dealt and what is left make up the order. -/
  total : (deals.map fun deal => deal.quantity.toNat).sum + left.toNat = order.quantity.toNat
  /-- A maker that is not used up ends the story, and nothing is left. -/
  last : ∀ older deal newer, deals = older ++ deal :: newer →
    deal.maker.quantity ≠ deal.quantity → newer = [] ∧ left = 0

variable {nextTradeId : TradeIdT} {order : Entry} {deals : List Deal} {left : QuantityT}

/-- Before the first deal all of the order is left. -/
theorem Dealt.nil : Dealt nextTradeId order [] order.quantity where
  tradeIds := rfl
  positive _ h := absurd h List.not_mem_nil
  within _ h := absurd h List.not_mem_nil
  total := by simp
  last older deal newer h := by simp at h

/-- **One more deal,** which the deals before it left something for. -/
theorem Dealt.snoc (h : Dealt nextTradeId order deals left) (deal : Deal) (hleft : left ≠ 0)
    (hid : deal.tradeId = nextTradeId + UInt32.ofNat deals.length)
    (hmaker : deal.maker.quantity ≠ 0)
    (hquantity : deal.quantity = { order with quantity := left }.fillQuantity deal.maker) :
    Dealt nextTradeId order (deals ++ [deal]) (left - deal.quantity) := by
  have hsub : (left - deal.quantity).toNat + deal.quantity.toNat = left.toNat := by
    rw [hquantity]
    exact toNat_sub_min.1
  refine ⟨?_, fun d hd => ?_, fun d hd => ?_, ?_, fun older d newer he hne => ?_⟩
  · rw [List.map_append, h.tradeIds, List.length_append, List.length_singleton, countFrom_succ,
      ← hid]
    rfl
  · rcases List.mem_append.1 hd with hd | hd
    · exact h.positive d hd
    · rw [List.mem_singleton.1 hd, hquantity]
      exact Ledger.fillQuantity_ne_zero hleft hmaker
  · rcases List.mem_append.1 hd with hd | hd
    · exact h.within d hd
    · rw [List.mem_singleton.1 hd, hquantity]
      exact Ledger.fillQuantity_le_maker _ _
  · have htotal := h.total
    rw [List.map_append, List.sum_append, List.map_singleton, List.sum_singleton]
    omega
  · rcases List.eq_nil_or_concat newer with rfl | ⟨newer, d', rfl⟩
    · obtain ⟨-, hd⟩ := List.append_inj' he rfl
      obtain rfl := (List.cons.inj hd).1
      refine ⟨rfl, ?_⟩
      rw [Ledger.fillQuantity_eq] at hquantity
      split_ifs at hquantity
      · rw [hquantity, UInt32.sub_self]
      · exact absurd hquantity.symm hne
    · rw [List.concat_eq_append, ← List.cons_append, ← List.append_assoc] at he
      have hinit := (List.append_inj' he rfl).1
      exact absurd (h.last older d newer hinit hne).2 hleft

namespace Ledger

variable {L L' : Ledger} {taker taker' : Entry}

/-- While something is left of the incoming order, the makers were used up. -/
theorem Fill.subset (h : L.Fill taker L' taker') (hleft : taker'.quantity ≠ 0) :
    L'.resting ⊆ L.resting := by
  cases h with
  | @mk maker older newer resting oldest takerLeft makerLeft within =>
    have hfull : maker.quantity = taker.fillQuantity maker := by
      by_contra hne
      refine hleft ?_
      rw [fillQuantity_eq] at hne
      rw [after, fillQuantity_eq]
      split_ifs at hne ⊢
      · exact UInt32.sub_self _
      · exact absurd rfl hne
    rw [resting, trade, Entry.left, if_pos hfull, List.append_nil]
    exact ((List.Sublist.refl older).append (List.sublist_cons_self maker newer)).subset

/-- **The trades of an incoming order** are a list of deals with orders that
rested before, and are told as such. -/
theorem Fills.dealt (h : L.Fills taker L' taker') :
    ∃ deals, Dealt L.nextTradeId taker deals taker'.quantity ∧
      (∀ deal ∈ deals, deal.maker ∈ L.resting) ∧
      (taker'.quantity ≠ 0 → L'.resting ⊆ L.resting) ∧
      taker' = { taker with quantity := taker'.quantity } ∧
      L'.nextTradeId = L.nextTradeId + UInt32.ofNat deals.length ∧
      ∀ tickerId, L'.announced tickerId = L.announced tickerId ++
          deals.flatMap (fun deal => (deal.event taker).responses tickerId) ∧
        L'.events.flatMap (Event.updates tickerId) = L.events.flatMap (Event.updates tickerId) ++
          deals.flatMap fun deal => (deal.event taker).updates tickerId := by
  induction h with
  | refl taker =>
    exact ⟨[], .nil, by simp, fun _ => List.Subset.refl _, rfl, (UInt32.add_zero _).symm,
      fun _ => by simp⟩
  | @snoc L₁ L₂ taker taker₁ taker₂ fills fill ih =>
    obtain ⟨deals, hd, hrested, hsub, htaker, hnext, htold⟩ := ih
    have hsub' := fill.subset
    cases fill with
    | @mk maker older newer resting oldest takerLeft makerLeft within =>
      have hd' := hd.snoc ⟨L₁.nextTradeId, maker, taker₁.fillQuantity maker⟩ takerLeft hnext
        makerLeft (by rw [← htaker])
      refine ⟨_, hd', fun deal hdeal => ?_, fun hleft => ?_, ?_, ?_, fun tickerId => ?_⟩
      · rcases List.mem_append.1 hdeal with hdeal | hdeal
        · exact hrested deal hdeal
        · rw [List.mem_singleton.1 hdeal]
          exact hsub takerLeft (by simp [resting])
      · exact List.Subset.trans (hsub' hleft) (hsub takerLeft)
      · rw [after, htaker]
      · rw [trade, hnext, List.length_append, List.length_singleton, UInt32.ofNat_add,
          UInt32.add_assoc]
        rfl
      · obtain ⟨hresp, hupd⟩ := htold tickerId
        constructor
        · rw [announced] at hresp ⊢
          rw [trade, List.flatMap_append, hresp, List.flatMap_append, List.append_assoc,
            List.flatMap_singleton, List.flatMap_singleton, htaker]
          rfl
        · rw [trade, List.flatMap_append, hupd, List.flatMap_append, List.append_assoc,
            List.flatMap_singleton, List.flatMap_singleton, htaker]
          rfl

/-- What an `add` may do. -/
theorem Step.add_cases {order : Entry} (h : L.Step
      (.add order.orderId order.clientId order.side order.quantity order.limitPrice) L') :
    ∃ L₁ order', (L.record (.accepted order)).Fills order L₁ order' ∧ L' = L₁.rest order' := by
  generalize hop : Op.add order.orderId order.clientId order.side order.quantity order.limitPrice =
    op at h
  cases h with
  | @add L₁ taker order' fills =>
    obtain rfl : order = taker := by
      cases order
      cases taker
      simpa using hop
    exact ⟨L₁, order', fills, rfl⟩
  | cancelHit => cases hop
  | cancelMiss => cases hop

end Ledger

namespace World

variable {m l : ℕ} {w w' : World m l} {ring : Fin l → List (Fin m)} {resting : List Entry}
  {tickerId : TickerIdT} {clock : ℕ → NsTimestampT} {ops : List Op}

/-- **One `add` tells one story** to the clients and to the market. -/
theorem add_told (order : Entry) (hh : Holds w.toOrderBook ring resting)
    (h : w.add order.orderId order.clientId order.side order.quantity order.limitPrice = .ok w') :
    ∃ deals left, Dealt w.nextTradeId order deals left ∧
      (∀ deal ∈ deals, ∃ o ∈ w.resting, deal.maker = (w.order o).entry) ∧
      w'.nextTradeId = w.nextTradeId + UInt32.ofNat deals.length ∧
      w'.responses.map ClientResponse.untimed = w.responses.map ClientResponse.untimed ++
        ((Event.accepted order).responses w.tickerId ++
          deals.flatMap fun deal => (deal.event order).responses w.tickerId) ∧
      w'.updates.map MarketUpdate.untimed = w.updates.map MarketUpdate.untimed ++
        (deals.flatMap (fun deal => (deal.event order).updates w.tickerId) ++
          if left = 0 then []
          else (Event.rested { order with quantity := left }).updates w.tickerId) := by
  have hcall : w.step (.add order.orderId order.clientId order.side order.quantity
      order.limitPrice) = .ok w' := h
  obtain ⟨L', hstep, -, -, hnext, hresp, hupd⟩ := step_records hh hcall
  obtain ⟨L₁, order', fills, rfl⟩ := hstep.add_cases
  obtain ⟨deals, hd, hrested, -, horder, hnext', htold⟩ := fills.dealt
  obtain ⟨hresp', hupd'⟩ := htold w.tickerId
  have hrest : ((L₁.rest order').announced w.tickerId = L₁.announced w.tickerId) ∧
      (L₁.rest order').nextTradeId = L₁.nextTradeId ∧
      (L₁.rest order').events.flatMap (Event.updates w.tickerId) =
        L₁.events.flatMap (Event.updates w.tickerId) ++ if order'.quantity = 0 then []
          else (Event.rested order').updates w.tickerId := by
    unfold Ledger.rest
    split_ifs
    · simp
    · simp [Ledger.announced, Event.responses]
  refine ⟨deals, order'.quantity, hd, fun deal hdeal => ?_, ?_, ?_, ?_⟩
  · obtain ⟨o, ho, he⟩ := List.mem_map.1 (hh.perm_resting.mem_iff.2 (hrested deal hdeal))
    exact ⟨o, ho, he.symm⟩
  · rw [hnext, hrest.2.1, hnext']
    rfl
  · rw [hresp, hrest.1, hresp']
    rfl
  · rw [hupd, hrest.2.2, hupd', ← horder]
    rfl

/-- **The private and the public stream of an `add` tell the same story,** on the
book that a run has left, with any trade id to begin with. -/
theorem told_of_run (h : (new m l tickerId clock).run ops = .ok w) (nextTradeId : TradeIdT)
    (order : Entry)
    (hadd : World.add { w with nextTradeId } order.orderId order.clientId order.side
      order.quantity order.limitPrice = .ok w') :
    ∃ deals left, Dealt nextTradeId order deals left ∧
      (∀ deal ∈ deals, ∃ o ∈ w.resting, deal.maker = (w.order o).entry) ∧
      w'.nextTradeId = nextTradeId + UInt32.ofNat deals.length ∧
      w'.responses.map ClientResponse.untimed = w.responses.map ClientResponse.untimed ++
        ((Event.accepted order).responses tickerId ++
          deals.flatMap fun deal => (deal.event order).responses tickerId) ∧
      w'.updates.map MarketUpdate.untimed = w.updates.map MarketUpdate.untimed ++
        (deals.flatMap (fun deal => (deal.event order).updates tickerId) ++
          if left = 0 then []
          else (Event.rested { order with quantity := left }).updates tickerId) := by
  obtain ⟨L, -, hk⟩ := run_refines (keeps_new m l tickerId clock) h
  obtain ⟨ring, hh⟩ := hk.holds
  rw [← hk.tickerId_eq]
  exact add_told (w := { w with nextTradeId }) order hh hadd

/-- Three offers at two prices. -/
def offers : List Op := [.add 1 1 .sell 10 100, .add 2 1 .sell 10 95, .add 3 1 .sell 5 95]

/-- A bid that takes one offer and a part of the next. -/
def bid : Entry := ⟨4, 7, .buy, 12, 100⟩

/-- The bid for twelve, with the trade ids about to wrap, is an instance. -/
theorem told_of_offers : ∃ w w', (new maxOrderIds maxPriceLevels 3 fun _ => 0).run offers = .ok w ∧
    World.add { w with nextTradeId := 0xFFFFFFFF } bid.orderId bid.clientId bid.side bid.quantity
      bid.limitPrice = .ok w' ∧
    ∃ deals left, Dealt 0xFFFFFFFF bid deals left ∧
      (∀ deal ∈ deals, ∃ o ∈ w.resting, deal.maker = (w.order o).entry) ∧
      w'.nextTradeId = 0xFFFFFFFF + UInt32.ofNat deals.length ∧
      w'.responses.map ClientResponse.untimed = w.responses.map ClientResponse.untimed ++
        ((Event.accepted bid).responses 3 ++
          deals.flatMap fun deal => (deal.event bid).responses 3) ∧
      w'.updates.map MarketUpdate.untimed = w.updates.map MarketUpdate.untimed ++
        (deals.flatMap (fun deal => (deal.event bid).updates 3) ++
          if left = 0 then [] else (Event.rested { bid with quantity := left }).updates 3) := by
  have hboth : ((new maxOrderIds maxPriceLevels 3 fun _ => 0).run offers >>= fun w =>
      World.add { w with nextTradeId := 0xFFFFFFFF } bid.orderId bid.clientId bid.side bid.quantity
        bid.limitPrice).isOk = true := by
    decide +kernel
  obtain ⟨w', hw'⟩ := exists_of_isOk hboth
  obtain ⟨w, hw, hadd⟩ := bind_eq_ok.1 hw'
  exact ⟨w, w', hw, hadd, told_of_run hw 0xFFFFFFFF bid hadd⟩

end World

end CppExchange
