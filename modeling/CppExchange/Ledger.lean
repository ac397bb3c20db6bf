import CppExchange.OrderBook

/-!
# The ledger

What an order book is for, without its storage: the resting orders in one list,
oldest first, and the history of what happened to the orders.  `Ledger.Step`
says which histories a call may lead to.  A matching loop may trade against any
order that is the oldest at its price and within the limit (`Ledger.Fills`);
which one it picks, and when it stops, is left open, and is what a book with
its chains in order adds.

Every event has the messages that announce it (`Event.responses`,
`Event.updates`), here with the timestamp zero.
-/

namespace CppExchange

open Library

/-- A response without its timestamp. -/
def ClientResponse.untimed (response : ClientResponse) : ClientResponse :=
  { response with nsTimestamp := 0 }

/-- An update without its timestamp. -/
def MarketUpdate.untimed (update : MarketUpdate) : MarketUpdate :=
  { update with nsTimestamp := 0 }

/-- An order as its owner sees it. -/
structure Entry where
  orderId : OrderIdT
  clientId : ClientIdT
  side : OrderSide
  quantity : QuantityT
  limitPrice : PriceT
  deriving DecidableEq, Repr

/-- An order without its place in memory and its timestamp. -/
def Order.entry {m : ℕ} (order : Order m) : Entry where
  orderId := order.orderId
  clientId := order.clientId
  side := order.side
  quantity := order.quantity
  limitPrice := order.limitPrice

theorem quantity_sub_eq_zero {a f : QuantityT} : a - f = 0 ↔ a = f := by
  rw [UInt32.sub_eq_iff_eq_add, UInt32.zero_add]

theorem min_quantity_le {q a : QuantityT} : min q a ≤ q ∧ min q a ≤ a := by
  rw [show min q a = if q ≤ a then q else a from rfl]
  split_ifs <;> grind

/-- Taking the smaller of two quantities off either of them wraps neither. -/
theorem toNat_sub_min {q a : QuantityT} :
    (q - min q a).toNat + (min q a).toNat = q.toNat ∧
      (a - min q a).toNat + (min q a).toNat = a.toNat := by
  obtain ⟨hq, ha⟩ := min_quantity_le (q := q) (a := a)
  rw [UInt32.toNat_sub_of_le _ _ hq, UInt32.toNat_sub_of_le _ _ ha]
  rw [UInt32.le_iff_toNat_le] at hq ha
  omega

namespace Entry

/-- What is left of an order after a fill: nothing when the fill was for all of
it. -/
def left (order : Entry) (fillQuantity : QuantityT) : List Entry :=
  if order.quantity = fillQuantity then []
  else [{ order with quantity := order.quantity - fillQuantity }]

/-- The quantity two orders trade. -/
def fillQuantity (taker maker : Entry) : QuantityT := min taker.quantity maker.quantity

end Entry

/-- What can happen to orders. -/
inductive Event
  | accepted (order : Entry)
  | traded (tradeId : TradeIdT) (maker taker : Entry) (fillQuantity : QuantityT)
  | rested (order : Entry)
  | canceled (clientId : ClientIdT) (side : OrderSide) (order : Entry)
  | rejected (clientId : ClientIdT) (orderId : OrderIdT)
  deriving DecidableEq, Repr

namespace Event

/-- The client responses that announce an event. -/
def responses (tickerId : TickerIdT) : Event → List ClientResponse
  | accepted order =>
    [{ type := .accepted, tickerId, clientId := order.clientId, orderId := order.orderId,
       side := order.side, quantity := order.quantity, price := order.limitPrice,
       nsTimestamp := 0 }]
  | traded _ maker taker fillQuantity =>
    [{ type := .filled, tickerId, clientId := maker.clientId, orderId := maker.orderId,
       side := maker.side, quantity := fillQuantity, price := maker.limitPrice, nsTimestamp := 0 },
     { type := .filled, tickerId, clientId := taker.clientId, orderId := taker.orderId,
       side := taker.side, quantity := fillQuantity, price := maker.limitPrice, nsTimestamp := 0 }]
  | rested _ => []
  | canceled clientId side order =>
    [{ type := .canceled, tickerId, clientId, orderId := order.orderId, side,
       quantity := order.quantity, price := order.limitPrice, nsTimestamp := 0 }]
  | rejected clientId orderId =>
    [{ type := .cancelRejected, tickerId, clientId, orderId, nsTimestamp := 0 }]

/-- The market updates that announce an event. -/
def updates (tickerId : TickerIdT) : Event → List MarketUpdate
  | accepted _ => []
  | traded tradeId maker taker fillQuantity =>
    [{ type := .trade, tickerId, tradeId, side := taker.side, quantity := fillQuantity,
       price := maker.limitPrice, nsTimestamp := 0 },
     if maker.quantity = fillQuantity then
       { type := .remove, tickerId, orderId := maker.orderId, side := maker.side,
         quantity := fillQuantity, price := maker.limitPrice, nsTimestamp := 0 }
     else
       { type := .modify, tickerId, orderId := maker.orderId, side := maker.side,
         quantity := maker.quantity - fillQuantity, price := maker.limitPrice, nsTimestamp := 0 }]
  | rested order =>
    [{ type := .add, tickerId, orderId := order.orderId, side := order.side,
       quantity := order.quantity, price := order.limitPrice, nsTimestamp := 0 }]
  | canceled _ side order =>
    [{ type := .remove, tickerId, orderId := order.orderId, side, quantity := order.quantity,
       price := order.limitPrice, nsTimestamp := 0 }]
  | rejected _ _ => []

end Event

/-- The resting orders, oldest first, the next trade id and the history. -/
structure Ledger where
  resting : List Entry := []
  nextTradeId : TradeIdT := 1
  events : List Event := []

namespace Ledger

/-- The ledger with one more event. -/
def record (ledger : Ledger) (event : Event) : Ledger :=
  { ledger with events := ledger.events ++ [event] }

/-- The ledger after `taker` traded with `maker`, which rests between `older`
and `newer` orders. -/
def trade (ledger : Ledger) (older : List Entry) (maker : Entry) (newer : List Entry)
    (taker : Entry) : Ledger where
  resting := older ++ maker.left (taker.fillQuantity maker) ++ newer
  nextTradeId := ledger.nextTradeId + 1
  events := ledger.events ++
    [.traded ledger.nextTradeId maker taker (taker.fillQuantity maker)]

/-- What is left of the taker after a trade with `maker`. -/
def after (taker maker : Entry) : Entry :=
  { taker with quantity := taker.quantity - taker.fillQuantity maker }

/-- The ledger with the order at rest, when anything is left of it. -/
def rest (ledger : Ledger) (order : Entry) : Ledger :=
  if order.quantity = 0 then ledger
  else { ledger with
    resting := ledger.resting ++ [order]
    events := ledger.events ++ [.rested order] }

/-- The ledger after the order between `older` and `newer` was cancelled. -/
def withdraw (ledger : Ledger) (older : List Entry) (order : Entry) (newer : List Entry)
    (clientId : ClientIdT) (side : OrderSide) : Ledger :=
  { ledger with
    resting := older ++ newer
    events := ledger.events ++ [.canceled clientId side order] }

/-- One trade of an incoming order: with the oldest order at some price within
the limit. -/
inductive Fill : Ledger → Entry → Ledger → Entry → Prop
  | mk {ledger : Ledger} {taker maker : Entry} {older newer : List Entry}
      (resting : ledger.resting = older ++ maker :: newer)
      (oldest : ∀ order ∈ older, order.limitPrice ≠ maker.limitPrice)
      (takerLeft : taker.quantity ≠ 0) (makerLeft : maker.quantity ≠ 0)
      (within : World.crosses taker.side taker.limitPrice maker.limitPrice = true) :
      Fill ledger taker (ledger.trade older maker newer taker) (after taker maker)

/-- The trades of an incoming order. -/
inductive Fills : Ledger → Entry → Ledger → Entry → Prop
  | refl (ledger : Ledger) (taker : Entry) : Fills ledger taker ledger taker
  | snoc {ledger ledger' ledger'' : Ledger} {taker taker' taker'' : Entry}
      (fills : Fills ledger taker ledger' taker') (fill : Fill ledger' taker' ledger'' taker'') :
      Fills ledger taker ledger'' taker''

/-- What a call may do. -/
inductive Step : Ledger → Op → Ledger → Prop
  | add {ledger ledger' : Ledger} {order order' : Entry}
      (fills : Fills (ledger.record (.accepted order)) order ledger' order') :
      Step ledger (.add order.orderId order.clientId order.side order.quantity order.limitPrice)
        (ledger'.rest order')
  | cancelHit {ledger : Ledger} {order : Entry} {older newer : List Entry}
      (clientId : ClientIdT) (side : OrderSide)
      (resting : ledger.resting = older ++ order :: newer)
      (oldest : ∀ x ∈ older, x.orderId = order.orderId → x.limitPrice ≠ order.limitPrice) :
      Step ledger (.cancel clientId order.orderId side order.limitPrice)
        (ledger.withdraw older order newer clientId side)
  | cancelMiss {ledger : Ledger} {orderId : OrderIdT} {limitPrice : PriceT}
      (clientId : ClientIdT) (side : OrderSide)
      (absent : ∀ order ∈ ledger.resting, order.orderId = orderId → order.limitPrice ≠ limitPrice) :
      Step ledger (.cancel clientId orderId side limitPrice)
        (ledger.record (.rejected clientId orderId))

end Ledger

end CppExchange
