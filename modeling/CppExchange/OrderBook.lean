import CppExchange.Messages
import CppExchange.Order

/-!
# The order book

`include/cppexchange/orderbook.h`.  The methods that only look after the price
levels read and write an `OrderBook`.  The others also push to the two queues
the book holds pointers to, advance the trade id counter they are given by
reference, and read the clock; `World` is the book with all of these.  A queue
is the list of what has been pushed to it, oldest first, and `clock` holds the
readings the clock is still to give.

The sizes `m` and `l` of the two pools are parameters (`maxOrderIds` and
`maxPriceLevels` in the source).  The loops over levels walk over at most `l`
levels before they repeat one, and the matching loop lowers the quantity at
every turn over orders with positive quantities; their fuel is chosen so.
-/

namespace CppExchange

open Library

/-- `OrderBook`, without its pointers to the queues. -/
structure OrderBook (m l : ℕ) where
  tickerId : TickerIdT
  orderPool : ObjectPool (Order m) m
  priceLevelPool : ObjectPool (OrdersPriceLevel m l) l
  priceLevels : UnorderedMap PriceT (Option (Fin l)) := ∅
  bestBids : Option (Fin l) := none
  bestAsks : Option (Fin l) := none

namespace OrderBook

variable {m l : ℕ}

/-- `OrderBook(ticker_id, …)`. -/
def new (m l : ℕ) (tickerId : TickerIdT) : OrderBook m l where
  tickerId := tickerId
  orderPool := .new m
  priceLevelPool := .new l

/-- The order under a pointer. -/
def order (book : OrderBook m l) (o : Fin m) : Order m := book.orderPool.get o

/-- The price level under a pointer. -/
def level (book : OrderBook m l) (b : Fin l) : OrdersPriceLevel m l := book.priceLevelPool.get b

/-- The level recorded in `price_levels` under a price. -/
def levelAt (book : OrderBook m l) (price : PriceT) : Option (Fin l) :=
  UnorderedMap.at? book.priceLevels price

/-- The orders on a level, oldest first. -/
def ordersOn (book : OrderBook m l) (b : Fin l) : List (Fin m) :=
  (book.level b).orders book.orderPool.heap

/-- The orders lying on the level recorded under a price, oldest first. -/
def ordersAt (book : OrderBook m l) (price : PriceT) : List (Fin m) :=
  match book.levelAt price with
  | none => []
  | some b => book.ordersOn b

/-- The orders lying on the levels recorded in `price_levels`. -/
def resting (book : OrderBook m l) : List (Fin m) := book.priceLevels.keys.flatMap book.ordersAt

/-- `side == BUY ? best_bids : best_asks`. -/
def bestOf (book : OrderBook m l) (side : OrderSide) : Option (Fin l) :=
  if side = .buy then book.bestBids else book.bestAsks

/-- The best level an order on `side` trades against: `best_asks` to buy,
`best_bids` otherwise. -/
def bestOpposite (book : OrderBook m l) (side : OrderSide) : Option (Fin l) :=
  if side = .buy then book.bestAsks else book.bestBids

/-- `(side == BUY ? best_bids : best_asks) = level`. -/
def setBestOf (book : OrderBook m l) (side : OrderSide) (level : Option (Fin l)) :
    OrderBook m l :=
  if side = .buy then { book with bestBids := level } else { book with bestAsks := level }

/-- Writing a level through a pointer. -/
def setLevel (book : OrderBook m l) (b : Fin l) (level : OrdersPriceLevel m l) : OrderBook m l :=
  { book with priceLevelPool := book.priceLevelPool.set b level }

/-- Writing orders through pointers. -/
def setOrders (book : OrderBook m l) (heap : Fin m → Order m) : OrderBook m l :=
  { book with orderPool := book.orderPool.setHeap heap }

/-- `o->quantity -= fill_quantity`. -/
def fillOrder (book : OrderBook m l) (o : Fin m) (fillQuantity : QuantityT) : OrderBook m l :=
  book.setOrders (Function.update book.orderPool.heap o
    { book.order o with quantity := (book.order o).quantity - fillQuantity })

/-- `getPriceLevelIndex(price)`: the price itself, as a `size_t`. -/
def getPriceLevelIndex (price : PriceT) : UInt64 := price

/-- The loop condition of `insertPriceLevel` at a level with price
`levelPrice`: it is strictly better for `side` than `price`. -/
def ahead (side : OrderSide) (levelPrice price : PriceT) : Bool :=
  if side = .buy then decide (price < levelPrice) else decide (levelPrice < price)

/-- The test of the loop of `insertPriceLevel`. -/
def isAhead (book : OrderBook m l) (side : OrderSide) (price : PriceT) :
    Option (Fin l) → Except Fault Bool
  | none => .ok false
  | some b => .ok (ahead side (book.level b).priceLevel price)

/-- The body of the loop of `insertPriceLevel`. -/
def toNext (book : OrderBook m l) (next : Option (Fin l)) : Except Fault (Option (Fin l)) := do
  let b ← deref next
  return (book.level b).nextPriceLevel

/-- The loop of `insertPriceLevel`: the first level, from the best one on, that
is not ahead of `price`. -/
def findNext (book : OrderBook m l) (side : OrderSide) (price : PriceT) :
    Except Fault (Option (Fin l)) :=
  whileLoop .hang (book.isAhead side price) book.toNext (l + 1) (book.bestOf side)

/-- `insertPriceLevel(price, side, price_level_index)`. -/
def insertPriceLevel (book : OrderBook m l) (price : PriceT) (side : OrderSide) (index : UInt64) :
    Except Fault (OrderBook m l × Fin l) := do
  let bestPriceLevel := book.bestOf side
  let nextPriceLevel ← book.findNext side price
  let (pool, priceLevel) ← book.priceLevelPool.getObject
    { nextPriceLevel, priceLevel := price, side }
  let book := { book with
    priceLevelPool := pool
    priceLevels := AList.insert index (some priceLevel) book.priceLevels }
  if nextPriceLevel = bestPriceLevel then
    return (book.setBestOf side (some priceLevel), priceLevel)
  else
    return (book, priceLevel)

/-- `getPriceLevel(price, side, create_if_missing)`. -/
def getPriceLevel (book : OrderBook m l) (price : PriceT) (side : OrderSide)
    (createIfMissing : Bool := false) : Except Fault (OrderBook m l × Option (Fin l)) := do
  let index := getPriceLevelIndex price
  let (priceLevels, priceLevel) := UnorderedMap.index book.priceLevels index
  let book := { book with priceLevels }
  if priceLevel = none ∧ createIfMissing = true then
    let (book, priceLevel) ← book.insertPriceLevel price side index
    return (book, some priceLevel)
  else
    return (book, priceLevel)

/-- The test of the loop of `removePriceLevel`. -/
def isElsewhere (book : OrderBook m l) (b previous : Fin l) : Except Fault Bool := do
  let next ← deref (book.level previous).nextPriceLevel
  return decide ((book.level next).priceLevel ≠ (book.level b).priceLevel)

/-- The body of the loop of `removePriceLevel`. -/
def toPrevious (book : OrderBook m l) (previous : Fin l) : Except Fault (Fin l) :=
  deref (book.level previous).nextPriceLevel

/-- The loop of `removePriceLevel`: from `first` on, the level whose next level
has the price of `b`. -/
def findPrevious (book : OrderBook m l) (b first : Fin l) : Except Fault (Fin l) :=
  whileLoop .hang (book.isElsewhere b) book.toPrevious l first

/-- The part of `removePriceLevel` that takes the level out of its chain. -/
def unlinkPriceLevel (book : OrderBook m l) (b : Fin l) : Except Fault (OrderBook m l) := do
  let side := (book.level b).side
  let first := if some b ≠ book.bestOf side then book.bestOf side else none
  match first with
  | none => return book.setBestOf side (book.level b).nextPriceLevel
  | some first =>
    let previous ← book.findPrevious b first
    return book.setLevel previous
      { book.level previous with nextPriceLevel := (book.level b).nextPriceLevel }

/-- `removePriceLevel(price_level)`. -/
def removePriceLevel (book : OrderBook m l) (b : Fin l) : Except Fault (OrderBook m l) := do
  let book ← book.unlinkPriceLevel b
  let index := getPriceLevelIndex (book.level b).priceLevel
  let priceLevels := AList.insert index none book.priceLevels
  let pool ← book.priceLevelPool.releaseObject b
  return { book with priceLevels, priceLevelPool := pool }

/-- `price_level->cancel(order_id)` on the level `b` of the book. -/
def cancelAt (book : OrderBook m l) (b : Fin l) (orderId : OrderIdT) :
    Except Fault (OrderBook m l × Option (Fin m)) := do
  let (level, heap, order) ← (book.level b).cancel book.orderPool.heap orderId
  return ((book.setLevel b level).setOrders heap, order)

/-- `price_level->add(order)` on the level `b` of the book. -/
def addAt (book : OrderBook m l) (b : Fin l) (order : Fin m) : Except Fault (OrderBook m l) := do
  let (level, heap) ← (book.level b).add book.orderPool.heap order
  return (book.setLevel b level).setOrders heap

/-- `if (price_level->top() == nullptr) removePriceLevel(price_level)`. -/
def removeIfEmpty (book : OrderBook m l) (b : Fin l) : Except Fault (OrderBook m l) :=
  if (book.level b).topOrder = none then book.removePriceLevel b else .ok book

/-- The part of `add` that puts what is left of an order on its price level. -/
def rest (book : OrderBook m l) (orderId : OrderIdT) (clientId : ClientIdT)
    (nsTimestamp : NsTimestampT) (side : OrderSide) (remaining : QuantityT) (limitPrice : PriceT) :
    Except Fault (OrderBook m l) := do
  let (book, priceLevel) ← book.getPriceLevel limitPrice side true
  let (pool, order) ← book.orderPool.getObject
    { tickerId := book.tickerId, orderId, clientId, nsTimestamp, side, quantity := remaining,
      limitPrice }
  let book := { book with orderPool := pool }
  let b ← deref priceLevel
  book.addAt b order

/-- The part of `cancel` that looks the order up and takes it out of the book. -/
def takeOut (book : OrderBook m l) (orderId : OrderIdT) (side : OrderSide) (limitPrice : PriceT) :
    Except Fault (OrderBook m l × Option (Fin m)) := do
  let (book, priceLevel) ← book.getPriceLevel limitPrice side
  match priceLevel with
  | some b =>
    let (book, order) ← book.cancelAt b orderId
    let book ← book.removeIfEmpty b
    return (book, order)
  | none => return (book, none)

end OrderBook

open OrderBook

/-- What a call on an order book can reach. -/
structure World (m l : ℕ) extends OrderBook m l where
  responses : List ClientResponse := []
  updates : List MarketUpdate := []
  clock : ℕ → NsTimestampT
  nextTradeId : TradeIdT := 1

namespace World

variable {m l : ℕ}

/-- A new book, empty queues and the first trade id. -/
def new (m l : ℕ) (tickerId : TickerIdT) (clock : ℕ → NsTimestampT) : World m l where
  toOrderBook := .new m l tickerId
  clock := clock

/-- The world with its book replaced. -/
def withBook (w : World m l) (book : OrderBook m l) : World m l := { w with toOrderBook := book }

/-- `getCurrentNsTimestamp()`: the next reading of the clock. -/
def getCurrentNsTimestamp (w : World m l) : NsTimestampT × World m l :=
  (w.clock 0, { w with clock := fun i => w.clock (i + 1) })

/-- `client_response_queue->push(response)`. -/
def pushResponse (w : World m l) (response : ClientResponse) : World m l :=
  { w with responses := w.responses ++ [response] }

/-- `market_update_queue->push(update)`. -/
def pushUpdate (w : World m l) (update : MarketUpdate) : World m l :=
  { w with updates := w.updates ++ [update] }

/-- A push of a response of this ticker, stamped with the time of the push. -/
def respond (w : World m l) (type : ResponseType) (clientId : ClientIdT) (orderId : OrderIdT)
    (side : OrderSide) (quantity : QuantityT) (price : PriceT) : World m l :=
  let (nsTimestamp, w) := w.getCurrentNsTimestamp
  w.pushResponse
    { type, tickerId := w.tickerId, clientId, orderId, side, quantity, price, nsTimestamp }

/-- A push of an update of this ticker, stamped with the time of the push. -/
def publish (w : World m l) (type : UpdateType) (orderId : OrderIdT) (tradeId : TradeIdT)
    (side : OrderSide) (quantity : QuantityT) (price : PriceT) : World m l :=
  let (nsTimestamp, w) := w.getCurrentNsTimestamp
  w.pushUpdate
    { type, tickerId := w.tickerId, orderId, tradeId, side, quantity, price, nsTimestamp }

/-- The TRADE of `match`, with the trade id counter advanced. -/
def publishTrade (w : World m l) (side : OrderSide) (fillQuantity : QuantityT) (price : PriceT) :
    World m l :=
  let tradeId := w.nextTradeId
  let w := { w with nextTradeId := w.nextTradeId + 1 }
  w.publish .trade orderIdInvalid tradeId side fillQuantity price

/-- The part of `match` after the resting order `o` was reduced: nothing is left
of it, and it is removed from its level, or it stays with a new quantity. -/
def settle (w : World m l) (side : OrderSide) (fillQuantity : QuantityT) (o : Fin m) :
    Except Fault (World m l) :=
  if (w.order o).quantity = 0 then do
    let w := w.publish .remove (w.order o).orderId tradeIdInvalid (w.order o).side fillQuantity
      (w.order o).limitPrice
    let (book, priceLevel) ← w.getPriceLevel (w.order o).limitPrice side
    let b ← deref priceLevel
    let (book, _) ← book.cancelAt b (book.order o).orderId
    return w.withBook book
  else
    return w.publish .modify (w.order o).orderId tradeIdInvalid (w.order o).side
      (w.order o).quantity (w.order o).limitPrice

/-- `match(order_id, client_id, side, quantity, next_trade_id, opposite_order)`. -/
def matchOrder (w : World m l) (orderId : OrderIdT) (clientId : ClientIdT) (side : OrderSide)
    (quantity : QuantityT) (oppositeOrder : Option (Fin m)) :
    Except Fault (World m l × QuantityT) := do
  let o ← deref oppositeOrder
  let fillQuantity := min quantity (w.order o).quantity
  let w := w.publishTrade side fillQuantity (w.order o).limitPrice
  let w := w.withBook (w.fillOrder o fillQuantity)
  let w ← w.settle side fillQuantity o
  let w := w.respond .filled (w.order o).clientId (w.order o).orderId (w.order o).side fillQuantity
    (w.order o).limitPrice
  let w := w.respond .filled clientId orderId side fillQuantity (w.order o).limitPrice
  return (w, quantity - fillQuantity)

/-- Whether an order with limit `limitPrice` on `side` trades against a level
at `price`: `price <= limit_price` to buy, `price >= limit_price` otherwise. -/
def crosses (side : OrderSide) (limitPrice price : PriceT) : Bool :=
  if side = .buy then decide (price ≤ limitPrice) else decide (limitPrice ≤ price)

/-- The test of the loops of `checkForMatch`. -/
def canMatch (side : OrderSide) (limitPrice : PriceT) (s : World m l × QuantityT) :
    Except Fault Bool :=
  match s.1.bestOpposite side with
  | none => .ok false
  | some b => .ok (s.2 != 0 && crosses side limitPrice (s.1.level b).priceLevel)

/-- The body of the loops of `checkForMatch`. -/
def matchBest (orderId : OrderIdT) (clientId : ClientIdT) (side : OrderSide)
    (s : World m l × QuantityT) : Except Fault (World m l × QuantityT) := do
  let b ← deref (s.1.bestOpposite side)
  let (w, quantity) ← s.1.matchOrder orderId clientId side s.2 (s.1.level b).topOrder
  let b ← deref (w.bestOpposite side)
  let book ← w.removeIfEmpty b
  return (w.withBook book, quantity)

/-- `checkForMatch(order_id, client_id, side, quantity, limit_price,
next_trade_id)`. The two loops of the source differ in the best pointer they
read and in the comparison with the limit. -/
def checkForMatch (w : World m l) (orderId : OrderIdT) (clientId : ClientIdT) (side : OrderSide)
    (quantity : QuantityT) (limitPrice : PriceT) : Except Fault (World m l × QuantityT) :=
  whileLoop .hang (canMatch side limitPrice) (matchBest orderId clientId side)
    (quantity.toNat + 1) (w, quantity)

/-- `add(order_id, client_id, side, quantity, limit_price, next_trade_id)`. -/
def add (w : World m l) (orderId : OrderIdT) (clientId : ClientIdT) (side : OrderSide)
    (quantity : QuantityT) (limitPrice : PriceT) : Except Fault (World m l) := do
  let w := w.respond .accepted clientId orderId side quantity limitPrice
  let (w, remaining) ← w.checkForMatch orderId clientId side quantity limitPrice
  if remaining ≠ 0 then
    let (nsTimestamp, w) := w.getCurrentNsTimestamp
    let book ← w.rest orderId clientId nsTimestamp side remaining limitPrice
    return (w.withBook book).publish .add orderId tradeIdInvalid side remaining limitPrice
  else
    return w

/-- `cancel(client_id, order_id, side, limit_price)`. -/
def cancel (w : World m l) (clientId : ClientIdT) (orderId : OrderIdT) (side : OrderSide)
    (limitPrice : PriceT) : Except Fault (World m l) := do
  let (book, order) ← w.takeOut orderId side limitPrice
  let w := w.withBook book
  match order with
  | some o =>
    let (updateNs, w) := w.getCurrentNsTimestamp
    let w := w.pushResponse
      { type := .canceled, tickerId := w.tickerId, clientId, orderId, side,
        quantity := (w.order o).quantity, price := limitPrice, nsTimestamp := updateNs }
    return w.pushUpdate
      { type := .remove, tickerId := w.tickerId, orderId, tradeId := tradeIdInvalid, side,
        quantity := (w.order o).quantity, price := limitPrice, nsTimestamp := updateNs }
  | none =>
    return w.respond .cancelRejected clientId orderId .invalid quantityInvalid priceInvalid

end World

/-- A call on an order book. -/
inductive Op
  | add (orderId : OrderIdT) (clientId : ClientIdT) (side : OrderSide) (quantity : QuantityT)
      (limitPrice : PriceT)
  | cancel (clientId : ClientIdT) (orderId : OrderIdT) (side : OrderSide) (limitPrice : PriceT)
  deriving DecidableEq, Repr

namespace World

variable {m l : ℕ}

/-- One call. -/
def step (w : World m l) : Op → Except Fault (World m l)
  | .add orderId clientId side quantity limitPrice =>
    w.add orderId clientId side quantity limitPrice
  | .cancel clientId orderId side limitPrice => w.cancel clientId orderId side limitPrice

/-- A sequence of calls. -/
def run (w : World m l) (ops : List Op) : Except Fault (World m l) := ops.foldlM step w

end World

end CppExchange
