import CppExchange.OrderBook

/-!
# The exchange

`include/cppexchange/cppexchange.h`.  The books of all tickers push to the same
two queues, read the same clock and take their trade ids from the same counter.
A call on one book is a call on the `World` of that book (`Exchange.world`),
whose queues, clock and counter the exchange then takes over
(`Exchange.withWorld`).

`run` is a thread that pops requests and processes them one by one; here it is
given the requests that were pushed.
-/

namespace CppExchange

open Library OrderBook

/-- `Exchange`, with its queues and the clock. -/
structure Exchange (m l : ℕ) where
  nextOrderId : OrderIdT := 1
  nextTradeId : TradeIdT := 1
  orderBooksMap : UnorderedMap TickerIdT (Option (OrderBook m l)) := ∅
  responses : List ClientResponse := []
  updates : List MarketUpdate := []
  clock : ℕ → NsTimestampT

namespace Exchange

variable {m l : ℕ}

/-- The book of a ticker. -/
def bookOf (e : Exchange m l) (tickerId : TickerIdT) : Option (OrderBook m l) :=
  UnorderedMap.at? e.orderBooksMap tickerId

/-- What a call on a book can reach. -/
def world (e : Exchange m l) (book : OrderBook m l) : World m l where
  toOrderBook := book
  responses := e.responses
  updates := e.updates
  clock := e.clock
  nextTradeId := e.nextTradeId

/-- The exchange after a call on the book of a ticker. -/
def withWorld (e : Exchange m l) (tickerId : TickerIdT) (w : World m l) : Exchange m l :=
  { e with
    nextTradeId := w.nextTradeId
    orderBooksMap := AList.insert tickerId (some w.toOrderBook) e.orderBooksMap
    responses := w.responses
    updates := w.updates
    clock := w.clock }

/-- `addTicker(ticker_id)`. -/
def addTicker (e : Exchange m l) (tickerId : TickerIdT) : Except Fault (Exchange m l) := do
  assert (decide (e.orderBooksMap.keys.length ≠ maxTickers)) "Max tickers count reached"
  if tickerId ∈ e.orderBooksMap then
    return e
  else
    return { e with
      orderBooksMap := AList.insert tickerId (some (.new m l tickerId)) e.orderBooksMap }

/-- `Exchange(…, ticker_ids)`. -/
def new (m l : ℕ) (tickerIds : List TickerIdT) (clock : ℕ → NsTimestampT) :
    Except Fault (Exchange m l) :=
  tickerIds.foldlM addTicker { clock }

/-- `getOrderBook(ticker_id)`: `order_books_map[ticker_id]`. -/
def getOrderBook (e : Exchange m l) (tickerId : TickerIdT) :
    Exchange m l × Option (OrderBook m l) :=
  let (orderBooksMap, book) := UnorderedMap.index e.orderBooksMap tickerId
  ({ e with orderBooksMap }, book)

/-- `getNextOrderId()`. -/
def getNextOrderId (e : Exchange m l) : OrderIdT × Exchange m l :=
  (e.nextOrderId, { e with nextOrderId := e.nextOrderId + 1 })

/-- `addOrder(ticker_id, client_id, side, quantity, limit_price)`. -/
def addOrder (e : Exchange m l) (tickerId : TickerIdT) (clientId : ClientIdT) (side : OrderSide)
    (quantity : QuantityT) (limitPrice : PriceT) : Except Fault (Exchange m l) := do
  let (e, orderBook) := e.getOrderBook tickerId
  let book ← deref orderBook
  let (orderId, e) := e.getNextOrderId
  let w ← (e.world book).add orderId clientId side quantity limitPrice
  return e.withWorld tickerId w

/-- `cancelOrder(ticker_id, client_id, order_id, side, limit_price)`. -/
def cancelOrder (e : Exchange m l) (tickerId : TickerIdT) (clientId : ClientIdT)
    (orderId : OrderIdT) (side : OrderSide) (limitPrice : PriceT) :
    Except Fault (Exchange m l) := do
  let (e, orderBook) := e.getOrderBook tickerId
  let book ← deref orderBook
  let w ← (e.world book).cancel clientId orderId side limitPrice
  return e.withWorld tickerId w

/-- `processRequest()`. -/
def processRequest (e : Exchange m l) (request : ClientRequest) : Except Fault (Exchange m l) :=
  match request.type with
  | .invalid => return e
  | .add =>
    e.addOrder request.tickerId request.clientId request.side request.quantity request.limitPrice
  | .cancel =>
    e.cancelOrder request.tickerId request.clientId request.orderId request.side
      request.limitPrice

/-- `run()`, on the requests it pops. -/
def run (e : Exchange m l) (requests : List ClientRequest) : Except Fault (Exchange m l) :=
  requests.foldlM processRequest e

end Exchange

end CppExchange
