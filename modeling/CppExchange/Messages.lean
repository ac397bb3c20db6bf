import CppExchange.Typedefs

/-!
# Messages

`include/cppexchange/messages.h`: what a client sends, and what the exchange
pushes to its clients and to the market data feed.
-/

namespace CppExchange

inductive RequestType
  | invalid
  | add
  | cancel
  deriving DecidableEq, Repr

structure ClientRequest where
  type : RequestType := .invalid
  tickerId : TickerIdT := tickerIdInvalid
  clientId : ClientIdT := clientIdInvalid
  orderId : OrderIdT := orderIdInvalid
  side : OrderSide := .invalid
  quantity : QuantityT := quantityInvalid
  limitPrice : PriceT := priceInvalid
  deriving DecidableEq, Repr

/-- `ClientRequest()`. -/
instance : Inhabited ClientRequest := ⟨{}⟩

inductive ResponseType
  | invalid
  | accepted
  | filled
  | canceled
  | cancelRejected
  | error
  deriving DecidableEq, Repr

structure ClientResponse where
  type : ResponseType := .invalid
  tickerId : TickerIdT := tickerIdInvalid
  clientId : ClientIdT := clientIdInvalid
  orderId : OrderIdT := orderIdInvalid
  side : OrderSide := .invalid
  quantity : QuantityT := quantityInvalid
  price : PriceT := priceInvalid
  nsTimestamp : NsTimestampT := nsTimestampInvalid
  deriving DecidableEq, Repr

inductive UpdateType
  | invalid
  | add
  | modify
  | remove
  | trade
  deriving DecidableEq, Repr

structure MarketUpdate where
  type : UpdateType := .invalid
  tickerId : TickerIdT := tickerIdInvalid
  orderId : OrderIdT := orderIdInvalid
  tradeId : TradeIdT := tradeIdInvalid
  side : OrderSide := .invalid
  quantity : QuantityT := quantityInvalid
  price : PriceT := priceInvalid
  nsTimestamp : NsTimestampT := nsTimestampInvalid
  deriving DecidableEq, Repr

end CppExchange
