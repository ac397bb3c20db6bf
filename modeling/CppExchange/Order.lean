import CppExchange.Library.Ring
import CppExchange.ObjectPool

/-!
# Orders and price levels

`include/cppexchange/order.h`.  The orders of a price level form a circular
doubly linked list through `previous` and `next`, entered at `top_order`; the
levels of one side of a book form a singly linked list through
`next_price_level`.  Orders live in a memory `Fin m → Order m`, and levels are
pointed at by `Fin l`.
-/

namespace CppExchange

open Library

/-- `Orders::Order`. -/
structure Order (m : ℕ) where
  previous : Option (Fin m) := none
  next : Option (Fin m) := none
  tickerId : TickerIdT := tickerIdInvalid
  orderId : OrderIdT := orderIdInvalid
  clientId : ClientIdT := clientIdInvalid
  quantity : QuantityT := quantityInvalid
  executed : QuantityT := 0
  nsTimestamp : NsTimestampT := nsTimestampInvalid
  limitPrice : PriceT := priceInvalid
  side : OrderSide := .invalid

instance {m : ℕ} : Inhabited (Order m) := ⟨{}⟩

/-- `Orders::OrdersPriceLevel`. -/
structure OrdersPriceLevel (m l : ℕ) where
  nextPriceLevel : Option (Fin l) := none
  priceLevel : PriceT := priceInvalid
  topOrder : Option (Fin m) := none
  side : OrderSide := .invalid

instance {m l : ℕ} : Inhabited (OrdersPriceLevel m l) := ⟨{}⟩

section Links

variable {m : ℕ}

/-- The forward pointers of a memory of orders. -/
def nextOf (heap : Fin m → Order m) (o : Fin m) : Option (Fin m) := (heap o).next

/-- The backward pointers of a memory of orders. -/
def previousOf (heap : Fin m → Order m) (o : Fin m) : Option (Fin m) := (heap o).previous

/-- `o->next = p`. -/
def setNext (heap : Fin m → Order m) (o : Fin m) (p : Option (Fin m)) : Fin m → Order m :=
  Function.update heap o { heap o with next := p }

/-- `o->previous = p`. -/
def setPrevious (heap : Fin m → Order m) (o : Fin m) (p : Option (Fin m)) : Fin m → Order m :=
  Function.update heap o { heap o with previous := p }

end Links

namespace OrdersPriceLevel

variable {m l : ℕ}

/-- `add(order)`. -/
def add (level : OrdersPriceLevel m l) (heap : Fin m → Order m) (order : Fin m) :
    Except Fault (OrdersPriceLevel m l × (Fin m → Order m)) :=
  match level.topOrder with
  | none =>
    let heap := setPrevious (setNext heap order (some order)) order (some order)
    .ok ({ level with topOrder := some order, side := (heap order).side }, heap)
  | some top => do
    let heap := setNext heap order (some top)
    let heap := setPrevious heap order (heap top).previous
    let previous ← deref (heap order).previous
    let heap := setNext heap previous (some order)
    let heap := setPrevious heap top (some order)
    return (level, heap)

/-- The test of the search loop of `cancel`. -/
def searching (heap : Fin m → Order m) (top : Fin m) (orderId : OrderIdT) (order : Fin m) :
    Except Fault Bool :=
  .ok (decide ((heap order).orderId ≠ orderId ∧ some order ≠ (heap top).previous))

/-- The search loop of `cancel`: from the top order on, to the first order with
the id or to the last order. -/
def search (heap : Fin m → Order m) (top : Fin m) (orderId : OrderIdT) : Except Fault (Fin m) :=
  whileLoop .hang (searching heap top orderId) (fun order => deref (heap order).next) m top

/-- The removal branch of `cancel`: the new top order and the new memory. -/
def unlink (heap : Fin m → Order m) (top order : Fin m) :
    Except Fault (Option (Fin m) × (Fin m → Order m)) := do
  let previous ← deref (heap order).previous
  let heap := setNext heap previous (heap order).next
  let next ← deref (heap order).next
  let heap := setPrevious heap next (heap order).previous
  let topOrder :=
    if top = order then
      if (heap top).next = some top then none else (heap top).next
    else some top
  let heap := setNext (setPrevious heap order none) order none
  return (topOrder, heap)

/-- `cancel(order_id)`. -/
def cancel (level : OrdersPriceLevel m l) (heap : Fin m → Order m) (orderId : OrderIdT) :
    Except Fault (OrdersPriceLevel m l × (Fin m → Order m) × Option (Fin m)) := do
  let top ← deref level.topOrder
  let order ← search heap top orderId
  if (heap order).orderId = orderId then
    let (topOrder, heap) ← unlink heap top order
    return ({ level with topOrder }, heap, some order)
  else
    return (level, heap, none)

/-- The orders met walking `next` from `top_order` until it leads back there. -/
def orders (level : OrdersPriceLevel m l) (heap : Fin m → Order m) : List (Fin m) :=
  ringFrom (nextOf heap) m level.topOrder

end OrdersPriceLevel

end CppExchange
