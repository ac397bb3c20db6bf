import CppExchange.Books
import CppExchange.Library.Lockstep
import CppExchange.Views

/-!
# What the exchange never looks at

Client ids and timestamps are labels: an order and a message carry them, and no
branch of the code reads one, not even that of a cancel.  So requests under other
client ids, processed by another clock, fail where the requests do, or lead to the
same books and the same messages but for the labels (`Exchange.labels_of_run`).

What one can see of an exchange without being told the labels is then the same
whoever sent the requests, and whenever (`Exchange.blind_of_run`): the market data
feed says nothing about who trades.
-/

namespace CppExchange

open Library OrderBook

/-- A change of client ids and timestamps that leaves the invalid ones. -/
structure Labelling where
  client : ClientIdT → ClientIdT
  time : NsTimestampT → NsTimestampT
  client_invalid : client clientIdInvalid = clientIdInvalid
  time_invalid : time nsTimestampInvalid = nsTimestampInvalid

/-- An order under other labels. -/
def Order.labelled {m : ℕ} (φ : Labelling) (order : Order m) : Order m :=
  { order with clientId := φ.client order.clientId, nsTimestamp := φ.time order.nsTimestamp }

/-- A response under other labels. -/
def ClientResponse.labelled (φ : Labelling) (response : ClientResponse) : ClientResponse :=
  { response with
    clientId := φ.client response.clientId
    nsTimestamp := φ.time response.nsTimestamp }

/-- An update under another timestamp. -/
def MarketUpdate.labelled (φ : Labelling) (update : MarketUpdate) : MarketUpdate :=
  { update with nsTimestamp := φ.time update.nsTimestamp }

/-- A request of another client. -/
def ClientRequest.labelled (φ : Labelling) (request : ClientRequest) : ClientRequest :=
  { request with clientId := φ.client request.clientId }

/-- No labels. -/
def Labelling.blank : Labelling where
  client _ := clientIdInvalid
  time _ := nsTimestampInvalid
  client_invalid := rfl
  time_invalid := rfl

/-- Orders seen under other labels. -/
def labelView {m l : ℕ} (φ : Labelling) : View m l where
  order := Order.labelled φ
  level := id
  order_next _ _ := rfl
  order_previous _ _ := rfl
  next _ := rfl
  previous _ := rfl
  orderId _ := rfl
  topOrder _ := rfl
  level_topOrder _ _ := rfl
  level_side _ _ _ := rfl

/-! ### Books -/

namespace OrderBook

variable {m l : ℕ} {φ : Labelling} {book : OrderBook m l} {b : Fin l} {o : Fin m}
  {side : OrderSide} {price : PriceT} {orderId : OrderIdT} {clientId : ClientIdT}
  {quantity : QuantityT} {nsTimestamp : NsTimestampT} {index : UInt64} {createIfMissing : Bool}

/-- A book under other labels. -/
def labelled (φ : Labelling) (book : OrderBook m l) : OrderBook m l :=
  { book with orderPool := book.orderPool.map (Order.labelled φ) }

/-- An empty book carries no label. -/
theorem labelled_new {tickerId : TickerIdT} :
    (new m l tickerId).labelled φ = new m l tickerId := by
  have horder : (default : Order m).labelled φ = default := by
    simp only [Order.labelled, default, φ.client_invalid, φ.time_invalid]
  simp only [labelled, new, ObjectPool.map, ObjectPool.new, ObjectPool.get, horder]

/-- Levels are inserted without a look at the orders. -/
theorem insertPriceLevel_labelled : (book.labelled φ).insertPriceLevel price side index =
    (book.insertPriceLevel price side index).map fun r => (r.1.labelled φ, r.2) := by
  unfold insertPriceLevel
  rw [show (book.labelled φ).findNext side price = book.findNext side price from rfl, map_bind]
  refine bind_congr fun next => ?_
  rw [show (book.labelled φ).priceLevelPool = book.priceLevelPool from rfl, map_bind]
  refine bind_congr fun r => ?_
  rw [show (book.labelled φ).bestOf side = book.bestOf side from rfl]
  dsimp only
  split_ifs
  · refine congrArg Except.ok (Prod.ext ?_ rfl)
    unfold setBestOf
    split_ifs <;> rfl
  · rfl

/-- A level is found, or made, without a look at the orders. -/
theorem getPriceLevel_labelled : (book.labelled φ).getPriceLevel price side createIfMissing =
    (book.getPriceLevel price side createIfMissing).map fun r => (r.1.labelled φ, r.2) := by
  cases createIfMissing with
  | false =>
    rw [getPriceLevel_eq, getPriceLevel_eq]
    rfl
  | true =>
    cases hat : book.levelAt price with
    | some b =>
      have hat' : (book.labelled φ).levelAt price = some b := hat
      rw [getPriceLevel_of_levelAt hat, getPriceLevel_of_levelAt hat']
      rfl
    | none =>
      have hat' : (book.labelled φ).levelAt price = none := hat
      rw [getPriceLevel_of_levelAt_none hat, getPriceLevel_of_levelAt_none hat',
        show (book.labelled φ).touch price = (book.touch price).labelled φ from rfl,
        insertPriceLevel_labelled, bind_map, map_bind]
      rfl

/-- Unlinking follows the levels and reads no label. -/
theorem unlinkPriceLevel_labelled : (book.labelled φ).unlinkPriceLevel b =
    (book.unlinkPriceLevel b).map (labelled φ) := by
  unfold unlinkPriceLevel
  rw [show (book.labelled φ).level = book.level from rfl,
    show (book.labelled φ).bestOf = book.bestOf from rfl]
  dsimp only
  cases if some b ≠ book.bestOf (book.level b).side then book.bestOf (book.level b).side
    else none with
  | none =>
    refine congrArg Except.ok ?_
    unfold setBestOf
    split_ifs <;> rfl
  | some first =>
    dsimp only
    rw [show (book.labelled φ).findPrevious b first = book.findPrevious b first from rfl, map_bind]
    rfl

/-- Levels are removed without a look at the orders. -/
theorem removePriceLevel_labelled : (book.labelled φ).removePriceLevel b =
    (book.removePriceLevel b).map (labelled φ) := by
  unfold removePriceLevel
  rw [unlinkPriceLevel_labelled, bind_map, map_bind]
  refine bind_congr fun book₁ => ?_
  rw [show (book₁.labelled φ).priceLevelPool = book₁.priceLevelPool from rfl]
  dsimp only
  rw [map_bind]
  rfl

/-- The removal of an empty level reads no label. -/
theorem removeIfEmpty_labelled : (book.labelled φ).removeIfEmpty b =
    (book.removeIfEmpty b).map (labelled φ) := by
  unfold removeIfEmpty
  rw [show (book.labelled φ).level b = book.level b from rfl]
  split_ifs
  · exact removePriceLevel_labelled
  · rfl

/-- The search of a level goes by order ids, which are not labels. -/
theorem cancelAt_labelled : (book.labelled φ).cancelAt b orderId =
    (book.cancelAt b orderId).map fun r => (r.1.labelled φ, r.2) := by
  have hcancel : ((book.labelled φ).level b).cancel (book.labelled φ).orderPool.heap orderId = _ :=
    (labelView φ).cancel
  unfold cancelAt
  rw [hcancel, bind_map, map_bind]
  rfl

/-- Adding to a level relinks its orders, whatever their labels. -/
theorem addAt_labelled : (book.labelled φ).addAt b o = (book.addAt b o).map (labelled φ) := by
  have hadd : ((book.labelled φ).level b).add (book.labelled φ).orderPool.heap o = _ :=
    (labelView φ).add
  unfold addAt
  rw [hadd, bind_map, map_bind]
  rfl

theorem setOrders_labelled {heap : Fin m → Order m} :
    (book.labelled φ).setOrders ((labelView (l := l) φ).onHeap heap) =
      (book.setOrders heap).labelled φ := rfl

/-- A fill takes a quantity off, and no label. -/
theorem fillOrder_labelled :
    (book.labelled φ).fillOrder o quantity = (book.fillOrder o quantity).labelled φ := by
  unfold fillOrder
  rw [← setOrders_labelled, View.onHeap_update]
  rfl

/-- **What is left of an order** is put on a level under its labels. -/
theorem rest_labelled : (book.labelled φ).rest orderId (φ.client clientId) (φ.time nsTimestamp)
      side quantity price =
    (book.rest orderId clientId nsTimestamp side quantity price).map (labelled φ) := by
  unfold rest
  rw [getPriceLevel_labelled, Library.bind_map, map_bind]
  refine bind_congr ?_
  rintro ⟨book₁, level⟩
  have hget := @ObjectPool.getObject_map (Order m) m book₁.orderPool (Order.labelled φ)
    { tickerId := book₁.tickerId, orderId, clientId, nsTimestamp, side, quantity,
      limitPrice := price }
  show ((book₁.orderPool.map (Order.labelled φ)).getObject (Order.labelled φ
    { tickerId := book₁.tickerId, orderId, clientId, nsTimestamp, side, quantity,
      limitPrice := price }) >>= _) = _
  rw [hget, Library.bind_map, map_bind]
  refine bind_congr ?_
  rintro ⟨pool, o⟩
  dsimp only
  rw [map_bind]
  refine bind_congr fun b => ?_
  show (labelled φ { book₁ with orderPool := pool }).addAt b o = _
  rw [addAt_labelled]

/-- **An order is taken out** whatever its labels are. -/
theorem takeOut_labelled : (book.labelled φ).takeOut orderId side price =
    (book.takeOut orderId side price).map fun r => (r.1.labelled φ, r.2) := by
  unfold takeOut
  rw [getPriceLevel_labelled, Library.bind_map, map_bind]
  refine bind_congr ?_
  rintro ⟨book₁, _ | b⟩
  · rfl
  · dsimp only
    rw [cancelAt_labelled, Library.bind_map, map_bind]
    refine bind_congr fun r => ?_
    dsimp only
    rw [removeIfEmpty_labelled, Library.bind_map, map_bind]
    rfl

end OrderBook

/-! ### Calls on a book -/

namespace World

variable {m l : ℕ} {φ : Labelling} {w : World m l} {o : Fin m} {x : Option (Fin m)}
  {type : ResponseType} {updateType : UpdateType} {orderId : OrderIdT} {tradeId : TradeIdT}
  {clientId : ClientIdT} {side : OrderSide} {quantity : QuantityT} {price limitPrice : PriceT}

/-- A book with its queues and its clock under other labels. -/
def labelled (φ : Labelling) (w : World m l) : World m l where
  toOrderBook := w.toOrderBook.labelled φ
  responses := w.responses.map (ClientResponse.labelled φ)
  updates := w.updates.map (MarketUpdate.labelled φ)
  clock i := φ.time (w.clock i)
  nextTradeId := w.nextTradeId

/-- A response carries the label of its client and of its time. -/
theorem respond_labelled :
    (w.labelled φ).respond type (φ.client clientId) orderId side quantity price =
      (w.respond type clientId orderId side quantity price).labelled φ := by
  simp only [labelled, respond, pushResponse, getCurrentNsTimestamp, List.map_append,
    List.map_singleton]
  rfl

/-- An update carries the label of its time. -/
theorem publish_labelled :
    (w.labelled φ).publish updateType orderId tradeId side quantity price =
      (w.publish updateType orderId tradeId side quantity price).labelled φ := by
  simp only [labelled, publish, pushUpdate, getCurrentNsTimestamp, List.map_append,
    List.map_singleton]
  rfl

theorem publishTrade_labelled : (w.labelled φ).publishTrade side quantity price =
    (w.publishTrade side quantity price).labelled φ :=
  publish_labelled (w := { w with nextTradeId := w.nextTradeId + 1 })

/-- **Settling a trade reads no label:** its branches test quantities, and the
only label in what it publishes is the time. -/
theorem settle_labelled :
    (w.labelled φ).settle side quantity o = (w.settle side quantity o).map (labelled φ) := by
  unfold settle
  rw [show (w.labelled φ).order o = (w.order o).labelled φ from rfl,
    show ((w.order o).labelled φ).quantity = (w.order o).quantity from rfl]
  split_ifs
  · have hpublish : (w.labelled φ).publish .remove ((w.order o).labelled φ).orderId tradeIdInvalid
        ((w.order o).labelled φ).side quantity ((w.order o).labelled φ).limitPrice =
      (w.publish .remove (w.order o).orderId tradeIdInvalid (w.order o).side quantity
        (w.order o).limitPrice).labelled φ := publish_labelled
    rw [hpublish]
    set w₁ := w.publish .remove (w.order o).orderId tradeIdInvalid (w.order o).side quantity
      (w.order o).limitPrice
    show ((w₁.toOrderBook.labelled φ).getPriceLevel (w₁.order o).limitPrice side >>= _) = _
    dsimp only
    rw [getPriceLevel_labelled, Library.bind_map, map_bind]
    refine bind_congr ?_
    rintro ⟨book, level⟩
    dsimp only
    rw [map_bind]
    refine bind_congr fun b => ?_
    show ((book.labelled φ).cancelAt b (book.order o).orderId >>= _) = _
    rw [cancelAt_labelled, Library.bind_map, map_bind]
    rfl
  · exact congrArg Except.ok publish_labelled

/-- **A trade** copies the labels of the order and of the taker. -/
theorem matchOrder_labelled :
    (w.labelled φ).matchOrder orderId (φ.client clientId) side quantity x =
      (w.matchOrder orderId clientId side quantity x).map fun r => (r.1.labelled φ, r.2) := by
  unfold matchOrder
  rw [map_bind]
  refine bind_congr fun o => ?_
  rw [show (w.labelled φ).order o = (w.order o).labelled φ from rfl,
    show ((w.order o).labelled φ).quantity = (w.order o).quantity from rfl]
  set fill := min quantity (w.order o).quantity
  have htrade : (w.labelled φ).publishTrade side fill (w.order o).limitPrice =
      (w.publishTrade side fill (w.order o).limitPrice).labelled φ := publishTrade_labelled
  set w₀ := w.publishTrade side fill (w.order o).limitPrice
  have hfill : (w₀.labelled φ).withBook ((w₀.labelled φ).fillOrder o fill) =
      (w₀.withBook (w₀.fillOrder o fill)).labelled φ :=
    congrArg (w₀.labelled φ).withBook fillOrder_labelled
  show (((w.labelled φ).publishTrade side fill (w.order o).limitPrice).withBook
    (((w.labelled φ).publishTrade side fill (w.order o).limitPrice).fillOrder o fill)).settle side
      fill o >>= _ = _
  rw [htrade, hfill, settle_labelled, Library.bind_map, map_bind]
  refine bind_congr fun w₁ => congrArg Except.ok (Prod.ext ?_ rfl)
  have hmaker : (w₁.labelled φ).respond .filled ((w₁.labelled φ).order o).clientId
      ((w₁.labelled φ).order o).orderId ((w₁.labelled φ).order o).side fill
      ((w₁.labelled φ).order o).limitPrice = (w₁.respond .filled (w₁.order o).clientId
        (w₁.order o).orderId (w₁.order o).side fill (w₁.order o).limitPrice).labelled φ :=
    respond_labelled
  dsimp only
  rw [hmaker]
  exact respond_labelled

/-- A round of matching hits the same order, since prices and places in the
rings carry no label. -/
theorem matchBest_labelled {s : World m l × QuantityT} :
    matchBest orderId (φ.client clientId) side (s.1.labelled φ, s.2) =
      (matchBest orderId clientId side s).map fun r => (r.1.labelled φ, r.2) := by
  unfold matchBest
  dsimp only
  rw [show (s.1.labelled φ).bestOpposite side = s.1.bestOpposite side from rfl, map_bind]
  refine bind_congr fun b => ?_
  rw [show (s.1.labelled φ).level b = s.1.level b from rfl, matchOrder_labelled, Library.bind_map,
    map_bind]
  refine bind_congr ?_
  rintro ⟨w₁, quantity₁⟩
  dsimp only
  rw [show (w₁.labelled φ).bestOpposite side = w₁.bestOpposite side from rfl, map_bind]
  refine bind_congr fun b' => ?_
  rw [show (w₁.labelled φ).toOrderBook = w₁.toOrderBook.labelled φ from rfl,
    removeIfEmpty_labelled, Library.bind_map, map_bind]
  rfl

theorem canMatch_labelled {s : World m l × QuantityT} :
    canMatch side limitPrice (s.1.labelled φ, s.2) = canMatch side limitPrice s := rfl

/-- **The matching loop** reads no label. -/
theorem checkForMatch_labelled :
    (w.labelled φ).checkForMatch orderId (φ.client clientId) side quantity limitPrice =
      (w.checkForMatch orderId clientId side quantity limitPrice).map fun r =>
        (r.1.labelled φ, r.2) := by
  unfold checkForMatch
  exact whileLoop_map (s := (w, quantity)) (I := fun _ => True)
    (fun r : World m l × QuantityT => (r.1.labelled φ, r.2)) (fun _ _ => canMatch_labelled)
    (fun _ _ _ => matchBest_labelled) (fun _ _ _ _ _ => trivial) trivial

/-- **`add`** under other labels. -/
theorem add_labelled :
    (w.labelled φ).add orderId (φ.client clientId) side quantity limitPrice =
      (w.add orderId clientId side quantity limitPrice).map (labelled φ) := by
  unfold add
  dsimp only
  rw [respond_labelled, checkForMatch_labelled, Library.bind_map, map_bind]
  refine bind_congr ?_
  rintro ⟨w₁, remaining⟩
  dsimp only
  split_ifs
  · show ((w₁.toOrderBook.labelled φ).rest orderId (φ.client clientId) (φ.time (w₁.clock 0)) side
      remaining limitPrice >>= _) = _
    rw [rest_labelled, Library.bind_map, map_bind]
    refine bind_congr fun book => congrArg Except.ok ?_
    exact publish_labelled (w := w₁.getCurrentNsTimestamp.2.withBook book)
  · rfl

/-- **`cancel`** under other labels. -/
theorem cancel_labelled :
    (w.labelled φ).cancel (φ.client clientId) orderId side limitPrice =
      (w.cancel clientId orderId side limitPrice).map (labelled φ) := by
  unfold cancel
  rw [show (w.labelled φ).toOrderBook = w.toOrderBook.labelled φ from rfl, takeOut_labelled,
    Library.bind_map, map_bind]
  refine bind_congr ?_
  rintro ⟨book, _ | o⟩
  · exact congrArg Except.ok (respond_labelled (w := w.withBook book))
  · refine congrArg Except.ok ?_
    simp only [labelled, pushResponse, pushUpdate, withBook, List.map_append, List.map_singleton]
    rfl

end World

/-! ### Requests to the exchange -/

namespace Exchange

variable {m l : ℕ} {φ : Labelling} {e : Exchange m l} {w : World m l} {tickerId : TickerIdT}
  {tickerIds : List TickerIdT} {clientId : ClientIdT} {orderId : OrderIdT} {side : OrderSide}
  {quantity : QuantityT} {limitPrice : PriceT} {request : ClientRequest}
  {requests requests' : List ClientRequest} {clock clock' : ℕ → NsTimestampT}

/-- An exchange under other labels. -/
def labelled (φ : Labelling) (e : Exchange m l) : Exchange m l where
  nextOrderId := e.nextOrderId
  nextTradeId := e.nextTradeId
  orderBooksMap := relabel (.refl _) (Option.map (OrderBook.labelled φ)) e.orderBooksMap
  responses := e.responses.map (ClientResponse.labelled φ)
  updates := e.updates.map (MarketUpdate.labelled φ)
  clock i := φ.time (e.clock i)

/-- The book of a ticker is found by the ticker alone. -/
theorem getOrderBook_labelled : (e.labelled φ).getOrderBook tickerId =
    ((e.getOrderBook tickerId).1.labelled φ,
      (e.getOrderBook tickerId).2.map (OrderBook.labelled φ)) := by
  have hindex : UnorderedMap.index (relabel (.refl _) (Option.map (OrderBook.labelled φ))
      e.orderBooksMap) tickerId = _ :=
    UnorderedMap.index_relabel (f := .refl _) (k := tickerId) rfl
  unfold getOrderBook
  rw [show (e.labelled φ).orderBooksMap = relabel (.refl _) (Option.map (OrderBook.labelled φ))
    e.orderBooksMap from rfl, hindex]
  rfl

/-- What a call has changed is taken over with its labels. -/
theorem withWorld_labelled : (e.labelled φ).withWorld tickerId (w.labelled φ) =
    (e.withWorld tickerId w).labelled φ := by
  have hinsert := insert_relabel (f := .refl TickerIdT) (g := Option.map (OrderBook.labelled φ))
    (m := e.orderBooksMap) (k := tickerId) (v := some w.toOrderBook)
  simp only [withWorld, labelled, hinsert]
  rfl

/-- **An add** passes the label of its client on, and compares it with nothing. -/
theorem addOrder_labelled :
    (e.labelled φ).addOrder tickerId (φ.client clientId) side quantity limitPrice =
      (e.addOrder tickerId clientId side quantity limitPrice).map (labelled φ) := by
  unfold addOrder
  rw [getOrderBook_labelled]
  obtain ⟨e₁, _ | book⟩ := e.getOrderBook tickerId
  · rfl
  · show (((e₁.world book).labelled φ).add e₁.nextOrderId (φ.client clientId) side quantity
      limitPrice >>= _) = Except.map _ ((e₁.world book).add e₁.nextOrderId clientId side quantity
        limitPrice >>= _)
    rw [World.add_labelled, Library.bind_map, map_bind]
    refine bind_congr fun w => congrArg Except.ok ?_
    exact withWorld_labelled (e := e₁.getNextOrderId.2)

/-- **A cancel** does not ask whose order it is. -/
theorem cancelOrder_labelled :
    (e.labelled φ).cancelOrder tickerId (φ.client clientId) orderId side limitPrice =
      (e.cancelOrder tickerId clientId orderId side limitPrice).map (labelled φ) := by
  unfold cancelOrder
  rw [getOrderBook_labelled]
  obtain ⟨e₁, _ | book⟩ := e.getOrderBook tickerId
  · rfl
  · show (((e₁.world book).labelled φ).cancel (φ.client clientId) orderId side limitPrice >>= _) =
      Except.map _ ((e₁.world book).cancel clientId orderId side limitPrice >>= _)
    rw [World.cancel_labelled, Library.bind_map, map_bind]
    exact bind_congr fun w => congrArg Except.ok withWorld_labelled

/-- **A request** under other labels. -/
theorem processRequest_labelled : (e.labelled φ).processRequest (request.labelled φ) =
    (e.processRequest request).map (labelled φ) := by
  unfold processRequest
  rw [show (request.labelled φ).type = request.type from rfl]
  cases request.type with
  | invalid => rfl
  | add => exact addOrder_labelled
  | cancel => exact cancelOrder_labelled

/-- Adding a ticker puts an empty book in, or finds one there. -/
theorem addTicker_labelled :
    (e.labelled φ).addTicker tickerId = (e.addTicker tickerId).map (labelled φ) := by
  have hkeys : (e.labelled φ).orderBooksMap.keys = e.orderBooksMap.keys := by
    rw [show (e.labelled φ).orderBooksMap = relabel (.refl _) (Option.map (OrderBook.labelled φ))
      e.orderBooksMap from rfl, keys_relabel]
    exact List.map_id _
  have hmem : tickerId ∈ (e.labelled φ).orderBooksMap ↔ tickerId ∈ e.orderBooksMap :=
    mem_relabel (f := .refl TickerIdT)
  have hinsert := insert_relabel (f := .refl TickerIdT) (g := Option.map (OrderBook.labelled φ))
    (m := e.orderBooksMap) (k := tickerId) (v := some (.new m l tickerId))
  rw [Option.map_some, labelled_new] at hinsert
  unfold addTicker
  rw [hkeys, map_bind]
  refine bind_congr fun _ => ?_
  simp only [hmem]
  split_ifs
  · rfl
  · refine congrArg Except.ok ?_
    simp only [labelled, hinsert]
    rfl

/-! ### Runs -/

/-- An exchange starts without labels. -/
theorem new_labelled : new m l tickerIds (fun i => φ.time (clock i)) =
    (new m l tickerIds clock).map (labelled φ) := by
  have hmap : (tickerIds.map id).foldlM addTicker (({ clock } : Exchange m l).labelled φ) = _ :=
    foldlM_map (labelled φ) fun _ _ => addTicker_labelled
  rwa [List.map_id] at hmap

/-- **Labels are copied only.**  Requests under other client ids, by another
clock, fail where the requests do, or lead to the same but for the labels. -/
theorem labels_of_run :
    (new m l tickerIds (fun i => φ.time (clock i)) >>= fun e =>
        e.run (requests.map (ClientRequest.labelled φ))) =
      (new m l tickerIds clock >>= fun e => e.run requests).map (labelled φ) := by
  rw [new_labelled, Library.bind_map, map_bind]
  exact bind_congr fun e => foldlM_map (labelled φ) fun e request => processRequest_labelled

/-- **The exchange is blind to its clients.**  Requests that differ in their
client ids only, at whatever times they are processed, fail alike, or lead to
exchanges that differ in labels only; and the market data feeds differ in
timestamps only. -/
theorem blind_of_run (h : requests.map (ClientRequest.labelled .blank) =
      requests'.map (ClientRequest.labelled .blank)) :
    (new m l tickerIds clock >>= fun e => e.run requests).map (labelled .blank) =
        (new m l tickerIds clock' >>= fun e => e.run requests').map (labelled .blank) ∧
      (new m l tickerIds clock >>= fun e => e.run requests).map
          (fun e => e.updates.map MarketUpdate.untimed) =
        (new m l tickerIds clock' >>= fun e => e.run requests').map
          fun e => e.updates.map MarketUpdate.untimed := by
  have hblank : (new m l tickerIds clock >>= fun e => e.run requests).map (labelled .blank) =
      (new m l tickerIds clock' >>= fun e => e.run requests').map (labelled .blank) := by
    rw [← labels_of_run, ← labels_of_run, h]
    rfl
  have hfeed : ∀ e : Exchange m l, e.updates.map MarketUpdate.untimed =
      (e.labelled .blank).updates.map MarketUpdate.untimed := fun e => by
    rw [labelled, List.map_map]
    rfl
  have hmap : ∀ x : Except Fault (Exchange m l),
      x.map (fun e => e.updates.map MarketUpdate.untimed) =
        (x.map (labelled .blank)).map fun e => e.updates.map MarketUpdate.untimed := by
    intro x
    cases x with
    | error f => rfl
    | ok e => exact congrArg Except.ok (hfeed e)
  exact ⟨hblank, (hmap _).trans ((congrArg (Except.map _) hblank).trans (hmap _).symm)⟩

/-- Other times and one client in all requests: an instance for the two tickers. -/
theorem blind_of_mixedRequests :
    ∃ e₀ e, new maxOrderIds maxPriceLevels [1, 2] (fun _ => 0) = .ok e₀ ∧
      e₀.run mixedRequests = .ok e ∧
      (new maxOrderIds maxPriceLevels [1, 2] (fun i => if i < 6 then 7 else 9) >>= fun e =>
          e.run (mixedRequests.map fun request => { request with clientId := 5 })).map
          (fun e => e.updates.map MarketUpdate.untimed) =
        .ok (e.updates.map MarketUpdate.untimed) := by
  obtain ⟨e₀, e, h₀, h⟩ := mixedRequests_returns
  have hsame : mixedRequests.map (ClientRequest.labelled .blank) =
      (mixedRequests.map fun request => { request with clientId := 5 }).map
        (ClientRequest.labelled .blank) := by
    decide
  refine ⟨e₀, e, h₀, h, ?_⟩
  calc _ = (new maxOrderIds maxPriceLevels [1, 2] (fun _ => 0) >>= fun e =>
          e.run mixedRequests).map (fun e => e.updates.map MarketUpdate.untimed) :=
        (blind_of_run hsame).2.symm
    _ = .ok (e.updates.map MarketUpdate.untimed) := by
        rw [h₀, ok_bind, h]
        rfl

end Exchange

end CppExchange
