import CppExchange.Books
import CppExchange.Mirror

/-!
# Buying and selling are alike

A request on the other side, at the reflected price, does to the mirror image of
an exchange what the request does to the exchange: every message it causes is on
the other side and at the reflected price, and nothing else about it differs,
not its place in the queues, its ids or its timestamp
(`Exchange.mirror_of_run`).  This holds of every stream of requests, whether it
is processed to its end or fails, and wherever the chains of the books have lost
levels.
-/

namespace CppExchange

open Library OrderBook

/-! ### Messages -/

/-- A request on the other side, at the reflected price. -/
def ClientRequest.mirror (c : PriceT) (request : ClientRequest) : ClientRequest :=
  { request with side := request.side.mirror, limitPrice := reflect c request.limitPrice }

/-- A response on the other side, at the reflected price. -/
def ClientResponse.mirror (c : PriceT) (response : ClientResponse) : ClientResponse :=
  { response with side := response.side.mirror, price := reflect c response.price }

/-- An update on the other side, at the reflected price. -/
def MarketUpdate.mirror (c : PriceT) (update : MarketUpdate) : MarketUpdate :=
  { update with side := update.side.mirror, price := reflect c update.price }

/-- A request to add an order has a side, and a price in the range. -/
def ClientRequest.Within (c : PriceT) (request : ClientRequest) : Prop :=
  request.type = .add → request.side ≠ .invalid ∧ request.limitPrice ≤ c

instance {c : PriceT} {request : ClientRequest} : Decidable (request.Within c) :=
  inferInstanceAs (Decidable (_ → _))

/-! ### Calls on a book -/

namespace World

variable {m l : ℕ} {c : PriceT} {w w' : World m l} {book : OrderBook m l} {o : Fin m}
  {type : ResponseType} {updateType : UpdateType} {orderId : OrderIdT} {tradeId : TradeIdT}
  {clientId : ClientIdT} {side : OrderSide} {quantity : QuantityT} {price limitPrice : PriceT}

/-- The mirror image of a book and of what it has pushed. -/
def mirror (c : PriceT) (w : World m l) : World m l where
  toOrderBook := w.toOrderBook.mirror c
  responses := w.responses.map (ClientResponse.mirror c)
  updates := w.updates.map (MarketUpdate.mirror c)
  clock := w.clock
  nextTradeId := w.nextTradeId

/-- The second world is the mirror image of the first. -/
structure Mirrored (c : PriceT) (w w' : World m l) : Prop where
  proper : Proper c w.toOrderBook
  eq : w' = w.mirror c

/-- The response of the mirror image is the image of the response. -/
theorem respond_mirror : (w.mirror c).respond type clientId orderId side.mirror quantity
    (reflect c price) = (w.respond type clientId orderId side quantity price).mirror c := by
  simp only [mirror, respond, pushResponse, getCurrentNsTimestamp, List.map_append,
    List.map_singleton]
  rfl

/-- The update of the mirror image is the image of the update. -/
theorem publish_mirror : (w.mirror c).publish updateType orderId tradeId side.mirror quantity
    (reflect c price) = (w.publish updateType orderId tradeId side quantity price).mirror c := by
  simp only [mirror, publish, pushUpdate, getCurrentNsTimestamp, List.map_append,
    List.map_singleton]
  rfl

theorem publishTrade_mirror : (w.mirror c).publishTrade side.mirror quantity (reflect c price) =
    (w.publishTrade side quantity price).mirror c :=
  publish_mirror (w := { w with nextTradeId := w.nextTradeId + 1 })

/-- Prices that cross do so in the mirror, from the other side. -/
theorem crosses_mirror {p : PriceT} (hs : side ≠ .invalid) (hl : limitPrice ≤ c) (hp : p ≤ c) :
    crosses side.mirror (reflect c limitPrice) (reflect c p) = crosses side limitPrice p := by
  cases side with
  | invalid => exact absurd rfl hs
  | buy => simp [crosses, OrderSide.mirror, reflect_le_iff hl hp]
  | sell => simp [crosses, OrderSide.mirror, reflect_le_iff hp hl]

/-- **A filled order is settled** on the other side. -/
theorem settle_mirror (h : Mirrored c w w') :
    Lockstep (Mirrored c) (w.settle side quantity o) (w'.settle side.mirror quantity o) := by
  obtain ⟨hproper, rfl⟩ := h
  unfold settle
  rw [show (w.mirror c).order o = (w.order o).mirror c from rfl,
    show ((w.order o).mirror c).quantity = (w.order o).quantity from rfl]
  split_ifs
  · have hpublish : (w.mirror c).publish .remove ((w.order o).mirror c).orderId tradeIdInvalid
        ((w.order o).mirror c).side quantity ((w.order o).mirror c).limitPrice =
      (w.publish .remove (w.order o).orderId tradeIdInvalid (w.order o).side quantity
        (w.order o).limitPrice).mirror c := publish_mirror
    rw [hpublish]
    set w₁ := w.publish .remove (w.order o).orderId tradeIdInvalid (w.order o).side quantity
      (w.order o).limitPrice
    have h₁ : Proper c w₁.toOrderBook := hproper
    dsimp only
    rw [getPriceLevel_eq, getPriceLevel_eq, ok_bind, ok_bind]
    dsimp only
    have hat : (w₁.mirror c).levelAt ((w₁.mirror c).order o).limitPrice =
        w₁.levelAt (w₁.order o).limitPrice := levelAt_mirror
    have htouch : (w₁.mirror c).touch ((w₁.mirror c).order o).limitPrice =
        (w₁.touch (w₁.order o).limitPrice).mirror c := touch_mirror
    rw [hat, htouch]
    cases hb : w₁.levelAt (w₁.order o).limitPrice with
    | none => exact .error _
    | some b =>
      rw [deref_some, ok_bind, ok_bind]
      refine (cancelAt_mirror ⟨h₁.touch, rfl⟩ (h₁.mapped _ b hb)).bind ?_
      rintro ⟨book₁, x⟩ ⟨book₁', _⟩ - - ⟨⟨⟨h₂, hbook⟩, -⟩, -⟩
      obtain rfl : book₁' = book₁.mirror c := hbook
      exact .ok ⟨h₂, rfl⟩
  · exact .ok ⟨hproper, publish_mirror⟩

/-- **A trade** with an order of the other side. -/
theorem matchOrder_mirror {x : Option (Fin m)} (h : Mirrored c w w') :
    Lockstep (fun r r' => Mirrored c r.1 r'.1 ∧ r'.2 = r.2)
      (w.matchOrder orderId clientId side quantity x)
      (w'.matchOrder orderId clientId side.mirror quantity x) := by
  obtain ⟨hproper, rfl⟩ := h
  unfold matchOrder
  refine (Lockstep.refl (deref x)).bind ?_
  rintro o _ - - rfl
  rw [show (w.mirror c).order o = (w.order o).mirror c from rfl,
    show ((w.order o).mirror c).quantity = (w.order o).quantity from rfl]
  set fill := min quantity (w.order o).quantity
  have htrade : (w.mirror c).publishTrade side.mirror fill ((w.order o).mirror c).limitPrice =
      (w.publishTrade side fill (w.order o).limitPrice).mirror c := publishTrade_mirror
  dsimp only
  rw [htrade]
  set w₀ := w.publishTrade side fill (w.order o).limitPrice
  have hfill : OrderBook.Mirrored c (w₀.fillOrder o fill) ((w₀.mirror c).fillOrder o fill) :=
    fillOrder_mirror ⟨hproper, rfl⟩
  rw [show (w₀.mirror c).fillOrder o fill = _ from hfill.eq]
  refine (settle_mirror ⟨hfill.proper, rfl⟩).bind ?_
  rintro w₁ _ - - ⟨h₁, rfl⟩
  refine .ok ⟨⟨h₁, ?_⟩, rfl⟩
  have hmaker : (w₁.mirror c).respond .filled ((w₁.mirror c).order o).clientId
      ((w₁.mirror c).order o).orderId ((w₁.mirror c).order o).side fill
      ((w₁.mirror c).order o).limitPrice = (w₁.respond .filled (w₁.order o).clientId
        (w₁.order o).orderId (w₁.order o).side fill (w₁.order o).limitPrice).mirror c :=
    respond_mirror
  dsimp only
  rw [hmaker]
  exact respond_mirror

/-- So the matching loop goes on in both or in neither; on an empty side it ends
before it looks at a price. -/
theorem canMatch_mirror (h : Proper c w.toOrderBook) (hs : side ≠ .invalid) (hl : limitPrice ≤ c) :
    canMatch side.mirror (reflect c limitPrice) (w.mirror c, quantity) =
      canMatch side limitPrice (w, quantity) := by
  unfold canMatch
  dsimp only
  rw [show (w.mirror c).bestOpposite side.mirror = w.bestOpposite side from bestOpposite_mirror hs]
  cases hb : w.bestOpposite side with
  | none => rfl
  | some b =>
    rw [bestOpposite_eq] at hb
    exact congrArg (fun x => Except.ok (quantity != 0 && x))
      (crosses_mirror hs hl (h.price b (h.best _ b hb)))

/-- **The body of the matching loop** against the other side. -/
theorem matchBest_mirror (h : Mirrored c w w') (hs : side ≠ .invalid) :
    Lockstep (fun r r' => Mirrored c r.1 r'.1 ∧ r'.2 = r.2)
      (matchBest orderId clientId side (w, quantity))
      (matchBest orderId clientId side.mirror (w', quantity)) := by
  have hbest : ∀ w : World m l, (w.mirror c).bestOpposite side.mirror = w.bestOpposite side :=
    fun _ => bestOpposite_mirror hs
  obtain ⟨hproper, rfl⟩ := h
  unfold matchBest
  dsimp only
  rw [hbest]
  refine (Lockstep.refl _).bind ?_
  rintro b _ - - rfl
  refine (matchOrder_mirror ⟨hproper, rfl⟩).bind ?_
  rintro ⟨w₁, quantity₁⟩ ⟨w₁', quantity₁'⟩ - - ⟨⟨h₁, hw⟩, hq⟩
  obtain rfl : w₁' = w₁.mirror c := hw
  obtain rfl : quantity₁' = quantity₁ := hq
  dsimp only
  rw [hbest]
  cases hb : w₁.bestOpposite side with
  | none => exact .error _
  | some b =>
    rw [bestOpposite_eq] at hb
    rw [deref_some, ok_bind, ok_bind]
    refine (removeIfEmpty_mirror ⟨h₁, rfl⟩ (h₁.best _ b hb)).bind ?_
    rintro book _ - - ⟨h₂, rfl⟩
    exact .ok ⟨⟨h₂, rfl⟩, rfl⟩

/-- **The matching loops** are one another's mirror image. -/
theorem checkForMatch_mirror (h : Mirrored c w w') (hs : side ≠ .invalid) (hl : limitPrice ≤ c) :
    Lockstep (fun r r' => Mirrored c r.1 r'.1 ∧ r'.2 = r.2)
      (w.checkForMatch orderId clientId side quantity limitPrice)
      (w'.checkForMatch orderId clientId side.mirror quantity (reflect c limitPrice)) := by
  unfold checkForMatch
  refine whileLoop_lockstep ⟨h, rfl⟩ ?_ ?_
  · rintro ⟨w₁, quantity₁⟩ ⟨w₁', quantity₁'⟩ ⟨⟨h₁, hw⟩, hq⟩
    obtain rfl : w₁' = w₁.mirror c := hw
    obtain rfl : quantity₁' = quantity₁ := hq
    exact (canMatch_mirror h₁ hs hl).symm
  · rintro ⟨w₁, quantity₁⟩ ⟨w₁', quantity₁'⟩ ⟨h₁, hq⟩ -
    obtain rfl : quantity₁' = quantity₁ := hq
    exact matchBest_mirror h₁ hs

/-- **`add`** on the other side. -/
theorem add_mirror (h : Mirrored c w w') (hs : side ≠ .invalid) (hl : limitPrice ≤ c) :
    Lockstep (Mirrored c) (w.add orderId clientId side quantity limitPrice)
      (w'.add orderId clientId side.mirror quantity (reflect c limitPrice)) := by
  obtain ⟨hproper, rfl⟩ := h
  unfold add
  dsimp only
  rw [respond_mirror]
  have h₀ : Mirrored c (w.respond .accepted clientId orderId side quantity limitPrice)
      ((w.respond .accepted clientId orderId side quantity limitPrice).mirror c) := ⟨hproper, rfl⟩
  refine (checkForMatch_mirror h₀ hs hl).bind ?_
  rintro ⟨w₁, quantity₁⟩ ⟨w₁', quantity₁'⟩ - - ⟨⟨h₁, hw⟩, hq⟩
  obtain rfl : w₁' = w₁.mirror c := hw
  obtain rfl : quantity₁' = quantity₁ := hq
  dsimp only
  split_ifs
  · have hrest : Lockstep (OrderBook.Mirrored c)
        (w₁.rest orderId clientId (w₁.clock 0) side quantity₁' limitPrice)
        ((w₁.mirror c).rest orderId clientId (w₁.clock 0) side.mirror quantity₁'
          (reflect c limitPrice)) := rest_mirror ⟨h₁, rfl⟩ hs hl
    refine hrest.bind ?_
    rintro book _ - - ⟨h₂, rfl⟩
    refine .ok ⟨h₂, ?_⟩
    exact publish_mirror (w := w₁.getCurrentNsTimestamp.2.withBook book)
  · exact .ok ⟨h₁, rfl⟩

/-- **`cancel`** on the other side. -/
theorem cancel_mirror (h : Mirrored c w w') (hc : c < priceInvalid) :
    Lockstep (Mirrored c) (w.cancel clientId orderId side limitPrice)
      (w'.cancel clientId orderId side.mirror (reflect c limitPrice)) := by
  obtain ⟨hproper, rfl⟩ := h
  unfold cancel
  refine (takeOut_mirror ⟨hproper, rfl⟩).bind ?_
  rintro ⟨book, x⟩ ⟨book', x'⟩ - - ⟨⟨h₁, hbook⟩, hx⟩
  obtain rfl : book' = book.mirror c := hbook
  obtain rfl : x' = x := hx
  cases x' with
  | none =>
    refine .ok ⟨h₁, ?_⟩
    have hrespond : ((w.withBook book).mirror c).respond .cancelRejected clientId orderId
        OrderSide.invalid.mirror quantityInvalid (reflect c priceInvalid) = _ := respond_mirror
    rwa [reflect_priceInvalid hc] at hrespond
  | some o =>
    refine .ok ⟨h₁, ?_⟩
    simp only [mirror, pushResponse, pushUpdate, withBook, List.map_append, List.map_singleton]
    rfl

end World

/-! ### Requests to the exchange -/

namespace Exchange

variable {m l : ℕ} {c : PriceT} {e e' e₀ : Exchange m l} {book book' : OrderBook m l}
  {tickerId : TickerIdT} {tickerIds : List TickerIdT} {request : ClientRequest}
  {requests : List ClientRequest} {clock : ℕ → NsTimestampT}

/-- The mirror image of an exchange. -/
def mirror (c : PriceT) (e : Exchange m l) : Exchange m l where
  nextOrderId := e.nextOrderId
  nextTradeId := e.nextTradeId
  orderBooksMap := relabel (.refl _) (Option.map (OrderBook.mirror c)) e.orderBooksMap
  responses := e.responses.map (ClientResponse.mirror c)
  updates := e.updates.map (MarketUpdate.mirror c)
  clock := e.clock

/-- The second exchange is the mirror image of the first. -/
structure Mirrored (c : PriceT) (e e' : Exchange m l) : Prop where
  proper : ∀ tickerId book, e.bookOf tickerId = some book → Proper c book
  eq : e' = e.mirror c

variable {w w' : World m l} {orderId : OrderIdT} {clientId : ClientIdT} {side : OrderSide}
  {quantity : QuantityT} {limitPrice : PriceT}

/-- The book of the ticker, mirrored with the others, is the one that is found. -/
theorem getOrderBook_mirror : (e.mirror c).getOrderBook tickerId =
    ((e.getOrderBook tickerId).1.mirror c,
      (e.getOrderBook tickerId).2.map (OrderBook.mirror c)) := by
  have hindex : UnorderedMap.index (relabel (.refl _) (Option.map (OrderBook.mirror c))
      e.orderBooksMap) tickerId = _ :=
    UnorderedMap.index_relabel (f := .refl _) (k := tickerId) rfl
  unfold getOrderBook
  rw [show (e.mirror c).orderBooksMap = relabel (.refl _) (Option.map (OrderBook.mirror c))
    e.orderBooksMap from rfl, hindex]
  rfl

/-- The book of a ticker is looked up on both sides. -/
theorem Mirrored.getOrderBook (h : Mirrored c e e') (tickerId : TickerIdT) :
    Mirrored c (e.getOrderBook tickerId).1 (e'.getOrderBook tickerId).1 ∧
      Lockstep (fun book book' => OrderBook.Mirrored c book book')
        (deref (e.getOrderBook tickerId).2) (deref (e'.getOrderBook tickerId).2) := by
  obtain ⟨hproper, rfl⟩ := h
  rw [getOrderBook_mirror]
  refine ⟨⟨fun t book hb => hproper t book ?_, rfl⟩, ?_⟩
  · exact (UnorderedMap.at?_index e.orderBooksMap tickerId t).symm.trans hb
  · have hsnd : (e.getOrderBook tickerId).2 = e.bookOf tickerId := UnorderedMap.index_snd ..
    rw [hsnd]
    cases hb : e.bookOf tickerId with
    | none => exact .error _
    | some book => exact .ok ⟨hproper tickerId book hb, rfl⟩

/-- What a call on a book can reach. -/
theorem Mirrored.world (h : Mirrored c e e') (hb : OrderBook.Mirrored c book book') :
    World.Mirrored c (e.world book) (e'.world book') := by
  obtain rfl := h.eq
  exact ⟨hb.proper, by rw [hb.eq]; rfl⟩

/-- The exchanges after a call on the books of a ticker. -/
theorem Mirrored.withWorld (h : Mirrored c e e') (hw : World.Mirrored c w w') :
    Mirrored c (e.withWorld tickerId w) (e'.withWorld tickerId w') := by
  obtain ⟨hproper, rfl⟩ := h
  obtain ⟨hw, rfl⟩ := hw
  refine ⟨fun t book hb => ?_, ?_⟩
  · rw [bookOf_withWorld] at hb
    split_ifs at hb
    · obtain rfl := Option.some.inj hb
      exact hw
    · exact hproper t book hb
  · have hinsert := insert_relabel (f := .refl TickerIdT) (g := Option.map (OrderBook.mirror c))
      (m := e.orderBooksMap) (k := tickerId) (v := some w.toOrderBook)
    simp only [Exchange.withWorld, mirror, hinsert]
    rfl

/-- **An order is added** on the other side. -/
theorem addOrder_mirror (h : Mirrored c e e') (hs : side ≠ .invalid) (hp : limitPrice ≤ c) :
    Lockstep (Mirrored c) (e.addOrder tickerId clientId side quantity limitPrice)
      (e'.addOrder tickerId clientId side.mirror quantity (reflect c limitPrice)) := by
  obtain ⟨h₁, hbook⟩ := h.getOrderBook tickerId
  unfold addOrder
  generalize e.getOrderBook tickerId = r at *
  generalize e'.getOrderBook tickerId = r' at *
  obtain ⟨e₁, x⟩ := r
  obtain ⟨e₁', x'⟩ := r'
  refine hbook.bind fun book book' _ _ hb => ?_
  have hnext : Mirrored c e₁.getNextOrderId.2 e₁'.getNextOrderId.2 :=
    ⟨h₁.proper, congrArg (fun e => e.getNextOrderId.2) h₁.eq⟩
  have hid : e₁'.nextOrderId = e₁.nextOrderId := by
    rw [show e₁' = _ from h₁.eq]
    rfl
  dsimp only [getNextOrderId] at hnext ⊢
  rw [hid] at hnext ⊢
  refine (World.add_mirror (hnext.world hb) hs hp).bind fun w w' _ _ hw => ?_
  exact .ok (hnext.withWorld hw)

/-- **An order is cancelled** on the other side. -/
theorem cancelOrder_mirror (h : Mirrored c e e') (hc : c < priceInvalid) :
    Lockstep (Mirrored c) (e.cancelOrder tickerId clientId orderId side limitPrice)
      (e'.cancelOrder tickerId clientId orderId side.mirror (reflect c limitPrice)) := by
  obtain ⟨h₁, hbook⟩ := h.getOrderBook tickerId
  refine hbook.bind fun book book' _ _ hb => ?_
  refine (World.cancel_mirror (h₁.world hb) hc).bind fun w w' _ _ hw => ?_
  exact .ok (h₁.withWorld hw)

/-- **A request** on the other side. -/
theorem processRequest_mirror (h : Mirrored c e e') (hc : c < priceInvalid)
    (hw : request.Within c) :
    Lockstep (Mirrored c) (e.processRequest request) (e'.processRequest (request.mirror c)) := by
  unfold processRequest
  rw [show (request.mirror c).type = request.type from rfl]
  cases ht : request.type with
  | invalid => exact .ok h
  | add => exact addOrder_mirror h (hw ht).1 (hw ht).2
  | cancel => exact cancelOrder_mirror h hc

/-! ### Runs -/

/-- **A new exchange** is its own mirror image. -/
theorem new_mirror (hc : c < priceInvalid) (h : new m l tickerIds clock = .ok e) :
    Mirrored c e e := by
  refine foldlM_induction (P := fun _ e => Mirrored c e e) ⟨fun t book hb => ?_, rfl⟩ ?_ h
  · cases hb
  · rintro ts t e e' - ⟨hproper, he⟩ hadd
    simp only [addTicker, bind_eq_ok] at hadd
    obtain ⟨-, -, hadd⟩ := hadd
    split_ifs at hadd with ht
    · obtain rfl := Except.ok.inj hadd
      exact ⟨hproper, he⟩
    · obtain rfl := Except.ok.inj hadd
      refine ⟨fun t' book hb => ?_, ?_⟩
      · have hbook := (UnorderedMap.at?_insert e.orderBooksMap t t' _).symm.trans hb
        split_ifs at hbook
        · obtain rfl := Option.some.inj hbook
          exact proper_new
        · exact hproper t' book hbook
      · have hinsert := insert_relabel (f := .refl TickerIdT)
          (g := Option.map (OrderBook.mirror c)) (m := e.orderBooksMap) (k := t)
          (v := some (.new m l t))
        have hmap : relabel (.refl _) (Option.map (OrderBook.mirror c)) e.orderBooksMap =
            e.orderBooksMap := (congrArg Exchange.orderBooksMap he).symm
        rw [Option.map_some, mirror_new hc, hmap] at hinsert
        calc { e with orderBooksMap := AList.insert t (some (.new m l t)) e.orderBooksMap }
          _ = { e.mirror c with
                orderBooksMap := AList.insert t (some (.new m l t)) e.orderBooksMap } := by
              rw [← he]
          _ = _ := by
              simp only [mirror, hinsert]
              rfl

/-- **Buying and selling are alike.**  From a new exchange, requests on the
other side and at the reflected prices fail where the requests do, or lead to
the mirror image of what the requests lead to, when all prices are up to `c`,
which is below the invalid price. -/
theorem mirror_of_run (hc : c < priceInvalid) (h₀ : new m l tickerIds clock = .ok e₀)
    (hw : ∀ request ∈ requests, request.Within c) :
    e₀.run (requests.map (ClientRequest.mirror c)) = (e₀.run requests).map (mirror c) := by
  have hlock : Lockstep (Mirrored c) (e₀.run requests)
      (e₀.run (requests.map (ClientRequest.mirror c))) :=
    foldlM_lockstep (new_mirror hc h₀) fun request hr _ _ h =>
      processRequest_mirror h hc (hw request hr)
  exact hlock.eq_map fun _ _ h => h.eq

/-- The requests of the two tickers, all below 1000, are an instance. -/
theorem mirror_of_mixedRequests :
    ∃ e₀ e, new maxOrderIds maxPriceLevels [1, 2] (fun _ => 0) = .ok e₀ ∧
      e₀.run mixedRequests = .ok e ∧
      e₀.run (mixedRequests.map (ClientRequest.mirror 1000)) = .ok (e.mirror 1000) := by
  obtain ⟨e₀, e, h₀, h⟩ := mixedRequests_returns
  refine ⟨e₀, e, h₀, h, ?_⟩
  rw [mirror_of_run (c := 1000) (by decide) h₀ (by decide), h]
  rfl

end Exchange

end CppExchange
