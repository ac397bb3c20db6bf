import CppExchange.Accounts
import CppExchange.Renaming
import CppExchange.Simulation

/-!
# Two books side by side

Two books that are the same up to the ids and timestamps of their orders, with
queues of their own and trade id counters at a fixed distance, stay so when the
same call is made on both, with its order id renamed (`step_lockstep`): they
push the same messages up to renaming, or fail with the same fault.
-/

namespace CppExchange

open Library OrderBook

/-- A response under renamed order ids, without its timestamp. -/
def ClientResponse.rename (τ : OrderIdT → OrderIdT) (response : ClientResponse) : ClientResponse :=
  { response with orderId := τ response.orderId, nsTimestamp := 0 }

/-- An update under renamed ids, without its timestamp.  A TRADE names a trade,
the other updates name an order. -/
def MarketUpdate.rename (τ : OrderIdT → OrderIdT) (ρ : TradeIdT → TradeIdT)
    (update : MarketUpdate) : MarketUpdate :=
  if update.type = .trade then
    { update with tradeId := ρ update.tradeId, nsTimestamp := 0 }
  else { update with orderId := τ update.orderId, nsTimestamp := 0 }

/-- A call under renamed order ids. -/
def Op.rename (τ : OrderIdT → OrderIdT) : Op → Op
  | .add orderId clientId side quantity limitPrice =>
    .add (τ orderId) clientId side quantity limitPrice
  | .cancel clientId orderId side limitPrice => .cancel clientId (τ orderId) side limitPrice

namespace World

variable {m l : ℕ} {τ : OrderIdT → OrderIdT} {d : TradeIdT} {w₀ w₀' w w' : World m l}
  {book book' : OrderBook m l} {ring : Fin l → List (Fin m)} {b : Fin l} {o : Fin m}
  {xs : List (Fin m)} {type : ResponseType} {updateType : UpdateType} {orderId : OrderIdT}
  {clientId : ClientIdT} {side : OrderSide} {quantity : QuantityT} {price : PriceT} {taker : Entry}

/-- The worlds `w` and `w'` are the same up to renaming by `τ`, and so is what
they pushed since `w₀` and `w₀'`; the trade ids are `d` apart. -/
structure Parallel (τ : OrderIdT → OrderIdT) (d : TradeIdT) (w₀ w₀' w w' : World m l) : Prop where
  book : Renamed τ w.toOrderBook w'.toOrderBook
  tickerId : w.tickerId = w₀.tickerId
  nextTradeId : w'.nextTradeId = w.nextTradeId + d
  responses : Grown (fun r => r.tickerId = w₀.tickerId) (ClientResponse.rename τ)
    ClientResponse.untimed w₀.responses w₀'.responses w.responses w'.responses
  updates : Grown (fun u => u.tickerId = w₀.tickerId) (MarketUpdate.rename τ (· + d))
    MarketUpdate.untimed w₀.updates w₀'.updates w.updates w'.updates

theorem Parallel.start (h : Renamed τ w.toOrderBook w'.toOrderBook)
    (hd : w'.nextTradeId = w.nextTradeId + d) : Parallel τ d w w' w w' :=
  ⟨h, rfl, hd, .refl, .refl⟩

/-! ### Messages -/

theorem Parallel.tick (h : Parallel τ d w₀ w₀' w w') :
    Parallel τ d w₀ w₀' w.getCurrentNsTimestamp.2 w'.getCurrentNsTimestamp.2 :=
  ⟨h.book, h.tickerId, h.nextTradeId, h.responses, h.updates⟩

theorem Parallel.withBook (h : Parallel τ d w₀ w₀' w w') (hb : Renamed τ book book')
    (ht : book.tickerId = w.tickerId) : Parallel τ d w₀ w₀' (w.withBook book) (w'.withBook book') :=
  ⟨hb, ht.trans h.tickerId, h.nextTradeId, h.responses, h.updates⟩

/-- Responses that correspond are pushed in parallel. -/
theorem Parallel.pushResponse {r r' : ClientResponse} (h : Parallel τ d w₀ w₀' w w')
    (hr : r.rename τ = r'.untimed) (ht : r.tickerId = w.tickerId) :
    Parallel τ d w₀ w₀' (w.pushResponse r) (w'.pushResponse r') :=
  ⟨h.book, h.tickerId, h.nextTradeId, h.responses.push hr (ht.trans h.tickerId), h.updates⟩

/-- Updates that correspond are pushed in parallel. -/
theorem Parallel.pushUpdate {u u' : MarketUpdate} (h : Parallel τ d w₀ w₀' w w')
    (hu : u.rename τ (· + d) = u'.untimed) (ht : u.tickerId = w.tickerId) :
    Parallel τ d w₀ w₀' (w.pushUpdate u) (w'.pushUpdate u') :=
  ⟨h.book, h.tickerId, h.nextTradeId, h.responses, h.updates.push hu (ht.trans h.tickerId)⟩

/-- Both worlds push the response, under the two names of the order. -/
theorem Parallel.respond (h : Parallel τ d w₀ w₀' w w') :
    Parallel τ d w₀ w₀' (w.respond type clientId orderId side quantity price)
      (w'.respond type clientId (τ orderId) side quantity price) := by
  refine h.tick.pushResponse ?_ rfl
  simp only [ClientResponse.rename, ClientResponse.untimed, h.book.tickerId]

/-- Both push the update, under the two names of the order. It carries no trade
id. -/
theorem Parallel.publish (h : Parallel τ d w₀ w₀' w w') (hne : updateType ≠ .trade) :
    Parallel τ d w₀ w₀' (w.publish updateType orderId tradeIdInvalid side quantity price)
      (w'.publish updateType (τ orderId) tradeIdInvalid side quantity price) := by
  refine h.tick.pushUpdate ?_ rfl
  simp only [MarketUpdate.rename, MarketUpdate.untimed, h.book.tickerId,
    if_neg hne]

/-- Both push the trade, with ids that are as far apart as the counters, which
each advance by one. -/
theorem Parallel.publishTrade (h : Parallel τ d w₀ w₀' w w') :
    Parallel τ d w₀ w₀' (w.publishTrade side quantity price)
      (w'.publishTrade side quantity price) := by
  have hnext : w'.nextTradeId + 1 = w.nextTradeId + 1 + d := by
    rw [h.nextTradeId, UInt32.add_assoc, UInt32.add_comm d 1, ← UInt32.add_assoc]
  have h₁ : Parallel τ d w₀ w₀' { w with nextTradeId := w.nextTradeId + 1 }
      { w' with nextTradeId := w'.nextTradeId + 1 } :=
    ⟨h.book, h.tickerId, hnext, h.responses, h.updates⟩
  refine h₁.tick.pushUpdate ?_ rfl
  simp only [MarketUpdate.rename, MarketUpdate.untimed, h.book.tickerId,
    h.nextTradeId, if_true]

/-! ### Calls -/

/-- A cancel on a level leaves the ticker, and which orders are in use. -/
theorem cancelAt_frame {r : OrderBook m l × Option (Fin m)}
    (h : book.cancelAt b orderId = .ok r) :
    r.1.tickerId = book.tickerId ∧ ∀ x, r.1.orderPool.InUse x ↔ book.orderPool.InUse x := by
  obtain ⟨⟨level, heap, o⟩, -, hok⟩ := bind_eq_ok.1 h
  obtain rfl := Except.ok.inj hok
  exact ⟨rfl, fun _ => Iff.rfl⟩

/-- Settling a trade releases no order's block and takes none. -/
theorem settle_frame (h : w.settle side quantity o = .ok w') :
    ∀ x, w'.orderPool.InUse x ↔ w.orderPool.InUse x := by
  unfold settle at h
  split_ifs at h
  · simp only [getPriceLevel_eq, ok_bind, bind_eq_ok] at h
    obtain ⟨b, -, r, hcancel, hok⟩ := h
    obtain rfl := Except.ok.inj hok
    exact (cancelAt_frame hcancel).2
  · obtain rfl := Except.ok.inj h
    exact fun _ => Iff.rfl

/-- **Settling a trade goes in parallel.** Either both orders are used up, and
are published and cancelled, or both are published as modified, since renaming
leaves quantities. -/
theorem settle_lockstep (h : Parallel τ d w₀ w₀' w w') (hs : Shape w.toOrderBook ring)
    (hu : w.orderPool.InUse o) :
    Lockstep (Parallel τ d w₀ w₀') (w.settle side quantity o) (w'.settle side quantity o) := by
  have hid := h.book.orderId_eq hu
  have hq : (w'.order o).quantity = (w.order o).quantity :=
    h.book.order Order.quantity fun _ => rfl
  have hs' : (w'.order o).side = (w.order o).side := h.book.order Order.side fun _ => rfl
  have hp : (w'.order o).limitPrice = (w.order o).limitPrice :=
    h.book.order Order.limitPrice fun _ => rfl
  unfold settle
  rw [hid, hq, hs', hp]
  split_ifs
  · set w₁ := w.publish .remove (w.order o).orderId tradeIdInvalid (w.order o).side quantity
      (w.order o).limitPrice with hw₁
    set w₁' := w'.publish .remove (τ (w.order o).orderId) tradeIdInvalid (w.order o).side quantity
      (w.order o).limitPrice with hw₁'
    have h₁ : Parallel τ d w₀ w₀' w₁ w₁' := h.publish (by simp)
    have ho : w₁'.order o = w'.order o := rfl
    dsimp only
    rw [getPriceLevel_eq, getPriceLevel_eq, ok_bind, ok_bind]
    dsimp only
    rw [ho, hp, h₁.book.levelAt]
    refine (Lockstep.refl _).bind ?_
    rintro b _ - - rfl
    rw [show ((w₁'.touch (w.order o).limitPrice).order o).orderId = τ (w.order o).orderId from hid]
    refine (cancelAt_lockstep (w.order o).orderId h₁.book.touch hs.touch).bind ?_
    rintro ⟨book, x⟩ ⟨book', _⟩ hcancel - ⟨hb, rfl⟩
    exact .ok (h₁.withBook hb (cancelAt_frame hcancel).1)
  · exact .ok (h.publish (by simp))

/-- **A trade goes in parallel:** the fill is the same, and all that was pushed
before the settlement carries the two names. -/
theorem matchOrder_lockstep (h : Parallel τ d w₀ w₀' w w') (hs : Shape w.toOrderBook ring)
    (hu : w.orderPool.InUse o) :
    Lockstep (fun r r' => Parallel τ d w₀ w₀' r.1 r'.1 ∧ r'.2 = r.2)
      (w.matchOrder orderId clientId side quantity (some o))
      (w'.matchOrder (τ orderId) clientId side quantity (some o)) := by
  have hq : (w'.order o).quantity = (w.order o).quantity :=
    h.book.order Order.quantity fun _ => rfl
  have hp : (w'.order o).limitPrice = (w.order o).limitPrice :=
    h.book.order Order.limitPrice fun _ => rfl
  unfold matchOrder
  rw [deref_some, ok_bind, ok_bind, hq, hp]
  set fill := min quantity (w.order o).quantity
  have h₁ : Parallel τ d w₀ w₀'
      ((w.publishTrade side fill (w.order o).limitPrice).withBook (w.fillOrder o fill))
      ((w'.publishTrade side fill (w.order o).limitPrice).withBook (w'.fillOrder o fill)) :=
    h.publishTrade.withBook h.book.fillOrder rfl
  refine (settle_lockstep h₁ (hs.fillOrder fill) hu).bind fun w₂ w₂' hset _ h₂ => ?_
  have hid := h₂.book.orderId_eq ((settle_frame hset o).2 hu)
  have hs₂ : (w₂'.order o).side = (w₂.order o).side := h₂.book.order Order.side fun _ => rfl
  have hc₂ : (w₂'.order o).clientId = (w₂.order o).clientId :=
    h₂.book.order Order.clientId fun _ => rfl
  have hp₂ : (w₂'.order o).limitPrice = (w₂.order o).limitPrice :=
    h₂.book.order Order.limitPrice fun _ => rfl
  refine .ok ⟨?_, rfl⟩
  simp only [toOrderBook_respond, hid, hs₂, hc₂, hp₂]
  exact h₂.respond.respond

/-- The state of the matching loop in both worlds. -/
def Matching (τ : OrderIdT → OrderIdT) (d : TradeIdT) (w₀ w₀' : World m l)
    (s s' : World m l × QuantityT) : Prop :=
  (Parallel τ d w₀ w₀' s.1 s'.1 ∧ s'.2 = s.2) ∧ ∃ ring, Sound s.1.toOrderBook ring

/-- **A round of matching goes in parallel:** the best level is the same block
in either book, and so is the order on top of it. -/
theorem matchBest_lockstep {s s' : World m l × QuantityT} (h : Matching τ d w₀ w₀' s s') :
    Lockstep (Matching τ d w₀ w₀') (matchBest orderId clientId side s)
      (matchBest (τ orderId) clientId side s') := by
  obtain ⟨w, quantity⟩ := s
  obtain ⟨w', quantity'⟩ := s'
  obtain ⟨⟨hw, rfl⟩, ring, hs⟩ := h
  refine Lockstep.and_ok ?_ fun s hok => ?_
  · unfold matchBest
    dsimp only
    rw [hw.book.bestOpposite]
    refine (Lockstep.refl _).bind ?_
    rintro b _ - - rfl
    rw [hw.book.level]
    cases hr : ring b with
    | nil =>
      rw [hs.top b, hr]
      exact .error _
    | cons o xs =>
      have ho : o ∈ ring b := by simp [hr]
      rw [hs.top b, hr, List.head?_cons]
      refine (matchOrder_lockstep hw hs.toShape (hs.live b o ho)).bind ?_
      rintro ⟨w₁, q⟩ ⟨w₁', _⟩ - - ⟨h₁, rfl⟩
      dsimp only
      rw [h₁.book.bestOpposite]
      refine (Lockstep.refl _).bind ?_
      rintro b' _ - - rfl
      refine (removeIfEmpty_lockstep h₁.book).bind fun book book' hrem _ hb => ?_
      exact .ok ⟨h₁.withBook hb (removeIfEmpty_frame hrem).1, rfl⟩
  · obtain ⟨b, o, xs, w₁, -, hring, hm, -, hrem, -⟩ :=
      matchBest_ok ⟨orderId, clientId, side, quantity', 0⟩ hs hok
    exact ⟨_, hs.shrink hm.shrunk hrem⟩

/-- **The matching loops go in parallel,** round by round, as both test the same
quantity and the same best price. -/
theorem checkForMatch_lockstep (h : Parallel τ d w₀ w₀' w w') (hs : Sound w.toOrderBook ring) :
    Lockstep (Matching τ d w₀ w₀') (w.checkForMatch orderId clientId side quantity price)
      (w'.checkForMatch (τ orderId) clientId side quantity price) := by
  refine whileLoop_lockstep ⟨⟨h, rfl⟩, ring, hs⟩ ?_ fun _ _ hm _ => matchBest_lockstep hm
  rintro ⟨w, q⟩ ⟨w', q'⟩ ⟨⟨hw, hq⟩, -⟩
  dsimp only at hw hq
  unfold canMatch
  rw [hw.book.bestOpposite]
  dsimp only
  rw [hq]
  cases w.bestOpposite side with
  | none => rfl
  | some b =>
    dsimp only
    rw [hw.book.level]

/-- Putting an order to rest leaves the ticker. -/
theorem rest_tickerId {nsTimestamp : NsTimestampT} (hs : Shape book ring)
    (h : book.rest orderId clientId nsTimestamp side quantity price = .ok book') :
    book'.tickerId = book.tickerId := by
  obtain ⟨book₁, b, o, pool, hcr, -, -, hpl⟩ := rest_ok hs h
  exact hpl.tickerId.trans hcr.tickerId

/-- **An add goes in parallel,** when its id is not confused with that of
another order. -/
theorem add_lockstep (h : Parallel τ d w₀ w₀' w w') (hs : Sound w.toOrderBook ring)
    (hsep : Separates τ orderId) :
    Lockstep (Parallel τ d w₀ w₀') (w.add orderId clientId side quantity price)
      (w'.add (τ orderId) clientId side quantity price) := by
  refine (checkForMatch_lockstep (w := w.respond .accepted clientId orderId side quantity price)
    h.respond hs).bind ?_
  rintro ⟨w₁, _⟩ ⟨w₁', remaining⟩ - - ⟨⟨h₁, rfl⟩, ring₁, hs₁⟩
  dsimp only
  split_ifs
  · have h₂ := h₁.tick
    refine (rest_lockstep h₂.book hsep).bind fun book book' hrest _ hb => .ok ?_
    exact (h₂.withBook hb (rest_tickerId hs₁.toShape hrest)).publish (by simp)
  · exact .ok h₁

/-- Taking an order out leaves the ticker. -/
theorem takeOut_tickerId {r : OrderBook m l × Option (Fin m)} (hs : Sound book ring)
    (h : book.takeOut orderId side price = .ok r) : r.1.tickerId = book.tickerId := by
  rcases takeOut_cases hs orderId side price with
    ⟨htake, -⟩ | ⟨b, xs, o, ys, book₁, -, -, -, -, htake, hshrunk, -⟩
  · obtain rfl := Except.ok.inj (htake.symm.trans h)
    rfl
  · obtain ⟨book', hrem, hok⟩ := bind_eq_ok.1 (htake.symm.trans h)
    obtain rfl := Except.ok.inj hok
    exact (removeIfEmpty_frame hrem).1.trans hshrunk.tickerId

/-- **A cancel goes in parallel:** it finds its order in both books, or rejects
in both. -/
theorem cancel_lockstep (h : Parallel τ d w₀ w₀' w w') (hs : Sound w.toOrderBook ring) :
    Lockstep (Parallel τ d w₀ w₀') (w.cancel clientId orderId side price)
      (w'.cancel clientId (τ orderId) side price) := by
  refine (takeOut_lockstep h.book hs.toShape).bind ?_
  rintro ⟨book, _⟩ ⟨book', o⟩ htake - ⟨hb, rfl⟩
  have h₁ := h.withBook hb (takeOut_tickerId hs htake)
  cases o with
  | none => exact .ok h₁.respond
  | some o =>
    have hq : (book'.order o).quantity = (book.order o).quantity :=
      hb.order Order.quantity fun _ => rfl
    have ht : book'.tickerId = book.tickerId := hb.tickerId
    refine .ok ((h₁.tick.pushResponse ?_ rfl).pushUpdate ?_ rfl)
    · simp only [ClientResponse.rename, ClientResponse.untimed, toOrderBook_withBook, hq, ht]
    · simp only [MarketUpdate.rename, MarketUpdate.untimed, pushResponse, toOrderBook_withBook, hq,
        ht]
      rfl

/-- **The same call on two parallel worlds** keeps them parallel. -/
theorem step_lockstep {op : Op} (h : Parallel τ d w₀ w₀' w w') (hs : Sound w.toOrderBook ring)
    (hsep : ∀ orderId, op.addedId = some orderId → Separates τ orderId) :
    Lockstep (Parallel τ d w₀ w₀') (w.step op) (w'.step (op.rename τ)) := by
  cases op with
  | add orderId clientId side quantity limitPrice => exact add_lockstep h hs (hsep orderId rfl)
  | cancel clientId orderId side limitPrice => exact cancel_lockstep h hs

end World

end CppExchange
