import CppExchange.Levels
import CppExchange.Ledger

/-!
# One trade, one resting order, one cancel

What the calls of `OrderBook` that trade, rest and take out an order do to the
storage of a book and to its queues, again whatever the state of the chains.
`matchOrder_spec`: the top order of a level trades, and leaves its level when
nothing is left of it.
-/

namespace CppExchange

open Library

namespace OrderBook

variable {m l : ℕ} {book book' book₁ : OrderBook m l} {ring : Fin l → List (Fin m)}
  {b c : Fin l} {side : OrderSide} {xs : List (Fin m)}

/-! ### A level with fewer orders -/

/-- `removeIfEmpty` removes a level without orders and nothing else. -/
theorem removeIfEmpty_ok (hs : Shape book ring) (h : book.removeIfEmpty b = .ok book') :
    ring b ≠ [] ∧ book' = book ∨ ring b = [] ∧ Removed book b book' := by
  unfold removeIfEmpty at h
  split_ifs at h with ht
  · rw [hs.top b, List.head?_eq_none_iff] at ht
    exact Or.inr ⟨ht, removePriceLevel_ok h⟩
  · rw [hs.top b, List.head?_eq_none_iff] at ht
    exact Or.inl ⟨ht, (Except.ok.inj h).symm⟩

/-- Removing an empty level leaves the ticker and every order alone. -/
theorem removeIfEmpty_frame (h : book.removeIfEmpty b = .ok book') :
    book'.tickerId = book.tickerId ∧ ∀ o, book'.order o = book.order o := by
  unfold removeIfEmpty at h
  split_ifs at h
  · have hr := removePriceLevel_ok h
    exact ⟨hr.tickerId, fun _ => hr.order⟩
  · rw [Except.ok.inj h]
    exact ⟨rfl, fun _ => rfl⟩

/-- The book `book₁` is `book` with only `xs` left of the orders of the level
`b`. -/
structure Shrunk (book : OrderBook m l) (ring : Fin l → List (Fin m)) (b : Fin l)
    (xs : List (Fin m)) (book₁ : OrderBook m l) : Prop where
  inUse : book.priceLevelPool.InUse b
  edit : ∃ heap', book₁ =
    (book.setLevel b { book.level b with topOrder := xs.head? }).setOrders heap'
  shape : Shape book₁ (Function.update ring b xs)
  subset : xs ⊆ ring b
  entry : ∀ x ∉ ring b, (book₁.order x).entry = (book.order x).entry
  side : ∀ x, (book₁.order x).side = (book.order x).side
  positive : ∀ x ∈ xs, (book₁.order x).quantity ≠ 0

section Shrunk

variable (hs : Shrunk book ring b xs book₁)
include hs

theorem Shrunk.tickerId : book₁.tickerId = book.tickerId := by
  obtain ⟨heap', rfl⟩ := hs.edit
  rfl

theorem Shrunk.levelAt (p : PriceT) : book₁.levelAt p = book.levelAt p := by
  obtain ⟨heap', rfl⟩ := hs.edit
  rfl

theorem Shrunk.inUse_iff : book₁.priceLevelPool.InUse c ↔ book.priceLevelPool.InUse c := by
  obtain ⟨heap', rfl⟩ := hs.edit
  rfl

theorem Shrunk.bestOf : book₁.bestOf side = book.bestOf side := by
  obtain ⟨heap', rfl⟩ := hs.edit
  rfl

/-- But for its top order every level is as it was. -/
theorem Shrunk.level : ∃ top, book₁.level c = { book.level c with topOrder := top } := by
  obtain ⟨heap', rfl⟩ := hs.edit
  rw [level_setOrders, level_setLevel]
  split_ifs with hc
  · exact ⟨xs.head?, by rw [hc]⟩
  · exact ⟨_, rfl⟩

theorem Shrunk.priceLevel : (book₁.level c).priceLevel = (book.level c).priceLevel := by
  obtain ⟨top, ht⟩ := hs.level (c := c)
  rw [ht]

/-- **A sound book with a level shrunk, and removed when it is left empty.** -/
theorem Sound.shrink (h : Sound book ring) (hrem : book₁.removeIfEmpty b = .ok book') :
    Sound book' (Function.update ring b xs) := by
  have hpos : ∀ c, ∀ x ∈ Function.update ring b xs c, (book₁.order x).quantity ≠ 0 := by
    intro c x hx
    rcases mem_update_ring.1 hx with ⟨-, hx⟩ | ⟨hc, hx⟩
    · exact hs.positive x hx
    · have hent := hs.entry x fun hx' => hc (h.disjoint c b x hx hx')
      exact fun h0 => h.positive c x hx ((congrArg Entry.quantity hent).symm.trans h0)
  rcases removeIfEmpty_ok hs.shape hrem with ⟨hne, rfl⟩ | ⟨hnil, hr⟩
  · rw [Function.update_self] at hne
    refine ⟨hs.shape, fun c hc => ?_, hpos⟩
    rcases eq_or_ne c b with rfl | hcb
    · rwa [Function.update_self]
    · rw [Function.update_of_ne hcb]
      exact h.nonempty c (hs.inUse_iff.1 hc)
  · refine ⟨hr.shape hs.shape hnil, fun c hc => ?_, fun c x hx => ?_⟩
    · obtain ⟨hc, hcb⟩ := (hr.inUse c).1 hc
      rw [Function.update_of_ne hcb]
      exact h.nonempty c (hs.inUse_iff.1 hc)
    · rw [hr.order]
      exact hpos c x hx

end Shrunk

end OrderBook

open OrderBook

namespace World

variable {m l : ℕ} {w : World m l} {ring : Fin l → List (Fin m)} {b : Fin l} {o : Fin m}
  {xs : List (Fin m)} {book : OrderBook m l} {taker : Entry}

/-! ### Pushing messages -/

section Push

variable {type : ResponseType} {updateType : UpdateType} {clientId : ClientIdT}
  {orderId : OrderIdT} {tradeId : TradeIdT} {side : OrderSide} {quantity : QuantityT}
  {price : PriceT}

@[simp] theorem toOrderBook_withBook : (w.withBook book).toOrderBook = book := rfl

@[simp] theorem responses_withBook : (w.withBook book).responses = w.responses := rfl

@[simp] theorem updates_withBook : (w.withBook book).updates = w.updates := rfl

@[simp] theorem nextTradeId_withBook : (w.withBook book).nextTradeId = w.nextTradeId := rfl

@[simp] theorem toOrderBook_respond :
    (w.respond type clientId orderId side quantity price).toOrderBook = w.toOrderBook := rfl

@[simp] theorem updates_respond :
    (w.respond type clientId orderId side quantity price).updates = w.updates := rfl

@[simp] theorem nextTradeId_respond :
    (w.respond type clientId orderId side quantity price).nextTradeId = w.nextTradeId := rfl

/-- A response goes behind those pushed before. -/
@[simp] theorem responses_respond :
    (w.respond type clientId orderId side quantity price).responses.map ClientResponse.untimed =
      w.responses.map ClientResponse.untimed ++
        [{ type, tickerId := w.tickerId, clientId, orderId, side, quantity, price,
           nsTimestamp := 0 }] := by
  simp [respond, pushResponse, getCurrentNsTimestamp, ClientResponse.untimed]

@[simp] theorem toOrderBook_publish :
    (w.publish updateType orderId tradeId side quantity price).toOrderBook = w.toOrderBook := rfl

@[simp] theorem responses_publish :
    (w.publish updateType orderId tradeId side quantity price).responses = w.responses := rfl

@[simp] theorem nextTradeId_publish :
    (w.publish updateType orderId tradeId side quantity price).nextTradeId = w.nextTradeId := rfl

/-- An update goes behind those pushed before. -/
@[simp] theorem updates_publish :
    (w.publish updateType orderId tradeId side quantity price).updates.map MarketUpdate.untimed =
      w.updates.map MarketUpdate.untimed ++
        [{ type := updateType, tickerId := w.tickerId, orderId, tradeId, side, quantity, price,
           nsTimestamp := 0 }] := by
  simp [publish, pushUpdate, getCurrentNsTimestamp, MarketUpdate.untimed]

@[simp] theorem toOrderBook_publishTrade :
    (w.publishTrade side quantity price).toOrderBook = w.toOrderBook := rfl

@[simp] theorem responses_publishTrade :
    (w.publishTrade side quantity price).responses = w.responses := rfl

@[simp] theorem nextTradeId_publishTrade :
    (w.publishTrade side quantity price).nextTradeId = w.nextTradeId + 1 := rfl

/-- The update of a trade does so under the next trade id. -/
@[simp] theorem updates_publishTrade :
    (w.publishTrade side quantity price).updates.map MarketUpdate.untimed =
      w.updates.map MarketUpdate.untimed ++
        [{ type := .trade, tickerId := w.tickerId, tradeId := w.nextTradeId, side, quantity, price,
           nsTimestamp := 0 }] := by
  simp only [publishTrade, updates_publish]

end Push

/-! ### One trade -/

@[simp] theorem order_fillOrder_self {fillQuantity : QuantityT} :
    (w.fillOrder o fillQuantity).order o =
      { w.order o with quantity := (w.order o).quantity - fillQuantity } := by
  simp [fillOrder]

theorem order_fillOrder_of_ne {x : Fin m} {fillQuantity : QuantityT} (h : x ≠ o) :
    (w.fillOrder o fillQuantity).order x = w.order x := by
  simp [fillOrder, h, heap_eq_order]

/-- The orders on the level of its top order `o` once that order is settled. -/
def leftOn (w : World m l) (o : Fin m) (xs : List (Fin m)) : List (Fin m) :=
  if (w.order o).quantity = 0 then xs else o :: xs

/-- Giving a level the top order and an order what they have changes nothing. -/
theorem setLevel_setOrders_self (hs : Shape w.toOrderBook ring) (hb : ring b = xs) :
    (w.setLevel b { w.level b with topOrder := xs.head? }).setOrders w.orderPool.heap =
      w.toOrderBook := by
  have hl : { w.level b with topOrder := xs.head? } = w.level b := by rw [← hb, ← hs.top b]
  rw [hl]
  simp only [setLevel, setOrders, level, ObjectPool.set_get, ObjectPool.setHeap_heap]

/-- The top order of a level is settled: it is removed from the level when
nothing is left of it, and one update says which. -/
theorem settle_spec (side : OrderSide) (fillQuantity : QuantityT) (hs : Shape w.toOrderBook ring)
    (hb : ring b = o :: xs) :
    ∃ w' heap', w.settle side fillQuantity o = .ok w' ∧
      w'.toOrderBook = (w.setLevel b { w.level b with
        topOrder := (leftOn w o xs).head? }).setOrders heap' ∧
      Shape w'.toOrderBook (Function.update ring b (leftOn w o xs)) ∧
      (∀ x, (heap' x).body = (w.order x).body) ∧ w'.nextTradeId = w.nextTradeId ∧
      w'.responses = w.responses ∧
      w'.updates.map MarketUpdate.untimed = w.updates.map MarketUpdate.untimed ++
        [if (w.order o).quantity = 0 then
          { type := .remove, tickerId := w.tickerId, orderId := (w.order o).orderId,
            side := (w.order o).side, quantity := fillQuantity, price := (w.order o).limitPrice,
            nsTimestamp := 0 }
        else
          { type := .modify, tickerId := w.tickerId, orderId := (w.order o).orderId,
            side := (w.order o).side, quantity := (w.order o).quantity,
            price := (w.order o).limitPrice, nsTimestamp := 0 }] := by
  by_cases hq : (w.order o).quantity = 0
  · have hat : w.levelAt (w.order o).limitPrice = some b := hs.levelAt_of_mem (by simp [hb])
    obtain ⟨heap', hc, hshape, hbody⟩ :=
      cancelAt_hit hs (show ring b = [] ++ o :: xs from hb) (by simp) rfl
    have hset : w.settle side fillQuantity o = .ok ((w.publish .remove (w.order o).orderId
        tradeIdInvalid (w.order o).side fillQuantity (w.order o).limitPrice).withBook
          ((w.setLevel b { w.level b with topOrder := xs.head? }).setOrders heap')) := by
      simp only [settle, if_pos hq, getPriceLevel_eq, toOrderBook_publish, hat, ok_bind,
        deref_some, touch_eq_self hat, hc, pure_eq_ok, List.nil_append]
    simp only [leftOn, if_pos hq]
    refine ⟨_, heap', hset, rfl, hshape, hbody, rfl, rfl, ?_⟩
    simp only [updates_withBook, updates_publish]
  · have hset : w.settle side fillQuantity o = .ok (w.publish .modify (w.order o).orderId
        tradeIdInvalid (w.order o).side (w.order o).quantity (w.order o).limitPrice) := by
      simp only [settle, if_neg hq, pure_eq_ok]
    simp only [leftOn, if_neg hq]
    refine ⟨_, w.orderPool.heap, hset, ?_, ?_, fun _ => rfl, rfl, rfl, ?_⟩
    · rw [toOrderBook_publish, setLevel_setOrders_self hs hb]
    · rw [← hb, Function.update_eq_self]
      exact hs
    · simp only [updates_publish]

/-- What a `match` of `taker` with the top order `o` of the level `b` did. -/
structure Matched (w : World m l) (ring : Fin l → List (Fin m)) (b : Fin l) (o : Fin m)
    (xs : List (Fin m)) (taker : Entry) (w' : World m l) : Prop where
  shrunk : Shrunk w.toOrderBook ring b (leftOn w' o xs) w'.toOrderBook
  entry : ∀ x ≠ o, (w'.order x).entry = (w.order x).entry
  maker : (w'.order o).entry = { (w.order o).entry with
    quantity := (w.order o).quantity - taker.fillQuantity (w.order o).entry }
  nextTradeId : w'.nextTradeId = w.nextTradeId + 1
  responses : w'.responses.map ClientResponse.untimed = w.responses.map ClientResponse.untimed ++
    (Event.traded w.nextTradeId (w.order o).entry taker
      (taker.fillQuantity (w.order o).entry)).responses w.tickerId
  updates : w'.updates.map MarketUpdate.untimed = w.updates.map MarketUpdate.untimed ++
    (Event.traded w.nextTradeId (w.order o).entry taker
      (taker.fillQuantity (w.order o).entry)).updates w.tickerId

theorem entry_eq_of_body {a b : Order m} (h : a.body = b.body) : a.entry = b.entry :=
  eq_of_body Order.entry (fun _ => rfl) h

/-- What a trade leaves on a level was there. -/
theorem leftOn_subset {w : World m l} : leftOn w o xs ⊆ o :: xs := by
  unfold leftOn
  split_ifs
  · exact List.subset_cons_self _ _
  · exact List.Subset.refl _

/-- What is left of a level whose top order was filled in part, or filled and
taken off its queue. -/
theorem shrunk_of_settled {w w₂ : World m l} (hs : Sound w.toOrderBook ring) (hb : ring b = o :: xs)
    (hbook : ∃ heap', w₂.toOrderBook = (w.setLevel b { w.level b with
      topOrder := (leftOn w₂ o xs).head? }).setOrders heap')
    (hshape : Shape w₂.toOrderBook (Function.update ring b (leftOn w₂ o xs)))
    (hother : ∀ x ≠ o, (w₂.order x).entry = (w.order x).entry)
    (hside : (w₂.order o).side = (w.order o).side) :
    Shrunk w.toOrderBook ring b (leftOn w₂ o xs) w₂.toOrderBook := by
  have ho : o ∈ ring b := by simp [hb]
  refine ⟨hs.inUse_of_mem ho, hbook, hshape, ?_, fun x hx => ?_, fun x => ?_, fun x hx => ?_⟩
  · rw [hb]
    exact leftOn_subset
  · exact hother x fun he => hx (he ▸ ho)
  · rcases eq_or_ne x o with rfl | hx
    · exact hside
    · exact congrArg Entry.side (hother x hx)
  · rcases eq_or_ne x o with rfl | hxo
    · intro h0
      have hnot : x ∉ xs := (List.nodup_cons.1 (hb ▸ (hs.rings b).nodup)).1
      rw [leftOn, if_pos (by exact h0)] at hx
      exact hnot hx
    · exact fun h0 => hs.positive b x (hb ▸ leftOn_subset hx)
        ((congrArg Entry.quantity (hother x hxo)).symm.trans h0)

/-- **A trade with the top order of a level.** -/
theorem matchOrder_spec (taker : Entry) (hs : Sound w.toOrderBook ring) (hb : ring b = o :: xs) :
    ∃ w', w.matchOrder taker.orderId taker.clientId taker.side taker.quantity (some o) =
        .ok (w', taker.quantity - taker.fillQuantity (w.order o).entry) ∧
      Matched w ring b o xs taker w' := by
  set fill := min taker.quantity (w.order o).quantity with hfill
  set w₁ := (w.publishTrade taker.side fill (w.order o).limitPrice).withBook
    (w.fillOrder o fill) with hw₁
  have hs₁ : Shape w₁.toOrderBook ring := hs.toShape.fillOrder fill
  have ho₁ : w₁.order o = { w.order o with quantity := (w.order o).quantity - fill } :=
    order_fillOrder_self
  obtain ⟨w₂, heap', hset, hbook, hshape, hbody, htid, hresp, hupd⟩ :=
    settle_spec taker.side fill hs₁ hb
  have hent : ∀ x, (w₂.order x).entry = (w₁.order x).entry := fun x => by
    rw [hbook]
    exact entry_eq_of_body (hbody x)
  have hleft : leftOn w₁ o xs = leftOn w₂ o xs := by
    have := congrArg Entry.quantity (hent o)
    simp only [Order.entry] at this
    rw [leftOn, leftOn, this]
  have hmatch : w.matchOrder taker.orderId taker.clientId taker.side taker.quantity (some o) =
      .ok ((w₂.respond .filled (w₂.order o).clientId (w₂.order o).orderId (w₂.order o).side fill
        (w₂.order o).limitPrice).respond .filled taker.clientId taker.orderId taker.side fill
        (w₂.order o).limitPrice, taker.quantity - fill) := by
    have : w.matchOrder taker.orderId taker.clientId taker.side taker.quantity (some o) =
        w₁.settle taker.side fill o >>= fun w₂ =>
          .ok ((w₂.respond .filled (w₂.order o).clientId (w₂.order o).orderId (w₂.order o).side
            fill (w₂.order o).limitPrice).respond .filled taker.clientId taker.orderId taker.side
            fill (w₂.order o).limitPrice, taker.quantity - fill) := rfl
    rw [this, hset, ok_bind]
  have hmaker : (w₂.order o).entry = { (w.order o).entry with
      quantity := (w.order o).quantity - fill } := by
    rw [hent o, ho₁]
    rfl
  have htick : w₂.tickerId = w.tickerId := by
    rw [hbook]
    rfl
  obtain ⟨hid, hclient, hside, -, hprice⟩ := Entry.mk.inj hmaker
  have hresp₁ : w₁.responses = w.responses := rfl
  have hupd₁ : w₁.updates.map MarketUpdate.untimed = w.updates.map MarketUpdate.untimed ++
      [{ type := .trade, tickerId := w.tickerId, tradeId := w.nextTradeId, side := taker.side,
         quantity := fill, price := (w.order o).limitPrice, nsTimestamp := 0 }] := by
    rw [hw₁, updates_withBook, updates_publishTrade]
  have hother : ∀ x ≠ o, (w₂.order x).entry = (w.order x).entry := fun x hx => by
    have := hent x
    rw [hw₁, toOrderBook_withBook, order_fillOrder_of_ne hx] at this
    exact this
  have hbook' : w₂.toOrderBook = (w.setLevel b { w.level b with
      topOrder := (leftOn w₂ o xs).head? }).setOrders heap' := by
    rw [hbook, hleft]
    rfl
  rw [hleft] at hshape
  refine ⟨_, hmatch, shrunk_of_settled hs hb ⟨heap', hbook'⟩ hshape hother hside, hother, hmaker,
    ?_, ?_, ?_⟩
  · exact htid
  · rw [responses_respond, responses_respond, hresp, hresp₁, List.append_assoc, toOrderBook_respond,
      htick, hid, hclient, hside, hprice]
    rfl
  · rw [updates_respond, updates_respond, hupd, hupd₁, List.append_assoc, ho₁]
    simp only [quantity_sub_eq_zero]
    rfl

/-! ### The test of the matching loop -/

section Test

variable {side : OrderSide} {limit : PriceT} {quantity : QuantityT}

/-- The test of the loop always has an answer. -/
theorem canMatch_ok (w : World m l) (side : OrderSide) (limit : PriceT) (quantity : QuantityT) :
    ∃ b, canMatch side limit (w, quantity) = .ok b := by
  unfold canMatch
  split <;> exact ⟨_, rfl⟩

/-- The loop ends when nothing is left to trade. -/
theorem canMatch_zero : canMatch side limit (w, 0) = .ok false := by
  unfold canMatch
  split
  · rfl
  · simp

/-- The loop goes on only with a quantity to trade. -/
theorem quantity_ne_zero_of_canMatch (h : canMatch side limit (w, quantity) = .ok true) :
    quantity ≠ 0 := by
  rintro rfl
  rw [canMatch_zero] at h
  cases h

end Test

end World

namespace OrderBook

variable {m l : ℕ} {book book' : OrderBook m l} {ring : Fin l → List (Fin m)} {b : Fin l}
  {o : Fin m} {xs ys : List (Fin m)} {order : Order m} {pool : ObjectPool (Order m) m}
  {side : OrderSide} {price : PriceT} {orderId : OrderIdT}

/-! ### One resting order -/

/-- The book with another pool of orders. -/
def withOrders (book : OrderBook m l) (pool : ObjectPool (Order m) m) : OrderBook m l :=
  { book with orderPool := pool }

/-- A fresh order is on no level. -/
theorem Shape.notMem_of_got (hs : Shape book ring) (hg : book.orderPool.Got order pool o)
    (b : Fin l) : o ∉ ring b := fun ho => hg.fresh (hs.live b o ho)

/-- A new order that is on no ring yet keeps the shape of the book. -/
theorem Shape.withOrders (hs : Shape book ring) (hg : book.orderPool.Got order pool o) :
    Shape (book.withOrders pool) ring := by
  have hget : ∀ b, ∀ x ∈ ring b, pool.heap x = book.orderPool.heap x := by
    intro b x hx
    have hne : x ≠ o := fun he => hs.notMem_of_got hg b (he ▸ hx)
    rw [ObjectPool.heap, hg.get, if_neg hne]
    rfl
  refine ⟨fun b => ?_, hs.top, hs.disjoint, fun b x hx => ?_, fun b x hx => ?_, hs.levelAt,
    hs.free⟩
  · exact (hs.rings b).congr (fun x hx => congrArg Order.next (hget b x hx))
      (fun x hx => congrArg Order.previous (hget b x hx))
  · exact (hg.inUse x).2 (Or.inr (hs.live b x hx))
  · exact (congrArg Order.limitPrice (hget b x hx)).trans (hs.price b x hx)

/-- The book `book'` is `book` with the fresh order `o` behind the others on the
level `b`. -/
structure Placed (book : OrderBook m l) (ring : Fin l → List (Fin m)) (b : Fin l) (o : Fin m)
    (order : Order m) (pool : ObjectPool (Order m) m) (book' : OrderBook m l) : Prop where
  got : book.orderPool.Got order pool o
  edit : ∃ heap', book' = ((book.withOrders pool).setLevel b { book.level b with
    topOrder := (ring b ++ [o]).head?
    side := if ring b = [] then order.side else (book.level b).side }).setOrders heap'
  shape : Shape book' (Function.update ring b (ring b ++ [o]))
  new : (book'.order o).entry = order.entry
  old : ∀ x ≠ o, (book'.order x).entry = (book.order x).entry
  fresh : ∀ c, o ∉ ring c

/-- **A fresh order is put behind the others on its level.** -/
theorem addAt_fresh (hs : Shape book ring) (hb : book.priceLevelPool.InUse b)
    (hg : book.orderPool.Got order pool o) (hp : order.limitPrice = (book.level b).priceLevel) :
    ∃ book', (book.withOrders pool).addAt b o = .ok book' ∧
      Placed book ring b o order pool book' := by
  have ho : (book.withOrders pool).order o = order := by
    rw [OrderBook.order, OrderBook.withOrders, hg.get, if_pos rfl]
  have hno := hs.notMem_of_got hg
  obtain ⟨heap', hadd, hshape, hbody⟩ := addAt_spec (hs.withOrders hg) hb hno
    ((hg.inUse o).2 (Or.inl rfl)) (by rw [ho]; exact hp)
  rw [ho] at hadd hshape
  refine ⟨_, hadd, hg, ⟨heap', rfl⟩, hshape, ?_, fun x hx => ?_, hno⟩
  · exact World.entry_eq_of_body (by rw [order_setOrders, hbody, ho])
  · refine World.entry_eq_of_body ?_
    rw [order_setOrders, hbody, OrderBook.order, OrderBook.withOrders, hg.get, if_neg hx]
    rfl

section Placed

variable (hpl : Placed book ring b o order pool book')
include hpl

theorem Placed.tickerId : book'.tickerId = book.tickerId := by
  obtain ⟨heap', rfl⟩ := hpl.edit
  rfl

theorem Placed.levelAt (p : PriceT) : book'.levelAt p = book.levelAt p := by
  obtain ⟨heap', rfl⟩ := hpl.edit
  rfl

theorem Placed.priceLevels : book'.priceLevels = book.priceLevels := by
  obtain ⟨heap', rfl⟩ := hpl.edit
  rfl

theorem Placed.inUse_iff {c : Fin l} :
    book'.priceLevelPool.InUse c ↔ book.priceLevelPool.InUse c := by
  obtain ⟨heap', rfl⟩ := hpl.edit
  rfl

/-- But for its top order every level is as it was, when the order is on the side
of its level. -/
theorem Placed.level {c : Fin l} (hside : order.side = (book.level b).side) :
    ∃ top, book'.level c = { book.level c with topOrder := top } := by
  obtain ⟨heap', rfl⟩ := hpl.edit
  rw [level_setOrders, level_setLevel]
  by_cases hc : c = b
  · rw [if_pos hc, hside, ite_self, hc]
    exact ⟨_, rfl⟩
  · rw [if_neg hc]
    exact ⟨_, rfl⟩

/-- Orders stay on the side of their level. -/
theorem Placed.orderSide (hside : order.side = (book.level b).side)
    (h : ∀ c, ∀ x ∈ ring c, (book.order x).side = (book.level c).side) :
    ∀ c, ∀ x ∈ Function.update ring b (ring b ++ [o]) c,
      (book'.order x).side = (book'.level c).side := by
  intro c x hx
  obtain ⟨top, ht⟩ := hpl.level (c := c) hside
  rw [ht]
  rcases mem_update_ring.1 hx with ⟨rfl, hx⟩ | ⟨-, hx⟩
  · rcases eq_or_ne x o with rfl | hxo
    · exact (congrArg Entry.side hpl.new).trans hside
    · exact (congrArg Entry.side (hpl.old x hxo)).trans (h c x (by simpa [hxo] using hx))
  · have hxo : x ≠ o := fun he => hpl.fresh c (he ▸ hx)
    exact (congrArg Entry.side (hpl.old x hxo)).trans (h c x hx)

/-- **A book that is sound but for the level of the order** is sound with the
order on it. -/
theorem Placed.sound (hne : ∀ c ≠ b, book.priceLevelPool.InUse c → ring c ≠ [])
    (hpos : ∀ c, ∀ x ∈ ring c, (book.order x).quantity ≠ 0) (hq : order.quantity ≠ 0) :
    Sound book' (Function.update ring b (ring b ++ [o])) := by
  refine ⟨hpl.shape, fun c hc => ?_, fun c x hx => ?_⟩
  · rcases eq_or_ne c b with rfl | hcb
    · simp
    · rw [Function.update_of_ne hcb]
      exact hne c hcb (hpl.inUse_iff.1 hc)
  · rcases eq_or_ne x o with rfl | hxo
    · exact fun h0 => hq ((congrArg Entry.quantity hpl.new).symm.trans h0)
    · have hx' : x ∈ ring c := by
        rcases mem_update_ring.1 hx with ⟨rfl, hx⟩ | ⟨-, hx⟩
        · simpa [hxo] using hx
        · exact hx
      exact fun h0 => hpos c x hx' ((congrArg Entry.quantity (hpl.old x hxo)).symm.trans h0)

end Placed

/-- What a `getPriceLevel` that may create the level leads to. -/
structure Created (book : OrderBook m l) (price : PriceT) (book' : OrderBook m l) (b : Fin l) :
    Prop where
  tickerId : book'.tickerId = book.tickerId
  orderPool : book'.orderPool = book.orderPool
  inUse : ∀ c, book'.priceLevelPool.InUse c ↔ c = b ∨ book.priceLevelPool.InUse c
  levelAt_self : book'.levelAt price = some b
  levelAt_of_ne : ∀ p ≠ price, book'.levelAt p = book.levelAt p
  keys : ∀ p ∈ book'.priceLevels, p = price ∨ p ∈ book.priceLevels
  cursor : book.priceLevelPool.CursorOk → book'.priceLevelPool.CursorOk

/-- An inserted level is one created for its price. -/
theorem Inserted.created (hi : Inserted (book.touch price) price side book' b) :
    Created book price book' b where
  tickerId := hi.tickerId
  orderPool := hi.orderPool
  inUse _ := hi.inUse
  levelAt_self := by rw [hi.levelAt, if_pos rfl]
  levelAt_of_ne p hp := by rw [hi.levelAt, if_neg hp, levelAt_touch]
  keys p hp := by
    rw [hi.priceLevels, AList.mem_insert] at hp
    exact hp.elim Or.inl mem_touch
  cursor _ := hi.cursor

/-- **A level to add to** is there after `getPriceLevel`: the one that was
mapped to the price, or a new one with an empty ring. -/
theorem getPriceLevel_ok {r : Option (Fin l)} (hs : Shape book ring)
    (h : book.getPriceLevel price side true = .ok (book', r)) :
    ∃ b, r = some b ∧ Created book price book' b ∧ Shape book' ring ∧
      (book.levelAt price = some b ∨ book.levelAt price = none ∧ ring b = []) := by
  cases hat : book.levelAt price with
  | some b =>
    rw [getPriceLevel_of_levelAt hat, Except.ok.injEq, Prod.mk.injEq] at h
    obtain ⟨rfl, rfl⟩ := h
    refine ⟨b, rfl, ⟨rfl, rfl, fun c => ?_, hat, fun _ _ => rfl, fun _ hp => Or.inr hp, id⟩, hs,
      Or.inl rfl⟩
    have hb := ((hs.levelAt price b).1 hat).1
    exact ⟨Or.inr, fun hc => hc.elim (fun he => he ▸ hb) id⟩
  | none =>
    rw [getPriceLevel_of_levelAt_none hat, bind_eq_ok] at h
    obtain ⟨⟨book₁, b⟩, hins, h⟩ := h
    rw [Except.ok.injEq, Prod.mk.injEq] at h
    obtain ⟨rfl, rfl⟩ := h
    have hi := insertPriceLevel_ok hins
    exact ⟨b, rfl, hi.created, hi.shape hs.touch (by rwa [levelAt_touch]),
      Or.inr ⟨rfl, hs.free b hi.fresh⟩⟩

/-- **What is left of an order** is put on the level of its price, which is
created when there is none. -/
theorem rest_ok {clientId : ClientIdT} {nsTimestamp : NsTimestampT} {quantity : QuantityT}
    (hs : Shape book ring)
    (h : book.rest orderId clientId nsTimestamp side quantity price = .ok book') :
    ∃ book₁ b o pool, Created book price book₁ b ∧ Shape book₁ ring ∧
      (book.levelAt price = some b ∨ book.levelAt price = none ∧ ring b = []) ∧
      Placed book₁ ring b o
        { tickerId := book₁.tickerId, orderId, clientId, nsTimestamp, side, quantity,
          limitPrice := price } pool book' := by
  simp only [OrderBook.rest, bind_eq_ok, Prod.exists] at h
  obtain ⟨book₁, r, hget, pool, o, hobj, b', hb', hadd⟩ := h
  obtain ⟨b, rfl, hcr, hs₁, hback⟩ := getPriceLevel_ok hs hget
  obtain rfl := Option.some.inj (deref_eq_ok.1 hb')
  obtain ⟨hb, hbp⟩ := (hs₁.levelAt _ _).1 hcr.levelAt_self
  obtain ⟨book₂, hadd', hpl⟩ := addAt_fresh hs₁ hb (ObjectPool.getObject_ok hobj) hbp.symm
  obtain rfl := Except.ok.inj (hadd'.symm.trans hadd)
  exact ⟨book₁, b, o, pool, hcr, hs₁, hback, hpl⟩

/-! ### One cancel -/

/-- No order of that id rests at the price: only the map is touched. -/
theorem takeOut_miss (side : OrderSide) (hs : Sound book ring)
    (h : ∀ b, book.levelAt price = some b → ∀ x ∈ ring b, (book.order x).orderId ≠ orderId) :
    book.takeOut orderId side price = .ok (book.touch price, none) := by
  rw [takeOut, getPriceLevel_eq, ok_bind]
  cases hat : book.levelAt price with
  | none => rfl
  | some b =>
    have hne := hs.nonempty b ((hs.levelAt price b).1 hat).1
    have htop : (book.level b).topOrder ≠ none := by
      rwa [hs.top b, Ne, List.head?_eq_none_iff]
    simp only [touch_eq_self hat, cancelAt_miss hs.toShape hne (h b hat), ok_bind, removeIfEmpty,
      if_neg htop, pure_eq_ok]

/-- The first order of that id at the price leaves its level, and the level
goes when it is left empty. -/
theorem takeOut_hit (hs : Sound book ring) (hat : book.levelAt price = some b)
    (hb : ring b = xs ++ o :: ys) (hxs : ∀ x ∈ xs, (book.order x).orderId ≠ orderId)
    (ho : (book.order o).orderId = orderId) :
    ∃ book₁, book.takeOut orderId side price =
        (book₁.removeIfEmpty b >>= fun book' => .ok (book', some o)) ∧
      Shrunk book ring b (xs ++ ys) book₁ ∧ ∀ x, (book₁.order x).entry = (book.order x).entry := by
  obtain ⟨heap', hc, hshape, hbody⟩ := cancelAt_hit hs.toShape hb hxs ho
  have hent : ∀ x, (heap' x).entry = (book.order x).entry := fun x =>
    World.entry_eq_of_body (hbody x)
  have hsub : xs ++ ys ⊆ ring b := by
    rw [hb]
    intro x hx
    simp only [List.mem_append, List.mem_cons] at hx ⊢
    tauto
  refine ⟨_, ?_, ⟨((hs.levelAt _ _).1 hat).1, ⟨heap', rfl⟩, hshape, hsub, fun x _ => hent x,
    fun x => congrArg Entry.side (hent x), fun x hx h0 => ?_⟩, hent⟩
  · rw [takeOut, getPriceLevel_eq, ok_bind]
    simp only [hat, touch_eq_self hat, hc, ok_bind, pure_eq_ok]
  · exact hs.positive b x (hsub hx) ((congrArg Entry.quantity (hent x)).symm.trans h0)

/-- **The part of a cancel that takes the order out:** there is none, or the
first one with the id leaves its level. -/
theorem takeOut_cases (hs : Sound book ring) (orderId : OrderIdT) (side : OrderSide)
    (price : PriceT) :
    (book.takeOut orderId side price = .ok (book.touch price, none) ∧
        ∀ b, book.levelAt price = some b → ∀ x ∈ ring b, (book.order x).orderId ≠ orderId) ∨
      ∃ b xs o ys book₁, book.levelAt price = some b ∧ ring b = xs ++ o :: ys ∧
        (∀ x ∈ xs, (book.order x).orderId ≠ orderId) ∧ (book.order o).orderId = orderId ∧
        book.takeOut orderId side price =
          (book₁.removeIfEmpty b >>= fun book' => .ok (book', some o)) ∧
        Shrunk book ring b (xs ++ ys) book₁ ∧
        ∀ x, (book₁.order x).entry = (book.order x).entry := by
  by_cases hhit : ∃ b, book.levelAt price = some b ∧ ∃ x ∈ ring b, (book.order x).orderId = orderId
  · obtain ⟨b, hat, x, hx, hxid⟩ := hhit
    obtain ⟨o, xs, ys, hxs, ho, hring, -⟩ := List.exists_of_eraseP
      (p := fun x => (book.order x).orderId = orderId) hx (by simpa using hxid)
    simp only [decide_eq_true_eq] at hxs ho
    obtain ⟨book₁, htake, hshrunk, hent⟩ := takeOut_hit hs hat hring hxs ho
    exact Or.inr ⟨b, xs, o, ys, book₁, hat, hring, hxs, ho, htake, hshrunk, hent⟩
  · have hmiss : ∀ b, book.levelAt price = some b →
        ∀ x ∈ ring b, (book.order x).orderId ≠ orderId :=
      fun b hat x hx he => hhit ⟨b, hat, x, hx, he⟩
    exact Or.inl ⟨takeOut_miss side hs hmiss, hmiss⟩

end OrderBook

end CppExchange
