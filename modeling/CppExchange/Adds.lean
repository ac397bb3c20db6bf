import CppExchange.Cancels
import CppExchange.Overlay
import CppExchange.PriceTime

/-!
# What an add does

On a book between calls (`AtRest`) an `add` returns, trades as the reference
does with the orders at rest, and leaves the queues of the reference
(`added_of_atRest`).  A level it opens may be linked to no other one; that is
seen on the chains, not in the map.

The pools may hold anything else.  The matching loop is that of the book with the
other blocks cleaned (`clean`), which is ordered; what is left of the order then
goes to its queue whether a level has to be opened for it or not.
-/

namespace CppExchange

open Library

/-- The cursor is right, and there is a block beside the next one. -/
def ObjectPool.Spacious {T : Type} {n : ℕ} (pool : ObjectPool T n) : Prop :=
  pool.CursorOk ∧ ∃ p q, p ≠ q ∧ ¬pool.InUse p ∧ ¬pool.InUse q

instance {T : Type} {n : ℕ} (pool : ObjectPool T n) : Decidable pool.Spacious :=
  inferInstanceAs (Decidable ((∃ h : pool.nextFree < n, ¬pool.InUse ⟨_, h⟩) ∧
    ∃ p q, p ≠ q ∧ ¬pool.InUse p ∧ ¬pool.InUse q))

/-- A pool with its cursor where it was, and no more blocks in use, is as
spacious as before. -/
theorem ObjectPool.Spacious.of_fewer {T : Type} {n : ℕ} {pool pool' : ObjectPool T n}
    (h : pool.Spacious) (hcursor : pool'.nextFree = pool.nextFree)
    (huse : ∀ p, pool'.InUse p → pool.InUse p) : pool'.Spacious := by
  obtain ⟨⟨hn, hfree⟩, p, q, hpq, hp, hq⟩ := h
  refine ⟨⟨hcursor ▸ hn, fun hu => hfree ?_⟩, p, q, hpq, fun h => hp (huse p h),
    fun h => hq (huse q h)⟩
  simpa only [hcursor] using huse _ hu

/-- **A spacious pool serves the next object:** besides the block under its
cursor another one is free, so the search for the next free block stops. -/
theorem ObjectPool.getObject_of_spacious {T : Type} {n : ℕ} {pool : ObjectPool T n}
    (h : pool.Spacious) (object : T) :
    ∃ pool' p, pool.getObject object = .ok (pool', p) ∧ pool.Got object pool' p := by
  obtain ⟨hc, p, q, hpq, hp, hq⟩ := h
  rcases getObject_total hc object with hgot | ⟨-, r, -, hr⟩
  · exact hgot
  · rcases eq_or_ne p r with rfl | hpr
    · exact absurd (hr q hpq.symm) hq
    · exact absurd (hr p hpr) hp

namespace OrderBook

variable {m l : ℕ} {book book₁ book' : OrderBook m l} {ring : Fin l → List (Fin m)}
  {chain : OrderSide → List (Fin l)} {bids asks levels : List (Fin l)} {b c : Fin l}
  {o x : Fin m} {xs : List (Fin m)} {price p : PriceT} {side s : OrderSide} {taker : Entry}
  {junk : Fin l → Option (ObjectBlock (OrdersPriceLevel m l))}

/-- A book between calls: well linked and not crossed, its orders have something
left and are in use, and both pools have blocks to spare. -/
structure AtRest (book : OrderBook m l) (bids asks : List (Fin l)) : Prop
    extends WellLinked book bids asks where
  positive : ∀ b ∈ bids ++ asks, ∀ o ∈ book.ordersOn b, (book.order o).quantity ≠ 0
  uncrossed : ∀ b ∈ bids, ∀ c ∈ asks, book.priceOf b < book.priceOf c
  live : ∀ b ∈ bids ++ asks, ∀ o ∈ book.ordersOn b, book.orderPool.InUse o
  orders_spacious : book.orderPool.Spacious
  levels_spacious : book.priceLevelPool.Spacious

/-! ### Cleaning -/

/-- The book with all blocks of its pool of levels but `levels` as good as new. -/
def clean (book : OrderBook m l) (levels : List (Fin l)) : OrderBook m l :=
  { book with
    priceLevelPool := { book.priceLevelPool with
      store := fun b =>
        if b ∈ levels then book.priceLevelPool.store b else { object := default } } }

/-- The blocks of the pool of levels but `levels`. -/
def junkOf (book : OrderBook m l) (levels : List (Fin l)) :
    Fin l → Option (ObjectBlock (OrdersPriceLevel m l)) :=
  fun b => if b ∈ levels then none else some (book.priceLevelPool.store b)

/-- A book is its clean part with its own junk laid over it. -/
theorem clean_overlay : (book.clean levels).overlay (book.junkOf levels) = book := by
  have hstore : (fun b => (book.junkOf levels b).getD
      ((book.clean levels).priceLevelPool.store b)) = book.priceLevelPool.store := by
    funext b
    by_cases hb : b ∈ levels <;> simp [junkOf, clean, hb]
  rw [overlay, ObjectPool.overlay, hstore]
  rfl

theorem level_clean (hb : b ∈ levels) : (book.clean levels).level b = book.level b := by
  simp [level, ObjectPool.get, clean, hb]

theorem level_clean_of_notMem (hb : b ∉ levels) : (book.clean levels).level b = {} := by
  simp only [level, ObjectPool.get, clean, if_neg hb]
  rfl

theorem inUse_clean : (book.clean levels).priceLevelPool.InUse b ↔
    b ∈ levels ∧ book.priceLevelPool.InUse b := by
  by_cases hb : b ∈ levels <;> simp [ObjectPool.InUse, clean, hb]

/-- The orders on the levels in a list. -/
def ringOf (book : OrderBook m l) (levels : List (Fin l)) (b : Fin l) : List (Fin m) :=
  if b ∈ levels then book.ordersOn b else []

theorem ringOf_of_mem (hb : b ∈ levels) : book.ringOf levels b = book.ordersOn b := if_pos hb

/-- The rings of a clean book are those of the levels at hand. -/
theorem mem_ringOf : o ∈ book.ringOf levels b ↔ b ∈ levels ∧ o ∈ book.ordersOn b := by
  unfold ringOf
  split_ifs with hb
  · simp [hb]
  · simp [hb]

/-- A level of a side's chain is one of the listed levels. -/
theorem mem_of_chainOf (hs : s ≠ .invalid) (hb : b ∈ chainOf bids asks s) : b ∈ bids ++ asks := by
  cases s with
  | invalid => exact absurd rfl hs
  | buy => exact List.mem_append_left _ hb
  | sell => exact List.mem_append_right _ hb

theorem WellLinked.inUse_clean (h : WellLinked book bids asks) :
    (book.clean (bids ++ asks)).priceLevelPool.InUse b ↔ b ∈ bids ++ asks :=
  OrderBook.inUse_clean.trans ⟨And.left, fun hb => ⟨hb, h.inUse b hb⟩⟩

/-- **A book at rest has a sound clean part.** Every block that is not of a
listed level or of a resting order is blank there, so what the invariant of a
run says of the blocks in use follows from what the lists say. -/
theorem AtRest.sound (h : AtRest book bids asks) :
    Sound (book.clean (bids ++ asks)) (book.ringOf (bids ++ asks)) where
  rings b := by
    unfold ringOf
    split_ifs with hb
    · exact (h.ring b hb).1
    · exact IsRing.nil
  top b := by
    unfold ringOf
    split_ifs with hb
    · rw [level_clean hb]
      exact (h.ring b hb).2
    · rw [level_clean_of_notMem hb]
      rfl
  disjoint b c o hb hc := by
    rw [mem_ringOf] at hb hc
    exact h.eq_of_mem hb.1 hc.1 hb.2 hc.2
  live b o ho := by
    rw [mem_ringOf] at ho
    exact h.live b ho.1 o ho.2
  price b o ho := by
    rw [mem_ringOf] at ho
    rw [level_clean ho.1]
    exact (h.orders b ho.1 o ho.2).1
  levelAt p b := by
    rw [h.inUse_clean]
    refine (h.recorded p b).trans (and_congr_right fun hb => ?_)
    rw [level_clean hb, priceOf]
  free b hb := by
    rw [h.inUse_clean] at hb
    exact if_neg hb
  nonempty b hb := by
    rw [h.inUse_clean] at hb
    rw [ringOf_of_mem hb]
    exact h.nonempty b hb
  positive b o ho := by
    rw [mem_ringOf] at ho
    exact h.positive b ho.1 o ho.2

/-- The clean part of a book at rest is strung as its lists are: the sides'
levels are linked in order, and no other level is reached. -/
theorem AtRest.chains (h : AtRest book bids asks) :
    Chains (book.clean (bids ++ asks)) (chainOf bids asks) where
  linked s hs := (h.strung.linked s hs).congr fun b hb => by
    rw [nextLevel, level_clean (mem_of_chainOf hs hb), nextLevel]
  sorted s hs := (h.strung.sorted s hs).imp_of_mem fun {a b} ha hb hab => by
    rwa [priceOf, level_clean (mem_of_chainOf hs ha), priceOf, level_clean (mem_of_chainOf hs hb)]
  mem s hs b := by
    rw [h.inUse_clean]
    refine ⟨fun hb => ⟨mem_of_chainOf hs hb, ?_⟩, fun hbs => ?_⟩
    · rw [level_clean (mem_of_chainOf hs hb)]
      exact h.strung.side s hs b hb
    · obtain ⟨hb, hbs⟩ := hbs
      rw [level_clean hb] at hbs
      exact hbs ▸ (h.mem_chainOf hb).2
  sided b hb := by
    rw [h.inUse_clean] at hb
    rw [level_clean hb]
    exact (h.mem_chainOf hb).1
  uncrossed a ha b hb := by
    rw [priceOf, level_clean (mem_of_chainOf (by simp) ha), priceOf,
      level_clean (mem_of_chainOf (by simp) hb)]
    exact h.uncrossed a ha b hb

/-- **A book between calls, cleaned, is ordered.** -/
theorem AtRest.ordered (h : AtRest book bids asks) :
    Ordered (book.clean (bids ++ asks)) (book.ringOf (bids ++ asks)) (chainOf bids asks) where
  toSound := h.sound
  toChains := h.chains
  orderSide b o ho := by
    rw [mem_ringOf] at ho
    rw [level_clean ho.1]
    exact (h.orders b ho.1 o ho.2).2
  orderCursor := h.orders_spacious.1
  levelCursor := by
    obtain ⟨hn, hfree⟩ := h.levels_spacious.1
    exact ⟨hn, fun hu => hfree (OrderBook.inUse_clean.1 hu).2⟩

/-- An ordered book with room in its pools is between calls. -/
theorem Ordered.atRest (h : Ordered book ring chain) (horders : book.orderPool.Spacious)
    (hlevels : book.priceLevelPool.Spacious) : AtRest book (chain .buy) (chain .sell) where
  toWellLinked := h.wellLinked
  positive b _ o ho := by
    rw [h.toShape.ordersOn] at ho
    exact h.positive b o ho
  uncrossed := h.uncrossed
  live b _ o ho := by
    rw [h.toShape.ordersOn] at ho
    exact h.live b o ho
  orders_spacious := horders
  levels_spacious := hlevels

/-! ### The orders found through the map -/

/-- In a list without repetition one key at most contributes. -/
theorem flatMap_ite {α : Type} {keys : List PriceT} (hnd : keys.Nodup) (xs : List α) :
    (keys.flatMap fun key => if key = p then xs else []) = if p ∈ keys then xs else [] := by
  induction keys with
  | nil => rfl
  | cons key keys ih =>
    obtain ⟨hkey, hnd⟩ := List.nodup_cons.1 hnd
    rw [List.flatMap_cons, ih hnd]
    rcases eq_or_ne key p with rfl | hp
    · simp [hkey]
    · simp [hp, hp.symm]

/-- A sound book holds the orders found through its map. -/
theorem Sound.holds (h : Sound book ring) : Holds book ring (book.entries book.resting) := by
  have hprice : ∀ key, ∀ o ∈ book.ordersAt key, (book.order o).limitPrice = key := fun key =>
    forall_ordersAt h.toShape fun b hat o ho =>
      (h.price b o ho).trans ((h.levelAt key b).1 hat).2
  refine ⟨h, fun p b hat => ?_, fun order horder => ?_⟩
  · have hkeys : p ∈ book.priceLevels.keys := mem_keys_of_levelAt (by simp [hat])
    have hpart : ∀ key, atPrice (book.entries (book.ordersAt key)) p =
        if key = p then book.entries (book.ordersAt p) else [] := by
      intro key
      split_ifs with hk
      · rw [hk, atPrice, List.filter_eq_self, entries]
        intro order horder
        obtain ⟨o, ho, rfl⟩ := List.mem_map.1 horder
        exact decide_eq_true (hprice p o ho)
      · refine atPrice_eq_nil.2 fun order horder => ?_
        obtain ⟨o, ho, rfl⟩ := List.mem_map.1 horder
        exact fun he => hk ((hprice key o ho).symm.trans he)
    have hsplit : atPrice (book.entries book.resting) p =
        book.priceLevels.keys.flatMap fun key => atPrice (book.entries (book.ordersAt key)) p := by
      rw [entries, OrderBook.resting, List.map_flatMap, atPrice, List.filter_flatMap]
      rfl
    rw [hsplit]
    simp only [hpart]
    rw [flatMap_ite book.priceLevels.keys_nodup, if_pos hkeys, ordersAt_of_levelAt h.toShape hat]
  · obtain ⟨o, ho, rfl⟩ := List.mem_map.1 horder
    obtain ⟨b, hb⟩ := (mem_resting h.toShape).1 ho
    intro hnone
    have hat : book.levelAt (book.order o).entry.limitPrice = some b := h.levelAt_of_mem hb
    rw [hat] at hnone
    cases hnone

/-! ### The level of what is left -/

/-- The level `b` of `book₁` is there to take an order of `side` with this
limit. -/
structure Opened (book : OrderBook m l) (ring : Fin l → List (Fin m)) (side : OrderSide)
    (limitPrice : PriceT) (book₁ : OrderBook m l) (b : Fin l) : Prop
    extends Created book limitPrice book₁ b, Shape book₁ ring where
  back : book.levelAt limitPrice = some b ∨ book.levelAt limitPrice = none ∧ ring b = []
  side_eq : (book₁.level b).side = side
  orderSide : ∀ c, ∀ x ∈ ring c, (book₁.order x).side = (book₁.level c).side

/-- A new level is recorded, wherever it would stand on its chain. -/
theorem insertPriceLevel_overlay (h : Strung (book.overlay junk) chain) (hside : side ≠ .invalid)
    (hj : ∀ c, book.priceLevelPool.InUse c → junk c = none)
    (hroom : (book.overlay junk).priceLevelPool.Spacious) (price : PriceT) :
    ∃ book₁ b, (book.overlay junk).insertPriceLevel price side price =
        .ok (book₁.overlay (Function.update junk b none), b) ∧
      Inserted book price side book₁ b := by
  obtain ⟨next, hnext⟩ := h.findNext_ok hside price
  obtain ⟨pool', b, hget, -⟩ := ObjectPool.getObject_of_spacious hroom
    ({ nextPriceLevel := next, priceLevel := price, side } : OrdersPriceLevel m l)
  obtain ⟨pool, rfl, hgot⟩ := ObjectPool.getObject_overlay hj hget
  by_cases hbest : next = (book.overlay junk).bestOf side
  · refine ⟨({ book with
        priceLevelPool := pool
        priceLevels := AList.insert price (some b) book.priceLevels } :
          OrderBook m l).setBestOf side (some b), b, ?_, setBestOf_tickerId, setBestOf_orderPool,
        ⟨next, by rwa [setBestOf_priceLevelPool]⟩, setBestOf_priceLevels⟩
    simp only [insertPriceLevel, hnext, hget, ok_bind, if_pos hbest, ← setBestOf_overlay]
    rfl
  · refine ⟨{ book with
        priceLevelPool := pool
        priceLevels := AList.insert price (some b) book.priceLevels }, b, ?_, rfl, rfl,
        ⟨next, hgot⟩, rfl⟩
    simp only [insertPriceLevel, hnext, hget, ok_bind, if_neg hbest]
    rfl

/-- **The level for what is left of an order** is there when its side does not
cross the other one, whatever the pool of levels holds. -/
theorem Ordered.getPriceLevel_overlay (h : Ordered book ring chain) (hside : side ≠ .invalid)
    (hun : ∀ c ∈ chain side.opposite, World.crosses side price (book.priceOf c) = false)
    (hj : ∀ c, book.priceLevelPool.InUse c → junk c = none)
    (hroom : (book.overlay junk).priceLevelPool.Spacious) :
    ∃ book₁ b junk', (book.overlay junk).getPriceLevel price side true =
        .ok (book₁.overlay junk', some b) ∧
      Opened book ring side price book₁ b ∧ ∀ c, book₁.priceLevelPool.InUse c → junk' c = none := by
  cases hat : book.levelAt price with
  | some b =>
    have hb := ((h.levelAt price b).1 hat).1
    have hbs := h.side_of_levelAt hside hun hat
    refine ⟨book, b, junk, getPriceLevel_of_levelAt hat, ⟨⟨rfl, rfl, fun c => ?_, hat,
      fun _ _ => rfl, fun _ hp => Or.inr hp, id⟩, h.toShape, Or.inl hat, hbs, h.orderSide⟩, hj⟩
    exact ⟨Or.inr, fun hc => hc.elim (fun he => he ▸ hb) id⟩
  | none =>
    have hstrung : Strung ((book.touch price).overlay junk) chain :=
      h.touch.toChains.strung.overlay fun s hs c hc => hj c ((h.mem s hs c).1 hc).1
    obtain ⟨book₁, b, hins, hi⟩ := insertPriceLevel_overlay hstrung hside hj hroom price
    have hring : ring b = [] := h.free b hi.fresh
    obtain ⟨next, hself⟩ := hi.level_self
    refine ⟨book₁, b, Function.update junk b none, ?_, ⟨hi.created,
      hi.shape h.toShape.touch (by rwa [levelAt_touch]), Or.inr ⟨hat, hring⟩, by rw [hself],
      hi.orderSide hring h.orderSide⟩, fun c hc => ?_⟩
    · have hat' : (book.overlay junk).levelAt price = none := hat
      rw [getPriceLevel_of_levelAt_none hat', touch_overlay, hins, ok_bind]
    · rcases eq_or_ne c b with rfl | hcb
      · rw [Function.update_self]
      · rw [Function.update_of_ne hcb]
        exact hj c ((hi.inUse.1 hc).resolve_left hcb)

/-- **What is left of an order rests,** on a level that was there or is new. -/
theorem Ordered.rest_overlay (h : Ordered book ring chain) (hside : taker.side ≠ .invalid)
    (hun : ∀ c ∈ chain taker.side.opposite,
      World.crosses taker.side taker.limitPrice (book.priceOf c) = false)
    (hj : ∀ c, book.priceLevelPool.InUse c → junk c = none) (horders : book.orderPool.Spacious)
    (hlevels : (book.overlay junk).priceLevelPool.Spacious) (nsTimestamp : NsTimestampT) :
    ∃ book₁ b o pool book' junk', (book.overlay junk).rest taker.orderId taker.clientId nsTimestamp
        taker.side taker.quantity taker.limitPrice = .ok (book'.overlay junk') ∧
      Opened book ring taker.side taker.limitPrice book₁ b ∧
      Placed book₁ ring b o
        { tickerId := book₁.tickerId, orderId := taker.orderId, clientId := taker.clientId,
          nsTimestamp, side := taker.side, quantity := taker.quantity,
          limitPrice := taker.limitPrice } pool book' ∧
      ∀ c, book'.priceLevelPool.InUse c → junk' c = none := by
  obtain ⟨book₁, b, junk', hget, hopened, hj'⟩ := h.getPriceLevel_overlay hside hun hj hlevels
  rw [← hopened.orderPool] at horders
  obtain ⟨pool, o, hobj, hgot⟩ := ObjectPool.getObject_of_spacious horders
    ({ tickerId := book₁.tickerId, orderId := taker.orderId, clientId := taker.clientId,
       nsTimestamp, side := taker.side, quantity := taker.quantity,
       limitPrice := taker.limitPrice } : Order m)
  obtain ⟨hb, hbp⟩ := (hopened.levelAt _ b).1 hopened.levelAt_self
  obtain ⟨book', hadd, hpl⟩ := addAt_fresh hopened.toShape hb hgot hbp.symm
  have hadd' : ((book₁.withOrders pool).overlay junk').addAt b o = .ok (book'.overlay junk') := by
    rw [addAt_overlay (hj' b hb), hadd]
    rfl
  refine ⟨book₁, b, o, pool, book', junk', ?_, hopened, hpl, fun c hc => hj' c (hpl.inUse_iff.1 hc)⟩
  have htick : (book₁.overlay junk').tickerId = book₁.tickerId := rfl
  simp only [OrderBook.rest, hget, ok_bind, orderPool_overlay, htick, hobj, deref_some]
  exact hadd'

/-! ### Reading the queues -/

theorem ordersOn_overlay (hb : junk b = none) :
    (book.overlay junk).ordersOn b = book.ordersOn b := by
  rw [ordersOn, level_overlay hb, ordersOn]
  rfl

/-- Junk is on no queue. -/
theorem ordersAt_overlay (hj : ∀ b, book.levelAt p = some b → junk b = none) :
    (book.overlay junk).ordersAt p = book.ordersAt p := by
  have hat : (book.overlay junk).levelAt p = book.levelAt p := rfl
  cases hp : book.levelAt p with
  | none => rw [ordersAt_of_none (hat.trans hp), ordersAt_of_none hp]
  | some b => rw [ordersAt_of_some (hat.trans hp), ordersAt_of_some hp, ordersOn_overlay (hj b hp)]

/-- Laying the junk aside changes no level's orders. -/
theorem WellLinked.ordersAt_clean (h : WellLinked book bids asks) :
    (book.clean (bids ++ asks)).ordersAt p = book.ordersAt p := by
  have hj : ∀ b, (book.clean (bids ++ asks)).levelAt p = some b →
      book.junkOf (bids ++ asks) b = none := fun b hb => if_pos (h.mem_of_levelAt hb)
  rw [← ordersAt_overlay hj, clean_overlay]

end OrderBook

open OrderBook

namespace World

variable {m l : ℕ} {w w₁ : World m l} {bids asks : List (Fin l)} {ring : Fin l → List (Fin m)}
  {taker : Entry} {junk : Fin l → Option (ObjectBlock (OrdersPriceLevel m l))}

/-- The orders at rest, without a history. -/
def ledger (w : World m l) : Ledger where
  resting := w.entries w.resting
  nextTradeId := w.nextTradeId

/-- The `add` of an order, on the reference book that has the orders at rest. -/
def reference (w : World m l) (taker : Entry) : Ledger :=
  Reference.step w.ledger
    (.add taker.orderId taker.clientId taker.side taker.quantity taker.limitPrice)

/-- What an `add` did: it announced the trades and the other events of the
reference, and left its queues. -/
structure Added (w : World m l) (taker : Entry) (w' : World m l) : Prop where
  responses : ∃ pushed, w'.responses = w.responses ++ pushed ∧
    trades pushed = (w.reference taker).events.filterMap Event.trade? ∧
    pushed.map ClientResponse.untimed =
      (w.reference taker).events.flatMap (Event.responses w.tickerId)
  updates : ∃ pushed, w'.updates = w.updates ++ pushed ∧
    pushed.map MarketUpdate.untimed =
      (w.reference taker).events.flatMap (Event.updates w.tickerId)
  nextTradeId : w'.nextTradeId = (w.reference taker).nextTradeId
  queues : ∀ p, w'.entries (w'.ordersAt p) = atPrice (w.reference taker).resting p
  levels : ∀ p b, w'.levelAt p = some b → w'.priceOf b = p ∧ w'.ordersOn b ≠ [] ∧
    ∀ o ∈ w'.ordersOn b, (w'.order o).limitPrice = w'.priceOf b ∧
      (w'.order o).side = (w'.level b).side ∧ (w'.order o).quantity ≠ 0
  resting : ∃ kept left, Reference.Kept (w.entries w.resting) kept left ∧
    (w.reference taker).resting =
      kept ++ if left = 0 then [] else [{ taker with quantity := left }]

/-- A world that keeps the reference ledger, under the junk. -/
theorem added_overlay (hk : Keeps w.tickerId w₁ (w.reference taker))
    (hs : Sound w₁.toOrderBook ring)
    (hside : ∀ c, ∀ x ∈ ring c, (w₁.order x).side = (w₁.level c).side)
    (hj : ∀ c, w₁.priceLevelPool.InUse c → junk c = none) :
    Added w taker (w₁.overlay junk w.responses w.updates) where
  responses := by
    refine ⟨w₁.responses, rfl, ?_, hk.announced⟩
    rw [← trades_untimed, hk.announced, trades_flatMap]
  updates := ⟨w₁.updates, rfl, hk.published⟩
  nextTradeId := hk.nextTradeId
  queues p := by
    obtain ⟨ring', hh⟩ := hk.holds
    rw [← hh.ordersAt, toOrderBook_overlay,
      ordersAt_overlay fun b hb => hj b ((hs.levelAt p b).1 hb).1]
    rfl
  levels p b hb := by
    obtain ⟨hbu, hbp⟩ := (hs.levelAt p b).1 hb
    simp only [toOrderBook_overlay, ordersOn_overlay (hj b hbu), hs.toShape.ordersOn,
      level_overlay (hj b hbu), priceOf, order_overlay]
    exact ⟨hbp, hs.nonempty b hbu,
      fun o ho => ⟨hs.price b o ho, hside b o ho, hs.positive b o ho⟩⟩
  resting := Reference.kept_step w.ledger taker

/-- What the matching loop of an `add` leaves: an ordered book under the junk,
with room in its pools, that keeps what the reference keeps. -/
structure Swept (w : World m l) (taker : Entry) (w₁ : World m l) (remaining : QuantityT)
    (junk : Fin l → Option (ObjectBlock (OrdersPriceLevel m l))) : Prop where
  ordered : IsOrdered w₁.toOrderBook
  keeps : Keeps w.tickerId w₁ (Reference.sweep taker.quantity.toNat
    (w.ledger.record (.accepted taker)) taker).1
  left : (Reference.sweep taker.quantity.toNat (w.ledger.record (.accepted taker)) taker).2 =
    { taker with quantity := remaining }
  done : canMatch taker.side taker.limitPrice (w₁, remaining) = .ok false
  junk_eq : ∀ c, w₁.priceLevelPool.InUse c → junk c = none
  orders_spacious : w₁.orderPool.Spacious
  levels_spacious : (w₁.toOrderBook.overlay junk).priceLevelPool.Spacious

/-- **The matching loop on a book between calls** is that of the cleaned book. -/
theorem swept_of_atRest (h : AtRest w.toOrderBook bids asks) (taker : Entry)
    (hside : taker.side ≠ .invalid) :
    ∃ w₁ remaining junk, (w.respond .accepted taker.clientId taker.orderId taker.side
        taker.quantity taker.limitPrice).checkForMatch taker.orderId taker.clientId taker.side
          taker.quantity taker.limitPrice = .ok (w₁.overlay junk w.responses w.updates, remaining) ∧
      Swept w taker w₁ remaining junk := by
  set junk := w.junkOf (bids ++ asks) with hjunk
  set w₀ : World m l :=
    { w with toOrderBook := w.clean (bids ++ asks), responses := [], updates := [] } with hw₀
  have hover : w = w₀.overlay junk w.responses w.updates := by
    rw [overlay, clean_overlay]
    simp [hw₀]
  have hord : Ordered w₀.toOrderBook _ _ := h.ordered
  have hresting : w₀.entries w₀.resting = w.entries w.resting := by
    have hat : w₀.ordersAt = w.ordersAt := funext fun p => h.toWellLinked.ordersAt_clean
    rw [OrderBook.resting, hat]
    rfl
  have hk : Keeps w.tickerId w₀ w.ledger :=
    ⟨⟨rfl, rfl, rfl⟩, rfl, _, hresting ▸ hord.toSound.holds⟩
  set w₁ := w₀.respond .accepted taker.clientId taker.orderId taker.side taker.quantity
    taker.limitPrice with hw₁
  obtain ⟨⟨w₂, remaining⟩, hloop, hord₂, hk₂, hleft, hdone, -⟩ :=
    sweep_total (n := taker.quantity.toNat) (w := w₁) taker ⟨_, _, hord⟩ (hk.accept taker) hside
      le_rfl
  have hbare : Bare junk w₁ w₁ :=
    ⟨⟨_, _, hord⟩, .refl, fun b hb => if_pos (OrderBook.inUse_clean.1 hb).1⟩
  obtain ⟨hloop', hbare'⟩ : (w₁.overlay junk w.responses w.updates).checkForMatch taker.orderId
      taker.clientId taker.side taker.quantity taker.limitPrice =
        .ok (w₂.overlay junk w.responses w.updates, remaining) ∧ Bare junk w₁ w₂ :=
    checkForMatch_overlay taker hbare hloop
  have hfrees : Frees w.toOrderBook (w₂.toOrderBook.overlay junk) := by
    have hbook : w₁.toOrderBook.overlay junk = w.toOrderBook := clean_overlay
    rw [← hbook]
    exact hbare'.frees.overlay
  refine ⟨w₂, remaining, junk, ?_, hord₂, hk₂, hleft, hdone, hbare'.junk_eq,
    h.orders_spacious.of_fewer hfrees.orderCursor hfrees.orders,
    h.levels_spacious.of_fewer hfrees.levelCursor hfrees.levels⟩
  have hrespond : w.respond .accepted taker.clientId taker.orderId taker.side taker.quantity
      taker.limitPrice = w₁.overlay junk w.responses w.updates := by
    rw [hw₁, ← respond_overlay, ← hover]
  rw [hrespond, hloop']

/-- **What the matching loop left rests,** and the reference book has it behind
the others. -/
theorem Swept.rest {remaining : QuantityT} (h : Swept w taker w₁ remaining junk)
    (hside : taker.side ≠ .invalid) (hq : remaining ≠ 0) (nsTimestamp : NsTimestampT) :
    ∃ book' junk' ring', (w₁.toOrderBook.overlay junk).rest taker.orderId taker.clientId nsTimestamp
        taker.side remaining taker.limitPrice = .ok (book'.overlay junk') ∧
      (∃ ring'', Holds book' ring'' ((Reference.sweep taker.quantity.toNat
        (w.ledger.record (.accepted taker)) taker).1.resting ++
          [{ taker with quantity := remaining }])) ∧
      book'.tickerId = w₁.tickerId ∧ Sound book' ring' ∧
      (∀ c, ∀ x ∈ ring' c, (book'.order x).side = (book'.level c).side) ∧
      ∀ c, book'.priceLevelPool.InUse c → junk' c = none := by
  obtain ⟨ring, chain, hord⟩ := h.ordered
  obtain ⟨ring₁, hh⟩ := h.keeps.holds
  obtain rfl : ring₁ = ring := funext fun b => hh.toShape.ordersOn.symm.trans hord.toShape.ordersOn
  have hside' : ({ taker with quantity := remaining } : Entry).side ≠ .invalid := hside
  obtain ⟨book₁, b, o, pool, book', junk', hrest, hopened, hpl, hj⟩ :=
    hord.rest_overlay hside'
      (fun c hmem => not_crosses_of_canMatch hord.toChains hside hq h.done hmem) h.junk_eq
      h.orders_spacious h.levels_spacious nsTimestamp
  have horder : ∀ x, book₁.order x = w₁.order x := fun x => by
    rw [OrderBook.order, hopened.orderPool]
    rfl
  refine ⟨book', junk', _, hrest,
    holds_placed hpl hh hopened.toCreated hopened.toShape hopened.back hq,
    hpl.tickerId.trans hopened.tickerId, hpl.sound (fun c hcb hc => ?_) (fun c x hx => ?_) hq,
    hpl.orderSide hopened.side_eq.symm hopened.orderSide, hj⟩
  · exact hord.nonempty c (((hopened.inUse c).1 hc).resolve_left hcb)
  · rw [horder]
    exact hord.positive c x hx

/-- **One add on a book between calls** returns and does what the reference does:
it announces the trades of the reference, in their order, and leaves the queues
of the reference. -/
theorem added_of_atRest (h : AtRest w.toOrderBook bids asks) (taker : Entry)
    (hside : taker.side ≠ .invalid) :
    ∃ w', w.add taker.orderId taker.clientId taker.side taker.quantity taker.limitPrice = .ok w' ∧
      Added w taker w' := by
  obtain ⟨w₁, remaining, junk, hloop, hswept⟩ := swept_of_atRest h taker hside
  have href : w.reference taker = (Reference.sweep taker.quantity.toNat
      (w.ledger.record (.accepted taker)) taker).1.rest { taker with quantity := remaining } := by
    rw [← hswept.left]
    rfl
  by_cases hq : remaining = 0
  · obtain ⟨ring, chain, hord⟩ := hswept.ordered
    refine ⟨_, ?_, added_overlay ?_ hord.toSound hord.orderSide hswept.junk_eq⟩
    · rw [add]
      simp only [hloop, ok_bind, hq]
      rfl
    · rw [href, Ledger.rest, if_pos hq]
      exact hswept.keeps
  · obtain ⟨book', junk', ring', hrest, hh, htick, hsound, horders, hj⟩ :=
      hswept.rest hside hq w₁.getCurrentNsTimestamp.1
    have hk : Keeps w.tickerId ((w₁.getCurrentNsTimestamp.2.withBook book').publish .add
        taker.orderId tradeIdInvalid taker.side remaining taker.limitPrice)
        (w.reference taker) := by
      rw [href]
      exact hswept.keeps.tick.place { taker with quantity := remaining } hq hh htick
    refine ⟨_, ?_, added_overlay hk hsound horders hj⟩
    rw [add]
    simp only [hloop, ok_bind]
    rw [if_pos hq]
    refine bind_eq_ok.2 ⟨book'.overlay junk', hrest, ?_⟩
    rw [← publish_overlay]
    rfl

/-- A bid takes the two offers at 95, and the rest of it waits at 97. -/
theorem added_of_sampleOps :
    ∃ w w', (new 8 8 3 fun _ => 0).run (sampleOps.take 3) = .ok w ∧
      w.add 4 7 .buy 30 97 = .ok w' ∧ Added w ⟨4, 7, .buy, 30, 97⟩ w' := by
  have hrun : ∃ w, (new 8 8 3 fun _ => 0).run (sampleOps.take 3) = .ok w ∧
      w.orderPool.Spacious ∧ w.priceLevelPool.Spacious := by
    decide +kernel
  have hfront : EachStep step OpensInFront (new 8 8 3 fun _ => 0) (sampleOps.take 3) := by
    decide +kernel
  obtain ⟨w, hw, horders, hlevels⟩ := hrun
  obtain ⟨ring, chain, hord⟩ :=
    isOrdered_of_run (by decide) (by decide) (by decide) hfront hw
  obtain ⟨w', hw', hadded⟩ :=
    added_of_atRest (hord.atRest horders hlevels) ⟨4, 7, .buy, 30, 97⟩ (by decide)
  exact ⟨w, w', hw, hw', hadded⟩

end World

end CppExchange
