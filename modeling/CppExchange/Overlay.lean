import CppExchange.InOrder

/-!
# Blocks that are not looked at

The pool of levels may hold blocks that are on no chain and under no price: free
ones with whatever they were left with, and ones in use that nothing leads to.
`book.overlay junk` is `book` with such blocks put over its own, and the matching
loop does the same on both (`checkForMatch_overlay`).  The queues may hold messages
already; those stay in front of what is pushed.
-/

namespace CppExchange

open Library

/-! ### Blocks of a pool -/

namespace ObjectPool

variable {T : Type} {n : ℕ} {pool : ObjectPool T n} {junk : Fin n → Option (ObjectBlock T)}
  {p : Fin n} {object : T}

/-- The pool with some blocks put over its own. -/
def overlay (pool : ObjectPool T n) (junk : Fin n → Option (ObjectBlock T)) : ObjectPool T n :=
  { pool with store := fun p => (junk p).getD (pool.store p) }

theorem get_overlay (h : junk p = none) : (pool.overlay junk).get p = pool.get p := by
  simp [overlay, get, h]

theorem inUse_overlay (h : junk p = none) : (pool.overlay junk).InUse p ↔ pool.InUse p := by
  simp [overlay, InUse, h]

/-- Writing to a block without junk writes under the junk of the others. -/
theorem set_overlay (h : junk p = none) :
    (pool.overlay junk).set p object = (pool.set p object).overlay junk := by
  simp only [set, setHeap, overlay, heap, ObjectPool.mk.injEq, and_true]
  funext q
  rcases eq_or_ne q p with rfl | hq
  · simp [h]
  · cases hj : junk q with
    | none => simp [Function.update_of_ne hq, get, hj]
    | some block => simp [Function.update_of_ne hq, get, hj]

/-- Giving back such a block leaves that junk where it is. -/
theorem release_overlay (h : junk p = none) :
    (pool.overlay junk).release p = (pool.release p).overlay junk := by
  simp only [release, overlay, ObjectPool.mk.injEq, and_true]
  funext q
  rcases eq_or_ne q p with rfl | hq
  · simp [h]
  · simp [Function.update_of_ne hq]

/-- The block handed out is a free one of the pool, and the rest of what was put
over it stays there. -/
theorem getObject_overlay {pool' : ObjectPool T n} (hj : ∀ q, pool.InUse q → junk q = none)
    (h : (pool.overlay junk).getObject object = .ok (pool', p)) :
    ∃ pool₁, pool' = pool₁.overlay (Function.update junk p none) ∧ pool.Got object pool₁ p := by
  have hgot := getObject_ok h
  have hover : ∀ q, pool.InUse q → (pool.overlay junk).InUse q := fun q hq =>
    (inUse_overlay (hj q hq)).2 hq
  refine ⟨{ pool.take p object with nextFree := pool'.nextFree }, ?_,
    fun hp => hgot.fresh (hover p hp), fun q => get_take, fun q => inUse_take, ?_⟩
  · rw [getObject_eq_take h]
    simp only [overlay, take, ObjectPool.mk.injEq, and_true]
    funext q
    rcases eq_or_ne q p with rfl | hq
    · simp
    · simp [Function.update_of_ne hq]
  · obtain ⟨hn, hfree⟩ := hgot.cursor
    refine ⟨hn, fun hu => hfree ((hgot.inUse _).2 ?_)⟩
    exact (inUse_take.1 hu).imp_right (hover _)

end ObjectPool

/-! ### Books -/

namespace OrderBook

variable {m l : ℕ} {book book₁ book' : OrderBook m l} {ring : Fin l → List (Fin m)}
  {xs : List (Fin m)} {chain : OrderSide → List (Fin l)}
  {junk : Fin l → Option (ObjectBlock (OrdersPriceLevel m l))}
  {b : Fin l} {o : Fin m} {lvl : OrdersPriceLevel m l} {heap : Fin m → Order m} {side : OrderSide}
  {price : PriceT} {orderId : OrderIdT}

/-- The book with some blocks put over those of its pool of levels. -/
def overlay (book : OrderBook m l) (junk : Fin l → Option (ObjectBlock (OrdersPriceLevel m l))) :
    OrderBook m l :=
  { book with priceLevelPool := book.priceLevelPool.overlay junk }

@[simp] theorem order_overlay : (book.overlay junk).order o = book.order o := rfl

@[simp] theorem orderPool_overlay : (book.overlay junk).orderPool = book.orderPool := rfl

@[simp] theorem levelAt_overlay : (book.overlay junk).levelAt price = book.levelAt price := rfl

@[simp] theorem bestOf_overlay : (book.overlay junk).bestOf side = book.bestOf side := rfl

@[simp] theorem bestOpposite_overlay :
    (book.overlay junk).bestOpposite side = book.bestOpposite side := rfl

@[simp] theorem setOrders_overlay :
    (book.overlay junk).setOrders heap = (book.setOrders heap).overlay junk := rfl

@[simp] theorem fillOrder_overlay {fillQuantity : QuantityT} :
    (book.overlay junk).fillOrder o fillQuantity =
      (book.fillOrder o fillQuantity).overlay junk := rfl

@[simp] theorem touch_overlay :
    (book.overlay junk).touch price = (book.touch price).overlay junk := rfl

theorem setBestOf_overlay {p : Option (Fin l)} :
    (book.overlay junk).setBestOf side p = (book.setBestOf side p).overlay junk := by
  unfold setBestOf
  split_ifs <;> rfl

theorem level_overlay (h : junk b = none) : (book.overlay junk).level b = book.level b :=
  ObjectPool.get_overlay h

theorem setLevel_overlay (h : junk b = none) :
    (book.overlay junk).setLevel b lvl = (book.setLevel b lvl).overlay junk := by
  simp only [setLevel, overlay, ObjectPool.set_overlay h]

theorem dropLevel_overlay (h : junk b = none) :
    (book.overlay junk).dropLevel b = (book.dropLevel b).overlay junk := by
  simp only [dropLevel, level_overlay h]
  simp only [overlay, ObjectPool.release_overlay h]

/-- Cancelling on a level without junk reads no junk. -/
theorem cancelAt_overlay (h : junk b = none) : (book.overlay junk).cancelAt b orderId =
    (book.cancelAt b orderId).map fun r => (r.1.overlay junk, r.2) := by
  simp only [cancelAt, level_overlay h, orderPool_overlay]
  cases (book.level b).cancel book.orderPool.heap orderId with
  | error e => rfl
  | ok r =>
    simp only [ok_bind, setLevel_overlay h]
    rfl

/-- Adding to a level without junk reads no junk. -/
theorem addAt_overlay (h : junk b = none) :
    (book.overlay junk).addAt b o = (book.addAt b o).map (·.overlay junk) := by
  simp only [addAt, level_overlay h, orderPool_overlay]
  cases (book.level b).add book.orderPool.heap o with
  | error e => rfl
  | ok r =>
    simp only [ok_bind, setLevel_overlay h]
    rfl

/-- Junk in blocks off the chains unstrings nothing. -/
theorem Strung.overlay (h : Strung book chain) (hj : ∀ s ≠ .invalid, ∀ b ∈ chain s, junk b = none) :
    Strung (book.overlay junk) chain where
  linked s hs := (h.linked s hs).congr fun b hb => by
    rw [nextLevel, level_overlay (hj s hs b hb), nextLevel]
  sorted s hs := (h.sorted s hs).imp_of_mem fun {a b} ha hb hab => by
    rwa [priceOf, level_overlay (hj s hs a ha), priceOf, level_overlay (hj s hs b hb)]
  side s hs b hb := by
    rw [level_overlay (hj s hs b hb)]
    exact h.side s hs b hb

/-- A level is unlinked the same way. -/
theorem Strung.unlinkPriceLevel_overlay (h : Strung book chain)
    (hj : ∀ s ≠ .invalid, ∀ b ∈ chain s, junk b = none) (hs : (book.level b).side ≠ .invalid)
    (hb : b ∈ chain (book.level b).side) :
    (book.overlay junk).unlinkPriceLevel b = (book.unlinkPriceLevel b).map (·.overlay junk) := by
  have hlevel : (book.overlay junk).level b = book.level b := level_overlay (hj _ hs b hb)
  have hc' := h.linked _ hs
  obtain ⟨zs, ys, hc⟩ := List.append_of_mem hb
  rcases List.eq_nil_or_concat zs with rfl | ⟨pre, a, rfl⟩
  · rw [hc] at hc'
    have hbest : (book.overlay junk).bestOf ((book.overlay junk).level b).side = some b := by
      rw [hlevel]
      exact hc'.1
    rw [unlinkPriceLevel_best hc'.1, unlinkPriceLevel_best hbest, hlevel, setBestOf_overlay]
    rfl
  · rw [List.concat_eq_append, List.append_assoc] at hc
    have ha : junk a = none := hj _ hs a (by rw [hc]; simp)
    rw [h.unlinkPriceLevel_inner hs hc,
      (h.overlay hj).unlinkPriceLevel_inner (by rwa [hlevel]) (by rwa [hlevel]), hlevel,
      level_overlay ha, setLevel_overlay ha]
    rfl

/-- **A level is removed the same way.** -/
theorem Chains.removeIfEmpty_overlay (h : Chains book chain) (hb : book.priceLevelPool.InUse b)
    (hj : ∀ c, book.priceLevelPool.InUse c → junk c = none) :
    (book.overlay junk).removeIfEmpty b = (book.removeIfEmpty b).map (·.overlay junk) := by
  have hjs : ∀ s ≠ .invalid, ∀ c ∈ chain s, junk c = none := fun s hs c hc =>
    hj c ((h.mem s hs c).1 hc).1
  have hsame := h.strung.unlinkPriceLevel_overlay hjs (h.sided b hb) (h.mem_of_inUse hb)
  obtain ⟨book₁, hu, -⟩ := h.strung.unlink (h.sided b hb) (h.mem_of_inUse hb)
  have hu' : (book.overlay junk).unlinkPriceLevel b = .ok (book₁.overlay junk) := by
    rw [hsame, hu]
    rfl
  have hb' : (book.overlay junk).priceLevelPool.InUse b := (ObjectPool.inUse_overlay (hj b hb)).2 hb
  rw [removeIfEmpty, removeIfEmpty, level_overlay (hj b hb)]
  split_ifs
  · rw [removePriceLevel_eq hu' hb', removePriceLevel_eq hu hb, dropLevel_overlay (hj b hb)]
    rfl
  · rfl

/-! ### Blocks that are given back -/

/-- The block a pool hands out next is the same, and no other block is in use. -/
structure Frees (book book' : OrderBook m l) : Prop where
  orders : ∀ x, book'.orderPool.InUse x → book.orderPool.InUse x
  levels : ∀ c, book'.priceLevelPool.InUse c → book.priceLevelPool.InUse c
  orderCursor : book'.orderPool.nextFree = book.orderPool.nextFree
  levelCursor : book'.priceLevelPool.nextFree = book.priceLevelPool.nextFree

theorem Frees.refl : Frees book book := ⟨fun _ => id, fun _ => id, rfl, rfl⟩

theorem Frees.trans (h : Frees book book₁) (h' : Frees book₁ book') : Frees book book' :=
  ⟨fun x hx => h.orders x (h'.orders x hx), fun c hc => h.levels c (h'.levels c hc),
    h'.orderCursor.trans h.orderCursor, h'.levelCursor.trans h.levelCursor⟩

theorem Shrunk.frees (hs : Shrunk book ring b xs book₁) : Frees book book₁ := by
  obtain ⟨heap', rfl⟩ := hs.edit
  exact ⟨fun _ => id, fun _ => id, rfl, rfl⟩

/-- Unlinking writes to levels and leaves the cursor of their pool. -/
theorem unlinkPriceLevel_nextFree (h : book.unlinkPriceLevel b = .ok book') :
    book'.priceLevelPool.nextFree = book.priceLevelPool.nextFree := by
  unfold unlinkPriceLevel at h
  dsimp only at h
  split at h
  · obtain rfl := Except.ok.inj h
    rw [setBestOf_priceLevelPool]
  · obtain ⟨previous, -, h⟩ := bind_eq_ok.1 h
    obtain rfl := Except.ok.inj h
    rfl

/-- Removing an empty level gives its block back and takes none. -/
theorem removeIfEmpty_frees (h : book.removeIfEmpty b = .ok book') : Frees book book' := by
  unfold removeIfEmpty at h
  split_ifs at h
  · have hr := removePriceLevel_ok h
    refine ⟨fun x hx => by rwa [hr.orderPool] at hx, fun c hc => ((hr.inUse c).1 hc).1,
      by rw [hr.orderPool], ?_⟩
    simp only [removePriceLevel, bind_eq_ok] at h
    obtain ⟨book₁, hu, pool, hrel, hok⟩ := h
    obtain rfl := Except.ok.inj hok
    exact (congrArg ObjectPool.nextFree (ObjectPool.releaseObject_ok hrel).2).trans
      (unlinkPriceLevel_nextFree hu)
  · rw [Except.ok.inj h]
    exact .refl

/-- Junk on both sides makes no difference. -/
theorem Frees.overlay (h : Frees book book') : Frees (book.overlay junk) (book'.overlay junk) where
  orders := h.orders
  levels c hc := by
    simp only [OrderBook.overlay, ObjectPool.overlay, ObjectPool.InUse] at hc ⊢
    cases hj : junk c with
    | none =>
      rw [hj] at hc
      exact h.levels c hc
    | some block =>
      rw [hj] at hc
      exact hc
  orderCursor := h.orderCursor
  levelCursor := h.levelCursor

end OrderBook

/-! ### Worlds -/

open OrderBook

namespace World

variable {m l : ℕ} {w : World m l} {ring : Fin l → List (Fin m)} {chain : OrderSide → List (Fin l)}
  {junk : Fin l → Option (ObjectBlock (OrdersPriceLevel m l))} {rs : List ClientResponse}
  {us : List MarketUpdate} {book : OrderBook m l} {b : Fin l} {o : Fin m} {taker : Entry}
  {type : ResponseType} {updateType : UpdateType} {orderId : OrderIdT} {clientId : ClientIdT}
  {tradeId : TradeIdT} {side : OrderSide} {quantity : QuantityT} {price : PriceT}

/-- The world with some blocks put over those of its book, and messages in front
of those of its queues. -/
def overlay (w : World m l) (junk : Fin l → Option (ObjectBlock (OrdersPriceLevel m l)))
    (rs : List ClientResponse) (us : List MarketUpdate) : World m l :=
  { w with
    toOrderBook := w.toOrderBook.overlay junk
    responses := rs ++ w.responses
    updates := us ++ w.updates }

@[simp] theorem toOrderBook_overlay :
    (w.overlay junk rs us).toOrderBook = w.toOrderBook.overlay junk := rfl

@[simp] theorem withBook_overlay :
    (w.overlay junk rs us).withBook (book.overlay junk) =
      (w.withBook book).overlay junk rs us := rfl

/-- A response goes behind what the overlay has pushed. -/
@[simp] theorem respond_overlay :
    (w.overlay junk rs us).respond type clientId orderId side quantity price =
      (w.respond type clientId orderId side quantity price).overlay junk rs us := by
  simp only [respond, getCurrentNsTimestamp, pushResponse, overlay, List.append_assoc]
  rfl

/-- An update goes behind what the overlay has pushed. -/
@[simp] theorem publish_overlay :
    (w.overlay junk rs us).publish updateType orderId tradeId side quantity price =
      (w.publish updateType orderId tradeId side quantity price).overlay junk rs us := by
  simp only [publish, getCurrentNsTimestamp, pushUpdate, overlay, List.append_assoc]
  rfl

/-- So does the update of a trade. -/
@[simp] theorem publishTrade_overlay :
    (w.overlay junk rs us).publishTrade side quantity price =
      (w.publishTrade side quantity price).overlay junk rs us := by
  simp only [publishTrade, publish, getCurrentNsTimestamp, pushUpdate, overlay, List.append_assoc]
  rfl

/-- The order is settled the same way. -/
theorem settle_overlay (hj : ∀ p b, w.levelAt p = some b → junk b = none) :
    (w.overlay junk rs us).settle side quantity o =
      (w.settle side quantity o).map (·.overlay junk rs us) := by
  have hq' : ((w.overlay junk rs us).order o).quantity = (w.order o).quantity := rfl
  by_cases hq : (w.order o).quantity = 0
  · rw [settle, settle, if_pos (hq'.trans hq), if_pos hq]
    simp only [toOrderBook_overlay, order_overlay, publish_overlay, toOrderBook_publish,
      getPriceLevel_eq, levelAt_overlay, touch_overlay, ok_bind, Library.map_bind]
    cases hat : w.levelAt (w.order o).limitPrice with
    | none => rfl
    | some b =>
      simp only [deref_some, ok_bind, cancelAt_overlay (hj _ b hat), Library.bind_map,
        withBook_overlay]
      rfl
  · rw [settle, settle, if_neg (hq'.trans_ne hq), if_neg hq]
    simp only [toOrderBook_overlay, order_overlay, publish_overlay]
    rfl

/-- A match does the same. -/
theorem matchOrder_overlay (hj : ∀ p b, w.levelAt p = some b → junk b = none) {p : Option (Fin m)} :
    (w.overlay junk rs us).matchOrder orderId clientId side quantity p =
      (w.matchOrder orderId clientId side quantity p).map
        fun r => (r.1.overlay junk rs us, r.2) := by
  cases p with
  | none => rfl
  | some o =>
    set fill := min quantity (w.order o).quantity with hfill
    have hj₁ : ∀ p b, ((w.publishTrade side fill (w.order o).limitPrice).withBook
        (w.fillOrder o fill)).levelAt p = some b → junk b = none := hj
    have hset : (((w.publishTrade side fill (w.order o).limitPrice).withBook
        (w.fillOrder o fill)).overlay junk rs us).settle side fill o = _ := settle_overlay hj₁
    simp only [matchOrder, deref_some, ok_bind, Library.map_bind, toOrderBook_overlay,
      order_overlay, publishTrade_overlay, toOrderBook_publishTrade, fillOrder_overlay,
      withBook_overlay, ← hfill, hset, Library.bind_map, respond_overlay, pure_eq_ok]
    rfl

/-! ### The matching loop -/

/-- The levels in use hold no junk, and no block was taken since `w₀`. -/
structure Bare (junk : Fin l → Option (ObjectBlock (OrdersPriceLevel m l))) (w₀ w : World m l) :
    Prop where
  ordered : IsOrdered w.toOrderBook
  frees : Frees w₀.toOrderBook w.toOrderBook
  junk_eq : ∀ b, w.priceLevelPool.InUse b → junk b = none

/-- The loop of a bare world tests the same. -/
theorem Bare.canMatch_overlay {w₀ : World m l} (h : Bare junk w₀ w) :
    canMatch side price (w.overlay junk rs us, quantity) = canMatch side price (w, quantity) := by
  obtain ⟨ring, chain, hord⟩ := h.ordered
  unfold canMatch
  simp only [toOrderBook_overlay, bestOpposite_overlay]
  cases hb : w.bestOpposite side with
  | none => rfl
  | some b =>
    have hs : side.opposite ≠ .invalid := OrderSide.opposite_ne_invalid
    have hmem : b ∈ chain side.opposite := by
      rw [bestOpposite_eq, hord.best_eq hs] at hb
      exact List.mem_of_mem_head? hb
    simp only [level_overlay (h.junk_eq b ((hord.mem _ hs b).1 hmem).1)]

/-- **A turn of a bare world is the same turn,** and leaves a bare world. -/
theorem Bare.matchBest_overlay {w₀ : World m l} (h : Bare junk w₀ w) (taker : Entry)
    (hc : canMatch taker.side taker.limitPrice (w, taker.quantity) = .ok true) :
    ∃ w' q, matchBest taker.orderId taker.clientId taker.side (w, taker.quantity) = .ok (w', q) ∧
      matchBest taker.orderId taker.clientId taker.side (w.overlay junk rs us, taker.quantity) =
        .ok (w'.overlay junk rs us, q) ∧ Bare junk w₀ w' := by
  obtain ⟨ring, chain, hord⟩ := h.ordered
  obtain ⟨b, o, xs, w₁, book', hbest, hmem, hring, hmatch, hm, hrem, hord', -, hturn⟩ :=
    turn_of_canMatch taker hord hc
  have hb : w.priceLevelPool.InUse b := ((hord.mem _ OrderSide.opposite_ne_invalid b).1 hmem).1
  have hj : ∀ p c, w.levelAt p = some c → junk c = none := fun p c hat =>
    h.junk_eq c ((hord.levelAt p c).1 hat).1
  have hj₁ : ∀ c, w₁.priceLevelPool.InUse c → junk c = none := fun c hc =>
    h.junk_eq c (hm.shrunk.inUse_iff.1 hc)
  have hmatch' : (w.overlay junk rs us).matchOrder taker.orderId taker.clientId taker.side
      taker.quantity (some o) =
        .ok (w₁.overlay junk rs us, taker.quantity - taker.fillQuantity (w.order o).entry) := by
    rw [matchOrder_overlay hj, hmatch]
    rfl
  have hrem' : (w₁.toOrderBook.overlay junk).removeIfEmpty b = .ok (book'.overlay junk) := by
    rw [(hord.chains_shrunk hm.shrunk).removeIfEmpty_overlay (hm.shrunk.inUse_iff.2 hb) hj₁, hrem]
    rfl
  have hb₀ : w.bestOpposite taker.side = some b := by rw [bestOpposite_eq, hbest]
  have hb₁ : w₁.bestOpposite taker.side = some b := by
    rw [bestOpposite_eq, hm.shrunk.bestOf, hbest]
  have hfrees : Frees w.toOrderBook book' := hm.shrunk.frees.trans (removeIfEmpty_frees hrem)
  refine ⟨_, _, hturn, ?_, hord', h.frees.trans hfrees,
    fun c hc => h.junk_eq c (hfrees.levels c hc)⟩
  simp only [matchBest, toOrderBook_overlay, bestOpposite_overlay, hb₀, deref_some, ok_bind,
    level_overlay (h.junk_eq b hb), hord.top b, hring, List.head?_cons, hmatch', hb₁, hrem',
    withBook_overlay, pure_eq_ok]

/-- **The matching loop does not look at the junk.** -/
theorem checkForMatch_overlay {s : World m l × QuantityT} (taker : Entry)
    (h : Bare junk w w) (hs : w.checkForMatch taker.orderId taker.clientId taker.side
      taker.quantity taker.limitPrice = .ok s) :
    (w.overlay junk rs us).checkForMatch taker.orderId taker.clientId taker.side taker.quantity
        taker.limitPrice = .ok (s.1.overlay junk rs us, s.2) ∧ Bare junk w s.1 := by
  have hstep : ∀ s : World m l × QuantityT, Bare junk w s.1 →
      canMatch taker.side taker.limitPrice s = .ok true →
      ∃ s' : World m l × QuantityT, matchBest taker.orderId taker.clientId taker.side s = .ok s' ∧
        matchBest taker.orderId taker.clientId taker.side (s.1.overlay junk rs us, s.2) =
          .ok (s'.1.overlay junk rs us, s'.2) ∧ Bare junk w s'.1 := by
    rintro ⟨w₁, q⟩ hb hc
    obtain ⟨w', q', hturn, hturn', hb'⟩ := hb.matchBest_overlay { taker with quantity := q } hc
    exact ⟨(w', q'), hturn, hturn', hb'⟩
  constructor
  · have hmap : (w.overlay junk rs us).checkForMatch taker.orderId taker.clientId taker.side
        taker.quantity taker.limitPrice =
          (w.checkForMatch taker.orderId taker.clientId taker.side taker.quantity
            taker.limitPrice).map fun s => (s.1.overlay junk rs us, s.2) := by
      refine whileLoop_map (I := fun s : World m l × QuantityT => Bare junk w s.1)
        (fun s : World m l × QuantityT => (s.1.overlay junk rs us, s.2))
        (fun s hb => hb.canMatch_overlay) (fun s hb hc => ?_) (fun s s' hb hc hs => ?_)
        (show Bare junk w (w, taker.quantity).1 from h)
      · obtain ⟨s', hturn, hturn', -⟩ := hstep s hb hc
        rw [hturn, hturn']
        rfl
      · obtain ⟨s'', hturn, -, hb'⟩ := hstep s hb hc
        obtain rfl := Except.ok.inj (hturn.symm.trans hs)
        exact hb'
    rw [hmap, hs]
    rfl
  · refine (whileLoop_invariant (I := fun s : World m l × QuantityT => Bare junk w s.1)
      (fun s s' hb hc hs => ?_) h hs).1
    obtain ⟨s'', hturn, -, hb'⟩ := hstep s hb hc
    obtain rfl := Except.ok.inj (hturn.symm.trans hs)
    exact hb'

end World

end CppExchange
