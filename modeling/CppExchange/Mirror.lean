import CppExchange.Chains
import CppExchange.Renaming
import CppExchange.Views

/-!
# The mirror image of a book

A book has two sides, and almost every function of `orderbook.h` has a branch
for each.  The mirror image of a book has bids for asks and asks for bids, and
its prices are reflected in the range from `0` to a price `c`, so that the best
price of one side is the best price of the other.  Every operation on an
`OrderBook` is in lockstep with itself on the mirror image: the two branches do
the same.

The levels that were ever made have a side, and a price in the range
(`Proper`); the others have the default side and price, which are their own
mirror image, and no operation comes to one of them.
-/

namespace CppExchange

open Library

/-! ### Prices and sides -/

/-- A price reflected in the range from `0` to `c`. -/
def reflect (c price : PriceT) : PriceT := if price ≤ c then c - price else price

section Reflect

variable {c p q : PriceT}

theorem toNat_reflect (hp : p ≤ c) : (reflect c p).toNat = c.toNat - p.toNat := by
  rw [reflect, if_pos hp, UInt64.toNat_sub_of_le _ _ hp]

theorem reflect_le (hp : p ≤ c) : reflect c p ≤ c := by
  rw [UInt64.le_iff_toNat_le, toNat_reflect hp]
  omega

/-- Reflecting twice gives the price back; prices beyond the range stay where
they are. -/
theorem reflect_reflect : reflect c (reflect c p) = p := by
  by_cases hp : p ≤ c
  · rw [← UInt64.toNat_inj, toNat_reflect (reflect_le hp), toNat_reflect hp]
    rw [UInt64.le_iff_toNat_le] at hp
    omega
  · simp [reflect, hp]

theorem reflect_inj : reflect c p = reflect c q ↔ p = q :=
  Function.LeftInverse.injective (fun _ => reflect_reflect) |>.eq_iff

/-- A reflection turns the prices of the range around. -/
theorem reflect_le_iff (hp : p ≤ c) (hq : q ≤ c) : reflect c p ≤ reflect c q ↔ q ≤ p := by
  rw [UInt64.le_iff_toNat_le, toNat_reflect hp, toNat_reflect hq]
  rw [UInt64.le_iff_toNat_le] at *
  omega

theorem reflect_lt_iff (hp : p ≤ c) (hq : q ≤ c) : reflect c p < reflect c q ↔ q < p := by
  rw [← UInt64.not_le, reflect_le_iff hq hp, UInt64.not_le]

theorem reflect_priceInvalid (hc : c < priceInvalid) : reflect c priceInvalid = priceInvalid :=
  if_neg (UInt64.not_le.2 hc)

/-- The reflection as a renaming of prices. -/
def reflection (c : PriceT) : PriceT ↪ PriceT := ⟨reflect c, fun _ _ => reflect_inj.1⟩

end Reflect

/-- The other side. -/
def OrderSide.mirror : OrderSide → OrderSide
  | .invalid => .invalid
  | .buy => .sell
  | .sell => .buy

/-! ### Orders and levels -/

/-- An order on the other side, at the reflected price. -/
def Order.mirror {m : ℕ} (c : PriceT) (order : Order m) : Order m :=
  { order with side := order.side.mirror, limitPrice := reflect c order.limitPrice }

/-- A level of the other side, at the reflected price. -/
def OrdersPriceLevel.mirror {m l : ℕ} (c : PriceT) (level : OrdersPriceLevel m l) :
    OrdersPriceLevel m l :=
  { level with side := level.side.mirror, priceLevel := reflect c level.priceLevel }

/-- Orders and levels seen in a mirror. -/
def mirrorView {m l : ℕ} (c : PriceT) : View m l where
  order := Order.mirror c
  level := OrdersPriceLevel.mirror c
  order_next _ _ := rfl
  order_previous _ _ := rfl
  next _ := rfl
  previous _ := rfl
  orderId _ := rfl
  topOrder _ := rfl
  level_topOrder _ _ := rfl
  level_side _ _ _ := rfl

namespace OrdersPriceLevel

variable {m l : ℕ} {level : OrdersPriceLevel m l} {heap : Fin m → Order m} {o : Fin m}
  {orderId : OrderIdT}

/-- A cancel writes the top order of its level. -/
theorem cancel_level {r : OrdersPriceLevel m l × (Fin m → Order m) × Option (Fin m)}
    (h : level.cancel heap orderId = .ok r) : ∃ top, r.1 = { level with topOrder := top } := by
  obtain ⟨top, -, h⟩ := bind_eq_ok.1 h
  obtain ⟨order, -, h⟩ := bind_eq_ok.1 h
  split_ifs at h
  · obtain ⟨⟨top', _⟩, -, h⟩ := bind_eq_ok.1 h
    obtain rfl := Except.ok.inj h
    exact ⟨top', rfl⟩
  · obtain rfl := Except.ok.inj h
    exact ⟨level.topOrder, rfl⟩

/-- An add writes the top order of its level, and its side. -/
theorem add_level {r : OrdersPriceLevel m l × (Fin m → Order m)} (hs : level.side ≠ .invalid)
    (ho : (heap o).side ≠ .invalid) (h : level.add heap o = .ok r) :
    ∃ top side, side ≠ .invalid ∧ r.1 = { level with topOrder := top, side } := by
  unfold add at h
  cases ht : level.topOrder with
  | none =>
    rw [ht] at h
    obtain rfl := Except.ok.inj h
    refine ⟨some o, (heap o).side, ho, ?_⟩
    simp [CppExchange.setPrevious, CppExchange.setNext]
  | some top =>
    rw [ht] at h
    obtain ⟨previous, -, h⟩ := bind_eq_ok.1 h
    obtain rfl := Except.ok.inj h
    exact ⟨level.topOrder, level.side, hs, rfl⟩

end OrdersPriceLevel

/-! ### Books -/

namespace OrderBook

variable {m l : ℕ} {c : PriceT} {book book' : OrderBook m l} {b first : Fin l} {o : Fin m}
  {side : OrderSide} {price p : PriceT} {orderId : OrderIdT} {clientId : ClientIdT}
  {quantity : QuantityT} {nsTimestamp : NsTimestampT} {lvl : OrdersPriceLevel m l}
  {heap : Fin m → Order m} {next : Option (Fin l)} {createIfMissing : Bool}

/-- The mirror image of a book. -/
def mirror (c : PriceT) (book : OrderBook m l) : OrderBook m l where
  tickerId := book.tickerId
  orderPool := book.orderPool.map (Order.mirror c)
  priceLevelPool := book.priceLevelPool.map (OrdersPriceLevel.mirror c)
  priceLevels := relabel (reflection c) id book.priceLevels
  bestBids := book.bestAsks
  bestAsks := book.bestBids

/-- An empty book is its own image: the price of a level that was never made is
the invalid one, which is beyond the range. -/
theorem mirror_new {tickerId : TickerIdT} (hc : c < priceInvalid) :
    (new m l tickerId).mirror c = new m l tickerId := by
  have horder : (default : Order m).mirror c = default := by
    simp only [Order.mirror, default, reflect_priceInvalid hc]
    rfl
  have hlevel : (default : OrdersPriceLevel m l).mirror c = default := by
    simp only [OrdersPriceLevel.mirror, default, reflect_priceInvalid hc]
    rfl
  simp only [mirror, new, ObjectPool.map, ObjectPool.new, ObjectPool.get, horder, hlevel]
  rfl

/-- The level was made by `insertPriceLevel`. -/
def Made (book : OrderBook m l) (b : Fin l) : Prop := (book.level b).side ≠ .invalid

/-- What the pointers of a book lead to are levels that were made, and these have
prices in the range. -/
structure Proper (c : PriceT) (book : OrderBook m l) : Prop where
  best : ∀ s b, book.bestOf s = some b → book.Made b
  mapped : ∀ p b, book.levelAt p = some b → book.Made b
  next : ∀ b b', book.Made b → book.nextLevel b = some b' → book.Made b'
  price : ∀ b, book.Made b → book.priceOf b ≤ c

/-- The second book is the mirror image of the first. -/
structure Mirrored (c : PriceT) (book book' : OrderBook m l) : Prop where
  proper : Proper c book
  eq : book' = book.mirror c

/-! ### Reading and writing a mirror image -/

theorem levelAt_mirror : (book.mirror c).levelAt (reflect c price) = book.levelAt price := by
  unfold levelAt UnorderedMap.at?
  rw [show (book.mirror c).priceLevels.lookup (reflect c price) = _ from
    lookup_relabel (f := reflection c) (g := id), Option.map_id_fun, id]

/-- The best of a side is the best of the other one in the mirror. -/
theorem bestOf_mirror (hs : side ≠ .invalid) :
    (book.mirror c).bestOf side.mirror = book.bestOf side := by
  cases side with
  | invalid => exact absurd rfl hs
  | buy => rfl
  | sell => rfl

/-- So is the best that an order meets. -/
theorem bestOpposite_mirror (hs : side ≠ .invalid) :
    (book.mirror c).bestOpposite side.mirror = book.bestOpposite side := by
  cases side with
  | invalid => exact absurd rfl hs
  | buy => rfl
  | sell => rfl

/-- Setting the best of a side sets that of the other in the mirror. -/
theorem setBestOf_mirror (hs : side ≠ .invalid) :
    (book.mirror c).setBestOf side.mirror next = (book.setBestOf side next).mirror c := by
  cases side with
  | invalid => exact absurd rfl hs
  | buy => rfl
  | sell => rfl

/-- Writing the image of a level writes it in the mirror. -/
theorem setLevel_mirror :
    (book.mirror c).setLevel b (lvl.mirror c) = (book.setLevel b lvl).mirror c := by
  unfold setLevel mirror ObjectPool.set
  congr 1
  rw [ObjectPool.map_setHeap]
  congr 1
  funext x
  simp only [Function.comp_apply, Function.update_apply]
  split_ifs <;> rfl

theorem setOrders_mirror : (book.mirror c).setOrders ((mirrorView (l := l) c).onHeap heap) =
    (book.setOrders heap).mirror c := rfl

/-- **What is ahead stays ahead:** reflecting turns prices around, and so does
changing sides. -/
theorem ahead_mirror {q : PriceT} (hs : side ≠ .invalid) (hp : p ≤ c) (hq : q ≤ c) :
    ahead side.mirror (reflect c p) (reflect c q) = ahead side p q := by
  rw [Bool.eq_iff_iff, ahead_iff, ahead_iff]
  cases side with
  | invalid => exact absurd rfl hs
  | buy => simp [OrderSide.mirror, reflect_lt_iff hp hq]
  | sell => simp [OrderSide.mirror, reflect_lt_iff hq hp]

/-! ### What stays proper -/

/-- An empty book leads nowhere, so it is proper. -/
theorem proper_new {tickerId : TickerIdT} : Proper c (new m l tickerId) where
  best s b h := by
    cases s <;> cases h
  mapped p b h := by cases h
  next b b' h := absurd rfl h
  price b h := absurd rfl h

/-- A book with the same levels, whose pointers lead to levels that were made. -/
theorem Proper.congr (h : Proper c book) (hlevel : book'.level = book.level)
    (hbest : ∀ s b, book'.bestOf s = some b → book.Made b)
    (hmapped : ∀ p b, book'.levelAt p = some b → book.Made b) : Proper c book' := by
  have hmade : ∀ x, book'.Made x ↔ book.Made x := fun x => by
    rw [Made, hlevel]
    rfl
  refine ⟨fun s b hb => (hmade b).2 (hbest s b hb), fun p b hb => (hmade b).2 (hmapped p b hb),
    fun b b' hb hb' => (hmade b').2 (h.next b b' ((hmade b).1 hb) ?_), fun b hb => ?_⟩
  · rwa [nextLevel, hlevel] at hb'
  · rw [priceOf, hlevel]
    exact h.price b ((hmade b).1 hb)

theorem Proper.touch (h : Proper c book) : Proper c (book.touch price) :=
  h.congr rfl h.best fun p b hb => h.mapped p b (by rwa [levelAt_touch] at hb)

theorem Proper.setOrders (h : Proper c book) : Proper c (book.setOrders heap) :=
  ⟨h.best, h.mapped, h.next, h.price⟩

/-- A level that was made stays so when a level of a valid side is written. -/
theorem made_setLevel (hs : lvl.side ≠ .invalid) {x : Fin l} (hx : book.Made x) :
    (book.setLevel b lvl).Made x := by
  unfold Made
  rw [level_setLevel]
  split_ifs
  · exact hs
  · exact hx

/-- A level written with a side, a price in the range and a next level that was
made. -/
theorem Proper.setLevel (h : Proper c book) (hb : book.Made b) (hs : lvl.side ≠ .invalid)
    (hprice : lvl.priceLevel ≤ c) (hnext : ∀ x, lvl.nextPriceLevel = some x → book.Made x) :
    Proper c (book.setLevel b lvl) := by
  have hmade : ∀ x, (book.setLevel b lvl).Made x → book.Made x := by
    intro x hx
    unfold Made at hx
    rw [level_setLevel] at hx
    split_ifs at hx with hxb
    · rwa [hxb]
    · exact hx
  refine ⟨fun s x hx => made_setLevel hs (h.best s x hx),
    fun p x hx => made_setLevel hs (h.mapped p x hx), fun x y hx hy => made_setLevel hs ?_,
    fun x hx => ?_⟩
  · unfold nextLevel at hy
    rw [level_setLevel] at hy
    split_ifs at hy with hxb
    · exact hnext y hy
    · exact h.next x y (hmade x hx) hy
  · unfold priceOf
    rw [level_setLevel]
    split_ifs with hxb
    · exact hprice
    · exact h.price x (hmade x hx)

theorem level_setBestOf : (book.setBestOf side next).level = book.level := by
  funext x
  rw [OrderBook.level, setBestOf_priceLevelPool]
  rfl

/-- A book stays proper when a best pointer is set to a level that was made. -/
theorem Proper.setBestOf (h : Proper c book) (hnext : ∀ x, next = some x → book.Made x) :
    Proper c (book.setBestOf side next) := by
  refine h.congr level_setBestOf (fun s x hx => ?_) fun p x hx => h.mapped p x ?_
  · unfold OrderBook.setBestOf OrderBook.bestOf at hx
    split_ifs at hx
    · exact hnext x hx
    · exact h.best .buy x hx
    · exact h.best .sell x hx
    · exact hnext x hx
  · rwa [levelAt, setBestOf_priceLevels] at hx

/-! ### The operations -/

/-- **The search for the place of a level** goes down the other side. -/
theorem findNext_mirror (h : Proper c book) (hs : side ≠ .invalid) (hp : price ≤ c) :
    Lockstep (fun next next' => next' = next ∧ ∀ x, next = some x → book.Made x)
      (book.findNext side price) ((book.mirror c).findNext side.mirror (reflect c price)) := by
  unfold findNext
  rw [bestOf_mirror hs]
  refine whileLoop_lockstep ⟨rfl, fun x hx => h.best side x hx⟩ ?_ ?_
  · rintro (_ | x) _ ⟨rfl, hmade⟩
    · rfl
    · exact congrArg Except.ok (ahead_mirror hs (h.price x (hmade x rfl)) hp).symm
  · rintro (_ | x) _ ⟨rfl, hmade⟩ hc
    · cases hc
    · exact .ok ⟨rfl, fun y hy => h.next x y (hmade x rfl) hy⟩

/-- A new level is made, and so are the others. -/
theorem Proper.insert {pool : ObjectPool (OrdersPriceLevel m l) l} (h : Proper c book)
    (hs : side ≠ .invalid) (hp : price ≤ c) (hnext : ∀ x, next = some x → book.Made x)
    (hg : book.priceLevelPool.Got { nextPriceLevel := next, priceLevel := price, side } pool b) :
    Proper c { book with
      priceLevelPool := pool
      priceLevels := AList.insert price (some b) book.priceLevels } ∧
    ∀ x, x = b ∨ book.Made x → (pool.get x).side ≠ .invalid := by
  have hmade : ∀ x, x = b ∨ book.Made x → (pool.get x).side ≠ .invalid := by
    intro x hx
    rw [hg.get]
    split_ifs with hxb
    · exact hs
    · exact hx.resolve_left hxb
  refine ⟨⟨fun s x hx => hmade x (Or.inr (h.best s x hx)), fun p x hx => hmade x ?_,
    fun x y hx hy => hmade y (Or.inr ?_), fun x hx => ?_⟩, hmade⟩
  · rw [levelAt, UnorderedMap.at?_insert] at hx
    split_ifs at hx with hpp
    · exact Or.inl (Option.some.inj hx).symm
    · exact Or.inr (h.mapped p x hx)
  · unfold nextLevel OrderBook.level at hy
    unfold Made OrderBook.level at hx
    dsimp only at hx hy
    rw [hg.get] at hx hy
    split_ifs at hx hy
    · exact hnext y hy
    · exact h.next x y hx hy
  · unfold priceOf OrderBook.level
    unfold Made OrderBook.level at hx
    dsimp only at hx ⊢
    rw [hg.get] at hx ⊢
    split_ifs at hx ⊢
    · exact hp
    · exact h.price x hx

/-- **A level is inserted** on the other side. -/
theorem insertPriceLevel_mirror (h : Mirrored c book book') (hs : side ≠ .invalid)
    (hp : price ≤ c) :
    Lockstep (fun r r' => Mirrored c r.1 r'.1 ∧ r'.2 = r.2 ∧ r.1.Made r.2)
      (book.insertPriceLevel price side price)
      (book'.insertPriceLevel (reflect c price) side.mirror (reflect c price)) := by
  obtain ⟨hproper, rfl⟩ := h
  refine (findNext_mirror hproper hs hp).bind ?_
  rintro next _ - - ⟨rfl, hnext⟩
  refine (Lockstep.of_map ObjectPool.getObject_map).bind ?_
  rintro ⟨pool, b⟩ _ hget - rfl
  have hg := ObjectPool.getObject_ok hget
  obtain ⟨h₁, hmade⟩ := hproper.insert hs hp hnext hg
  have hbest : ((book.mirror c).bestOf side.mirror = book.bestOf side) := bestOf_mirror hs
  have heq : ({ book.mirror c with
      priceLevelPool := pool.map (OrdersPriceLevel.mirror c)
      priceLevels := AList.insert (reflect c price) (some b) (book.mirror c).priceLevels } :
        OrderBook m l) = mirror c { book with
      priceLevelPool := pool
      priceLevels := AList.insert price (some b) book.priceLevels } := by
    simp only [mirror, insert_relabel]
    rfl
  dsimp only
  rw [hbest, heq]
  split_ifs
  · refine .ok ⟨⟨h₁.setBestOf fun x hx => ?_, ?_⟩, rfl, ?_⟩
    · obtain rfl := Option.some.inj hx
      exact hmade _ (Or.inl rfl)
    · exact setBestOf_mirror hs
    · rw [Made, level_setBestOf]
      exact hmade b (Or.inl rfl)
  · exact .ok ⟨⟨h₁, rfl⟩, rfl, hmade b (Or.inl rfl)⟩

/-- Looking up a price creates the entry of its image. -/
theorem touch_mirror : (book.mirror c).touch (reflect c price) = (book.touch price).mirror c := by
  have hindex : UnorderedMap.index (relabel (reflection c) id book.priceLevels) (reflect c price) =
      _ := UnorderedMap.index_relabel (f := reflection c) (g := id) rfl
  unfold touch
  rw [show (book.mirror c).priceLevels = relabel (reflection c) id book.priceLevels from rfl,
    hindex]
  rfl

/-- **A level is found, or made,** on the other side. -/
theorem getPriceLevel_mirror (h : Mirrored c book book') (hs : side ≠ .invalid) (hp : price ≤ c) :
    Lockstep (fun r r' => Mirrored c r.1 r'.1 ∧ r'.2 = r.2 ∧ ∀ b, r.2 = some b → r.1.Made b)
      (book.getPriceLevel price side true)
      (book'.getPriceLevel (reflect c price) side.mirror true) := by
  obtain ⟨hproper, rfl⟩ := h
  have hat' : (book.mirror c).levelAt (reflect c price) = book.levelAt price := levelAt_mirror
  cases hat : book.levelAt price with
  | some b =>
    rw [hat] at hat'
    rw [getPriceLevel_of_levelAt hat, getPriceLevel_of_levelAt hat']
    refine .ok ⟨⟨hproper, rfl⟩, rfl, fun x hx => ?_⟩
    obtain rfl := Option.some.inj hx
    exact hproper.mapped price b hat
  | none =>
    rw [hat] at hat'
    rw [getPriceLevel_of_levelAt_none hat, getPriceLevel_of_levelAt_none hat', touch_mirror]
    refine (insertPriceLevel_mirror ⟨hproper.touch, rfl⟩ hs hp).bind ?_
    rintro ⟨book₁, b⟩ ⟨book₁', _⟩ - - ⟨h₁, rfl, hmade⟩
    refine .ok ⟨h₁, rfl, fun x hx => ?_⟩
    obtain rfl := Option.some.inj hx
    exact hmade

/-- **The search for the level before another** goes down the other side. -/
theorem findPrevious_mirror (h : Proper c book) (hf : book.Made first) :
    Lockstep (fun p p' => p' = p ∧ book.Made p) (book.findPrevious b first)
      ((book.mirror c).findPrevious b first) := by
  have hprice : ∀ x, ((book.mirror c).level x).priceLevel = reflect c (book.level x).priceLevel :=
    fun _ => rfl
  have hnext : ∀ x, ((book.mirror c).level x).nextPriceLevel = (book.level x).nextPriceLevel :=
    fun _ => rfl
  unfold findPrevious isElsewhere toPrevious
  simp only [hprice, hnext, ne_eq, reflect_inj]
  refine whileLoop_lockstep ⟨rfl, hf⟩ ?_ ?_
  · rintro _ x ⟨rfl, -⟩
    rfl
  · rintro _ x ⟨rfl, hx⟩ -
    cases hn : (book.level x).nextPriceLevel with
    | none => exact .error _
    | some y => exact .ok ⟨rfl, h.next x y hx hn⟩

/-- **A level is taken out** of the other chain. -/
theorem unlinkPriceLevel_mirror (h : Mirrored c book book') (hb : book.Made b) :
    Lockstep (fun r r' => Mirrored c r r' ∧ ∀ x, book.Made x → r.Made x)
      (book.unlinkPriceLevel b) (book'.unlinkPriceLevel b) := by
  obtain ⟨hproper, rfl⟩ := h
  have hbest : (book.mirror c).bestOf (book.level b).side.mirror =
      book.bestOf (book.level b).side := bestOf_mirror hb
  have hnext : ∀ x, (book.level b).nextPriceLevel = some x → book.Made x := fun x =>
    hproper.next b x hb
  unfold unlinkPriceLevel
  rw [show ((book.mirror c).level b).side = (book.level b).side.mirror from rfl,
    show ((book.mirror c).level b).nextPriceLevel = (book.level b).nextPriceLevel from rfl]
  dsimp only
  rw [hbest]
  cases hfirst : if some b ≠ book.bestOf (book.level b).side then book.bestOf (book.level b).side
    else none with
  | none =>
    refine .ok ⟨⟨hproper.setBestOf hnext, setBestOf_mirror hb⟩, fun x hx => ?_⟩
    rw [Made, level_setBestOf]
    exact hx
  | some first =>
    have hmade : book.Made first := by
      split_ifs at hfirst
      exact hproper.best _ first hfirst
    refine (findPrevious_mirror hproper hmade).bind ?_
    rintro _ previous - - ⟨rfl, hp⟩
    have hset : (book.mirror c).setLevel previous (OrdersPriceLevel.mirror c
        { book.level previous with nextPriceLevel := (book.level b).nextPriceLevel }) = _ :=
      setLevel_mirror
    refine .ok ⟨⟨hproper.setLevel hp hp (hproper.price _ hp) hnext, hset⟩,
      fun x hx => made_setLevel ?_ hx⟩
    exact hp

/-- **A level is removed** from the other side. -/
theorem removePriceLevel_mirror (h : Mirrored c book book') (hb : book.Made b) :
    Lockstep (Mirrored c) (book.removePriceLevel b) (book'.removePriceLevel b) := by
  refine (unlinkPriceLevel_mirror h hb).bind ?_
  rintro book₁ _ - - ⟨⟨h₁, rfl⟩, -⟩
  refine (Lockstep.of_map ObjectPool.releaseObject_map).bind ?_
  rintro pool _ hr - rfl
  obtain ⟨-, rfl⟩ := ObjectPool.releaseObject_ok hr
  refine .ok ⟨?_, ?_⟩
  · refine h₁.congr (funext fun _ => ObjectPool.get_release) h₁.best fun p x hx => ?_
    rw [levelAt, UnorderedMap.at?_insert] at hx
    split_ifs at hx
    exact h₁.mapped p x hx
  · simp only [mirror, insert_relabel]
    rfl

/-- An empty level leaves either book, or ends either run with the same fault. -/
theorem removeIfEmpty_mirror (h : Mirrored c book book') (hb : book.Made b) :
    Lockstep (Mirrored c) (book.removeIfEmpty b) (book'.removeIfEmpty b) := by
  have htop : (book'.level b).topOrder = (book.level b).topOrder := by
    rw [h.eq]
    rfl
  unfold removeIfEmpty
  rw [htop]
  split_ifs
  · exact removePriceLevel_mirror h hb
  · exact .ok h

/-- A level written with another top order. -/
theorem Proper.setTop {top : Option (Fin m)} (h : Proper c book) (hb : book.Made b)
    (hs : side ≠ .invalid) :
    Proper c (book.setLevel b { book.level b with topOrder := top, side }) := by
  refine h.setLevel hb ?_ ?_ ?_
  · exact hs
  · exact h.price b hb
  · exact fun x => h.next b x hb

/-- **A cancel on a level** of the other side. -/
theorem cancelAt_mirror (h : Mirrored c book book') (hb : book.Made b) :
    Lockstep (fun r r' => (Mirrored c r.1 r'.1 ∧ r'.2 = r.2) ∧ ∀ x, book.Made x → r.1.Made x)
      (book.cancelAt b orderId) (book'.cancelAt b orderId) := by
  obtain ⟨hproper, rfl⟩ := h
  refine (Lockstep.of_map (mirrorView c).cancel).bind ?_
  rintro ⟨lvl, heap, o⟩ _ hcancel - rfl
  obtain ⟨top, rfl⟩ := OrdersPriceLevel.cancel_level hcancel
  refine .ok ⟨⟨⟨(hproper.setTop hb hb).setOrders, ?_⟩, rfl⟩, fun x hx => made_setLevel ?_ hx⟩
  · rw [← setOrders_mirror, ← setLevel_mirror]
    rfl
  · exact hb

/-- **An order is added to a level** of the other side. -/
theorem addAt_mirror (h : Mirrored c book book') (hb : book.Made b)
    (ho : (book.order o).side ≠ .invalid) :
    Lockstep (Mirrored c) (book.addAt b o) (book'.addAt b o) := by
  obtain ⟨hproper, rfl⟩ := h
  refine (Lockstep.of_map (mirrorView c).add).bind ?_
  rintro ⟨lvl, heap⟩ _ hadd - rfl
  obtain ⟨top, s, hs, rfl⟩ := OrdersPriceLevel.add_level hb ho hadd
  refine .ok ⟨(hproper.setTop hb hs).setOrders, ?_⟩
  rw [← setOrders_mirror, ← setLevel_mirror]
  rfl

/-- A fill takes as much off the order in the mirror. -/
theorem fillOrder_mirror {fillQuantity : QuantityT} (h : Mirrored c book book') :
    Mirrored c (book.fillOrder o fillQuantity) (book'.fillOrder o fillQuantity) := by
  obtain ⟨hproper, rfl⟩ := h
  refine ⟨hproper.setOrders, ?_⟩
  unfold fillOrder
  rw [← setOrders_mirror, View.onHeap_update]
  rfl

/-- **What is left of an order is put** on the other side. -/
theorem rest_mirror (h : Mirrored c book book') (hs : side ≠ .invalid) (hp : price ≤ c) :
    Lockstep (Mirrored c) (book.rest orderId clientId nsTimestamp side quantity price)
      (book'.rest orderId clientId nsTimestamp side.mirror quantity (reflect c price)) := by
  refine (getPriceLevel_mirror h hs hp).bind ?_
  rintro ⟨book₁, level⟩ ⟨book₁', level'⟩ - - ⟨⟨h₁, hbook⟩, hlevel, hmade⟩
  obtain rfl : book₁' = book₁.mirror c := hbook
  obtain rfl : level' = level := hlevel
  have hmirror := @ObjectPool.getObject_map (Order m) m book₁.orderPool (Order.mirror c)
    { tickerId := book₁.tickerId, orderId, clientId, nsTimestamp, side, quantity,
      limitPrice := price }
  refine (Lockstep.of_map hmirror).bind ?_
  rintro ⟨pool, o⟩ _ hget - rfl
  have hg := ObjectPool.getObject_ok hget
  have hside : (pool.get o).side ≠ .invalid := by
    rw [hg.get, if_pos rfl]
    exact hs
  cases level' with
  | none => exact .error _
  | some b => exact addAt_mirror ⟨⟨h₁.best, h₁.mapped, h₁.next, h₁.price⟩, rfl⟩ (hmade b rfl) hside

/-- **An order is looked up and taken out** on the other side. -/
theorem takeOut_mirror (h : Mirrored c book book') :
    Lockstep (fun r r' => Mirrored c r.1 r'.1 ∧ r'.2 = r.2) (book.takeOut orderId side price)
      (book'.takeOut orderId side.mirror (reflect c price)) := by
  obtain ⟨hproper, rfl⟩ := h
  unfold takeOut
  rw [getPriceLevel_eq, getPriceLevel_eq, levelAt_mirror, touch_mirror, ok_bind, ok_bind]
  cases hat : book.levelAt price with
  | none => exact .ok ⟨⟨hproper.touch, rfl⟩, rfl⟩
  | some b =>
    have hb : (book.touch price).Made b := hproper.mapped price b hat
    refine (cancelAt_mirror ⟨hproper.touch, rfl⟩ hb).bind ?_
    rintro ⟨book₁, o⟩ ⟨book₁', _⟩ - - ⟨⟨h₁, rfl⟩, hmade⟩
    exact (removeIfEmpty_mirror h₁ (hmade b hb)).bind fun _ _ _ _ h₂ => .ok ⟨h₂, rfl⟩

end OrderBook

end CppExchange
