import CppExchange.OrderBook
import CppExchange.PriceLevel
import CppExchange.PoolCursor

/-!
# The shape of a book

`Shape book ring` says what holds of the storage of a book at any time,
whatever the state of its two chains: `ring b` lists the orders of the level
`b`, the rings have no order in common, their orders are in use and at the
price of the level, and the map leads from a price to the level in use that has
it.  `Sound` adds what holds between calls: levels in use are not empty and
resting quantities are not zero.

Each operation on a single level is one edit of the book
(`Shape.editLevel`).  The book after `cancelAt` and `addAt` is given as a term,
so that what an operation leaves alone is read off by `simp`.
-/

namespace CppExchange

open Library

namespace OrderBook

variable {m l : ℕ} {book book' : OrderBook m l} {ring : Fin l → List (Fin m)} {b b' : Fin l}
  {o x : Fin m} {heap heap' : Fin m → Order m} {lvl : OrdersPriceLevel m l} {side : OrderSide}
  {price : PriceT} {orderId : OrderIdT} {xs ys : List (Fin m)}

/-! ### Reading a written book -/

section Fields

@[simp] theorem order_setLevel : (book.setLevel b lvl).order o = book.order o := rfl

@[simp] theorem order_setOrders : (book.setOrders heap).order o = heap o := rfl

@[simp] theorem level_setOrders : (book.setOrders heap).level b = book.level b := rfl

theorem level_setLevel :
    (book.setLevel b lvl).level b' = if b' = b then lvl else book.level b' := ObjectPool.get_set

@[simp] theorem level_setLevel_self : (book.setLevel b lvl).level b = lvl := by
  simp [level_setLevel]

@[simp] theorem levelAt_setLevel : (book.setLevel b lvl).levelAt price = book.levelAt price := rfl

@[simp] theorem levelAt_setOrders : (book.setOrders heap).levelAt price = book.levelAt price := rfl

@[simp] theorem heap_setOrders : (book.setOrders heap).orderPool.heap = heap := rfl

@[simp] theorem heap_setLevel : (book.setLevel b lvl).orderPool = book.orderPool := rfl

@[simp] theorem inUse_order_setOrders :
    (book.setOrders heap).orderPool.InUse o ↔ book.orderPool.InUse o := Iff.rfl

@[simp] theorem inUse_level_setLevel :
    (book.setLevel b lvl).priceLevelPool.InUse b' ↔ book.priceLevelPool.InUse b' := Iff.rfl

@[simp] theorem levelPool_setOrders :
    (book.setOrders heap).priceLevelPool = book.priceLevelPool := rfl

@[simp] theorem bestOf_setLevel : (book.setLevel b lvl).bestOf side = book.bestOf side := rfl

@[simp] theorem bestOf_setOrders : (book.setOrders heap).bestOf side = book.bestOf side := rfl

@[simp] theorem priceLevels_setLevel : (book.setLevel b lvl).priceLevels = book.priceLevels := rfl

@[simp] theorem priceLevels_setOrders :
    (book.setOrders heap).priceLevels = book.priceLevels := rfl

@[simp] theorem setBestOf_orderPool {p : Option (Fin l)} :
    (book.setBestOf side p).orderPool = book.orderPool := by
  unfold setBestOf
  split_ifs <;> rfl

@[simp] theorem setBestOf_priceLevelPool {p : Option (Fin l)} :
    (book.setBestOf side p).priceLevelPool = book.priceLevelPool := by
  unfold setBestOf
  split_ifs <;> rfl

@[simp] theorem setBestOf_priceLevels {p : Option (Fin l)} :
    (book.setBestOf side p).priceLevels = book.priceLevels := by
  unfold setBestOf
  split_ifs <;> rfl

@[simp] theorem setBestOf_tickerId {p : Option (Fin l)} :
    (book.setBestOf side p).tickerId = book.tickerId := by
  unfold setBestOf
  split_ifs <;> rfl

theorem bestOpposite_eq : book.bestOpposite side = book.bestOf side.opposite := by
  cases side <;> rfl

theorem heap_eq_order : book.orderPool.heap o = book.order o := rfl

end Fields

/-! ### Shape -/

/-- The storage of a book whose level `b` holds the orders `ring b`. -/
structure Shape (book : OrderBook m l) (ring : Fin l → List (Fin m)) : Prop where
  rings : ∀ b, RingAt book.orderPool.heap (ring b)
  top : ∀ b, (book.level b).topOrder = (ring b).head?
  disjoint : ∀ b b' o, o ∈ ring b → o ∈ ring b' → b = b'
  live : ∀ b, ∀ o ∈ ring b, book.orderPool.InUse o
  price : ∀ b, ∀ o ∈ ring b, (book.order o).limitPrice = (book.level b).priceLevel
  levelAt : ∀ p b, book.levelAt p = some b ↔
    book.priceLevelPool.InUse b ∧ (book.level b).priceLevel = p
  free : ∀ b, ¬book.priceLevelPool.InUse b → ring b = []

/-- A shape between calls. -/
structure Sound (book : OrderBook m l) (ring : Fin l → List (Fin m)) : Prop
    extends Shape book ring where
  nonempty : ∀ b, book.priceLevelPool.InUse b → ring b ≠ []
  positive : ∀ b, ∀ o ∈ ring b, (book.order o).quantity ≠ 0

/-- A level with an order is in use. -/
theorem Shape.inUse_of_mem (hs : Shape book ring) (ho : o ∈ ring b) :
    book.priceLevelPool.InUse b := by
  by_contra hb
  rw [hs.free b hb] at ho
  exact List.not_mem_nil ho

theorem Shape.levelAt_of_inUse (hs : Shape book ring) (hb : book.priceLevelPool.InUse b) :
    book.levelAt (book.level b).priceLevel = some b := (hs.levelAt _ b).2 ⟨hb, rfl⟩

/-- A level with a top order is the one recorded under its price. -/
theorem Shape.levelAt_of_mem (hs : Shape book ring) (ho : o ∈ ring b) :
    book.levelAt (book.order o).limitPrice = some b :=
  hs.price b o ho ▸ hs.levelAt_of_inUse (hs.inUse_of_mem ho)

/-- The walk over a level meets its orders. -/
theorem Shape.ordersOn (hs : Shape book ring) : book.ordersOn b = ring b :=
  OrdersPriceLevel.orders_eq (hs.rings b) (hs.top b)

/-- A new book is sound. -/
theorem sound_new (m l : ℕ) (tickerId : TickerIdT) :
    Sound (new m l tickerId) (fun _ => []) where
  rings _ := IsRing.nil
  top _ := rfl
  disjoint _ _ _ h := absurd h List.not_mem_nil
  live _ _ h := absurd h List.not_mem_nil
  price _ _ h := absurd h List.not_mem_nil
  levelAt p b := by
    have h₁ : (new m l tickerId).levelAt p = none := rfl
    have h₂ : ¬(new m l tickerId).priceLevelPool.InUse b := ObjectPool.not_inUse_new
    simp [h₁, h₂]
  free _ _ := rfl
  nonempty _ h := absurd h ObjectPool.not_inUse_new
  positive _ _ h := absurd h List.not_mem_nil

/-! ### Edits of one level -/

/-- The orders of the rings when the level `b` has the ring `xs`. -/
theorem mem_update_ring {c : Fin l} : o ∈ Function.update ring b xs c ↔
    c = b ∧ o ∈ xs ∨ c ≠ b ∧ o ∈ ring c := by
  rcases eq_or_ne c b with rfl | hc
  · simp
  · simp [hc]

/-- **One level edited.**  The level `b` gets the ring `xs`, whose orders are
on no other level; the orders of the other levels are not written. -/
theorem Shape.editLevel (hs : Shape book ring) (hring : RingAt heap' xs)
    (hlvl : lvl.topOrder = xs.head?) (hprice : lvl.priceLevel = (book.level b).priceLevel)
    (hframe : ∀ b' ≠ b, ∀ x ∈ ring b', heap' x = book.orderPool.heap x)
    (hmem : ∀ x ∈ xs, (∀ b' ≠ b, x ∉ ring b') ∧ book.orderPool.InUse x ∧
      (heap' x).limitPrice = (book.level b).priceLevel)
    (hfree : ¬book.priceLevelPool.InUse b → xs = []) :
    Shape ((book.setLevel b lvl).setOrders heap') (Function.update ring b xs) where
  rings c := by
    rcases eq_or_ne c b with rfl | hc
    · rwa [Function.update_self]
    · rw [Function.update_of_ne hc]
      refine (hs.rings c).congr (fun x hx => ?_) (fun x hx => ?_)
      · exact congrArg Order.next (hframe c hc x hx)
      · exact congrArg Order.previous (hframe c hc x hx)
  top c := by
    rcases eq_or_ne c b with rfl | hc
    · simp [hlvl]
    · simp [level_setLevel, hc, hs.top c]
  disjoint c c' o hc hc' := by
    rcases mem_update_ring.1 hc with ⟨rfl, hx⟩ | ⟨hcb, hx⟩ <;>
      rcases mem_update_ring.1 hc' with ⟨rfl, hx'⟩ | ⟨hcb', hx'⟩
    · rfl
    · exact absurd hx' ((hmem o hx).1 c' hcb')
    · exact absurd hx ((hmem o hx').1 c hcb)
    · exact hs.disjoint c c' o hx hx'
  live c o hc := by
    rcases mem_update_ring.1 hc with ⟨rfl, hx⟩ | ⟨-, hx⟩
    · exact (hmem o hx).2.1
    · exact hs.live c o hx
  price c o hc := by
    rcases mem_update_ring.1 hc with ⟨rfl, hx⟩ | ⟨hcb, hx⟩
    · simp [hprice, (hmem o hx).2.2]
    · simp [level_setLevel, hcb, hframe c hcb o hx, heap_eq_order, hs.price c o hx]
  levelAt p c := by
    simp only [levelAt_setOrders, levelAt_setLevel, levelPool_setOrders, inUse_level_setLevel,
      level_setOrders, level_setLevel, hs.levelAt]
    split_ifs with hc
    · rw [hc, hprice]
    · rfl
  free c hc := by
    rcases eq_or_ne c b with rfl | hcb
    · rw [Function.update_self]
      exact hfree hc
    · rw [Function.update_of_ne hcb]
      exact hs.free c hc

/-- Writing a quantity changes no ring. -/
theorem Shape.fillOrder (hs : Shape book ring) (fillQuantity : QuantityT) :
    Shape (book.fillOrder o fillQuantity) ring := by
  have hn : nextOf (book.fillOrder o fillQuantity).orderPool.heap =
      nextOf book.orderPool.heap := by
    funext x
    simp only [nextOf, OrderBook.fillOrder, heap_setOrders, Function.update_apply]
    split_ifs with h
    · rw [h, heap_eq_order]
    · rfl
  have hp : previousOf (book.fillOrder o fillQuantity).orderPool.heap =
      previousOf book.orderPool.heap := by
    funext x
    simp only [previousOf, OrderBook.fillOrder, heap_setOrders, Function.update_apply]
    split_ifs with h
    · rw [h, heap_eq_order]
    · rfl
  refine ⟨fun b => ?_, hs.top, hs.disjoint, hs.live, fun b x hx => ?_, hs.levelAt, hs.free⟩
  · have h := hs.rings b
    rw [RingAt] at h ⊢
    rwa [hn, hp]
  · rw [OrderBook.fillOrder, order_setOrders, level_setOrders, Function.update_apply]
    split_ifs with h
    · rw [← hs.price b x hx, h]
    · exact hs.price b x hx

/-- **`cancelAt` with the id on the level** takes the first such order out. -/
theorem cancelAt_hit (hs : Shape book ring) (hb : ring b = xs ++ o :: ys)
    (hxs : ∀ x ∈ xs, (book.order x).orderId ≠ orderId) (ho : (book.order o).orderId = orderId) :
    ∃ heap', book.cancelAt b orderId = .ok ((book.setLevel b
        { book.level b with topOrder := (xs ++ ys).head? }).setOrders heap', some o) ∧
      Shape ((book.setLevel b { book.level b with topOrder := (xs ++ ys).head? }).setOrders heap')
        (Function.update ring b (xs ++ ys)) ∧
      ∀ x, (heap' x).body = (book.order x).body := by
  have hr := hs.rings b
  have ht := hs.top b
  rw [hb] at hr ht
  obtain ⟨heap', hc, hring, hbody, hframe, -⟩ := OrdersPriceLevel.cancel_hit hr ht hxs ho
  have hsub : ∀ x ∈ xs ++ ys, x ∈ ring b := by
    intro x hx
    rw [hb]
    simp only [List.mem_append, List.mem_cons] at hx ⊢
    tauto
  refine ⟨heap', by simp [cancelAt, hc], hs.editLevel hring rfl rfl ?_ ?_ ?_, hbody⟩
  · intro b' hne x hx
    exact hframe x (fun hx' => hne (hs.disjoint b' b x hx (hb ▸ hx')))
  · intro x hx
    refine ⟨fun b' hne hx' => hne (hs.disjoint b' b x hx' (hsub x hx)), hs.live b x (hsub x hx), ?_⟩
    rw [← hs.price b x (hsub x hx)]
    exact eq_of_body Order.limitPrice (fun _ => rfl) (hbody x)
  · intro hu
    have := hs.free b hu
    simp [hb] at this

/-- **`cancelAt` without the id on the level** changes nothing. -/
theorem cancelAt_miss (hs : Shape book ring) (hne : ring b ≠ [])
    (h : ∀ x ∈ ring b, (book.order x).orderId ≠ orderId) :
    book.cancelAt b orderId = .ok (book, none) := by
  have hset : (book.setLevel b (book.level b)).setOrders book.orderPool.heap = book := by
    simp only [setLevel, setOrders, level, ObjectPool.set_get, ObjectPool.setHeap_heap]
  rw [cancelAt, OrdersPriceLevel.cancel_miss (hs.rings b) (hs.top b) hne h]
  simp only [ok_bind, pure_eq_ok, hset]

/-- **`addAt`** appends an order that is in use, on no level and at the price
of the level. -/
theorem addAt_spec (hs : Shape book ring) (hb : book.priceLevelPool.InUse b)
    (ho : ∀ b, o ∉ ring b) (hu : book.orderPool.InUse o)
    (hp : (book.order o).limitPrice = (book.level b).priceLevel) :
    ∃ heap', book.addAt b o = .ok ((book.setLevel b
        { book.level b with
          topOrder := (ring b ++ [o]).head?
          side := if ring b = [] then (book.order o).side else (book.level b).side }).setOrders
        heap') ∧
      Shape ((book.setLevel b
        { book.level b with
          topOrder := (ring b ++ [o]).head?
          side := if ring b = [] then (book.order o).side else (book.level b).side }).setOrders
        heap') (Function.update ring b (ring b ++ [o])) ∧
      ∀ x, (heap' x).body = (book.order x).body := by
  obtain ⟨heap', hadd, hring, hbody, hframe⟩ :=
    OrdersPriceLevel.add_spec (hs.rings b) (hs.top b) (ho b)
  refine ⟨heap', ?_, hs.editLevel hring rfl rfl ?_ ?_ (fun h => absurd hb h), hbody⟩
  · simp only [addAt, hadd, ok_bind, pure_eq_ok]
    rfl
  · intro b' hne x hx
    exact hframe x (fun hx' => hne (hs.disjoint b' b x hx hx')) (fun h => ho b' (h ▸ hx))
  · intro x hx
    have hlim : (heap' x).limitPrice = (book.order x).limitPrice :=
      eq_of_body Order.limitPrice (fun _ => rfl) (hbody x)
    rw [hlim]
    rcases List.mem_append.1 hx with hx | hx
    · exact ⟨fun b' hne hx' => hne (hs.disjoint b' b x hx' hx), hs.live b x hx, hs.price b x hx⟩
    · rw [List.mem_singleton] at hx
      subst hx
      exact ⟨fun b' _ => ho b', hu, hp⟩

end OrderBook

end CppExchange
