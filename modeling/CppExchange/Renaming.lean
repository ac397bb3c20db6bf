import CppExchange.Library.Lockstep
import CppExchange.Matching
import Mathlib.Data.List.Find

/-!
# Order ids up to renaming

A book reads order ids in one place only, the search of a cancel, which asks
whether two of them are the same.  So a book whose orders have other ids and
timestamps does the same: `Renamed τ book book'` says that `book'` is `book`
with the ids of its orders renamed by `τ`, and every operation on an
`OrderBook` is in lockstep with itself on renamed books.

Orders that were never handed out have no id to speak of; `τ` is about the
orders in use.
-/

namespace CppExchange

open Library

/-- `τ` takes no other id for `orderId`. -/
def Separates (τ : OrderIdT → OrderIdT) (orderId : OrderIdT) : Prop :=
  ∀ other, τ other = τ orderId → other = orderId

theorem Separates.eq_iff {τ : OrderIdT → OrderIdT} {orderId other : OrderIdT}
    (h : Separates τ orderId) : τ orderId = τ other ↔ orderId = other :=
  ⟨fun he => (h other he.symm).symm, congrArg τ⟩

/-- An order without its id and its timestamp. -/
def Order.anonymous {m : ℕ} (order : Order m) : Order m :=
  { order with orderId := orderIdInvalid, nsTimestamp := nsTimestampInvalid }

section Heap

variable {m l : ℕ} {τ : OrderIdT → OrderIdT} {used : Fin m → Prop} {heap heap' : Fin m → Order m}
  {o x : Fin m} {p : Option (Fin m)} {order order' : Order m} {xs : List (Fin m)}
  {orderId : OrderIdT}

/-- Two memories whose orders differ in timestamps and, as `τ` says, in the ids
of the orders in use. -/
structure HeapRenamed (τ : OrderIdT → OrderIdT) (used : Fin m → Prop)
    (heap heap' : Fin m → Order m) : Prop where
  same : ∀ o, (heap' o).anonymous = (heap o).anonymous
  orderId : ∀ o, used o → (heap' o).orderId = τ (heap o).orderId
  separates : ∀ o, used o → Separates τ (heap o).orderId

/-- What does not read ids and timestamps reads the same. -/
theorem HeapRenamed.read {α : Type} (h : HeapRenamed τ used heap heap') (f : Order m → α)
    (hf : ∀ order, f order.anonymous = f order) : f (heap' o) = f (heap o) := by
  rw [← hf (heap' o), h.same o, hf]

theorem HeapRenamed.next (h : HeapRenamed τ used heap heap') : (heap' o).next = (heap o).next :=
  h.read Order.next fun _ => rfl

theorem HeapRenamed.previous (h : HeapRenamed τ used heap heap') :
    (heap' o).previous = (heap o).previous := h.read Order.previous fun _ => rfl

theorem HeapRenamed.side (h : HeapRenamed τ used heap heap') : (heap' o).side = (heap o).side :=
  h.read Order.side fun _ => rfl

/-- **One order written in both memories.** -/
theorem HeapRenamed.update (h : HeapRenamed τ used heap heap')
    (hs : order'.anonymous = order.anonymous)
    (hid : used o → order'.orderId = τ order.orderId ∧ Separates τ order.orderId) :
    HeapRenamed τ used (Function.update heap o order) (Function.update heap' o order') := by
  refine ⟨fun x => ?_, fun x hx => ?_, fun x hx => ?_⟩ <;> rcases eq_or_ne x o with rfl | hne
  · simpa using hs
  · simpa [hne] using h.same x
  · simpa using (hid hx).1
  · simpa [hne] using h.orderId x hx
  · simpa using (hid hx).2
  · simpa [hne] using h.separates x hx

/-- A field other than the id written in both memories. -/
theorem HeapRenamed.write (h : HeapRenamed τ used heap heap') (f : Order m → Order m)
    (hf : ∀ order, (f order).anonymous = (f order.anonymous).anonymous)
    (hid : ∀ order, (f order).orderId = order.orderId) :
    HeapRenamed τ used (Function.update heap o (f (heap o)))
      (Function.update heap' o (f (heap' o))) := by
  refine h.update ?_ fun hu => ?_
  · rw [hf, h.same o, ← hf]
  · rw [hid, hid]
    exact ⟨h.orderId o hu, h.separates o hu⟩

theorem HeapRenamed.setNext (h : HeapRenamed τ used heap heap') :
    HeapRenamed τ used (setNext heap o p) (setNext heap' o p) :=
  h.write (fun order => { order with next := p }) (fun _ => rfl) fun _ => rfl

theorem HeapRenamed.setPrevious (h : HeapRenamed τ used heap heap') :
    HeapRenamed τ used (setPrevious heap o p) (setPrevious heap' o p) :=
  h.write (fun order => { order with previous := p }) (fun _ => rfl) fun _ => rfl

theorem HeapRenamed.ringAt (h : HeapRenamed τ used heap heap') (hr : RingAt heap xs) :
    RingAt heap' xs := hr.congr (fun _ _ => h.next) fun _ _ => h.previous

/-- The id that is looked for is the same on an order in use. -/
theorem HeapRenamed.orderId_eq_iff (h : HeapRenamed τ used heap heap') (hu : used x) :
    (heap' x).orderId = τ orderId ↔ (heap x).orderId = orderId := by
  rw [h.orderId x hu]
  exact (h.separates x hu).eq_iff

namespace OrdersPriceLevel

variable {level : OrdersPriceLevel m l} {top : Fin m}

/-- **Adding to a level goes in step:** it writes links, which renaming leaves
alone. -/
theorem add_lockstep (h : HeapRenamed τ used heap heap') :
    Lockstep (fun r r' => r'.1 = r.1 ∧ HeapRenamed τ used r.2 r'.2) (level.add heap o)
      (level.add heap' o) := by
  unfold add
  cases level.topOrder with
  | none =>
    have h₁ : HeapRenamed τ used
        (CppExchange.setPrevious (CppExchange.setNext heap o (some o)) o (some o))
        (CppExchange.setPrevious (CppExchange.setNext heap' o (some o)) o (some o)) :=
      h.setNext.setPrevious
    exact .ok ⟨by rw [h₁.side], h₁⟩
  | some top =>
    have h₁ : HeapRenamed τ used (CppExchange.setNext heap o (some top))
        (CppExchange.setNext heap' o (some top)) := h.setNext
    dsimp only
    rw [h₁.previous]
    refine (Lockstep.of_eq (by rw [h₁.setPrevious.previous])).bind ?_
    rintro previous _ - - rfl
    exact .ok ⟨rfl, h₁.setPrevious.setNext.setPrevious⟩

/-- **Unlinking goes in step** for the same reason. -/
theorem unlink_lockstep (h : HeapRenamed τ used heap heap') :
    Lockstep (fun r r' => r'.1 = r.1 ∧ HeapRenamed τ used r.2 r'.2) (unlink heap top o)
      (unlink heap' top o) := by
  unfold unlink
  rw [h.previous, h.next]
  refine (Lockstep.refl _).bind ?_
  rintro previous _ - - rfl
  have h₁ : HeapRenamed τ used (CppExchange.setNext heap previous (heap o).next)
      (CppExchange.setNext heap' previous (heap o).next) := h.setNext
  dsimp only
  rw [h₁.next, h₁.previous]
  refine (Lockstep.refl _).bind ?_
  rintro next _ - - rfl
  refine .ok ⟨?_, h₁.setPrevious.setPrevious.setNext⟩
  rw [h₁.setPrevious.next]

/-- **A cancel is in lockstep** with the cancel of the renamed id. -/
theorem cancel_lockstep (h : HeapRenamed τ used heap heap') (hr : RingAt heap xs)
    (ht : level.topOrder = xs.head?) (hu : ∀ x ∈ xs, used x) :
    Lockstep (fun r r' => r'.1 = r.1 ∧ HeapRenamed τ used r.2.1 r'.2.1 ∧ r'.2.2 = r.2.2)
      (level.cancel heap orderId) (level.cancel heap' (τ orderId)) := by
  unfold cancel
  rw [ht]
  cases xs with
  | nil => exact .error _
  | cons x xs =>
    have hfind : ((x :: xs).find? fun y => (heap' y).orderId = τ orderId) =
        (x :: xs).find? fun y => (heap y).orderId = orderId := by
      refine List.find?_congr fun y hy => ?_
      rw [decide_eq_decide]
      exact h.orderId_eq_iff (hu y hy)
    rw [List.head?_cons, deref_some, ok_bind, ok_bind, search_eq hr, search_eq (h.ringAt hr), hfind,
      ok_bind, ok_bind]
    set order := ((x :: xs).find? fun y => (heap y).orderId = orderId).getD
      ((x :: xs).getLast (List.cons_ne_nil x xs)) with horder
    have hmem : order ∈ x :: xs := by
      cases hf : (x :: xs).find? fun y => (heap y).orderId = orderId with
      | none =>
        rw [horder, hf]
        exact List.getLast_mem _
      | some y =>
        rw [horder, hf]
        exact List.mem_of_find?_eq_some hf
    simp only [h.orderId_eq_iff (hu order hmem)]
    split_ifs
    · refine (unlink_lockstep h).bind ?_
      rintro r r' - - ⟨h₁, h₂⟩
      exact .ok ⟨by rw [h₁], h₂, rfl⟩
    · exact .ok ⟨rfl, h, rfl⟩

end OrdersPriceLevel

end Heap

/-! ### The pool of orders -/

namespace ObjectPool

variable {m : ℕ} {T : Type} {τ : OrderIdT → OrderIdT} {pool pool' : ObjectPool (Order m) m}
  {heap heap' : Fin m → Order m} {order order' : Order m}

/-- The search for an available block reads the flags only. -/
theorem updateNextFree_lockstep {n : ℕ} {pool pool' : ObjectPool T n}
    (hn : pool'.nextFree = pool.nextFree)
    (ha : ∀ o, (pool'.store o).available = (pool.store o).available) :
    Lockstep (fun p p' => ∃ i, p = { pool with nextFree := i } ∧ p' = { pool' with nextFree := i })
      pool.updateNextFree pool'.updateNextFree := by
  have htaken : pool'.taken = pool.taken := by
    funext i
    unfold taken index
    split_ifs with h
    · simp [ha]
    · rfl
  unfold updateNextFree
  rw [hn, htaken]
  refine (Lockstep.refl _).bind ?_
  rintro i _ - - rfl
  exact .ok ⟨i, rfl, rfl⟩

/-- Two pools of orders renamed by `τ`. -/
structure PoolRenamed (τ : OrderIdT → OrderIdT) (pool pool' : ObjectPool (Order m) m) : Prop
    extends HeapRenamed τ pool.InUse pool.heap pool'.heap where
  nextFree : pool'.nextFree = pool.nextFree
  available : ∀ o, (pool'.store o).available = (pool.store o).available

theorem PoolRenamed.setHeap (h : PoolRenamed τ pool pool')
    (hh : HeapRenamed τ pool.InUse heap heap') :
    PoolRenamed τ (pool.setHeap heap) (pool'.setHeap heap') :=
  ⟨hh, h.nextFree, h.available⟩

/-- **A new order is put in the same block.** -/
theorem getObject_lockstep (h : PoolRenamed τ pool pool')
    (hs : order'.anonymous = order.anonymous) (hid : order'.orderId = τ order.orderId)
    (hsep : Separates τ order.orderId) :
    Lockstep (fun r r' => r'.2 = r.2 ∧ PoolRenamed τ r.1 r'.1) (pool.getObject order)
      (pool'.getObject order') := by
  unfold getObject
  refine (Lockstep.of_eq (show _ = pool'.index pool'.nextFree by rw [h.nextFree]; rfl)).bind ?_
  rintro p _ - - rfl
  refine (Lockstep.of_eq (by rw [h.available, h.nextFree])).bind ?_
  rintro - - - - -
  have hcursor : (pool'.take p order').nextFree = (pool.take p order).nextFree := h.nextFree
  refine (updateNextFree_lockstep hcursor fun x => ?_).bind ?_
  · simp only [take, Function.update_apply]
    split_ifs
    · rfl
    · exact h.available x
  · rintro _ _ - - ⟨i, rfl, rfl⟩
    have hget : ∀ (pool : ObjectPool (Order m) m) order x,
        ({ pool.take p order with nextFree := i } : ObjectPool (Order m) m).heap x =
          if x = p then order else pool.heap x := fun _ _ _ => get_take
    refine .ok ⟨rfl, ⟨fun x => ?_, fun x hx => ?_, fun x hx => ?_⟩, rfl, fun x => ?_⟩
    · rw [hget, hget]
      split_ifs
      · exact hs
      · exact h.same x
    · rw [hget, hget]
      split_ifs with hxp
      · exact hid
      · exact h.orderId x ((inUse_take.1 hx).resolve_left hxp)
    · rw [hget]
      split_ifs with hxp
      · exact hsep
      · exact h.separates x ((inUse_take.1 hx).resolve_left hxp)
    · simp only [take, Function.update_apply]
      split_ifs
      · rfl
      · exact h.available x

end ObjectPool

/-! ### Books -/

namespace OrderBook

variable {m l : ℕ} {τ : OrderIdT → OrderIdT} {book book' : OrderBook m l}
  {ring : Fin l → List (Fin m)} {b : Fin l} {o : Fin m} {side : OrderSide} {price : PriceT}
  {orderId : OrderIdT} {clientId : ClientIdT} {quantity : QuantityT}
  {nsTimestamp nsTimestamp' : NsTimestampT} {createIfMissing : Bool} {heap heap' : Fin m → Order m}
  {lvl : OrdersPriceLevel m l} {pool : ObjectPool (Order m) m}

/-- The book `book'` is `book` with the ids of its orders renamed by `τ`, up to
timestamps. -/
structure Renamed (τ : OrderIdT → OrderIdT) (book book' : OrderBook m l) : Prop
    extends ObjectPool.PoolRenamed τ book.orderPool book'.orderPool where
  frame : book' = book.withOrders book'.orderPool

theorem Renamed.exists_pool (h : Renamed τ book book') :
    ∃ pool, ObjectPool.PoolRenamed τ book.orderPool pool ∧ book' = book.withOrders pool :=
  ⟨_, h.toPoolRenamed, h.frame⟩

theorem Renamed.level (h : Renamed τ book book') : book'.level b = book.level b := by
  rw [h.frame]
  rfl

theorem Renamed.levelAt (h : Renamed τ book book') : book'.levelAt price = book.levelAt price := by
  rw [h.frame]
  rfl

theorem Renamed.tickerId (h : Renamed τ book book') : book'.tickerId = book.tickerId := by
  rw [h.frame]
  rfl

theorem Renamed.bestOpposite (h : Renamed τ book book') :
    book'.bestOpposite side = book.bestOpposite side := by
  rw [h.frame]
  rfl

/-- What does not read ids and timestamps reads the same of an order. -/
theorem Renamed.order {α : Type} (h : Renamed τ book book') (f : Order m → α)
    (hf : ∀ order, f order.anonymous = f order) : f (book'.order o) = f (book.order o) :=
  h.toHeapRenamed.read f hf

theorem Renamed.orderId_eq (h : Renamed τ book book') (hu : book.orderPool.InUse o) :
    (book'.order o).orderId = τ (book.order o).orderId := h.toHeapRenamed.orderId o hu

theorem Renamed.touch (h : Renamed τ book book') :
    Renamed τ (book.touch price) (book'.touch price) := by
  obtain ⟨pool, hp, rfl⟩ := h.exists_pool
  exact ⟨hp, rfl⟩

/-- One level and the orders written in both books. -/
theorem Renamed.edit (h : Renamed τ book book')
    (hh : HeapRenamed τ book.orderPool.InUse heap heap') :
    Renamed τ ((book.setLevel b lvl).setOrders heap) ((book'.setLevel b lvl).setOrders heap') := by
  obtain ⟨pool, hp, rfl⟩ := h.exists_pool
  exact ⟨hp.setHeap hh, rfl⟩

/-- A fill does not look at the order's id. -/
theorem Renamed.fillOrder {fillQuantity : QuantityT} (h : Renamed τ book book') :
    Renamed τ (book.fillOrder o fillQuantity) (book'.fillOrder o fillQuantity) := by
  obtain ⟨pool, hp, rfl⟩ := h.exists_pool
  refine ⟨hp.setHeap ?_, rfl⟩
  exact hp.toHeapRenamed.write
    (fun order => { order with quantity := order.quantity - fillQuantity }) (fun _ => rfl)
    fun _ => rfl

theorem withOrders_setBestOf {first : Option (Fin l)} :
    (book.withOrders pool).setBestOf side first = (book.setBestOf side first).withOrders pool := by
  unfold setBestOf
  split_ifs <;> rfl

/-- Setting a best pointer looks at no order. -/
theorem Renamed.setBestOf {first : Option (Fin l)} (h : Renamed τ book book') :
    Renamed τ (book.setBestOf side first) (book'.setBestOf side first) := by
  obtain ⟨pool, hp, rfl⟩ := h.exists_pool
  rw [withOrders_setBestOf]
  exact ⟨by rwa [setBestOf_orderPool], rfl⟩

/-- **A level is created in either book,** in the same block and the same place,
or in neither. -/
theorem insertPriceLevel_lockstep {index : UInt64} (h : Renamed τ book book') :
    Lockstep (fun r r' => Renamed τ r.1 r'.1 ∧ r'.2 = r.2)
      (book.insertPriceLevel price side index) (book'.insertPriceLevel price side index) := by
  obtain ⟨pool, hp, rfl⟩ := h.exists_pool
  refine (Lockstep.refl (book.findNext side price)).bind ?_
  rintro next _ - - rfl
  refine (Lockstep.refl _).bind ?_
  rintro ⟨levels, b⟩ _ - - rfl
  dsimp only
  by_cases hbest : next = book.bestOf side
  · rw [if_pos hbest, if_pos (by exact hbest)]
    refine .ok ⟨Renamed.setBestOf ⟨?_, ?_⟩, rfl⟩
    · exact hp
    · rfl
  · rw [if_neg hbest, if_neg (by exact hbest)]
    exact .ok ⟨⟨hp, rfl⟩, rfl⟩

/-- The level of a price is found, or created, in the same block. -/
theorem getPriceLevel_lockstep (h : Renamed τ book book') :
    Lockstep (fun r r' => Renamed τ r.1 r'.1 ∧ r'.2 = r.2)
      (book.getPriceLevel price side createIfMissing)
      (book'.getPriceLevel price side createIfMissing) := by
  have ht : Renamed τ (book.touch price) (book'.touch price) := h.touch
  obtain ⟨pool, hp, rfl⟩ := h.exists_pool
  unfold getPriceLevel
  dsimp only
  by_cases hc : (UnorderedMap.index book.priceLevels (getPriceLevelIndex price)).2 = none ∧
      createIfMissing = true
  · rw [if_pos hc, if_pos (by exact hc)]
    refine (insertPriceLevel_lockstep ht).bind ?_
    rintro r r' - - ⟨hr, hb⟩
    exact .ok ⟨hr, by rw [hb]⟩
  · rw [if_neg hc, if_neg (by exact hc)]
    exact .ok ⟨ht, rfl⟩

/-- A level is unlinked in either book, or with the same fault in neither. -/
theorem unlinkPriceLevel_lockstep (h : Renamed τ book book') :
    Lockstep (Renamed τ) (book.unlinkPriceLevel b) (book'.unlinkPriceLevel b) := by
  obtain ⟨pool, hp, rfl⟩ := h.exists_pool
  unfold unlinkPriceLevel
  rw [show (book.withOrders pool).level = book.level from rfl,
    show (book.withOrders pool).bestOf = book.bestOf from rfl]
  dsimp only
  cases if some b ≠ book.bestOf (book.level b).side then book.bestOf (book.level b).side
    else none with
  | none => exact .ok h.setBestOf
  | some first =>
    refine (Lockstep.refl (book.findPrevious b first)).bind ?_
    rintro previous _ - - rfl
    exact .ok ⟨hp, rfl⟩

/-- A level is removed from either book, or with the same fault from neither. -/
theorem removePriceLevel_lockstep (h : Renamed τ book book') :
    Lockstep (Renamed τ) (book.removePriceLevel b) (book'.removePriceLevel b) := by
  refine (unlinkPriceLevel_lockstep h).bind fun book₁ book₁' _ _ h₁ => ?_
  obtain ⟨pool, hp, rfl⟩ := h₁.exists_pool
  refine (Lockstep.refl (book₁.priceLevelPool.releaseObject b)).bind ?_
  rintro levels _ - - rfl
  exact .ok ⟨hp, rfl⟩

/-- A level that has become empty is so in both books. -/
theorem removeIfEmpty_lockstep (h : Renamed τ book book') :
    Lockstep (Renamed τ) (book.removeIfEmpty b) (book'.removeIfEmpty b) := by
  unfold removeIfEmpty
  rw [h.level]
  split_ifs
  · exact removePriceLevel_lockstep h
  · exact .ok h

/-- **A cancel on a level goes in step:** its search stops at the same order in
either ring, as the renaming takes no other id for that of an order in use. -/
theorem cancelAt_lockstep (orderId : OrderIdT) (h : Renamed τ book book') (hs : Shape book ring) :
    Lockstep (fun r r' => Renamed τ r.1 r'.1 ∧ r'.2 = r.2) (book.cancelAt b orderId)
      (book'.cancelAt b (τ orderId)) := by
  unfold cancelAt
  rw [h.level]
  refine (OrdersPriceLevel.cancel_lockstep h.toHeapRenamed (hs.rings b) (hs.top b)
    (hs.live b)).bind ?_
  rintro ⟨level, heap, o⟩ ⟨_, heap', _⟩ - - ⟨rfl, hh, rfl⟩
  exact .ok ⟨h.edit hh, rfl⟩

/-- An order goes to the end of its level in either book. -/
theorem addAt_lockstep (h : Renamed τ book book') :
    Lockstep (Renamed τ) (book.addAt b o) (book'.addAt b o) := by
  unfold addAt
  rw [h.level]
  refine (OrdersPriceLevel.add_lockstep h.toHeapRenamed).bind ?_
  rintro ⟨level, heap⟩ ⟨_, heap'⟩ - - ⟨rfl, hh⟩
  exact .ok (h.edit hh)

/-- **An order goes to rest in either book,** under the name it has there. -/
theorem rest_lockstep (h : Renamed τ book book') (hsep : Separates τ orderId) :
    Lockstep (Renamed τ) (book.rest orderId clientId nsTimestamp side quantity price)
      (book'.rest (τ orderId) clientId nsTimestamp' side quantity price) := by
  refine (getPriceLevel_lockstep h).bind ?_
  rintro ⟨book₁, b⟩ ⟨book₁', _⟩ - - ⟨h₁, rfl⟩
  obtain ⟨pool, hp, hb⟩ := h₁.exists_pool
  dsimp only at hp hb
  subst hb
  refine (ObjectPool.getObject_lockstep hp ?_ rfl hsep).bind ?_
  · rfl
  · rintro ⟨pool₁, o⟩ ⟨pool₁', _⟩ - - ⟨rfl, hp₁⟩
    refine (Lockstep.refl _).bind ?_
    rintro b _ - - rfl
    exact addAt_lockstep ⟨hp₁, rfl⟩

/-- **A cancel goes in step,** through the map, the ring and the removal of the
level. -/
theorem takeOut_lockstep (h : Renamed τ book book') (hs : Shape book ring) :
    Lockstep (fun r r' => Renamed τ r.1 r'.1 ∧ r'.2 = r.2) (book.takeOut orderId side price)
      (book'.takeOut (τ orderId) side price) := by
  unfold takeOut
  rw [getPriceLevel_eq, getPriceLevel_eq, h.levelAt, ok_bind, ok_bind]
  cases book.levelAt price with
  | none => exact .ok ⟨h.touch, rfl⟩
  | some b =>
    refine (cancelAt_lockstep orderId h.touch hs.touch).bind ?_
    rintro ⟨book₁, o⟩ ⟨book₁', _⟩ - - ⟨h₁, rfl⟩
    exact (removeIfEmpty_lockstep h₁).bind fun _ _ _ _ h₂ => .ok ⟨h₂, rfl⟩

end OrderBook

end CppExchange
