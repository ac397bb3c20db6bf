import CppExchange.Shape

/-!
# Creating and removing levels

What `getPriceLevel`, `insertPriceLevel` and `removePriceLevel` do to the shape
of a book when they return, whatever the state of the chains.  A new level is a
fresh block recorded under its price (`Inserted`); a removed one is unrecorded
and released (`Removed`), and taking it out of its chain writes nothing but
`nextPriceLevel` fields and best pointers (`Relinked`).
-/

namespace CppExchange

open Library

namespace OrderBook

variable {m l : ℕ} {book book' : OrderBook m l} {ring : Fin l → List (Fin m)} {b c : Fin l}
  {o : Fin m} {side : OrderSide} {price p : PriceT}

/-! ### Looking a level up -/

/-- The book after `price_levels[price]`. -/
def touch (book : OrderBook m l) (price : PriceT) : OrderBook m l :=
  { book with priceLevels := (UnorderedMap.index book.priceLevels price).1 }

@[simp] theorem levelAt_touch : (book.touch price).levelAt p = book.levelAt p :=
  UnorderedMap.at?_index _ _ _

theorem touch_eq_self (h : book.levelAt price = some b) : book.touch price = book := by
  unfold touch
  rw [UnorderedMap.index_fst_of_at? h]

theorem mem_touch (h : p ∈ (book.touch price).priceLevels) : p = price ∨ p ∈ book.priceLevels :=
  UnorderedMap.mem_index h

theorem Shape.touch (hs : Shape book ring) : Shape (book.touch price) ring :=
  ⟨hs.rings, hs.top, hs.disjoint, hs.live, hs.price,
    fun p b => by rw [levelAt_touch]; exact hs.levelAt p b, hs.free⟩

theorem Sound.touch (hs : Sound book ring) : Sound (book.touch price) ring :=
  ⟨hs.toShape.touch, hs.nonempty, hs.positive⟩

/-- `getPriceLevel(price, side)`. -/
theorem getPriceLevel_eq :
    book.getPriceLevel price side = .ok (book.touch price, book.levelAt price) := by
  simp [getPriceLevel, getPriceLevelIndex, touch, levelAt, UnorderedMap.index_snd]

/-- `getPriceLevel(price, side, true)` where the price has a level. -/
theorem getPriceLevel_of_levelAt (h : book.levelAt price = some b) :
    book.getPriceLevel price side true = .ok (book, some b) := by
  have ht := touch_eq_self h
  rw [OrderBook.touch] at ht
  rw [levelAt] at h
  simp [getPriceLevel, getPriceLevelIndex, UnorderedMap.index_snd, h, ht]

/-- `getPriceLevel(price, side, true)` where the price has no level. -/
theorem getPriceLevel_of_levelAt_none (h : book.levelAt price = none) :
    book.getPriceLevel price side true =
      (book.touch price).insertPriceLevel price side price >>= fun r => .ok (r.1, some r.2) := by
  rw [levelAt] at h
  simp [getPriceLevel, getPriceLevelIndex, UnorderedMap.index_snd, h, touch]

/-! ### Creating a level -/

/-- What an `insertPriceLevel` that returned did. -/
structure Inserted (book : OrderBook m l) (price : PriceT) (side : OrderSide)
    (book' : OrderBook m l) (b : Fin l) : Prop where
  tickerId : book'.tickerId = book.tickerId
  orderPool : book'.orderPool = book.orderPool
  got : ∃ next, book.priceLevelPool.Got { nextPriceLevel := next, priceLevel := price, side }
    book'.priceLevelPool b
  priceLevels : book'.priceLevels = AList.insert price (some b) book.priceLevels

/-- **What an insertion did,** when it returned: a block is in use for the level
of the price, linked to the one behind it, and no other level has changed. -/
theorem insertPriceLevel_ok (h : book.insertPriceLevel price side price = .ok (book', b)) :
    Inserted book price side book' b := by
  simp only [insertPriceLevel, bind_eq_ok, Prod.exists] at h
  obtain ⟨next, -, pool, b', hget, h⟩ := h
  have hgot := ObjectPool.getObject_ok hget
  split_ifs at h <;> simp only [pure_eq_ok, Except.ok.injEq, Prod.mk.injEq] at h <;>
    obtain ⟨rfl, rfl⟩ := h
  · exact ⟨setBestOf_tickerId, setBestOf_orderPool, ⟨next, by rwa [setBestOf_priceLevelPool]⟩,
      setBestOf_priceLevels⟩
  · exact ⟨rfl, rfl, ⟨next, hgot⟩, rfl⟩

section Inserted

variable (hi : Inserted book price side book' b)
include hi

theorem Inserted.order : book'.order o = book.order o := by
  rw [OrderBook.order, hi.orderPool]
  rfl

theorem Inserted.inUse : book'.priceLevelPool.InUse c ↔ c = b ∨ book.priceLevelPool.InUse c := by
  obtain ⟨next, hg⟩ := hi.got
  exact hg.inUse c

theorem Inserted.cursor : book'.priceLevelPool.CursorOk := by
  obtain ⟨next, hg⟩ := hi.got
  exact hg.cursor

theorem Inserted.fresh : ¬book.priceLevelPool.InUse b := by
  obtain ⟨next, hg⟩ := hi.got
  exact hg.fresh

theorem Inserted.level_of_ne (hc : c ≠ b) : book'.level c = book.level c := by
  obtain ⟨next, hg⟩ := hi.got
  simp [OrderBook.level, hg.get, hc]

/-- The inserted level has no order yet. -/
theorem Inserted.level_self :
    ∃ next, book'.level b = { nextPriceLevel := next, priceLevel := price, side } := by
  obtain ⟨next, hg⟩ := hi.got
  exact ⟨next, by simp [OrderBook.level, hg.get]⟩

/-- Orders stay on the side of their level. -/
theorem Inserted.orderSide (hring : ring b = [])
    (h : ∀ c, ∀ x ∈ ring c, (book.order x).side = (book.level c).side) :
    ∀ c, ∀ x ∈ ring c, (book'.order x).side = (book'.level c).side := by
  intro c x hx
  have hcb : c ≠ b := by
    rintro rfl
    rw [hring] at hx
    exact List.not_mem_nil hx
  rw [hi.order, hi.level_of_ne hcb]
  exact h c x hx

theorem Inserted.levelAt : book'.levelAt p = if p = price then some b else book.levelAt p := by
  rw [OrderBook.levelAt, hi.priceLevels, UnorderedMap.at?_insert]
  rfl

/-- A new level has no orders, so the book keeps its shape with the rings it
had. -/
theorem Inserted.shape (hs : Shape book ring) (hnone : book.levelAt price = none) :
    Shape book' ring := by
  obtain ⟨next, hb⟩ := hi.level_self
  have hring : ring b = [] := hs.free b hi.fresh
  refine ⟨fun c => ?_, fun c => ?_, hs.disjoint, fun c o ho => ?_, fun c o ho => ?_,
    fun p c => ?_, fun c hc => ?_⟩
  · rw [hi.orderPool]
    exact hs.rings c
  · rcases eq_or_ne c b with rfl | hc
    · rw [hb, hring]
      rfl
    · rw [hi.level_of_ne hc, hs.top c]
  · rw [hi.orderPool]
    exact hs.live c o ho
  · rcases eq_or_ne c b with rfl | hc
    · rw [hring] at ho
      exact absurd ho List.not_mem_nil
    · rw [hi.order, hi.level_of_ne hc]
      exact hs.price c o ho
  · rw [hi.levelAt, hi.inUse]
    rcases eq_or_ne c b with rfl | hc
    · have hno : book.levelAt p ≠ some c := fun h => hi.fresh ((hs.levelAt p c).1 h).1
      rw [hb]
      split_ifs with hp
      · simp [hp]
      · simp [hno, Ne.symm hp]
    · rw [hi.level_of_ne hc]
      split_ifs with hp
      · have hno : ¬(book.priceLevelPool.InUse c ∧ (book.level c).priceLevel = p) := fun h => by
          have hc' := (hs.levelAt p c).2 h
          rw [hp, hnone] at hc'
          cases hc'
        simp [hc, Ne.symm hc, hno]
      · simp [hc, hs.levelAt p c]
  · exact hs.free c (fun h => hc (hi.inUse.2 (Or.inr h)))

end Inserted

/-! ### Removing a level -/

/-- A book that differs in the `nextPriceLevel` fields and best pointers only. -/
structure Relinked (book book' : OrderBook m l) : Prop where
  tickerId : book'.tickerId = book.tickerId
  orderPool : book'.orderPool = book.orderPool
  priceLevels : book'.priceLevels = book.priceLevels
  inUse : ∀ c, book'.priceLevelPool.InUse c ↔ book.priceLevelPool.InUse c
  cursor : book.priceLevelPool.CursorOk → book'.priceLevelPool.CursorOk
  level : ∀ c, ∃ next, book'.level c = { book.level c with nextPriceLevel := next }

/-- Pointing a side's best elsewhere relinks. -/
theorem relinked_setBestOf (next : Option (Fin l)) : Relinked book (book.setBestOf side next) where
  tickerId := setBestOf_tickerId
  orderPool := setBestOf_orderPool
  priceLevels := setBestOf_priceLevels
  inUse c := by rw [setBestOf_priceLevelPool]
  cursor h := by rwa [setBestOf_priceLevelPool]
  level c := ⟨(book.level c).nextPriceLevel, by rw [level, setBestOf_priceLevelPool]; rfl⟩

/-- So does changing a level's `next`. -/
theorem relinked_setLevel (next : Option (Fin l)) :
    Relinked book (book.setLevel b { book.level b with nextPriceLevel := next }) where
  tickerId := rfl
  orderPool := rfl
  priceLevels := rfl
  inUse _ := Iff.rfl
  cursor h := h.set
  level c := by
    rw [level_setLevel]
    split_ifs with hc
    · exact ⟨next, by rw [hc]⟩
    · exact ⟨_, rfl⟩

/-- **Unlinking relinks,** and does no more. -/
theorem unlinkPriceLevel_ok (h : book.unlinkPriceLevel b = .ok book') : Relinked book book' := by
  unfold unlinkPriceLevel at h
  dsimp only at h
  split at h
  · obtain rfl := Except.ok.inj h
    exact relinked_setBestOf _
  · obtain ⟨previous, -, h⟩ := bind_eq_ok.1 h
    obtain rfl := Except.ok.inj h
    exact relinked_setLevel _

/-- What a `removePriceLevel` that returned did. -/
structure Removed (book : OrderBook m l) (b : Fin l) (book' : OrderBook m l) : Prop where
  tickerId : book'.tickerId = book.tickerId
  orderPool : book'.orderPool = book.orderPool
  wasInUse : book.priceLevelPool.InUse b
  inUse : ∀ c, book'.priceLevelPool.InUse c ↔ book.priceLevelPool.InUse c ∧ c ≠ b
  cursor : book.priceLevelPool.CursorOk → book'.priceLevelPool.CursorOk
  level : ∀ c, ∃ next, book'.level c = { book.level c with nextPriceLevel := next }
  priceLevels : book'.priceLevels = AList.insert (book.level b).priceLevel none book.priceLevels

/-- The book after `removePriceLevel` took the level out of its chain. -/
def dropLevel (book : OrderBook m l) (b : Fin l) : OrderBook m l :=
  { book with
    priceLevels := AList.insert (book.level b).priceLevel none book.priceLevels
    priceLevelPool := book.priceLevelPool.release b }

/-- Once a level is unlinked, its removal is a matter of the map and the pool. -/
theorem removePriceLevel_eq (h : book.unlinkPriceLevel b = .ok book')
    (hb : book.priceLevelPool.InUse b) : book.removePriceLevel b = .ok (book'.dropLevel b) := by
  have hu := ((unlinkPriceLevel_ok h).inUse b).2 hb
  simp [removePriceLevel, h, ObjectPool.releaseObject_eq hu, getPriceLevelIndex, dropLevel]

/-- A relinked book whose block is given back, and whose entry in the map is
emptied, is a book with the level removed. -/
theorem removed_dropLevel (hr : Relinked book book') (hb : book.priceLevelPool.InUse b) :
    Removed book b (book'.dropLevel b) where
  tickerId := hr.tickerId
  orderPool := hr.orderPool
  wasInUse := hb
  inUse c := ObjectPool.inUse_release.trans (and_congr_left fun _ => hr.inUse c)
  cursor h := (hr.cursor h).release
  level c := by
    obtain ⟨next, hn⟩ := hr.level c
    exact ⟨next, by rw [← hn]; exact ObjectPool.get_release⟩
  priceLevels := by
    obtain ⟨next, hn⟩ := hr.level b
    rw [dropLevel, hn, hr.priceLevels]

/-- **What a removal did,** when it returned. -/
theorem removePriceLevel_ok (h : book.removePriceLevel b = .ok book') : Removed book b book' := by
  have h' := h
  simp only [removePriceLevel, bind_eq_ok] at h'
  obtain ⟨book₁, hu, pool, hrel, -⟩ := h'
  have hr := unlinkPriceLevel_ok hu
  have hb : book.priceLevelPool.InUse b := (hr.inUse b).1 (ObjectPool.releaseObject_ok hrel).1
  rw [removePriceLevel_eq hu hb, Except.ok.injEq] at h
  exact h ▸ removed_dropLevel hr hb

section Removed

variable (hr : Removed book b book')
include hr

theorem Removed.order : book'.order o = book.order o := by
  rw [OrderBook.order, hr.orderPool]
  rfl

theorem Removed.priceLevel : (book'.level c).priceLevel = (book.level c).priceLevel := by
  obtain ⟨next, hn⟩ := hr.level c
  rw [hn]

theorem Removed.topOrder : (book'.level c).topOrder = (book.level c).topOrder := by
  obtain ⟨next, hn⟩ := hr.level c
  rw [hn]

theorem Removed.side_eq : (book'.level c).side = (book.level c).side := by
  obtain ⟨next, hn⟩ := hr.level c
  rw [hn]

theorem Removed.levelAt :
    book'.levelAt p = if p = (book.level b).priceLevel then none else book.levelAt p := by
  rw [OrderBook.levelAt, hr.priceLevels, UnorderedMap.at?_insert]
  rfl

/-- A level without orders is missed by no ring, so the book keeps its shape
without it. -/
theorem Removed.shape (hs : Shape book ring) (hring : ring b = []) : Shape book' ring := by
  refine ⟨fun c => ?_, fun c => ?_, hs.disjoint, fun c o ho => ?_, fun c o ho => ?_,
    fun p c => ?_, fun c hc => ?_⟩
  · rw [hr.orderPool]
    exact hs.rings c
  · rw [hr.topOrder, hs.top c]
  · rw [hr.orderPool]
    exact hs.live c o ho
  · rw [hr.order, hr.priceLevel]
    exact hs.price c o ho
  · rw [hr.levelAt, hr.inUse, hr.priceLevel]
    have hbp := hs.levelAt_of_inUse hr.wasInUse
    split_ifs with hp
    · refine ⟨fun h => (by simp at h), fun ⟨⟨hu, hne⟩, hcp⟩ => absurd ?_ hne⟩
      have hc := (hs.levelAt p c).2 ⟨hu, hcp⟩
      rw [hp, hbp, Option.some.injEq] at hc
      exact hc.symm
    · rw [hs.levelAt p c]
      refine ⟨fun ⟨hu, hcp⟩ => ⟨⟨hu, fun he => hp ?_⟩, hcp⟩, fun ⟨⟨hu, _⟩, hcp⟩ => ⟨hu, hcp⟩⟩
      rw [← hcp, he]
  · by_cases hcb : c = b
    · rw [hcb, hring]
    · exact hs.free c (fun h => hc ((hr.inUse c).2 ⟨h, hcb⟩))

end Removed

end OrderBook

end CppExchange
