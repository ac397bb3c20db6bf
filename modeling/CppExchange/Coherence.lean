import CppExchange.Simulation

/-!
# Map, rings and level pool agree

What a reader of a book finds on it after any run that returned, whatever the
state of the chains: `coherent` says that the map, the rings and the pool of
levels describe the same levels, and `perm_resting` that the orders found by
going through the map are the orders of the ledger.
-/

namespace CppExchange

open Library

namespace OrderBook

variable {m l : ℕ} {book : OrderBook m l} {ring : Fin l → List (Fin m)} {b : Fin l}
  {o : Fin m} {price : PriceT} {resting : List Entry}

/-- `price_levels`, the rings of orders and the pool of levels agree. -/
structure Coherent (book : OrderBook m l) : Prop where
  /-- A recorded level is in use, has the price it is recorded under, and its
  orders are at that price and have something left. -/
  recorded : ∀ p b, book.levelAt p = some b → book.priceLevelPool.InUse b ∧
    (book.level b).priceLevel = p ∧ (book.level b).topOrder ≠ none ∧ book.ordersOn b ≠ [] ∧
    ∀ o ∈ book.ordersOn b, (book.order o).limitPrice = p ∧ (book.order o).quantity ≠ 0
  /-- A level in use is recorded under its own price. -/
  inUse : ∀ b, book.priceLevelPool.InUse b → book.levelAt (book.level b).priceLevel = some b
  /-- An available level is empty. -/
  available : ∀ b, ¬book.priceLevelPool.InUse b →
    (book.level b).topOrder = none ∧ book.ordersOn b = []
  /-- The orders on a level form a ring entered at the top order. -/
  ring : ∀ b, RingAt book.orderPool.heap (book.ordersOn b) ∧
    (book.level b).topOrder = (book.ordersOn b).head?
  /-- An order is on one ring at most. -/
  oneRing : ∀ b b' o, o ∈ book.ordersOn b → o ∈ book.ordersOn b' → b = b'
  /-- Two prices do not share a level. -/
  onePrice : ∀ p p' b, book.levelAt p = some b → book.levelAt p' = some b → p = p'

/-- **A sound book is coherent:** maps, links and pools tell of the same levels
and orders. -/
theorem Sound.coherent (hs : Sound book ring) : Coherent book where
  recorded p b hb := by
    obtain ⟨hu, hp⟩ := (hs.levelAt p b).1 hb
    have hne := hs.nonempty b hu
    rw [hs.ordersOn]
    refine ⟨hu, hp, by rwa [hs.top b, Ne, List.head?_eq_none_iff], hne, fun o ho => ?_⟩
    exact ⟨(hs.price b o ho).trans hp, hs.positive b o ho⟩
  inUse b hb := hs.levelAt_of_inUse hb
  available b hb := by
    rw [hs.ordersOn, hs.top b, hs.free b hb]
    exact ⟨rfl, rfl⟩
  ring b := by
    rw [hs.ordersOn]
    exact ⟨hs.rings b, hs.top b⟩
  oneRing b b' o ho ho' := by
    rw [hs.ordersOn] at ho ho'
    exact hs.disjoint b b' o ho ho'
  onePrice p p' b hb hb' := ((hs.levelAt p b).1 hb).2.symm.trans ((hs.levelAt p' b).1 hb').2

/-! ### Going through the map -/

/-- The orders at a price are the ring of the level that is mapped to it. -/
theorem ordersAt_of_levelAt (hs : Shape book ring) (hb : book.levelAt price = some b) :
    book.ordersAt price = ring b := by
  rw [ordersAt, hb]
  exact hs.ordersOn

/-- The orders met at a price are the orders of the list at that price. -/
theorem Holds.ordersAt (h : Holds book ring resting) :
    book.entries (book.ordersAt price) = atPrice resting price := by
  cases hb : book.levelAt price with
  | some b => rw [ordersAt_of_levelAt h.toShape hb, h.queue price b hb]
  | none =>
    rw [OrderBook.ordersAt, hb, atPrice_eq_nil.2]
    · rfl
    · exact fun order ho he => h.recorded order ho (he ▸ hb)

theorem mem_keys_of_levelAt (h : book.levelAt price ≠ none) : price ∈ book.priceLevels.keys := by
  by_contra hk
  rw [← AList.mem_keys, ← AList.lookup_eq_none] at hk
  exact h (by rw [levelAt, UnorderedMap.at?, hk]; rfl)

/-- A resting order is on the level that the map holds for some price. -/
theorem exists_ordersOn_of_resting (ho : o ∈ book.resting) :
    ∃ p b, book.levelAt p = some b ∧ o ∈ book.ordersOn b := by
  obtain ⟨p, -, hp⟩ := List.mem_flatMap.1 ho
  unfold OrderBook.ordersAt at hp
  split at hp
  · exact absurd hp List.not_mem_nil
  · exact ⟨p, _, ‹_›, hp⟩

/-- The orders found through the map are those of the rings. -/
theorem mem_resting (hs : Shape book ring) : o ∈ book.resting ↔ ∃ b, o ∈ ring b := by
  constructor
  · intro ho
    obtain ⟨p, b, -, hob⟩ := exists_ordersOn_of_resting ho
    exact ⟨b, by rwa [← hs.ordersOn]⟩
  · rintro ⟨b, ho⟩
    have hat := hs.levelAt_of_mem ho
    refine List.mem_flatMap.2 ⟨_, mem_keys_of_levelAt (hat ▸ Option.some_ne_none b), ?_⟩
    rwa [ordersAt_of_levelAt hs hat]

/-- A list of orders is its parts at the prices it has. -/
theorem perm_flatMap_atPrice {prices : List PriceT} (hnd : prices.Nodup)
    (h : ∀ order ∈ resting, order.limitPrice ∈ prices) :
    (prices.flatMap (atPrice resting)).Perm resting := by
  induction prices generalizing resting with
  | nil =>
    rw [List.eq_nil_iff_forall_not_mem.2 fun order ho => List.not_mem_nil (h order ho)]
    rfl
  | cons p ps ih =>
    obtain ⟨hp, hnd⟩ := List.nodup_cons.1 hnd
    set others := resting.filter fun order => !decide (order.limitPrice = p) with hothers
    have hsame : ps.flatMap (atPrice resting) = ps.flatMap (atPrice others) := by
      refine List.flatMap_congr fun q hq => ?_
      rw [hothers, atPrice, atPrice, List.filter_filter]
      refine List.filter_congr fun order _ => ?_
      have hpq : q ≠ p := fun he => hp (he ▸ hq)
      by_cases ho : order.limitPrice = q <;> simp [ho, hpq]
    have hrec : (ps.flatMap (atPrice others)).Perm others := by
      refine ih hnd fun order ho => ?_
      obtain ⟨ho, hne⟩ := List.mem_filter.1 ho
      exact (List.mem_cons.1 (h order ho)).resolve_left (by simpa using hne)
    rw [List.flatMap_cons, hsame]
    exact (hrec.append_left _).trans (List.filter_append_perm _ resting)

/-- **The orders found through the map are the orders of the ledger.** -/
theorem Holds.perm_resting (h : Holds book ring resting) :
    (book.entries book.resting).Perm resting := by
  have heq : book.entries book.resting = book.priceLevels.keys.flatMap (atPrice resting) := by
    rw [entries, OrderBook.resting, List.map_flatMap]
    exact List.flatMap_congr fun p _ => h.ordersAt
  rw [heq]
  exact perm_flatMap_atPrice book.priceLevels.keys_nodup
    fun order ho => mem_keys_of_levelAt (h.recorded order ho)

end OrderBook

open OrderBook

namespace World

variable {m l : ℕ} {w : World m l} {tickerId : TickerIdT} {clock : ℕ → NsTimestampT}
  {ops : List Op}

/-- **Map, rings and level pool stay coherent** in every run that returns. -/
theorem coherent_of_run (h : (new m l tickerId clock).run ops = .ok w) :
    Coherent w.toOrderBook := by
  obtain ⟨L, -, hk⟩ := run_refines (keeps_new m l tickerId clock) h
  obtain ⟨ring, hh⟩ := hk.holds
  exact hh.coherent

/-- The sample run, whose book ends with orders on it, is an instance. -/
theorem coherent_of_sampleOps :
    ∃ w, (new maxOrderIds maxPriceLevels 3 fun _ => 0).run sampleOps = .ok w ∧
      Coherent w.toOrderBook := by
  obtain ⟨w, hw, -⟩ := sampleOps_returns
  exact ⟨w, hw, coherent_of_run hw⟩

end World

end CppExchange
