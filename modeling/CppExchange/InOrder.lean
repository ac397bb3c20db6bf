import CppExchange.Chains
import CppExchange.Simulation

/-!
# Books with their chains in order

`Ordered book` adds the two chains to a sound book.  On such a book a turn of the
matching loop returns and leaves an ordered book (`turn_of_canMatch`), and the
level for a resting order is found, unless the pool of levels runs out, as long
as a new one opens in front of its side (`Ordered.getPriceLevel_total`).
`insertPriceLevel` links a level to the one behind it, but the level ahead, if
there is one, is not linked to the new level; opening in front is the case where
there is none.
-/

namespace CppExchange

open Library

namespace OrderBook

variable {m l : ℕ} {book book' book₁ : OrderBook m l} {ring : Fin l → List (Fin m)}
  {chain : OrderSide → List (Fin l)} {b c : Fin l} {o : Fin m} {xs : List (Fin m)}
  {side s : OrderSide} {price p : PriceT}

/-- A sound book with its chains and pool cursors in order. -/
structure Ordered (book : OrderBook m l) (ring : Fin l → List (Fin m))
    (chain : OrderSide → List (Fin l)) : Prop extends Sound book ring, Chains book chain where
  orderSide : ∀ b, ∀ o ∈ ring b, (book.order o).side = (book.level b).side
  orderCursor : book.orderPool.CursorOk
  levelCursor : book.priceLevelPool.CursorOk

/-- `Ordered` for some rings and chains. -/
def IsOrdered (book : OrderBook m l) : Prop := ∃ ring chain, Ordered book ring chain

theorem isOrdered_new {m l : ℕ} (hm : 0 < m) (hl : 0 < l) (tickerId : TickerIdT) :
    IsOrdered (new m l tickerId) :=
  ⟨_, _, sound_new m l tickerId, chains_new m l tickerId, fun _ _ h => absurd h List.not_mem_nil,
    ObjectPool.cursorOk_new hm, ObjectPool.cursorOk_new hl⟩

/-- An entry in the map with no level reorders nothing. -/
theorem Ordered.touch (h : Ordered book ring chain) : Ordered (book.touch price) ring chain where
  toSound := h.toSound.touch
  toChains := h.toChains.congr (fun _ => rfl) (fun _ => rfl) (fun _ => rfl) (fun _ _ => rfl)
    (fun _ => Iff.rfl)
  orderSide := h.orderSide
  orderCursor := h.orderCursor
  levelCursor := h.levelCursor

/-- A level opens in front of its side, or its price has a level already. -/
def Opens (book : OrderBook m l) (side : OrderSide) (price : PriceT) : Prop :=
  (∃ b, book.levelAt price = some b ∧ (book.level b).side = side) ∨ InFront book side price

/-! ### A level with fewer orders -/

section Shrunk

variable (h : Ordered book ring chain) (hs : Shrunk book ring b xs book₁)
include h hs

/-- Taking orders off a level leaves the chains. -/
theorem Ordered.chains_shrunk : Chains book₁ chain := by
  have hlevel : ∀ c, ∃ top, book₁.level c = { book.level c with topOrder := top } :=
    fun _ => hs.level
  refine h.toChains.congr (fun _ => hs.bestOf) (fun c => ?_) (fun c => hs.priceLevel)
    (fun c _ => ?_) (fun c => hs.inUse_iff)
  · obtain ⟨top, ht⟩ := hlevel c
    rw [nextLevel, ht, nextLevel]
  · obtain ⟨top, ht⟩ := hlevel c
    rw [ht]

/-- The orders left on a level are of the side they were of, which is its side. -/
theorem Ordered.orderSide_shrunk :
    ∀ c, ∀ x ∈ Function.update ring b xs c, (book₁.order x).side = (book₁.level c).side := by
  intro c x hx
  have hx' : x ∈ ring c := by
    rcases mem_update_ring.1 hx with ⟨rfl, hxs⟩ | ⟨-, hxc⟩
    · exact hs.subset hxs
    · exact hxc
  obtain ⟨top, ht⟩ := hs.level (c := c)
  rw [hs.side, h.orderSide c x hx', ht]

theorem Ordered.cursors_shrunk : book₁.orderPool.CursorOk ∧ book₁.priceLevelPool.CursorOk := by
  obtain ⟨heap', rfl⟩ := hs.edit
  exact ⟨h.orderCursor.setHeap, h.levelCursor.set⟩

/-- **A level shrunk, and removed when it is left empty,** leaves an ordered
book, and what opens in front on the other side still does. -/
theorem Ordered.shrink : ∃ book', book₁.removeIfEmpty b = .ok book' ∧ IsOrdered book' ∧
    ∀ side ≠ .invalid, side ≠ (book.level b).side → ∀ price,
      Opens book side price → Opens book' side price := by
  have hch := h.chains_shrunk hs
  have hside : ∀ c, (book₁.level c).side = (book.level c).side := fun c => by
    obtain ⟨top, ht⟩ := hs.level (c := c)
    rw [ht]
  by_cases hnil : (book₁.level b).topOrder = none
  · obtain ⟨book', hrem, hu⟩ := hch.remove (hs.inUse_iff.2 hs.inUse)
    have hrem' : book₁.removeIfEmpty b = .ok book' := by rw [removeIfEmpty, if_pos hnil, hrem]
    refine ⟨book', hrem', ⟨_, _, h.toSound.shrink hs hrem', hu.chains, fun c x hx => ?_, ?_,
      hu.cursor (h.cursors_shrunk hs).2⟩, fun side hv hne price ho => ?_⟩
    · rw [hu.order, hu.side_eq]
      exact h.orderSide_shrunk hs c x hx
    · rw [hu.orderPool]
      exact (h.cursors_shrunk hs).1
    · rcases ho with ⟨c, hat, hc⟩ | hf
      · have hcb : c ≠ b := fun he => hne (he ▸ hc.symm)
        have hp : price ≠ (book₁.level b).priceLevel := fun he => by
          rw [he, hs.priceLevel, h.levelAt_of_inUse hs.inUse, Option.some.injEq] at hat
          exact hcb hat.symm
        refine Or.inl ⟨c, ?_, by rw [hu.side_eq, hside, hc]⟩
        rw [hu.levelAt, if_neg hp, hs.levelAt, hat]
      · refine Or.inr fun a ha => ?_
        rw [hu.others side hv (by rwa [hside]), hs.bestOf] at ha
        rw [priceOf, hu.priceLevel, hs.priceLevel]
        exact hf a ha
  · have hrem : book₁.removeIfEmpty b = .ok book₁ := by rw [removeIfEmpty, if_neg hnil]
    refine ⟨book₁, hrem, ⟨_, _, h.toSound.shrink hs hrem, hch, h.orderSide_shrunk hs,
      (h.cursors_shrunk hs).1, (h.cursors_shrunk hs).2⟩, fun side _ _ price ho => ?_⟩
    rcases ho with ⟨c, hat, hc⟩ | hf
    · exact Or.inl ⟨c, by rw [hs.levelAt, hat], by rw [hside, hc]⟩
    · refine Or.inr fun a ha => ?_
      rw [hs.bestOf] at ha
      rw [priceOf, hs.priceLevel]
      exact hf a ha

end Shrunk

/-! ### One resting order -/

/-- A book that lacks nothing but an order on the level `b`. -/
structure Awaits (book : OrderBook m l) (ring : Fin l → List (Fin m))
    (chain : OrderSide → List (Fin l)) (b : Fin l) : Prop
    extends Shape book ring, Chains book chain where
  inUse : book.priceLevelPool.InUse b
  nonempty : ∀ c ≠ b, book.priceLevelPool.InUse c → ring c ≠ []
  positive : ∀ c, ∀ x ∈ ring c, (book.order x).quantity ≠ 0
  orderSide : ∀ b, ∀ o ∈ ring b, (book.order o).side = (book.level b).side
  orderCursor : book.orderPool.CursorOk
  levelCursor : book.priceLevelPool.CursorOk

/-- **A fresh order on the level that awaits it** makes an ordered book. -/
theorem Awaits.place {order : Order m} {pool : ObjectPool (Order m) m}
    (h : Awaits book ring chain b) (hpl : Placed book ring b o order pool book')
    (hq : order.quantity ≠ 0) (hside : order.side = (book.level b).side) : IsOrdered book' := by
  have hsound := hpl.sound h.nonempty h.positive hq
  have hlevel : ∀ c, ∃ top, book'.level c = { book.level c with topOrder := top } :=
    fun _ => hpl.level hside
  have hsame : ∀ c, (book'.level c).side = (book.level c).side := fun c => by
    obtain ⟨top, ht⟩ := hlevel c
    rw [ht]
  have hos := hpl.orderSide hside h.orderSide
  obtain ⟨heap', rfl⟩ := hpl.edit
  refine ⟨_, chain, hsound, h.toChains.congr (fun _ => rfl) (fun c => ?_) (fun c => ?_)
    (fun c _ => hsame c) (fun _ => Iff.rfl), hos, hpl.got.cursor.setHeap, h.levelCursor.set⟩
  · obtain ⟨top, ht⟩ := hlevel c
    rw [nextLevel, ht, nextLevel]
  · obtain ⟨top, ht⟩ := hlevel c
    rw [priceOf, ht, priceOf]

/-- The level at a price that nothing on the other side crosses is on this side. -/
theorem Ordered.side_of_levelAt (h : Ordered book ring chain) (hside : side ≠ .invalid)
    (hun : ∀ c ∈ chain side.opposite, World.crosses side price (book.priceOf c) = false)
    (hat : book.levelAt price = some b) : (book.level b).side = side := by
  obtain ⟨hb, hbp⟩ := (h.levelAt price b).1 hat
  by_contra hne
  have hopp := OrderSide.eq_opposite (h.sided b hb) hside hne
  have hmem : b ∈ chain side.opposite := hopp ▸ h.mem_of_inUse hb
  have hx := hun b hmem
  rw [priceOf, hbp, crosses_self] at hx
  cases hx

/-- **The level for a resting order** is there, or opens in front, or the pool of
levels runs out. -/
theorem Ordered.getPriceLevel_total (h : Ordered book ring chain) (hside : side ≠ .invalid)
    (ho : Opens book side price)
    (hun : ∀ c ∈ chain side.opposite, World.crosses side price (book.priceOf c) = false) :
    (∃ book₁ b chain₁, book.getPriceLevel price side true = .ok (book₁, some b) ∧
        Awaits book₁ ring chain₁ b ∧ (book₁.level b).side = side ∧
        (book₁.level b).priceLevel = price) ∨
      book.getPriceLevel price side true = .error bufferIsFull := by
  cases hat : book.levelAt price with
  | some b =>
    obtain ⟨hb, hbp⟩ := (h.levelAt price b).1 hat
    have hbs := h.side_of_levelAt hside hun hat
    exact Or.inl ⟨book, b, chain, getPriceLevel_of_levelAt hat, ⟨h.toShape, h.toChains, hb,
      fun c _ hc => h.nonempty c hc, h.positive, h.orderSide, h.orderCursor, h.levelCursor⟩, hbs,
      hbp⟩
  | none =>
    have hf : InFront (book.touch price) side price := by
      rcases ho with ⟨b, hb, -⟩ | hf
      · rw [hat] at hb
        cases hb
      · exact hf
    have ht : Ordered (book.touch price) ring chain := h.touch
    rw [getPriceLevel_of_levelAt_none hat]
    rcases insertPriceLevel_of_inFront hside hf ht.levelCursor with ⟨book₁, b, hins, hop⟩ | hins
    · have hring : ring b = [] := h.free b hop.fresh
      have hself : (book₁.level b).side = side ∧ (book₁.level b).priceLevel = price := by
        obtain ⟨next, hb⟩ := hop.level_self
        rw [hb]
        exact ⟨rfl, rfl⟩
      refine Or.inl ⟨book₁, b, _, by rw [hins, ok_bind],
        ⟨hop.shape ht.toShape (by rwa [levelAt_touch]),
          ht.toChains.insertFront hside hop hf hun, hop.inUse.2 (Or.inl rfl), fun c hcb hc => ?_,
          fun c x hx => ?_, fun c x hx => ?_, ?_, hop.cursor⟩, hself⟩
      · exact h.nonempty c ((hop.inUse.1 hc).resolve_left hcb)
      · rw [hop.order]
        exact h.positive c x hx
      · exact hop.orderSide hring h.orderSide c x hx
      · rw [hop.orderPool]
        exact h.orderCursor
    · exact Or.inr (by rw [hins, error_bind])

end OrderBook

/-! ### A turn of the matching loop -/

open OrderBook

namespace World

variable {m l : ℕ} {w : World m l} {ring : Fin l → List (Fin m)}
  {chain : OrderSide → List (Fin l)}

/-- **A turn of the matching loop of an ordered book** returns.  It trades with
the top order of the best level opposite, which is removed when it is left
empty. -/
theorem turn_of_canMatch (taker : Entry) (h : Ordered w.toOrderBook ring chain)
    (hc : canMatch taker.side taker.limitPrice (w, taker.quantity) = .ok true) :
    ∃ b o xs w₁ book', w.bestOf taker.side.opposite = some b ∧ b ∈ chain taker.side.opposite ∧
      ring b = o :: xs ∧
      w.matchOrder taker.orderId taker.clientId taker.side taker.quantity (some o) =
        .ok (w₁, taker.quantity - taker.fillQuantity (w.order o).entry) ∧
      Matched w ring b o xs taker w₁ ∧ w₁.removeIfEmpty b = .ok book' ∧ IsOrdered book' ∧
      (∀ side ≠ .invalid, side ≠ (w.level b).side → ∀ price,
        Opens w.toOrderBook side price → Opens book' side price) ∧
      matchBest taker.orderId taker.clientId taker.side (w, taker.quantity) =
        .ok (w₁.withBook book', taker.quantity - taker.fillQuantity (w.order o).entry) := by
  have hopp : taker.side.opposite ≠ .invalid := OrderSide.opposite_ne_invalid
  obtain ⟨b, hb⟩ : ∃ b, w.bestOpposite taker.side = some b := by
    refine Option.ne_none_iff_exists'.1 fun hnone => ?_
    simp [canMatch, hnone] at hc
  have hbest : w.bestOf taker.side.opposite = some b := by rw [← bestOpposite_eq, hb]
  have hmem : b ∈ chain taker.side.opposite := by
    rw [h.best_eq hopp] at hbest
    exact List.mem_of_mem_head? hbest
  obtain ⟨o, xs, hring⟩ := List.exists_cons_of_ne_nil (h.nonempty b ((h.mem _ hopp b).1 hmem).1)
  obtain ⟨w₁, hmatch, hm⟩ := matchOrder_spec taker h.toSound hring
  obtain ⟨book', hrem, hord, hopens⟩ := h.shrink hm.shrunk
  refine ⟨b, o, xs, w₁, book', hbest, hmem, hring, hmatch, hm, hrem, hord, hopens, ?_⟩
  have hb₁ : w₁.bestOpposite taker.side = some b := by
    rw [bestOpposite_eq, hm.shrunk.bestOf, hbest]
  simp only [matchBest, hb, deref_some, ok_bind, h.top b, hring, List.head?_cons, hmatch, hb₁,
    hrem, pure_eq_ok]

end World

end CppExchange
