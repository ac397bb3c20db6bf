import CppExchange.Coherence

/-!
# What a book holds on to

In a tight book the blocks in use are those of the orders at rest and of the
levels with orders, and the map has keys only for prices with a level
(`Tight`).  A book stays tight, and runs out of blocks only when it is full, as
long as no order stops resting and no cancel looks up a price without a level
(`tight_of_run`).

The rest is a leak: `order_pool` is never given a block back, and a key is never
taken out of `price_levels`.  One trade is enough to see it (`leakingOps`).
-/

namespace CppExchange

open Library

namespace OrderBook

variable {m l : ℕ} {book book' book₁ : OrderBook m l} {ring : Fin l → List (Fin m)} {b : Fin l}
  {o : Fin m} {side : OrderSide} {price : PriceT} {quantity : QuantityT} {orderId : OrderIdT}
  {clientId : ClientIdT} {nsTimestamp : NsTimestampT}

/-- The levels recorded in `price_levels`. -/
def levels (book : OrderBook m l) : List (Fin l) := book.priceLevels.keys.filterMap book.levelAt

/-- Nothing is held on to but the orders at rest and their levels. -/
structure Tight (book : OrderBook m l) : Prop where
  orders : ∀ o, book.orderPool.InUse o ↔ o ∈ book.resting
  levels : ∀ b, book.priceLevelPool.InUse b ↔ book.ordersOn b ≠ []
  keys : ∀ p ∈ book.priceLevels, book.levelAt p ≠ none

/-- Either pool has more than one block left. -/
def HasRoom (book : OrderBook m l) : Prop :=
  book.resting.length + 1 < m ∧ book.levels.length + 1 < l

instance : Decidable book.HasRoom := inferInstanceAs (Decidable (_ ∧ _))

/-- A sound book whose rings hold all orders in use, and whose keys all lead to
a level. -/
structure Stowed (book : OrderBook m l) (ring : Fin l → List (Fin m)) : Prop
    extends Sound book ring where
  stowed : ∀ o, book.orderPool.InUse o → ∃ b, o ∈ ring b
  keyed : ∀ p ∈ book.priceLevels, book.levelAt p ≠ none
  orderCursor : book.orderPool.CursorOk
  levelCursor : book.priceLevelPool.CursorOk

/-- An empty book has nothing to stow. -/
theorem stowed_new (hm : 0 < m) (hl : 0 < l) (tickerId : TickerIdT) :
    Stowed (new m l tickerId) (fun _ => []) where
  toSound := sound_new m l tickerId
  stowed _ h := absurd h ObjectPool.not_inUse_new
  keyed _ h := absurd h (AList.notMem_empty _)
  orderCursor := ObjectPool.cursorOk_new hm
  levelCursor := ObjectPool.cursorOk_new hl

/-- **A stowed book is tight:** every block that is in use is on a ring, and the
rings are the orders at rest. -/
theorem Stowed.tight (h : Stowed book ring) : Tight book where
  orders o := by
    rw [mem_resting h.toShape]
    exact ⟨h.stowed o, fun ⟨b, hb⟩ => h.live b o hb⟩
  levels b := by
    rw [h.toShape.ordersOn]
    exact ⟨h.nonempty b, fun hne => by_contra fun hb => hne (h.free b hb)⟩
  keys := h.keyed

/-- A level that keeps all its orders. -/
theorem Stowed.refill (h : Stowed book ring) (hs : Shrunk book ring b (ring b) book₁) :
    book₁.removeIfEmpty b = .ok book₁ ∧ Stowed book₁ ring := by
  have htop : (book₁.level b).topOrder ≠ none := by
    rw [hs.shape.top b, Function.update_self, Ne, List.head?_eq_none_iff]
    exact h.nonempty b hs.inUse
  have hrem : book₁.removeIfEmpty b = .ok book₁ := by rw [removeIfEmpty, if_neg htop]
  have hsound := h.toSound.shrink hs hrem
  rw [Function.update_eq_self] at hsound
  obtain ⟨heap', rfl⟩ := hs.edit
  exact ⟨hrem, hsound, h.stowed, h.keyed, h.orderCursor.setHeap, h.levelCursor.set⟩

/-- What is left of an order is stowed. -/
theorem Stowed.rest (h : Stowed book ring) (hq : quantity ≠ 0)
    (hr : book.rest orderId clientId nsTimestamp side quantity price = .ok book') :
    ∃ ring', Stowed book' ring' := by
  obtain ⟨book₁, b, o, pool, hcr, -, -, hpl⟩ := rest_ok h.toShape hr
  have hord : ∀ x, book₁.order x = book.order x := fun x => by
    rw [order, hcr.orderPool]
    rfl
  have hsound : Sound book' (Function.update ring b (ring b ++ [o])) := by
    refine hpl.sound (fun c hcb hc => h.nonempty c (((hcr.inUse c).1 hc).resolve_left hcb))
      (fun c x hx => ?_) hq
    rw [hord]
    exact h.positive c x hx
  refine ⟨_, hsound, fun x hx => ?_, fun p hp => ?_, ?_, ?_⟩
  · have hx' : x = o ∨ book.orderPool.InUse x := by
      rw [← hcr.orderPool, ← hpl.got.inUse]
      obtain ⟨heap', rfl⟩ := hpl.edit
      exact hx
    rcases hx' with rfl | hx'
    · exact ⟨b, by simp⟩
    · obtain ⟨c, hc⟩ := h.stowed x hx'
      rcases eq_or_ne c b with rfl | hcb
      · exact ⟨c, by simp [hc]⟩
      · exact ⟨c, by rwa [Function.update_of_ne hcb]⟩
  · rw [hpl.priceLevels] at hp
    rw [hpl.levelAt]
    rcases eq_or_ne p price with rfl | hne
    · simp [hcr.levelAt_self]
    · rw [hcr.levelAt_of_ne p hne]
      exact h.keyed p ((hcr.keys p hp).resolve_left hne)
  · obtain ⟨heap', rfl⟩ := hpl.edit
    exact hpl.got.cursor.setHeap
  · obtain ⟨heap', rfl⟩ := hpl.edit
    exact (hcr.cursor h.levelCursor).set

/-! ### Room -/

/-- A list with all elements of `Fin n` but one is not much shorter than `n`. -/
theorem le_length_of_mem {n : ℕ} {p : Fin n} (xs : List (Fin n)) (h : ∀ q ≠ p, q ∈ xs) :
    n ≤ xs.length + 1 := by
  have hsub : Finset.univ ⊆ insert p xs.toFinset := fun q _ => by
    by_cases hq : q = p
    · simp [hq]
    · simp [h q hq]
  have hcard := (Finset.card_le_card hsub).trans (Finset.card_insert_le _ _)
  rw [Finset.card_univ, Fintype.card_fin] at hcard
  exact hcard.trans (Nat.succ_le_succ (List.toFinset_card_le xs))

theorem findNext_ne_bufferIsFull : book.findNext side price ≠ .error bufferIsFull := by
  refine whileLoop_ne_error (by simp [bufferIsFull]) (fun next => ?_) (fun next => ?_)
  · cases next <;> simp [isAhead]
  · cases next <;> simp [toNext, bufferIsFull]

/-- With room left, the pools do not run out. -/
theorem Stowed.rest_ne_bufferIsFull (h : Stowed book ring) (hroom : HasRoom book) :
    book.rest orderId clientId nsTimestamp side quantity price ≠ .error bufferIsFull := by
  obtain ⟨hm, hl⟩ := hroom
  have hlevels : ∀ {level : OrdersPriceLevel m l},
      book.priceLevelPool.getObject level ≠ .error bufferIsFull := by
    intro level hget
    rcases ObjectPool.getObject_total h.levelCursor level with ⟨pool, b, hok, -⟩ | ⟨-, p, -, hall⟩
    · rw [hok] at hget
      cases hget
    · have hlen := le_length_of_mem book.levels fun q hq => by
        have hat := h.levelAt_of_inUse (hall q hq)
        exact List.mem_filterMap.2 ⟨_, mem_keys_of_levelAt (by simp [hat]), hat⟩
      omega
  have hget : book.getPriceLevel price side true ≠ .error bufferIsFull := by
    cases hat : book.levelAt price with
    | some b => simp [getPriceLevel_of_levelAt hat]
    | none =>
      rw [getPriceLevel_of_levelAt_none hat, insertPriceLevel]
      simp only [Ne, bind_eq_error]
      rintro ((hn | ⟨next, -, hget | ⟨⟨pool, b⟩, -, h'⟩⟩) | ⟨_, -, h'⟩)
      · exact findNext_ne_bufferIsFull hn
      · exact hlevels hget
      · split_ifs at h' <;> cases h'
      · cases h'
  simp only [OrderBook.rest, Ne, bind_eq_error, Prod.exists]
  rintro (hn | ⟨book₁, r, hok, hobj | ⟨pool, o, hobj, hd | ⟨b, hb, hadd⟩⟩⟩)
  · exact hget hn
  · obtain ⟨b, -, hcr, -⟩ := getPriceLevel_ok h.toShape hok
    rw [hcr.orderPool] at hobj
    rcases ObjectPool.getObject_total h.orderCursor _ with ⟨pool, o, hok', -⟩ | ⟨-, p, -, hall⟩
    · rw [hok'] at hobj
      cases hobj
    · have hlen := le_length_of_mem book.resting fun q hq =>
        (mem_resting h.toShape).2 (h.stowed q (hall q hq))
      omega
  · obtain ⟨b, rfl, -⟩ := getPriceLevel_ok h.toShape hok
    cases hd
  · obtain ⟨c, rfl, hcr, hs₁, -⟩ := getPriceLevel_ok h.toShape hok
    obtain rfl := Option.some.inj (deref_eq_ok.1 hb)
    obtain ⟨hcu, hcp⟩ := (hs₁.levelAt _ _).1 hcr.levelAt_self
    obtain ⟨book₂, hok', -⟩ := addAt_fresh hs₁ hcu (ObjectPool.getObject_ok hobj) hcp.symm
    exact absurd (hok'.symm.trans hadd) (by simp)

end OrderBook

open OrderBook

namespace World

variable {m l : ℕ} {w w' : World m l} {ring : Fin l → List (Fin m)} {taker : Entry} {op : Op}
  {tickerId : TickerIdT} {clock : ℕ → NsTimestampT} {ops : List Op}

/-- The order an incoming order trades with first. -/
def firstMaker (w : World m l) (side : OrderSide) (limitPrice : PriceT) : Option (Fin m) :=
  match w.bestOpposite side with
  | none => none
  | some b =>
    if crosses side limitPrice (w.level b).priceLevel then (w.level b).topOrder else none

/-- The call ends no order at rest, and looks up no price without a level in
vain: an incoming order is smaller than the order it meets first, and a cancel
misses at a price that has a level. -/
def EndsNone (w : World m l) : Op → Prop
  | .add _ _ side quantity limitPrice =>
    ∀ o ∈ w.firstMaker side limitPrice, quantity < (w.order o).quantity
  | .cancel _ orderId _ limitPrice => w.levelAt limitPrice ≠ none ∧
    ∀ o ∈ w.ordersAt limitPrice, (w.order o).orderId ≠ orderId

instance (w : World m l) (op : Op) : Decidable (EndsNone w op) :=
  match op with
  | .add _ _ side _ limitPrice => Option.decidableForallMem (w.firstMaker side limitPrice)
  | .cancel _ orderId _ limitPrice =>
    have : Decidable (∀ o ∈ w.ordersAt limitPrice, (w.order o).orderId ≠ orderId) :=
      List.decidableBAll _ _
    inferInstanceAs (Decidable (w.levelAt limitPrice ≠ none ∧
      ∀ o ∈ w.ordersAt limitPrice, (w.order o).orderId ≠ orderId))

/-- A trade with a larger order takes all of the incoming one. -/
theorem matchBest_of_lt {b : Fin l} {o : Fin m} {xs : List (Fin m)} (taker : Entry)
    (h : Stowed w.toOrderBook ring) (hb : w.bestOpposite taker.side = some b)
    (hr : ring b = o :: xs) (hlt : taker.quantity < (w.order o).quantity) :
    ∃ w₁, matchBest taker.orderId taker.clientId taker.side (w, taker.quantity) = .ok (w₁, 0) ∧
      w₁.bestOpposite taker.side = some b ∧ Stowed w₁.toOrderBook ring := by
  have htop : (w.level b).topOrder = some o := by rw [h.top b, hr, List.head?_cons]
  have hfill : taker.fillQuantity (w.order o).entry = taker.quantity := if_pos (UInt32.le_of_lt hlt)
  obtain ⟨w₁, hmatch, hm⟩ := matchOrder_spec taker h.toSound hr
  have hleft : leftOn w₁ o xs = ring b := by
    have hne : (w₁.order o).quantity ≠ 0 := by
      rw [show (w₁.order o).quantity = _ from congrArg Entry.quantity hm.maker, hfill, Ne,
        quantity_sub_eq_zero]
      exact (UInt32.ne_of_lt hlt).symm
    rw [leftOn, if_neg hne, hr]
  have hshrunk := hm.shrunk
  rw [hleft] at hshrunk
  obtain ⟨hrem, hstowed⟩ := h.refill hshrunk
  have hb₁ : w₁.bestOpposite taker.side = some b := by
    rw [bestOpposite_eq, hshrunk.bestOf, ← bestOpposite_eq, hb]
  refine ⟨w₁, ?_, hb₁, hstowed⟩
  simp only [matchBest, hb, deref_some, ok_bind, htop, hmatch, hfill, hb₁, hrem, pure_eq_ok,
    UInt32.sub_self]
  rfl

/-- An incoming order that ends none trades at most once, with nothing left. -/
theorem checkForMatch_cases (taker : Entry) (h : Stowed w.toOrderBook ring)
    (hc : ∀ o ∈ w.firstMaker taker.side taker.limitPrice, taker.quantity < (w.order o).quantity) :
    w.checkForMatch taker.orderId taker.clientId taker.side taker.quantity taker.limitPrice =
        .ok (w, taker.quantity) ∨
      w.checkForMatch taker.orderId taker.clientId taker.side taker.quantity taker.limitPrice =
        .error .nullDeref ∨
      ∃ w', w.checkForMatch taker.orderId taker.clientId taker.side taker.quantity
        taker.limitPrice = .ok (w', 0) ∧ Stowed w'.toOrderBook ring := by
  unfold checkForMatch
  rcases hb : w.bestOpposite taker.side with - | b
  · exact Or.inl (whileLoop_of_false (by simp [canMatch, hb]))
  · cases hgo : taker.quantity != 0 &&
      crosses taker.side taker.limitPrice (w.level b).priceLevel with
    | false => exact Or.inl (whileLoop_of_false (by simp only [canMatch, hb, hgo]))
    | true =>
      have hcan : canMatch taker.side taker.limitPrice (w, taker.quantity) = .ok true := by
        simp only [canMatch, hb, hgo]
      obtain ⟨hq, hcross⟩ : taker.quantity ≠ 0 ∧
          crosses taker.side taker.limitPrice (w.level b).priceLevel = true := by
        simpa using hgo
      obtain ⟨n, hn⟩ : ∃ n, taker.quantity.toNat = n + 1 :=
        Nat.exists_eq_succ_of_ne_zero fun h0 => hq (UInt32.toNat_inj.1 h0)
      rw [hn]
      cases hr : ring b with
      | nil =>
        have htop : (w.level b).topOrder = none := by rw [h.top b, hr, List.head?_nil]
        refine Or.inr (Or.inl ?_)
        simp [whileLoop, hcan, matchBest, hb, htop, matchOrder]
      | cons o xs =>
        have htop : (w.level b).topOrder = some o := by rw [h.top b, hr, List.head?_cons]
        have hlt : taker.quantity < (w.order o).quantity :=
          hc o (by simp [firstMaker, hb, hcross, htop])
        obtain ⟨w₁, hbody, hb₁, hstowed⟩ := matchBest_of_lt taker h hb hr hlt
        refine Or.inr (Or.inr ⟨w₁, ?_, hstowed⟩)
        rw [whileLoop_of_true hcan hbody]
        exact whileLoop_of_false (by simp [canMatch, hb₁])

/-- **A call that ends no order** leaves nothing behind that is not stowed. -/
theorem step_stowed (h : Stowed w.toOrderBook ring) (hc : EndsNone w op)
    (hs : w.step op = .ok w') : ∃ ring', Stowed w'.toOrderBook ring' := by
  cases op with
  | add orderId clientId side quantity limitPrice =>
    simp only [step, add, bind_eq_ok] at hs
    obtain ⟨⟨w₁, remaining⟩, hmatch, hs⟩ := hs
    rcases checkForMatch_cases ⟨orderId, clientId, side, quantity, limitPrice⟩
      (w := w.respond .accepted clientId orderId side quantity limitPrice) h hc with
      hm | hm | ⟨w₂, hm, hst⟩ <;> rw [hm] at hmatch
    · obtain ⟨rfl, rfl⟩ := Prod.mk.inj (Except.ok.inj hmatch)
      split_ifs at hs with hq
      · obtain ⟨book', hrest, hok⟩ := bind_eq_ok.1 hs
        obtain rfl := Except.ok.inj hok
        exact h.rest hq hrest
      · obtain rfl := Except.ok.inj hs
        exact ⟨ring, h⟩
    · cases hmatch
    · obtain ⟨rfl, rfl⟩ := Prod.mk.inj (Except.ok.inj hmatch)
      obtain rfl := Except.ok.inj hs
      exact ⟨ring, hst⟩
  | cancel clientId orderId side limitPrice =>
    obtain ⟨hat, hmiss⟩ := hc
    obtain ⟨b, hb⟩ := Option.ne_none_iff_exists'.1 hat
    have htake := takeOut_miss side h.toSound fun c hcb x hx => by
      refine hmiss x ?_
      rwa [ordersAt_of_levelAt h.toShape hcb]
    rw [step, cancel, htake, touch_eq_self hb] at hs
    obtain rfl := Except.ok.inj hs
    exact ⟨ring, h⟩

/-- **With room left** a call that ends no order does not run out of blocks. -/
theorem step_ne_bufferIsFull (h : Stowed w.toOrderBook ring) (hc : EndsNone w op)
    (hroom : HasRoom w.toOrderBook) : w.step op ≠ .error bufferIsFull := by
  cases op with
  | add orderId clientId side quantity limitPrice =>
    simp only [step, add, Ne, bind_eq_error]
    rcases checkForMatch_cases ⟨orderId, clientId, side, quantity, limitPrice⟩
      (w := w.respond .accepted clientId orderId side quantity limitPrice) h hc with
      hm | hm | ⟨w₂, hm, -⟩ <;> rw [hm]
    · rintro (he | ⟨s, hs, he⟩)
      · cases he
      · obtain rfl := Except.ok.inj hs
        split_ifs at he with hq
        · cases he
        · rcases bind_eq_error.1 he with he | ⟨book', -, he⟩
          · exact h.rest_ne_bufferIsFull hroom he
          · cases he
    · simp [bufferIsFull]
    · rintro (he | ⟨s, hs, he⟩)
      · cases he
      · obtain rfl := Except.ok.inj hs
        cases he
  | cancel clientId orderId side limitPrice =>
    have htake := takeOut_miss side h.toSound fun c hcb x hx => by
      refine hc.2 x ?_
      rwa [ordersAt_of_levelAt h.toShape hcb]
    rw [step, cancel, htake]
    simp

/-- **Nothing leaks, and nothing runs out while there is room,** in every run of
calls that end no order. -/
theorem tight_of_run (hm : 0 < m) (hl : 0 < l)
    (hc : EachStep step EndsNone (new m l tickerId clock) ops) :
    (∀ w, (new m l tickerId clock).run ops = .ok w → Tight w.toOrderBook) ∧
      (EachStep step (fun w _ => HasRoom w.toOrderBook) (new m l tickerId clock) ops →
        (new m l tickerId clock).run ops ≠ .error bufferIsFull) := by
  have hnew : ∃ ring, Stowed (new m l tickerId clock).toOrderBook ring :=
    ⟨_, stowed_new hm hl tickerId⟩
  constructor
  · intro w hw
    obtain ⟨ring, hst⟩ := foldlM_invariant
      (P := fun w : World m l => ∃ ring, Stowed w.toOrderBook ring) hnew
      (fun _ _ _ ⟨_, h⟩ hc hs => step_stowed h hc hs) hc hw
    exact hst.tight
  · intro hroom
    exact foldlM_ne_error (P := fun w : World m l => ∃ ring, Stowed w.toOrderBook ring) hnew
      (fun _ _ _ ⟨_, h⟩ hc hs => step_stowed h hc.1 hs)
      (fun _ _ ⟨_, h⟩ hc => step_ne_bufferIsFull h hc.1 hc.2) (hc.and hroom)

/-- A run that ends no order. -/
def growingOps : List Op :=
  [.add 1 1 .sell 10 100, .add 2 1 .sell 10 95, .cancel 1 7 .sell 95, .add 3 2 .buy 4 100,
   .add 4 2 .buy 5 90]

/-- The run that ends no order is an instance. -/
theorem tight_of_growingOps :
    (∃ w, (new maxOrderIds maxPriceLevels 3 fun _ => 0).run growingOps = .ok w ∧
        Tight w.toOrderBook) ∧
      (new maxOrderIds maxPriceLevels 3 fun _ => 0).run growingOps ≠ .error bufferIsFull := by
  have hends : EachStep step EndsNone (new maxOrderIds maxPriceLevels 3 fun _ => 0) growingOps := by
    decide +kernel
  obtain ⟨htight, hroom⟩ := tight_of_run (by decide) (by decide) hends
  obtain ⟨w, hw⟩ : ∃ w, (new maxOrderIds maxPriceLevels 3 fun _ => 0).run growingOps = .ok w :=
    exists_of_isOk (by decide +kernel)
  exact ⟨⟨w, hw, htight w hw⟩, hroom (by decide +kernel)⟩

/-- Two orders that fill each other. -/
def leakingOps : List Op := [.add 1 1 .sell 10 100, .add 2 2 .buy 10 100]

/-- The block of the filled order is in use, and its price is a key of the map. -/
theorem not_tight_of_leakingOps :
    ∃ w, (new maxOrderIds maxPriceLevels 3 fun _ => 0).run leakingOps = .ok w ∧
      ¬Tight w.toOrderBook := by
  have hrun : ∃ w, (new maxOrderIds maxPriceLevels 3 fun _ => 0).run leakingOps = .ok w ∧
      w.orderPool.InUse ⟨0, by decide⟩ ∧ w.resting = [] := by
    decide +kernel
  obtain ⟨w, hw, hu, hr⟩ := hrun
  refine ⟨w, hw, fun h => ?_⟩
  have hmem := (h.orders _).1 hu
  rw [hr] at hmem
  exact List.not_mem_nil hmem

end World

end CppExchange
