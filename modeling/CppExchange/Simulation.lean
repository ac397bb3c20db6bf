import CppExchange.Matching

/-!
# An order book keeps a ledger

Every call that returns does to the storage of a book what a ledger step does to
the ledger, whatever the state of the chains (`step_sim`), and so does every
run (`run_refines`).  The relation (`Keeps`): the orders on the level recorded
under a price are the orders of the ledger at that price, in the same order, and
the queues hold the messages of the history of the ledger.
-/

namespace CppExchange

open Library

namespace OrderBook

variable {m l : ℕ} {book book' : OrderBook m l} {ring ring' : Fin l → List (Fin m)} {b : Fin l}
  {o : Fin m} {xs ys : List (Fin m)} {price : PriceT} {resting resting' : List Entry}

/-- The orders under some pointers. -/
def entries (book : OrderBook m l) (xs : List (Fin m)) : List Entry :=
  xs.map fun o => (book.order o).entry

/-- The orders at a price. -/
def atPrice (resting : List Entry) (price : PriceT) : List Entry :=
  resting.filter fun order => order.limitPrice = price

/-- A sound book whose levels hold the orders `resting`. -/
structure Holds (book : OrderBook m l) (ring : Fin l → List (Fin m)) (resting : List Entry) : Prop
    extends Sound book ring where
  queue : ∀ p b, book.levelAt p = some b → atPrice resting p = book.entries (ring b)
  recorded : ∀ order ∈ resting, book.levelAt order.limitPrice ≠ none

theorem holds_new (m l : ℕ) (tickerId : TickerIdT) :
    Holds (new m l tickerId) (fun _ => []) [] :=
  ⟨sound_new m l tickerId, fun _ _ _ => rfl, fun _ h => absurd h List.not_mem_nil⟩

/-- An order of the list lies on the level recorded under its price. -/
theorem Holds.exists_order {order : Entry} (h : Holds book ring resting) (ho : order ∈ resting) :
    ∃ b, book.levelAt order.limitPrice = some b ∧ ∃ x ∈ ring b, (book.order x).entry = order := by
  obtain ⟨b, hat⟩ := Option.ne_none_iff_exists'.1 (h.recorded order ho)
  have hmem : order ∈ book.entries (ring b) := by
    rw [← h.queue _ b hat]
    simp [atPrice, ho]
  exact ⟨b, hat, List.mem_map.1 hmem⟩

@[simp] theorem atPrice_append : atPrice (resting ++ resting') price =
    atPrice resting price ++ atPrice resting' price := List.filter_append ..

theorem atPrice_cons_self {order : Entry} (h : order.limitPrice = price) :
    atPrice (order :: resting) price = order :: atPrice resting price := by
  simp [atPrice, h]

theorem atPrice_cons_of_ne {order : Entry} (h : order.limitPrice ≠ price) :
    atPrice (order :: resting) price = atPrice resting price := by
  simp [atPrice, h]

theorem atPrice_eq_nil {resting : List Entry} : atPrice resting price = [] ↔
    ∀ order ∈ resting, order.limitPrice ≠ price := by
  simp [atPrice, List.filter_eq_nil_iff]

/-- What is left of an order is at the price of the order. -/
theorem atPrice_left {order : Entry} {fillQuantity : QuantityT} :
    atPrice (order.left fillQuantity) price =
      if order.limitPrice = price then order.left fillQuantity else [] := by
  unfold Entry.left
  split_ifs with h₁ h₂ h₂
  · rfl
  · rfl
  · rw [atPrice_cons_self (by exact h₂)]
    rfl
  · rw [atPrice_cons_of_ne (by exact h₂)]
    rfl

/-- An order of a ring is in the list between the orders before and behind it
at its price. -/
theorem Holds.split (h : Holds book ring resting) (xs : List (Fin m))
    (hb : ring b = xs ++ o :: ys) :
    ∃ older newer, resting = older ++ (book.order o).entry :: newer ∧
      atPrice older (book.order o).limitPrice = book.entries xs ∧
      atPrice newer (book.order o).limitPrice = book.entries ys := by
  have hq := h.queue _ b (h.levelAt_of_mem (o := o) (by simp [hb]))
  rw [hb, entries, List.map_append, List.map_cons, atPrice, List.filter_eq_append_iff] at hq
  obtain ⟨l₁, l₂, rfl, h₁, h₂⟩ := hq
  obtain ⟨l₃, l₄, rfl, h₃, -, h₄⟩ := List.filter_eq_cons_iff.1 h₂
  refine ⟨l₁ ++ l₃, l₄, by simp, ?_, h₄⟩
  rw [atPrice_append, atPrice_eq_nil.2 (show ∀ order ∈ l₃, _ by simpa using h₃), List.append_nil]
  exact h₁

/-- **One price edited.**  At other prices neither the book nor the list
changes. -/
theorem Holds.edit (h : Holds book ring resting) (price : PriceT) (hs : Sound book' ring')
    (hlvl : ∀ p ≠ price, book'.levelAt p = book.levelAt p)
    (hring : ∀ p ≠ price, ∀ b, book.levelAt p = some b →
      book'.entries (ring' b) = book.entries (ring b))
    (hrest : ∀ p ≠ price, atPrice resting' p = atPrice resting p)
    (hself : ∀ b, book'.levelAt price = some b →
      atPrice resting' price = book'.entries (ring' b))
    (hnone : book'.levelAt price = none → atPrice resting' price = []) :
    Holds book' ring' resting' := by
  refine ⟨hs, fun p b hb => ?_, fun order ho => ?_⟩
  · rcases eq_or_ne p price with rfl | hp
    · exact hself b hb
    · rw [hlvl p hp] at hb
      rw [hrest p hp, hring p hp b hb, h.queue p b hb]
  · rcases eq_or_ne order.limitPrice price with hp | hp
    · intro hn
      rw [hp] at hn
      exact atPrice_eq_nil.1 (hnone hn) order ho hp
    · rw [hlvl _ hp]
      have hmem : order ∈ atPrice resting' order.limitPrice := by simp [atPrice, ho]
      rw [hrest _ hp] at hmem
      exact h.recorded order (List.mem_of_mem_filter hmem)

/-- A lookup changes nothing. -/
theorem Holds.touch (h : Holds book ring resting) : Holds (book.touch price) ring resting where
  toSound := h.toSound.touch
  queue p b hb := h.queue p b (by rwa [levelAt_touch] at hb)
  recorded order ho := by
    rw [levelAt_touch]
    exact h.recorded order ho

theorem entries_congr (h : ∀ x ∈ xs, (book'.order x).entry = (book.order x).entry) :
    book'.entries xs = book.entries xs := List.map_congr_left h

variable {book₁ : OrderBook m l}

/-- **A level shrunk, and removed when it is left empty.** -/
theorem Holds.shrink (h : Holds book ring resting) (hs : Shrunk book ring b xs book₁)
    (hrest : ∀ p ≠ (book.level b).priceLevel, atPrice resting' p = atPrice resting p)
    (hself : atPrice resting' (book.level b).priceLevel = book₁.entries xs)
    (hrem : book₁.removeIfEmpty b = .ok book') :
    Holds book' (Function.update ring b xs) resting' := by
  have hat := h.levelAt_of_inUse hs.inUse
  have hother : ∀ p ≠ (book.level b).priceLevel, ∀ c, book.levelAt p = some c →
      book₁.entries (Function.update ring b xs c) = book.entries (ring c) := by
    intro p hp c hc
    have hcb : c ≠ b := fun he => hp (he ▸ ((h.levelAt p c).1 hc).2.symm)
    rw [Function.update_of_ne hcb]
    exact entries_congr fun x hx => hs.entry x fun hx' => hcb (h.disjoint c b x hx hx')
  have hsound := h.toSound.shrink hs hrem
  rcases removeIfEmpty_ok hs.shape hrem with ⟨hne, rfl⟩ | ⟨hnil, hr⟩
  · refine h.edit (book.level b).priceLevel hsound (fun p _ => hs.levelAt p) hother hrest
      (fun c hc => ?_) (fun hn => ?_)
    · rw [hs.levelAt, hat, Option.some.injEq] at hc
      rw [← hc, Function.update_self, hself]
    · rw [hs.levelAt, hat] at hn
      cases hn
  · have hent' : ∀ ys, book'.entries ys = book₁.entries ys := fun ys =>
      entries_congr fun x _ => by rw [hr.order]
    refine h.edit (book.level b).priceLevel hsound (fun p hp => ?_) (fun p hp c hc => ?_)
      hrest (fun c hc => ?_) (fun _ => ?_)
    · rw [hr.levelAt, hs.priceLevel, if_neg hp, hs.levelAt]
    · rw [hent', hother p hp c hc]
    · rw [hr.levelAt, hs.priceLevel, if_pos rfl] at hc
      cases hc
    · rw [Function.update_self] at hnil
      rw [hself, hnil]
      rfl

/-- When no order of `xs` has the id of `order`, and `xs` are the orders of a
list at its price, none of the list has both. -/
theorem ne_price_of_atPrice {older : List Entry} {order : Entry}
    (hxs : ∀ x ∈ xs, (book.order x).orderId ≠ order.orderId)
    (holder : atPrice older order.limitPrice = book.entries xs) :
    ∀ x ∈ older, x.orderId = order.orderId → x.limitPrice ≠ order.limitPrice := by
  intro x hx hid hp
  have hmem : x ∈ book.entries xs := by
    rw [← holder]
    simp [atPrice, hx, hp]
  obtain ⟨y, hy, rfl⟩ := List.mem_map.1 hmem
  exact hxs y hy hid

/-- The orders left when `o` is off its level, which goes when that leaves it
empty. -/
theorem Holds.without {older newer : List Entry} (h : Holds book ring resting)
    (hb : ring b = xs ++ o :: ys) (hs : Shrunk book ring b (xs ++ ys) book₁)
    (hent : ∀ x, (book₁.order x).entry = (book.order x).entry)
    (hsplit : resting = older ++ (book.order o).entry :: newer)
    (holder : atPrice older (book.order o).limitPrice = book.entries xs)
    (hnewer : atPrice newer (book.order o).limitPrice = book.entries ys)
    (hrem : book₁.removeIfEmpty b = .ok book') :
    Holds book' (Function.update ring b (xs ++ ys)) (older ++ newer) := by
  have hprice : (book.order o).limitPrice = (book.level b).priceLevel :=
    h.price b o (by simp [hb])
  refine h.shrink hs (fun p hp => ?_) ?_ hrem
  · have hp' : (book.order o).entry.limitPrice ≠ p := fun he => hp (he ▸ hprice)
    rw [hsplit, atPrice_append, atPrice_append, atPrice_cons_of_ne hp']
  · rw [← hprice, atPrice_append, holder, hnewer]
    refine List.map_append.symm.trans (entries_congr ?_).symm
    exact fun x _ => hent x

end OrderBook

open OrderBook

namespace World

variable {m l : ℕ} {w w' w₁ : World m l} {ring : Fin l → List (Fin m)} {b : Fin l} {o : Fin m}
  {xs : List (Fin m)} {taker : Entry} {L : Ledger} {side : OrderSide} {quantity : QuantityT}
  {tickerId : TickerIdT}

/-- The queues hold the messages of the history. -/
structure Logged (w : World m l) (L : Ledger) : Prop where
  responses : w.responses.map ClientResponse.untimed = L.events.flatMap (Event.responses w.tickerId)
  updates : w.updates.map MarketUpdate.untimed = L.events.flatMap (Event.updates w.tickerId)
  nextTradeId : w.nextTradeId = L.nextTradeId

/-- The book and its queues keep the ledger. -/
structure Keeps (tickerId : TickerIdT) (w : World m l) (L : Ledger) : Prop
    extends Logged w L where
  tickerId_eq : w.tickerId = tickerId
  holds : ∃ ring, Holds w.toOrderBook ring L.resting

theorem Keeps.announced (hk : Keeps tickerId w L) :
    w.responses.map ClientResponse.untimed = L.events.flatMap (Event.responses tickerId) := by
  rw [hk.responses, hk.tickerId_eq]

theorem Keeps.published (hk : Keeps tickerId w L) :
    w.updates.map MarketUpdate.untimed = L.events.flatMap (Event.updates tickerId) := by
  rw [hk.updates, hk.tickerId_eq]

theorem keeps_new (m l : ℕ) (tickerId : TickerIdT) (clock : ℕ → NsTimestampT) :
    Keeps tickerId (new m l tickerId clock) {} :=
  ⟨⟨rfl, rfl, rfl⟩, rfl, _, holds_new m l tickerId⟩

/-! ### Trading -/

/-- The orders left on the level are what is left of the top order, and the
orders behind it. -/
theorem Matched.entries_leftOn (hm : Matched w ring b o xs taker w') (ho : o ∉ xs) :
    w'.entries (leftOn w' o xs) =
      (w.order o).entry.left (taker.fillQuantity (w.order o).entry) ++ w.entries xs := by
  have hxs : w'.entries xs = w.entries xs :=
    entries_congr fun x hx => hm.entry x (fun he => ho (he ▸ hx))
  have hq : (w'.order o).quantity =
      (w.order o).quantity - taker.fillQuantity (w.order o).entry :=
    congrArg Entry.quantity hm.maker
  unfold leftOn Entry.left
  by_cases hfull : (w.order o).entry.quantity = taker.fillQuantity (w.order o).entry
  · rw [if_pos hfull, if_pos (hq.trans (quantity_sub_eq_zero.2 hfull)), hxs, List.nil_append]
  · rw [if_neg hfull, if_neg (fun h0 => hfull (quantity_sub_eq_zero.1 (hq.symm.trans h0))), ← hxs,
      List.singleton_append, entries, List.map_cons, hm.maker]
    rfl

/-- A turn of the matching loop trades with the top order of the best level
opposite, and removes the level when that was its last order. -/
theorem matchBest_ok (taker : Entry) {s : World m l × QuantityT} (hs : Sound w.toOrderBook ring)
    (h : matchBest taker.orderId taker.clientId taker.side (w, taker.quantity) = .ok s) :
    ∃ b o xs w₁, w.bestOpposite taker.side = some b ∧ ring b = o :: xs ∧
      Matched w ring b o xs taker w₁ ∧ s.2 = taker.quantity - taker.fillQuantity (w.order o).entry ∧
      w₁.removeIfEmpty b = .ok s.1.toOrderBook ∧ s.1 = w₁.withBook s.1.toOrderBook := by
  obtain ⟨w', quantity⟩ := s
  simp only [matchBest, bind_eq_ok, deref_eq_ok, Prod.exists] at h
  obtain ⟨b, hb, w₁, q₁, hmatch, b', hb', book', hrem, hok⟩ := h
  obtain ⟨o, xs, hring⟩ : ∃ o xs, ring b = o :: xs := by
    cases hr : ring b with
    | cons o xs => exact ⟨o, xs, rfl⟩
    | nil =>
      rw [hs.top b, hr, List.head?_nil] at hmatch
      cases hmatch
  obtain ⟨w₂, hmatch', hm⟩ := matchOrder_spec taker hs hring
  rw [hs.top b, hring, List.head?_cons, hmatch', Except.ok.injEq, Prod.mk.injEq] at hmatch
  obtain ⟨rfl, rfl⟩ := hmatch
  rw [bestOpposite_eq, hm.shrunk.bestOf, ← bestOpposite_eq, hb, Option.some.injEq] at hb'
  subst hb'
  rw [pure_eq_ok, Except.ok.injEq, Prod.mk.injEq] at hok
  obtain ⟨rfl, rfl⟩ := hok
  exact ⟨b, o, xs, w₂, hb, hring, hm, rfl, hrem, rfl⟩

/-- A trade is seen at the price of its maker alone. -/
theorem atPrice_trade {older newer : List Entry} {maker : Entry} {f : QuantityT} {p : PriceT}
    (hp : p ≠ maker.limitPrice) : atPrice (older ++ maker.left f ++ newer) p =
      atPrice (older ++ maker :: newer) p := by
  simp only [atPrice_append, atPrice_left, if_neg hp.symm, List.append_nil,
    atPrice_cons_of_ne hp.symm]

/-- **A turn of the matching loop is one trade of the ledger,** with the oldest
order at the price of the best level opposite. -/
theorem matchBest_trade {s : World m l × QuantityT} (hk : Keeps tickerId w L)
    (h : matchBest taker.orderId taker.clientId taker.side (w, taker.quantity) = .ok s) :
    ∃ b o older newer, w.bestOpposite taker.side = some b ∧ o ∈ w.ordersOn b ∧
      L.resting = older ++ (w.order o).entry :: newer ∧
      (∀ order ∈ older, order.limitPrice ≠ (w.order o).limitPrice) ∧
      (w.order o).quantity ≠ 0 ∧ (w.order o).limitPrice = (w.level b).priceLevel ∧
      s.2 = taker.quantity - taker.fillQuantity (w.order o).entry ∧
      Keeps tickerId s.1 (L.trade older (w.order o).entry newer taker) := by
  obtain ⟨ring, hh⟩ := hk.holds
  obtain ⟨b, o, xs, w₁, hbest, hring, hm, hq, hrem, hw⟩ := matchBest_ok taker hh.toSound h
  have ho : o ∈ ring b := by simp [hring]
  have hprice : (w.order o).limitPrice = (w.level b).priceLevel := hh.price b o ho
  have hnd : o ∉ xs := (List.nodup_cons.1 (hring ▸ (hh.rings b).nodup)).1
  obtain ⟨older, newer, hsplit, holder, hnewer⟩ := hh.split [] hring
  set maker := (w.order o).entry with hmaker
  have hpm : maker.limitPrice = (w.level b).priceLevel := hprice
  have htick : s.1.tickerId = w.tickerId := (removeIfEmpty_frame hrem).1.trans hm.shrunk.tickerId
  refine ⟨b, o, older, newer, hbest, by rwa [hh.ordersOn], hsplit, atPrice_eq_nil.1 holder,
    hh.positive b o ho, hprice, hq, ⟨?_, ?_, ?_⟩, htick.trans hk.tickerId_eq,
    Function.update ring b (leftOn w₁ o xs), hh.shrink hm.shrunk ?_ ?_ hrem⟩
  · rw [hw, responses_withBook, hm.responses, hk.responses, hk.nextTradeId, toOrderBook_withBook,
      htick, Ledger.trade, List.flatMap_append, List.flatMap_singleton]
  · rw [hw, updates_withBook, hm.updates, hk.updates, hk.nextTradeId, toOrderBook_withBook,
      htick, Ledger.trade, List.flatMap_append, List.flatMap_singleton]
  · rw [hw, nextTradeId_withBook, hm.nextTradeId, hk.nextTradeId]
    rfl
  · intro p hp
    rw [hsplit]
    exact atPrice_trade (hpm ▸ hp)
  · rw [hm.entries_leftOn hnd, ← hmaker, Ledger.trade, ← hpm, atPrice_append, atPrice_append,
      atPrice_left, if_pos rfl]
    rw [show atPrice older maker.limitPrice = [] from holder,
      show atPrice newer maker.limitPrice = w.entries xs from hnewer, List.nil_append]

/-- **A round of the loop is a fill:** the order on top of the best level is the
next maker of the ledger. -/
theorem matchBest_sim (taker : Entry) {s : World m l × QuantityT} (hk : Keeps tickerId w L)
    (hc : canMatch taker.side taker.limitPrice (w, taker.quantity) = .ok true)
    (h : matchBest taker.orderId taker.clientId taker.side (w, taker.quantity) = .ok s) :
    ∃ L', L.Fill taker L' { taker with quantity := s.2 } ∧ Keeps tickerId s.1 L' := by
  obtain ⟨b, o, older, newer, hbest, -, hsplit, hold, hmk, hprice, hq, hk'⟩ := matchBest_trade hk h
  simp only [canMatch, hbest, Except.ok.injEq, Bool.and_eq_true, bne_iff_ne] at hc
  refine ⟨_, ?_, hk'⟩
  rw [hq]
  refine Ledger.Fill.mk hsplit hold hc.1 hmk ?_
  rw [show (w.order o).entry.limitPrice = _ from hprice]
  exact hc.2

/-- **The matching loop is a sequence of trades of the ledger.** -/
theorem checkForMatch_sim {s : World m l × QuantityT} (hk : Keeps tickerId w L)
    (h : w.checkForMatch taker.orderId taker.clientId taker.side taker.quantity taker.limitPrice =
      .ok s) :
    (∃ L', L.Fills taker L' { taker with quantity := s.2 } ∧ Keeps tickerId s.1 L') ∧
      canMatch taker.side taker.limitPrice s = .ok false := by
  refine whileLoop_invariant (I := fun s => ∃ L', L.Fills taker L' { taker with quantity := s.2 } ∧
    Keeps tickerId s.1 L') ?_ ⟨L, .refl L taker, hk⟩ h
  rintro ⟨w₁, quantity⟩ s' ⟨L', hf, hk'⟩ hc hb
  obtain ⟨L'', hfill, hk''⟩ := matchBest_sim { taker with quantity } hk' hc hb
  exact ⟨L'', hf.snoc hfill, hk''⟩

/-! ### Resting -/

/-- **A fresh order goes behind the orders at its price.** -/
theorem holds_placed {book book₁ book' : OrderBook m l} {resting : List Entry} {order : Order m}
    {pool : ObjectPool (Order m) m} (hpl : Placed book₁ ring b o order pool book')
    (hh : Holds book ring resting) (hcr : Created book order.limitPrice book₁ b)
    (hs₁ : Shape book₁ ring) (hback : book.levelAt order.limitPrice = some b ∨
      book.levelAt order.limitPrice = none ∧ ring b = []) (hq : order.quantity ≠ 0) :
    ∃ ring', Holds book' ring' (resting ++ [order.entry]) := by
  have hbp : (book₁.level b).priceLevel = order.limitPrice :=
    ((hs₁.levelAt _ _).1 hcr.levelAt_self).2
  have hord : ∀ x, book₁.order x = book.order x := fun x => by
    rw [OrderBook.order, hcr.orderPool]
    rfl
  have hold : ∀ x ≠ o, (book'.order x).entry = (book.order x).entry := fun x hx => by
    rw [hpl.old x hx, hord]
  have hsound : Sound book' (Function.update ring b (ring b ++ [o])) := by
    refine hpl.sound (fun c hcb hc => hh.nonempty c (((hcr.inUse c).1 hc).resolve_left hcb))
      (fun c x hx => ?_) hq
    rw [hord]
    exact hh.positive c x hx
  refine ⟨_, hh.edit order.limitPrice hsound
    (fun p hp => (hpl.levelAt p).trans (hcr.levelAt_of_ne p hp)) (fun p hp c hc => ?_)
    (fun p hp => ?_) (fun c hc => ?_) (fun hn => ?_)⟩
  · have hcb : c ≠ b := by
      rintro rfl
      rw [← hcr.levelAt_of_ne p hp] at hc
      exact hp (((hs₁.levelAt p c).1 hc).2.symm.trans hbp)
    rw [Function.update_of_ne hcb]
    exact entries_congr fun x hx => hold x fun he => hpl.fresh c (he ▸ hx)
  · have hne : order.entry.limitPrice ≠ p := hp.symm
    rw [atPrice_append, atPrice_cons_of_ne hne]
    simp [atPrice]
  · rw [hpl.levelAt, hcr.levelAt_self, Option.some.injEq] at hc
    subst hc
    have hq' : atPrice resting order.limitPrice = book.entries (ring b) := by
      rcases hback with hat | ⟨hat, hnil⟩
      · exact hh.queue _ b hat
      · rw [hnil, atPrice_eq_nil.2 fun order ho he => hh.recorded order ho (he ▸ hat)]
        rfl
    have hself : order.entry.limitPrice = order.limitPrice := rfl
    rw [Function.update_self, atPrice_append, hq', atPrice_cons_self hself]
    simp only [entries, List.map_append, List.map_cons, List.map_nil]
    congr 1
    · exact List.map_congr_left fun x hx => (hold x fun he => hpl.fresh b (he ▸ hx)).symm
    · exact congrArg (fun e => [e]) hpl.new.symm
  · rw [hpl.levelAt, hcr.levelAt_self] at hn
    cases hn

/-- What is left of an order goes behind the orders at its price. -/
theorem rest_sim {book book' : OrderBook m l} {resting : List Entry} {nsTimestamp : NsTimestampT}
    (hh : Holds book ring resting) (hq : taker.quantity ≠ 0)
    (h : book.rest taker.orderId taker.clientId nsTimestamp taker.side taker.quantity
      taker.limitPrice = .ok book') :
    (∃ ring', Holds book' ring' (resting ++ [taker])) ∧ book'.tickerId = book.tickerId := by
  obtain ⟨book₁, b, o, pool, hcr, hs₁, hback, hpl⟩ := rest_ok hh.toShape h
  exact ⟨holds_placed hpl hh hcr hs₁ hback hq, hpl.tickerId.trans hcr.tickerId⟩

/-- An incoming order is acknowledged. -/
theorem Keeps.accept (hk : Keeps tickerId w L) (taker : Entry) :
    Keeps tickerId (w.respond .accepted taker.clientId taker.orderId taker.side taker.quantity
      taker.limitPrice) (L.record (.accepted taker)) := by
  refine ⟨⟨?_, ?_, hk.nextTradeId⟩, hk.tickerId_eq, hk.holds⟩
  · rw [responses_respond, hk.responses, Ledger.record, List.flatMap_append]
    rfl
  · rw [updates_respond, hk.updates, Ledger.record, List.flatMap_append]
    simp [Event.updates]

/-- Reading the clock changes nothing. -/
theorem Keeps.tick (hk : Keeps tickerId w L) : Keeps tickerId w.getCurrentNsTimestamp.2 L :=
  ⟨⟨hk.responses, hk.updates, hk.nextTradeId⟩, hk.tickerId_eq, hk.holds⟩

/-- An order that is in its queue is published. -/
theorem Keeps.place {book' : OrderBook m l} (hk : Keeps tickerId w L) (taker : Entry)
    (hq : taker.quantity ≠ 0) (hh : ∃ ring', Holds book' ring' (L.resting ++ [taker]))
    (htick : book'.tickerId = w.tickerId) :
    Keeps tickerId ((w.withBook book').publish .add taker.orderId tradeIdInvalid taker.side
      taker.quantity taker.limitPrice) (L.rest taker) := by
  rw [Ledger.rest, if_neg hq]
  refine ⟨⟨?_, ?_, hk.nextTradeId⟩, htick.trans hk.tickerId_eq, hh⟩
  · rw [responses_publish, toOrderBook_publish, toOrderBook_withBook, htick, List.flatMap_append,
      ← hk.responses]
    simp [Event.responses]
  · rw [updates_publish, toOrderBook_publish, toOrderBook_withBook, htick, List.flatMap_append,
      ← hk.updates]
    rfl

/-- What is left of an order rests and is published. -/
theorem Keeps.rested {book' : OrderBook m l} {nsTimestamp : NsTimestampT}
    (hk : Keeps tickerId w L) (taker : Entry) (hq : taker.quantity ≠ 0)
    (h : w.rest taker.orderId taker.clientId nsTimestamp taker.side taker.quantity
      taker.limitPrice = .ok book') :
    Keeps tickerId ((w.withBook book').publish .add taker.orderId tradeIdInvalid taker.side
      taker.quantity taker.limitPrice) (L.rest taker) := by
  obtain ⟨ring, hh⟩ := hk.holds
  obtain ⟨hh', htick⟩ := rest_sim hh hq h
  exact hk.place taker hq hh' htick

/-- **An `add` is an `add` of the ledger.** -/
theorem add_sim (taker : Entry) (hk : Keeps tickerId w L)
    (h : w.add taker.orderId taker.clientId taker.side taker.quantity taker.limitPrice = .ok w') :
    ∃ L', L.Step (.add taker.orderId taker.clientId taker.side taker.quantity taker.limitPrice)
      L' ∧ Keeps tickerId w' L' := by
  simp only [add, bind_eq_ok] at h
  obtain ⟨⟨w₁, remaining⟩, hmatch, h⟩ := h
  obtain ⟨⟨L₁, hfills, hk₁⟩, -⟩ := checkForMatch_sim (hk.accept taker) hmatch
  refine ⟨_, .add hfills, ?_⟩
  split_ifs at h with hq
  · obtain ⟨book', hrest, hok⟩ := bind_eq_ok.1 h
    obtain rfl := Except.ok.inj hok
    exact hk₁.tick.rested { taker with quantity := remaining } hq hrest
  · obtain rfl := Except.ok.inj h
    rw [Ledger.rest, if_pos (by simpa using hq)]
    exact hk₁

/-! ### Cancelling -/

/-- **A `cancel` is a `cancel` of the ledger.** -/
theorem cancel_sim {clientId : ClientIdT} {orderId : OrderIdT} {limitPrice : PriceT}
    (hk : Keeps tickerId w L) (h : w.cancel clientId orderId side limitPrice = .ok w') :
    ∃ L', L.Step (.cancel clientId orderId side limitPrice) L' ∧ Keeps tickerId w' L' := by
  obtain ⟨ring, hh⟩ := hk.holds
  rcases takeOut_cases hh.toSound orderId side limitPrice with
    ⟨htake, hmiss⟩ | ⟨b, xs, o, ys, book₁, hat, hring, hxs, ho, htake, hshrunk, hent⟩
  · rw [cancel, htake, ok_bind] at h
    obtain rfl := Except.ok.inj h
    refine ⟨_, .cancelMiss clientId side (fun order ho he hp => ?_), ⟨?_, ?_, hk.nextTradeId⟩,
      hk.tickerId_eq, ring, ?_⟩
    · obtain ⟨b, hat, x, hx, rfl⟩ := hh.exists_order ho
      exact hmiss b (hp ▸ hat) x hx he
    · rw [responses_respond, responses_withBook, toOrderBook_withBook, hk.responses,
        Ledger.record, List.flatMap_append]
      rfl
    · rw [updates_respond, updates_withBook, hk.updates, Ledger.record, List.flatMap_append]
      exact (List.append_nil _).symm
    · exact hh.touch
  · obtain ⟨older, newer, hsplit, holder, hnewer⟩ := hh.split _ hring
    obtain ⟨hb, hbp⟩ := (hh.levelAt _ _).1 hat
    have hmem : o ∈ ring b := by simp [hring]
    have hprice : (w.order o).limitPrice = limitPrice := (hh.price b o hmem).trans hbp
    subst ho hprice
    have hfirst : ∀ x ∈ older, x.orderId = (w.order o).entry.orderId →
        x.limitPrice ≠ (w.order o).entry.limitPrice := ne_price_of_atPrice hxs holder
    rw [cancel, htake] at h
    simp only [bind_assoc, ok_bind, bind_eq_ok] at h
    obtain ⟨book', hrem, h⟩ := h
    obtain ⟨htick, hord⟩ := removeIfEmpty_frame hrem
    rw [hshrunk.tickerId] at htick
    have hquantity : (book'.order o).quantity = (w.order o).quantity := by
      rw [hord]
      exact congrArg Entry.quantity (hent o)
    have hh' := hh.without hring hshrunk hent hsplit holder hnewer hrem
    obtain rfl := Except.ok.inj h
    refine ⟨_, .cancelHit clientId side hsplit hfirst, ⟨?_, ?_, hk.nextTradeId⟩,
      htick.trans hk.tickerId_eq, _, hh'⟩
    · rw [Ledger.withdraw, List.flatMap_append, List.flatMap_singleton]
      simp only [pushUpdate, pushResponse, getCurrentNsTimestamp, toOrderBook_withBook, htick,
        hquantity, responses_withBook, List.map_append, hk.responses]
      rfl
    · rw [Ledger.withdraw, List.flatMap_append, List.flatMap_singleton]
      simp only [pushUpdate, pushResponse, getCurrentNsTimestamp, toOrderBook_withBook, htick,
        hquantity, updates_withBook, List.map_append, hk.updates]
      rfl

/-! ### Calls and runs -/

/-- **One call is one step of the ledger.** -/
theorem step_sim {op : Op} (hk : Keeps tickerId w L) (h : w.step op = .ok w') :
    ∃ L', L.Step op L' ∧ Keeps tickerId w' L' := by
  cases op with
  | add orderId clientId side quantity limitPrice =>
    exact add_sim ⟨orderId, clientId, side, quantity, limitPrice⟩ hk h
  | cancel clientId orderId side limitPrice => exact cancel_sim hk h

/-- **A run is a run of the ledger,** from any state that keeps one. -/
theorem run_refines {ops : List Op} (hk : Keeps tickerId w L) (h : w.run ops = .ok w') :
    ∃ L', Runs Ledger.Step L ops L' ∧ Keeps tickerId w' L' :=
  foldlM_refines hk (fun _ _ _ _ hk h => step_sim hk h) h

/-- A run with a sweep over two levels, a partial fill and cancels of all kinds,
which leaves two bids at one price and offers at two. -/
def sampleOps : List Op :=
  [.add 1 1 .sell 10 100, .add 2 1 .sell 10 95, .add 3 1 .sell 5 95, .add 4 7 .buy 12 100,
   .cancel 1 3 .sell 95, .cancel 1 3 .sell 95, .add 5 7 .buy 30 101, .add 6 1 .sell 4 110,
   .add 7 1 .sell 2 105, .add 8 9 .buy 5 101, .add 9 1 .sell 3 105, .cancel 1 7 .sell 105]

/-- The run returns, with the pools of the source, and four orders are at rest. -/
theorem sampleOps_returns :
    ∃ w, (new maxOrderIds maxPriceLevels 3 fun _ => 0).run sampleOps = .ok w ∧
      w.resting.length = 4 := by
  decide +kernel

end World

end CppExchange
