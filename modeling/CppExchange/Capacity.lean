import CppExchange.Leaks
import CppExchange.Markets

/-!
# How much an exchange holds

When the exchange comes to its end for want of a block, told from the reference
books alone (`Exchange.returns_iff_of_run`).  A block of `order_pool` is taken by
every order that comes to rest and given back by none, so a book serves one order
less than the pool has blocks in all its life (`Ledger.filed`), however few of
them are at rest at a time.  A level has a block as long as orders rest at its
price, so the prices with orders at rest have to stay below the blocks of
`price_level_pool` (`Ledger.prices`).
-/

namespace CppExchange

open Library

/-! ### Blocks in use -/

namespace ObjectPool

variable {T : Type} {n : ℕ} {pool pool' : ObjectPool T n} {object : T} {p : Fin n}

/-- The number of blocks in use. -/
def used (pool : ObjectPool T n) : ℕ := (Finset.univ.filter pool.InUse).card

theorem used_congr (h : ∀ q, pool'.InUse q ↔ pool.InUse q) : pool'.used = pool.used :=
  congrArg Finset.card (Finset.filter_congr fun q _ => h q)

theorem used_new [Inhabited T] : (new n : ObjectPool T n).used = 0 :=
  Finset.card_eq_zero.2 (Finset.filter_eq_empty_iff.2 fun _ _ => not_inUse_new)

/-- A block of the pool is always left. -/
theorem CursorOk.used_lt (h : pool.CursorOk) : pool.used < n := by
  obtain ⟨hn, hfree⟩ := h
  have hlt : (Finset.univ.filter pool.InUse).card < (Finset.univ : Finset (Fin n)).card := by
    refine Finset.card_lt_card (Finset.filter_ssubset.2 ⟨⟨_, hn⟩, Finset.mem_univ _, hfree⟩)
  rwa [Finset.card_univ, Fintype.card_fin] at hlt

/-- A block handed out is one more block in use. -/
theorem Got.used (h : pool.Got object pool' p) : pool'.used = pool.used + 1 := by
  have hinsert : Finset.univ.filter pool'.InUse = insert p (Finset.univ.filter pool.InUse) := by
    ext q
    simp [h.inUse]
  rw [ObjectPool.used, hinsert, Finset.card_insert_of_notMem (by simp [h.fresh]), ObjectPool.used]

/-- **`getObject` fails** only when it takes the last block. -/
theorem CursorOk.used_of_full (h : pool.CursorOk)
    (hfull : pool.getObject object = .error bufferIsFull) : pool.used + 1 = n := by
  rcases getObject_total h object with ⟨pool', p, hget, -⟩ | ⟨-, p, hp, hall⟩
  · rw [hget] at hfull
    cases hfull
  · have hinsert : Finset.univ = insert p (Finset.univ.filter pool.InUse) := by
      ext q
      by_cases hq : q = p
      · simp [hq]
      · simp [hall q hq]
    have hcard := congrArg Finset.card hinsert
    rw [Finset.card_univ, Fintype.card_fin, Finset.card_insert_of_notMem (by simp [hp])] at hcard
    exact hcard.symm

end ObjectPool

/-! ### Room in a ledger -/

/-- An order comes to rest. -/
def Event.isRested : Event → Bool
  | rested _ => true
  | _ => false

theorem Event.isRested_unnumbered (event : Event) : event.unnumbered.isRested = event.isRested := by
  cases event <;> rfl

namespace Ledger

variable {L L' : Ledger} {events : List Event} {taker maker order : Entry}
  {older newer : List Entry} {op : Op}

/-- The number of orders that came to rest. -/
def filed (L : Ledger) : ℕ := L.events.countP Event.isRested

/-- The prices of the orders at rest. -/
def prices (L : Ledger) : Finset PriceT := (L.resting.map (·.limitPrice)).toFinset

/-- There is a block to spare for every order that ever came to rest, and for
every price that orders rest at. -/
def Fits (m l : ℕ) (L : Ledger) : Prop := L.filed < m ∧ L.prices.card < l

instance (m l : ℕ) (L : Ledger) : Decidable (L.Fits m l) := inferInstanceAs (Decidable (_ ∧ _))

theorem filed_record {event : Event} (h : event.isRested = false) :
    (L.record event).filed = L.filed := by
  simp [filed, record, h]

theorem filed_trade : (L.trade older maker newer taker).filed = L.filed := by
  simp [filed, trade, Event.isRested]

theorem filed_withdraw {clientId : ClientIdT} {side : OrderSide} :
    (L.withdraw older order newer clientId side).filed = L.filed := by
  simp [filed, withdraw, Event.isRested]

theorem filed_rest (h : order.quantity ≠ 0) : (L.rest order).filed = L.filed + 1 := by
  simp [filed, rest, h, Event.isRested]

/-- A sweep brings no order to rest. -/
theorem filed_sweep (n : ℕ) (L : Ledger) (taker : Entry) :
    (Reference.sweep n L taker).1.filed = L.filed := by
  induction n generalizing L taker with
  | zero => rfl
  | succ n ih =>
    rw [Reference.sweep]
    split_ifs
    · rfl
    · cases Reference.best taker L.resting with
      | none => rfl
      | some maker => exact (ih _ _).trans filed_trade

/-- A cancel brings no order to rest. -/
theorem filed_cancel {clientId : ClientIdT} {orderId : OrderIdT} {side : OrderSide}
    {limitPrice : PriceT} :
    (Reference.step L (.cancel clientId orderId side limitPrice)).filed = L.filed := by
  rw [Reference.step]
  split
  · exact filed_withdraw
  · exact filed_record rfl

/-- **The orders that came to rest before** and those that do now. -/
theorem Continues.filed (h : Continues events L L') :
    L'.filed = events.countP Event.isRested + L.filed := by
  have hcount : ∀ es : List Event,
      es.countP Event.isRested = (es.map Event.unnumbered).countP Event.isRested := fun es => by
    rw [List.countP_map]
    exact List.countP_congr fun event _ => by simp [Event.isRested_unnumbered]
  rw [Ledger.filed, hcount, h.events, ← hcount, List.countP_append, Ledger.filed]

theorem Continues.prices (h : Continues events L L') : L'.prices = L.prices :=
  congrArg (fun resting => (resting.map fun order : Entry => order.limitPrice).toFinset) h.resting

end Ledger

namespace OrderBook

variable {m l : ℕ} {book book' : OrderBook m l} {ring : Fin l → List (Fin m)} {side : OrderSide}
  {price : PriceT} {quantity : QuantityT} {orderId : OrderIdT} {clientId : ClientIdT}
  {nsTimestamp : NsTimestampT} {L : Ledger}

/-- **The levels in use** are those of the prices with orders at rest. -/
theorem Holds.used_levels (h : Holds book ring L.resting) :
    book.priceLevelPool.used = L.prices.card := by
  have himage : (Finset.univ.filter book.priceLevelPool.InUse).image
      (fun b => (book.level b).priceLevel) = L.prices := by
    ext p
    simp only [Finset.mem_image, Finset.mem_filter, Finset.mem_univ, true_and, Ledger.prices,
      List.mem_toFinset, List.mem_map]
    constructor
    · rintro ⟨b, hb, rfl⟩
      obtain ⟨o, xs, hring⟩ := List.exists_cons_of_ne_nil (h.nonempty b hb)
      have hmem : (book.order o).entry ∈ atPrice L.resting (book.level b).priceLevel := by
        rw [h.queue _ b (h.levelAt_of_inUse hb), hring]
        exact List.mem_cons_self
      obtain ⟨hmem, hp⟩ := List.mem_filter.1 hmem
      exact ⟨_, hmem, by simpa using hp⟩
    · rintro ⟨order, horder, rfl⟩
      obtain ⟨b, hb⟩ := Option.ne_none_iff_exists'.1 (h.recorded order horder)
      exact ⟨b, (h.levelAt _ b).1 hb⟩
  rw [ObjectPool.used, ← himage, Finset.card_image_of_injOn]
  intro b hb c hc he
  have hb' := h.levelAt_of_inUse (Finset.mem_filter.1 hb).2
  have hc' := h.levelAt_of_inUse (Finset.mem_filter.1 hc).2
  have he' : (book.level b).priceLevel = (book.level c).priceLevel := he
  rw [he', hc'] at hb'
  exact (Option.some.inj hb').symm

/-- An order that comes to rest takes a block of `order_pool`. -/
theorem used_rest (hs : Shape book ring)
    (h : book.rest orderId clientId nsTimestamp side quantity price = .ok book') :
    book'.orderPool.used = book.orderPool.used + 1 := by
  obtain ⟨book₁, b, o, pool, hcr, -, -, hpl⟩ := rest_ok hs h
  have hgot := hpl.got.used
  obtain ⟨heap', rfl⟩ := hpl.edit
  rw [hcr.orderPool] at hgot
  exact hgot

/-- **An order finds no block** only when it takes the last one of `order_pool`,
or its level that of `price_level_pool`. -/
theorem full_of_rest (hs : Shape book ring) (ho : book.orderPool.CursorOk)
    (hl : book.priceLevelPool.CursorOk)
    (h : book.rest orderId clientId nsTimestamp side quantity price = .error bufferIsFull) :
    book.orderPool.used + 1 = m ∨
      book.levelAt price = none ∧ book.priceLevelPool.used + 1 = l := by
  simp only [OrderBook.rest, bind_eq_error, Prod.exists] at h
  rcases h with h | ⟨book₁, r, hget, h | ⟨pool, o, hobj, h | ⟨b, hb, h⟩⟩⟩
  · cases hat : book.levelAt price with
    | some b => simp [getPriceLevel_of_levelAt hat] at h
    | none =>
      refine Or.inr ⟨rfl, ?_⟩
      rw [getPriceLevel_of_levelAt_none hat, insertPriceLevel] at h
      simp only [bind_eq_error] at h
      rcases h with (h | ⟨next, -, h | ⟨⟨pool, b⟩, -, h⟩⟩) | ⟨_, -, h⟩
      · exact absurd h findNext_ne_bufferIsFull
      · exact hl.used_of_full h
      · split_ifs at h <;> cases h
      · cases h
  · obtain ⟨b, -, hcr, -⟩ := getPriceLevel_ok hs hget
    rw [hcr.orderPool] at h
    exact Or.inl (ho.used_of_full h)
  · obtain ⟨b, rfl, -⟩ := getPriceLevel_ok hs hget
    cases h
  · obtain ⟨c, rfl, hcr, hs₁, -⟩ := getPriceLevel_ok hs hget
    obtain rfl := Option.some.inj (deref_eq_ok.1 hb)
    obtain ⟨hcu, hcp⟩ := (hs₁.levelAt _ _).1 hcr.levelAt_self
    obtain ⟨book₂, hok, -⟩ := addAt_fresh hs₁ hcu (ObjectPool.getObject_ok hobj) hcp.symm
    exact absurd (hok.symm.trans h) (by simp)

end OrderBook

/-! ### One call -/

open OrderBook

namespace World

variable {m l k : ℕ} {w w' : World m l} {ring : Fin l → List (Fin m)} {L : Ledger} {op : Op}
  {tickerId : TickerIdT} {resting : List Entry}

/-- A turn of the matching loop takes no block of `order_pool`, and gives none
back. -/
theorem matchBest_used (taker : Entry) {s : World m l × QuantityT} (hs : Sound w.toOrderBook ring)
    (h : matchBest taker.orderId taker.clientId taker.side (w, taker.quantity) = .ok s) :
    s.1.orderPool.used = w.orderPool.used ∧ ∃ ring', Sound s.1.toOrderBook ring' := by
  obtain ⟨b, o, xs, w₁, -, hring, hm, -, hrem, -⟩ := matchBest_ok taker hs h
  have hused : w₁.orderPool.used = w.orderPool.used := by
    obtain ⟨heap', hedit⟩ := hm.shrunk.edit
    rw [hedit]
    exact ObjectPool.used_congr fun _ => Iff.rfl
  refine ⟨?_, _, hs.shrink hm.shrunk hrem⟩
  rcases removeIfEmpty_ok hm.shrunk.shape hrem with ⟨-, he⟩ | ⟨-, hr⟩
  · rw [he, hused]
  · rw [hr.orderPool, hused]

/-- **Matching takes no block from the pool of orders,** and gives none back: an
order that is filled leaves its level, and its block stays in use. -/
theorem matchLoop_used (taker : Entry) {n : ℕ} {s : World m l × QuantityT}
    (hs : Sound w.toOrderBook ring)
    (h : whileLoop .hang (canMatch taker.side taker.limitPrice)
      (matchBest taker.orderId taker.clientId taker.side) n (w, taker.quantity) = .ok s) :
    s.1.orderPool.used = w.orderPool.used := by
  refine (whileLoop_invariant (I := fun s : World m l × QuantityT =>
    s.1.orderPool.used = w.orderPool.used ∧ ∃ ring, Sound s.1.toOrderBook ring) ?_
    ⟨rfl, ring, hs⟩ h).1.1
  rintro ⟨w₁, q⟩ s' ⟨hused, ring₁, hs₁⟩ - hbody
  obtain ⟨hused', hs'⟩ := matchBest_used { taker with quantity := q } hs₁ hbody
  exact ⟨hused'.trans hused, hs'⟩

/-- **An `add`** takes a block for the order that comes to rest, and fails for
want of a block only when the reference does not fit. -/
theorem add_fits (taker : Entry) (h : IsOrdered w.toOrderBook) (hk : Keeps tickerId w L)
    (hside : taker.side ≠ .invalid) (hu : w.orderPool.used = k + L.filed) :
    let L' := Reference.step L
      (.add taker.orderId taker.clientId taker.side taker.quantity taker.limitPrice)
    (∀ w', w.add taker.orderId taker.clientId taker.side taker.quantity taker.limitPrice = .ok w' →
      w'.orderPool.used = k + L'.filed) ∧
    (w.add taker.orderId taker.clientId taker.side taker.quantity taker.limitPrice =
      .error bufferIsFull → ¬(k + L'.filed < m ∧ L'.prices.card < l)) := by
  obtain ⟨⟨w₁, remaining⟩, hloop, hord, hk₁, hleft, -, -⟩ :=
    sweep_total (n := taker.quantity.toNat) (w := w.respond .accepted taker.clientId taker.orderId
      taker.side taker.quantity taker.limitPrice) taker h (hk.accept taker) hside le_rfl
  set L₁ := (Reference.sweep taker.quantity.toNat (L.record (.accepted taker)) taker).1 with hL₁
  have hstep : Reference.step L (.add taker.orderId taker.clientId taker.side taker.quantity
      taker.limitPrice) = L₁.rest { taker with quantity := remaining } := by
    rw [← hleft]
    rfl
  obtain ⟨ring, chain, hbook⟩ := h
  have hused : w₁.orderPool.used = k + L₁.filed := by
    rw [hL₁, Ledger.filed_sweep, Ledger.filed_record rfl, ← hu]
    exact matchLoop_used (w := w.respond .accepted taker.clientId taker.orderId taker.side
      taker.quantity taker.limitPrice) taker hbook.toSound hloop
  dsimp only
  rw [hstep]
  simp only [add, checkForMatch, hloop, ok_bind]
  by_cases hq : remaining = 0
  · have hrest : L₁.rest { taker with quantity := remaining } = L₁ := if_pos hq
    rw [hrest]
    simp only [hq, ne_eq, not_true_eq_false, if_false]
    refine ⟨fun w' hw' => ?_, fun he => by cases he⟩
    obtain rfl := Except.ok.inj hw'
    exact hused
  · obtain ⟨ring₁, chain₁, hbook₁⟩ := hord
    obtain ⟨ring', hh⟩ := hk₁.holds
    have hfiled : (L₁.rest { taker with quantity := remaining }).filed = L₁.filed + 1 :=
      Ledger.filed_rest hq
    simp only [if_pos hq]
    refine ⟨fun w' hw' => ?_, fun he hfits => ?_⟩
    · obtain ⟨book', hrest, hok⟩ := bind_eq_ok.1 hw'
      obtain rfl := Except.ok.inj hok
      rw [hfiled]
      refine (used_rest hbook₁.toShape hrest).trans ?_
      exact congrArg (· + 1) hused
    · rcases bind_eq_error.1 he with he | ⟨book', -, he⟩
      · rcases full_of_rest hbook₁.toShape hbook₁.orderCursor hbook₁.levelCursor he with
          hfull | ⟨hnone, hfull⟩
        · have hfull' : w₁.orderPool.used + 1 = m := hfull
          omega
        · have hlevels : w₁.priceLevelPool.used = L₁.prices.card := hh.used_levels
          have hprices : (L₁.rest { taker with quantity := remaining }).prices =
              insert taker.limitPrice L₁.prices := by
            ext p
            simp [Ledger.prices, Ledger.rest, hq]
          have hnew : taker.limitPrice ∉ L₁.prices := by
            intro hmem
            obtain ⟨order, horder, hp⟩ := List.mem_map.1 (List.mem_toFinset.1 hmem)
            exact hh.recorded order horder (hp ▸ hnone)
          have hfull' : w₁.priceLevelPool.used + 1 = l := hfull
          rw [hprices, Finset.card_insert_of_notMem hnew] at hfits
          omega
      · cases he

/-- A cancel takes no block of `order_pool`, and gives none back. -/
theorem cancel_used {clientId : ClientIdT} {orderId : OrderIdT} {side : OrderSide}
    {limitPrice : PriceT} (hs : Sound w.toOrderBook ring)
    (h : w.cancel clientId orderId side limitPrice = .ok w') :
    w'.orderPool.used = w.orderPool.used := by
  rcases takeOut_cases hs orderId side limitPrice with
    ⟨htake, -⟩ | ⟨b, xs, o, ys, book₁, -, -, -, -, htake, hshrunk, -⟩
  · rw [cancel, htake] at h
    obtain rfl := Except.ok.inj h
    rfl
  · rw [cancel, htake] at h
    obtain ⟨⟨book', r⟩, hrem, hok⟩ := bind_eq_ok.1 h
    obtain ⟨book₂, hrem', hpair⟩ := bind_eq_ok.1 hrem
    obtain ⟨rfl, rfl⟩ := Prod.mk.inj (Except.ok.inj hpair)
    obtain rfl := Except.ok.inj hok
    have hused : book₁.orderPool.used = w.orderPool.used := by
      obtain ⟨heap', rfl⟩ := hshrunk.edit
      exact ObjectPool.used_congr fun _ => Iff.rfl
    rcases removeIfEmpty_ok hshrunk.shape hrem' with ⟨-, rfl⟩ | ⟨-, hr⟩
    · exact hused
    · exact (congrArg ObjectPool.used hr.orderPool).trans hused

/-- **A call** on a book whose blocks are those of the reference leaves it so,
and fails for want of a block only when the reference does not fit. -/
theorem step_fits (h : IsOrdered w.toOrderBook) (hk : Keeps tickerId w L) (hside : op.Sided)
    (hu : w.orderPool.used = k + L.filed) :
    (∀ w', w.step op = .ok w' → w'.orderPool.used = k + (Reference.step L op).filed) ∧
    (w.step op = .error bufferIsFull →
      ¬(k + (Reference.step L op).filed < m ∧ (Reference.step L op).prices.card < l)) := by
  cases op with
  | add orderId clientId side quantity limitPrice =>
    exact add_fits ⟨orderId, clientId, side, quantity, limitPrice⟩ h hk hside hu
  | cancel clientId orderId side limitPrice =>
    obtain ⟨w₁, hcancel, -⟩ := cancel_total clientId orderId side limitPrice h
    obtain ⟨ring, chain, hord⟩ := h
    rw [Ledger.filed_cancel, ← hu]
    refine ⟨fun w' hw' => cancel_used hord.toSound hw', fun he => ?_⟩
    rw [show w.step (.cancel clientId orderId side limitPrice) =
      w.cancel clientId orderId side limitPrice from rfl, hcancel] at he
    cases he

/-- The same of a book with a history: `k` orders came to rest before. -/
theorem step_fits_of_holds (h : IsOrdered w.toOrderBook) (hh : Holds w.toOrderBook ring resting)
    (hside : op.Sided) (hu : w.orderPool.used = k) :
    let L' := Reference.step { resting, nextTradeId := w.nextTradeId } op
    (∀ w', w.step op = .ok w' → w'.orderPool.used = k + L'.filed) ∧
    (w.step op = .error bufferIsFull → ¬(k + L'.filed < m ∧ L'.prices.card < l)) := by
  have hp : Parallel id 0 w.cleared w w.cleared w := Parallel.start .refl (UInt32.add_zero _).symm
  have hsep : ∀ orderId, op.addedId = some orderId → Separates id orderId := fun _ _ _ he => he
  have hlock := step_lockstep hp hh.toSound hsep
  rw [Op.rename_id] at hlock
  have hk : Keeps w.tickerId w.cleared { resting, nextTradeId := w.nextTradeId } :=
    ⟨⟨rfl, rfl, rfl⟩, rfl, ring, hh⟩
  obtain ⟨hok, hfull⟩ := step_fits (w := w.cleared) h hk hside hu
  refine ⟨fun w' hw' => ?_, fun he => hfull (hlock.of_error_right he)⟩
  obtain ⟨w₁, hw₁, hp'⟩ := hlock.of_ok_right hw'
  obtain ⟨pool, hpool, hbook⟩ := hp'.book.exists_pool
  rw [← hok w₁ hw₁, hbook]
  refine ObjectPool.used_congr fun q => ?_
  rw [ObjectPool.InUse, ObjectPool.InUse]
  exact iff_of_eq (congrArg (· = false) (hpool.available q))

end World

/-! ### Runs -/

namespace Exchange

variable {m l : ℕ} {e e₀ e' : Exchange m l} {t : TickerIdT} {request : ClientRequest}
  {requests done : List ClientRequest} {tickerIds : List TickerIdT} {clock : ℕ → NsTimestampT}
  {book : OrderBook m l}

/-- The books refine those of the reference, and the blocks of `order_pool` in
use are those of all the orders that came to rest. -/
structure Stocked (requests : List ClientRequest) (e : Exchange m l) : Prop
    extends Refines requests e where
  used : ∀ t book, e.bookOf t = some book →
    book.orderPool.used = (reference t requests).filed
  absent : ∀ t, e.bookOf t = none → reference t requests = {}

/-- A fresh exchange is stocked: no order ever came to rest, and no block is in
use. -/
theorem Fresh.stocked (h : Fresh e) (hm : 0 < m) (hl : 0 < l) : Stocked [] e where
  toRefines := h.refines hm hl
  used t book hb := by
    obtain rfl := Option.some.inj ((h.books t (mem_of_bookOf hb)).symm.trans hb)
    exact ObjectPool.used_new
  absent _ _ := rfl

/-- **The reference fits** while the exchange is at work. -/
theorem Stocked.fits (h : Stocked requests e) (hm : 0 < m) (hl : 0 < l) (t : TickerIdT) :
    (reference t requests).Fits m l := by
  cases hb : e.bookOf t with
  | none =>
    rw [h.absent t hb]
    exact ⟨hm, hl⟩
  | some book =>
    obtain ⟨-, ⟨ring, chain, hord⟩, ring', hh⟩ := h.book t book hb
    refine ⟨?_, ?_⟩
    · rw [← h.used t book hb]
      exact hord.orderCursor.used_lt
    · rw [← hh.used_levels]
      exact hord.levelCursor.used_lt

/-- **A request** is processed exactly when the reference fits after it. -/
theorem Stocked.step (h : Stocked requests e) (hr : e.Regular request) :
    (∃ e', e.processRequest request = .ok e' ∧ Stocked (requests ++ [request]) e') ∨
      e.processRequest request = .error bufferIsFull ∧
        ∃ t, ¬(reference t (requests ++ [request])).Fits m l := by
  cases hop : request.op e.nextOrderId with
  | none =>
    obtain ⟨hreq, href⟩ := h.toRefines.skip hop
    have hsame : ∀ t, reference t (requests ++ [request]) = reference t requests := fun t => by
      rw [reference_concat, ← h.next, ClientRequest.callOn, hop]
      split_ifs <;> rfl
    refine Or.inl ⟨e, hreq, href, fun t book hb => ?_, fun t hb => ?_⟩
    · rw [hsame, h.used t book hb]
    · rw [hsame, h.absent t hb]
  | some op =>
    obtain ⟨hs, book, hb, hf⟩ := hr op hop
    obtain ⟨-, hord, ring, hh⟩ := h.book _ book hb
    obtain ⟨hused, hfull⟩ := World.step_fits_of_holds (w := e.world book) hord hh hs
      (h.used _ book hb)
    set L := reference request.tickerId requests with hL
    have hself : reference request.tickerId (requests ++ [request]) = Reference.step L op := by
      rw [reference_concat, ← h.next, ClientRequest.callOn, if_pos rfl, hop]
      rfl
    have hother : ∀ t, request.tickerId ≠ t →
        reference t (requests ++ [request]) = reference t requests := fun t ht => by
      rw [reference_concat, ClientRequest.callOn, if_neg ht]
      rfl
    have hcont : Ledger.Continues L.events
        (Reference.step { resting := L.resting, nextTradeId := e.nextTradeId } op)
        (Reference.step L op) := Ledger.Continues.step ⟨rfl, by rw [List.append_nil]⟩
    have hfiled : (Reference.step L op).filed = L.filed + _ := hcont.filed
    rcases World.step_made (w := e.world book) hord hh hs hf with ⟨w, hw, hmade⟩ | he
    · refine Or.inl ⟨_, by rw [processRequest_eq hop hb, hw]; rfl,
        h.toRefines.call hop hb hmade, fun t book' hb' => ?_, fun t hb' => ?_⟩
      · have hbook : (e.withWorld request.tickerId w).bookOf t = some book' := hb'
        rw [bookOf_withWorld] at hbook
        split_ifs at hbook with ht
        · subst ht
          obtain rfl := Option.some.inj hbook
          rw [hself, hfiled]
          exact hused w hw
        · rw [hother t (Ne.symm ht), h.used t book' hbook]
      · have hbook : (e.withWorld request.tickerId w).bookOf t = none := hb'
        rw [bookOf_withWorld] at hbook
        split_ifs at hbook with ht
        rw [hother t (Ne.symm ht), h.absent t hbook]
    · refine Or.inr ⟨by rw [processRequest_eq hop hb, he]; rfl, request.tickerId, ?_⟩
      rw [hself]
      rintro ⟨hm, hl⟩
      rw [hcont.prices] at hl
      rw [hfiled] at hm
      exact hfull he ⟨hm, hl⟩

section Runs

variable (hm : 0 < m) (hl : 0 < l) (h₀ : new m l tickerIds clock = .ok e₀)
  (hr : EachStep processRequest Regular e₀ requests)

include hm hl h₀ hr

/-- **A run keeps the exchange stocked,** as long as each request that opens a
level opens it in front. -/
theorem stocked_of_run (h : e₀.run requests = .ok e) : Stocked requests e := by
  induction requests using List.reverseRecOn generalizing e with
  | nil =>
    obtain rfl := Except.ok.inj h
    exact (new_ok h₀).1.stocked hm hl
  | append_singleton requests request ih =>
    obtain ⟨e₁, he₁, hreq⟩ := foldlM_concat_eq_ok.1 h
    obtain ⟨hrs, hri⟩ := hr.of_concat
    rcases (ih hrs he₁).step (hri e₁ he₁) with ⟨e', he', hst⟩ | ⟨hfull, -⟩
    · obtain rfl := Except.ok.inj (hreq.symm.trans he')
      exact hst
    · rw [hreq] at hfull
      cases hfull

/-- **How much an exchange holds.**  A run of regular requests is processed to
its end exactly when, after each request and for every ticker, fewer orders came
to rest since the start than `order_pool` has blocks, and orders rest at fewer
prices than `price_level_pool` has. -/
theorem returns_iff_of_run : (∃ e, e₀.run requests = .ok e) ↔
    ∀ t done, done <+: requests → (reference t done).Fits m l := by
  induction requests using List.reverseRecOn with
  | nil =>
    refine ⟨fun _ t done hdone => ?_, fun _ => ⟨e₀, rfl⟩⟩
    obtain rfl := List.prefix_nil.1 hdone
    exact (stocked_of_run hm hl h₀ hr rfl).fits hm hl t
  | append_singleton requests request ih =>
    obtain ⟨hrs, hri⟩ := hr.of_concat
    constructor
    · rintro ⟨e, he⟩ t done hdone
      rcases List.prefix_concat_iff.1 hdone with rfl | hdone
      · exact (stocked_of_run hm hl h₀ hr he).fits hm hl t
      · obtain ⟨e₁, he₁, -⟩ := foldlM_concat_eq_ok.1 he
        exact (ih hrs).1 ⟨e₁, he₁⟩ t done hdone
    · intro hfits
      obtain ⟨e₁, he₁⟩ := (ih hrs).2 fun t done hdone =>
        hfits t done (hdone.trans (List.prefix_append _ _))
      rcases (stocked_of_run hm hl h₀ hrs he₁).step (hri e₁ he₁) with ⟨e, he, -⟩ | ⟨-, t, hnot⟩
      · exact ⟨e, foldlM_concat_eq_ok.2 ⟨e₁, he₁, he⟩⟩
      · exact absurd (hfits t _ (List.prefix_refl _)) hnot

end Runs

/-- The requests of the two tickers fit into the pools as they are configured. -/
theorem fits_of_mixedRequests :
    ∃ e₀ e : Exchange maxOrderIds maxPriceLevels, e₀.run mixedRequests = .ok e ∧
      ∀ t done, done <+: mixedRequests → (reference t done).Fits maxOrderIds maxPriceLevels := by
  obtain ⟨e₀, e, h₀, h⟩ := mixedRequests_returns
  have hiff := returns_iff_of_run (by decide) (by decide) h₀ (regular_of_mixedRequests h₀)
  exact ⟨e₀, e, h, hiff.1 ⟨e, h⟩⟩

/-- An offer and the bid that takes it, over and over. -/
def turnover : List ClientRequest :=
  [{ type := .add, tickerId := 1, clientId := 1, side := .sell, quantity := 10, limitPrice := 100 },
   { type := .add, tickerId := 1, clientId := 2, side := .buy, quantity := 10, limitPrice := 100 }]

/-- The third offer finds no block in a pool of three, though nothing is at
rest. -/
example : ∃ e₀, new 3 3 [1] (fun _ => 0) = .ok e₀ ∧
    ∃ e, e₀.run (turnover ++ turnover) = .ok e ∧
      (∀ book ∈ e.bookOf 1, book.resting = []) ∧
      e₀.run (turnover ++ turnover ++ turnover) = .error bufferIsFull := by
  decide +kernel

end Exchange

end CppExchange
