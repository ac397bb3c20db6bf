import CppExchange.Books
import CppExchange.Library.Readings

/-!
# Timestamps

Every call reads the clock as it goes, for the messages it pushes and for the
order it puts on a level.  So the messages of each queue carry readings of the
clock in the order in which they were pushed, and the orders on a level carry
them from the top order on: what leaves a level is taken out of the list of its
timestamps, and what comes to it carries a later reading than any order that is
there (`World.step_inTime`).

When the clock never goes back, then neither do the timestamps of a queue, and
the time priority of the orders on a level, which the book keeps by their place in
a ring, is the priority of their timestamps (`Exchange.inTime_of_run`).
-/

namespace CppExchange

open Library OrderBook

/-! ### Timestamps of the orders -/

namespace OrdersPriceLevel

variable {m l : ℕ} {level level' : OrdersPriceLevel m l} {heap heap' : Fin m → Order m}
  {orderId : OrderIdT} {o x : Fin m} {r : Option (Fin m)}

/-- **`add`** writes nothing but links into the orders. -/
theorem body_of_add (h : level.add heap o = .ok (level', heap')) :
    (heap' x).body = (heap x).body := by
  unfold add at h
  cases ht : level.topOrder with
  | none =>
    rw [ht, Except.ok.injEq, Prod.mk.injEq] at h
    rw [← h.2, body_setPrevious, body_setNext]
  | some top =>
    simp only [ht, bind_eq_ok, pure_eq_ok, Except.ok.injEq, Prod.mk.injEq] at h
    obtain ⟨previous, -, -, rfl⟩ := h
    simp only [body_setPrevious, body_setNext]

/-- **`cancel`** writes nothing but links into the orders. -/
theorem body_of_cancel (h : level.cancel heap orderId = .ok (level', heap', r)) :
    (heap' x).body = (heap x).body := by
  simp only [cancel, bind_eq_ok] at h
  obtain ⟨top, -, o, -, h⟩ := h
  split_ifs at h
  · simp only [unlink, bind_eq_ok, pure_eq_ok, Except.ok.injEq, Prod.exists, Prod.mk.injEq] at h
    obtain ⟨topOrder, heap₁, ⟨previous, -, next, -, -, rfl⟩, -, rfl, -⟩ := h
    simp only [body_setPrevious, body_setNext]
  · simp only [pure_eq_ok, Except.ok.injEq, Prod.mk.injEq] at h
    rw [h.2.1]

end OrdersPriceLevel

namespace OrderBook

variable {m l : ℕ} {book book' book₁ : OrderBook m l} {ring : Fin l → List (Fin m)}
  {b : Fin l} {o x : Fin m} {r : Option (Fin m)} {side : OrderSide} {price limitPrice : PriceT}
  {orderId : OrderIdT} {clientId : ClientIdT} {quantity : QuantityT} {nsTimestamp : NsTimestampT}
  {clock : ℕ → NsTimestampT} {k : ℕ}

/-- The timestamps of orders. -/
def timestamps (book : OrderBook m l) (xs : List (Fin m)) : List NsTimestampT :=
  xs.map fun o => (book.order o).nsTimestamp

theorem timestamps_append {xs ys : List (Fin m)} :
    book.timestamps (xs ++ ys) = book.timestamps xs ++ book.timestamps ys := List.map_append

/-- The orders of the book have the timestamps they had. -/
def SameTimes (book book' : OrderBook m l) : Prop :=
  ∀ o, (book'.order o).nsTimestamp = (book.order o).nsTimestamp

theorem SameTimes.trans (h : SameTimes book book₁) (h' : SameTimes book₁ book') :
    SameTimes book book' := fun o => (h' o).trans (h o)

theorem SameTimes.timestamps (h : SameTimes book book') (xs : List (Fin m)) :
    book'.timestamps xs = book.timestamps xs := List.map_congr_left fun o _ => h o

/-- A fill changes a quantity and no timestamp. -/
theorem sameTimes_fillOrder : SameTimes book (book.fillOrder o quantity) := fun x => by
  rw [fillOrder, order_setOrders, Function.update_apply]
  split_ifs with hx
  · rw [hx]
  · rfl

/-- Finding or creating a level touches no order. -/
theorem sameTimes_getPriceLevel {r : Option (Fin l)}
    (h : book.getPriceLevel price side = .ok (book', r)) :
    SameTimes book book' := by
  rw [getPriceLevel_eq, Except.ok.injEq, Prod.mk.injEq] at h
  rw [← h.1]
  exact fun _ => rfl

/-- Cancelling within a ring relinks orders and redates none. -/
theorem sameTimes_cancelAt (h : book.cancelAt b orderId = .ok (book', r)) :
    SameTimes book book' := by
  simp only [cancelAt, bind_eq_ok, pure_eq_ok, Except.ok.injEq, Prod.exists, Prod.mk.injEq] at h
  obtain ⟨level, heap, r', hc, rfl, rfl⟩ := h
  exact fun x => eq_of_body Order.nsTimestamp (fun _ => rfl) (OrdersPriceLevel.body_of_cancel hc)

theorem sameTimes_addAt (h : book.addAt b o = .ok book') : SameTimes book book' := by
  simp only [addAt, bind_eq_ok, pure_eq_ok, Except.ok.injEq, Prod.exists] at h
  obtain ⟨level, heap, hadd, rfl⟩ := h
  exact fun x => eq_of_body Order.nsTimestamp (fun _ => rfl) (OrdersPriceLevel.body_of_add hadd)

theorem sameTimes_removeIfEmpty (h : book.removeIfEmpty b = .ok book') : SameTimes book book' :=
  fun o => congrArg Order.nsTimestamp ((removeIfEmpty_frame h).2 o)

/-- **A cancel redates nothing,** whether it finds the order or not, and whether
or not the level goes with it. -/
theorem sameTimes_takeOut (h : book.takeOut orderId side limitPrice = .ok (book', r)) :
    SameTimes book book' := by
  simp only [takeOut, bind_eq_ok, Prod.exists] at h
  obtain ⟨book₁, level, hget, h⟩ := h
  have h₁ := sameTimes_getPriceLevel hget
  cases level with
  | none =>
    simp only [pure_eq_ok, Except.ok.injEq, Prod.mk.injEq] at h
    rwa [← h.1]
  | some b =>
    simp only [bind_eq_ok, pure_eq_ok, Except.ok.injEq, Prod.exists, Prod.mk.injEq] at h
    obtain ⟨book₂, r', hc, book₃, hrem, rfl, -⟩ := h
    exact h₁.trans ((sameTimes_cancelAt hc).trans (sameTimes_removeIfEmpty hrem))

/-- The orders of each level carry readings of the clock before the reading `k`,
in order. -/
def Aged (clock : ℕ → NsTimestampT) (k : ℕ) (book : OrderBook m l) : Prop :=
  ∃ ring, Sound book ring ∧ ∀ b, (book.timestamps (ring b)).Sublist (readings clock k)

theorem aged_new (tickerId : TickerIdT) : Aged clock k (OrderBook.new m l tickerId) :=
  ⟨fun _ => [], sound_new m l tickerId, fun _ => List.nil_sublist _⟩

theorem Aged.later {k' : ℕ} (h : Aged clock k book) (hk : k ≤ k') : Aged clock k' book := by
  obtain ⟨ring, hs, hage⟩ := h
  exact ⟨ring, hs, fun b => (hage b).trans (readings_sublist hk)⟩

/-- Orders may leave their levels. -/
theorem Aged.fewer {ring' : Fin l → List (Fin m)} (hage : ∀ b, (book.timestamps (ring b)).Sublist
    (readings clock k)) (hs : Sound book' ring') (hfewer : ∀ b, (ring' b).Sublist (ring b))
    (hsame : SameTimes book book') : Aged clock k book' := by
  refine ⟨ring', hs, fun b => ?_⟩
  rw [hsame.timestamps]
  exact ((hfewer b).map _).trans (hage b)

/-- **What is left of an order** goes behind the others on its level, with a
later reading than theirs. -/
theorem Aged.rest (h : Aged clock k book) (hq : quantity ≠ 0)
    (hrest : book.rest orderId clientId (clock k) side quantity limitPrice = .ok book') :
    Aged clock (k + 1) book' := by
  obtain ⟨ring, hs, hage⟩ := h
  simp only [OrderBook.rest, bind_eq_ok, Prod.exists] at hrest
  obtain ⟨book₁, r, hget, pool, o, hobj, b', hb', hadd⟩ := hrest
  obtain ⟨b, rfl, hcr, hs₁, hback⟩ := getPriceLevel_ok hs.toShape hget
  obtain rfl := Option.some.inj (deref_eq_ok.1 hb')
  obtain ⟨hb, hbp⟩ := (hs₁.levelAt _ _).1 hcr.levelAt_self
  have hgot := ObjectPool.getObject_ok hobj
  obtain ⟨book₂, hadd', hpl⟩ := addAt_fresh hs₁ hb hgot hbp.symm
  obtain rfl := Except.ok.inj (hadd.symm.trans hadd')
  have hord : ∀ x, book₁.order x = book.order x := fun x => by
    rw [OrderBook.order, hcr.orderPool]
    rfl
  have htime : ∀ x, (book'.order x).nsTimestamp =
      if x = o then clock k else (book.order x).nsTimestamp := fun x => by
    rw [sameTimes_addAt hadd x, OrderBook.order, hgot.get, apply_ite Order.nsTimestamp,
      ← hord]
    rfl
  have hold : ∀ c, book'.timestamps (ring c) = book.timestamps (ring c) := fun c =>
    List.map_congr_left fun x hx => by
      rw [htime, if_neg]
      rintro rfl
      exact hpl.fresh c hx
  refine ⟨_, hpl.sound (fun c hcb hc => hs.nonempty c (((hcr.inUse c).1 hc).resolve_left hcb))
    (fun c x hx => ?_) hq, fun c => ?_⟩
  · rw [hord]
    exact hs.positive c x hx
  · rcases eq_or_ne c b with rfl | hcb
    · have hself : book'.timestamps [o] = [clock k] := by simp [timestamps, htime]
      rw [Function.update_self, timestamps_append, hold, hself]
      exact append_sublist_readings (hage c) (List.Sublist.refl _)
    · rw [Function.update_of_ne hcb, hold]
      exact (hage c).trans (readings_sublist (Nat.le_succ k))

/-- **An order that is taken out** leaves the others as they were. -/
theorem Aged.takeOut (h : Aged clock k book)
    (htake : book.takeOut orderId side limitPrice = .ok (book', r)) : Aged clock k book' := by
  have hsame := sameTimes_takeOut htake
  obtain ⟨ring, hs, hage⟩ := h
  rcases takeOut_cases hs orderId side limitPrice with
    ⟨hmiss, -⟩ | ⟨b, xs, o, ys, book₁, -, hring, -, -, hhit, hshrunk, -⟩
  · rw [hmiss, Except.ok.injEq, Prod.mk.injEq] at htake
    obtain ⟨rfl, -⟩ := htake
    exact Aged.fewer hage hs.touch (fun _ => List.Sublist.refl _) hsame
  · simp only [hhit, bind_eq_ok, Except.ok.injEq, Prod.mk.injEq] at htake
    obtain ⟨book₂, hrem, rfl, -⟩ := htake
    refine Aged.fewer hage (Sound.shrink hshrunk hs hrem) (fun c => ?_) hsame
    rcases eq_or_ne c b with rfl | hcb
    · rw [Function.update_self, hring]
      exact (List.Sublist.refl xs).append (List.sublist_cons_self o ys)
    · rw [Function.update_of_ne hcb]

end OrderBook

/-! ### Timestamps of the messages -/

/-- At the reading `k` of the clock, it goes on from there, and the messages
carry readings from before, in order. -/
structure Dated (clock : ℕ → NsTimestampT) (k : ℕ) (now : ℕ → NsTimestampT)
    (responses : List ClientResponse) (updates : List MarketUpdate) : Prop where
  now : ∀ i, now i = clock (k + i)
  responses : (responses.map ClientResponse.nsTimestamp).Sublist (readings clock k)
  updates : (updates.map MarketUpdate.nsTimestamp).Sublist (readings clock k)

namespace World

variable {m l : ℕ} {w w' w₁ : World m l} {ring : Fin l → List (Fin m)} {book : OrderBook m l}
  {o : Fin m} {x : Option (Fin m)} {type : ResponseType} {updateType : UpdateType}
  {orderId : OrderIdT} {tradeId : TradeIdT} {clientId : ClientIdT} {side : OrderSide}
  {quantity : QuantityT} {price limitPrice : PriceT} {op : Op} {clock : ℕ → NsTimestampT} {k : ℕ}

/-- The world at the reading `k` of the clock. -/
def DatedAt (clock : ℕ → NsTimestampT) (k : ℕ) (w : World m l) : Prop :=
  Dated clock k w.clock w.responses w.updates

/-- **A reading of the clock,** put on what is pushed to the queues. -/
theorem DatedAt.read {rs : List ClientResponse} {us : List MarketUpdate} (h : DatedAt clock k w)
    (hnow : w'.clock = fun i => w.clock (i + 1)) (hrs : w'.responses = w.responses ++ rs)
    (hus : w'.updates = w.updates ++ us)
    (hr : (rs.map ClientResponse.nsTimestamp).Sublist [w.clock 0])
    (hu : (us.map MarketUpdate.nsTimestamp).Sublist [w.clock 0]) : DatedAt clock (k + 1) w' := by
  have h0 : w.clock 0 = clock k := h.now 0
  rw [h0] at hr hu
  refine ⟨fun i => ?_, ?_, ?_⟩
  · rw [hnow, Nat.add_right_comm, Nat.add_assoc]
    exact h.now (i + 1)
  · rw [hrs, List.map_append]
    exact append_sublist_readings h.responses hr
  · rw [hus, List.map_append]
    exact append_sublist_readings h.updates hu

theorem DatedAt.tick (h : DatedAt clock k w) : DatedAt clock (k + 1) w.getCurrentNsTimestamp.2 :=
  h.read rfl (List.append_nil _).symm (List.append_nil _).symm (List.nil_sublist _)
    (List.nil_sublist _)

theorem DatedAt.respond (h : DatedAt clock k w) :
    DatedAt clock (k + 1) (w.respond type clientId orderId side quantity price) :=
  h.read rfl rfl (List.append_nil _).symm (List.Sublist.refl _) (List.nil_sublist _)

theorem DatedAt.publish (h : DatedAt clock k w) :
    DatedAt clock (k + 1) (w.publish updateType orderId tradeId side quantity price) :=
  h.read rfl (List.append_nil _).symm rfl (List.nil_sublist _) (List.Sublist.refl _)

/-- What a part of a call does that puts no order on a level. -/
structure Later (clock : ℕ → NsTimestampT) (w w' : World m l) : Prop where
  dated : ∀ k, DatedAt clock k w → ∃ k', k ≤ k' ∧ DatedAt clock k' w'
  same : SameTimes w.toOrderBook w'.toOrderBook

theorem Later.refl : Later clock w w := ⟨fun k h => ⟨k, le_rfl, h⟩, fun _ => rfl⟩

/-- What is pushed later, and then later still, is pushed later. -/
theorem Later.trans (h : Later clock w w₁) (h' : Later clock w₁ w') : Later clock w w' := by
  refine ⟨fun k hd => ?_, h.same.trans h'.same⟩
  obtain ⟨k₁, hk, hd₁⟩ := h.dated k hd
  obtain ⟨k', hk', hd'⟩ := h'.dated k₁ hd₁
  exact ⟨k', hk.trans hk', hd'⟩

theorem later_withBook (h : SameTimes w.toOrderBook book) : Later clock w (w.withBook book) :=
  ⟨fun k hd => ⟨k, le_rfl, hd⟩, h⟩

theorem later_respond : Later clock w (w.respond type clientId orderId side quantity price) :=
  ⟨fun k hd => ⟨k + 1, Nat.le_succ k, hd.respond⟩, fun _ => rfl⟩

theorem later_publish : Later clock w (w.publish updateType orderId tradeId side quantity price) :=
  ⟨fun k hd => ⟨k + 1, Nat.le_succ k, hd.publish⟩, fun _ => rfl⟩

theorem later_publishTrade : Later clock w (w.publishTrade side quantity price) :=
  ⟨fun k hd => ⟨k + 1, Nat.le_succ k,
    DatedAt.publish (w := { w with nextTradeId := w.nextTradeId + 1 }) hd⟩, fun _ => rfl⟩

/-- The messages of a trade carry readings taken as they are pushed. -/
theorem later_settle (h : w.settle side quantity o = .ok w') : Later clock w w' := by
  unfold settle at h
  split_ifs at h
  · simp only [bind_eq_ok, pure_eq_ok, Except.ok.injEq, Prod.exists] at h
    obtain ⟨book₁, r, hget, b, -, book₂, x, hc, rfl⟩ := h
    exact later_publish.trans
      (later_withBook ((sameTimes_getPriceLevel hget).trans (sameTimes_cancelAt hc)))
  · obtain rfl := Except.ok.inj h
    exact later_publish

/-- **A trade** reads the clock for each of its messages. -/
theorem later_matchOrder {r : World m l × QuantityT}
    (h : w.matchOrder orderId clientId side quantity x = .ok r) : Later clock w r.1 := by
  simp only [matchOrder, bind_eq_ok, pure_eq_ok, Except.ok.injEq] at h
  obtain ⟨o, -, w₁, hset, rfl⟩ := h
  have htrade : Later clock w (w.publishTrade side (min quantity (w.order o).quantity)
      (w.order o).limitPrice) := later_publishTrade
  refine htrade.trans ((later_withBook sameTimes_fillOrder).trans ((later_settle hset).trans ?_))
  exact later_respond.trans later_respond

/-- So do those of a round of matching. -/
theorem later_matchBest {s s' : World m l × QuantityT}
    (h : matchBest orderId clientId side s = .ok s') : Later clock s.1 s'.1 := by
  simp only [matchBest, bind_eq_ok, pure_eq_ok, Except.ok.injEq, Prod.exists] at h
  obtain ⟨b, -, w₁, quantity₁, hmatch, b', -, book, hrem, rfl⟩ := h
  exact (later_matchOrder hmatch).trans (later_withBook (sameTimes_removeIfEmpty hrem))

/-- What a trade leaves of a level is the level, with or without its top order. -/
theorem leftOn_sublist {xs : List (Fin m)} : (leftOn w o xs).Sublist (o :: xs) := by
  unfold leftOn
  split_ifs
  · exact List.sublist_cons_self o xs
  · exact List.Sublist.refl _

/-- **The matching loop** takes orders off their levels. -/
theorem later_checkForMatch {s : World m l × QuantityT} (hs : Sound w.toOrderBook ring)
    (h : w.checkForMatch orderId clientId side quantity limitPrice = .ok s) :
    Later clock w s.1 ∧
      ∃ ring', Sound s.1.toOrderBook ring' ∧ ∀ b, (ring' b).Sublist (ring b) := by
  refine (whileLoop_invariant (I := fun s : World m l × QuantityT => Later clock w s.1 ∧
    ∃ ring', Sound s.1.toOrderBook ring' ∧ ∀ b, (ring' b).Sublist (ring b)) ?_
    ⟨Later.refl, ring, hs, fun _ => List.Sublist.refl _⟩ h).1
  rintro ⟨w₁, quantity₁⟩ s' ⟨hlater, ring₁, hs₁, hfewer⟩ - hbody
  refine ⟨hlater.trans (later_matchBest hbody), ?_⟩
  obtain ⟨b, o, xs, w₂, -, hring, hm, -, hrem, -⟩ :=
    matchBest_ok ⟨orderId, clientId, side, quantity₁, limitPrice⟩ hs₁ hbody
  refine ⟨_, Sound.shrink hm.shrunk hs₁ hrem, fun c => List.Sublist.trans ?_ (hfewer c)⟩
  rcases eq_or_ne c b with rfl | hcb
  · rw [Function.update_self, hring]
    exact leftOn_sublist
  · rw [Function.update_of_ne hcb]

/-- **`add`** dates its messages and the order it puts on a level. -/
theorem add_inTime (h : DatedAt clock k w) (ha : Aged clock k w.toOrderBook)
    (hadd : w.add orderId clientId side quantity limitPrice = .ok w') :
    ∃ k', k ≤ k' ∧ DatedAt clock k' w' ∧ Aged clock k' w'.toOrderBook := by
  obtain ⟨ring, hs, hage⟩ := ha
  simp only [add, bind_eq_ok] at hadd
  obtain ⟨⟨w₁, remaining⟩, hmatch, hadd⟩ := hadd
  have haccept : DatedAt clock (k + 1)
      (w.respond .accepted clientId orderId side quantity limitPrice) := h.respond
  have hs₀ : Sound (w.respond .accepted clientId orderId side quantity limitPrice).toOrderBook
      ring := hs
  obtain ⟨hlater, ring₁, hs₁, hfewer⟩ := later_checkForMatch hs₀ hmatch
  obtain ⟨k₁, hk, hd₁⟩ := hlater.dated (k + 1) haccept
  have hk₁ : k ≤ k₁ := (Nat.le_succ k).trans hk
  have ha₁ : Aged clock k₁ w₁.toOrderBook :=
    (Aged.fewer hage hs₁ hfewer hlater.same).later hk₁
  split_ifs at hadd with hq
  · obtain ⟨book, hrest, hok⟩ := bind_eq_ok.1 hadd
    obtain rfl := Except.ok.inj hok
    have hnow : w₁.clock 0 = clock k₁ := hd₁.now 0
    have hrest' : w₁.rest orderId clientId (clock k₁) side remaining limitPrice = .ok book :=
      hnow ▸ hrest
    refine ⟨k₁ + 1 + 1, by omega, ?_, (ha₁.rest hq hrest').later (Nat.le_succ _)⟩
    exact DatedAt.publish (w := w₁.getCurrentNsTimestamp.2.withBook book) hd₁.tick
  · obtain rfl := Except.ok.inj hadd
    exact ⟨k₁, hk₁, hd₁, ha₁⟩

/-- **`cancel`** dates its messages, both with one reading. -/
theorem cancel_inTime (h : DatedAt clock k w) (ha : Aged clock k w.toOrderBook)
    (hcancel : w.cancel clientId orderId side limitPrice = .ok w') :
    ∃ k', k ≤ k' ∧ DatedAt clock k' w' ∧ Aged clock k' w'.toOrderBook := by
  simp only [cancel, bind_eq_ok] at hcancel
  obtain ⟨⟨book, x⟩, htake, hcancel⟩ := hcancel
  have ha' : Aged clock (k + 1) book := (ha.takeOut htake).later (Nat.le_succ k)
  refine ⟨k + 1, Nat.le_succ k, ?_⟩
  cases x with
  | none =>
    obtain rfl := Except.ok.inj hcancel
    exact ⟨DatedAt.respond (w := w.withBook book) h, ha'⟩
  | some o =>
    obtain rfl := Except.ok.inj hcancel
    exact ⟨h.read rfl rfl rfl (List.Sublist.refl _) (List.Sublist.refl _), ha'⟩

/-- **A call keeps time,** on both queues and on every level: its messages, and
the order it puts on a level, carry readings taken after all earlier ones. -/
theorem step_inTime (h : DatedAt clock k w) (ha : Aged clock k w.toOrderBook)
    (hstep : w.step op = .ok w') :
    ∃ k', k ≤ k' ∧ DatedAt clock k' w' ∧ Aged clock k' w'.toOrderBook := by
  cases op with
  | add => exact add_inTime h ha hstep
  | cancel => exact cancel_inTime h ha hstep

end World

/-! ### The exchange -/

namespace Exchange

variable {m l : ℕ} {e e' e₀ : Exchange m l} {request : ClientRequest}
  {requests : List ClientRequest} {tickerId : TickerIdT} {tickerIds : List TickerIdT}
  {clock : ℕ → NsTimestampT} {R : NsTimestampT → NsTimestampT → Prop} {k : ℕ}

/-- The exchange at the reading `k` of the clock. -/
structure DatedAt (clock : ℕ → NsTimestampT) (k : ℕ) (e : Exchange m l) : Prop where
  messages : Dated clock k e.clock e.responses e.updates
  books : ∀ tickerId book, e.bookOf tickerId = some book → Aged clock k book

/-- A new exchange has read the clock for nothing yet. -/
theorem datedAt_of_new (h : new m l tickerIds clock = .ok e) : DatedAt clock 0 e := by
  refine foldlM_induction (P := fun _ e => DatedAt clock 0 e) ⟨⟨fun i => ?_, ?_, ?_⟩, ?_⟩ ?_ h
  · rw [Nat.zero_add]
  · exact List.nil_sublist _
  · exact List.nil_sublist _
  · intro tickerId book hb
    cases hb
  · intro tickerIds tickerId e e' _ hd hadd
    simp only [addTicker, bind_eq_ok] at hadd
    obtain ⟨-, -, hadd⟩ := hadd
    split_ifs at hadd
    · obtain rfl := Except.ok.inj hadd
      exact hd
    · obtain rfl := Except.ok.inj hadd
      refine ⟨hd.messages, fun t book hb => ?_⟩
      rw [bookOf, UnorderedMap.at?_insert] at hb
      split_ifs at hb with ht
      · obtain rfl := Option.some.inj hb
        exact aged_new tickerId
      · exact hd.books t book hb

/-- **A request** dates its messages and the order it puts on a level. -/
theorem DatedAt.processRequest (h : DatedAt clock k e) (hr : e.processRequest request = .ok e') :
    ∃ k', DatedAt clock k' e' := by
  rcases processRequest_ok hr with ⟨-, rfl⟩ | ⟨op, book, w, -, hb, hstep, rfl⟩
  · exact ⟨k, h⟩
  · have hw : World.DatedAt clock k (e.world book) := h.messages
    obtain ⟨k', hk, hd, ha⟩ := World.step_inTime hw (h.books _ book hb) hstep
    refine ⟨k', hd, fun t book' hb' => ?_⟩
    have hbook := (bookOf_withWorld ..).symm.trans hb'
    split_ifs at hbook
    · obtain rfl := Option.some.inj hbook
      exact ha
    · exact (h.books t book' hbook).later hk

/-- The timestamps of each queue, and those of the orders on each level from the
top order on, are in order. -/
structure InTime (R : NsTimestampT → NsTimestampT → Prop) (e : Exchange m l) : Prop where
  responses : (e.responses.map ClientResponse.nsTimestamp).Pairwise R
  updates : (e.updates.map MarketUpdate.nsTimestamp).Pairwise R
  levels : ∀ tickerId book, e.bookOf tickerId = some book → ∀ price,
    (book.timestamps (book.ordersAt price)).Pairwise R

/-- **Timestamps are in the order of the readings** of the clock, whatever
relation later readings bear to earlier ones, and so is the priority of the
orders at one price. -/
theorem inTime_of_run (hclock : ∀ i j, i < j → R (clock i) (clock j))
    (h₀ : new m l tickerIds clock = .ok e₀) (h : e₀.run requests = .ok e) : InTime R e := by
  have hdated : ∃ k, DatedAt clock k e := by
    refine foldlM_induction (P := fun _ e => ∃ k, DatedAt clock k e) ⟨0, datedAt_of_new h₀⟩ ?_ h
    rintro _ request e₁ e₂ - ⟨k, hk⟩ hr
    exact hk.processRequest hr
  obtain ⟨k, hk⟩ := hdated
  refine ⟨pairwise_of_sublist_readings hclock hk.messages.responses,
    pairwise_of_sublist_readings hclock hk.messages.updates, fun t book hb price => ?_⟩
  obtain ⟨ring, hs, hage⟩ := hk.books t book hb
  cases hat : book.levelAt price with
  | none =>
    rw [ordersAt, hat]
    exact List.Pairwise.nil
  | some b =>
    rw [ordersAt_of_levelAt hs.toShape hat]
    exact pairwise_of_sublist_readings hclock (hage b)

/-- A clock that stands still for six readings and goes on then. -/
theorem inTime_of_mixedRequests :
    (∀ i j : ℕ, i < j → (if i < 6 then 7 else 9 : NsTimestampT) ≤ if j < 6 then 7 else 9) ∧
      ∃ e₀ e, new maxOrderIds maxPriceLevels [1, 2] (fun i => if i < 6 then 7 else 9) = .ok e₀ ∧
        e₀.run mixedRequests = .ok e ∧ InTime (· ≤ ·) e := by
  have hclock : ∀ i j : ℕ, i < j →
      (if i < 6 then 7 else 9 : NsTimestampT) ≤ if j < 6 then 7 else 9 := by
    intro i j hij
    split_ifs <;> first | omega | decide
  have hrun : ∃ e₀, new maxOrderIds maxPriceLevels [1, 2] (fun i => if i < 6 then 7 else 9) =
      .ok e₀ ∧ (e₀.run mixedRequests).isOk = true := by
    decide +kernel
  obtain ⟨e₀, h₀, hok⟩ := hrun
  obtain ⟨e, h⟩ := exists_of_isOk hok
  exact ⟨hclock, e₀, e, h₀, h, inTime_of_run hclock h₀ h⟩

end Exchange

end CppExchange
