import CppExchange.Library.Counter
import CppExchange.Turns

/-!
# Order ids and trade ids

The exchange hands out order ids and trade ids from two 32-bit counters that
start at one and wrap around, and takes the last value of the type for an
invalid id.  Each ADD request takes an order id; each trade takes a trade id
and fills at least one order for good, so there are no more trades than ADD
requests (`Accounted`).  So the ids are unique and valid exactly as long as
there are at most `2 ^ 32 - 2` ADD requests (`unique_iff`).
-/

namespace CppExchange

open Library OrderBook

/-- The TRADE updates. -/
def tradeUpdates (updates : List MarketUpdate) : List MarketUpdate :=
  updates.filter fun u => u.type = .trade

/-- The trade ids of the TRADE updates. -/
def tradeIds (updates : List MarketUpdate) : List TradeIdT :=
  (tradeUpdates updates).map MarketUpdate.tradeId

/-- The tickers of the TRADE updates. -/
def tradeTickers (updates : List MarketUpdate) : List TickerIdT :=
  (tradeUpdates updates).map MarketUpdate.tickerId

/-- The ADD requests. -/
def addRequests (requests : List ClientRequest) : List ClientRequest :=
  requests.filter fun r => r.type = .add

/-- The tickers of the ADD requests. -/
def addTickers (requests : List ClientRequest) : List TickerIdT :=
  (addRequests requests).map ClientRequest.tickerId

section Lists

variable {us us' : List MarketUpdate} {rs : List ClientRequest} {r : ClientRequest}

theorem tradeUpdates_append : tradeUpdates (us ++ us') = tradeUpdates us ++ tradeUpdates us' :=
  List.filter_append ..

theorem tradeIds_append : tradeIds (us ++ us') = tradeIds us ++ tradeIds us' := by
  rw [tradeIds, tradeUpdates_append, List.map_append]
  rfl

theorem tradeTickers_append :
    tradeTickers (us ++ us') = tradeTickers us ++ tradeTickers us' := by
  rw [tradeTickers, tradeUpdates_append, List.map_append]
  rfl

theorem tradeIds_untimed : tradeIds (us.map MarketUpdate.untimed) = tradeIds us := by
  rw [tradeIds, tradeUpdates, List.filter_map, List.map_map]
  rfl

theorem tradeTickers_untimed : tradeTickers (us.map MarketUpdate.untimed) = tradeTickers us := by
  rw [tradeTickers, tradeUpdates, List.filter_map, List.map_map]
  rfl

theorem addRequests_concat :
    addRequests (rs ++ [r]) = addRequests rs ++ if r.type = .add then [r] else [] := by
  rw [addRequests, List.filter_append]
  by_cases h : r.type = .add <;> simp [addRequests, h]

theorem length_addTickers : (addTickers rs).length = (addRequests rs).length := List.length_map _

/-- When no key occurs more often in one list than in another, the list is not
longer. -/
theorem length_le_of_count_le {α : Type} [DecidableEq α] {xs ys : List α}
    (h : ∀ a, xs.count a ≤ ys.count a) : xs.length ≤ ys.length :=
  (List.subperm_ext_iff.2 fun a _ => h a).length_le

end Lists

/-- The trade id of an event. -/
def Event.tradeId? : Event → Option TradeIdT
  | traded tradeId _ _ _ => some tradeId
  | _ => none

/-- The trade ids that a history publishes are those of its trades, in order:
each trade publishes its id once. -/
theorem tradeIds_flatMap (events : List Event) (tickerId : TickerIdT) :
    tradeIds (events.flatMap (Event.updates tickerId)) = events.filterMap Event.tradeId? := by
  induction events with
  | nil => rfl
  | cons event events ih =>
    rw [List.flatMap_cons, tradeIds_append, ih]
    cases event with
    | traded tradeId maker taker f =>
      by_cases hf : maker.quantity = f <;>
        simp [Event.updates, tradeIds, tradeUpdates, Event.tradeId?, hf]
    | _ => rfl

/-- And they are published under the ticker of the history. -/
theorem tradeTickers_flatMap (events : List Event) (tickerId : TickerIdT) :
    tradeTickers (events.flatMap (Event.updates tickerId)) =
      List.replicate (events.filterMap Event.tradeId?).length tickerId := by
  induction events with
  | nil => rfl
  | cons event events ih =>
    rw [List.flatMap_cons, tradeTickers_append, ih]
    cases event with
    | traded tradeId maker taker f =>
      by_cases hf : maker.quantity = f <;>
        simp [Event.updates, tradeTickers, tradeUpdates, Event.tradeId?, hf, List.replicate_succ]
    | _ => rfl

namespace Ledger

variable {L L' : Ledger} {taker taker' : Entry} {op : Op}

/-- `k` trades since `L`, with the next ids in turn. -/
def Traded (L L' : Ledger) (k : ℕ) : Prop :=
  L'.events.filterMap Event.tradeId? =
      L.events.filterMap Event.tradeId? ++ countFrom L.nextTradeId k ∧
    L'.nextTradeId = L.nextTradeId + UInt32.ofNat k

theorem Traded.refl : Traded L L 0 := ⟨by simp, (UInt32.add_zero _).symm⟩

/-- One more event that is no trade. -/
theorem Traded.record {L₁ : Ledger} {k : ℕ} {event : Event} (h : Traded L L₁ k)
    (hev : L'.events = L₁.events ++ [event]) (hne : event.tradeId? = none)
    (hid : L'.nextTradeId = L₁.nextTradeId) : Traded L L' k := by
  refine ⟨?_, hid.trans h.2⟩
  rw [hev, List.filterMap_append, h.1]
  simp [hne]

/-- One, when an order has quantity left. -/
def alive (order : Entry) : ℕ := if order.quantity = 0 then 0 else 1

theorem alive_le (order : Entry) : alive order ≤ 1 := by
  unfold alive
  split_ifs <;> omega

/-- **A trade fills the maker or the taker for good.** -/
theorem Fill.traded {L₀ : Ledger} {k : ℕ} (h : L.Fill taker L' taker') (ht : Traded L₀ L k) :
    Traded L₀ L' (k + 1) ∧
      1 + L'.resting.length + alive taker' ≤ L.resting.length + alive taker := by
  obtain ⟨hrest, -, htl, hml, -⟩ := h
  rename_i maker older newer
  refine ⟨⟨?_, ?_⟩, ?_⟩
  · rw [trade, List.filterMap_append, ht.1, countFrom_succ, ht.2]
    simp [Event.tradeId?]
  · rw [trade, ht.2, UInt32.ofNat_add, UInt32.add_assoc]
    rfl
  · have hone : alive taker = 1 := if_neg htl
    have hle := alive_le (after taker maker)
    rw [hone, hrest]
    simp only [trade, List.length_append, List.length_cons]
    unfold Entry.left
    split_ifs with hfull
    · simp only [List.length_nil]
      omega
    · have hdone : alive (after taker maker) = 0 := by
        refine if_pos (quantity_sub_eq_zero.2 ?_)
        rw [fillQuantity_eq] at hfull ⊢
        split_ifs at hfull ⊢ with hq
        · rfl
        · exact absurd rfl hfull
      rw [hdone]
      simp only [List.length_singleton]
      omega

/-- **A call that trades `k` times** ends `k` orders at least, the one it adds
among them. -/
theorem Step.traded (h : L.Step op L') :
    ∃ k, Traded L L' k ∧ k + L'.resting.length ≤ L.resting.length + op.addedId.toList.length := by
  refine h.keeps (P := fun L₁ => L₁ = L)
    (R := fun L' => ∃ k, Traded L L' k ∧
      k + L'.resting.length ≤ L.resting.length + op.addedId.toList.length)
    (Q := fun L' taker => ∃ k, Traded L L' k ∧
      k + L'.resting.length + alive taker ≤ L.resting.length + op.addedId.toList.length)
    (fun order hop _ => ⟨0, Traded.refl.record rfl rfl rfl, ?_⟩) ?_ ?_ ?_
    (fun older order newer _ _ _ hrest _ => ⟨0, Traded.refl.record rfl rfl rfl, ?_⟩)
    (fun _ _ _ _ _ _ => ⟨0, Traded.refl.record rfl rfl rfl, ?_⟩) rfl
  · have hle := alive_le order
    rw [hop]
    simp only [record, Op.addedId, Option.toList_some, List.length_singleton]
    omega
  · rintro L₁ taker L₂ taker' fill ⟨k, ht, hle⟩
    obtain ⟨ht', hle'⟩ := fill.traded ht
    exact ⟨k + 1, ht', by omega⟩
  · rintro L₁ order ⟨k, ht, hle⟩ -
    exact ⟨k, ht, by omega⟩
  · rintro L₁ order ⟨k, ht, hle⟩ hq
    refine ⟨k, ht.record rfl rfl rfl, ?_⟩
    rw [alive, if_neg hq] at hle
    simp only [List.length_append, List.length_singleton]
    omega
  · rw [hrest]
    simp only [withdraw, List.length_append, List.length_cons]
    omega
  · simp only [record]
    omega

end Ledger

/-! ### The exchange -/

namespace Exchange

variable {m l : ℕ} {e e₀ e' : Exchange m l} {request : ClientRequest}
  {requests : List ClientRequest} {tickerIds : List TickerIdT} {clock : ℕ → NsTimestampT}
  {book : OrderBook m l}

/-- The ids of the orders and of the trades are unique and valid. -/
structure Unique (e : Exchange m l) : Prop where
  orderIds : (idsOf .accepted e.responses).Nodup
  orderIdsValid : orderIdInvalid ∉ idsOf .accepted e.responses
  tradeIds : (CppExchange.tradeIds e.updates).Nodup
  tradeIdsValid : tradeIdInvalid ∉ CppExchange.tradeIds e.updates

/-- The counters after some requests, and what bounds the trades of each ticker:
its ADD requests, less its orders at rest. -/
structure Accounted (requests : List ClientRequest) (e : Exchange m l) : Prop where
  accepted : idsOf .accepted e.responses = countFrom 1 (addRequests requests).length
  nextOrderId : e.nextOrderId = 1 + UInt32.ofNat (addRequests requests).length
  traded : CppExchange.tradeIds e.updates = countFrom 1 (tradeTickers e.updates).length
  nextTradeId : e.nextTradeId = 1 + UInt32.ofNat (tradeTickers e.updates).length
  count_le : ∀ t, (tradeTickers e.updates).count t ≤ (addTickers requests).count t
  book : ∀ t book, e.bookOf t = some book → book.tickerId = t ∧ ∃ ring resting,
    Holds book ring resting ∧
      (tradeTickers e.updates).count t + resting.length ≤ (addTickers requests).count t

/-- A fresh exchange is accounted for by no request. -/
theorem Fresh.accounted (h : Fresh e) : Accounted [] e := by
  refine ⟨by rw [h.responses]; rfl, by rw [h.nextOrderId]; rfl, by rw [h.updates]; rfl,
    by rw [h.updates, h.nextTradeId]; rfl, fun t => by simp [h.updates, tradeTickers, tradeUpdates],
    fun t book hb => ?_⟩
  have hbook := (h.books t (mem_of_bookOf hb)).symm.trans hb
  obtain rfl := Option.some.inj hbook
  exact ⟨rfl, _, [], holds_new m l t, by simp [h.updates, tradeTickers, tradeUpdates]⟩

theorem addTickers_concat : addTickers (requests ++ [request]) =
    addTickers requests ++ if request.type = .add then [request.tickerId] else [] := by
  rw [addTickers, addRequests_concat, List.map_append]
  split_ifs <;> rfl

/-- What a call on the book of a ticker recorded: the order it added was
accepted, and `k` trades of the ticker got the next ids. -/
structure Recorded (e : Exchange m l) (tickerId : TickerIdT) (op : Op) (w : World m l) (k : ℕ) :
    Prop where
  accepted : idsOf .accepted w.responses = idsOf .accepted e.responses ++ op.addedId.toList
  ids : CppExchange.tradeIds w.updates =
    CppExchange.tradeIds e.updates ++ countFrom e.nextTradeId k
  tickers : tradeTickers w.updates = tradeTickers e.updates ++ List.replicate k tickerId
  nextTradeId : w.nextTradeId = e.nextTradeId + UInt32.ofNat k

section Recorded

variable {w : World m l} {ring : Fin l → List (Fin m)} {resting : List Entry}
  {tickerId t : TickerIdT} {op : Op} {k : ℕ}

/-- **A call ends as many orders as it trades,** the one it adds among them. -/
theorem recorded_of_step (hh : Holds book ring resting) (hbt : book.tickerId = tickerId)
    (hw : (e.world book).step op = .ok w) :
    ∃ k ring' resting', Recorded e tickerId op w k ∧ Holds w.toOrderBook ring' resting' ∧
      w.tickerId = tickerId ∧
      k + resting'.length ≤ resting.length + op.addedId.toList.length := by
  obtain ⟨L', hstep, ⟨ring', hh'⟩, htick, hnext, hresp, hupd⟩ := World.step_records hh hw
  obtain ⟨k, ⟨htr, hnt⟩, hk⟩ := hstep.traded
  rw [show (e.world book).tickerId = tickerId from hbt] at hresp hupd
  refine ⟨k, ring', L'.resting, ⟨?_, ?_, ?_, hnext.trans hnt⟩, hh', htick.trans hbt, hk⟩
  · rw [← idsOf_untimed, hresp, idsOf_append, idsOf_untimed, hstep.accepted]
    rfl
  · rw [← tradeIds_untimed, hupd, tradeIds_append, tradeIds_untimed, tradeIds_flatMap, htr]
    rfl
  · rw [← tradeTickers_untimed, hupd, tradeTickers_append, tradeTickers_untimed,
      tradeTickers_flatMap, htr]
    simp [world]

/-- A call adds its trades to the count of its own ticker. -/
theorem Recorded.count (h : Recorded e tickerId op w k) :
    (tradeTickers w.updates).count t =
      (tradeTickers e.updates).count t + if t = tickerId then k else 0 := by
  rw [h.tickers, List.count_append, List.count_replicate]
  by_cases ht : t = tickerId
  · simp [ht]
  · simp [ht, Ne.symm ht]

theorem Recorded.length (h : Recorded e tickerId op w k) :
    (tradeTickers w.updates).length = (tradeTickers e.updates).length + k := by
  rw [h.tickers, List.length_append, List.length_replicate]

/-- The order a request adds counts for its ticker. -/
theorem count_addTickers_concat {nextOrderId : OrderIdT} (hop : request.op nextOrderId = some op) :
    (addTickers (requests ++ [request])).count t = (addTickers requests).count t +
      if t = request.tickerId then op.addedId.toList.length else 0 := by
  rw [addTickers_concat, List.count_append, ClientRequest.addedId_op hop]
  by_cases hadd : request.type = .add
  · by_cases ht : t = request.tickerId
    · simp [hadd, ht]
    · simp [hadd, ht, Ne.symm ht]
  · simp [hadd]

end Recorded

/-- **One request keeps the accounts.** -/
theorem Accounted.step (h : Accounted requests e) (hr : e.processRequest request = .ok e') :
    Accounted (requests ++ [request]) e' := by
  rcases processRequest_ok hr with ⟨ht, rfl⟩ | ⟨op, book, w, hop, hb, hw, rfl⟩
  · have hadd : addRequests (requests ++ [request]) = addRequests requests := by
      rw [addRequests_concat, if_neg (by simp [ht]), List.append_nil]
    have htick : addTickers (requests ++ [request]) = addTickers requests := by
      rw [addTickers, hadd, addTickers]
    refine ⟨?_, ?_, h.traded, h.nextTradeId, ?_, ?_⟩
    · rw [hadd, h.accepted]
    · rw [hadd, h.nextOrderId]
    · rw [htick]
      exact h.count_le
    · rw [htick]
      exact h.book
  · obtain ⟨hbt, ring, resting, hh, hle⟩ := h.book _ _ hb
    obtain ⟨k, ring', resting', hrec, hh', htick, hk⟩ := recorded_of_step hh hbt hw
    refine ⟨?_, ?_, ?_, ?_, fun t => ?_, fun t book' hb' => ?_⟩
    · refine hrec.accepted.trans ?_
      rw [h.accepted, ClientRequest.addedId_op hop, addRequests_concat, List.length_append,
        h.nextOrderId]
      split_ifs
      · exact countFrom_succ.symm
      · simp
    · rw [addRequests_concat, List.length_append, ClientRequest.advance, h.nextOrderId]
      split_ifs
      · rw [List.length_singleton, UInt32.ofNat_add, UInt32.add_assoc]
        rfl
      · rfl
    · refine hrec.ids.trans ?_
      rw [h.traded, h.nextTradeId, ← countFrom_add]
      exact congrArg (countFrom 1) hrec.length.symm
    · refine hrec.nextTradeId.trans ?_
      rw [show (withWorld e request.tickerId w).updates = w.updates from rfl, hrec.length,
        UInt32.ofNat_add, ← UInt32.add_assoc, ← h.nextTradeId]
    · have hle' := h.count_le t
      refine hrec.count.trans_le ?_
      rw [count_addTickers_concat hop]
      split_ifs with ht
      · subst ht
        omega
      · omega
    · have hb'' := bookOf_withWorld.symm.trans hb'
      change _ ∧ ∃ ring, ∃ resting : List Entry,
        _ ∧ (tradeTickers w.updates).count t + resting.length ≤ _
      rw [hrec.count, count_addTickers_concat hop]
      split_ifs at hb'' ⊢ with ht
      · obtain rfl := Option.some.inj hb''
        exact ⟨htick.trans ht.symm, ring', resting', hh', by subst ht; omega⟩
      · obtain ⟨hbt', ring₁, resting₁, hh₁, hle₁⟩ := h.book t book' hb''
        exact ⟨hbt', ring₁, resting₁, hh₁, by omega⟩

/-- The accounts after a run of a new exchange. -/
theorem accounted_of_run (h₀ : new m l tickerIds clock = .ok e₀) (h : e₀.run requests = .ok e) :
    Accounted requests e :=
  foldlM_induction (P := fun requests e => Accounted requests e) (new_ok h₀).1.accounted
    (fun _ _ _ _ _ hacc hr => hacc.step hr) h

/-- There are no more trades than ADD requests. -/
theorem Accounted.length_le (h : Accounted requests e) :
    (tradeTickers e.updates).length ≤ (addRequests requests).length := by
  rw [← length_addTickers]
  exact length_le_of_count_le h.count_le

/-- **The ids are unique and valid** exactly when there are at most `2 ^ 32 - 2`
ADD requests. -/
theorem unique_iff (h₀ : new m l tickerIds clock = .ok e₀) (h : e₀.run requests = .ok e) :
    Unique e ↔ (addRequests requests).length ≤ 2 ^ 32 - 2 := by
  have hacc := accounted_of_run h₀ h
  have hsize : UInt32.size = 2 ^ 32 := rfl
  have hlast : ∀ n ≤ UInt32.size, (0xFFFFFFFF : UInt32) ∈ countFrom 1 n ↔ 2 ^ 32 - 2 < n :=
    fun n hn => mem_countFrom hn
  constructor
  · intro hu
    by_contra hn
    refine hu.orderIdsValid ?_
    rw [hacc.accepted]
    obtain ⟨k, hk⟩ := Nat.exists_eq_add_of_le
      (show 2 ^ 32 - 1 ≤ (addRequests requests).length by omega)
    rw [hk, countFrom_add]
    exact List.mem_append_left _ ((hlast _ (by omega)).2 (by omega))
  · intro hn
    have hle := hacc.length_le
    refine ⟨?_, ?_, ?_, ?_⟩
    · rw [hacc.accepted]
      exact countFrom_nodup (by omega)
    · rw [hacc.accepted]
      exact fun hmem => absurd ((hlast _ (by omega)).1 hmem) (by omega)
    · rw [hacc.traded]
      exact countFrom_nodup (by omega)
    · rw [hacc.traded]
      exact fun hmem => absurd ((hlast _ (by omega)).1 hmem) (by omega)

/-- An offer on each of two tickers, and a bid that takes the first one. -/
def sampleRequests : List ClientRequest :=
  [{ type := .add, tickerId := 1, clientId := 1, side := .sell, quantity := 10, limitPrice := 100 },
    { type := .add, tickerId := 2, clientId := 1, side := .sell, quantity := 5, limitPrice := 40 },
    { type := .add, tickerId := 1, clientId := 2, side := .buy, quantity := 4, limitPrice := 100 }]

/-- The sample requests, far fewer than the bound, are an instance. -/
theorem unique_sampleRequests :
    ∃ e₀ e, new maxOrderIds maxPriceLevels [1, 2] (fun _ => 0) = .ok e₀ ∧
      e₀.run sampleRequests = .ok e ∧
      (Unique e ↔ (addRequests sampleRequests).length ≤ 2 ^ 32 - 2) := by
  have hrun : ∃ e₀, new maxOrderIds maxPriceLevels [1, 2] (fun _ => 0) = .ok e₀ ∧
      (e₀.run sampleRequests).isOk = true := by
    decide +kernel
  obtain ⟨e₀, h₀, hok⟩ := hrun
  obtain ⟨e, h⟩ := exists_of_isOk hok
  exact ⟨e₀, e, h₀, h, unique_iff h₀ h⟩

/-! ### The last id -/

/-- An ADD of no quantity takes an order id, and leaves the book as it is. -/
theorem processRequest_of_zero (ht : request.type = .add) (hq : request.quantity = 0)
    (hb : e.bookOf request.tickerId = some book) :
    ∃ e', e.processRequest request = .ok e' ∧ e'.bookOf request.tickerId = some book := by
  have hop : request.op e.nextOrderId =
      some (.add e.nextOrderId request.clientId request.side 0 request.limitPrice) := by
    rw [ClientRequest.op, ht, hq]
  have hadd : (e.world book).add e.nextOrderId request.clientId request.side 0 request.limitPrice =
      .ok ((e.world book).respond .accepted request.clientId e.nextOrderId request.side 0
        request.limitPrice) := by
    rw [World.add, World.checkForMatch, whileLoop_of_false World.canMatch_zero, ok_bind]
    rfl
  have hreq := processRequest_eq hop hb
  rw [World.step, hadd] at hreq
  exact ⟨_, hreq, bookOf_withWorld.trans (if_pos rfl)⟩

/-- So do any number of them. -/
theorem run_replicate_of_zero (request : ClientRequest) (ht : request.type = .add)
    (hq : request.quantity = 0)
    (hb : e.bookOf request.tickerId = some book) (n : ℕ) :
    ∃ e', e.run (List.replicate n request) = .ok e' := by
  induction n generalizing e with
  | zero => exact ⟨e, rfl⟩
  | succ n ih =>
    obtain ⟨e₁, hr, hb₁⟩ := processRequest_of_zero ht hq hb
    obtain ⟨e', he'⟩ := ih hb₁
    refine ⟨e', ?_⟩
    rw [run, List.replicate_succ, List.foldlM_cons, hr, ok_bind]
    exact he'

/-- An ADD of no quantity. -/
def emptyAdd : ClientRequest where
  type := .add
  tickerId := 1
  clientId := 1
  side := .buy
  quantity := 0
  limitPrice := 100

/-- The last of `2 ^ 32 - 1` ADD requests is accepted under the invalid id. -/
theorem not_unique_of_emptyAdds :
    ∃ e₀ e, new maxOrderIds maxPriceLevels [1] (fun _ => 0) = .ok e₀ ∧
      e₀.run (List.replicate (2 ^ 32 - 1) emptyAdd) = .ok e ∧
      orderIdInvalid ∈ idsOf .accepted e.responses := by
  have hnew : ∃ e₀, new maxOrderIds maxPriceLevels [1] (fun _ => 0) = .ok e₀ ∧ True := by
    decide +kernel
  obtain ⟨e₀, h₀, -⟩ := hnew
  obtain ⟨e, h⟩ := run_replicate_of_zero emptyAdd rfl rfl
    ((new_ok h₀).2 1 (by simp)) (2 ^ 32 - 1)
  refine ⟨e₀, e, h₀, h, ?_⟩
  have hadds : addRequests (List.replicate (2 ^ 32 - 1) emptyAdd) =
      List.replicate (2 ^ 32 - 1) emptyAdd := List.filter_replicate_of_pos rfl
  rw [(accounted_of_run h₀ h).accepted, hadds, List.length_replicate]
  exact (mem_countFrom (by decide)).2 (by decide)

end Exchange

end CppExchange
