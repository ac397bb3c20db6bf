import CppExchange.Books
import CppExchange.Priority

/-!
# Every book of an exchange is the reference book

As long as the requests are for tickers of the exchange, the orders are to buy or
to sell, and a level that is created opens in front of its side (`Regular`), an
exchange processes every request, unless a pool runs out, and for each ticker it
is the reference book on the calls for the ticker: it sends the same responses
and the same updates, and the same orders rest (`Exchange.refines_of_run`).

The reference numbers the trades of one book, the exchange those of all books
together, so the ids of trades are left out of the comparison
(`MarketUpdate.unnumbered`).
-/

namespace CppExchange

open Library OrderBook

/-! ### Trade ids -/

/-- An event without the id of its trade. -/
def Event.unnumbered : Event → Event
  | traded _ maker taker fillQuantity => traded 0 maker taker fillQuantity
  | event => event

section Numbers

variable {tickerId : TickerIdT} {event : Event} {es es' : List Event}

theorem Event.responses_unnumbered :
    event.unnumbered.responses tickerId = event.responses tickerId := by
  cases event <;> rfl

/-- Taking the trade ids off an event takes them off its updates. -/
theorem Event.updates_unnumbered : event.unnumbered.updates tickerId =
    (event.updates tickerId).map MarketUpdate.unnumbered := by
  cases event with
  | traded tradeId maker taker fillQuantity =>
    simp only [Event.unnumbered, Event.updates, List.map_cons, List.map_nil]
    split_ifs <;> rfl
  | _ => rfl

/-- Responses carry no trade id, so histories that agree but for trade ids have
the same responses. -/
theorem responses_of_unnumbered (h : es'.map Event.unnumbered = es.map Event.unnumbered) :
    es'.flatMap (Event.responses tickerId) = es.flatMap (Event.responses tickerId) := by
  have hmap : ∀ es : List Event, es.flatMap (Event.responses tickerId) =
      (es.map Event.unnumbered).flatMap (Event.responses tickerId) := fun es => by
    rw [List.flatMap_map]
    exact congrArg (es.flatMap ·) (funext fun _ => Event.responses_unnumbered.symm)
  rw [hmap, h, ← hmap]

/-- Histories that agree but for trade ids have updates that agree but for trade
ids. -/
theorem updates_of_unnumbered (h : es'.map Event.unnumbered = es.map Event.unnumbered) :
    (es'.flatMap (Event.updates tickerId)).map MarketUpdate.unnumbered =
      (es.flatMap (Event.updates tickerId)).map MarketUpdate.unnumbered := by
  have hmap : ∀ es : List Event,
      (es.flatMap (Event.updates tickerId)).map MarketUpdate.unnumbered =
        (es.map Event.unnumbered).flatMap (Event.updates tickerId) := fun es => by
    rw [List.map_flatMap, List.flatMap_map]
    exact congrArg (es.flatMap ·) (funext fun _ => Event.updates_unnumbered.symm)
  rw [hmap, h, ← hmap]

end Numbers

/-! ### The reference from a later point on -/

namespace Ledger

variable {events : List Event} {L L' : Ledger} {taker maker order : Entry}
  {older newer : List Entry} {event : Event} {op : Op}

/-- The ledger `L'` is `L` after `events`, up to the ids of trades. -/
structure Continues (events : List Event) (L L' : Ledger) : Prop where
  resting : L'.resting = L.resting
  events : L'.events.map Event.unnumbered = (events ++ L.events).map Event.unnumbered

/-- One more event each. -/
theorem Continues.append (h : Continues events L L') {event event' : Event}
    (he : event'.unnumbered = event.unnumbered) :
    (L'.events ++ [event']).map Event.unnumbered =
      (events ++ (L.events ++ [event])).map Event.unnumbered := by
  simp only [List.map_append, h.events, List.map_singleton, he, List.append_assoc]

theorem Continues.record (h : Continues events L L') :
    Continues events (L.record event) (L'.record event) :=
  ⟨h.resting, h.append rfl⟩

theorem Continues.trade (h : Continues events L L') :
    Continues events (L.trade older maker newer taker) (L'.trade older maker newer taker) :=
  ⟨rfl, h.append rfl⟩

theorem Continues.withdraw {clientId : ClientIdT} {side : OrderSide}
    (h : Continues events L L') : Continues events (L.withdraw older order newer clientId side)
      (L'.withdraw older order newer clientId side) :=
  ⟨rfl, h.append rfl⟩

/-- The order that goes to rest is the same in either ledger. -/
theorem Continues.rest (h : Continues events L L') :
    Continues events (L.rest order) (L'.rest order) := by
  unfold Ledger.rest
  split_ifs
  · exact h
  · exact ⟨congrArg (· ++ [order]) h.resting, h.append rfl⟩

/-- The sweep looks at the orders at rest only. -/
theorem Continues.sweep (h : Continues events L L') (n : ℕ) (taker : Entry) :
    Continues events (Reference.sweep n L taker).1 (Reference.sweep n L' taker).1 ∧
      (Reference.sweep n L' taker).2 = (Reference.sweep n L taker).2 := by
  induction n generalizing L L' taker with
  | zero => exact ⟨h, rfl⟩
  | succ n ih =>
    rw [Reference.sweep, Reference.sweep, h.resting]
    split_ifs
    · exact ⟨h, rfl⟩
    · cases Reference.best taker L.resting with
      | none => exact ⟨h, rfl⟩
      | some maker => exact ih h.trade (Ledger.after taker maker)

/-- **A call on the reference** does the same after other events. -/
theorem Continues.step (h : Continues events L L') :
    Continues events (Reference.step L op) (Reference.step L' op) := by
  cases op with
  | add orderId clientId side quantity limitPrice =>
    set taker : Entry := ⟨orderId, clientId, side, quantity, limitPrice⟩
    have haccept : Continues events (L.record (.accepted taker)) (L'.record (.accepted taker)) :=
      h.record
    obtain ⟨hsweep, hleft⟩ := haccept.sweep quantity.toNat taker
    rw [Reference.step, Reference.step]
    dsimp only
    rw [hleft]
    exact hsweep.rest
  | cancel clientId orderId side limitPrice =>
    rw [Reference.step, Reference.step, h.resting]
    split
    · exact h.withdraw
    · exact h.record

/-- The responses of the ledger go behind those of the events. -/
theorem Continues.announced {tickerId : TickerIdT} (h : Continues events L L') :
    L'.announced tickerId =
      events.flatMap (Event.responses tickerId) ++ L.announced tickerId :=
  (responses_of_unnumbered h.events).trans List.flatMap_append

/-- What the ledger published from the later point on goes behind what the
events did. -/
theorem Continues.published {tickerId : TickerIdT} (h : Continues events L L') :
    (L'.published tickerId).map MarketUpdate.unnumbered =
      (events.flatMap (Event.updates tickerId) ++ L.published tickerId).map
        MarketUpdate.unnumbered :=
  (updates_of_unnumbered h.events).trans (congrArg _ List.flatMap_append)

end Ledger

/-! ### One call -/

namespace OrderBook

variable {m l : ℕ} {book book' : OrderBook m l} {ring : Fin l → List (Fin m)}
  {chain : OrderSide → List (Fin l)} {pool pool' : ObjectPool (Order m) m}
  {τ : OrderIdT → OrderIdT}

/-- A cursor is on a free block however the orders are named. -/
theorem cursorOk_of_renamed (h : ObjectPool.PoolRenamed τ pool pool') (hc : pool.CursorOk) :
    pool'.CursorOk := by
  obtain ⟨hlt, hfree⟩ := hc
  have hlt' : pool'.nextFree < m := h.nextFree ▸ hlt
  have hp : (⟨_, hlt'⟩ : Fin m) = ⟨_, hlt⟩ := Fin.ext h.nextFree
  refine ⟨hlt', fun hu => hfree ?_⟩
  rw [← hp]
  exact (h.available _).symm.trans hu

/-- A renamed book has the chains of the book. -/
theorem Renamed.ordered (h : Renamed τ book book') (ho : Ordered book ring chain) :
    Ordered book' ring chain := by
  obtain ⟨pool, hp, rfl⟩ := h.exists_pool
  refine ⟨h.sound ho.toSound, ho.toChains.congr (fun _ => rfl) (fun _ => rfl) (fun _ => rfl)
    (fun _ _ => rfl) (fun _ => Iff.rfl), fun b o hb => ?_, cursorOk_of_renamed hp ho.orderCursor,
    ho.levelCursor⟩
  exact (h.order Order.side fun _ => rfl).trans (ho.orderSide b o hb)

end OrderBook

namespace World

variable {m l : ℕ} {w : World m l} {ring : Fin l → List (Fin m)} {resting : List Entry} {op : Op}

/-- What a call pushes and leaves is what the ledger `L` has: the messages behind
those that were there, and the orders on a book in order. -/
structure Made (w w' : World m l) (L : Ledger) : Prop where
  tickerId : w'.tickerId = w.tickerId
  ordered : IsOrdered w'.toOrderBook
  holds : ∃ ring, Holds w'.toOrderBook ring L.resting
  responses : w'.responses.map ClientResponse.untimed =
    w.responses.map ClientResponse.untimed ++ L.announced w.tickerId
  updates : w'.updates.map MarketUpdate.untimed =
    w.updates.map MarketUpdate.untimed ++ L.published w.tickerId

/-- **A call on a book in order** does what the reference does from the orders at
rest on, unless a pool runs out. -/
theorem step_made (hord : IsOrdered w.toOrderBook) (hh : Holds w.toOrderBook ring resting)
    (hs : op.Sided) (hf : OpensInFront w op) :
    (∃ w', w.step op = .ok w' ∧
        Made w w' (Reference.step { resting, nextTradeId := w.nextTradeId } op)) ∨
      w.step op = .error bufferIsFull := by
  have hp : Parallel id 0 w.cleared w w.cleared w := Parallel.start .refl (UInt32.add_zero _).symm
  have hsep : ∀ orderId, op.addedId = some orderId → Separates id orderId := fun _ _ _ he => he
  have hlock := step_lockstep hp hh.toSound hsep
  rw [Op.rename_id] at hlock
  have hk : Keeps w.tickerId w.cleared { resting, nextTradeId := w.nextTradeId } :=
    ⟨⟨rfl, rfl, rfl⟩, rfl, ring, hh⟩
  rcases step_total (w := w.cleared) hord hk hs hf with ⟨w₁, hw₁, hord₁, hk₁⟩ | hfull
  · obtain ⟨w', hw', hp'⟩ := hlock.of_ok hw₁
    obtain ⟨ring₁, chain₁, hord₁⟩ := hord₁
    obtain ⟨ring', hh'⟩ := hk₁.holds
    refine Or.inl ⟨w', hw', hp'.book.tickerId.trans hp'.tickerId,
      ⟨ring₁, chain₁, hp'.book.ordered hord₁⟩, ⟨ring', hp'.book.holds hh'⟩, ?_, ?_⟩
    · rw [hp'.responses.map_eq, ClientResponse.rename_id, hk₁.announced]
      rfl
    · have hzero : MarketUpdate.rename id (· + (0 : TradeIdT)) = MarketUpdate.untimed :=
        MarketUpdate.rename_id
      rw [hp'.updates.map_eq, hzero, hk₁.published]
      rfl
  · exact Or.inr (hlock.of_error hfull)

end World

/-! ### Requests -/

namespace Exchange

variable {m l : ℕ} {e e₀ e' : Exchange m l} {t : TickerIdT} {request : ClientRequest}
  {requests : List ClientRequest} {tickerIds : List TickerIdT} {clock : ℕ → NsTimestampT}
  {book : OrderBook m l} {w : World m l} {L : Ledger} {op : Op}

/-- A request is for a ticker of the exchange, to buy or to sell if it adds an
order, and a level it creates opens in front of its side. -/
def Regular (e : Exchange m l) (request : ClientRequest) : Prop :=
  ∀ op ∈ request.op e.nextOrderId, op.Sided ∧
    ∃ book ∈ e.bookOf request.tickerId, World.OpensInFront (e.world book) op

instance (e : Exchange m l) (request : ClientRequest) : Decidable (e.Regular request) :=
  inferInstanceAs (Decidable (∀ op ∈ request.op e.nextOrderId, op.Sided ∧
    ∃ book ∈ e.bookOf request.tickerId, World.OpensInFront (e.world book) op))

/-- The reference book of a ticker after some requests. -/
def reference (t : TickerIdT) (requests : List ClientRequest) : Ledger :=
  Reference.run (callsOn t 1 requests)

/-- For every ticker, what the exchange has sent is what the reference book
announces, up to timestamps and the ids of trades, and the book holds the orders
of the reference, its chains in order. -/
structure Refines (requests : List ClientRequest) (e : Exchange m l) : Prop where
  next : e.nextOrderId = nextAfter 1 requests
  responses : ∀ t, (responsesFor t e.responses).map ClientResponse.untimed =
    (reference t requests).announced t
  updates : ∀ t, (updatesFor t e.updates).map MarketUpdate.unnumbered =
    ((reference t requests).published t).map MarketUpdate.unnumbered
  book : ∀ t book, e.bookOf t = some book → book.tickerId = t ∧ IsOrdered book ∧
    ∃ ring, Holds book ring (reference t requests).resting

/-- A fresh exchange, whose books are empty, refines the reference before any
request. -/
theorem Fresh.refines (h : Fresh e) (hm : 0 < m) (hl : 0 < l) : Refines [] e where
  next := h.nextOrderId
  responses t := by
    rw [h.responses]
    rfl
  updates t := by
    rw [h.updates]
    rfl
  book t book hb := by
    obtain rfl := Option.some.inj ((h.books t (mem_of_bookOf hb)).symm.trans hb)
    exact ⟨rfl, isOrdered_new hm hl t, _, holds_new m l t⟩

/-- The last request adds its call to the reference of its ticker. -/
theorem reference_concat : reference t (requests ++ [request]) =
    (request.callOn t (nextAfter 1 requests)).foldl Reference.step (reference t requests) := by
  rw [reference, callsOn_concat, Reference.run, List.foldl_append]
  rfl

/-- A request that makes no call changes nothing. -/
theorem Refines.skip (h : Refines requests e) (hop : request.op e.nextOrderId = none) :
    e.processRequest request = .ok e ∧ Refines (requests ++ [request]) e := by
  have htype : request.type = .invalid := by
    cases ht : request.type <;> simp [ClientRequest.op, ht] at hop ⊢
  have hsame : ∀ t, reference t (requests ++ [request]) = reference t requests := fun t => by
    rw [reference_concat, ← h.next, ClientRequest.callOn, hop]
    split_ifs <;> rfl
  refine ⟨by rw [processRequest, htype]; rfl, ?_, fun t => ?_, fun t => ?_, fun t => ?_⟩
  · rw [nextAfter_concat, ← h.next, ClientRequest.advance, if_neg (by simp [htype])]
  · rw [hsame]
    exact h.responses t
  · rw [hsame]
    exact h.updates t
  · rw [hsame]
    exact h.book t

/-- **A request is a call on the reference book of its ticker,** and leaves the
others. -/
theorem Refines.call (h : Refines requests e) (hop : request.op e.nextOrderId = some op)
    (hb : e.bookOf request.tickerId = some book)
    (hmade : World.Made (e.world book) w (Reference.step
      { resting := (reference request.tickerId requests).resting, nextTradeId := e.nextTradeId }
      op)) :
    Refines (requests ++ [request]) { e.withWorld request.tickerId w with
      nextOrderId := request.advance e.nextOrderId } := by
  have hbt : book.tickerId = request.tickerId := (h.book _ book hb).1
  have hresp := hmade.responses
  have hupd := hmade.updates
  rw [show (e.world book).tickerId = request.tickerId from hbt] at hresp hupd
  set L := reference request.tickerId requests with hL
  set L' := Reference.step { resting := L.resting, nextTradeId := e.nextTradeId } op with hL'
  have hcont : Ledger.Continues L.events L' (Reference.step L op) :=
    Ledger.Continues.step ⟨rfl, by rw [List.append_nil]⟩
  have hself : reference request.tickerId (requests ++ [request]) = Reference.step L op := by
    rw [reference_concat, ← h.next, ClientRequest.callOn, if_pos rfl, hop]
    rfl
  have hother : ∀ t, request.tickerId ≠ t →
      reference t (requests ++ [request]) = reference t requests := fun t ht => by
    rw [reference_concat, ClientRequest.callOn, if_neg ht]
    rfl
  refine ⟨?_, fun t => ?_, fun t => ?_, fun t book' hb' => ?_⟩
  · rw [nextAfter_concat, ← h.next]
  · rw [← responsesFor_untimed]
    refine (congrArg _ hresp).trans ?_
    rw [responsesFor_append, responsesFor_announced, responsesFor_untimed]
    refine (congrArg (· ++ _) (h.responses t)).trans ?_
    by_cases ht : request.tickerId = t
    · subst ht
      rw [if_pos rfl, hself, hcont.announced]
      rfl
    · rw [if_neg ht, hother t ht, List.append_nil]
  · have hmap : ∀ us, (updatesFor t us).map MarketUpdate.unnumbered =
        (updatesFor t (us.map MarketUpdate.untimed)).map MarketUpdate.unnumbered := fun us => by
      rw [updatesFor_untimed, List.map_map, MarketUpdate.unnumbered_comp_untimed]
    refine (hmap w.updates).trans ?_
    rw [hupd, updatesFor_append, updatesFor_published, List.map_append, ← hmap]
    refine (congrArg (· ++ _) (h.updates t)).trans ?_
    by_cases ht : request.tickerId = t
    · subst ht
      rw [if_pos rfl, hself, hcont.published, List.map_append]
      rfl
    · rw [if_neg ht, hother t ht, List.map_nil, List.append_nil]
  · have hbook : (e.withWorld request.tickerId w).bookOf t = some book' := hb'
    rw [bookOf_withWorld] at hbook
    by_cases ht : request.tickerId = t
    · subst ht
      rw [if_pos rfl, Option.some.injEq] at hbook
      subst hbook
      rw [hself, hcont.resting]
      exact ⟨hmade.tickerId.trans hbt, hmade.ordered, hmade.holds⟩
    · rw [if_neg (Ne.symm ht)] at hbook
      rw [hother t ht]
      exact h.book t book' hbook

/-- **A request** is processed, unless a pool runs out. -/
theorem Refines.step (h : Refines requests e) (hr : e.Regular request) :
    (∃ e', e.processRequest request = .ok e' ∧ Refines (requests ++ [request]) e') ∨
      e.processRequest request = .error bufferIsFull := by
  cases hop : request.op e.nextOrderId with
  | none => exact Or.inl ⟨e, h.skip hop⟩
  | some op =>
    obtain ⟨hs, book, hb, hf⟩ := hr op hop
    obtain ⟨-, hord, ring, hh⟩ := h.book _ book hb
    rw [processRequest_eq hop hb]
    rcases World.step_made (w := e.world book) hord hh hs hf with ⟨w, hw, hmade⟩ | hfull
    · exact Or.inl ⟨_, by rw [hw]; rfl, h.call hop hb hmade⟩
    · exact Or.inr (by rw [hfull]; rfl)

/-! ### Runs -/

/-- The trades are those of the reference book. -/
theorem Refines.trades_eq (h : Refines requests e) (t : TickerIdT) :
    trades (responsesFor t e.responses) = Reference.trades (callsOn t 1 requests) := by
  rw [← trades_untimed, h.responses t, Ledger.announced, trades_flatMap]
  rfl

/-- A book that refines the reference is represented. -/
theorem Refines.isRepresented (h : Refines requests e) (hb : e.bookOf t = some book) :
    IsRepresented book := by
  obtain ⟨-, ⟨ring, chain, hord⟩, -⟩ := h.book t book hb
  exact ⟨_, _, hord.represented⟩

/-- **An exchange refines the reference or is full:** a run of regular requests
ends only with a pool that has no block left. -/
theorem refines_or_full (hm : 0 < m) (hl : 0 < l) (h₀ : new m l tickerIds clock = .ok e₀)
    (hr : EachStep processRequest Regular e₀ requests) :
    (∃ e, e₀.run requests = .ok e ∧ Refines requests e) ∨
      e₀.run requests = .error bufferIsFull :=
  foldlM_of_eachStep (P := fun requests e => Refines requests e) (Q := fun _ => True)
    (fun _ _ _ => trivial) ((new_ok h₀).1.refines hm hl) (fun _ _ _ _ h hr => h.step hr) trivial hr

/-- **Every book of an exchange is the reference book.**  A run of regular
requests is processed to its end, unless a pool runs out; then, for every
ticker, the responses and the updates are, but for timestamps and trade ids,
those that the reference book sends for the calls on the ticker, the trades are
its trades, its orders are at rest, and both chains of the book are in order. -/
theorem refines_of_run (hm : 0 < m) (hl : 0 < l) (h₀ : new m l tickerIds clock = .ok e₀)
    (hr : EachStep processRequest Regular e₀ requests) :
    (∃ e, e₀.run requests = .ok e ∧ Refines requests e ∧
        ∀ t, trades (responsesFor t e.responses) = Reference.trades (callsOn t 1 requests) ∧
          ∀ book, e.bookOf t = some book → IsRepresented book) ∨
      e₀.run requests = .error bufferIsFull :=
  (refines_or_full hm hl h₀ hr).imp_left fun ⟨e, he, h⟩ =>
    ⟨e, he, h, fun t => ⟨h.trades_eq t, fun _ hb => h.isRepresented hb⟩⟩

/-- The requests of the two tickers open their levels in front. -/
theorem regular_of_mixedRequests {e₀ : Exchange maxOrderIds maxPriceLevels}
    (h₀ : new maxOrderIds maxPriceLevels [1, 2] (fun _ => 0) = .ok e₀) :
    EachStep processRequest Regular e₀ mixedRequests := by
  have hrun : ∃ e₁, new maxOrderIds maxPriceLevels [1, 2] (fun _ => 0) = .ok e₁ ∧
      EachStep processRequest Regular e₁ mixedRequests := by
    decide +kernel
  obtain ⟨e₁, h₁, hr⟩ := hrun
  obtain rfl := Except.ok.inj (h₀.symm.trans h₁)
  exact hr

/-- The requests of the two tickers are an instance. -/
theorem refines_of_mixedRequests :
    ∃ e₀ e, new maxOrderIds maxPriceLevels [1, 2] (fun _ => 0) = .ok e₀ ∧
      e₀.run mixedRequests = .ok e ∧ Refines mixedRequests e := by
  obtain ⟨e₀, e, h₀, h⟩ := mixedRequests_returns
  refine ⟨e₀, e, h₀, h, ?_⟩
  rcases refines_of_run (by decide) (by decide) h₀ (regular_of_mixedRequests h₀) with
    ⟨e', h', href, -⟩ | hfull
  · obtain rfl := Except.ok.inj (h.symm.trans h')
    exact href
  · rw [h] at hfull
    cases hfull

end Exchange

end CppExchange
