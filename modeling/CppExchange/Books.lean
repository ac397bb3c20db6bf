import CppExchange.Feed
import CppExchange.Isolation

/-!
# The books of an exchange and their ledgers

Every book keeps a ledger, and all books take their trade ids from one counter:
a `Ledger.Turn` is a step of a ledger whose next trade gets the id that the
counter has reached.  After every run of an exchange the book of each ticker, and
the messages about the ticker, are those of a ledger (`booked_of_run`) that the
calls for the ticker have led to (`callsOn`).  So what steps of a ledger keep
holds of each ticker, however the requests for different tickers are mixed.
-/

namespace CppExchange

open Library OrderBook

namespace Ledger

variable {L L' : Ledger} {taker taker' : Entry} {op : Op} {ops : List Op} {tickerId : TickerIdT}

/-- A step, with the id that the next trade of the exchange gets. -/
def Turn (L : Ledger) (op : Op) (L' : Ledger) : Prop :=
  ∃ nextTradeId, Step { L with nextTradeId } op L'

/-- The ledger with `events` before its own. -/
def since (L : Ledger) (events : List Event) : Ledger := { L with events := events ++ L.events }

/-- A trade does not look at the history, so it can be made after any other
history. -/
theorem Fill.since (h : L.Fill taker L' taker') (events : List Event) :
    (L.since events).Fill taker (L'.since events) taker' := by
  cases h with
  | @mk maker older newer resting oldest takerLeft makerLeft within =>
    have htrade : (L.trade older maker newer taker).since events =
        (L.since events).trade older maker newer taker := by
      simp [Ledger.since, trade, List.append_assoc]
    rw [htrade]
    exact .mk resting oldest takerLeft makerLeft within

/-- The trades of an order do not look at the history either. -/
theorem Fills.since (h : L.Fills taker L' taker') (events : List Event) :
    (L.since events).Fills taker (L'.since events) taker' := by
  induction h with
  | refl => exact .refl _ _
  | snoc _ fill ih => exact ih.snoc (fill.since events)

theorem record_since {event : Event} {events : List Event} :
    (L.record event).since events = (L.since events).record event := by
  simp [Ledger.since, record, List.append_assoc]

theorem rest_since {order : Entry} {events : List Event} :
    (L.rest order).since events = (L.since events).rest order := by
  unfold rest
  split_ifs <;> simp [Ledger.since, List.append_assoc]

/-- **What a call does** does not depend on what happened before it. -/
theorem Step.since (h : L.Step op L') (events : List Event) :
    (L.since events).Step op (L'.since events) := by
  cases h with
  | add fills =>
    have hfills := fills.since events
    rw [record_since] at hfills
    rw [rest_since]
    exact .add hfills
  | @cancelHit order older newer clientId side resting oldest =>
    have hwithdraw : (L.withdraw older order newer clientId side).since events =
        (L.since events).withdraw older order newer clientId side := by
      simp [Ledger.since, withdraw, List.append_assoc]
    rw [hwithdraw]
    exact .cancelHit clientId side resting oldest
  | cancelMiss clientId side absent =>
    rw [record_since]
    exact .cancelMiss clientId side absent

/-- The updates that announce the ledger after more events. -/
theorem announced_since {events : List Event} : (L.since events).announced tickerId =
    events.flatMap (Event.responses tickerId) ++ L.announced tickerId := List.flatMap_append

theorem published_since {events : List Event} : (L.since events).published tickerId =
    events.flatMap (Event.updates tickerId) ++ L.published tickerId := List.flatMap_append

/-! ### What turns keep -/

/-- **The rule for turns.**  A property that steps keep, and that does not look
at the next trade id. -/
theorem turns_induction {P : List Op → Ledger → Prop} (nil : P [] {})
    (renumber : ∀ ops L nextTradeId, P ops L → P ops { L with nextTradeId })
    (step : ∀ ops op L L', Step L op L' → P ops L → P (ops ++ [op]) L')
    (h : Runs Turn {} ops L) : P ops L := by
  induction h with
  | nil => exact nil
  | @snoc ops op L L' _ turn ih =>
    obtain ⟨nextTradeId, hstep⟩ := turn
    exact step ops op _ L' hstep (renumber ops L nextTradeId ih)

/-- Turns count the orders as steps do. -/
theorem counted_of_turns (tickerId : TickerIdT) (h : Runs Turn {} ops L) :
    Counted tickerId (addedIds ops) L :=
  turns_induction (P := fun ops L => Counted tickerId (addedIds ops) L) (fun _ => le_rfl)
    (fun _ _ _ hc => hc) (fun _ _ _ _ step hc => step.counted hc) h

/-- **The messages of a ledger replay** over turns as they do over steps:
replaying reads no trade id, which is all that a turn changes beforehand. -/
theorem replays_of_turns (tickerId : TickerIdT) (h : Runs Turn {} ops L)
    (hd : (addedIds ops).Nodup) : Replays tickerId L := by
  refine (turns_induction (P := fun ops L => Counted tickerId (addedIds ops) L ∧
    ((addedIds ops).Nodup → Replays tickerId L)) ⟨fun _ => le_rfl, fun _ => rfl⟩
    (fun _ _ _ hp => hp) (fun ops op L L' step hp => ?_) h).2 hd
  refine ⟨step.counted hp.1, fun hd => step.replays hd hp.1 (hp.2 ?_)⟩
  rw [addedIds_concat] at hd
  exact (List.nodup_append.1 hd).1

end Ledger

/-! ### The calls on a book -/

/-- The call that a request makes on the book of `t`, if it makes one. -/
def ClientRequest.callOn (t : TickerIdT) (next : OrderIdT) (request : ClientRequest) : List Op :=
  if request.tickerId = t then (request.op next).toList else []

/-- The calls that requests make on the book of `t`, `next` being the next order
id of the exchange. -/
def callsOn (t : TickerIdT) : OrderIdT → List ClientRequest → List Op
  | _, [] => []
  | next, request :: requests =>
    request.callOn t next ++ callsOn t (request.advance next) requests

/-- The next order id after some requests. -/
def nextAfter (next : OrderIdT) (requests : List ClientRequest) : OrderIdT :=
  requests.foldl (fun next request => request.advance next) next

section Calls

variable {t t' : TickerIdT} {next orderId : OrderIdT} {requests : List ClientRequest}
  {request : ClientRequest} {events : List Event} {L : Ledger} {rs rs' : List ClientResponse}
  {us us' : List MarketUpdate}

/-- The last request adds its call, with the order id that the requests before
it have led to. -/
theorem callsOn_concat : callsOn t next (requests ++ [request]) =
    callsOn t next requests ++ request.callOn t (nextAfter next requests) := by
  induction requests generalizing next with
  | nil => exact List.append_nil _
  | cons r requests ih =>
    rw [List.cons_append, callsOn, callsOn, ih, List.append_assoc]
    rfl

theorem nextAfter_concat : nextAfter next (requests ++ [request]) =
    request.advance (nextAfter next requests) := List.foldl_append

/-- A request adds an order id to the calls on a ticker when it is an add for
that ticker. -/
theorem addedIds_callOn : addedIds (request.callOn t next) =
    if request.type = .add ∧ request.tickerId = t then [next] else [] := by
  unfold ClientRequest.callOn
  by_cases ht : request.tickerId = t
  · cases hop : request.op next with
    | none =>
      have hne : request.type ≠ .add := fun hadd => by simp [ClientRequest.op, hadd] at hop
      simp [ht, hne, addedIds]
    | some op =>
      have hid := ClientRequest.addedId_op hop
      by_cases hadd : request.type = .add <;> simp [ht, hadd, addedIds, hid]
  · simp [ht, addedIds]

/-- The ids of the orders on a book are those the exchange issued to its ticker. -/
theorem addedIds_callsOn : addedIds (callsOn t next requests) = issuedTo t next requests := by
  induction requests generalizing next with
  | nil => rfl
  | cons request requests ih =>
    have happend : ∀ as bs, addedIds (as ++ bs) = addedIds as ++ addedIds bs := fun _ _ =>
      List.filterMap_append
    rw [callsOn, happend, addedIds_callOn, ih, issuedTo]
    split_ifs <;> rfl

/-- **An id is issued to one ticker.** -/
theorem ticker_of_issuedTo (h : (addRequests requests).length < 2 ^ 32)
    (ht : orderId ∈ issuedTo t next requests) (ht' : orderId ∈ issuedTo t' next requests) :
    t = t' := by
  induction requests generalizing next with
  | nil => cases ht
  | cons request requests ih =>
    by_cases hadd : request.type = .add
    · have hkeep : addRequests (request :: requests) = request :: addRequests requests :=
        List.filter_cons_of_pos (by simpa using hadd)
      rw [hkeep, List.length_cons] at h
      have hlater : ∀ s, next ∉ issuedTo s (next + 1) requests := fun s hs => by
        have hnd : (countFrom next ((addRequests requests).length + 1)).Nodup :=
          countFrom_nodup h.le
        rw [countFrom_cons, List.nodup_cons] at hnd
        exact hnd.1 (issuedTo_sublist.subset hs)
      have hcases : ∀ s, orderId ∈ issuedTo s next (request :: requests) →
          orderId = next ∧ request.tickerId = s ∨ orderId ∈ issuedTo s (next + 1) requests := by
        intro s hs
        by_cases hrs : request.tickerId = s
        · rw [issuedTo_cons_add hadd hrs, List.mem_cons] at hs
          exact hs.imp_left fun he => ⟨he, hrs⟩
        · rw [issuedTo_cons_of_not fun hc => hrs hc.2, ClientRequest.advance, if_pos hadd] at hs
          exact Or.inr hs
      rcases hcases t ht with ⟨rfl, he⟩ | hmem <;> rcases hcases t' ht' with ⟨he₀, he'⟩ | hmem'
      · exact he.symm.trans he'
      · exact absurd hmem' (hlater t')
      · exact absurd (he₀ ▸ hmem) (hlater t)
      · exact ih (by omega) hmem hmem'
    · have hskip : addRequests (request :: requests) = addRequests requests :=
        List.filter_cons_of_neg (by simpa using hadd)
      rw [issuedTo_cons_of_not fun hc => hadd hc.1] at ht ht'
      exact ih (hskip ▸ h) ht ht'

/-! ### The messages about a ticker -/

theorem responsesFor_append :
    responsesFor t (rs ++ rs') = responsesFor t rs ++ responsesFor t rs' := List.filter_append ..

theorem updatesFor_append : updatesFor t (us ++ us') = updatesFor t us ++ updatesFor t us' :=
  List.filter_append ..

theorem responsesFor_untimed : responsesFor t (rs.map ClientResponse.untimed) =
    (responsesFor t rs).map ClientResponse.untimed := List.filter_map

theorem updatesFor_untimed : updatesFor t (us.map MarketUpdate.untimed) =
    (updatesFor t us).map MarketUpdate.untimed := List.filter_map

/-- What a ledger announces for a ticker carries that ticker. -/
theorem tickerId_of_mem_announced {r : ClientResponse} (h : r ∈ L.announced t) :
    r.tickerId = t := by
  obtain ⟨event, -, hr⟩ := List.mem_flatMap.1 h
  cases event <;> simp only [Event.responses, List.mem_cons, List.not_mem_nil, or_false] at hr
  case traded => rcases hr with rfl | rfl <;> rfl
  all_goals rw [hr]

/-- What a ledger publishes for a ticker carries that ticker. -/
theorem tickerId_of_mem_published {u : MarketUpdate} (h : u ∈ L.published t) : u.tickerId = t := by
  obtain ⟨event, -, hu⟩ := List.mem_flatMap.1 h
  cases event <;> simp only [Event.updates, List.mem_cons, List.not_mem_nil, or_false] at hu
  case traded =>
    rcases hu with rfl | rfl
    · rfl
    · split_ifs <;> rfl
  all_goals rw [hu]

/-- What a ledger announces is about its ticker. -/
theorem responsesFor_announced :
    responsesFor t (L.announced t') = if t' = t then L.announced t' else [] := by
  split_ifs with h
  · exact List.filter_eq_self.2 fun r hr => by simpa using (tickerId_of_mem_announced hr).trans h
  · refine List.filter_eq_nil_iff.2 fun r hr => ?_
    simpa using (tickerId_of_mem_announced hr).trans_ne h

/-- The updates of one ticker's ledger are all about that ticker, none about
another. -/
theorem updatesFor_published :
    updatesFor t (L.published t') = if t' = t then L.published t' else [] := by
  split_ifs with h
  · exact List.filter_eq_self.2 fun u hu => by simpa using (tickerId_of_mem_published hu).trans h
  · refine List.filter_eq_nil_iff.2 fun u hu => ?_
    simpa using (tickerId_of_mem_published hu).trans_ne h

end Calls

namespace Exchange

variable {m l : ℕ} {e e₀ e' : Exchange m l} {t : TickerIdT} {request : ClientRequest}
  {requests : List ClientRequest} {tickerIds : List TickerIdT} {clock : ℕ → NsTimestampT}
  {L : Ledger} {book : OrderBook m l}

/-! ### The ledgers -/

/-- The book of `t` and the messages about `t` are those of the ledger `L`, to
which the requests for `t` lead. -/
structure Kept (t : TickerIdT) (requests : List ClientRequest) (e : Exchange m l) (L : Ledger) :
    Prop where
  runs : Runs Ledger.Turn {} (callsOn t 1 requests) L
  announced : (responsesFor t e.responses).map ClientResponse.untimed = L.announced t
  published : (updatesFor t e.updates).map MarketUpdate.untimed = L.published t
  book : ∀ book, e.bookOf t = some book → book.tickerId = t ∧ ∃ ring, Holds book ring L.resting
  unlisted : e.bookOf t = none → L = {}

/-- Every ticker has its ledger. -/
structure Booked (requests : List ClientRequest) (e : Exchange m l) : Prop where
  next : e.nextOrderId = nextAfter 1 requests
  ledger : ∀ t, ∃ L, Kept t requests e L

/-- A fresh exchange is booked by empty ledgers. -/
theorem Fresh.booked (h : Fresh e) : Booked [] e where
  next := h.nextOrderId
  ledger t := by
    refine ⟨{}, .nil, by rw [h.responses]; rfl, by rw [h.updates]; rfl, fun book hb => ?_,
      fun _ => rfl⟩
    obtain rfl := Option.some.inj ((h.books t (mem_of_bookOf hb)).symm.trans hb)
    exact ⟨rfl, _, holds_new m l t⟩

/-- A request for another ticker, or none at all. -/
theorem Kept.other (hk : Kept t requests e L) (hcall : request.callOn t e.nextOrderId = [])
    (hn : e.nextOrderId = nextAfter 1 requests)
    (hresp : responsesFor t (e'.responses.map ClientResponse.untimed) =
      responsesFor t (e.responses.map ClientResponse.untimed))
    (hupd : updatesFor t (e'.updates.map MarketUpdate.untimed) =
      updatesFor t (e.updates.map MarketUpdate.untimed))
    (hb : e'.bookOf t = e.bookOf t) : Kept t (requests ++ [request]) e' L where
  runs := by
    rw [callsOn_concat, ← hn, hcall, List.append_nil]
    exact hk.runs
  announced := by rw [← responsesFor_untimed, hresp, responsesFor_untimed, hk.announced]
  published := by rw [← updatesFor_untimed, hupd, updatesFor_untimed, hk.published]
  book := hb ▸ hk.book
  unlisted := hb ▸ hk.unlisted

/-- **A request is a turn of the ledger of its ticker,** and leaves the others. -/
theorem Booked.step (h : Booked requests e) (hr : e.processRequest request = .ok e') :
    Booked (requests ++ [request]) e' where
  next := by rw [nextOrderId_of_ok hr, h.next, nextAfter_concat]
  ledger t := by
    obtain ⟨L, hk⟩ := h.ledger t
    rcases processRequest_ok hr with ⟨htype, rfl⟩ | ⟨op, book, w, hop, hb, hw, rfl⟩
    · refine ⟨L, hk.other ?_ h.next rfl rfl rfl⟩
      simp [ClientRequest.callOn, ClientRequest.op, htype]
    · obtain ⟨L₁, hk₁⟩ := h.ledger request.tickerId
      obtain ⟨hbt, ring, hh⟩ := hk₁.book book hb
      obtain ⟨L', hstep, ⟨ring', hh'⟩, htick, -, hresp, hupd⟩ := World.step_records hh hw
      rw [show (e.world book).tickerId = request.tickerId from hbt] at hresp hupd htick
      by_cases ht : request.tickerId = t
      · subst ht
        have hcall : request.callOn request.tickerId e.nextOrderId = [op] := by
          simp [ClientRequest.callOn, hop]
        have hturn : Ledger.Turn L₁ op (L'.since L₁.events) := by
          refine ⟨e.nextTradeId, ?_⟩
          have hsince := hstep.since L₁.events
          rwa [Ledger.since, List.append_nil] at hsince
        refine ⟨L'.since L₁.events, ?_, ?_, ?_, fun book' hb' => ?_, fun hb' => ?_⟩
        · rw [callsOn_concat, ← h.next, hcall]
          exact hk₁.runs.snoc hturn
        · rw [← responsesFor_untimed]
          refine (congrArg _ hresp).trans ?_
          rw [responsesFor_append, responsesFor_announced, if_pos rfl, responsesFor_untimed,
            Ledger.announced_since]
          exact congrArg (· ++ _) hk₁.announced
        · rw [← updatesFor_untimed]
          refine (congrArg _ hupd).trans ?_
          rw [updatesFor_append, updatesFor_untimed, Ledger.published_since]
          exact congrArg₂ _ hk₁.published (updatesFor_published.trans (if_pos rfl))
        · obtain rfl := Option.some.inj ((bookOf_withWorld.trans (if_pos rfl)).symm.trans hb')
          exact ⟨htick, ring', hh'⟩
        · cases (bookOf_withWorld.trans (if_pos rfl)).symm.trans hb'
      · refine ⟨L, hk.other ?_ h.next ?_ ?_ (bookOf_withWorld.trans (if_neg (Ne.symm ht)))⟩
        · simp [ClientRequest.callOn, ht]
        · refine (congrArg _ hresp).trans ?_
          rw [responsesFor_append, responsesFor_announced, if_neg ht, List.append_nil]
          rfl
        · refine (congrArg _ hupd).trans ?_
          rw [updatesFor_append]
          refine (congrArg (_ ++ ·) (updatesFor_published.trans (if_neg ht))).trans ?_
          exact List.append_nil _

/-- **Every ticker has its ledger** after every run of a new exchange. -/
theorem booked_of_run (h₀ : new m l tickerIds clock = .ok e₀) (h : e₀.run requests = .ok e) :
    Booked requests e :=
  foldlM_induction (P := fun requests e => Booked requests e) (new_ok h₀).1.booked
    (fun _ _ _ _ _ hb hr => hb.step hr) h

/-- Before the counter of the order ids wraps, the orders of a book have ids of
their own. -/
theorem addedIds_callsOn_nodup (hadds : (addRequests requests).length < 2 ^ 32) :
    (addedIds (callsOn t 1 requests)).Nodup := by
  rw [addedIds_callsOn]
  exact issuedTo_nodup hadds

/-- An order that rests got its id from the exchange, for its ticker. -/
theorem Kept.mem_issuedTo {order : Entry} (hk : Kept t requests e L) (ho : order ∈ L.resting) :
    order.orderId ∈ issuedTo t 1 requests := by
  rw [← addedIds_callsOn, ← List.count_pos_iff]
  have hcount := Ledger.counted_of_turns t hk.runs order.orderId
  have hpos : 0 < (L.resting.map Entry.orderId).count order.orderId :=
    List.count_pos_iff.2 (List.mem_map_of_mem ho)
  omega

/-- Orders on two tickers: offers, a bid that takes one of them in part, a cancel
of the rest of it, and a cancel of an order that there is not. -/
def mixedRequests : List ClientRequest :=
  [{ type := .add, tickerId := 1, clientId := 1, side := .sell, quantity := 10, limitPrice := 100 },
    { type := .add, tickerId := 2, clientId := 1, side := .sell, quantity := 5, limitPrice := 40 },
    { type := .add, tickerId := 1, clientId := 2, side := .buy, quantity := 4, limitPrice := 100 },
    { type := .cancel, tickerId := 2, clientId := 2, orderId := 1, side := .sell,
      limitPrice := 40 },
    { type := .cancel, tickerId := 1, clientId := 1, orderId := 1, side := .sell,
      limitPrice := 100 }]

/-- The requests of the two tickers run to their end. -/
theorem mixedRequests_returns :
    ∃ e₀ e, new maxOrderIds maxPriceLevels [1, 2] (fun _ => 0) = .ok e₀ ∧
      e₀.run mixedRequests = .ok e := by
  have hrun : ∃ e₀, new maxOrderIds maxPriceLevels [1, 2] (fun _ => 0) = .ok e₀ ∧
      (e₀.run mixedRequests).isOk = true := by
    decide +kernel
  obtain ⟨e₀, h₀, hok⟩ := hrun
  obtain ⟨e, h⟩ := exists_of_isOk hok
  exact ⟨e₀, e, h₀, h⟩

end Exchange

end CppExchange
