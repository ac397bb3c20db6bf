import CppExchange.Books
import CppExchange.Story

/-!
# The tape of an exchange

The two queues of an exchange as a whole.  A request makes the exchange push a
round of messages (`Tells`): an ADD is accepted and told as a list of deals, a
CANCEL has one answer, and an invalid request has none.  What an exchange pushes
is one round for each request, in the order of the requests, with the order ids
and the trade ids of all tickers counted through (`told_of_requests`).  So every
request is answered, once and in turn (`answers_of_run`), and there are at most
three messages a request in either queue (`length_le_of_run`).
-/

namespace CppExchange

open Library OrderBook

/-- The order that an ADD request asks for. -/
def ClientRequest.order (request : ClientRequest) (orderId : OrderIdT) : Entry where
  orderId := orderId
  clientId := request.clientId
  side := request.side
  quantity := request.quantity
  limitPrice := request.limitPrice

/-- The messages that one request makes the exchange push, without their times,
and the number of its trades. -/
structure Round where
  responses : List ClientResponse
  updates : List MarketUpdate
  trades : ℕ

/-- The round of an order with its deals. -/
def Round.ofDeals (tickerId : TickerIdT) (order : Entry) (deals : List Deal) (left : QuantityT) :
    Round where
  responses := (Event.accepted order).responses tickerId ++
    deals.flatMap fun deal => (deal.event order).responses tickerId
  updates := deals.flatMap (fun deal => (deal.event order).updates tickerId) ++
    if left = 0 then [] else (Event.rested { order with quantity := left }).updates tickerId
  trades := deals.length

/-- The round of an event that is no trade. -/
def Round.ofEvent (tickerId : TickerIdT) (event : Event) : Round where
  responses := event.responses tickerId
  updates := event.updates tickerId
  trades := 0

/-- What a request makes the exchange tell, when `nextOrderId` and `nextTradeId`
are its next ids. -/
inductive Tells (nextOrderId : OrderIdT) (nextTradeId : TradeIdT) (request : ClientRequest) :
    Round → Prop
  | invalid (type : request.type = .invalid) : Tells nextOrderId nextTradeId request ⟨[], [], 0⟩
  | added {deals : List Deal} {left : QuantityT} (type : request.type = .add)
      (dealt : Dealt nextTradeId (request.order nextOrderId) deals left) :
      Tells nextOrderId nextTradeId request
        (.ofDeals request.tickerId (request.order nextOrderId) deals left)
  | canceled {order : Entry} (type : request.type = .cancel)
      (orderId : order.orderId = request.orderId)
      (limitPrice : order.limitPrice = request.limitPrice) :
      Tells nextOrderId nextTradeId request
        (.ofEvent request.tickerId (.canceled request.clientId request.side order))
  | rejected (type : request.type = .cancel) :
      Tells nextOrderId nextTradeId request
        (.ofEvent request.tickerId (.rejected request.clientId request.orderId))

/-- The rounds of some requests, and the next ids after them. -/
inductive Told : List ClientRequest → List Round → OrderIdT → TradeIdT → Prop
  | nil : Told [] [] 1 1
  | snoc {requests : List ClientRequest} {rounds : List Round} {nextOrderId : OrderIdT}
      {nextTradeId : TradeIdT} {request : ClientRequest} {round : Round}
      (told : Told requests rounds nextOrderId nextTradeId)
      (tells : Tells nextOrderId nextTradeId request round) :
      Told (requests ++ [request]) (rounds ++ [round]) (request.advance nextOrderId)
        (nextTradeId + UInt32.ofNat round.trades)

namespace Ledger

variable {L L' : Ledger} {clientId : ClientIdT} {orderId : OrderIdT} {side : OrderSide}
  {limitPrice : PriceT}

/-- What a cancel may do. -/
theorem Step.cancel_cases (h : L.Step (.cancel clientId orderId side limitPrice) L') :
    L'.nextTradeId = L.nextTradeId ∧
      ((∃ order, order.orderId = orderId ∧ order.limitPrice = limitPrice ∧
        L'.events = L.events ++ [.canceled clientId side order]) ∨
      L'.events = L.events ++ [.rejected clientId orderId]) := by
  cases h with
  | @cancelHit order older newer clientId side resting oldest =>
    exact ⟨rfl, Or.inl ⟨order, rfl, rfl, rfl⟩⟩
  | cancelMiss clientId side absent => exact ⟨rfl, Or.inr rfl⟩

end Ledger

namespace Exchange

variable {m l : ℕ} {e e₀ e' : Exchange m l} {request : ClientRequest}
  {requests : List ClientRequest} {tickerIds : List TickerIdT} {clock : ℕ → NsTimestampT}
  {ring : Fin l → List (Fin m)} {resting : List Entry} {book : OrderBook m l}

/-- **One request tells one round.** -/
theorem tells_of_processRequest
    (hbook : ∀ book, e.bookOf request.tickerId = some book →
      book.tickerId = request.tickerId ∧ ∃ ring resting, Holds book ring resting)
    (h : e.processRequest request = .ok e') :
    ∃ round, Tells e.nextOrderId e.nextTradeId request round ∧
      e'.nextTradeId = e.nextTradeId + UInt32.ofNat round.trades ∧
      e'.responses.map ClientResponse.untimed =
        e.responses.map ClientResponse.untimed ++ round.responses ∧
      e'.updates.map MarketUpdate.untimed =
        e.updates.map MarketUpdate.untimed ++ round.updates := by
  rcases processRequest_ok h with ⟨htype, rfl⟩ | ⟨op, book, w, hop, hb, hw, rfl⟩
  · exact ⟨_, .invalid htype, (UInt32.add_zero _).symm, by simp, by simp⟩
  · obtain ⟨hbt, ring, resting, hh⟩ := hbook book hb
    have ht : (e.world book).tickerId = request.tickerId := hbt
    unfold ClientRequest.op at hop
    split at hop <;> rename_i htype
    · cases hop
    · obtain rfl := Option.some.inj hop
      obtain ⟨deals, left, hd, -, hnext, hresp, hupd⟩ :=
        World.add_told (w := e.world book) (request.order e.nextOrderId) hh hw
      rw [ht] at hresp hupd
      exact ⟨_, .added htype hd, hnext, hresp, hupd⟩
    · obtain rfl := Option.some.inj hop
      obtain ⟨L', hstep, -, -, hnext, hresp, hupd⟩ := World.step_records hh hw
      rw [ht] at hresp hupd
      obtain ⟨hid, hcase⟩ := hstep.cancel_cases
      rcases hcase with ⟨order, hid', hprice, hev⟩ | hev
      · refine ⟨_, .canceled htype hid' hprice, ?_, ?_, ?_⟩
        · exact (hnext.trans hid).trans (UInt32.add_zero _).symm
        · rw [Ledger.announced, hev] at hresp
          exact hresp.trans (by simp [Round.ofEvent, world])
        · rw [hev] at hupd
          exact hupd.trans (by simp [Round.ofEvent, world])
      · refine ⟨_, .rejected htype, ?_, ?_, ?_⟩
        · exact (hnext.trans hid).trans (UInt32.add_zero _).symm
        · rw [Ledger.announced, hev] at hresp
          exact hresp.trans (by simp [Round.ofEvent, world])
        · rw [hev] at hupd
          exact hupd.trans (by simp [Round.ofEvent, world])

/-- The tape after some requests. -/
def Taped (requests : List ClientRequest) (e : Exchange m l) : Prop :=
  ∃ rounds, Told requests rounds e.nextOrderId e.nextTradeId ∧
    e.responses.map ClientResponse.untimed = rounds.flatMap Round.responses ∧
    e.updates.map MarketUpdate.untimed = rounds.flatMap Round.updates

/-- **The tape.**  What an exchange has pushed to its two queues after a run is
one round for each request, in the order of the requests, under the ids that
they got one after the other. -/
theorem told_of_requests (h₀ : new m l tickerIds clock = .ok e₀) (h : e₀.run requests = .ok e) :
    Taped requests e := by
  have hfresh := (new_ok h₀).1
  refine (foldlM_induction (P := fun requests e => Accounted requests e ∧ Taped requests e)
    ⟨hfresh.accounted, [], ?_, ?_, ?_⟩ ?_ h).2
  · rw [hfresh.nextOrderId, hfresh.nextTradeId]
    exact .nil
  · rw [hfresh.responses]
    rfl
  · rw [hfresh.updates]
    rfl
  · rintro requests request e e' - ⟨hacc, rounds, htold, hresp, hupd⟩ hr
    obtain ⟨round, htells, hnext, hresp', hupd'⟩ := tells_of_processRequest (fun book hb => by
      obtain ⟨hbt, ring, resting, hh, -⟩ := hacc.book _ book hb
      exact ⟨hbt, ring, resting, hh⟩) hr
    refine ⟨hacc.step hr, rounds ++ [round], ?_, ?_, ?_⟩
    · rw [nextOrderId_of_ok hr, hnext]
      exact htold.snoc htells
    · rw [hresp', hresp, List.flatMap_append, List.flatMap_singleton]
    · rw [hupd', hupd, List.flatMap_append, List.flatMap_singleton]

/-- The requests of the two tickers are an instance. -/
theorem told_of_mixedRequests :
    ∃ e₀ e, new maxOrderIds maxPriceLevels [1, 2] (fun _ => 0) = .ok e₀ ∧
      e₀.run mixedRequests = .ok e ∧ Taped mixedRequests e := by
  obtain ⟨e₀, e, h₀, h⟩ := mixedRequests_returns
  exact ⟨e₀, e, h₀, h, told_of_requests h₀ h⟩

end Exchange

/-! ### The answers -/

/-- The response answers the request, which got `orderId` if it is an ADD. -/
def Answers (request : ClientRequest) (orderId : OrderIdT) (response : ClientResponse) : Prop :=
  response.tickerId = request.tickerId ∧ response.clientId = request.clientId ∧
    match request.type with
    | .invalid => False
    | .add => response.type = .accepted ∧ response.orderId = orderId ∧
        response.side = request.side ∧ response.quantity = request.quantity ∧
        response.price = request.limitPrice
    | .cancel => response.orderId = request.orderId ∧
        (response.type = .canceled ∧ response.side = request.side ∧
          response.price = request.limitPrice ∨ response.type = .cancelRejected)

/-- The requests that are not invalid, each with the next order id that it
finds. -/
def numbered : OrderIdT → List ClientRequest → List (ClientRequest × OrderIdT)
  | _, [] => []
  | next, request :: requests =>
    (if request.type = .invalid then [] else [(request, next)]) ++
      numbered (request.advance next) requests

/-- The responses that are no fills. -/
def answersIn (responses : List ClientResponse) : List ClientResponse :=
  responses.filter fun r => r.type ≠ .filled

section Answers

variable {next nextOrderId : OrderIdT} {nextTradeId : TradeIdT} {requests : List ClientRequest}
  {request : ClientRequest} {round : Round} {rounds : List Round} {tickerId : TickerIdT}
  {order : Entry} {deals : List Deal}

/-- The last request finds the id that those before it have led to. -/
theorem numbered_concat : numbered next (requests ++ [request]) = numbered next requests ++
    if request.type = .invalid then [] else [(request, nextAfter next requests)] := by
  induction requests generalizing next with
  | nil => exact List.append_nil _
  | cons r requests ih =>
    rw [List.cons_append, numbered, numbered, ih, List.append_assoc]
    rfl

theorem answersIn_append {rs rs' : List ClientResponse} :
    answersIn (rs ++ rs') = answersIn rs ++ answersIn rs' := List.filter_append ..

/-- The deals of an order are told as fills. -/
theorem answersIn_deals :
    answersIn (deals.flatMap fun deal => (deal.event order).responses tickerId) = [] := by
  refine List.filter_eq_nil_iff.2 fun r hr => ?_
  obtain ⟨deal, -, hmem⟩ := List.mem_flatMap.1 hr
  simp only [Deal.event, Event.responses, List.mem_cons, List.not_mem_nil, or_false] at hmem
  rcases hmem with rfl | rfl <;> simp

/-- **A round has one answer,** when its request is not invalid. -/
theorem Tells.answers (h : Tells nextOrderId nextTradeId request round) :
    List.Forall₂ (fun p r => Answers p.1 p.2 r)
      (if request.type = .invalid then [] else [(request, nextOrderId)])
      (answersIn round.responses) := by
  cases h with
  | invalid type =>
    rw [if_pos type]
    exact .nil
  | @added deals left type dealt =>
    have hanswer : answersIn (Round.ofDeals request.tickerId (request.order nextOrderId) deals
        left).responses = (Event.accepted (request.order nextOrderId)).responses
          request.tickerId := by
      rw [Round.ofDeals, answersIn_append, answersIn_deals, List.append_nil]
      rfl
    rw [if_neg (by simp [type]), hanswer]
    refine .cons ⟨rfl, rfl, ?_⟩ .nil
    rw [type]
    exact ⟨rfl, rfl, rfl, rfl, rfl⟩
  | canceled type orderId limitPrice =>
    rw [if_neg (by simp [type])]
    refine .cons ⟨rfl, rfl, ?_⟩ .nil
    rw [type]
    exact ⟨orderId, Or.inl ⟨rfl, rfl, limitPrice⟩⟩
  | rejected type =>
    rw [if_neg (by simp [type])]
    refine .cons ⟨rfl, rfl, ?_⟩ .nil
    rw [type]
    exact ⟨rfl, Or.inr rfl⟩

/-- **The answers go with the requests:** each round but an empty one has a
single response that is no fill. -/
theorem Told.answers (h : Told requests rounds nextOrderId nextTradeId) :
    nextOrderId = nextAfter 1 requests ∧
      List.Forall₂ (fun p r => Answers p.1 p.2 r) (numbered 1 requests)
        (answersIn (rounds.flatMap Round.responses)) := by
  induction h with
  | nil => exact ⟨rfl, .nil⟩
  | snoc told tells ih =>
    obtain ⟨rfl, hall⟩ := ih
    refine ⟨nextAfter_concat.symm, ?_⟩
    rw [numbered_concat, List.flatMap_append, List.flatMap_singleton, answersIn_append]
    exact List.rel_append hall tells.answers

end Answers

namespace Exchange

variable {m l : ℕ} {e e₀ : Exchange m l} {requests : List ClientRequest}
  {tickerIds : List TickerIdT} {clock : ℕ → NsTimestampT}

/-- **Every request is answered, once and in turn.**  After any run, the
responses that are no fills answer the requests that are not invalid one by one:
an ADD is accepted as it was sent, under the id that is its turn, and a CANCEL
is carried out or rejected for the order that it names. -/
theorem answers_of_run (h₀ : new m l tickerIds clock = .ok e₀) (h : e₀.run requests = .ok e) :
    List.Forall₂ (fun p r => Answers p.1 p.2 r) (numbered 1 requests) (answersIn e.responses) := by
  obtain ⟨rounds, htold, hresp, -⟩ := told_of_requests h₀ h
  have hmap : answersIn (e.responses.map ClientResponse.untimed) =
      (answersIn e.responses).map ClientResponse.untimed := List.filter_map
  have hall := htold.answers.2
  rw [← hresp, hmap, List.forall₂_map_right_iff] at hall
  exact hall

/-- The answers to these requests are an instance. -/
theorem answers_of_mixedRequests :
    ∃ e₀ e, new maxOrderIds maxPriceLevels [1, 2] (fun _ => 0) = .ok e₀ ∧
      e₀.run mixedRequests = .ok e ∧
      List.Forall₂ (fun p r => Answers p.1 p.2 r) (numbered 1 mixedRequests)
        (answersIn e.responses) := by
  obtain ⟨e₀, e, h₀, h⟩ := mixedRequests_returns
  exact ⟨e₀, e, h₀, h, answers_of_run h₀ h⟩

end Exchange

/-! ### The number of messages -/

section Length

variable {nextOrderId : OrderIdT} {nextTradeId : TradeIdT} {requests : List ClientRequest}
  {request : ClientRequest} {round : Round} {rounds : List Round} {tickerId : TickerIdT}
  {order : Entry} {deals : List Deal}

/-- A deal is told in two responses and two updates, one of which is a trade. -/
theorem length_deals (deals : List Deal) (order : Entry) (tickerId : TickerIdT) :
    (deals.flatMap fun deal => (deal.event order).responses tickerId).length = 2 * deals.length ∧
      (deals.flatMap fun deal => (deal.event order).updates tickerId).length = 2 * deals.length ∧
      (tradeUpdates (deals.flatMap fun deal => (deal.event order).updates tickerId)).length =
        deals.length := by
  induction deals with
  | nil => exact ⟨rfl, rfl, rfl⟩
  | cons deal deals ih =>
    obtain ⟨hr, hu, ht⟩ := ih
    have htrade : (tradeUpdates ((deal.event order).updates tickerId)).length = 1 := by
      by_cases hfull : deal.maker.quantity = deal.quantity <;>
        simp [tradeUpdates, Deal.event, Event.updates, hfull]
    simp only [List.flatMap_cons, List.length_append, hr, hu, tradeUpdates_append, ht, htrade,
      List.length_cons]
    simp only [Deal.event, Event.responses, Event.updates, List.length_cons, List.length_nil]
    omega

/-- A trade is two responses and two updates, and there is one message besides. -/
theorem Tells.length_le (h : Tells nextOrderId nextTradeId request round) :
    round.responses.length ≤ 2 * round.trades + 1 ∧ round.updates.length ≤ 2 * round.trades + 1 ∧
      (tradeUpdates round.updates).length = round.trades := by
  cases h with
  | invalid type => exact ⟨Nat.zero_le _, Nat.zero_le _, rfl⟩
  | @added deals left type dealt =>
    obtain ⟨hr, hu, ht⟩ :=
      length_deals deals (request.order nextOrderId) request.tickerId
    simp only [Round.ofDeals, List.length_append, tradeUpdates_append, hr, hu, ht]
    refine ⟨?_, ?_, ?_⟩
    · simp only [Event.responses, List.length_cons, List.length_nil]
      omega
    · split_ifs <;> simp [Event.updates]
    · split_ifs <;> simp [Event.updates, tradeUpdates]
  | canceled => exact ⟨le_rfl, le_rfl, rfl⟩
  | rejected => exact ⟨le_rfl, Nat.zero_le _, rfl⟩

/-- Besides its deals a round has one response and one update at most. -/
theorem Told.length_le (h : Told requests rounds nextOrderId nextTradeId) :
    (rounds.flatMap Round.responses).length ≤
        requests.length + 2 * (tradeUpdates (rounds.flatMap Round.updates)).length ∧
      (rounds.flatMap Round.updates).length ≤
        requests.length + 2 * (tradeUpdates (rounds.flatMap Round.updates)).length := by
  induction h with
  | nil => exact ⟨le_rfl, le_rfl⟩
  | snoc told tells ih =>
    obtain ⟨hr, hu⟩ := ih
    obtain ⟨hr', hu', ht'⟩ := tells.length_le
    simp only [List.flatMap_append, List.flatMap_singleton, tradeUpdates_append,
      List.length_append, List.length_singleton, ht']
    omega

end Length

namespace Exchange

variable {m l : ℕ} {e e₀ : Exchange m l} {requests : List ClientRequest}
  {tickerIds : List TickerIdT} {clock : ℕ → NsTimestampT}

/-- **The number of messages is bounded by the number of requests,** whatever
they are and however they match: each queue gets one message for a request and
two more for an ADD, at most. -/
theorem length_le_of_run (h₀ : new m l tickerIds clock = .ok e₀) (h : e₀.run requests = .ok e) :
    e.responses.length ≤ requests.length + 2 * (addRequests requests).length ∧
      e.updates.length ≤ requests.length + 2 * (addRequests requests).length := by
  obtain ⟨rounds, htold, hresp, hupd⟩ := told_of_requests h₀ h
  have htrades : (tradeUpdates (rounds.flatMap Round.updates)).length ≤
      (addRequests requests).length := by
    have hacc := (accounted_of_run h₀ h).length_le
    rwa [← tradeTickers_untimed, hupd, tradeTickers, List.length_map] at hacc
  obtain ⟨hr, hu⟩ := htold.length_le
  rw [← List.length_map ClientResponse.untimed, hresp, ← List.length_map MarketUpdate.untimed,
    hupd]
  omega

/-- The number of messages they cause is an instance. -/
theorem length_le_of_mixedRequests :
    ∃ e₀ e, new maxOrderIds maxPriceLevels [1, 2] (fun _ => 0) = .ok e₀ ∧
      e₀.run mixedRequests = .ok e ∧
      e.responses.length ≤ mixedRequests.length + 2 * (addRequests mixedRequests).length ∧
      e.updates.length ≤ mixedRequests.length + 2 * (addRequests mixedRequests).length := by
  obtain ⟨e₀, e, h₀, h⟩ := mixedRequests_returns
  exact ⟨e₀, e, h₀, h, length_le_of_run h₀ h⟩

end Exchange

end CppExchange
