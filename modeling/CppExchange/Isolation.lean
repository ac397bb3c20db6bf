import CppExchange.Coherence
import CppExchange.Identifiers
import Mathlib.Logic.Equiv.Fintype

/-!
# Tickers do not interfere

The books of an exchange share its queues and its counters.  Here a run of an
exchange is compared with a run of a fresh exchange that gets the requests for
one ticker only, `own`.  An order has one id in the first run and another in the
second, and `Projects` says that `τ` takes the one for the other: so a CANCEL
has to be translated by `τ`, too.

The two exchanges agree on the book of the ticker and on what was pushed for it,
up to the ids (`Isolated`), which a request for the ticker keeps
(`Isolated.step_own`), as does a request for any other ticker
(`Isolated.step_other`).
-/

namespace CppExchange

open Library OrderBook

/-- The request with the order id of a CANCEL translated. -/
def ClientRequest.translate (τ : OrderIdT → OrderIdT) (request : ClientRequest) : ClientRequest :=
  if request.type = .cancel then { request with orderId := τ request.orderId } else request

/-- An order with its id renamed. -/
def Entry.rename (τ : OrderIdT → OrderIdT) (order : Entry) : Entry :=
  { order with orderId := τ order.orderId }

/-- The requests for a ticker. -/
def requestsFor (t : TickerIdT) (requests : List ClientRequest) : List ClientRequest :=
  requests.filter fun request => request.tickerId = t

/-- The responses for a ticker. -/
def responsesFor (t : TickerIdT) (responses : List ClientResponse) : List ClientResponse :=
  responses.filter fun response => response.tickerId = t

/-- The updates for a ticker. -/
def updatesFor (t : TickerIdT) (updates : List MarketUpdate) : List MarketUpdate :=
  updates.filter fun update => update.tickerId = t

/-- The order ids that the ADD requests for a ticker get, `next` being the next
id of the exchange. -/
def issuedTo (t : TickerIdT) : OrderIdT → List ClientRequest → List OrderIdT
  | _, [] => []
  | next, request :: requests =>
    if request.type = .add ∧ request.tickerId = t then
      next :: issuedTo t (request.advance next) requests
    else issuedTo t (request.advance next) requests

/-- `own` is what the stream `requests` asks for the ticker `t`, with `τ` the
correspondence of the ids of its orders in the two streams.  An id that was not
given to an order of `t` in the one is not given to one in the other. -/
structure Projects (t : TickerIdT) (τ : OrderIdT → OrderIdT) (requests own : List ClientRequest) :
    Prop where
  own_eq : own = (requestsFor t requests).map (ClientRequest.translate τ)
  issued : (issuedTo t 1 requests).map τ = issuedTo t 1 own
  foreign : ∀ orderId ∉ issuedTo t 1 requests, τ orderId ∉ issuedTo t 1 own

section Requests

variable {t : TickerIdT} {τ : OrderIdT → OrderIdT} {next next' orderId : OrderIdT}
  {request : ClientRequest} {requests own : List ClientRequest} {op : Op}

@[simp] theorem ClientRequest.type_translate : (request.translate τ).type = request.type := by
  unfold ClientRequest.translate
  split_ifs <;> rfl

@[simp] theorem ClientRequest.tickerId_translate :
    (request.translate τ).tickerId = request.tickerId := by
  unfold ClientRequest.translate
  split_ifs <;> rfl

@[simp] theorem ClientRequest.advance_translate :
    (request.translate τ).advance next = request.advance next := by
  rw [ClientRequest.advance, ClientRequest.type_translate, ClientRequest.advance]

/-- A translated request makes the call under the renamed ids. -/
theorem ClientRequest.op_translate (hop : request.op next = some op)
    (hadd : request.type = .add → τ next = next') :
    (request.translate τ).op next' = some (op.rename τ) := by
  unfold ClientRequest.op at hop
  split at hop <;> rename_i ht
  · cases hop
  · obtain rfl := Option.some.inj hop
    rw [ClientRequest.op, ClientRequest.type_translate, ht, Op.rename, hadd ht,
      ClientRequest.translate, if_neg (by simp [ht])]
  · obtain rfl := Option.some.inj hop
    rw [ClientRequest.op, ClientRequest.type_translate, ht, Op.rename, ClientRequest.translate,
      if_pos ht]

theorem issuedTo_cons_add (hadd : request.type = .add) (ht : request.tickerId = t) :
    issuedTo t next (request :: requests) = next :: issuedTo t (next + 1) requests := by
  rw [issuedTo, if_pos ⟨hadd, ht⟩, ClientRequest.advance, if_pos hadd]

theorem issuedTo_cons_of_not (h : ¬(request.type = .add ∧ request.tickerId = t)) :
    issuedTo t next (request :: requests) = issuedTo t (request.advance next) requests := by
  rw [issuedTo, if_neg h]

theorem requestsFor_cons (ht : request.tickerId = t) :
    requestsFor t (request :: requests) = request :: requestsFor t requests :=
  List.filter_cons_of_pos (decide_eq_true ht)

theorem requestsFor_cons_of_ne (ht : request.tickerId ≠ t) :
    requestsFor t (request :: requests) = requestsFor t requests :=
  List.filter_cons_of_neg (by simpa using ht)

/-- The ids are handed out in turn. -/
theorem issuedTo_sublist :
    (issuedTo t next requests).Sublist (countFrom next (addRequests requests).length) := by
  induction requests generalizing next with
  | nil => exact List.nil_sublist _
  | cons request requests ih =>
    by_cases hadd : request.type = .add
    · have hkeep : addRequests (request :: requests) = request :: addRequests requests :=
        List.filter_cons_of_pos (by simpa using hadd)
      rw [hkeep, List.length_cons, countFrom_cons]
      by_cases ht : request.tickerId = t
      · rw [issuedTo_cons_add hadd ht]
        exact ih.cons_cons _
      · rw [issuedTo_cons_of_not fun h => ht h.2, ClientRequest.advance, if_pos hadd]
        exact ih.cons _
    · have hskip : addRequests (request :: requests) = addRequests requests :=
        List.filter_cons_of_neg (by simpa using hadd)
      rw [issuedTo_cons_of_not fun h => hadd h.1, hskip, ClientRequest.advance, if_neg hadd]
      exact ih

/-- No id is handed out twice. -/
theorem issuedTo_nodup (h : (addRequests requests).length < 2 ^ 32) :
    (issuedTo t next requests).Nodup :=
  (countFrom_nodup h.le).sublist issuedTo_sublist

/-- A stream gives the ticker as many ids as its own requests do. -/
theorem length_issuedTo (τ : OrderIdT → OrderIdT) (next next' : OrderIdT) :
    (issuedTo t next requests).length =
    (issuedTo t next' ((requestsFor t requests).map (ClientRequest.translate τ))).length := by
  induction requests generalizing next next' with
  | nil => rfl
  | cons request requests ih =>
    by_cases ht : request.tickerId = t
    · rw [requestsFor_cons ht, List.map_cons]
      by_cases hadd : request.type = .add
      · rw [issuedTo_cons_add hadd ht, issuedTo_cons_add (by simpa using hadd) (by simpa using ht),
          List.length_cons, List.length_cons, ih]
      · rw [issuedTo_cons_of_not fun h => hadd h.1,
          issuedTo_cons_of_not fun h => hadd (by simpa using h.1), ih]
    · rw [requestsFor_cons_of_ne ht, issuedTo_cons_of_not fun h => ht h.2, ih]

/-- The ids do not depend on what is cancelled. -/
theorem issuedTo_translate :
    issuedTo t next (requests.map (ClientRequest.translate τ)) = issuedTo t next requests := by
  induction requests generalizing next with
  | nil => rfl
  | cons request requests ih =>
    rw [List.map_cons, issuedTo, issuedTo, ClientRequest.type_translate,
      ClientRequest.tickerId_translate, ClientRequest.advance_translate, ih]

/-- Renaming the orders that requests name keeps their types, so as many of them
are adds. -/
theorem addRequests_translate :
    (addRequests (requests.map (ClientRequest.translate τ))).length =
      (addRequests requests).length := by
  have htype : (fun request : ClientRequest => decide (request.type = .add)) ∘
      ClientRequest.translate τ = fun request => decide (request.type = .add) :=
    funext fun request => by rw [Function.comp_apply, ClientRequest.type_translate]
  rw [addRequests, List.filter_map, List.length_map, htype, addRequests]

/-- The own requests of a ticker are not more than those of all. -/
theorem Projects.length_le (h : Projects t τ requests own) :
    (addRequests own).length ≤ (addRequests requests).length := by
  rw [h.own_eq, addRequests_translate]
  exact (List.filter_sublist.filter _).length_le

/-- No two ids are taken for the same id of an order of the ticker. -/
theorem Projects.separates (h : Projects t τ requests own)
    (hadds : (addRequests requests).length < 2 ^ 32) (hid : orderId ∈ issuedTo t 1 requests) :
    Separates τ orderId := by
  intro other he
  have hnodup : ((issuedTo t 1 requests).map τ).Nodup := by
    rw [h.issued]
    exact issuedTo_nodup (h.length_le.trans_lt hadds)
  by_cases hother : other ∈ issuedTo t 1 requests
  · exact List.inj_on_of_nodup_map hnodup hother hid he
  · refine absurd ?_ (h.foreign other hother)
    rw [he, ← h.issued]
    exact List.mem_map_of_mem hid

/-- The correspondence from some point of the streams on: the next ids are `next`
and `next'`, and `requests` are still to come. -/
structure Corresponds (t : TickerIdT) (τ : OrderIdT → OrderIdT) (next next' : OrderIdT)
    (requests : List ClientRequest) : Prop where
  issued : (issuedTo t next requests).map τ =
    issuedTo t next' ((requestsFor t requests).map (ClientRequest.translate τ))
  separates : ∀ orderId ∈ issuedTo t next requests, Separates τ orderId

theorem Projects.corresponds (h : Projects t τ requests own)
    (hadds : (addRequests requests).length < 2 ^ 32) : Corresponds t τ 1 1 requests :=
  ⟨h.own_eq ▸ h.issued, fun _ hid => h.separates hadds hid⟩

/-- Left with its own requests, a ticker gives its next add the next id at once. -/
theorem issuedTo_own (ht : request.tickerId = t) (hadd : request.type = .add) :
    issuedTo t next ((requestsFor t (request :: requests)).map (ClientRequest.translate τ)) =
      next :: issuedTo t (next + 1) ((requestsFor t requests).map (ClientRequest.translate τ)) := by
  rw [requestsFor_cons ht, List.map_cons,
    issuedTo_cons_add (by rwa [ClientRequest.type_translate])
      (by rwa [ClientRequest.tickerId_translate])]

/-- The next ADD request for the ticker gets corresponding ids. -/
theorem Corresponds.head (h : Corresponds t τ next next' (request :: requests))
    (ht : request.tickerId = t) (hadd : request.type = .add) :
    τ next = next' ∧ Separates τ next := by
  obtain ⟨hissued, hsep⟩ := h
  rw [issuedTo_own ht hadd, issuedTo_cons_add hadd ht, List.map_cons, List.cons.injEq] at hissued
  rw [issuedTo_cons_add hadd ht] at hsep
  exact ⟨hissued.1, hsep _ List.mem_cons_self⟩

/-- After a request for the ticker. -/
theorem Corresponds.tail (h : Corresponds t τ next next' (request :: requests))
    (ht : request.tickerId = t) :
    Corresponds t τ (request.advance next) (request.advance next') requests := by
  obtain ⟨hissued, hsep⟩ := h
  by_cases hadd : request.type = .add
  · rw [issuedTo_own ht hadd, issuedTo_cons_add hadd ht, List.map_cons, List.cons.injEq]
      at hissued
    rw [issuedTo_cons_add hadd ht] at hsep
    rw [ClientRequest.advance, ClientRequest.advance, if_pos hadd, if_pos hadd]
    exact ⟨hissued.2, fun orderId hid => hsep orderId (List.mem_cons_of_mem _ hid)⟩
  · rw [requestsFor_cons ht, List.map_cons, issuedTo_cons_of_not fun h => hadd h.1,
      issuedTo_cons_of_not fun h => hadd (by simpa using h.1),
      ClientRequest.advance_translate] at hissued
    rw [issuedTo_cons_of_not fun h => hadd h.1] at hsep
    exact ⟨hissued, hsep⟩

/-- After a request for another ticker. -/
theorem Corresponds.tail_of_ne (h : Corresponds t τ next next' (request :: requests))
    (ht : request.tickerId ≠ t) : Corresponds t τ (request.advance next) next' requests := by
  obtain ⟨hissued, hsep⟩ := h
  rw [issuedTo_cons_of_not fun h => ht h.2] at hissued hsep
  rw [requestsFor_cons_of_ne ht] at hissued
  exact ⟨hissued, hsep⟩

/-- A permutation of the ids need only be right on the orders of the ticker. -/
theorem Projects.of_perm {σ : Equiv.Perm OrderIdT}
    (hown : own = (requestsFor t requests).map (ClientRequest.translate σ))
    (hissued : (issuedTo t 1 requests).map σ = issuedTo t 1 own) : Projects t σ requests own := by
  refine ⟨hown, hissued, fun orderId hid hmem => hid ?_⟩
  rw [← hissued] at hmem
  obtain ⟨other, hother, he⟩ := List.mem_map.1 hmem
  rwa [← σ.injective he]

/-- Some permutation takes one list of ids for another one. -/
theorem exists_perm_map_eq {α : Type} {xs ys : List α} (hx : xs.Nodup) (hy : ys.Nodup)
    (hlen : xs.length = ys.length) : ∃ σ : Equiv.Perm α, xs.map σ = ys := by
  have hfrom : Function.Injective fun i : Fin xs.length => xs[i] :=
    fun i j he => Fin.ext (hx.getElem_inj_iff.1 he)
  have hto : Function.Injective fun i : Fin xs.length => ys[i.cast hlen] :=
    fun i j he => Fin.ext (hy.getElem_inj_iff.1 he)
  obtain ⟨σ, hσ⟩ := Equiv.Perm.exists_extending_pair _ _ hfrom hto
  refine ⟨σ, List.ext_getElem (by rw [List.length_map, hlen]) fun i hi hi' => ?_⟩
  rw [List.getElem_map]
  exact hσ ⟨i, by rwa [List.length_map] at hi⟩

/-- **Every stream projects** to the requests for a ticker under some translation
of the ids. -/
theorem exists_projects (h : (addRequests requests).length < 2 ^ 32) :
    ∃ (σ : Equiv.Perm OrderIdT) (own : List ClientRequest), Projects t σ requests own := by
  have hlen : (issuedTo t 1 requests).length = (issuedTo t 1 (requestsFor t requests)).length := by
    rw [length_issuedTo id 1 1, issuedTo_translate]
  have hown : (addRequests (requestsFor t requests)).length < 2 ^ 32 :=
    ((List.filter_sublist.filter _).length_le).trans_lt h
  obtain ⟨σ, hσ⟩ := exists_perm_map_eq (issuedTo_nodup h) (issuedTo_nodup hown) hlen
  exact ⟨σ, _, .of_perm rfl (hσ.trans issuedTo_translate.symm)⟩

end Requests

/-! ### Trade ids -/

section Trades

variable {τ : OrderIdT → OrderIdT} {ρ : TradeIdT → TradeIdT}
  {us us' : List MarketUpdate} {u u' : MarketUpdate}

@[simp] theorem MarketUpdate.type_rename : (u.rename τ ρ).type = u.type := by
  unfold MarketUpdate.rename
  split_ifs <;> rfl

/-- Renaming takes no update for a trade or away from the trades. -/
theorem tradeUpdates_rename :
    tradeUpdates (us.map (MarketUpdate.rename τ ρ)) =
      (tradeUpdates us).map (MarketUpdate.rename τ ρ) := by
  have htype : (fun update : MarketUpdate => decide (update.type = .trade)) ∘
      MarketUpdate.rename τ ρ = fun update => decide (update.type = .trade) :=
    funext fun update => by rw [Function.comp_apply, MarketUpdate.type_rename]
  rw [tradeUpdates, List.filter_map, htype, tradeUpdates]

/-- An update without its trade id and its timestamp. -/
def MarketUpdate.unnumbered : MarketUpdate → MarketUpdate := MarketUpdate.rename id fun _ => 0

/-- Without trade ids, it does not matter how they were renamed. -/
theorem MarketUpdate.unnumbered_comp_rename (ρ : TradeIdT → TradeIdT) :
    MarketUpdate.unnumbered ∘ MarketUpdate.rename τ ρ = MarketUpdate.rename τ fun _ => 0 := by
  funext update
  unfold MarketUpdate.unnumbered MarketUpdate.rename
  rw [Function.comp_apply]
  split_ifs <;> rfl

theorem MarketUpdate.unnumbered_comp_untimed :
    MarketUpdate.unnumbered ∘ MarketUpdate.untimed = MarketUpdate.unnumbered := rfl

/-- Two updates that are the same but for the trade id are so with it, when `ρ`
takes the one trade id for the other. -/
theorem MarketUpdate.rename_eq_untimed (h : u.rename τ (fun _ => 0) = u'.unnumbered)
    (hid : u.type = .trade → ρ u.tradeId = u'.tradeId) : u.rename τ ρ = u'.untimed := by
  have htype : u.type = u'.type := by
    rw [← MarketUpdate.type_rename (u := u), h, MarketUpdate.unnumbered, MarketUpdate.type_rename]
  obtain ⟨type, _, _, _, _, _, _, _⟩ := u
  obtain ⟨type', _, _, _, _, _, _, _⟩ := u'
  obtain rfl : type = type' := htype
  simp only [MarketUpdate.rename, MarketUpdate.unnumbered, MarketUpdate.untimed] at h hid ⊢
  split_ifs at h ⊢ with ht
  · simpa [hid ht] using h
  · exact h

/-- Updates that are the same but for the trade ids are so with them, when `ρ`
takes the ones for the others. -/
theorem rename_eq_of_tradeIds
    (h : us.map (MarketUpdate.rename τ fun _ => 0) = us'.map MarketUpdate.unnumbered)
    (hid : (tradeIds us).map ρ = tradeIds us') :
    us.map (MarketUpdate.rename τ ρ) = us'.map MarketUpdate.untimed := by
  induction us generalizing us' with
  | nil =>
    rw [List.map_nil, eq_comm, List.map_eq_nil_iff] at h
    rw [h]
    rfl
  | cons u us ih =>
    cases us' with
    | nil => cases h
    | cons u' us' =>
      rw [List.map_cons, List.map_cons, List.cons.injEq] at h ⊢
      obtain ⟨hu, hus⟩ := h
      have htype : u.type = u'.type := by
        rw [← MarketUpdate.type_rename (u := u), hu, MarketUpdate.unnumbered,
          MarketUpdate.type_rename]
      by_cases ht : u.type = .trade
      · have ht' : u'.type = .trade := htype ▸ ht
        simp only [tradeIds, tradeUpdates, List.filter_cons, ht, ht', decide_true, if_true,
          List.map_cons, List.cons.injEq] at hid
        exact ⟨MarketUpdate.rename_eq_untimed hu fun _ => hid.1, ih hus hid.2⟩
      · have ht' : u'.type ≠ .trade := htype ▸ ht
        simp only [tradeIds, tradeUpdates, List.filter_cons, ht, ht', decide_false] at hid
        exact ⟨MarketUpdate.rename_eq_untimed hu fun h => absurd h ht, ih hus hid⟩

end Trades

/-! ### One request -/

namespace Exchange

variable {m l : ℕ} {t : TickerIdT} {τ : OrderIdT → OrderIdT} {ρ : TradeIdT → TradeIdT}
  {e e₀ e₁ e' e₀' : Exchange m l} {request : ClientRequest} {requests done own : List ClientRequest}
  {tickerIds tickerIds' : List TickerIdT} {clock clock' : ℕ → NsTimestampT}

/-- The book of `t` and the responses for `t` are those of `e'`, up to order ids
and timestamps. -/
structure SameOrders (t : TickerIdT) (τ : OrderIdT → OrderIdT) (e e' : Exchange m l) : Prop where
  book : ∃ book book', e.bookOf t = some book ∧ e'.bookOf t = some book' ∧ Renamed τ book book'
  responses : (responsesFor t e.responses).map (ClientResponse.rename τ) =
    e'.responses.map ClientResponse.untimed

/-- So are the updates, up to trade ids. -/
structure SameFor (t : TickerIdT) (τ : OrderIdT → OrderIdT) (ρ : TradeIdT → TradeIdT)
    (e e' : Exchange m l) : Prop extends SameOrders t τ e e' where
  updates : (updatesFor t e.updates).map (MarketUpdate.rename τ ρ) =
    e'.updates.map MarketUpdate.untimed

/-- The same with the trade ids left out. -/
structure Isolated (t : TickerIdT) (τ : OrderIdT → OrderIdT) (e e' : Exchange m l) : Prop
    extends SameOrders t τ e e' where
  updates : (updatesFor t e.updates).map (MarketUpdate.rename τ fun _ => 0) =
    e'.updates.map MarketUpdate.unnumbered

/-- A request that returns advances the counter of order ids by its adds. -/
theorem nextOrderId_of_ok (h : e.processRequest request = .ok e₁) :
    e₁.nextOrderId = request.advance e.nextOrderId := by
  rcases processRequest_ok h with ⟨ht, rfl⟩ | ⟨op, book, w, -, -, -, rfl⟩
  · rw [ClientRequest.advance, if_neg (by simp [ht])]
  · rfl

/-- **A request for another ticker** leaves all that `t` has. -/
theorem Isolated.step_other (hi : Isolated t τ e e') (hacc : Accounted done e)
    (ht : request.tickerId ≠ t) (hr : e.processRequest request = .ok e₁) : Isolated t τ e₁ e' := by
  rcases processRequest_ok hr with ⟨-, rfl⟩ | ⟨op, book, w, -, hb, hw, rfl⟩
  · exact hi
  · obtain ⟨hbt, ring, resting, hh, -⟩ := hacc.book _ _ hb
    obtain ⟨w', hp⟩ := World.step_self hh.toSound hw
    have hne : ∀ tickerId, tickerId = (e.world book).tickerId → ¬tickerId = t := by
      rintro _ rfl
      rwa [show (e.world book).tickerId = request.tickerId from hbt]
    obtain ⟨own, book', hown, hbook', hren⟩ := hi.book
    refine ⟨⟨⟨own, book', ?_, hbook', hren⟩, ?_⟩, ?_⟩
    · exact bookOf_withWorld.trans ((if_neg ht.symm).trans hown)
    · rw [← hi.responses]
      exact congrArg _ (hp.responses.filter_eq fun r => hne r.tickerId)
    · rw [← hi.updates]
      exact congrArg _ (hp.updates.filter_eq fun u => hne u.tickerId)

/-- **A request for `t`** does the same at both exchanges. -/
theorem Isolated.step_own (hi : Isolated t τ e e') (hacc : Accounted done e)
    (ht : request.tickerId = t) (hid : request.type = .add →
      τ e.nextOrderId = e'.nextOrderId ∧ Separates τ e.nextOrderId)
    (hr : e.processRequest request = .ok e₁) :
    ∃ e₁', e'.processRequest (request.translate τ) = .ok e₁' ∧ Isolated t τ e₁ e₁' := by
  rcases processRequest_ok hr with ⟨hinvalid, rfl⟩ | ⟨op, book, w, hop, hb, hw, rfl⟩
  · refine ⟨e', ?_, hi⟩
    rw [processRequest, ClientRequest.type_translate, hinvalid]
    rfl
  · obtain ⟨hbt, ring, resting, hh, -⟩ := hacc.book _ _ hb
    obtain ⟨book₁, book', hb₁, hb', hren⟩ := hi.book
    obtain rfl : book = book₁ := Option.some.inj (hb.symm.trans (ht ▸ hb₁))
    set d := e'.nextTradeId - e.nextTradeId with hd
    have hstart : World.Parallel τ d (e.world book) (e'.world book') (e.world book)
        (e'.world book') := by
      refine .start hren ?_
      rw [hd, UInt32.add_comm]
      exact (UInt32.sub_add_cancel _ _).symm
    have hsep : ∀ orderId, op.addedId = some orderId → Separates τ orderId := by
      intro orderId hadded
      rw [ClientRequest.addedId_op hop] at hadded
      split_ifs at hadded with hadd
      · exact Option.some.inj hadded ▸ (hid hadd).2
    obtain ⟨w', hw', hp⟩ := (World.step_lockstep hstart hh.toSound hsep).of_ok hw
    have hop' := ClientRequest.op_translate hop fun hadd => (hid hadd).1
    have hreq := processRequest_eq hop' (e := e') (by rwa [ClientRequest.tickerId_translate, ht])
    rw [hw'] at hreq
    have hown : ∀ tickerId, tickerId = (e.world book).tickerId → tickerId = t := by
      rintro _ rfl
      exact hbt.trans ht
    refine ⟨_, hreq, ⟨⟨w.toOrderBook, w'.toOrderBook, ?_, ?_, hp.book⟩, ?_⟩, ?_⟩
    · exact bookOf_withWorld.trans (if_pos ht.symm)
    · refine bookOf_withWorld.trans (if_pos ?_)
      rw [ClientRequest.tickerId_translate, ht]
    · exact hp.responses.map_filter (k := id) (fun r => hown r.tickerId) hi.responses
    · have hupd := hi.updates
      rw [← MarketUpdate.unnumbered_comp_rename (· + d),
        ← MarketUpdate.unnumbered_comp_untimed] at hupd ⊢
      exact hp.updates.map_filter (fun u => hown u.tickerId) hupd

/-! ### Runs -/

/-- **The runs go side by side.**  `done` is what the exchange has processed
before `requests`. -/
theorem Isolated.run (hi : Isolated t τ e e') (hacc : Accounted done e)
    (hc : Corresponds t τ e.nextOrderId e'.nextOrderId requests) (h : e.run requests = .ok e₁) :
    ∃ e₁', e'.run ((requestsFor t requests).map (ClientRequest.translate τ)) = .ok e₁' ∧
      Isolated t τ e₁ e₁' := by
  induction requests generalizing e e' done with
  | nil =>
    obtain rfl := Except.ok.inj h
    exact ⟨e', rfl, hi⟩
  | cons request requests ih =>
    rw [Exchange.run, List.foldlM_cons, bind_eq_ok] at h
    obtain ⟨e₂, hr, h⟩ := h
    have hnext := nextOrderId_of_ok hr
    by_cases ht : request.tickerId = t
    · obtain ⟨e₂', hr', hi'⟩ := hi.step_own hacc ht (hc.head ht) hr
      have hnext' := nextOrderId_of_ok hr'
      rw [ClientRequest.advance_translate] at hnext'
      obtain ⟨e₁', hrun, hi₁⟩ := ih hi' (hacc.step hr) (by rw [hnext, hnext']; exact hc.tail ht) h
      refine ⟨e₁', ?_, hi₁⟩
      rw [requestsFor_cons ht, List.map_cons, Exchange.run, List.foldlM_cons, hr', ok_bind]
      exact hrun
    · rw [requestsFor_cons_of_ne ht]
      exact ih (hi.step_other hacc ht hr) (hacc.step hr) (by rw [hnext]; exact hc.tail_of_ne ht) h

/-- Of an empty book nothing is to be renamed. -/
theorem renamed_new : Renamed τ (OrderBook.new m l t) (OrderBook.new m l t) where
  same _ := rfl
  orderId _ ho := absurd ho ObjectPool.not_inUse_new
  separates _ ho := absurd ho ObjectPool.not_inUse_new
  nextFree := rfl
  available _ := rfl
  frame := rfl

/-- Two fresh exchanges have the same book of the ticker, which is empty. -/
theorem Fresh.isolated (hf : Fresh e) (hf' : Fresh e') (hb : e.bookOf t = some (.new m l t))
    (hb' : e'.bookOf t = some (.new m l t)) : Isolated t τ e e' := by
  refine ⟨⟨⟨_, _, hb, hb', renamed_new⟩, ?_⟩, ?_⟩
  · rw [hf.responses, hf'.responses]
    rfl
  · rw [hf.updates, hf'.updates]
    rfl

/-- The trade ids of `t` are each used once. -/
theorem Accounted.tradeIds_nodup (hacc : Accounted requests e)
    (hadds : (addRequests requests).length < 2 ^ 32) :
    (CppExchange.tradeIds e.updates).Nodup := by
  have hle := hacc.length_le
  have hsize : UInt32.size = 2 ^ 32 := rfl
  rw [hacc.traded]
  exact countFrom_nodup (by omega)

/-- When trade ids are used once, a permutation takes the ones for the others. -/
theorem Isolated.sameFor (hi : Isolated t τ e e') (hn : (CppExchange.tradeIds e.updates).Nodup)
    (hn' : (CppExchange.tradeIds e'.updates).Nodup) :
    ∃ ρ : Equiv.Perm TradeIdT, SameFor t τ ρ e e' := by
  have hlen : (CppExchange.tradeIds (updatesFor t e.updates)).length =
      (CppExchange.tradeIds e'.updates).length := by
    have := congrArg (fun us => (tradeUpdates us).length) hi.updates
    simpa only [MarketUpdate.unnumbered, tradeUpdates_rename, List.length_map,
      CppExchange.tradeIds] using this
  have hsub : (CppExchange.tradeIds (updatesFor t e.updates)).Sublist
      (CppExchange.tradeIds e.updates) := (List.filter_sublist.filter _).map _
  obtain ⟨ρ, hρ⟩ := exists_perm_map_eq (hn.sublist hsub) hn' hlen
  exact ⟨ρ, hi.toSameOrders, rename_eq_of_tradeIds hi.updates hρ⟩

/-! ### Interleavings -/

/-- The orders at rest of a renamed book, in the same order. -/
theorem entries_resting {book book' : OrderBook m l} {ring : Fin l → List (Fin m)}
    (h : Renamed τ book book') (hs : Sound book ring) :
    book'.entries book'.resting = (book.entries book.resting).map (Entry.rename τ) := by
  have hsame : book'.resting = book.resting := by
    have hkeys : book'.priceLevels = book.priceLevels := by
      rw [h.frame]
      rfl
    have hat : book'.ordersAt = book.ordersAt := by
      funext price
      unfold OrderBook.ordersAt
      rw [h.levelAt]
      cases book.levelAt price with
      | none => rfl
      | some b => exact (h.sound hs).toShape.ordersOn.trans hs.toShape.ordersOn.symm
    rw [OrderBook.resting, hkeys, hat, OrderBook.resting]
  rw [hsame, entries, entries, List.map_map]
  refine List.map_congr_left fun o ho => ?_
  obtain ⟨b, hb⟩ := (mem_resting hs.toShape).1 ho
  have hid : (book'.order o).orderId = τ (book.order o).orderId := h.orderId_eq (hs.live b o hb)
  simp only [Function.comp_apply, Order.entry, Entry.rename, hid,
    h.order Order.clientId fun _ => rfl, h.order Order.side fun _ => rfl,
    h.order Order.quantity fun _ => rfl, h.order Order.limitPrice fun _ => rfl]

/-- Two exchanges have the same fills, trades and orders at rest for `t`, the
order ids seen through `τ` and `τ'`. -/
structure Agree (t : TickerIdT) (τ τ' : OrderIdT → OrderIdT) (e e' : Exchange m l) : Prop where
  fills : (responsesFor t e.responses).map (ClientResponse.rename τ) =
    (responsesFor t e'.responses).map (ClientResponse.rename τ')
  trades : ∃ ρ ρ' : Equiv.Perm TradeIdT, (updatesFor t e.updates).map (MarketUpdate.rename τ ρ) =
    (updatesFor t e'.updates).map (MarketUpdate.rename τ' ρ')
  resting : ∃ book book', e.bookOf t = some book ∧ e'.bookOf t = some book' ∧
    (book.entries book.resting).map (Entry.rename τ) =
      (book'.entries book'.resting).map (Entry.rename τ')

/-- Two exchanges that are the same as a third one agree. -/
theorem SameFor.agree {τ' : OrderIdT → OrderIdT} {ρ ρ' : Equiv.Perm TradeIdT}
    {requests' : List ClientRequest} (h : SameFor t τ ρ e e₁) (h' : SameFor t τ' ρ' e' e₁)
    (hacc : Accounted requests e) (hacc' : Accounted requests' e') : Agree t τ τ' e e' := by
  refine ⟨h.responses.trans h'.responses.symm, ⟨ρ, ρ', h.updates.trans h'.updates.symm⟩, ?_⟩
  obtain ⟨book, book₁, hb, hb₁, hren⟩ := h.book
  obtain ⟨book', book₁', hb', hb₁', hren'⟩ := h'.book
  obtain rfl : book₁ = book₁' := Option.some.inj (hb₁.symm.trans hb₁')
  obtain ⟨-, ring, resting, hh, -⟩ := hacc.book t book hb
  obtain ⟨-, ring', resting', hh', -⟩ := hacc'.book t book' hb'
  refine ⟨book, book', hb, hb', ?_⟩
  rw [← entries_resting hren hh.toSound, ← entries_resting hren' hh'.toSound]

/-- A run and the run of the own requests of `t`. -/
theorem sameFor_of_run (h₀ : new m l tickerIds clock = .ok e₀) (ht : t ∈ tickerIds)
    (h₀' : new m l tickerIds' clock' = .ok e₀') (ht' : t ∈ tickerIds')
    (hadds : (addRequests requests).length < 2 ^ 32) (hp : Projects t τ requests own)
    (h : e₀.run requests = .ok e) :
    ∃ e', e₀'.run own = .ok e' ∧ ∃ ρ : Equiv.Perm TradeIdT, SameFor t τ ρ e e' := by
  obtain ⟨hf, hbooks⟩ := new_ok h₀
  obtain ⟨hf', hbooks'⟩ := new_ok h₀'
  have hc : Corresponds t τ e₀.nextOrderId e₀'.nextOrderId requests := by
    rw [hf.nextOrderId, hf'.nextOrderId]
    exact hp.corresponds hadds
  obtain ⟨e', h', hi⟩ := (hf.isolated hf' (hbooks t ht) (hbooks' t ht')).run hf.accounted hc h
  rw [← hp.own_eq] at h'
  exact ⟨e', h', hi.sameFor ((accounted_of_run h₀ h).tradeIds_nodup hadds)
    ((accounted_of_run h₀' h').tradeIds_nodup (hp.length_le.trans_lt hadds))⟩

/-- **Tickers do not interfere.**  A run leaves for the ticker `t` what the run
of the own requests of `t` leaves, up to the ids.  So do all runs whose requests
for `t` are these, however they are interleaved with those for other tickers. -/
theorem isolated_of_run (h₀ : new m l tickerIds clock = .ok e₀) (ht : t ∈ tickerIds)
    (h₀' : new m l tickerIds' clock' = .ok e₀') (ht' : t ∈ tickerIds')
    (hadds : (addRequests requests).length < 2 ^ 32) (hp : Projects t τ requests own)
    (h : e₀.run requests = .ok e) :
    (∃ e', e₀'.run own = .ok e' ∧ ∃ ρ : Equiv.Perm TradeIdT, SameFor t τ ρ e e') ∧
      ∀ (τ' : OrderIdT → OrderIdT) (requests' : List ClientRequest) (e' : Exchange m l),
        (addRequests requests').length < 2 ^ 32 → Projects t τ' requests' own →
        e₀.run requests' = .ok e' → Agree t τ τ' e e' := by
  obtain ⟨e₁, h₁, ρ, hsame⟩ := sameFor_of_run h₀ ht h₀' ht' hadds hp h
  refine ⟨⟨e₁, h₁, ρ, hsame⟩, fun τ' requests' e' hadds' hp' h' => ?_⟩
  obtain ⟨e₁', h₁', ρ', hsame'⟩ := sameFor_of_run h₀ ht h₀' ht' hadds' hp' h'
  obtain rfl := Except.ok.inj (h₁.symm.trans h₁')
  exact hsame.agree hsame' (accounted_of_run h₀ h) (accounted_of_run h₀ h')

/-- An offer for each of two tickers, a bid for the second one, a cancel of the
offer it trades with, and a cancel that names the order of the first ticker. -/
def wovenRequests : List ClientRequest :=
  [{ type := .add, tickerId := 1, clientId := 1, side := .sell, quantity := 5, limitPrice := 40 },
    { type := .add, tickerId := 2, clientId := 1, side := .sell, quantity := 9, limitPrice := 70 },
    { type := .add, tickerId := 2, clientId := 2, side := .buy, quantity := 4, limitPrice := 70 },
    { type := .cancel, tickerId := 2, clientId := 1, orderId := 2, side := .sell,
      limitPrice := 70 },
    { type := .cancel, tickerId := 2, clientId := 1, orderId := 1, side := .sell,
      limitPrice := 70 }]

/-- Takes the ids `2` and `3` for `1` and `2`. -/
def unwoven : Equiv.Perm OrderIdT := (Equiv.swap 1 2).trans (Equiv.swap 2 3)

/-- The five requests are an instance: the second ticker alone gives its two
orders the ids `1` and `2`. -/
theorem isolated_of_wovenRequests :
    ∃ e₀ e, new maxOrderIds maxPriceLevels [1, 2] (fun _ => 0) = .ok e₀ ∧
      e₀.run wovenRequests = .ok e ∧
      (∃ e', e₀.run ((requestsFor 2 wovenRequests).map (ClientRequest.translate unwoven)) =
        .ok e' ∧ ∃ ρ : Equiv.Perm TradeIdT, SameFor 2 unwoven ρ e e') ∧
      ∀ (τ' : OrderIdT → OrderIdT) (requests' : List ClientRequest)
        (e' : Exchange maxOrderIds maxPriceLevels),
        (addRequests requests').length < 2 ^ 32 →
        Projects 2 τ' requests'
          ((requestsFor 2 wovenRequests).map (ClientRequest.translate unwoven)) →
        e₀.run requests' = .ok e' → Agree 2 unwoven τ' e e' := by
  have hrun : ∃ e₀, new maxOrderIds maxPriceLevels [1, 2] (fun _ => 0) = .ok e₀ ∧
      (e₀.run wovenRequests).isOk = true := by
    decide +kernel
  obtain ⟨e₀, h₀, hok⟩ := hrun
  obtain ⟨e, h⟩ := exists_of_isOk hok
  exact ⟨e₀, e, h₀, h, isolated_of_run h₀ (by decide) h₀ (by decide) (by decide)
    (.of_perm rfl (by decide)) h⟩

end Exchange

end CppExchange
