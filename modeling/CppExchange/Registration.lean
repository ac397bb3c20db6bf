import CppExchange.Turns

/-!
# Requests for tickers without a book

Tickers are registered with `addTicker` while requests are processed.  In every
state reached, the tickers that have an entry in `order_books_map` are the
registered ones, and each has a book (`registered_of_run`).  A lookup of any other
ticker inserts a null entry, which the request then dereferences, so no such
request returns (`nullDeref_of_run`); and a ticker with a null entry can no
longer be registered (`addTicker_of_miss`).
-/

namespace CppExchange

open Library OrderBook

namespace Exchange

variable {m l : ℕ} {e e' : Exchange m l} {request : ClientRequest} {t t' : TickerIdT}
  {clock : ℕ → NsTimestampT}

/-- What happens to an exchange: a ticker is registered, or a request is
processed. -/
inductive Turn
  | addTicker (tickerId : TickerIdT)
  | request (request : ClientRequest)

/-- One turn. -/
def turn (e : Exchange m l) : Turn → Except Fault (Exchange m l)
  | .addTicker tickerId => e.addTicker tickerId
  | .request request => e.processRequest request

/-- The tickers that were registered. -/
def addedTickers (turns : List Turn) : List TickerIdT :=
  turns.filterMap fun
    | .addTicker tickerId => some tickerId
    | .request _ => none

/-- The request returns, every book is as it was, and no ticker came or went. -/
def Harmless (e : Exchange m l) (request : ClientRequest) : Prop :=
  ∃ e', e.processRequest request = .ok e' ∧ (∀ t, e'.bookOf t = e.bookOf t) ∧
    ∀ t, t ∈ e'.orderBooksMap ↔ t ∈ e.orderBooksMap

/-- The entries of the map are those of the tickers in the list, and each has a
book. -/
def Registered (e : Exchange m l) (tickerIds : List TickerIdT) : Prop :=
  ∀ t, (t ∈ e.orderBooksMap ↔ t ∈ tickerIds) ∧ (t ∈ tickerIds ↔ e.bookOf t ≠ none)

/-- **Adding a ticker registers it,** and it keeps the book it may have. -/
theorem Registered.addTicker {tickerIds : List TickerIdT} (h : Registered e tickerIds)
    (hadd : e.addTicker t = .ok e') : Registered e' (tickerIds ++ [t]) := by
  simp only [Exchange.addTicker, bind_eq_ok] at hadd
  obtain ⟨-, -, hadd⟩ := hadd
  intro t'
  rw [List.mem_append, List.mem_singleton]
  split_ifs at hadd with ht
  · obtain rfl := Except.ok.inj hadd
    have hin : t ∈ tickerIds := (h t).1.1 ht
    have hmem : t' ∈ tickerIds ∨ t' = t ↔ t' ∈ tickerIds :=
      ⟨fun ht' => ht'.elim id fun he => he ▸ hin, Or.inl⟩
    rw [hmem]
    exact h t'
  · obtain rfl := Except.ok.inj hadd
    have hbook : UnorderedMap.at? (AList.insert t (some (OrderBook.new m l t)) e.orderBooksMap) t' =
        if t' = t then some (.new m l t) else e.bookOf t' := UnorderedMap.at?_insert ..
    constructor
    · rw [AList.mem_insert, (h t').1]
      tauto
    · rw [bookOf, hbook]
      split_ifs with he
      · simp [he]
      · rw [← (h t').2]
        tauto

/-- **A request registers nothing,** whatever it is and whichever book it
changes. -/
theorem Registered.processRequest {tickerIds : List TickerIdT} (h : Registered e tickerIds)
    (hreq : e.processRequest request = .ok e') : Registered e' tickerIds := by
  rcases processRequest_ok hreq with ⟨-, rfl⟩ | ⟨op, book, w, -, hb, -, rfl⟩
  · exact h
  · have hmem : request.tickerId ∈ tickerIds := (h _).2.2 (by simp [hb])
    intro t'
    have hbook : (e.withWorld request.tickerId w).bookOf t' =
        if t' = request.tickerId then some w.toOrderBook else e.bookOf t' := bookOf_withWorld
    constructor
    · rw [← (h t').1]
      refine (AList.mem_insert e.orderBooksMap).trans
        ⟨fun ht' => ht'.elim (fun he => ?_) id, Or.inr⟩
      rw [he]
      exact (h _).1.2 hmem
    · refine (h t').2.trans (not_congr ?_)
      rw [show bookOf { e.withWorld request.tickerId w with
        nextOrderId := request.advance e.nextOrderId } t' = _ from hbook]
      split_ifs with he
      · simp [he, hb]
      · rfl

/-- **The tickers with an entry are the registered ones,** in every state
reached, and each has a book. -/
theorem registered_of_run {turns : List Turn} (h : turns.foldlM turn { clock } = .ok e) :
    Registered e (addedTickers turns) := by
  refine foldlM_induction (P := fun turns e => Registered e (addedTickers turns)) ?_ ?_ h
  · intro t
    simp [addedTickers, bookOf, UnorderedMap.at?]
  · rintro turns (tickerId | request) e e' - hreg hturn
    · rw [addedTickers, List.filterMap_append]
      exact hreg.addTicker hturn
    · have hsame : addedTickers (turns ++ [.request request]) = addedTickers turns := by
        simp [addedTickers]
      rw [hsame]
      exact hreg.processRequest hturn

/-- A request for a ticker without a book dereferences null. -/
theorem processRequest_of_none (hb : e.bookOf request.tickerId = none)
    (ht : request.type ≠ .invalid) : e.processRequest request = .error .nullDeref := by
  have hsnd : _ = none := (UnorderedMap.index_snd e.orderBooksMap request.tickerId).trans hb
  cases htype : request.type with
  | invalid => exact absurd htype ht
  | add =>
    simp only [processRequest, htype, addOrder, getOrderBook, hsnd, deref_none, error_bind]
  | cancel =>
    simp only [processRequest, htype, cancelOrder, getOrderBook, hsnd, deref_none, error_bind]

/-- **No ADD or CANCEL for a ticker that was never added is harmless:** it
dereferences the null pointer that the lookup finds. -/
theorem nullDeref_of_run {turns : List Turn} (h : turns.foldlM turn { clock } = .ok e)
    (hnew : request.tickerId ∉ addedTickers turns) (ht : request.type ≠ .invalid) :
    e.processRequest request = .error .nullDeref ∧ ¬Harmless e request := by
  have hb : e.bookOf request.tickerId = none := by
    by_contra hne
    exact hnew ((registered_of_run h _).2.2 hne)
  have herr := processRequest_of_none hb ht
  refine ⟨herr, ?_⟩
  rintro ⟨e', hok, -⟩
  rw [herr] at hok
  cases hok

/-- Two tickers and an order on the first of them. -/
def sampleTurns : List Turn :=
  [.addTicker 1,
   .request { type := .add, tickerId := 1, side := .sell, quantity := 10, limitPrice := 100 },
   .addTicker 3]

theorem sampleTurns_returns :
    ∃ e, sampleTurns.foldlM turn ({ clock := fun _ => 0 } : Exchange 8 8) = .ok e :=
  exists_of_isOk (by decide +kernel)

/-- A cancel for a ticker that was not added is an instance. -/
theorem nullDeref_of_sampleTurns :
    ∃ e, sampleTurns.foldlM turn ({ clock := fun _ => 0 } : Exchange 8 8) = .ok e ∧
      e.processRequest { type := .cancel, tickerId := 2, orderId := 1 } = .error .nullDeref ∧
      ¬Harmless e { type := .cancel, tickerId := 2, orderId := 1 } := by
  obtain ⟨e, he⟩ := sampleTurns_returns
  exact ⟨e, he, nullDeref_of_run he (by decide) (by decide)⟩

/-- An ADD for ticker 2 stops an exchange of tickers 1 and 3. -/
theorem not_harmless_of_sampleTurns :
    ∃ e, sampleTurns.foldlM turn ({ clock := fun _ => 0 } : Exchange 8 8) = .ok e ∧
      2 ∉ addedTickers sampleTurns ∧
      ¬Harmless e
        { type := .add, tickerId := 2, side := .buy, quantity := 1, limitPrice := 100 } := by
  have hrun : ∃ e, sampleTurns.foldlM turn ({ clock := fun _ => 0 } : Exchange 8 8) = .ok e ∧
      e.processRequest { type := .add, tickerId := 2, side := .buy, quantity := 1,
                         limitPrice := 100 } = .error .nullDeref := by
    decide +kernel
  obtain ⟨e, he, herr⟩ := hrun
  refine ⟨e, he, by decide, ?_⟩
  rintro ⟨e', hok, -⟩
  rw [herr] at hok
  cases hok

/-- A lookup that misses leaves a null entry, and registering the ticker after it
adds no book. -/
theorem addTicker_of_miss (hb : e.bookOf t = none) (h : (e.getOrderBook t).1.addTicker t = .ok e') :
    e'.bookOf t = none := by
  have hmem : t ∈ (e.getOrderBook t).1.orderBooksMap := by
    simp only [getOrderBook, UnorderedMap.index]
    cases hl : e.orderBooksMap.lookup t with
    | some v => exact AList.lookup_isSome.1 (by simp [hl])
    | none => exact (AList.mem_insert _).2 (Or.inl rfl)
  simp only [addTicker, bind_eq_ok, if_pos hmem] at h
  obtain ⟨-, -, hok⟩ := h
  obtain rfl := Except.ok.inj hok
  exact (UnorderedMap.at?_index ..).trans hb

end Exchange

end CppExchange
