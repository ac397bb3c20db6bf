import CppExchange.Exchange
import CppExchange.Parallel

/-!
# One request at the exchange

A request is a call on the book of its ticker (`processRequest_ok`), and what
the call pushes does not depend on what the queues hold already: it is what a
step of the ledger of that book records (`step_records`).  So the books of an
exchange each keep a ledger of their own.
-/

namespace CppExchange

open Library OrderBook

/-- The call a request makes on the book of its ticker, `orderId` being the id
for a new order. -/
def ClientRequest.op (request : ClientRequest) (orderId : OrderIdT) : Option Op :=
  match request.type with
  | .invalid => none
  | .add => some (.add orderId request.clientId request.side request.quantity request.limitPrice)
  | .cancel => some (.cancel request.clientId request.orderId request.side request.limitPrice)

/-- The next order id after a request. -/
def ClientRequest.advance (request : ClientRequest) (orderId : OrderIdT) : OrderIdT :=
  if request.type = .add then orderId + 1 else orderId

/-- A request adds an order id when it is an add. -/
theorem ClientRequest.addedId_op {request : ClientRequest} {orderId : OrderIdT} {op : Op}
    (h : request.op orderId = some op) :
    op.addedId = if request.type = .add then some orderId else none := by
  unfold ClientRequest.op at h
  split at h <;> rename_i ht
  · cases h
  · obtain rfl := Option.some.inj h
    rw [if_pos ht]
    rfl
  · obtain rfl := Option.some.inj h
    rw [if_neg (by simp [ht])]
    rfl

namespace OrderBook

variable {m l : ℕ} {book book' : OrderBook m l} {ring : Fin l → List (Fin m)}
  {resting : List Entry} {τ : OrderIdT → OrderIdT}

/-- A book is itself, with no order renamed. -/
theorem Renamed.refl : Renamed id book book where
  same _ := rfl
  orderId _ _ := rfl
  separates _ _ _ h := h
  nextFree := rfl
  available _ := rfl
  frame := rfl

/-- A renamed book has the shape of the book. -/
theorem Renamed.sound (h : Renamed τ book book') (hs : Sound book ring) : Sound book' ring := by
  obtain ⟨pool, hp, rfl⟩ := h.exists_pool
  refine ⟨⟨fun b => hp.ringAt (hs.rings b), hs.top, hs.disjoint, fun b o ho => ?_, fun b o ho => ?_,
    hs.levelAt, hs.free⟩, hs.nonempty, fun b o ho => ?_⟩
  · exact (hp.available o).trans (hs.live b o ho)
  · exact (h.order Order.limitPrice fun _ => rfl).trans (hs.price b o ho)
  · exact fun h0 => hs.positive b o ho ((h.order Order.quantity fun _ => rfl).symm.trans h0)

/-- The orders of a book under the same ids. -/
theorem Renamed.holds (h : Renamed id book book') (hh : Holds book ring resting) :
    Holds book' ring resting := by
  refine ⟨h.sound hh.toSound, fun p b hb => ?_, fun order ho => ?_⟩
  · rw [h.levelAt] at hb
    rw [hh.queue p b hb]
    refine (entries_congr fun o ho => ?_).symm
    have hid : (book'.order o).orderId = (book.order o).orderId := h.orderId_eq (hh.live b o ho)
    simp only [Order.entry, hid, h.order Order.clientId fun _ => rfl,
      h.order Order.side fun _ => rfl, h.order Order.quantity fun _ => rfl,
      h.order Order.limitPrice fun _ => rfl]
  · rw [h.levelAt]
    exact hh.recorded order ho

end OrderBook

/-! ### What a call pushes -/

theorem ClientResponse.rename_id : ClientResponse.rename id = ClientResponse.untimed := rfl

theorem MarketUpdate.rename_id : MarketUpdate.rename id (· + 0) = MarketUpdate.untimed := by
  funext update
  simp [MarketUpdate.rename, MarketUpdate.untimed]

theorem Op.rename_id {op : Op} : op.rename id = op := by
  cases op <;> rfl

namespace World

variable {m l : ℕ} {w w' : World m l} {ring : Fin l → List (Fin m)} {resting : List Entry} {op : Op}

/-- The world with empty queues. -/
def cleared (w : World m l) : World m l := { w with responses := [], updates := [] }

/-- **What a call does** is a step of the ledger of the book, and what it pushes
is what that step records. -/
theorem step_records (hh : Holds w.toOrderBook ring resting) (h : w.step op = .ok w') :
    ∃ L', Ledger.Step { resting, nextTradeId := w.nextTradeId } op L' ∧
      (∃ ring', Holds w'.toOrderBook ring' L'.resting) ∧ w'.tickerId = w.tickerId ∧
      w'.nextTradeId = L'.nextTradeId ∧
      w'.responses.map ClientResponse.untimed =
        w.responses.map ClientResponse.untimed ++ L'.announced w.tickerId ∧
      w'.updates.map MarketUpdate.untimed =
        w.updates.map MarketUpdate.untimed ++ L'.events.flatMap (Event.updates w.tickerId) := by
  have hp : Parallel id 0 w.cleared w w.cleared w := Parallel.start .refl (UInt32.add_zero _).symm
  have hsep : ∀ orderId, op.addedId = some orderId → Separates id orderId := fun _ _ _ he => he
  have hlock := step_lockstep hp hh.toSound hsep
  rw [Op.rename_id] at hlock
  obtain ⟨w₁, hw₁, hp'⟩ := hlock.of_ok_right h
  have hk : Keeps w.tickerId w.cleared { resting, nextTradeId := w.nextTradeId } :=
    ⟨⟨rfl, rfl, rfl⟩, rfl, ring, hh⟩
  obtain ⟨L', hstep, hk'⟩ := step_sim hk hw₁
  obtain ⟨ring', hh'⟩ := hk'.holds
  refine ⟨L', hstep, ⟨ring', hp'.book.holds hh'⟩, hp'.book.tickerId.trans hp'.tickerId, ?_, ?_, ?_⟩
  · rw [hp'.nextTradeId, hk'.nextTradeId, UInt32.add_zero]
  · obtain ⟨as, bs, has, hbs, hmap, -⟩ := hp'.responses
    have hann := hk'.announced
    rw [has, show w.cleared.responses = [] from rfl, List.nil_append, ← ClientResponse.rename_id,
      hmap] at hann
    rw [hbs, List.map_append, hann]
    rfl
  · obtain ⟨as, bs, has, hbs, hmap, -⟩ := hp'.updates
    have hpub := hk'.published
    rw [has, show w.cleared.updates = [] from rfl, List.nil_append, ← MarketUpdate.rename_id,
      hmap] at hpub
    rw [hbs, List.map_append, hpub]

/-- A call is parallel to itself, so what it pushes is about the ticker of its
book. -/
theorem step_self (hs : Sound w.toOrderBook ring) (h : w.step op = .ok w') :
    ∃ w'' : World m l, Parallel id 0 w w w' w'' := by
  have hlock : Lockstep (Parallel id 0 w w) (w.step op) (w.step (op.rename id)) :=
    step_lockstep (.start .refl (UInt32.add_zero _).symm) hs fun _ _ _ he => he
  obtain ⟨w'', -, hp⟩ := hlock.of_ok h
  exact ⟨w'', hp⟩

end World

namespace Exchange

variable {m l : ℕ} {e e' : Exchange m l} {request : ClientRequest} {requests : List ClientRequest}
  {tickerId t : TickerIdT} {tickerIds : List TickerIdT} {clock : ℕ → NsTimestampT} {op : Op}
  {book : OrderBook m l} {w : World m l}

@[simp] theorem bookOf_withWorld : (e.withWorld tickerId w).bookOf t =
    if t = tickerId then some w.toOrderBook else e.bookOf t := UnorderedMap.at?_insert ..

/-! ### Requests as calls -/

/-- A request is a call on the book of its ticker. -/
theorem processRequest_eq (hop : request.op e.nextOrderId = some op)
    (hb : e.bookOf request.tickerId = some book) :
    e.processRequest request = ((e.world book).step op).map fun w =>
      { e.withWorld request.tickerId w with nextOrderId := request.advance e.nextOrderId } := by
  have hget : e.getOrderBook request.tickerId = (e, some book) := by
    have hfst := UnorderedMap.index_fst_of_at? hb
    have hsnd : _ = some book := (UnorderedMap.index_snd e.orderBooksMap request.tickerId).trans hb
    simp only [getOrderBook, hfst, hsnd]
  unfold ClientRequest.op at hop
  split at hop <;> rename_i ht
  · cases hop
  · obtain rfl := Option.some.inj hop
    have hadv : request.advance e.nextOrderId = e.nextOrderId + 1 := if_pos ht
    simp only [processRequest, ht, addOrder, hget, deref_some, ok_bind, getNextOrderId, hadv]
    change ((e.world book).add _ _ _ _ _ >>= _) = ((e.world book).add _ _ _ _ _).map _
    cases (e.world book).add e.nextOrderId request.clientId request.side request.quantity
      request.limitPrice <;> rfl
  · obtain rfl := Option.some.inj hop
    have hadv : request.advance e.nextOrderId = e.nextOrderId := if_neg (by simp [ht])
    simp only [processRequest, ht, cancelOrder, hget, deref_some, ok_bind, hadv]
    change ((e.world book).cancel _ _ _ _ >>= _) = ((e.world book).cancel _ _ _ _).map _
    cases (e.world book).cancel request.clientId request.orderId request.side
      request.limitPrice <;> rfl

/-- **A request that returned** did nothing, or made a call on the book of its
ticker. -/
theorem processRequest_ok (h : e.processRequest request = .ok e') :
    request.type = .invalid ∧ e' = e ∨
      ∃ op book w, request.op e.nextOrderId = some op ∧ e.bookOf request.tickerId = some book ∧
        (e.world book).step op = .ok w ∧
        e' = { e.withWorld request.tickerId w with
          nextOrderId := request.advance e.nextOrderId } := by
  cases hop : request.op e.nextOrderId with
  | none =>
    unfold ClientRequest.op at hop
    split at hop <;> rename_i ht
    · rw [processRequest, ht] at h
      exact Or.inl ⟨ht, (Except.ok.inj h).symm⟩
    · cases hop
    · cases hop
  | some op =>
    cases hb : e.bookOf request.tickerId with
    | none =>
      have hsnd : _ = none := (UnorderedMap.index_snd e.orderBooksMap request.tickerId).trans hb
      unfold ClientRequest.op at hop
      split at hop <;> rename_i ht
      · cases hop
      · simp only [processRequest, ht, addOrder, getOrderBook, hsnd, deref_none, error_bind] at h
        cases h
      · simp only [processRequest, ht, cancelOrder, getOrderBook, hsnd, deref_none, error_bind] at h
        cases h
    | some book =>
      rw [processRequest_eq hop hb] at h
      cases hw : (e.world book).step op with
      | error f =>
        rw [hw] at h
        cases h
      | ok w =>
        rw [hw] at h
        exact Or.inr ⟨op, book, w, rfl, rfl, hw, (Except.ok.inj h).symm⟩

/-! ### New exchanges -/

/-- An exchange before its first request. -/
structure Fresh (e : Exchange m l) : Prop where
  nextOrderId : e.nextOrderId = 1
  nextTradeId : e.nextTradeId = 1
  responses : e.responses = []
  updates : e.updates = []
  books : ∀ t ∈ e.orderBooksMap, e.bookOf t = some (.new m l t)

/-- A ticker with a book has a key in the map. -/
theorem mem_of_bookOf (h : e.bookOf t = some book) : t ∈ e.orderBooksMap := by
  by_contra ht
  rw [bookOf, UnorderedMap.at?, AList.lookup_eq_none.2 ht] at h
  cases h

/-- **A ticker gets an empty book,** and a fresh exchange stays fresh. -/
theorem addTicker_ok (h : e.addTicker t = .ok e') (hf : Fresh e) :
    Fresh e' ∧ e'.bookOf t = some (.new m l t) ∧
      ∀ t', e.bookOf t' = some (.new m l t') → e'.bookOf t' = some (.new m l t') := by
  simp only [addTicker, bind_eq_ok] at h
  obtain ⟨-, -, h⟩ := h
  split_ifs at h with ht
  · obtain rfl := Except.ok.inj h
    exact ⟨hf, hf.books t ht, fun _ h => h⟩
  · obtain rfl := Except.ok.inj h
    have hbook : ∀ t', UnorderedMap.at? (AList.insert t (some (OrderBook.new m l t))
        e.orderBooksMap) t' = if t' = t then some (.new m l t) else e.bookOf t' := fun t' =>
      UnorderedMap.at?_insert ..
    refine ⟨⟨hf.nextOrderId, hf.nextTradeId, hf.responses, hf.updates, fun t' ht' => ?_⟩, ?_,
      fun t' hb => ?_⟩
    · refine (hbook t').trans ?_
      split_ifs with he
      · rw [he]
      · exact hf.books t' ((AList.mem_insert _).1 ht' |>.resolve_left he)
    · exact (hbook t).trans (if_pos rfl)
    · refine (hbook t').trans ?_
      split_ifs with he
      · rw [he]
      · exact hb

/-- **A new exchange** has a new book for each of its tickers. -/
theorem new_ok (h : new m l tickerIds clock = .ok e) :
    Fresh e ∧ ∀ t ∈ tickerIds, e.bookOf t = some (.new m l t) := by
  refine foldlM_induction (P := fun tickerIds e => Fresh e ∧
    ∀ t ∈ tickerIds, e.bookOf t = some (.new m l t)) ⟨⟨rfl, rfl, rfl, rfl, fun t ht =>
      absurd ht (AList.notMem_empty t)⟩, by simp⟩ ?_ h
  rintro ts t e e' - ⟨hf, hall⟩ hadd
  obtain ⟨hf', ht, hold⟩ := addTicker_ok hadd hf
  refine ⟨hf', fun t' ht' => ?_⟩
  rcases List.mem_append.1 ht' with ht' | ht'
  · exact hold t' (hall t' ht')
  · rwa [List.mem_singleton.1 ht']

end Exchange

end CppExchange
