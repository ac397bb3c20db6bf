import CppExchange.Accounts
import Mathlib.Data.List.MinMax

/-!
# The reference book

Price-time priority in its own terms: all resting orders in one list, oldest
first.  While an incoming order has quantity left it trades with the resting
order of the other side that has the best price within its limit, and among
those with the one that came first; what is left of it then rests.  There is one
way to do so, so the reference is a function, `Reference.run`.  An `add` fills
resting orders for good but for the last one at most, which it may reduce
(`Reference.kept_step`).
-/

namespace CppExchange

open Library

/-- A trade, by the ids of its orders. -/
structure Trade where
  taker : OrderIdT
  maker : OrderIdT
  quantity : QuantityT
  price : PriceT
  deriving DecidableEq, Repr

/-- The trades that FILLED responses announce. -/
def trades (responses : List ClientResponse) : List Trade :=
  (fills responses).map fun p => ⟨p.2.orderId, p.1.orderId, p.1.quantity, p.1.price⟩

/-- The trade of an event. -/
def Event.trade? : Event → Option Trade
  | traded _ maker taker fillQuantity =>
    some ⟨taker.orderId, maker.orderId, fillQuantity, maker.limitPrice⟩
  | _ => none

/-- Timestamps are no part of a trade. -/
theorem trades_untimed (responses : List ClientResponse) :
    trades (responses.map ClientResponse.untimed) = trades responses := by
  rw [trades, fills_untimed, List.map_map]
  rfl

/-- The trades of the announced events are announced. -/
theorem trades_flatMap (events : List Event) (tickerId : TickerIdT) :
    trades (events.flatMap (Event.responses tickerId)) = events.filterMap Event.trade? := by
  rw [trades, fills_flatMap]
  induction events with
  | nil => rfl
  | cons event events ih =>
    rw [List.flatMap_cons, List.map_append, ih]
    cases event <;> rfl

namespace Reference

/-- The resting orders `taker` may trade with. -/
def crossing (taker : Entry) (resting : List Entry) : List Entry :=
  resting.filter fun order => order.side = taker.side.opposite ∧
    World.crosses taker.side taker.limitPrice order.limitPrice = true

/-- The first one with the best price: the lowest to buy, the highest to sell. -/
def best (taker : Entry) (resting : List Entry) : Option Entry :=
  if taker.side = .buy then
    (crossing taker resting).argmin fun order => order.limitPrice.toNat
  else
    (crossing taker resting).argmax fun order => order.limitPrice.toNat

/-- The orders before the first occurrence of an order, and those behind it. -/
def around (order : Entry) (resting : List Entry) : List Entry × List Entry :=
  (resting.takeWhile (· ≠ order), (resting.dropWhile (· ≠ order)).tail)

/-- The trades of an incoming order, at most `fuel` of them.  Each trade takes
one unit at least, so the quantity of the order is fuel enough. -/
def sweep : ℕ → Ledger → Entry → Ledger × Entry
  | 0, ledger, taker => (ledger, taker)
  | fuel + 1, ledger, taker =>
    if taker.quantity = 0 then (ledger, taker)
    else match best taker ledger.resting with
      | none => (ledger, taker)
      | some maker =>
        let (older, newer) := around maker ledger.resting
        sweep fuel (ledger.trade older maker newer taker) (Ledger.after taker maker)

/-- One call. -/
def step (ledger : Ledger) : Op → Ledger
  | .add orderId clientId side quantity limitPrice =>
    let order : Entry := { orderId, clientId, side, quantity, limitPrice }
    let (ledger, left) := sweep quantity.toNat (ledger.record (.accepted order)) order
    ledger.rest left
  | .cancel clientId orderId side limitPrice =>
    match ledger.resting.find? fun order =>
      order.orderId = orderId ∧ order.limitPrice = limitPrice with
    | some order =>
      let (older, newer) := around order ledger.resting
      ledger.withdraw older order newer clientId side
    | none => ledger.record (.rejected clientId orderId)

/-- A sequence of calls on an empty book. -/
def run (ops : List Op) : Ledger := ops.foldl step {}

/-- The trades of a sequence of calls. -/
def trades (ops : List Op) : List Trade := (run ops).events.filterMap Event.trade?

theorem run_concat {ops : List Op} {op : Op} : run (ops ++ [op]) = step (run ops) op := by
  simp [run]

variable {taker maker order : Entry} {resting older newer : List Entry} {L L' : Ledger}

/-- An order that is not among the older ones splits the list at its place. -/
theorem around_eq (h : order ∉ older) :
    around order (older ++ order :: newer) = (older, newer) := by
  have hall : ∀ x ∈ older, decide (x ≠ order) = true := fun x hx => by
    simpa using fun he : x = order => h (he ▸ hx)
  rw [around, List.takeWhile_append_of_pos hall, List.dropWhile_append_of_pos hall]
  simp

/-- An order crosses when it rests on the other side at a price within the
taker's limit. -/
theorem mem_crossing : order ∈ crossing taker resting ↔ order ∈ resting ∧
    order.side = taker.side.opposite ∧
      World.crosses taker.side taker.limitPrice order.limitPrice = true := by
  simp [crossing]

/-- There is no best order to trade with exactly when none crosses. -/
theorem best_eq_none : best taker resting = none ↔ crossing taker resting = [] := by
  unfold best
  split_ifs
  · exact List.argmin_eq_none
  · exact List.argmax_eq_none

/-- A crossing order that no other one is ahead of, and that is the oldest at
its price, is the best one. -/
theorem best_eq_some (hmaker : maker ∈ crossing taker (older ++ maker :: newer))
    (hbest : ∀ order ∈ crossing taker (older ++ maker :: newer),
      OrderBook.ahead taker.side.opposite order.limitPrice maker.limitPrice = false)
    (holder : ∀ order ∈ older, order.limitPrice ≠ maker.limitPrice) :
    best taker (older ++ maker :: newer) = some maker := by
  have hsplit : crossing taker (older ++ maker :: newer) =
      crossing taker older ++ maker :: crossing taker newer := by
    rw [crossing, List.filter_append,
      List.filter_cons_of_pos (by simpa using (mem_crossing.1 hmaker).2)]
    rfl
  have hfirst : ∀ order ∈ crossing taker (older ++ maker :: newer),
      order.limitPrice.toNat = maker.limitPrice.toNat →
      (crossing taker (older ++ maker :: newer)).idxOf maker ≤
        (crossing taker (older ++ maker :: newer)).idxOf order := by
    intro order _ hp
    have hout : ∀ x : Entry, x.limitPrice.toNat = maker.limitPrice.toNat →
        x ∉ crossing taker older := fun x hx hmem =>
      holder x (mem_crossing.1 hmem).1 (UInt64.toNat_inj.1 hx)
    rw [hsplit, List.idxOf_append_of_notMem (hout maker rfl),
      List.idxOf_append_of_notMem (hout order hp), List.idxOf_cons_self]
    omega
  unfold best
  split_ifs with hbuy
  · have hle : ∀ order ∈ crossing taker (older ++ maker :: newer),
        maker.limitPrice.toNat ≤ order.limitPrice.toNat := by
      intro order ho
      have h := hbest order ho
      rw [hbuy] at h
      exact UInt64.le_iff_toNat_le.1 (by simpa [OrderSide.opposite, OrderBook.ahead] using h)
    exact List.argmin_eq_some_iff.2 ⟨hmaker, hle, fun order ho h =>
      hfirst order ho (le_antisymm h (hle order ho))⟩
  · have hle : ∀ order ∈ crossing taker (older ++ maker :: newer),
        order.limitPrice.toNat ≤ maker.limitPrice.toNat := by
      intro order ho
      have h := hbest order ho
      have hopp : taker.side.opposite = .buy := by
        revert hbuy
        cases taker.side <;> simp [OrderSide.opposite]
      rw [hopp] at h
      exact UInt64.le_iff_toNat_le.1 (by simpa [OrderBook.ahead] using h)
    exact List.argmax_eq_some_iff.2 ⟨hmaker, hle, fun order ho h =>
      hfirst order ho (le_antisymm (hle order ho) h)⟩

theorem exists_around (h : order ∈ resting) :
    ∃ older newer, resting = older ++ order :: newer ∧ around order resting = (older, newer) := by
  obtain ⟨older, newer, rfl, hnot⟩ := List.eq_append_cons_of_mem h
  exact ⟨older, newer, rfl, around_eq hnot⟩

/-- The best order rests. -/
theorem mem_of_best (h : best taker resting = some maker) : maker ∈ resting := by
  unfold best at h
  split_ifs at h
  · exact (mem_crossing.1 (List.argmin_mem h)).1
  · exact (mem_crossing.1 (List.argmax_mem h)).1

/-- An order without a quantity sweeps nothing. -/
theorem sweep_of_done {n : ℕ} (h : taker.quantity = 0) : sweep n L taker = (L, taker) := by
  cases n with
  | zero => rfl
  | succ n => rw [sweep, if_pos h]

/-- What a list of resting orders is after orders were filled: some of them are
gone, and one of those left may be reduced. -/
def Kept (resting kept : List Entry) (left : QuantityT) : Prop :=
  kept.Sublist resting ∨ left = 0 ∧ ∃ older maker newer quantity,
    (older ++ maker :: newer).Sublist resting ∧ quantity ≠ 0 ∧ quantity < maker.quantity ∧
      kept = older ++ { maker with quantity } :: newer

/-- **A sweep reduces one order at most, and then nothing is left of the taker.**
The other orders are gone, or as they were. -/
theorem kept_sweep (n : ℕ) (L : Ledger) (taker : Entry) :
    Kept L.resting (sweep n L taker).1.resting (sweep n L taker).2.quantity := by
  induction n generalizing L taker with
  | zero => exact Or.inl (List.Sublist.refl _)
  | succ n ih =>
    by_cases hq : taker.quantity = 0
    · rw [sweep_of_done hq]
      exact Or.inl (List.Sublist.refl _)
    rw [sweep, if_neg hq]
    cases hbest : best taker L.resting with
    | none => exact Or.inl (List.Sublist.refl _)
    | some maker =>
      obtain ⟨older, newer, hresting, haround⟩ := exists_around (mem_of_best hbest)
      simp only [haround]
      by_cases hfill : maker.quantity = taker.fillQuantity maker
      · have hgone : (L.trade older maker newer taker).resting = older ++ newer := by
          simp [Ledger.trade, Entry.left, if_pos hfill]
        have hsub : (older ++ newer).Sublist L.resting := by
          rw [hresting]
          exact (List.Sublist.refl older).append (List.sublist_cons_self maker newer)
        rcases ih (L.trade older maker newer taker) (Ledger.after taker maker) with
          h | ⟨hleft, older', maker', newer', q, h, hkept⟩
        · rw [hgone] at h
          exact Or.inl (h.trans hsub)
        · rw [hgone] at h
          exact Or.inr ⟨hleft, older', maker', newer', q, h.trans hsub, hkept⟩
      · have hall : taker.fillQuantity maker = taker.quantity := by
          unfold Entry.fillQuantity at hfill ⊢
          rw [show min taker.quantity maker.quantity =
            if taker.quantity ≤ maker.quantity then taker.quantity else maker.quantity from rfl]
            at hfill ⊢
          grind
        have hdone : (Ledger.after taker maker).quantity = 0 := by
          simp [Ledger.after, hall]
        rw [sweep_of_done hdone]
        have hless : taker.quantity ≤ maker.quantity := hall ▸ min_quantity_le.2
        refine Or.inr ⟨hdone, older, maker, newer, maker.quantity - taker.fillQuantity maker, ?_,
          fun h0 => hfill (quantity_sub_eq_zero.1 h0), ?_, ?_⟩
        · rw [hresting]
        · rw [hall]
          exact UInt32.sub_lt (UInt32.pos_iff_ne_zero.2 hq) hless
        · simp [Ledger.trade, Entry.left, if_neg hfill]

/-- A sweep takes from the quantity of the taker. -/
theorem sweep_left (n : ℕ) (L : Ledger) (taker : Entry) :
    (sweep n L taker).2 = { taker with quantity := (sweep n L taker).2.quantity } := by
  induction n generalizing L taker with
  | zero => rfl
  | succ n ih =>
    by_cases hq : taker.quantity = 0
    · rw [sweep_of_done hq]
    · rw [sweep, if_neg hq]
      cases best taker L.resting with
      | none => rfl
      | some maker => exact ih _ (Ledger.after taker maker)

/-- **The orders at rest after an `add`:** those that were there, but for what
was filled, and what is left of the new one behind them. -/
theorem kept_step (L : Ledger) (taker : Entry) : ∃ kept left, Kept L.resting kept left ∧
    (step L (.add taker.orderId taker.clientId taker.side taker.quantity
      taker.limitPrice)).resting =
        kept ++ if left = 0 then [] else [{ taker with quantity := left }] := by
  refine ⟨_, _, kept_sweep taker.quantity.toNat (L.record (.accepted taker)) taker, ?_⟩
  set s := sweep taker.quantity.toNat (L.record (.accepted taker)) taker with hs
  have hstep : step L (.add taker.orderId taker.clientId taker.side taker.quantity
      taker.limitPrice) = s.1.rest s.2 := rfl
  have hleft : s.2 = { taker with quantity := s.2.quantity } := sweep_left _ _ taker
  rw [hstep, ← hleft, Ledger.rest]
  split_ifs
  · exact (List.append_nil _).symm
  · rfl

/-- There is one way to cancel. -/
theorem eq_step_of_cancel {clientId : ClientIdT} {orderId : OrderIdT} {side : OrderSide}
    {limitPrice : PriceT} (h : L.Step (.cancel clientId orderId side limitPrice) L') :
    L' = step L (.cancel clientId orderId side limitPrice) := by
  cases h with
  | @cancelHit order older newer _ _ resting oldest =>
    have hnone : older.find? (fun x => x.orderId = order.orderId ∧
        x.limitPrice = order.limitPrice) = none := by
      refine List.find?_eq_none.2 fun x hx => ?_
      simpa using oldest x hx
    have hfind : L.resting.find? (fun x => x.orderId = order.orderId ∧
        x.limitPrice = order.limitPrice) = some order := by
      rw [resting, List.find?_append, hnone, List.find?_cons_of_pos (by simp)]
      rfl
    have haround : around order L.resting = (older, newer) := by
      rw [resting]
      exact around_eq fun hmem => oldest order hmem rfl rfl
    simp only [step, hfind, haround]
  | cancelMiss _ _ absent =>
    have hnone : L.resting.find? (fun x => x.orderId = orderId ∧ x.limitPrice = limitPrice) =
        none := by
      refine List.find?_eq_none.2 fun x hx => ?_
      simpa using absent x hx
    simp only [step, hnone]

end Reference

end CppExchange
