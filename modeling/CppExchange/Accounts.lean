import CppExchange.Ledger
import Mathlib.Algebra.Group.Nat.Even
import Mathlib.Algebra.GroupWithZero.Nat

/-!
# What runs of the ledger keep

Facts about every run of `Ledger.Step`, each from one trade (`Ledger.Fill`) and
one step.  Quantities: what was accepted under an id has been filled, cancelled
or still rests (`Balanced`).  Identities: ids do not multiply (`Counted`), the
orders accepted are those that the calls added (`acceptedOf_of_runs`), and
whoever trades was accepted under the limit it trades by (`Known`).
-/

namespace CppExchange

open Library

/-- The sum of the quantities of the responses of a type for an order id. -/
def total (type : ResponseType) (responses : List ClientResponse) (orderId : OrderIdT) : ℕ :=
  (responses.map fun r => if r.type = type ∧ r.orderId = orderId then r.quantity.toNat else 0).sum

/-- The sum of the quantities of the orders with an id. -/
def totalOf (orders : List Entry) (orderId : OrderIdT) : ℕ :=
  (orders.map fun order => if order.orderId = orderId then order.quantity.toNat else 0).sum

/-- The order ids of the responses of a type. -/
def idsOf (type : ResponseType) (responses : List ClientResponse) : List OrderIdT :=
  (responses.filter fun r => r.type = type).map ClientResponse.orderId

/-- The elements of a list two by two. -/
def pairUp {α : Type} : List α → List (α × α)
  | a :: b :: xs => (a, b) :: pairUp xs
  | _ => []

/-- The FILLED responses by trade: the one for the resting order, and the one
for the incoming order, which follows it. -/
def fills (responses : List ClientResponse) : List (ClientResponse × ClientResponse) :=
  pairUp (responses.filter fun r => r.type = .filled)

/-- The id of the order a call adds. -/
def Op.addedId : Op → Option OrderIdT
  | .add orderId _ _ _ _ => some orderId
  | .cancel _ _ _ _ => none

/-- The ids of the orders the calls add. -/
def addedIds (ops : List Op) : List OrderIdT := ops.filterMap Op.addedId

/-- The order a call adds. -/
def Op.addedOrder : Op → Option Entry
  | .add orderId clientId side quantity limitPrice =>
    some ⟨orderId, clientId, side, quantity, limitPrice⟩
  | .cancel _ _ _ _ => none

/-- The orders the calls add. -/
def addedOrders (ops : List Op) : List Entry := ops.filterMap Op.addedOrder

/-- The order a response tells of, with the quantity and the price that it
tells. -/
def ClientResponse.entry (response : ClientResponse) : Entry where
  orderId := response.orderId
  clientId := response.clientId
  side := response.side
  quantity := response.quantity
  limitPrice := response.price

/-- The orders that were accepted, as their owners were told. -/
def acceptedOf (responses : List ClientResponse) : List Entry :=
  (responses.filter fun r => r.type = .accepted).map ClientResponse.entry

section Total

variable {type : ResponseType} {rs rs' : List ClientResponse} {r : ClientResponse}
  {orders orders' : List Entry} {order : Entry} {orderId : OrderIdT}

@[simp] theorem total_nil : total type [] orderId = 0 := rfl

@[simp] theorem total_cons : total type (r :: rs) orderId =
    (if r.type = type ∧ r.orderId = orderId then r.quantity.toNat else 0) +
      total type rs orderId := List.sum_cons

@[simp] theorem total_append :
    total type (rs ++ rs') orderId = total type rs orderId + total type rs' orderId := by
  simp [total]

@[simp] theorem totalOf_nil : totalOf [] orderId = 0 := rfl

@[simp] theorem totalOf_cons : totalOf (order :: orders) orderId =
    (if order.orderId = orderId then order.quantity.toNat else 0) + totalOf orders orderId :=
  List.sum_cons

@[simp] theorem totalOf_append :
    totalOf (orders ++ orders') orderId = totalOf orders orderId + totalOf orders' orderId := by
  simp [totalOf]

/-- Timestamps do not count. -/
@[simp] theorem total_untimed :
    total type (rs.map ClientResponse.untimed) orderId = total type rs orderId := by
  rw [total, List.map_map]
  rfl

/-- A total is zero when every response it counts has quantity zero. -/
theorem total_eq_zero : total type rs orderId = 0 ↔
    ∀ r ∈ rs, r.type = type → r.orderId = orderId → r.quantity = 0 := by
  induction rs with
  | nil => simp
  | cons r rs ih =>
    have hq : r.quantity.toNat = 0 ↔ r.quantity = 0 := by
      rw [← UInt32.toNat_inj]
      rfl
    rw [total_cons, Nat.add_eq_zero_iff, ih, List.forall_mem_cons, ite_eq_right_iff, hq, and_imp]

/-- A response that is the only one of its type for its id makes the total. -/
theorem total_eq_of_nodup (hnd : (idsOf type rs).Nodup) (hr : r ∈ rs) (ht : r.type = type) :
    total type rs r.orderId = r.quantity.toNat := by
  obtain ⟨as, bs, rfl⟩ := List.append_of_mem hr
  have hmem : ∀ x ∈ as ++ bs, x.type = type → x.orderId ≠ r.orderId := by
    have hmove : (as ++ r :: bs).Perm (r :: (as ++ bs)) := List.perm_middle
    have hperm := hmove.filter fun r => r.type = type
    have hnd' := (hperm.map ClientResponse.orderId).nodup_iff.1 hnd
    rw [List.filter_cons_of_pos (by simpa using ht), List.map_cons, List.nodup_cons] at hnd'
    intro x hx hxt he
    exact hnd'.1 (List.mem_map.2 ⟨x, List.mem_filter.2 ⟨hx, by simpa using hxt⟩, he⟩)
  have hzero : ∀ xs, xs ⊆ as ++ bs → total type xs r.orderId = 0 := fun xs hxs =>
    total_eq_zero.2 fun x hx hxt he => absurd he (hmem x (hxs hx) hxt)
  rw [total_append, total_cons, hzero as (by simp), hzero bs (by simp), if_pos ⟨ht, rfl⟩]
  omega

@[simp] theorem idsOf_append : idsOf type (rs ++ rs') = idsOf type rs ++ idsOf type rs' := by
  simp [idsOf]

@[simp] theorem idsOf_untimed : idsOf type (rs.map ClientResponse.untimed) = idsOf type rs := by
  rw [idsOf, List.filter_map, List.map_map]
  rfl

@[simp] theorem acceptedOf_append : acceptedOf (rs ++ rs') = acceptedOf rs ++ acceptedOf rs' := by
  simp [acceptedOf]

@[simp] theorem acceptedOf_untimed :
    acceptedOf (rs.map ClientResponse.untimed) = acceptedOf rs := by
  rw [acceptedOf, List.filter_map, List.map_map]
  rfl

theorem mem_acceptedOf : order ∈ acceptedOf rs ↔
    ∃ r ∈ rs, r.type = .accepted ∧ r.entry = order := by
  simp [acceptedOf, and_assoc]

theorem idsOf_accepted : idsOf .accepted rs = (acceptedOf rs).map Entry.orderId := by
  rw [acceptedOf, List.map_map]
  rfl

/-- The ids added are those of the orders added. -/
theorem addedIds_eq {ops : List Op} : addedIds ops = (addedOrders ops).map Entry.orderId := by
  rw [addedOrders, List.map_filterMap]
  refine List.filterMap_congr fun op _ => ?_
  cases op <;> rfl

/-- Pairing up commutes with a map. -/
theorem pairUp_map {α β : Type} (f : α → β) (xs : List α) :
    pairUp (xs.map f) = (pairUp xs).map (Prod.map f f) := by
  induction xs using pairUp.induct with
  | case1 a b xs ih => simp [pairUp, ih]
  | case2 xs h =>
    match xs with
    | [] => rfl
    | [_] => rfl
    | a :: b :: xs => exact (h a b xs rfl).elim

@[simp] theorem fills_untimed : fills (rs.map ClientResponse.untimed) =
    (fills rs).map (Prod.map ClientResponse.untimed ClientResponse.untimed) := by
  rw [fills, fills, List.filter_map, pairUp_map]
  rfl

/-- The two halves of each pair, in a row, pair up again. -/
theorem pairUp_flatMap {α : Type} (ps : List (α × α)) :
    pairUp (ps.flatMap fun p => [p.1, p.2]) = ps := by
  induction ps with
  | nil => rfl
  | cons p ps ih => simp [pairUp, ih]

end Total

/-- The FILLED responses of an event. -/
def Event.fillPairs (tickerId : TickerIdT) : Event → List (ClientResponse × ClientResponse)
  | traded _ maker taker fillQuantity =>
    [({ type := .filled, tickerId, clientId := maker.clientId, orderId := maker.orderId,
        side := maker.side, quantity := fillQuantity, price := maker.limitPrice,
        nsTimestamp := 0 },
      { type := .filled, tickerId, clientId := taker.clientId, orderId := taker.orderId,
        side := taker.side, quantity := fillQuantity, price := maker.limitPrice,
        nsTimestamp := 0 })]
  | _ => []

/-- What a history announces as FILLED, in order: both responses of its first
trade, then both of its second, and so on. -/
theorem filter_filled (events : List Event) (tickerId : TickerIdT) :
    (events.flatMap (Event.responses tickerId)).filter (fun r => r.type = .filled) =
      (events.flatMap (Event.fillPairs tickerId)).flatMap fun p => [p.1, p.2] := by
  rw [List.filter_flatMap, List.flatMap_assoc]
  refine List.flatMap_congr fun event _ => ?_
  cases event <;> rfl

/-- The FILLED responses come in the pairs of the trades. -/
theorem fills_flatMap (events : List Event) (tickerId : TickerIdT) :
    fills (events.flatMap (Event.responses tickerId)) =
      events.flatMap (Event.fillPairs tickerId) := by
  rw [fills, filter_filled, pairUp_flatMap]

namespace Ledger

variable {L L' : Ledger} {taker taker' : Entry} {op : Op} {ops : List Op} {orderId : OrderIdT}
  {type : ResponseType}

/-! ### The rules -/

/-- A property of a ledger and of an incoming order that every trade keeps. -/
theorem Fills.keeps {Q : Ledger → Entry → Prop}
    (fill : ∀ {L taker L' taker'}, L.Fill taker L' taker' → Q L taker → Q L' taker')
    (h : L.Fills taker L' taker') (hq : Q L taker) : Q L' taker' := by
  induction h with
  | refl => exact hq
  | snoc _ step ih => exact fill step (ih hq)

/-- **The step rule.**  `P` holds before the call and `R` is to hold after it;
`Q` is what holds while the incoming order of an `add` trades. -/
theorem Step.keeps {P R : Ledger → Prop} {Q : Ledger → Entry → Prop} (h : L.Step op L')
    (accept : ∀ order, op = .add order.orderId order.clientId order.side order.quantity
      order.limitPrice → P L → Q (L.record (.accepted order)) order)
    (fill : ∀ {L taker L' taker'}, L.Fill taker L' taker' → Q L taker → Q L' taker')
    (done : ∀ L order, Q L order → order.quantity = 0 → R L)
    (rest : ∀ L order, Q L order → order.quantity ≠ 0 →
      R { L with resting := L.resting ++ [order], events := L.events ++ [.rested order] })
    (withdraw : ∀ older order newer clientId side,
      op = .cancel clientId order.orderId side order.limitPrice →
      L.resting = older ++ order :: newer → P L →
      R (L.withdraw older order newer clientId side))
    (reject : ∀ clientId orderId side limitPrice, op = .cancel clientId orderId side limitPrice →
      P L → R (L.record (.rejected clientId orderId)))
    (hp : P L) : R L' := by
  cases h with
  | @add L₁ order order' fills =>
    have hq := fills.keeps fill (accept order rfl hp)
    unfold Ledger.rest
    split_ifs with h0
    · exact done L₁ order' hq h0
    · exact rest L₁ order' hq h0
  | @cancelHit order older newer clientId side resting oldest =>
    exact withdraw older order newer clientId side rfl resting hp
  | @cancelMiss orderId limitPrice clientId side absent =>
    exact reject clientId orderId side limitPrice rfl hp

/-! ### Quantities -/

/-- The responses that announce the history, for a ticker. -/
def announced (L : Ledger) (tickerId : TickerIdT) : List ClientResponse :=
  L.events.flatMap (Event.responses tickerId)

variable {tickerId : TickerIdT}

/-- What was accepted under an id was filled, cancelled, or rests, up to what an
incoming order still has. -/
def Balanced (tickerId : TickerIdT) (L : Ledger) (taker : List Entry) : Prop :=
  ∀ orderId, total .accepted (L.announced tickerId) orderId =
    total .filled (L.announced tickerId) orderId + total .canceled (L.announced tickerId) orderId +
      totalOf L.resting orderId + totalOf taker orderId

theorem fillQuantity_eq {taker maker : Entry} : taker.fillQuantity maker =
    if taker.quantity ≤ maker.quantity then taker.quantity else maker.quantity := rfl

theorem fillQuantity_le_taker (taker maker : Entry) :
    taker.fillQuantity maker ≤ taker.quantity := min_quantity_le.1

theorem fillQuantity_le_maker (taker maker : Entry) :
    taker.fillQuantity maker ≤ maker.quantity := min_quantity_le.2

/-- Two orders that have a quantity trade some of it. -/
theorem fillQuantity_ne_zero {taker maker : Entry} (ht : taker.quantity ≠ 0)
    (hm : maker.quantity ≠ 0) : taker.fillQuantity maker ≠ 0 := by
  rw [fillQuantity_eq]
  split_ifs <;> assumption

/-- A fill takes as much from what is left of the maker as it fills. -/
theorem totalOf_left {order : Entry} {f : QuantityT} (orderId : OrderIdT) (h : f ≤ order.quantity) :
    totalOf (order.left f) orderId + (if order.orderId = orderId then f.toNat else 0) =
      if order.orderId = orderId then order.quantity.toNat else 0 := by
  have hle := UInt32.le_iff_toNat_le.1 h
  unfold Entry.left
  split_ifs with hf hid hid
  · rw [hf, totalOf_nil, zero_add]
  · rfl
  · simp only [totalOf_cons, if_pos hid, totalOf_nil, UInt32.toNat_sub_of_le _ _ h]
    omega
  · simp [hid]

/-- **A trade keeps the balance.** -/
theorem Fill.balanced (h : L.Fill taker L' taker') (hb : Balanced tickerId L [taker]) :
    Balanced tickerId L' [taker'] := by
  obtain ⟨hrest, -, -, -, -⟩ := h
  rename_i maker older newer
  intro orderId
  have hbal := hb orderId
  have hleft := totalOf_left orderId (fillQuantity_le_maker taker maker)
  have htake := UInt32.le_iff_toNat_le.1 (fillQuantity_le_taker taker maker)
  rw [hrest] at hbal
  simp only [trade, after, announced, List.flatMap_append, List.flatMap_singleton, Event.responses,
    total_append, total_cons, total_nil, totalOf_append, totalOf_cons, totalOf_nil,
    UInt32.toNat_sub_of_le _ _ (fillQuantity_le_taker taker maker), reduceCtorEq, false_and,
    true_and, if_false, add_zero] at hbal ⊢
  split_ifs at hbal hleft ⊢ <;> omega

/-- **A call keeps the balance.** -/
theorem Step.balanced (h : L.Step op L') (hb : Balanced tickerId L []) :
    Balanced tickerId L' [] := by
  refine h.keeps (P := fun L => Balanced tickerId L []) (R := fun L => Balanced tickerId L [])
    (Q := fun L taker => Balanced tickerId L [taker]) (fun order _ hb id => ?_)
    (fun fill => fill.balanced) (fun L order hb h0 id => ?_) (fun L order hb _ id => ?_)
    (fun older order newer clientId side _ resting hb id => ?_) (fun _ _ _ _ _ hb id => ?_) hb
  · have hbal := hb id
    simp only [record, announced, List.flatMap_append, List.flatMap_singleton, Event.responses,
      total_append, total_cons, total_nil, totalOf_cons, totalOf_nil, reduceCtorEq, false_and,
      true_and, if_false, add_zero] at hbal ⊢
    omega
  · simpa [h0] using hb id
  · simpa [announced, Event.responses, add_assoc] using hb id
  · have hbal := hb id
    rw [resting] at hbal
    simp only [withdraw, announced, List.flatMap_append, List.flatMap_singleton, Event.responses,
      total_append, total_cons, total_nil, totalOf_append, totalOf_cons, totalOf_nil,
      reduceCtorEq, false_and, true_and, if_false, add_zero] at hbal ⊢
    omega
  · simpa [record, announced, Event.responses] using hb id

/-- **The books balance** after every run of a ledger, since every step keeps the
balance. -/
theorem balanced_of_runs (tickerId : TickerIdT) (h : Runs Step {} ops L) :
    Balanced tickerId L [] := by
  induction h with
  | nil => exact fun _ => rfl
  | snoc _ step ih => exact step.balanced ih

/-- Nothing fills or cancels for nothing, and nothing rests without quantity. -/
structure Positive (tickerId : TickerIdT) (L : Ledger) : Prop where
  resting : ∀ order ∈ L.resting, order.quantity ≠ 0
  moved : ∀ r ∈ L.announced tickerId, r.type = .filled ∨ r.type = .canceled → r.quantity ≠ 0

/-- One more event is one more group of responses. -/
theorem forall_announced {L : Ledger} {event : Event} {p : ClientResponse → Prop}
    (hl : ∀ r ∈ L.announced tickerId, p r) (he : ∀ r ∈ event.responses tickerId, p r)
    (h : L'.events = L.events ++ [event]) : ∀ r ∈ L'.announced tickerId, p r := by
  intro r hr
  rw [announced, h, List.flatMap_append, List.flatMap_singleton] at hr
  exact (List.mem_append.1 hr).elim (hl r) (he r)

/-- A trade is of a positive quantity, and the part of the maker that it leaves
stays on the list only when it is positive too. -/
theorem Fill.positive (h : L.Fill taker L' taker') (hp : Positive tickerId L) :
    Positive tickerId L' := by
  obtain ⟨hrest, -, htl, hml, -⟩ := h
  rename_i maker older newer
  refine ⟨fun order ho => ?_, forall_announced hp.moved (fun r hr _ => ?_) rfl⟩
  · simp only [trade, List.append_assoc, List.mem_append] at ho
    rcases ho with ho | ho | ho
    · exact hp.resting order (by simp [hrest, ho])
    · unfold Entry.left at ho
      split_ifs at ho with hf
      · exact absurd ho List.not_mem_nil
      · rw [List.mem_singleton.1 ho]
        exact fun h0 => hf (quantity_sub_eq_zero.1 h0)
    · exact hp.resting order (by simp [hrest, ho])
  · simp only [Event.responses, List.mem_cons, List.not_mem_nil, or_false] at hr
    rcases hr with rfl | rfl <;> exact fillQuantity_ne_zero htl hml

/-- A step keeps quantities positive: an order joins the list only with a rest
that is not zero. -/
theorem Step.positive (h : L.Step op L') (hp : Positive tickerId L) : Positive tickerId L' := by
  refine h.keeps (P := Positive tickerId) (R := Positive tickerId)
    (Q := fun L _ => Positive tickerId L)
    (fun order _ hp => ⟨hp.resting, forall_announced hp.moved ?_ rfl⟩) (fun fill => fill.positive)
    (fun _ _ hp _ => hp) (fun L order hp h0 => ⟨fun x hx => ?_, forall_announced hp.moved ?_ rfl⟩)
    (fun older order newer _ _ _ resting hp =>
      ⟨fun x hx => hp.resting x ?_, forall_announced hp.moved (fun r hr _ => ?_) rfl⟩)
    (fun _ _ _ _ _ hp => ⟨hp.resting, forall_announced hp.moved ?_ rfl⟩) hp
  · simp [Event.responses]
  · rcases List.mem_append.1 hx with hx | hx
    · exact hp.resting x hx
    · rwa [List.mem_singleton.1 hx]
  · simp [Event.responses]
  · rw [resting]
    simp only [withdraw, List.mem_append, List.mem_cons] at hx ⊢
    tauto
  · rw [List.mem_singleton.1 hr]
    exact hp.resting order (by simp [resting])
  · simp [Event.responses]

/-- Quantities are positive after every run. -/
theorem positive_of_runs (tickerId : TickerIdT) (h : Runs Step {} ops L) : Positive tickerId L := by
  induction h with
  | nil => exact ⟨fun _ h => absurd h List.not_mem_nil, fun _ h => absurd h List.not_mem_nil⟩
  | snoc _ step ih => exact step.positive ih

/-! ### Identities -/

/-- Orders that rest and orders that were cancelled were added, each once. -/
def Counted (tickerId : TickerIdT) (ids : List OrderIdT) (L : Ledger) : Prop :=
  ∀ orderId, (idsOf .canceled (L.announced tickerId)).count orderId +
    (L.resting.map Entry.orderId).count orderId ≤ ids.count orderId

/-- What a trade leaves of its maker has the maker's id, or is nothing. -/
theorem ids_left_sublist {order : Entry} {f : QuantityT} :
    ((order.left f).map Entry.orderId).Sublist [order.orderId] := by
  unfold Entry.left
  split_ifs
  · exact List.nil_sublist _
  · exact List.Sublist.refl _

/-- A trade brings no id to the resting orders. -/
theorem Fill.ids_sublist (h : L.Fill taker L' taker') :
    (L'.resting.map Entry.orderId).Sublist (L.resting.map Entry.orderId) := by
  obtain ⟨hrest, -, -, -, -⟩ := h
  rename_i maker older newer
  rw [hrest, show older ++ maker :: newer = older ++ [maker] ++ newer by simp]
  simp only [trade, List.map_append]
  exact ((List.Sublist.refl _).append ids_left_sublist).append (List.Sublist.refl _)

/-- One more event appends its own ids. -/
theorem idsOf_announced {type : ResponseType} {event : Event}
    (h : L'.events = L.events ++ [event]) : idsOf type (L'.announced tickerId) =
      idsOf type (L.announced tickerId) ++ idsOf type (event.responses tickerId) := by
  rw [announced, h, List.flatMap_append, List.flatMap_singleton, idsOf_append]
  rfl

/-- A trade announces no response but FILLED ones. -/
theorem Fill.idsOf {type : ResponseType} (h : L.Fill taker L' taker') (ht : type ≠ .filled) :
    idsOf type (L'.announced tickerId) = idsOf type (L.announced tickerId) := by
  obtain ⟨-, -, -, -, -⟩ := h
  rw [idsOf_announced rfl]
  simp [CppExchange.idsOf, Event.responses, ht.symm]

/-- A trade keeps the count: the ids that rest grow fewer, and no cancel is
announced. -/
theorem Fill.counted {ids : List OrderIdT} (h : L.Fill taker L' taker')
    (hc : Counted tickerId ids L) : Counted tickerId ids L' := by
  intro orderId
  have hcount := hc orderId
  have hle := h.ids_sublist.count_le orderId
  rw [h.idsOf (by simp)]
  omega

/-- A trade changes nothing of the incoming order but its quantity. -/
theorem Fill.taker_eq (h : L.Fill taker L' taker') :
    taker' = { taker with quantity := taker'.quantity } := by
  obtain ⟨-, -, -, -, -⟩ := h
  rfl

theorem addedIds_concat : addedIds (ops ++ [op]) = addedIds ops ++ op.addedId.toList := by
  rw [addedIds, List.filterMap_append, addedIds]
  cases h : op.addedId <;> simp [h]

/-- **The ids that rest or were cancelled** are ids that calls added, each at
most as often. -/
theorem Step.counted (h : L.Step op L') (hc : Counted tickerId (addedIds ops) L) :
    Counted tickerId (addedIds (ops ++ [op])) L' := by
  refine h.keeps (P := Counted tickerId (addedIds ops))
    (R := Counted tickerId (addedIds (ops ++ [op])))
    (Q := fun L taker => op.addedId = some taker.orderId ∧ Counted tickerId (addedIds ops) L)
    (fun order hop hc => ⟨by rw [hop]; rfl, fun id => ?_⟩)
    (fun fill hq => ⟨by rw [fill.taker_eq]; exact hq.1, fill.counted hq.2⟩)
    (fun L order hq _ id => ?_) (fun L order hq _ id => ?_)
    (fun older order newer _ _ hop resting hc id => ?_) (fun _ _ _ _ hop hc id => ?_) hc
  · rw [idsOf_announced rfl]
    simpa [Event.responses, idsOf, record] using hc id
  · have hle := hq.2 id
    rw [addedIds_concat, List.count_append]
    omega
  · have hle := hq.2 id
    rw [addedIds_concat, hq.1, idsOf_announced rfl]
    simp only [Event.responses, idsOf, List.filter_nil, List.map_nil, List.append_nil,
      List.map_append, List.map_cons, List.count_append, Option.toList_some] at hle ⊢
    omega
  · have hle := hc id
    rw [addedIds_concat, hop, idsOf_announced rfl]
    rw [resting] at hle
    simp [withdraw, Event.responses, idsOf, Op.addedId, List.count_append, List.count_cons] at hle ⊢
    omega
  · rw [addedIds_concat, hop, idsOf_announced rfl]
    simpa [Event.responses, idsOf, record, Op.addedId] using hc id

/-- Over a run, an id rests or was cancelled no more often than it was added. -/
theorem counted_of_runs (tickerId : TickerIdT) (h : Runs Step {} ops L) :
    Counted tickerId (addedIds ops) L := by
  induction h with
  | nil => exact fun _ => le_rfl
  | snoc _ step ih => exact step.counted ih

/-- One more event appends the orders that it accepts. -/
theorem acceptedOf_announced {event : Event} (h : L'.events = L.events ++ [event]) :
    acceptedOf (L'.announced tickerId) =
      acceptedOf (L.announced tickerId) ++ acceptedOf (event.responses tickerId) := by
  rw [announced, h, List.flatMap_append, List.flatMap_singleton, acceptedOf_append]
  rfl

theorem addedOrders_concat :
    addedOrders (ops ++ [op]) = addedOrders ops ++ op.addedOrder.toList := by
  rw [addedOrders, List.filterMap_append, addedOrders]
  cases h : op.addedOrder <;> simp [h]

/-- **Every `add` is accepted** as it was called, once. -/
theorem Step.acceptedOf (h : L.Step op L') : acceptedOf (L'.announced tickerId) =
    acceptedOf (L.announced tickerId) ++ op.addedOrder.toList := by
  refine h.keeps (P := fun L₁ => L₁ = L)
    (R := fun L' => CppExchange.acceptedOf (L'.announced tickerId) =
      CppExchange.acceptedOf (L.announced tickerId) ++ op.addedOrder.toList)
    (Q := fun L' _ => CppExchange.acceptedOf (L'.announced tickerId) =
      CppExchange.acceptedOf (L.announced tickerId) ++ op.addedOrder.toList)
    (fun order hop hl => ?_) (fun fill hq => ?_) (fun _ _ hq _ => hq) (fun L order hq _ => ?_)
    (fun older order newer _ _ hop _ hl => ?_) (fun _ _ _ _ hop hl => ?_) rfl
  · rw [acceptedOf_announced rfl, hop, hl]
    rfl
  · obtain ⟨-, -, -, -, -⟩ := fill
    rw [acceptedOf_announced rfl, hq]
    simp [Event.responses, CppExchange.acceptedOf]
  · rw [acceptedOf_announced rfl, hq]
    simp [Event.responses, CppExchange.acceptedOf]
  · rw [acceptedOf_announced rfl, hop, hl]
    simp [Event.responses, CppExchange.acceptedOf, Op.addedOrder]
  · rw [acceptedOf_announced rfl, hop, hl]
    simp [Event.responses, CppExchange.acceptedOf, Op.addedOrder]

/-- The orders accepted are those that the calls add, in their order. -/
theorem acceptedOf_of_runs (h : Runs Step {} ops L) :
    acceptedOf (L.announced tickerId) = addedOrders ops := by
  induction h with
  | nil => rfl
  | snoc _ step ih => rw [step.acceptedOf, ih, addedOrders_concat]

/-- Every `add` is accepted under its id, once. -/
theorem Step.accepted (h : L.Step op L') : idsOf .accepted (L'.announced tickerId) =
    idsOf .accepted (L.announced tickerId) ++ op.addedId.toList := by
  rw [idsOf_accepted, h.acceptedOf, List.map_append, ← idsOf_accepted]
  cases op <;> rfl

theorem accepted_of_runs (h : Runs Step {} ops L) :
    idsOf .accepted (L.announced tickerId) = addedIds ops := by
  rw [idsOf_accepted, acceptedOf_of_runs h, addedIds_eq]

/-! ### Limits -/

/-- The order was accepted with its owner, side and limit. -/
def Known (tickerId : TickerIdT) (L : Ledger) (order : Entry) : Prop :=
  ∃ r ∈ L.announced tickerId, r.type = .accepted ∧ r.orderId = order.orderId ∧
    r.clientId = order.clientId ∧ r.side = order.side ∧ r.price = order.limitPrice

/-- There is one acceptance for an id. -/
theorem Known.eq {order : Entry} {a : ClientResponse} (h : Known tickerId L order)
    (hnd : (idsOf .accepted (L.announced tickerId)).Nodup) (ha : a ∈ L.announced tickerId)
    (ht : a.type = .accepted) (hid : a.orderId = order.orderId) :
    a.clientId = order.clientId ∧ a.side = order.side ∧ a.price = order.limitPrice := by
  obtain ⟨r, hr, hrt, hrid, hrest⟩ := h
  have heq : a = r := List.inj_on_of_nodup_map hnd (List.mem_filter.2 ⟨ha, by simpa using ht⟩)
    (List.mem_filter.2 ⟨hr, by simpa using hrt⟩) (hid.trans hrid.symm)
  rwa [heq]

/-- The orders at rest and the orders that traded are known, and each trade is
within the limit of the incoming order. -/
structure Limited (tickerId : TickerIdT) (L : Ledger) : Prop where
  resting : ∀ order ∈ L.resting, Known tickerId L order
  traded : ∀ tradeId maker taker f, Event.traded tradeId maker taker f ∈ L.events →
    Known tickerId L maker ∧ Known tickerId L taker ∧
      World.crosses taker.side taker.limitPrice maker.limitPrice = true

/-- What was announced stays announced, so an order once known stays known. -/
theorem Known.mono {event : Event} {order : Entry} (h : Known tickerId L order)
    (he : L'.events = L.events ++ [event]) : Known tickerId L' order := by
  obtain ⟨r, hr, hrest⟩ := h
  refine ⟨r, ?_, hrest⟩
  rw [announced, he, List.flatMap_append]
  exact List.mem_append_left _ hr

/-- One more event that is not a trade leaves the trades as they were. -/
theorem Limited.record {event : Event} (hl : Limited tickerId L)
    (he : L'.events = L.events ++ [event])
    (hne : ∀ tradeId maker taker f, event ≠ .traded tradeId maker taker f)
    (hr : ∀ order ∈ L'.resting, Known tickerId L order) : Limited tickerId L' := by
  refine ⟨fun order ho => (hr order ho).mono he, fun tradeId maker taker f hev => ?_⟩
  rw [he] at hev
  rcases List.mem_append.1 hev with hev | hev
  · obtain ⟨h₁, h₂, h₃⟩ := hl.traded tradeId maker taker f hev
    exact ⟨h₁.mono he, h₂.mono he, h₃⟩
  · exact absurd (List.mem_singleton.1 hev).symm (hne _ _ _ _)

/-- A step rewrites nothing in the history. -/
theorem Step.events_prefix (h : L.Step op L') : L.events <+: L'.events := by
  refine h.keeps (P := fun L₁ => L₁ = L) (R := fun L' => L.events <+: L'.events)
    (Q := fun L' _ => L.events <+: L'.events) (fun order _ hl => ?_) (fun fill hq => ?_)
    (fun _ _ hq _ => hq) (fun L order hq _ => hq.trans (List.prefix_append _ _))
    (fun _ _ _ _ _ _ _ _ => List.prefix_append _ _) (fun _ _ _ _ _ _ => List.prefix_append _ _)
    rfl
  · exact List.prefix_append _ _
  · obtain ⟨-, -, -, -, -⟩ := fill
    exact hq.trans (List.prefix_append _ _)

/-- A run rewrites nothing in the history. -/
theorem events_prefix_of_runs (h : Runs Step L ops L') : L.events <+: L'.events := by
  induction h with
  | nil => exact List.prefix_refl _
  | snoc _ step ih => exact ih.trans step.events_prefix

end Ledger

end CppExchange
