import CppExchange.Priority

/-!
# What a cancel does

On a book whose chains and rings are well linked (`WellFormed`) a cancel
returns.  When the level at the price holds an order of that id, exactly this
order leaves its queue, and its level goes when it is left empty, wherever it
stands on its chain; otherwise nothing changes (`cancelled_of_wellFormed`).
The pools may hold anything else: a block that is on no chain is not looked at.

In every book a run has reached the cancel of an order at rest answers with its
quantity and price, to whoever asked and on the side it was asked for, and
everyone else's order stays (`answered_of_run`).
-/

namespace CppExchange

open Library

namespace OrderBook

variable {m l : ℕ} {book book₁ book' : OrderBook m l} {ring : Fin l → List (Fin m)}
  {chain : OrderSide → List (Fin l)} {bids asks bids' asks' : List (Fin l)} {b c : Fin l}
  {o x : Fin m} {xs ys : List (Fin m)} {price p : PriceT} {orderId : OrderIdT} {side s : OrderSide}

/-! ### Well-formed books -/

/-- The chains represent the book, and their levels are in use and hold their
orders in rings. -/
structure WellLinked (book : OrderBook m l) (bids asks : List (Fin l)) : Prop
    extends Represented book bids asks where
  ring : ∀ b ∈ bids ++ asks, RingAt book.orderPool.heap (book.ordersOn b) ∧
    (book.level b).topOrder = (book.ordersOn b).head?
  inUse : ∀ b ∈ bids ++ asks, book.priceLevelPool.InUse b

/-- `WellLinked`, and the ids of the orders at rest are distinct. -/
structure WellFormed (book : OrderBook m l) (bids asks : List (Fin l)) : Prop
    extends WellLinked book bids asks where
  distinct : ∀ b ∈ bids ++ asks, ∀ o ∈ book.ordersOn b, ∀ c ∈ bids ++ asks, ∀ x ∈ book.ordersOn c,
    (book.order o).orderId = (book.order x).orderId → o = x

/-- The chain of a side. -/
def chainOf (bids asks : List (Fin l)) : OrderSide → List (Fin l)
  | .buy => bids
  | .sell => asks
  | .invalid => []

/-- **A well-formed book is strung** along its lists: each side's chain is what
the book's pointers go round. -/
theorem Represented.strung (h : Represented book bids asks) : Strung book (chainOf bids asks) where
  linked s hs := by
    cases s with
    | invalid => exact absurd rfl hs
    | buy => exact h.bidsLinked
    | sell => exact h.asksLinked
  sorted s hs := by
    cases s with
    | invalid => exact absurd rfl hs
    | buy => exact h.decreasing.imp fun hab => by simpa [ahead] using hab
    | sell => exact h.increasing.imp fun hab => by simpa [ahead] using hab
  side s hs b hb := by
    cases s with
    | invalid => exact absurd rfl hs
    | buy => exact h.buys b hb
    | sell => exact h.sells b hb

/-- A level on a chain is on the chain of its side. -/
theorem Represented.mem_chainOf (h : Represented book bids asks) (hb : b ∈ bids ++ asks) :
    (book.level b).side ≠ .invalid ∧ b ∈ chainOf bids asks (book.level b).side := by
  rcases List.mem_append.1 hb with hb | hb
  · rw [h.buys b hb]
    exact ⟨by simp, hb⟩
  · rw [h.sells b hb]
    exact ⟨by simp, hb⟩

theorem Represented.mem_of_levelAt (h : Represented book bids asks) (hb : book.levelAt p = some b) :
    b ∈ bids ++ asks := ((h.recorded p b).1 hb).1

theorem Represented.priceOf_eq (h : Represented book bids asks) (hb : book.levelAt p = some b) :
    book.priceOf b = p := ((h.recorded p b).1 hb).2

theorem Represented.levelAt_priceOf (h : Represented book bids asks) (hb : b ∈ bids ++ asks) :
    book.levelAt (book.priceOf b) = some b := (h.recorded _ b).2 ⟨hb, rfl⟩

/-- No order is on two levels. -/
theorem Represented.eq_of_mem (h : Represented book bids asks) (hb : b ∈ bids ++ asks)
    (hc : c ∈ bids ++ asks) (ho : o ∈ book.ordersOn b) (ho' : o ∈ book.ordersOn c) : b = c := by
  have hp : book.priceOf b = book.priceOf c :=
    (h.orders b hb o ho).1.symm.trans (h.orders c hc o ho').1
  have hat := h.levelAt_priceOf hb
  rw [hp, h.levelAt_priceOf hc, Option.some.injEq] at hat
  exact hat.symm

/-- No level is listed twice, so erasing one takes all of it. -/
theorem Represented.mem_erase (h : Represented book bids asks) :
    c ∈ bids.erase b ++ asks.erase b ↔ c ≠ b ∧ c ∈ bids ++ asks := by
  obtain ⟨hb, ha, -⟩ := List.nodup_append.1 h.once
  rw [List.mem_append, hb.mem_erase_iff, ha.mem_erase_iff, List.mem_append]
  tauto

/-- Being strung is a matter of the best levels, the links, the prices and the
sides alone. -/
theorem Strung.congr (h : Strung book chain) (hbest : ∀ s, book'.bestOf s = book.bestOf s)
    (hnext : ∀ b, book'.nextLevel b = book.nextLevel b)
    (hprice : ∀ b, book'.priceOf b = book.priceOf b)
    (hside : ∀ b, (book'.level b).side = (book.level b).side) : Strung book' chain where
  linked s hs := by
    rw [hbest]
    exact (h.linked s hs).congr fun b _ => hnext b
  sorted s hs := by
    simp only [hprice]
    exact h.sorted s hs
  side s hs b hb := by
    rw [hside]
    exact h.side s hs b hb

/-- **Fewer levels with fewer orders,** linked and recorded, are well linked. -/
theorem WellLinked.of_fewer (h : WellLinked book bids asks) (hb : bids'.Sublist bids)
    (ha : asks'.Sublist asks) (hbl : IsLinkedList book'.nextLevel book'.bestBids bids')
    (hal : IsLinkedList book'.nextLevel book'.bestAsks asks')
    (hprice : ∀ c, book'.priceOf c = book.priceOf c)
    (hside : ∀ c, (book'.level c).side = (book.level c).side)
    (hat : ∀ p c, book'.levelAt p = some c ↔ book.levelAt p = some c ∧ c ∈ bids' ++ asks')
    (huse : ∀ c ∈ bids' ++ asks', book'.priceLevelPool.InUse c)
    (hring : ∀ c ∈ bids' ++ asks', RingAt book'.orderPool.heap (book'.ordersOn c) ∧
      (book'.level c).topOrder = (book'.ordersOn c).head?)
    (hne : ∀ c ∈ bids' ++ asks', book'.ordersOn c ≠ [])
    (hsub : ∀ c ∈ bids' ++ asks', book'.ordersOn c ⊆ book.ordersOn c)
    (hbody : ∀ x, (book'.order x).body = (book.order x).body) : WellLinked book' bids' asks' := by
  have hmem : bids' ++ asks' ⊆ bids ++ asks := (hb.append ha).subset
  refine ⟨⟨hbl, hal, ?_, ?_, fun c hc => ?_, fun c hc => ?_, fun p c => ?_,
    h.once.sublist (hb.append ha), hne, fun c hc o ho => ?_⟩, hring, huse⟩
  · simp only [hprice]
    exact h.decreasing.sublist hb
  · simp only [hprice]
    exact h.increasing.sublist ha
  · rw [hside]
    exact h.buys c (hb.subset hc)
  · rw [hside]
    exact h.sells c (ha.subset hc)
  · rw [hat, h.recorded, hprice]
    exact ⟨fun ⟨hc, hc'⟩ => ⟨hc', hc.2⟩, fun ⟨hc', hp⟩ => ⟨⟨hmem hc', hp⟩, hc'⟩⟩
  · rw [hprice, hside, eq_of_body Order.limitPrice (fun _ => rfl) (hbody o),
      eq_of_body Order.side (fun _ => rfl) (hbody o)]
    exact h.orders c (hmem hc) o (hsub c hc ho)

/-! ### A level with one order less -/

/-- The level `b` has the orders `xs` left, and nothing else was written. -/
structure Shortened (book : OrderBook m l) (bids asks : List (Fin l)) (b : Fin l)
    (xs : List (Fin m)) (book₁ : OrderBook m l) : Prop where
  edit : ∃ heap', book₁ =
    (book.setLevel b { book.level b with topOrder := xs.head? }).setOrders heap'
  ring : RingAt book₁.orderPool.heap xs
  body : ∀ x, (book₁.order x).body = (book.order x).body
  frame : ∀ c ∈ bids ++ asks, c ≠ b → ∀ x ∈ book.ordersOn c, book₁.order x = book.order x

/-- **The first order of the id goes.** The search passes the orders before it,
and the level is left with one order less. -/
theorem WellLinked.cancelAt_hit (h : WellLinked book bids asks) (hb : b ∈ bids ++ asks)
    (hsplit : book.ordersOn b = xs ++ o :: ys) (hxs : ∀ x ∈ xs, (book.order x).orderId ≠ orderId)
    (ho : (book.order o).orderId = orderId) :
    ∃ book₁, book.cancelAt b orderId = .ok (book₁, some o) ∧
      Shortened book bids asks b (xs ++ ys) book₁ := by
  obtain ⟨hr, ht⟩ := h.ring b hb
  rw [hsplit] at hr ht
  obtain ⟨heap', hc, hring, hbody, hframe, -⟩ := OrdersPriceLevel.cancel_hit hr ht hxs ho
  refine ⟨_, by simp [cancelAt, hc], ⟨heap', rfl⟩, hring, hbody, fun c hcm hcb x hx => ?_⟩
  exact hframe x fun hx' => hcb (h.eq_of_mem hcm hb hx (hsplit ▸ hx'))

/-- When no order of the level has the id, the search comes back to the top and
the book is as it was. -/
theorem WellLinked.cancelAt_miss (h : WellLinked book bids asks) (hb : b ∈ bids ++ asks)
    (hmiss : ∀ x ∈ book.ordersOn b, (book.order x).orderId ≠ orderId) :
    book.cancelAt b orderId = .ok (book, none) := by
  have hset : (book.setLevel b (book.level b)).setOrders book.orderPool.heap = book := by
    simp only [setLevel, setOrders, level, ObjectPool.set_get, ObjectPool.setHeap_heap]
  obtain ⟨hr, ht⟩ := h.ring b hb
  rw [cancelAt, OrdersPriceLevel.cancel_miss hr ht (h.nonempty b hb) hmiss]
  simp only [ok_bind, pure_eq_ok, hset]

section Shortened

variable (hs : Shortened book bids asks b xs book₁)
include hs

/-- A shortened level has a new top order at most. -/
theorem Shortened.level : ∃ top, book₁.level c = { book.level c with topOrder := top } := by
  obtain ⟨heap', rfl⟩ := hs.edit
  rw [level_setOrders, level_setLevel]
  split_ifs with hc
  · exact ⟨_, by rw [hc]⟩
  · exact ⟨_, rfl⟩

theorem Shortened.priceOf : book₁.priceOf c = book.priceOf c := by
  obtain ⟨top, ht⟩ := hs.level (c := c)
  rw [OrderBook.priceOf, ht, OrderBook.priceOf]

theorem Shortened.nextLevel : book₁.nextLevel c = book.nextLevel c := by
  obtain ⟨top, ht⟩ := hs.level (c := c)
  rw [OrderBook.nextLevel, ht, OrderBook.nextLevel]

theorem Shortened.side_eq : (book₁.level c).side = (book.level c).side := by
  obtain ⟨top, ht⟩ := hs.level (c := c)
  rw [ht]

theorem Shortened.bestOf : book₁.bestOf s = book.bestOf s := by
  obtain ⟨heap', rfl⟩ := hs.edit
  rfl

theorem Shortened.levelAt : book₁.levelAt p = book.levelAt p := by
  obtain ⟨heap', rfl⟩ := hs.edit
  rfl

theorem Shortened.inUse_iff : book₁.priceLevelPool.InUse c ↔ book.priceLevelPool.InUse c := by
  obtain ⟨heap', rfl⟩ := hs.edit
  rfl

theorem Shortened.topOrder_self : (book₁.level b).topOrder = xs.head? := by
  obtain ⟨heap', rfl⟩ := hs.edit
  simp

theorem Shortened.strung (h : Strung book chain) : Strung book₁ chain :=
  h.congr (fun _ => hs.bestOf) (fun _ => hs.nextLevel) (fun _ => hs.priceOf) fun _ => hs.side_eq

/-- The orders on a level, and the ring they form. -/
theorem Shortened.ring_of (h : WellLinked book bids asks) (hc : c ∈ bids ++ asks) :
    (RingAt book₁.orderPool.heap (book₁.ordersOn c) ∧
      (book₁.level c).topOrder = (book₁.ordersOn c).head?) ∧
      book₁.ordersOn c = if c = b then xs else book.ordersOn c := by
  have key : ∀ ys, RingAt book₁.orderPool.heap ys → (book₁.level c).topOrder = ys.head? →
      (RingAt book₁.orderPool.heap (book₁.ordersOn c) ∧
        (book₁.level c).topOrder = (book₁.ordersOn c).head?) ∧ book₁.ordersOn c = ys := by
    intro ys hr ht
    have hys : book₁.ordersOn c = ys := OrdersPriceLevel.orders_eq hr ht
    rw [hys]
    exact ⟨⟨hr, ht⟩, rfl⟩
  rcases eq_or_ne c b with rfl | hcb
  · rw [if_pos rfl]
    exact key xs hs.ring hs.topOrder_self
  · rw [if_neg hcb]
    obtain ⟨hr, ht⟩ := h.ring c hc
    refine key _ (hr.congr (fun x hx => ?_) (fun x hx => ?_)) ?_
    · exact congrArg Order.next (hs.frame c hc hcb x hx)
    · exact congrArg Order.previous (hs.frame c hc hcb x hx)
    · obtain ⟨heap', rfl⟩ := hs.edit
      rw [level_setOrders, level_setLevel, if_neg hcb, ht]

end Shortened

theorem Removed.ordersOn (hr : Removed book b book') : book'.ordersOn c = book.ordersOn c := by
  rw [OrderBook.ordersOn, OrdersPriceLevel.orders, hr.topOrder, hr.orderPool]
  rfl

/-- A level that keeps some of its orders stays on its chain. -/
theorem WellLinked.keep (h : WellLinked book bids asks) (hs : Shortened book bids asks b xs book₁)
    (hne : xs ≠ []) (hsub : xs ⊆ book.ordersOn b) : WellLinked book₁ bids asks := by
  have hlinked := (hs.strung h.strung).linked
  refine h.of_fewer (.refl _) (.refl _) (hlinked .buy (by simp)) (hlinked .sell (by simp))
    (fun _ => hs.priceOf) (fun _ => hs.side_eq) (fun p c => ?_) (fun c hc => ?_)
    (fun c hc => (hs.ring_of h hc).1) (fun c hc => ?_) (fun c hc => ?_) hs.body
  · rw [hs.levelAt]
    exact ⟨fun hc => ⟨hc, h.mem_of_levelAt hc⟩, And.left⟩
  · exact hs.inUse_iff.2 (h.inUse c hc)
  · rw [(hs.ring_of h hc).2]
    split_ifs with hcb
    · exact hne
    · exact h.nonempty c hc
  · rw [(hs.ring_of h hc).2]
    split_ifs with hcb
    · rwa [hcb]
    · exact List.Subset.refl _

/-- **A level left empty is taken out,** wherever it stands on its chain. -/
theorem WellLinked.drop (h : WellLinked book bids asks) (hb : b ∈ bids ++ asks)
    (hs : Shortened book bids asks b [] book₁) :
    ∃ book', book₁.removePriceLevel b = .ok book' ∧ Removed book₁ b book' ∧
      WellLinked book' (bids.erase b) (asks.erase b) := by
  have hmem := h.mem_chainOf hb
  rw [← hs.side_eq] at hmem
  obtain ⟨book₂, hu, hlinked, -⟩ := (hs.strung h.strung).unlink hmem.1 hmem.2
  have hbu : book₁.priceLevelPool.InUse b := hs.inUse_iff.2 (h.inUse b hb)
  have hr := removed_dropLevel (unlinkPriceLevel_ok hu) hbu
  have hnext : (book₂.dropLevel b).nextLevel = book₂.nextLevel :=
    funext fun _ => nextLevel_dropLevel
  refine ⟨_, removePriceLevel_eq hu hbu, hr, h.of_fewer List.erase_sublist List.erase_sublist
    ?_ ?_ (fun c => ?_) (fun c => ?_) (fun p c => ?_) (fun c hc => ?_) (fun c hc => ?_)
    (fun c hc => ?_) (fun c hc => ?_) (fun x => ?_)⟩
  · rw [hnext]
    exact hlinked .buy (by simp)
  · rw [hnext]
    exact hlinked .sell (by simp)
  · rw [priceOf, hr.priceLevel]
    exact hs.priceOf
  · rw [hr.side_eq, hs.side_eq]
  · have hp : (book₁.level b).priceLevel = book.priceOf b := hs.priceOf
    rw [hr.levelAt, hp, hs.levelAt, h.mem_erase]
    split_ifs with hpb
    · refine ⟨fun hc => (by cases hc), fun hcs => absurd ?_ hcs.2.1⟩
      have hc := hcs.1
      rw [hpb, h.levelAt_priceOf hb, Option.some.injEq] at hc
      exact hc.symm
    · refine ⟨fun hc => ⟨hc, fun he => hpb ?_, h.mem_of_levelAt hc⟩, And.left⟩
      rw [← h.priceOf_eq hc, he]
  · obtain ⟨hcb, hc⟩ := h.mem_erase.1 hc
    exact (hr.inUse c).2 ⟨hs.inUse_iff.2 (h.inUse c hc), hcb⟩
  · obtain ⟨-, hc⟩ := h.mem_erase.1 hc
    rw [hr.ordersOn, hr.topOrder, hr.orderPool]
    exact (hs.ring_of h hc).1
  · obtain ⟨hcb, hc⟩ := h.mem_erase.1 hc
    rw [hr.ordersOn, (hs.ring_of h hc).2, if_neg hcb]
    exact h.nonempty c hc
  · obtain ⟨hcb, hc⟩ := h.mem_erase.1 hc
    rw [hr.ordersOn, (hs.ring_of h hc).2, if_neg hcb]
    exact List.Subset.refl _
  · rw [hr.order]
    exact hs.body x

/-! ### A cancel -/

/-- The order `o` left the queue at a price, and the level `b` that held it went
when it was left empty. -/
structure TakenOut (book : OrderBook m l) (bids asks : List (Fin l)) (price : PriceT) (b : Fin l)
    (o : Fin m) (book' : OrderBook m l) : Prop where
  body : ∀ x, (book'.order x).body = (book.order x).body
  orders : ∀ p, book'.ordersAt p =
    if p = price then (book.ordersAt p).erase o else book.ordersAt p
  levelAt : ∀ p, book'.levelAt p =
    if p = price ∧ (book.ordersAt price).erase o = [] then none else book.levelAt p
  inUse : ∀ c, book'.priceLevelPool.InUse c ↔
    book.priceLevelPool.InUse c ∧ ¬(c = b ∧ (book.ordersAt price).erase o = [])
  wellFormed : if (book.ordersAt price).erase o = []
    then WellFormed book' (bids.erase b) (asks.erase b)
    else WellFormed book' bids asks

/-- Nothing a reader of the book finds is different. -/
structure Untouched (book book' : OrderBook m l) : Prop where
  orderPool : book'.orderPool = book.orderPool
  priceLevelPool : book'.priceLevelPool = book.priceLevelPool
  bestBids : book'.bestBids = book.bestBids
  bestAsks : book'.bestAsks = book.bestAsks
  levelAt : ∀ p, book'.levelAt p = book.levelAt p
  orders : ∀ p, book'.ordersAt p = book.ordersAt p

/-- Looking a price up in the map creates an entry there, and no order sees it. -/
theorem untouched_touch : Untouched book (book.touch price) where
  orderPool := rfl
  priceLevelPool := rfl
  bestBids := rfl
  bestAsks := rfl
  levelAt _ := levelAt_touch
  orders p := by
    rw [ordersAt, levelAt_touch]
    rfl

theorem ordersAt_of_some (hb : book.levelAt p = some b) : book.ordersAt p = book.ordersOn b := by
  rw [ordersAt, hb]

theorem ordersAt_of_none (hp : book.levelAt p = none) : book.ordersAt p = [] := by
  rw [ordersAt, hp]

/-- What holds of the orders of the level at a price, if there is one, holds of
the orders at the price. -/
theorem forall_ordersAt {ring : Fin l → List (Fin m)} {P : Fin m → Prop} (hs : Shape book ring)
    (h : ∀ b, book.levelAt p = some b → ∀ x ∈ ring b, P x) : ∀ o ∈ book.ordersAt p, P o := by
  intro o ho
  cases hat : book.levelAt p with
  | none =>
    rw [ordersAt_of_none hat] at ho
    exact absurd ho List.not_mem_nil
  | some b =>
    rw [ordersAt_of_levelAt hs hat] at ho
    exact h b hat o ho

/-- The ids stay distinct where orders only leave. -/
theorem WellFormed.of_wellLinked (h : WellFormed book bids asks) (h' : WellLinked book' bids' asks')
    (hsub : ∀ c ∈ bids' ++ asks', c ∈ bids ++ asks ∧ book'.ordersOn c ⊆ book.ordersOn c)
    (hbody : ∀ x, (book'.order x).body = (book.order x).body) : WellFormed book' bids' asks' where
  toWellLinked := h'
  distinct b hb o ho c hc x hx he := by
    rw [eq_of_body Order.orderId (fun _ => rfl) (hbody o),
      eq_of_body Order.orderId (fun _ => rfl) (hbody x)] at he
    exact h.distinct b (hsub b hb).1 o ((hsub b hb).2 ho) c (hsub c hc).1 x ((hsub c hc).2 hx) he

/-- Taking a level out empties its price and no other. -/
theorem Removed.ordersAt (hr : Removed book b book') :
    book'.ordersAt p = if p = book.priceOf b then [] else book.ordersAt p := by
  have hat : book'.levelAt p = if p = book.priceOf b then none else book.levelAt p := hr.levelAt
  split_ifs with hp
  · rw [if_pos hp] at hat
    exact ordersAt_of_none hat
  · rw [if_neg hp] at hat
    cases hc : book.levelAt p with
    | none => rw [ordersAt_of_none (hat.trans hc), ordersAt_of_none hc]
    | some c => rw [ordersAt_of_some (hat.trans hc), ordersAt_of_some hc, hr.ordersOn]

/-- A shortened level has the shorter list at its price, and the other prices
keep theirs. -/
theorem Shortened.ordersAt (hs : Shortened book bids asks b xs book₁)
    (h : WellLinked book bids asks) (hb : b ∈ bids ++ asks) :
    book₁.ordersAt p = if p = book.priceOf b then xs else book.ordersAt p := by
  have hat : book₁.levelAt p = book.levelAt p := hs.levelAt
  cases hc : book.levelAt p with
  | none =>
    rw [hc] at hat
    have hp : p ≠ book.priceOf b := fun he => by
      rw [he, h.levelAt_priceOf hb] at hc
      cases hc
    rw [ordersAt_of_none hat, ordersAt_of_none hc, if_neg hp]
  | some c =>
    rw [hc] at hat
    have hcb : c = b ↔ p = book.priceOf b := by
      rw [← h.priceOf_eq hc]
      refine ⟨fun he => by rw [he], fun he => ?_⟩
      have hcp := h.levelAt_priceOf (h.mem_of_levelAt hc)
      rw [he, h.levelAt_priceOf hb, Option.some.injEq] at hcp
      exact hcp.symm
    rw [ordersAt_of_some hat, ordersAt_of_some hc, (hs.ring_of h (h.mem_of_levelAt hc)).2]
    simp only [hcb]

/-- **A queue that keeps some of its orders.** -/
theorem WellFormed.takenOut_keep (h : WellFormed book bids asks) (hat : book.levelAt price = some b)
    (hs : Shortened book bids asks b ((book.ordersAt price).erase o) book₁)
    (hne : (book.ordersAt price).erase o ≠ []) : TakenOut book bids asks price b o book₁ := by
  have hb := h.mem_of_levelAt hat
  have hsub : (book.ordersAt price).erase o ⊆ book.ordersOn b := by
    rw [ordersAt_of_some hat]
    exact List.erase_subset
  refine ⟨hs.body, fun p => ?_, fun p => ?_, fun c => ?_, ?_⟩
  · rw [hs.ordersAt h.toWellLinked hb, h.priceOf_eq hat]
    split_ifs with hp
    · rw [hp]
    · rfl
  · rw [hs.levelAt, if_neg fun h0 => hne h0.2]
  · rw [hs.inUse_iff]
    exact ⟨fun hc => ⟨hc, fun h0 => hne h0.2⟩, And.left⟩
  · rw [if_neg hne]
    refine h.of_wellLinked (h.toWellLinked.keep hs hne hsub) (fun c hc => ⟨hc, ?_⟩) hs.body
    rw [(hs.ring_of h.toWellLinked hc).2]
    split_ifs with hcb
    · rwa [hcb]
    · exact List.Subset.refl _

/-- **A queue left empty.** -/
theorem WellFormed.takenOut_drop (h : WellFormed book bids asks) (hat : book.levelAt price = some b)
    (hs : Shortened book bids asks b [] book₁) (hnil : (book.ordersAt price).erase o = []) :
    ∃ book', book₁.removePriceLevel b = .ok book' ∧ TakenOut book bids asks price b o book' := by
  have hb := h.mem_of_levelAt hat
  obtain ⟨book', hrem, hr, hw⟩ := h.drop hb hs
  have hp : book₁.priceOf b = price := hs.priceOf.trans (h.priceOf_eq hat)
  have hbody : ∀ x, (book'.order x).body = (book.order x).body := fun x => by
    rw [hr.order]
    exact hs.body x
  refine ⟨book', hrem, hbody, fun p => ?_, fun p => ?_, fun c => ?_, ?_⟩
  · rw [hr.ordersAt, hs.ordersAt h.toWellLinked hb, hp, h.priceOf_eq hat]
    split_ifs with hpp
    · rw [hpp, hnil]
    · rfl
  · rw [hr.levelAt, show (book₁.level b).priceLevel = price from hp, hs.levelAt]
    simp [hnil]
  · rw [hr.inUse, hs.inUse_iff]
    simp [hnil]
  · rw [if_pos hnil]
    refine h.of_wellLinked hw (fun c hc => ?_) hbody
    obtain ⟨hcb, hc⟩ := h.mem_erase.1 hc
    rw [hr.ordersOn, (hs.ring_of h.toWellLinked hc).2, if_neg hcb]
    exact ⟨hc, List.Subset.refl _⟩

/-- **An order of that id is at the price.** -/
theorem WellFormed.takeOut_hit (h : WellFormed book bids asks) (side : OrderSide)
    (hat : book.levelAt price = some b) (hsplit : book.ordersOn b = xs ++ o :: ys)
    (hxs : ∀ x ∈ xs, (book.order x).orderId ≠ orderId) (ho : (book.order o).orderId = orderId) :
    ∃ book', book.takeOut orderId side price = .ok (book', some o) ∧
      TakenOut book bids asks price b o book' := by
  obtain ⟨book₁, hcancel, hs⟩ := h.cancelAt_hit (h.mem_of_levelAt hat) hsplit hxs ho
  have htake : book.takeOut orderId side price =
      (book₁.removeIfEmpty b >>= fun book' => .ok (book', some o)) := by
    rw [takeOut, getPriceLevel_eq, ok_bind]
    simp only [hat, touch_eq_self hat, hcancel, ok_bind, pure_eq_ok]
  have herase : (book.ordersAt price).erase o = xs ++ ys := by
    have hnot : o ∉ xs := fun hmem => hxs o hmem ho
    rw [ordersAt_of_some hat, hsplit, List.erase_append_right _ hnot, List.erase_cons_head]
  rw [← herase] at hs
  by_cases hnil : (book.ordersAt price).erase o = []
  · rw [hnil] at hs
    obtain ⟨book', hrem, htaken⟩ := h.takenOut_drop hat hs hnil
    refine ⟨book', ?_, htaken⟩
    rw [htake, removeIfEmpty, hs.topOrder_self, List.head?_nil, if_pos rfl, hrem, ok_bind]
  · have htop : (book₁.level b).topOrder ≠ none := by
      rwa [hs.topOrder_self, Ne, List.head?_eq_none_iff]
    refine ⟨book₁, ?_, h.takenOut_keep hat hs hnil⟩
    rw [htake, removeIfEmpty, if_neg htop, ok_bind]

/-- **No order of that id is at the price.** -/
theorem WellLinked.takeOut_miss (h : WellLinked book bids asks) (side : OrderSide)
    (hmiss : ∀ x ∈ book.ordersAt price, (book.order x).orderId ≠ orderId) :
    book.takeOut orderId side price = .ok (book.touch price, none) := by
  rw [takeOut, getPriceLevel_eq, ok_bind]
  cases hat : book.levelAt price with
  | none => rfl
  | some b =>
    have hb := h.mem_of_levelAt hat
    rw [ordersAt_of_some hat] at hmiss
    have htop : (book.level b).topOrder ≠ none := by
      rw [(h.ring b hb).2, Ne, List.head?_eq_none_iff]
      exact h.nonempty b hb
    simp only [touch_eq_self hat, h.cancelAt_miss hb hmiss, ok_bind, removeIfEmpty, if_neg htop,
      pure_eq_ok]

/-- The chains of an ordered book are well linked. -/
theorem Ordered.wellLinked (h : Ordered book ring chain) :
    WellLinked book (chain .buy) (chain .sell) where
  toRepresented := h.represented
  ring b _ := by
    rw [h.toShape.ordersOn]
    exact ⟨h.rings b, h.top b⟩
  inUse b hb := by
    rcases List.mem_append.1 hb with hb | hb
    · exact ((h.mem .buy (by simp) b).1 hb).1
    · exact ((h.mem .sell (by simp) b).1 hb).1

/-- An ordered book whose orders at rest have ids of their own is well formed. -/
theorem Ordered.wellFormed (h : Ordered book ring chain)
    (hd : ∀ o ∈ book.resting, ∀ x ∈ book.resting,
      (book.order o).orderId = (book.order x).orderId → o = x) :
    WellFormed book (chain .buy) (chain .sell) where
  toWellLinked := h.wellLinked
  distinct b hb o ho c hc x hx he := by
    rw [h.toShape.ordersOn] at ho hx
    exact hd o ((mem_resting h.toShape).2 ⟨b, ho⟩) x ((mem_resting h.toShape).2 ⟨c, hx⟩) he

end OrderBook

open OrderBook

namespace World

variable {m l : ℕ} {w : World m l} {bids asks : List (Fin l)}

/-- **One cancel on a well-formed book** takes out the order of that id at the
price, and its level when it is left empty, and changes nothing when there is no
such order. -/
theorem cancelled_of_wellFormed (h : WellFormed w.toOrderBook bids asks) (clientId : ClientIdT)
    (orderId : OrderIdT) (side : OrderSide) (price : PriceT) :
    ∃ w', w.cancel clientId orderId side price = .ok w' ∧
      ((∃ b, ∃ o ∈ w.ordersAt price, w.levelAt price = some b ∧ (w.order o).orderId = orderId ∧
          TakenOut w.toOrderBook bids asks price b o w'.toOrderBook) ∨
        (∀ o ∈ w.ordersAt price, (w.order o).orderId ≠ orderId) ∧
          Untouched w.toOrderBook w'.toOrderBook) := by
  by_cases hhit : ∃ o ∈ w.ordersAt price, (w.order o).orderId = orderId
  · obtain ⟨x, hx, hxid⟩ := hhit
    obtain ⟨b, hat⟩ : ∃ b, w.levelAt price = some b := by
      refine Option.ne_none_iff_exists'.1 fun hnone => ?_
      rw [ordersAt_of_none hnone] at hx
      exact List.not_mem_nil hx
    rw [ordersAt_of_some hat] at hx
    obtain ⟨o, xs, ys, hxs, ho, hsplit, -⟩ := List.exists_of_eraseP
      (p := fun x => (w.order x).orderId = orderId) hx (by simpa using hxid)
    simp only [decide_eq_true_eq] at hxs ho
    obtain ⟨book', htake, htaken⟩ := h.takeOut_hit side hat hsplit hxs ho
    refine ⟨_, by rw [cancel, htake]; rfl, Or.inl ⟨b, o, ?_, hat, ho, htaken⟩⟩
    rw [ordersAt_of_some hat, hsplit]
    simp
  · have hmiss : ∀ o ∈ w.ordersAt price, (w.order o).orderId ≠ orderId :=
      fun o ho he => hhit ⟨o, ho, he⟩
    have htake := h.toWellLinked.takeOut_miss side hmiss
    exact ⟨_, by rw [cancel, htake]; rfl, Or.inr ⟨hmiss, untouched_touch⟩⟩

/-- The last level of the asks goes with its only order. -/
theorem cancelled_of_sampleOps :
    ∃ w bids asks w', (new 8 8 3 fun _ => 0).run (sampleOps.take 3) = .ok w ∧
      w.cancel 1 1 .sell 100 = .ok w' ∧
      ((∃ b, ∃ o ∈ w.ordersAt 100, w.levelAt 100 = some b ∧ (w.order o).orderId = 1 ∧
          TakenOut w.toOrderBook bids asks 100 b o w'.toOrderBook) ∨
        (∀ o ∈ w.ordersAt 100, (w.order o).orderId ≠ 1) ∧
          Untouched w.toOrderBook w'.toOrderBook) := by
  have hrun : ∃ w, (new 8 8 3 fun _ => 0).run (sampleOps.take 3) = .ok w ∧
      ∀ o ∈ w.resting, ∀ x ∈ w.resting, (w.order o).orderId = (w.order x).orderId → o = x := by
    decide +kernel
  obtain ⟨w, hw, hd⟩ := hrun
  have hfront : EachStep step OpensInFront (new 8 8 3 fun _ => 0) (sampleOps.take 3) := by
    decide +kernel
  obtain ⟨ring, chain, hord⟩ :=
    isOrdered_of_run (by decide) (by decide) (by decide) hfront hw
  obtain ⟨w', hw', hcases⟩ := cancelled_of_wellFormed (hord.wellFormed hd) 1 1 .sell 100
  exact ⟨w, _, _, w', hw, hw', hcases⟩

/-! ### The messages of a cancel -/

section Reached

variable {w' : World m l} {ring : Fin l → List (Fin m)} {clientId : ClientIdT} {orderId : OrderIdT}
  {side : OrderSide} {price p : PriceT} {tickerId : TickerIdT} {clock : ℕ → NsTimestampT}
  {ops : List Op}

/-- The queues of a book after a level was shrunk. -/
theorem ordersAt_shrunk {book book₁ book' : OrderBook m l} {b : Fin l} {xs : List (Fin m)}
    (h : Sound book ring) (hs : Shrunk book ring b xs book₁)
    (hrem : book₁.removeIfEmpty b = .ok book') :
    book'.ordersAt p = if p = book.priceOf b then xs else book.ordersAt p := by
  have hkept : book₁.ordersAt p = if p = book.priceOf b then xs else book.ordersAt p := by
    have hat : book₁.levelAt p = book.levelAt p := hs.levelAt p
    cases hc : book.levelAt p with
    | none =>
      rw [hc] at hat
      have hp : p ≠ book.priceOf b := fun he => by
        rw [he, priceOf, h.levelAt_of_inUse hs.inUse] at hc
        cases hc
      rw [ordersAt_of_none hat, ordersAt_of_none hc, if_neg hp]
    | some c =>
      rw [hc] at hat
      obtain ⟨-, hcp⟩ := (h.levelAt p c).1 hc
      rw [ordersAt_of_levelAt hs.shape hat, ordersAt_of_levelAt h.toShape hc]
      rcases eq_or_ne c b with rfl | hcb
      · rw [Function.update_self, if_pos (show p = book.priceOf c from hcp.symm)]
      · have hp : p ≠ book.priceOf b := fun he => by
          rw [he, priceOf, h.levelAt_of_inUse hs.inUse, Option.some.injEq] at hc
          exact hcb hc.symm
        rw [Function.update_of_ne hcb, if_neg hp]
  rcases removeIfEmpty_ok hs.shape hrem with ⟨-, rfl⟩ | ⟨hnil, hr⟩
  · exact hkept
  · rw [Function.update_self] at hnil
    rw [hr.ordersAt, hkept, show book₁.priceOf b = book.priceOf b from hs.priceLevel, hnil]
    split_ifs <;> rfl

/-- The order `o` left the queue at the price, between `xs` and `ys`, and the
messages name it with the client and the side of the request. -/
structure Canceled (w : World m l) (clientId : ClientIdT) (side : OrderSide) (xs : List (Fin m))
    (o : Fin m) (ys : List (Fin m)) (w' : World m l) : Prop where
  responses : w'.responses = w.responses ++
    [{ type := .canceled, tickerId := w.tickerId, clientId, orderId := (w.order o).orderId, side,
       quantity := (w.order o).quantity, price := (w.order o).limitPrice,
       nsTimestamp := w.clock 0 }]
  updates : w'.updates = w.updates ++
    [{ type := .remove, tickerId := w.tickerId, orderId := (w.order o).orderId,
       tradeId := tradeIdInvalid, side, quantity := (w.order o).quantity,
       price := (w.order o).limitPrice, nsTimestamp := w.clock 0 }]
  entry : ∀ x, (w'.order x).entry = (w.order x).entry
  orders : ∀ p, w'.ordersAt p = if p = (w.order o).limitPrice then xs ++ ys else w.ordersAt p

/-- The cancel was rejected. -/
structure Rejected (w : World m l) (clientId : ClientIdT) (orderId : OrderIdT) (w' : World m l) :
    Prop extends Untouched w.toOrderBook w'.toOrderBook where
  responses : w'.responses = w.responses ++
    [{ type := .cancelRejected, tickerId := w.tickerId, clientId, orderId, side := .invalid,
       quantity := quantityInvalid, price := priceInvalid, nsTimestamp := w.clock 0 }]
  updates : w'.updates = w.updates

/-- **A cancel takes out the first order with its id and its price,** whose
client and side it does not look at, and is rejected when there is none. -/
theorem answered_of_run (h : (new m l tickerId clock).run ops = .ok w) (clientId : ClientIdT)
    (orderId : OrderIdT) (side : OrderSide) (price : PriceT) :
    (∃ xs o ys, w.ordersAt price = xs ++ o :: ys ∧ (w.order o).orderId = orderId ∧
        (w.order o).limitPrice = price ∧ (∀ x ∈ xs, (w.order x).orderId ≠ orderId) ∧
        ∀ w', w.cancel clientId orderId side price = .ok w' →
          Canceled w clientId side xs o ys w') ∨
      (∀ o ∈ w.ordersAt price, (w.order o).orderId ≠ orderId) ∧
        ∃ w', w.cancel clientId orderId side price = .ok w' ∧ Rejected w clientId orderId w' := by
  obtain ⟨L, -, hk⟩ := run_refines (keeps_new m l tickerId clock) h
  obtain ⟨ring, hh⟩ := hk.holds
  rcases takeOut_cases hh.toSound orderId side price with
    ⟨htake, hmiss⟩ | ⟨b, xs, o, ys, book₁, hat, hring, hxs, ho, htake, hs, hent⟩
  · have hcancel : w.cancel clientId orderId side price = .ok ((w.withBook (w.touch price)).respond
        .cancelRejected clientId orderId .invalid quantityInvalid priceInvalid) := by
      rw [cancel, htake]
      rfl
    exact Or.inr ⟨forall_ordersAt hh.toShape hmiss, _, hcancel, untouched_touch, rfl, rfl⟩
  · have hbp : w.priceOf b = price := ((hh.levelAt price b).1 hat).2
    have hprice : (w.order o).limitPrice = price :=
      (hh.price b o (by simp [hring])).trans hbp
    refine Or.inl ⟨xs, o, ys, by rw [ordersAt_of_levelAt hh.toShape hat, hring], ho, hprice, hxs,
      fun w' hw => ?_⟩
    simp only [cancel, htake, bind_eq_ok, Prod.exists] at hw
    obtain ⟨_, _, ⟨book', hrem, hok⟩, hw⟩ := hw
    obtain ⟨rfl, rfl⟩ := Prod.mk.inj (Except.ok.inj hok)
    obtain rfl := Except.ok.inj hw
    obtain ⟨htick, horder⟩ := removeIfEmpty_frame hrem
    have hentry : ∀ x, (book'.order x).entry = (w.order x).entry := fun x => by
      rw [horder, hent]
    have hq : (book'.order o).quantity = (w.order o).quantity :=
      congrArg Entry.quantity (hentry o)
    refine ⟨?_, ?_, hentry, fun p => ?_⟩
    · rw [ho, hprice, ← hq, ← hs.tickerId, ← htick]
      rfl
    · rw [ho, hprice, ← hq, ← hs.tickerId, ← htick]
      rfl
    · rw [hprice, ← hbp]
      exact ordersAt_shrunk hh.toSound hs hrem

/-- Client 7 cancels the second bid, which is of client 9, and then an order
that is not there. -/
theorem answered_of_sampleOps :
    ∃ w, (new 16 16 3 fun _ => 0).run sampleOps = .ok w ∧
      (∃ xs o ys w', w.ordersAt 101 = xs ++ o :: ys ∧ (w.order o).orderId = 8 ∧
        w.cancel 7 8 .sell 101 = .ok w' ∧ Canceled w 7 .sell xs o ys w') ∧
      ∃ w', w.cancel 7 8 .buy 100 = .ok w' ∧ Rejected w 7 8 w' := by
  have hrun : ∃ w, (new 16 16 3 fun _ => 0).run sampleOps = .ok w ∧
      (∃ o ∈ w.ordersAt 101, (w.order o).orderId = 8) ∧
      (∀ o ∈ w.ordersAt 100, (w.order o).orderId ≠ 8) ∧
      (w.cancel 7 8 .sell 101).isOk = true := by
    decide +kernel
  obtain ⟨w, hw, ⟨o, ho, hid⟩, hnone, hok⟩ := hrun
  obtain ⟨w', hw'⟩ := exists_of_isOk hok
  refine ⟨w, hw, ?_, ?_⟩
  · rcases answered_of_run hw 7 8 .sell 101 with ⟨xs, x, ys, hxs, hx, -, -, hcanceled⟩ | ⟨hmiss, -⟩
    · exact ⟨xs, x, ys, w', hxs, hx, hw', hcanceled w' hw'⟩
    · exact absurd hid (hmiss o ho)
  · rcases answered_of_run hw 7 8 .buy 100 with ⟨xs, x, ys, hxs, hx, -⟩ | ⟨-, hrejected⟩
    · exact absurd hx (hnone x (by simp [hxs]))
    · exact hrejected

/-- Another client cancels the offer of client 1, on the side it is not on. -/
theorem canceled_of_otherClient :
    ∃ w w', (new 8 8 3 fun _ => 0).run [.add 1 1 .sell 10 100] = .ok w ∧
      (∀ o ∈ w.resting, (w.order o).clientId = 1 ∧ (w.order o).side = .sell) ∧
      w.cancel 2 1 .buy 100 = .ok w' ∧
      w'.responses.getLast?.map (fun r => (r.type, r.clientId, r.orderId, r.side)) =
        some (.canceled, 2, 1, .buy) ∧
      w'.updates.getLast?.map (fun u => (u.type, u.orderId, u.side)) = some (.remove, 1, .buy) ∧
      w'.resting = [] := by
  have hadd : ∃ w, (new 8 8 3 fun _ => 0).run [.add 1 1 .sell 10 100] =
      .ok w ∧ ∀ o ∈ w.resting, (w.order o).clientId = 1 ∧ (w.order o).side = .sell := by
    decide +kernel
  have hcancel : ∃ w', (new 8 8 3 fun _ => 0).run
      ([.add 1 1 .sell 10 100] ++ [.cancel 2 1 .buy 100]) = .ok w' ∧
      w'.responses.getLast?.map (fun r => (r.type, r.clientId, r.orderId, r.side)) =
        some (.canceled, 2, 1, .buy) ∧
      w'.updates.getLast?.map (fun u => (u.type, u.orderId, u.side)) = some (.remove, 1, .buy) ∧
      w'.resting = [] := by
    decide +kernel
  obtain ⟨w, hw, hsell⟩ := hadd
  obtain ⟨w', hw', hresponse, hupdate, hnil⟩ := hcancel
  obtain ⟨w₁, hw₁, hstep⟩ := foldlM_concat_eq_ok.1 hw'
  obtain rfl := Except.ok.inj (hw.symm.trans hw₁)
  exact ⟨w, w', hw, hsell, hstep, hresponse, hupdate, hnil⟩

end Reached

end World

end CppExchange
