import CppExchange.Coherence
import CppExchange.PriceTime

/-!
# Runs of calls that open levels in front

A run in which every level that is created opens in front of its side returns
unless a pool runs out (`returns_of_run`), keeps the representation of the book
(`represented_of_run`), and trades like the reference book
(`priceTime_of_run`).

The run `detachingOps` opens a level behind another one, which then does not
point to it.  On the book it leaves the level is on no chain, a cancel of its
order walks off the end of the chain, and no order trades with it.
-/

namespace CppExchange

open Library OrderBook

namespace OrderBook

variable {m l : ℕ} {book : OrderBook m l} {ring : Fin l → List (Fin m)}
  {chain : OrderSide → List (Fin l)} {o o' : Fin m} {price : PriceT}

/-- Following `next_price_level` from the best pointers visits the bids, highest
first, and the asks, lowest first; these are the recorded levels, and hold orders
of their own price and side. -/
structure Represented (book : OrderBook m l) (bids asks : List (Fin l)) : Prop where
  bidsLinked : IsLinkedList book.nextLevel book.bestBids bids
  asksLinked : IsLinkedList book.nextLevel book.bestAsks asks
  decreasing : bids.Pairwise fun a b => book.priceOf b < book.priceOf a
  increasing : asks.Pairwise fun a b => book.priceOf a < book.priceOf b
  buys : ∀ b ∈ bids, (book.level b).side = .buy
  sells : ∀ b ∈ asks, (book.level b).side = .sell
  recorded : ∀ p b, book.levelAt p = some b ↔ b ∈ bids ++ asks ∧ book.priceOf b = p
  once : (bids ++ asks).Nodup
  nonempty : ∀ b ∈ bids ++ asks, book.ordersOn b ≠ []
  orders : ∀ b ∈ bids ++ asks, ∀ o ∈ book.ordersOn b,
    (book.order o).limitPrice = book.priceOf b ∧ (book.order o).side = (book.level b).side

/-- `Represented` by some chains. -/
def IsRepresented (book : OrderBook m l) : Prop := ∃ bids asks, Represented book bids asks

/-- The chains of an ordered book represent it. -/
theorem Ordered.represented (h : Ordered book ring chain) :
    Represented book (chain .buy) (chain .sell) := by
  have hmem : ∀ b, b ∈ chain .buy ++ chain .sell ↔ book.priceLevelPool.InUse b := by
    intro b
    rw [List.mem_append, h.mem .buy (by simp), h.mem .sell (by simp)]
    refine ⟨fun hb => hb.elim And.left And.left, fun hb => ?_⟩
    have hs := h.sided b hb
    cases hside : (book.level b).side with
    | invalid => exact absurd hside hs
    | buy => exact Or.inl ⟨hb, rfl⟩
    | sell => exact Or.inr ⟨hb, rfl⟩
  refine ⟨h.linked .buy (by simp), h.linked .sell (by simp), ?_, ?_,
    fun b hb => ((h.mem .buy (by simp) b).1 hb).2, fun b hb => ((h.mem .sell (by simp) b).1 hb).2,
    fun p b => ?_, ?_, fun b hb => ?_, fun b _ o ho => ?_⟩
  · exact (h.sorted .buy (by simp)).imp fun hab => by simpa [ahead] using hab
  · exact (h.sorted .sell (by simp)).imp fun hab => by simpa [ahead] using hab
  · rw [hmem, h.levelAt]
    rfl
  · refine List.nodup_append.2 ⟨h.nodup (by simp), h.nodup (by simp), fun a ha b hb he => ?_⟩
    have hab := h.uncrossed a ha b hb
    rw [he] at hab
    exact absurd hab (by simp)
  · rw [h.toShape.ordersOn]
    exact h.nonempty b ((hmem b).1 hb)
  · rw [h.toShape.ordersOn] at ho
    exact ⟨h.price b o ho, h.orderSide b o ho⟩

/-- On an ordered book no two orders at rest cross. -/
theorem Ordered.uncrossed_resting (h : Ordered book ring chain) (ho : o ∈ book.resting)
    (ho' : o' ∈ book.resting) (hbuy : (book.order o).side = .buy)
    (hsell : (book.order o').side = .sell) :
    (book.order o).limitPrice < (book.order o').limitPrice := by
  have hlevel : ∀ o ∈ book.resting,
      ∃ b ∈ chain (book.order o).side, (book.order o).limitPrice = book.priceOf b := by
    intro o ho
    obtain ⟨p, b, hb, hob⟩ := exists_ordersOn_of_resting ho
    rw [h.toShape.ordersOn] at hob
    rw [h.orderSide b o hob]
    exact ⟨b, h.mem_of_inUse ((h.levelAt p b).1 hb).1, h.price b o hob⟩
  obtain ⟨b, hb, hp⟩ := hlevel o ho
  obtain ⟨b', hb', hp'⟩ := hlevel o' ho'
  rw [hp, hp']
  exact h.uncrossed b (hbuy ▸ hb) b' (hsell ▸ hb')

/-- A book with no bids whose only level on the chain of asks is not the one
recorded at some price is not represented. -/
theorem not_isRepresented (hb : book.bestBids = none)
    (ha : book.bestAsks.bind book.nextLevel = none) (hne : book.levelAt price ≠ book.bestAsks)
    (hat : book.levelAt price ≠ none) : ¬IsRepresented book := by
  rintro ⟨bids, asks, h⟩
  obtain ⟨b, hlvl⟩ := Option.ne_none_iff_exists'.1 hat
  have hbids : bids = [] := by
    have := h.bidsLinked.head?_eq
    rwa [hb, eq_comm, List.head?_eq_none_iff] at this
  have hmem := ((h.recorded price b).1 hlvl).1
  rw [hbids, List.nil_append] at hmem
  cases asks with
  | nil => exact List.not_mem_nil hmem
  | cons a as =>
    obtain ⟨hbest, htail⟩ := h.asksLinked
    rw [hbest, Option.bind_some] at ha
    have has : as = [] := by
      have := htail.head?_eq
      rwa [ha, eq_comm, List.head?_eq_none_iff] at this
    rw [has, List.mem_singleton] at hmem
    exact hne (by rw [hlvl, hbest, hmem])

end OrderBook

namespace World

variable {m l : ℕ} {w : World m l} {tickerId : TickerIdT} {clock : ℕ → NsTimestampT}
  {ops : List Op}

/-- **A run that opens levels in front** leaves an ordered book that keeps the
ledger of the reference, unless a pool runs out. -/
theorem run_total (hm : 0 < m) (hl : 0 < l) (hsided : ∀ op ∈ ops, op.Sided)
    (hfront : EachStep step OpensInFront (new m l tickerId clock) ops) :
    (∃ w, (new m l tickerId clock).run ops = .ok w ∧ IsOrdered w.toOrderBook ∧
        Keeps tickerId w (Reference.run ops)) ∨
      (new m l tickerId clock).run ops = .error bufferIsFull := by
  refine foldlM_of_eachStep (Q := fun ops => ∀ op ∈ ops, op.Sided)
    (P := fun ops w => IsOrdered w.toOrderBook ∧ Keeps tickerId w (Reference.run ops))
    (fun ops op h x hx => h x (List.mem_append_left _ hx))
    ⟨isOrdered_new hm hl tickerId, keeps_new m l tickerId clock⟩ ?_ hsided hfront
  rintro ops op w h ⟨hord, hk⟩ hf
  rw [Reference.run_concat]
  exact step_total hord hk (h op (by simp)) hf

/-- The run rule for runs in which no pool runs out. -/
theorem exists_of_run (hm : 0 < m) (hl : 0 < l) (hsided : ∀ op ∈ ops, op.Sided)
    (hfront : EachStep step OpensInFront (new m l tickerId clock) ops)
    (hroom : (new m l tickerId clock).run ops ≠ .error bufferIsFull) :
    ∃ w, (new m l tickerId clock).run ops = .ok w ∧ IsOrdered w.toOrderBook ∧
      Keeps tickerId w (Reference.run ops) :=
  (run_total hm hl hsided hfront).resolve_right hroom

/-- A run that opens levels in front leaves an ordered book when it returns. -/
theorem isOrdered_of_run (hm : 0 < m) (hl : 0 < l) (hsided : ∀ op ∈ ops, op.Sided)
    (hfront : EachStep step OpensInFront (new m l tickerId clock) ops)
    (h : (new m l tickerId clock).run ops = .ok w) : IsOrdered w.toOrderBook := by
  obtain ⟨w', hw, hord, -⟩ := exists_of_run hm hl hsided hfront (by simp [h])
  obtain rfl := Except.ok.inj (h.symm.trans hw)
  exact hord

/-- Two offers, the second one behind the first. -/
def detachingOps : List Op := [.add 1 1 .sell 10 100, .add 2 1 .sell 10 110]

theorem sampleOps_sided : ∀ op ∈ sampleOps, op.Sided := by decide

theorem sampleOps_opensInFront :
    EachStep step OpensInFront (new maxOrderIds maxPriceLevels 3 fun _ => 0) sampleOps := by
  decide +kernel

/-- The sample run does not fill a pool. -/
theorem sampleOps_hasRoom :
    (new maxOrderIds maxPriceLevels 3 fun _ => 0).run sampleOps ≠ .error bufferIsFull := by
  obtain ⟨w, hw, -⟩ := sampleOps_returns
  simp [hw]

/-! ### No call crashes or hangs -/

/-- **Every call returns** in a run that opens levels in front and in which no
pool runs out. -/
theorem returns_of_run (hm : 0 < m) (hl : 0 < l) (hsided : ∀ op ∈ ops, op.Sided)
    (hfront : EachStep step OpensInFront (new m l tickerId clock) ops)
    (hroom : (new m l tickerId clock).run ops ≠ .error bufferIsFull) :
    ∃ w, (new m l tickerId clock).run ops = .ok w := by
  obtain ⟨w, hw, -⟩ := exists_of_run hm hl hsided hfront hroom
  exact ⟨w, hw⟩

theorem returns_of_sampleOps :
    ∃ w, (new maxOrderIds maxPriceLevels 3 fun _ => 0).run sampleOps = .ok w :=
  returns_of_run (by decide) (by decide) sampleOps_sided sampleOps_opensInFront sampleOps_hasRoom

/-- The search for the predecessor of the detached level dereferences null. -/
theorem crashes_of_detachingOps :
    (∀ op ∈ detachingOps ++ [.cancel 1 2 .sell 110], op.Sided) ∧
      (addedIds (detachingOps ++ [.cancel 1 2 .sell 110])).Nodup ∧
      (new maxOrderIds maxPriceLevels 3 fun _ => 0).run
        (detachingOps ++ [.cancel 1 2 .sell 110]) = .error .nullDeref :=
  ⟨by decide, by decide, by decide +kernel⟩

/-! ### The representation of the book -/

/-- **The chains represent the book** after every run that opens levels in
front. -/
theorem represented_of_run (hm : 0 < m) (hl : 0 < l) (hsided : ∀ op ∈ ops, op.Sided)
    (hfront : EachStep step OpensInFront (new m l tickerId clock) ops)
    (h : (new m l tickerId clock).run ops = .ok w) : IsRepresented w.toOrderBook := by
  obtain ⟨ring, chain, hord⟩ := isOrdered_of_run hm hl hsided hfront h
  exact ⟨_, _, hord.represented⟩

/-- The sample run is an instance of the representation. -/
theorem represented_of_sampleOps :
    ∃ w, (new maxOrderIds maxPriceLevels 3 fun _ => 0).run sampleOps = .ok w ∧
      IsRepresented w.toOrderBook := by
  obtain ⟨w, hw, -⟩ := sampleOps_returns
  exact ⟨w, hw, represented_of_run (by decide) (by decide) sampleOps_sided sampleOps_opensInFront
    hw⟩

/-- The second level is recorded, but on no chain. -/
theorem not_represented_of_detachingOps :
    (∀ op ∈ detachingOps, op.Sided) ∧ (addedIds detachingOps).Nodup ∧
      ∃ w, (new maxOrderIds maxPriceLevels 3 fun _ => 0).run detachingOps = .ok w ∧
        ¬IsRepresented w.toOrderBook := by
  have hrun : ∃ w, (new maxOrderIds maxPriceLevels 3 fun _ => 0).run detachingOps = .ok w ∧
      w.bestBids = none ∧ w.bestAsks.bind w.nextLevel = none ∧ w.levelAt 110 ≠ w.bestAsks ∧
      w.levelAt 110 ≠ none := by
    decide +kernel
  obtain ⟨w, hw, hb, ha, hne, hat⟩ := hrun
  exact ⟨by decide, by decide, w, hw, not_isRepresented hb ha hne hat⟩

/-! ### Price-time priority -/

/-- **The trades are those of the reference book,** and no two orders at rest
cross, after every run that opens levels in front. -/
theorem priceTime_of_run (hm : 0 < m) (hl : 0 < l) (hsided : ∀ op ∈ ops, op.Sided)
    (hfront : EachStep step OpensInFront (new m l tickerId clock) ops)
    (hroom : (new m l tickerId clock).run ops ≠ .error bufferIsFull) :
    ∃ w, (new m l tickerId clock).run ops = .ok w ∧
      trades w.responses = Reference.trades ops ∧
      ∀ o ∈ w.resting, ∀ o' ∈ w.resting, (w.order o).side = .buy → (w.order o').side = .sell →
        (w.order o).limitPrice < (w.order o').limitPrice := by
  obtain ⟨w, hw, ⟨ring, chain, hord⟩, hk⟩ := exists_of_run hm hl hsided hfront hroom
  refine ⟨w, hw, ?_, fun o ho o' ho' => hord.uncrossed_resting ho ho'⟩
  rw [← trades_untimed, hk.announced, trades_flatMap]
  rfl

/-- The sample run is an instance of the priority. -/
theorem priceTime_of_sampleOps :
    ∃ w, (new maxOrderIds maxPriceLevels 3 fun _ => 0).run sampleOps = .ok w ∧
      trades w.responses = Reference.trades sampleOps ∧
      ∀ o ∈ w.resting, ∀ o' ∈ w.resting, (w.order o).side = .buy → (w.order o').side = .sell →
        (w.order o).limitPrice < (w.order o').limitPrice :=
  priceTime_of_run (by decide) (by decide) sampleOps_sided sampleOps_opensInFront
    sampleOps_hasRoom

/-- Two bids that cross both offers trade with the first one only: the last bid
rests at the price of the offer it should have traded with. -/
theorem trades_ne_of_detachingOps :
    (∀ op ∈ detachingOps ++ [.add 3 2 .buy 10 100, .add 4 2 .buy 10 110], op.Sided) ∧
      (addedIds (detachingOps ++ [.add 3 2 .buy 10 100, .add 4 2 .buy 10 110])).Nodup ∧
      ∃ w, (new maxOrderIds maxPriceLevels 3 fun _ => 0).run
          (detachingOps ++ [.add 3 2 .buy 10 100, .add 4 2 .buy 10 110]) = .ok w ∧
        trades w.responses = [⟨3, 1, 10, 100⟩] ∧
        Reference.trades (detachingOps ++ [.add 3 2 .buy 10 100, .add 4 2 .buy 10 110]) =
          [⟨3, 1, 10, 100⟩, ⟨4, 2, 10, 110⟩] := by
  have hrun : ∃ w, (new maxOrderIds maxPriceLevels 3 fun _ => 0).run
      (detachingOps ++ [.add 3 2 .buy 10 100, .add 4 2 .buy 10 110]) = .ok w ∧
      trades w.responses = [⟨3, 1, 10, 100⟩] := by
    decide +kernel
  obtain ⟨w, hw, htrades⟩ := hrun
  exact ⟨by decide, by decide, w, hw, htrades, by decide +kernel⟩

end World

end CppExchange
