import CppExchange.InOrder
import CppExchange.Reference

/-!
# Price-time priority

On an ordered book every call returns, unless a pool runs out, leaves an
ordered book, and does what the reference book does, as long as a level it
creates opens in front of its side (`step_total`): the matching loop meets the
best crossing order of the reference at every turn (`matchBest_total`), and ends
when the reference is done (`best_eq_none_of_canMatch`).
-/

namespace CppExchange

open Library OrderBook

/-- The side of an order is BUY or SELL. -/
def Op.Sided : Op → Prop
  | .add _ _ side _ _ => side ≠ .invalid
  | .cancel _ _ _ _ => True

instance (op : Op) : Decidable op.Sided :=
  match op with
  | .add _ _ side _ _ => inferInstanceAs (Decidable (side ≠ .invalid))
  | .cancel _ _ _ _ => .isTrue trivial

namespace World

variable {m l : ℕ} {w w' : World m l} {ring ring' : Fin l → List (Fin m)}
  {chain : OrderSide → List (Fin l)} {b c : Fin l} {taker order : Entry} {L : Ledger}
  {tickerId : TickerIdT} {side : OrderSide} {price limit : PriceT} {quantity : QuantityT}

/-- A level the call would create opens in front of its side: an order without
quantity needs none, and one at a price that has a level needs no new one. -/
def OpensInFront (w : World m l) : Op → Prop
  | .add _ _ side quantity limitPrice =>
    quantity = 0 ∨ w.levelAt limitPrice ≠ none ∨ InFront w.toOrderBook side limitPrice
  | .cancel _ _ _ _ => True

instance (w : World m l) (op : Op) : Decidable (OpensInFront w op) :=
  match op with
  | .add _ _ _ _ _ => inferInstanceAs (Decidable (_ ∨ _ ∨ _))
  | .cancel _ _ _ _ => .isTrue trivial

/-! ### The matching loop -/

/-- Behind a level that is out of the limit all levels are. -/
theorem crosses_of_ahead {p q : PriceT} (hside : side ≠ .invalid)
    (h : ahead side.opposite p q = true) (hq : crosses side limit q = true) :
    crosses side limit p = true := by
  cases side with
  | invalid => exact absurd rfl hside
  | buy =>
    simp [ahead, crosses, OrderSide.opposite] at h hq ⊢
    grind
  | sell =>
    simp [ahead, crosses, OrderSide.opposite] at h hq ⊢
    grind

/-- When the loop ends with quantity left, no level opposite is within the
limit. -/
theorem not_crosses_of_canMatch (h : Chains w.toOrderBook chain) (hside : side ≠ .invalid)
    (hq : quantity ≠ 0) (hc : canMatch side limit (w, quantity) = .ok false)
    (hmem : c ∈ chain side.opposite) : crosses side limit (w.priceOf c) = false := by
  have hbest := h.best_eq (s := side.opposite) OrderSide.opposite_ne_invalid
  obtain ⟨b, bs, hbs⟩ := List.exists_cons_of_ne_nil (List.ne_nil_of_mem hmem)
  rw [hbs, List.head?_cons] at hbest
  have hb : crosses side limit (w.priceOf b) = false := by
    simpa [canMatch, bestOpposite_eq, hbest, hq, priceOf] using hc
  rcases eq_or_ne c b with rfl | hcb
  · exact hb
  · by_contra hcross
    have := crosses_of_ahead hside (h.best_ahead OrderSide.opposite_ne_invalid hbest hmem hcb)
      (by simpa using hcross)
    rw [hb] at this
    cases this

/-- A resting order is on a level of the chain of its side. -/
theorem exists_level (h : Ordered w.toOrderBook ring chain) (hk : Keeps tickerId w L)
    (ho : order ∈ L.resting) :
    ∃ c, c ∈ chain order.side ∧ w.priceOf c = order.limitPrice ∧ order.side ≠ .invalid := by
  obtain ⟨ring', hh⟩ := hk.holds
  obtain ⟨c, hc, x, hx, rfl⟩ := hh.exists_order ho
  have hx' : x ∈ ring c := by rwa [← h.toShape.ordersOn, hh.toShape.ordersOn]
  obtain ⟨hcu, hcp⟩ := (hh.levelAt _ c).1 hc
  have hs : (w.order x).entry.side = (w.level c).side := h.orderSide c x hx'
  rw [hs]
  exact ⟨c, h.mem_of_inUse hcu, hcp, h.sided c hcu⟩

/-- The first order of the list on the best level that a taker crosses is the one
the reference trades with. -/
theorem best_of_bestOf {ring : Fin l → List (Fin m)} {chain : OrderSide → List (Fin l)} {b : Fin l}
    {o : Fin m} {older newer : List Entry} (h : Ordered w.toOrderBook ring chain)
    (hk : Keeps tickerId w L) (hbest : w.bestOf taker.side.opposite = some b) (ho : o ∈ ring b)
    (hbs : (w.level b).side = taker.side.opposite) (hcross : crosses taker.side taker.limitPrice
      (w.priceOf b) = true) (hsplit : L.resting = older ++ (w.order o).entry :: newer)
    (hold : ∀ order ∈ older, order.limitPrice ≠ (w.order o).entry.limitPrice) :
    Reference.best taker L.resting = some (w.order o).entry := by
  have hprice : (w.order o).entry.limitPrice = w.priceOf b := h.price b o ho
  have hcrossing : (w.order o).entry ∈
      Reference.crossing taker (older ++ (w.order o).entry :: newer) := by
    refine Reference.mem_crossing.2 ⟨by simp, (h.orderSide b o ho).trans hbs, ?_⟩
    rw [hprice]
    exact hcross
  have hfirst : ∀ order ∈ Reference.crossing taker (older ++ (w.order o).entry :: newer),
      ahead taker.side.opposite order.limitPrice (w.order o).entry.limitPrice = false := by
    intro order hmo
    obtain ⟨hmo, hos, -⟩ := Reference.mem_crossing.1 hmo
    obtain ⟨c, hc, hcp, -⟩ := exists_level h hk (hsplit ▸ hmo)
    rw [← hcp, hprice]
    rcases eq_or_ne c b with rfl | hcb
    · exact ahead_irrefl
    · exact ahead_asymm (h.best_ahead OrderSide.opposite_ne_invalid hbest (hos ▸ hc) hcb)
  rw [hsplit]
  exact Reference.best_eq_some hcrossing hfirst hold

/-- **A turn of the matching loop of an ordered book** trades with the best
order, and takes from the quantity. -/
theorem matchBest_total (h : IsOrdered w.toOrderBook) (hk : Keeps tickerId w L)
    (hside : taker.side ≠ .invalid)
    (hc : canMatch taker.side taker.limitPrice (w, taker.quantity) = .ok true) :
    ∃ s maker older newer,
      matchBest taker.orderId taker.clientId taker.side (w, taker.quantity) = .ok s ∧
      IsOrdered s.1.toOrderBook ∧ Reference.best taker L.resting = some maker ∧
      Reference.around maker L.resting = (older, newer) ∧
      Keeps tickerId s.1 (L.trade older maker newer taker) ∧
      Ledger.after taker maker = { taker with quantity := s.2 } ∧
      s.2.toNat < taker.quantity.toNat ∧
      ∀ price, Opens w.toOrderBook taker.side price → Opens s.1.toOrderBook taker.side price := by
  obtain ⟨ring, chain, h⟩ := h
  have hopp : taker.side.opposite ≠ .invalid := OrderSide.opposite_ne_invalid
  obtain ⟨b, o, xs, w₁, book', hbest, hmem, -, -, -, -, hord, hopens, hturn⟩ :=
    turn_of_canMatch taker h hc
  have hb : w.bestOpposite taker.side = some b := by rw [bestOpposite_eq, hbest]
  obtain ⟨hbu, hbs⟩ := (h.mem _ hopp b).1 hmem
  simp only [canMatch, hb, Except.ok.injEq, Bool.and_eq_true, bne_iff_ne] at hc
  obtain ⟨hq, hcross⟩ := hc
  obtain ⟨b', o', older, newer, hb', ho', hsplit, hold, hoq, -, hsq, hk'⟩ :=
    matchBest_trade hk hturn
  obtain rfl : b = b' := Option.some.inj (hb.symm.trans hb')
  rw [h.toShape.ordersOn] at ho'
  set maker := (w.order o').entry
  refine ⟨_, maker, older, newer, hturn, hord, ?_, ?_, hk', ?_, ?_, fun price =>
    hopens taker.side hside (hbs ▸ OrderSide.opposite_ne hside) price⟩
  · exact best_of_bestOf h hk hbest ho' hbs hcross hsplit hold
  · rw [hsplit]
    exact Reference.around_eq fun hmem => hold maker hmem rfl
  · rw [hsq]
    rfl
  · rw [hsq]
    have hfill : (taker.fillQuantity maker).toNat ≠ 0 := fun h0 =>
      Ledger.fillQuantity_ne_zero hq (show maker.quantity ≠ 0 from hoq) (UInt32.toNat_inj.1 h0)
    have hsub : (taker.quantity - taker.fillQuantity maker).toNat +
        (taker.fillQuantity maker).toNat = taker.quantity.toNat := toNat_sub_min.1
    omega

/-- When the loop ends the reference is done, too. -/
theorem best_eq_none_of_canMatch (h : IsOrdered w.toOrderBook) (hk : Keeps tickerId w L)
    (hside : taker.side ≠ .invalid) (hq : taker.quantity ≠ 0)
    (hc : canMatch taker.side taker.limitPrice (w, taker.quantity) = .ok false) :
    Reference.best taker L.resting = none := by
  obtain ⟨ring, chain, h⟩ := h
  refine Reference.best_eq_none.2 (List.eq_nil_iff_forall_not_mem.2 fun order hmo => ?_)
  obtain ⟨hmo, hos, hcross⟩ := Reference.mem_crossing.1 hmo
  obtain ⟨c, hmem, hcp, -⟩ := exists_level h hk hmo
  rw [hos] at hmem
  have hno := not_crosses_of_canMatch h.toChains hside hq hc hmem
  rw [hcp, hcross] at hno
  cases hno

/-- **The matching loop of an ordered book** returns, and does what the
reference does. -/
theorem sweep_total {n : ℕ} (taker : Entry) (h : IsOrdered w.toOrderBook) (hk : Keeps tickerId w L)
    (hside : taker.side ≠ .invalid) (hn : taker.quantity.toNat ≤ n) :
    ∃ s, whileLoop .hang (canMatch taker.side taker.limitPrice)
        (matchBest taker.orderId taker.clientId taker.side) (n + 1) (w, taker.quantity) = .ok s ∧
      IsOrdered s.1.toOrderBook ∧ Keeps tickerId s.1 (Reference.sweep n L taker).1 ∧
      (Reference.sweep n L taker).2 = { taker with quantity := s.2 } ∧
      canMatch taker.side taker.limitPrice s = .ok false ∧
      ∀ price, Opens w.toOrderBook taker.side price → Opens s.1.toOrderBook taker.side price := by
  induction n generalizing w L taker with
  | zero =>
    have hq : taker.quantity = 0 := UInt32.toNat_inj.1 (by simpa using hn)
    have hc : canMatch taker.side taker.limitPrice (w, taker.quantity) = .ok false := by
      rw [hq]
      exact canMatch_zero
    exact ⟨_, whileLoop_of_false hc, h, hk, rfl, hc, fun _ h => h⟩
  | succ n ih =>
    obtain ⟨b, hc⟩ := canMatch_ok w taker.side taker.limitPrice taker.quantity
    cases b with
    | false =>
      have hsweep : Reference.sweep (n + 1) L taker = (L, taker) := by
        rw [Reference.sweep]
        split_ifs with hq
        · rfl
        · rw [best_eq_none_of_canMatch h hk hside hq hc]
      rw [hsweep]
      exact ⟨_, whileLoop_of_false hc, h, hk, rfl, hc, fun _ h => h⟩
    | true =>
      obtain ⟨s, maker, older, newer, hturn, hord, hbest, haround, hk', hafter, hlt, hopens⟩ :=
        matchBest_total h hk hside hc
      have hsweep : Reference.sweep (n + 1) L taker =
          Reference.sweep n (L.trade older maker newer taker) { taker with quantity := s.2 } := by
        rw [Reference.sweep, if_neg (quantity_ne_zero_of_canMatch hc), hbest]
        simp only [haround, hafter]
      obtain ⟨s', hloop, hord', hk'', hsw, hc', hopens'⟩ :=
        ih { taker with quantity := s.2 } hord hk' hside
          (by simp only; omega)
      rw [hsweep, whileLoop_of_true hc hturn]
      exact ⟨s', hloop, hord', hk'', hsw, hc', fun p hp => hopens' p (hopens p hp)⟩

/-! ### Resting and cancelling -/

/-- **What is left of an order rests on an ordered book,** unless a pool runs
out. -/
theorem rest_total {book : OrderBook m l} (nsTimestamp : NsTimestampT) (orderId : OrderIdT)
    (clientId : ClientIdT) (h : Ordered book ring chain) (hside : side ≠ .invalid)
    (hq : quantity ≠ 0) (ho : Opens book side price)
    (hun : ∀ c ∈ chain side.opposite, crosses side price (book.priceOf c) = false) :
    (∃ book', book.rest orderId clientId nsTimestamp side quantity price = .ok book' ∧
        IsOrdered book') ∨
      book.rest orderId clientId nsTimestamp side quantity price = .error bufferIsFull := by
  unfold OrderBook.rest
  rcases h.getPriceLevel_total hside ho hun with ⟨book₁, b, chain₁, hget, haw, hbs, hbp⟩ | hget
  · rw [hget, ok_bind]
    rcases ObjectPool.getObject_total haw.orderCursor
      ({ tickerId := book₁.tickerId, orderId, clientId, nsTimestamp, side, quantity,
         limitPrice := price } : Order m) with ⟨pool, o, hobj, hgot⟩ | ⟨hobj, -⟩
    · obtain ⟨book', hadd, hpl⟩ := addAt_fresh haw.toShape haw.inUse hgot hbp.symm
      refine Or.inl ⟨book', ?_, haw.place hpl hq hbs.symm⟩
      simp only [hobj, ok_bind, deref_some]
      exact hadd
    · refine Or.inr ?_
      simp only [hobj, error_bind]
  · exact Or.inr (by rw [hget, error_bind])

/-- **A cancel on an ordered book** returns. -/
theorem cancel_total (clientId : ClientIdT) (orderId : OrderIdT) (side : OrderSide)
    (price : PriceT) (h : IsOrdered w.toOrderBook) :
    ∃ w', w.cancel clientId orderId side price = .ok w' ∧ IsOrdered w'.toOrderBook := by
  obtain ⟨ring, chain, h⟩ := h
  rcases takeOut_cases h.toSound orderId side price with
    ⟨htake, -⟩ | ⟨b, xs, o, ys, book₁, -, -, -, -, htake, hs, -⟩
  · refine ⟨_, by rw [cancel, htake]; rfl, ring, chain, h.touch⟩
  · obtain ⟨book', hrem, hord, -⟩ := h.shrink hs
    rw [hrem, ok_bind] at htake
    exact ⟨_, by rw [cancel, htake]; rfl, hord⟩

/-! ### Calls -/

/-- **An `add` that opens no level behind another one** returns, unless a pool
runs out, and does what the reference does. -/
theorem add_total (taker : Entry) (h : IsOrdered w.toOrderBook) (hk : Keeps tickerId w L)
    (hside : taker.side ≠ .invalid)
    (ho : taker.quantity = 0 ∨ Opens w.toOrderBook taker.side taker.limitPrice) :
    (∃ w', w.add taker.orderId taker.clientId taker.side taker.quantity taker.limitPrice =
        .ok w' ∧ IsOrdered w'.toOrderBook ∧ Keeps tickerId w' (Reference.step L
        (.add taker.orderId taker.clientId taker.side taker.quantity taker.limitPrice))) ∨
      w.add taker.orderId taker.clientId taker.side taker.quantity taker.limitPrice =
        .error bufferIsFull := by
  obtain ⟨⟨w₁, remaining⟩, hloop, hord, hk₁, hleft, hc, hopens⟩ :=
    sweep_total (n := taker.quantity.toNat) (w := w.respond .accepted taker.clientId taker.orderId
      taker.side taker.quantity taker.limitPrice) taker h (hk.accept taker) hside le_rfl
  have hstep : Reference.step L (.add taker.orderId taker.clientId taker.side taker.quantity
      taker.limitPrice) = (Reference.sweep taker.quantity.toNat (L.record (.accepted taker))
        taker).1.rest { taker with quantity := remaining } := by
    rw [← hleft]
    rfl
  rw [hstep]
  simp only [add, checkForMatch, hloop, ok_bind]
  split_ifs with hq
  · have hquantity : taker.quantity ≠ 0 := by
      intro h0
      have hsame : taker.quantity = remaining := by
        rw [h0] at hleft
        exact congrArg Entry.quantity hleft
      exact hq (hsame ▸ h0)
    obtain ⟨ring, chain, hord⟩ := hord
    rcases rest_total w₁.getCurrentNsTimestamp.1 taker.orderId taker.clientId hord hside hq
      (hopens _ (ho.resolve_left hquantity))
      (fun c hmem => not_crosses_of_canMatch hord.toChains hside hq hc hmem) with
      ⟨book', hrest, hord'⟩ | hrest
    · refine Or.inl ⟨_, ?_, hord', hk₁.tick.rested { taker with quantity := remaining }
        hq hrest⟩
      exact bind_eq_ok.2 ⟨book', hrest, rfl⟩
    · exact Or.inr (bind_eq_error.2 (Or.inl hrest))
  · refine Or.inl ⟨w₁, rfl, hord, ?_⟩
    rw [Ledger.rest, if_pos (by simpa using hq)]
    exact hk₁

/-- An order whose price has a level of the other side opens in front of its
own. -/
theorem opens_of_levelAt (h : Ordered w.toOrderBook ring chain) (hside : side ≠ .invalid)
    (hat : w.levelAt price ≠ none) : Opens w.toOrderBook side price := by
  obtain ⟨b, hb⟩ := Option.ne_none_iff_exists'.1 hat
  obtain ⟨hbu, hbp⟩ := (h.levelAt price b).1 hb
  by_cases hbs : (w.level b).side = side
  · exact Or.inl ⟨b, hb, hbs⟩
  · refine Or.inr fun a ha => ?_
    have hmem : b ∈ chain side.opposite := by
      rw [← OrderSide.eq_opposite (h.sided b hbu) hside hbs]
      exact h.mem_of_inUse hbu
    have ha' : a ∈ chain side := by
      rw [h.best_eq hside] at ha
      exact List.mem_of_mem_head? ha
    have hno := h.not_crosses hside ha' hmem
    rw [show w.priceOf b = price from hbp] at hno
    exact ahead_of_not_crosses hside hno

/-- **One call** does what the reference does, unless a pool runs out. -/
theorem step_total {op : Op} (h : IsOrdered w.toOrderBook) (hk : Keeps tickerId w L)
    (hside : op.Sided) (hf : OpensInFront w op) :
    (∃ w', w.step op = .ok w' ∧ IsOrdered w'.toOrderBook ∧
        Keeps tickerId w' (Reference.step L op)) ∨ w.step op = .error bufferIsFull := by
  cases op with
  | add orderId clientId side quantity limitPrice =>
    obtain ⟨ring, chain, hord⟩ := h
    refine add_total ⟨orderId, clientId, side, quantity, limitPrice⟩
      ⟨ring, chain, hord⟩ hk hside ?_
    exact hf.imp_right fun ho => ho.elim (opens_of_levelAt hord hside) Or.inr
  | cancel clientId orderId side limitPrice =>
    obtain ⟨w', hcancel, hord⟩ := cancel_total clientId orderId side limitPrice h
    obtain ⟨L', hstep, hk'⟩ := cancel_sim hk hcancel
    exact Or.inl ⟨w', hcancel, hord, Reference.eq_step_of_cancel hstep ▸ hk'⟩

end World

end CppExchange
