import CppExchange.Levels
import CppExchange.Library.LinkedList
import Mathlib.Data.Fintype.Option

/-!
# The two chains of levels

`Chains book chain` is what `next_price_level` is for: the levels in use of a
side form the chain entered at its best pointer, best price first, and the two
sides do not cross.  A level that opens in front of its side is linked in
(`Chains.insertFront`), and any level can be taken out, its predecessor being
found by its price (`Chains.remove`).

A level that does not open in front is not linked into its chain by
`insertPriceLevel`, so there is no such lemma for it; on a linked chain the search
for its place returns all the same (`Strung.findNext_ok`).  Either search hangs
only where the loop of the source does not end (`findNext_hang`,
`findPrevious_hang`).
-/

namespace CppExchange

open Library

namespace OrderBook

variable {m l : ℕ} {book book' : OrderBook m l} {chain : OrderSide → List (Fin l)}
  {a b c first : Fin l} {side s : OrderSide} {price p q r : PriceT} {xs ys : List (Fin l)}

/-! ### Being ahead -/

theorem ahead_iff : ahead side p q = true ↔ if side = .buy then q < p else p < q := by
  unfold ahead
  split_ifs <;> exact decide_eq_true_iff

/-- Being ahead is transitive. -/
theorem ahead_trans (h₁ : ahead side p q = true) (h₂ : ahead side q r = true) :
    ahead side p r = true := by
  rw [ahead_iff] at *
  split_ifs at * <;> grind

theorem ahead_irrefl : ahead side p p = false := by
  rw [← Bool.not_eq_true, ahead_iff]
  split_ifs <;> grind

/-- Of two prices one at most is ahead of the other. -/
theorem ahead_asymm (h : ahead side p q = true) : ahead side q p = false := by
  rw [← Bool.not_eq_true]
  exact fun h' => by
    have := ahead_trans h h'
    rw [ahead_irrefl] at this
    cases this

theorem crosses_self : World.crosses side p p = true := by
  unfold World.crosses
  split_ifs <;> simp

/-! ### Chains -/

/-- The forward pointers of the levels. -/
def nextLevel (book : OrderBook m l) (b : Fin l) : Option (Fin l) := (book.level b).nextPriceLevel

/-- The price of a level. -/
def priceOf (book : OrderBook m l) (b : Fin l) : PriceT := (book.level b).priceLevel

/-- The chains of a book in order. -/
structure Chains (book : OrderBook m l) (chain : OrderSide → List (Fin l)) : Prop where
  linked : ∀ s ≠ .invalid, IsLinkedList book.nextLevel (book.bestOf s) (chain s)
  sorted : ∀ s ≠ .invalid, (chain s).Pairwise fun a b =>
    ahead s (book.priceOf a) (book.priceOf b) = true
  mem : ∀ s ≠ .invalid, ∀ b, b ∈ chain s ↔ book.priceLevelPool.InUse b ∧ (book.level b).side = s
  sided : ∀ b, book.priceLevelPool.InUse b → (book.level b).side ≠ .invalid
  uncrossed : ∀ a ∈ chain .buy, ∀ b ∈ chain .sell, book.priceOf a < book.priceOf b

/-- The chains of a book as lists: linked from the best pointers, best price
first, every level on the chain of its side. -/
structure Strung (book : OrderBook m l) (chain : OrderSide → List (Fin l)) : Prop where
  linked : ∀ s ≠ .invalid, IsLinkedList book.nextLevel (book.bestOf s) (chain s)
  sorted : ∀ s ≠ .invalid, (chain s).Pairwise fun a b =>
    ahead s (book.priceOf a) (book.priceOf b) = true
  side : ∀ s ≠ .invalid, ∀ b ∈ chain s, (book.level b).side = s

theorem Chains.strung (h : Chains book chain) : Strung book chain :=
  ⟨h.linked, h.sorted, fun s hs b hb => ((h.mem s hs b).1 hb).2⟩

/-- The chains of a new book are empty. -/
theorem chains_new (m l : ℕ) (tickerId : TickerIdT) : Chains (new m l tickerId) (fun _ => []) where
  linked s _ := by
    cases s <;> rfl
  sorted _ _ := List.Pairwise.nil
  mem s _ b := by
    have h : ¬(new m l tickerId).priceLevelPool.InUse b := ObjectPool.not_inUse_new
    simp [h]
  sided b h := absurd h ObjectPool.not_inUse_new
  uncrossed _ h := absurd h List.not_mem_nil

/-- Chains read the links, prices, sides and best pointers, and which levels are
in use. -/
theorem Chains.congr (h : Chains book chain) (hbest : ∀ s, book'.bestOf s = book.bestOf s)
    (hnext : ∀ b, book'.nextLevel b = book.nextLevel b)
    (hprice : ∀ b, book'.priceOf b = book.priceOf b)
    (hside : ∀ b, book.priceLevelPool.InUse b → (book'.level b).side = (book.level b).side)
    (huse : ∀ b, book'.priceLevelPool.InUse b ↔ book.priceLevelPool.InUse b) :
    Chains book' chain where
  linked s hs := by
    rw [hbest]
    exact (h.linked s hs).congr fun b _ => hnext b
  sorted s hs := by
    simp only [hprice]
    exact h.sorted s hs
  mem s hs b := by
    rw [h.mem s hs b, huse]
    exact and_congr_right fun hb => by rw [hside b hb]
  sided b hb := by
    rw [hside b ((huse b).1 hb)]
    exact h.sided b ((huse b).1 hb)
  uncrossed a ha b hb := by
    rw [hprice, hprice]
    exact h.uncrossed a ha b hb

/-- A chain visits no level twice. -/
theorem Strung.nodup (h : Strung book chain) (hs : s ≠ .invalid) : (chain s).Nodup :=
  (h.sorted s hs).imp fun {a b} hab he => by
    rw [he, ahead_irrefl] at hab
    cases hab

theorem Strung.best_eq (h : Strung book chain) (hs : s ≠ .invalid) :
    book.bestOf s = (chain s).head? := (h.linked s hs).head?_eq

theorem Chains.nodup (h : Chains book chain) (hs : s ≠ .invalid) : (chain s).Nodup :=
  h.strung.nodup hs

theorem Chains.best_eq (h : Chains book chain) (hs : s ≠ .invalid) :
    book.bestOf s = (chain s).head? := h.strung.best_eq hs

theorem Chains.mem_of_inUse (h : Chains book chain) (hb : book.priceLevelPool.InUse b) :
    b ∈ chain (book.level b).side := (h.mem _ (h.sided b hb) b).2 ⟨hb, rfl⟩

/-- No level of a side is ahead of its best level. -/
theorem Chains.best_ahead (h : Chains book chain) (hs : s ≠ .invalid)
    (hbest : book.bestOf s = some a) (hb : b ∈ chain s) (hne : b ≠ a) :
    ahead s (book.priceOf a) (book.priceOf b) = true := by
  have hsort := h.sorted s hs
  rw [h.best_eq hs] at hbest
  cases hc : chain s with
  | nil => simp [hc] at hb
  | cons x xs =>
    rw [hc, List.head?_cons, Option.some.injEq] at hbest
    rw [hc] at hb hsort
    subst hbest
    exact (List.pairwise_cons.1 hsort).1 b ((List.mem_cons.1 hb).resolve_left hne)

/-! ### The other side -/

theorem bestOf_setBestOf {x : Option (Fin l)} (hs : s ≠ .invalid) (hside : side ≠ .invalid) :
    (book.setBestOf side x).bestOf s = if s = side then x else book.bestOf s := by
  cases s <;> cases side <;> simp_all [bestOf, setBestOf]

/-- Two sides that do not cross, from either of them. -/
theorem uncrossed_iff (hs : s ≠ .invalid) :
    (∀ a ∈ chain .buy, ∀ b ∈ chain .sell, book.priceOf a < book.priceOf b) ↔
      ∀ a ∈ chain s, ∀ b ∈ chain s.opposite,
        World.crosses s (book.priceOf a) (book.priceOf b) = false := by
  cases s with
  | invalid => exact absurd rfl hs
  | buy => simp [World.crosses, OrderSide.opposite]
  | sell =>
    simp only [World.crosses, OrderSide.opposite]
    constructor
    · intro h a ha b hb
      simpa using h b hb a ha
    · intro h a ha b hb
      simpa using h b hb a ha

theorem Chains.not_crosses (h : Chains book chain) (hs : s ≠ .invalid) (ha : a ∈ chain s)
    (hb : b ∈ chain s.opposite) : World.crosses s (book.priceOf a) (book.priceOf b) = false :=
  (uncrossed_iff hs).1 h.uncrossed a ha b hb

/-- A price out of the limit of an order is behind the limit. -/
theorem ahead_of_not_crosses (hs : s ≠ .invalid) (h : World.crosses s p q = false) :
    ahead s q p = true := by
  cases s with
  | invalid => exact absurd rfl hs
  | buy => simpa [World.crosses, ahead] using h
  | sell => simpa [World.crosses, ahead] using h

/-! ### The place of a new level -/

/-- The search for the place of a new level returns on a linked chain. -/
theorem findNext_linked {fuel : ℕ} {p : Option (Fin l)}
    (h : IsLinkedList book.nextLevel p xs) (hfuel : xs.length < fuel) :
    ∃ next, whileLoop .hang (book.isAhead side price) book.toNext fuel p = .ok next := by
  induction xs generalizing p fuel with
  | nil =>
    obtain ⟨fuel, rfl⟩ : ∃ k, fuel = k + 1 := ⟨fuel - 1, by simp at hfuel; omega⟩
    obtain rfl : p = none := h
    exact ⟨none, whileLoop_of_false rfl⟩
  | cons x xs ih =>
    obtain ⟨fuel, rfl⟩ : ∃ k, fuel = k + 1 := ⟨fuel - 1, by simp at hfuel; omega⟩
    obtain ⟨rfl, h⟩ := h
    cases hx : ahead side (book.level x).priceLevel price with
    | false => exact ⟨some x, whileLoop_of_false (congrArg Except.ok hx)⟩
    | true =>
      obtain ⟨next, hnext⟩ := ih h (by simpa using hfuel)
      refine ⟨next, Eq.trans ?_ hnext⟩
      exact whileLoop_of_true (congrArg Except.ok hx) rfl

/-- **The search hangs only where the loop does not end,** whatever fuel it is
given. -/
theorem findNext_hang (h : book.findNext side price = .error .hang) (fuel : ℕ) :
    whileLoop .hang (book.isAhead side price) book.toNext fuel (book.bestOf side) =
      .error .hang := by
  refine whileLoop_hang_of_card (fun next => ?_) (fun next => ?_) ?_ fuel
  · cases next <;> simp [isAhead]
  · cases next <;> simp [toNext]
  · rw [Fintype.card_option, Fintype.card_fin]
    exact h

/-- On a strung book the search for the next level ends, wherever the price
falls. -/
theorem Strung.findNext_ok (h : Strung book chain) (hs : side ≠ .invalid) (price : PriceT) :
    ∃ next, book.findNext side price = .ok next := by
  refine findNext_linked (h.linked side hs) ?_
  have := (h.nodup hs).length_le_card
  rw [Fintype.card_fin] at this
  omega

/-! ### Opening in front -/

/-- A level at `price` would open in front of its side. -/
def InFront (book : OrderBook m l) (side : OrderSide) (price : PriceT) : Prop :=
  ∀ b, book.bestOf side = some b → ahead side price (book.priceOf b) = true

instance : Decidable (InFront book side price) :=
  decidable_of_iff ((book.bestOf side).all fun b => ahead side price (book.priceOf b))
    (Option.all_eq_true _ _)

/-- The search for the place of a level that opens in front ends where it
begins. -/
theorem findNext_of_inFront (hf : InFront book side price) :
    book.findNext side price = .ok (book.bestOf side) := by
  refine whileLoop_of_false ?_
  cases hb : book.bestOf side with
  | none => rfl
  | some b => exact congrArg Except.ok (ahead_asymm (hf b hb))

/-- **A level that opens in front** becomes the best level of its side, before
the old one. -/
structure OpenedInFront (book : OrderBook m l) (price : PriceT) (side : OrderSide)
    (book' : OrderBook m l) (b : Fin l) : Prop extends Inserted book price side book' b where
  best : book'.bestOf side = some b
  others : ∀ s ≠ .invalid, s ≠ side → book'.bestOf s = book.bestOf s
  next : book'.nextLevel b = book.bestOf side
  cursor : book'.priceLevelPool.CursorOk

/-- **A level that goes in front is linked in full,** or the pool is used up: no
level is before it whose `next` could be left as it was. -/
theorem insertPriceLevel_of_inFront (hside : side ≠ .invalid) (hf : InFront book side price)
    (hcur : book.priceLevelPool.CursorOk) :
    (∃ book' b, book.insertPriceLevel price side price = .ok (book', b) ∧
        OpenedInFront book price side book' b) ∨
      book.insertPriceLevel price side price = .error bufferIsFull := by
  rcases ObjectPool.getObject_total hcur
    ({ nextPriceLevel := book.bestOf side, priceLevel := price, side } : OrdersPriceLevel m l) with
    ⟨pool, b, hget, hgot⟩ | ⟨hget, -⟩
  · have hins : book.insertPriceLevel price side price = .ok (({ book with
          priceLevelPool := pool
          priceLevels := AList.insert price (some b) book.priceLevels }).setBestOf side (some b),
        b) := by
      simp only [insertPriceLevel, findNext_of_inFront hf, hget, ok_bind, if_pos, pure_eq_ok]
    refine Or.inl ⟨_, b, hins, insertPriceLevel_ok hins, ?_, fun s hs hne => ?_, ?_, ?_⟩
    · rw [bestOf_setBestOf hside hside, if_pos rfl]
    · rw [bestOf_setBestOf hs hside, if_neg hne]
      rfl
    · rw [nextLevel, level, setBestOf_priceLevelPool, hgot.get, if_pos rfl]
    · rw [setBestOf_priceLevelPool]
      exact hgot.cursor
  · refine Or.inr ?_
    simp only [insertPriceLevel, findNext_of_inFront hf, hget, ok_bind, error_bind]

section OpenedInFront

variable (h : Chains book chain) (ho : OpenedInFront book price side book' b)
include h ho

/-- The new level is on no chain yet. -/
theorem OpenedInFront.ne_of_mem (hs : s ≠ .invalid) (hc : c ∈ chain s) : c ≠ b := fun he =>
  ho.fresh (he ▸ ((h.mem s hs c).1 hc).1)

theorem OpenedInFront.priceOf_of_mem (hs : s ≠ .invalid) (hc : c ∈ chain s) :
    book'.priceOf c = book.priceOf c := by
  rw [priceOf, ho.level_of_ne (ho.ne_of_mem h hs hc), priceOf]

theorem OpenedInFront.nextLevel_of_mem (hs : s ≠ .invalid) (hc : c ∈ chain s) :
    book'.nextLevel c = book.nextLevel c := by
  rw [nextLevel, ho.level_of_ne (ho.ne_of_mem h hs hc), nextLevel]

end OpenedInFront

/-- A price ahead of the best level is ahead of its whole side. -/
theorem Chains.ahead_of_inFront (h : Chains book chain) (hside : side ≠ .invalid)
    (hf : InFront book side price) (hc : c ∈ chain side) :
    ahead side price (book.priceOf c) = true := by
  obtain ⟨x, xs, hx⟩ := List.exists_cons_of_ne_nil (List.ne_nil_of_mem hc)
  have hbest : book.bestOf side = some x := by rw [h.best_eq hside, hx, List.head?_cons]
  rcases eq_or_ne c x with rfl | hcx
  · exact hf c hbest
  · exact ahead_trans (hf x hbest) (h.best_ahead hside hbest hc hcx)

/-- **A level that opens in front is linked in.** -/
theorem Chains.insertFront (h : Chains book chain) (hside : side ≠ .invalid)
    (ho : OpenedInFront book price side book' b) (hf : InFront book side price)
    (hun : ∀ c ∈ chain side.opposite, World.crosses side price (book.priceOf c) = false) :
    Chains book' (Function.update chain side (b :: chain side)) := by
  obtain ⟨next, hself⟩ := ho.level_self
  have hpself : book'.priceOf b = price := by rw [priceOf, hself]
  have hsself : (book'.level b).side = side := by rw [hself]
  refine ⟨fun s hs => ?_, fun s hs => ?_, fun s hs c => ?_, fun c hc => ?_,
    (uncrossed_iff hside).2 fun c hc d hd => ?_⟩
  · have hn := fun c => ho.nextLevel_of_mem h hs (c := c)
    rcases eq_or_ne s side with rfl | hne
    · rw [Function.update_self, ho.best]
      exact (h.linked s hs).push ho.next hn
    · rw [Function.update_of_ne hne, ho.others s hs hne]
      exact (h.linked s hs).congr hn
  · have hsort : (chain s).Pairwise fun a b =>
        ahead s (book'.priceOf a) (book'.priceOf b) = true := by
      refine (h.sorted s hs).imp_of_mem fun {x y} hx hy hxy => ?_
      rwa [ho.priceOf_of_mem h hs hx, ho.priceOf_of_mem h hs hy]
    rcases eq_or_ne s side with rfl | hne
    · rw [Function.update_self]
      refine List.pairwise_cons.2 ⟨fun c hc => ?_, hsort⟩
      rw [hpself, ho.priceOf_of_mem h hs hc]
      exact h.ahead_of_inFront hs hf hc
    · rwa [Function.update_of_ne hne]
  · rw [ho.inUse]
    rcases eq_or_ne c b with rfl | hcb
    · rw [hsself]
      rcases eq_or_ne s side with rfl | hne
      · simp
      · have hno : c ∉ chain s := fun hc => ho.ne_of_mem h hs hc rfl
        simp [Function.update_of_ne hne, hno, hne.symm]
    · rw [ho.level_of_ne hcb]
      rcases eq_or_ne s side with rfl | hne
      · simp [hcb, h.mem s hs c]
      · simp [Function.update_of_ne hne, hcb, h.mem s hs c]
  · rcases eq_or_ne c b with rfl | hcb
    · rwa [hsself]
    · rw [ho.level_of_ne hcb]
      exact h.sided c ((ho.inUse.1 hc).resolve_left hcb)
  · rw [Function.update_self] at hc
    rw [Function.update_of_ne (OrderSide.opposite_ne hside).symm] at hd
    rw [ho.priceOf_of_mem h OrderSide.opposite_ne_invalid hd]
    rcases List.mem_cons.1 hc with rfl | hc
    · rw [hpself]
      exact hun d hd
    · rw [ho.priceOf_of_mem h hside hc]
      exact h.not_crosses hside hc hd

/-! ### Taking a level out -/

/-- The levels of a chain have prices of their own. -/
theorem Strung.priceOf_ne (h : Strung book chain) (xs : List (Fin l)) (hs : s ≠ .invalid)
    (hc : chain s = xs ++ a :: ys) (hb : b ∈ ys) : book.priceOf a ≠ book.priceOf b := by
  have hsort := h.sorted s hs
  rw [hc, List.pairwise_append, List.pairwise_cons] at hsort
  intro he
  have hab := hsort.2.1.1 b hb
  rw [he, ahead_irrefl] at hab
  cases hab

/-- **The search for the predecessor** of a level, from the best level of its
side on. -/
theorem Strung.findPrevious_eq {fuel : ℕ} (h : Strung book chain) (pre mid : List (Fin l))
    (hs : s ≠ .invalid) (hc : chain s = pre ++ mid ++ a :: b :: ys)
    (hx : (mid ++ a :: b :: ys).head? = some first) (hfuel : mid.length < fuel) :
    whileLoop .hang (book.isElsewhere b) book.toPrevious fuel first = .ok a := by
  induction mid generalizing pre first fuel with
  | nil =>
    obtain ⟨fuel, rfl⟩ : ∃ k, fuel = k + 1 := ⟨fuel - 1, by simp at hfuel; omega⟩
    have hl := h.linked s hs
    rw [hc, List.append_nil] at hl
    have hn : (book.level a).nextPriceLevel = some b := hl.next_eq
    obtain rfl : a = first := by simpa using hx
    exact whileLoop_of_false (by simp [isElsewhere, hn])
  | cons x mid ih =>
    obtain ⟨fuel, rfl⟩ : ∃ k, fuel = k + 1 := ⟨fuel - 1, by simp at hfuel; omega⟩
    obtain rfl : x = first := by simpa using hx
    obtain ⟨y, zs, hy, hbz⟩ : ∃ y zs, mid ++ a :: b :: ys = y :: zs ∧ b ∈ zs := by
      cases mid with
      | nil => exact ⟨a, b :: ys, rfl, by simp⟩
      | cons z mid => exact ⟨z, mid ++ a :: b :: ys, rfl, by simp⟩
    have hc' : chain s = pre ++ x :: (mid ++ a :: b :: ys) := by rw [hc]; simp
    have hl := h.linked s hs
    rw [hc', hy] at hl
    have hn : (book.level x).nextPriceLevel = some y := hl.next_eq
    have hne : (book.level y).priceLevel ≠ (book.level b).priceLevel :=
      h.priceOf_ne (pre ++ [x]) hs (by rw [hc', hy]; simp) hbz
    rw [whileLoop_of_true (t := y) (by simp [isElsewhere, hn, hne])
      (by rw [toPrevious, hn, deref_some])]
    exact ih (pre ++ [x]) (by rw [hc']; simp) (by rw [hy, List.head?_cons])
      (by simpa using hfuel)

/-- **The search hangs only where the loop does not end,** whatever fuel it is
given. -/
theorem findPrevious_hang (h : book.findPrevious b first = .error .hang) (fuel : ℕ) :
    whileLoop .hang (book.isElsewhere b) book.toPrevious fuel first = .error .hang := by
  refine whileLoop_hang_of_card (fun previous => ?_) (fun previous => ?_) ?_ fuel
  · cases hn : (book.level previous).nextPriceLevel <;> simp [isElsewhere, hn]
  · cases hn : (book.level previous).nextPriceLevel <;> simp [toPrevious, hn]
  · rw [Fintype.card_fin]
    exact h

theorem nextLevel_dropLevel : (book.dropLevel b).nextLevel c = book.nextLevel c := by
  simp [nextLevel, dropLevel, level]

theorem bestOf_dropLevel : (book.dropLevel b).bestOf s = book.bestOf s := rfl

/-- What taking the level `b` out of its chain leads to. -/
structure Unchained (book : OrderBook m l) (chain : OrderSide → List (Fin l)) (b : Fin l)
    (book' : OrderBook m l) : Prop extends Removed book b book' where
  chains : Chains book' fun s => (chain s).erase b
  others : ∀ s ≠ .invalid, s ≠ (book.level b).side → book'.bestOf s = book.bestOf s

/-- A chain without one of its levels is a chain. -/
theorem Chains.of_removed (h : Chains book chain) (hr : Removed book b book')
    (hl : ∀ s ≠ .invalid, IsLinkedList book'.nextLevel (book'.bestOf s) ((chain s).erase b)) :
    Chains book' fun s => (chain s).erase b where
  linked := hl
  sorted s hs := by
    simp only [priceOf, hr.priceLevel]
    exact (h.sorted s hs).sublist List.erase_sublist
  mem s hs c := by
    rw [(h.nodup hs).mem_erase_iff, h.mem s hs c, hr.inUse, hr.side_eq]
    tauto
  sided c hc := by
    rw [hr.side_eq]
    exact h.sided c ((hr.inUse c).1 hc).1
  uncrossed c hc d hd := by
    simp only [priceOf, hr.priceLevel]
    exact h.uncrossed c (List.mem_of_mem_erase hc) d (List.mem_of_mem_erase hd)

/-- The best level is taken out by moving the best pointer on. -/
theorem unlinkPriceLevel_best
    (hbest : book.bestOf (book.level b).side = some b) :
    book.unlinkPriceLevel b =
      .ok (book.setBestOf (book.level b).side (book.level b).nextPriceLevel) := by
  simp [unlinkPriceLevel, hbest]

/-- Any other level is taken out by moving the pointer of its predecessor on. -/
theorem Strung.unlinkPriceLevel_inner {pre : List (Fin l)} (h : Strung book chain)
    (hs : (book.level b).side ≠ .invalid)
    (hc : chain (book.level b).side = pre ++ a :: b :: ys) :
    book.unlinkPriceLevel b =
      .ok (book.setLevel a
        { book.level a with nextPriceLevel := (book.level b).nextPriceLevel }) := by
  have hnd := h.nodup hs
  obtain ⟨first, zs, hz, hfirst⟩ : ∃ first zs, pre ++ a :: b :: ys = first :: zs ∧ b ∈ zs := by
    cases pre with
    | nil => exact ⟨a, b :: ys, rfl, by simp⟩
    | cons x pre => exact ⟨x, pre ++ a :: b :: ys, rfl, by simp⟩
  have hbest : book.bestOf (book.level b).side = some first := by
    rw [h.best_eq hs, hc, hz, List.head?_cons]
  have hne : b ≠ first := by
    rintro rfl
    rw [hc, hz] at hnd
    exact (List.nodup_cons.1 hnd).1 hfirst
  have hlen : pre.length < l := by
    have := hnd.length_le_card
    rw [hc, Fintype.card_fin] at this
    simp only [List.length_append, List.length_cons] at this
    omega
  have hprev : book.findPrevious b first = .ok a :=
    h.findPrevious_eq [] pre hs (by simpa using hc) (by rw [hz, List.head?_cons])
      hlen
  simp [unlinkPriceLevel, hbest, hne, hprev]

/-- Erasing an element that is not the first takes it from behind the one
before. -/
theorem erase_behind {pre : List (Fin l)} (h : (pre ++ a :: b :: ys).Nodup) :
    (pre ++ a :: b :: ys).erase b = pre ++ a :: ys := by
  have hsplit : pre ++ a :: b :: ys = (pre ++ [a]) ++ b :: ys := by simp
  rw [hsplit] at h ⊢
  have hb : b ∉ pre ++ [a] := fun hmem => (List.nodup_append.1 h).2.2 b hmem b (by simp) rfl
  rw [List.erase_append_right _ hb, List.erase_cons_head]
  simp

/-- **Any level of a chain can be unlinked:** its predecessor is found, or it is
the best level. -/
theorem Strung.unlink (h : Strung book chain) (hs : (book.level b).side ≠ .invalid)
    (hb : b ∈ chain (book.level b).side) :
    ∃ book', book.unlinkPriceLevel b = .ok book' ∧
      (∀ s ≠ .invalid, IsLinkedList book'.nextLevel (book'.bestOf s) ((chain s).erase b)) ∧
      ∀ s ≠ .invalid, s ≠ (book.level b).side → book'.bestOf s = book.bestOf s := by
  have hnot : ∀ t ≠ .invalid, t ≠ (book.level b).side → (chain t).erase b = chain t :=
    fun t ht hne => List.erase_of_not_mem fun hbt => hne (h.side t ht b hbt).symm
  have hl := h.linked _ hs
  have hnd := h.nodup hs
  obtain ⟨zs, ys, hc⟩ := List.append_of_mem hb
  rcases List.eq_nil_or_concat zs with rfl | ⟨pre, a, rfl⟩
  · rw [List.nil_append] at hc
    rw [hc] at hl
    refine ⟨_, unlinkPriceLevel_best hl.1, fun t ht => ?_, fun t ht hne => ?_⟩
    · have hn : (book.setBestOf (book.level b).side (book.level b).nextPriceLevel).nextLevel =
          book.nextLevel := by
        funext c
        rw [nextLevel, level, setBestOf_priceLevelPool]
        rfl
      rw [hn, bestOf_setBestOf ht hs]
      split_ifs with hts
      · rw [hts, hc, List.erase_cons_head]
        exact hl.2
      · rw [hnot t ht hts]
        exact h.linked t ht
    · rw [bestOf_setBestOf ht hs, if_neg hne]
  · have hc' : chain (book.level b).side = pre ++ a :: b :: ys := by simpa using hc
    have hn : (book.setLevel a { book.level a with
        nextPriceLevel := (book.level b).nextPriceLevel }).nextLevel =
        Function.update book.nextLevel a (book.nextLevel b) := by
      funext c
      rw [nextLevel, level_setLevel, Function.update_apply]
      split_ifs <;> rfl
    have ha : a ∈ chain (book.level b).side := by simp [hc']
    refine ⟨_, h.unlinkPriceLevel_inner hs hc', fun t ht => ?_, fun t _ _ => bestOf_setLevel⟩
    rw [hn, bestOf_setLevel]
    rcases eq_or_ne t (book.level b).side with rfl | hts
    · rw [hc'] at hl hnd ⊢
      rw [erase_behind hnd]
      exact hl.unlink hnd (Function.update_self ..) fun c _ hca => Function.update_of_ne hca ..
    · rw [hnot t ht hts]
      refine (h.linked t ht).congr fun c hct => Function.update_of_ne ?_ ..
      rintro rfl
      exact hts ((h.side t ht _ hct).symm.trans (h.side _ hs _ ha))

/-- **Any level in use can be taken out.** -/
theorem Chains.remove (h : Chains book chain) (hb : book.priceLevelPool.InUse b) :
    ∃ book', book.removePriceLevel b = .ok book' ∧ Unchained book chain b book' := by
  obtain ⟨book₁, hu, hl, hothers⟩ := h.strung.unlink (h.sided b hb) (h.mem_of_inUse hb)
  have hr := removed_dropLevel (unlinkPriceLevel_ok hu) hb
  have hn : (book₁.dropLevel b).nextLevel = book₁.nextLevel := funext fun _ => nextLevel_dropLevel
  refine ⟨_, removePriceLevel_eq hu hb, hr, h.of_removed hr fun s hs => ?_, hothers⟩
  rw [hn, bestOf_dropLevel]
  exact hl s hs

end OrderBook

end CppExchange
