import CppExchange.Order

/-!
# What a price level does

The two operations of a price level as edits of the ring of its orders.
`add_spec`: the order is linked in behind the last one.  `cancel_hit`: the
first order with the id is taken out, wherever it stands, and is left with null
links.  `cancel_miss`: without such an order nothing changes.  Either way the
orders keep everything but their links (`Order.body`), and orders outside the
ring are not touched.
-/

namespace CppExchange

open Library

variable {m l : ℕ} {heap heap' : Fin m → Order m} {o x top : Fin m} {p : Option (Fin m)}
  {xs ys : List (Fin m)} {orderId : OrderIdT}

/-- An order without its links. -/
def Order.body (order : Order m) : Order m := { order with previous := none, next := none }

/-- The orders `xs` form a ring in the memory. -/
def RingAt (heap : Fin m → Order m) (xs : List (Fin m)) : Prop :=
  IsRing (nextOf heap) (previousOf heap) xs

/-! ### Writing a link -/

/-- Writing a `next` field moves that one pointer. -/
@[simp] theorem nextOf_setNext :
    nextOf (setNext heap o p) = Function.update (nextOf heap) o p := by
  funext y
  simp only [nextOf, setNext, Function.update_apply]
  split_ifs <;> rfl

/-- Writing a `previous` field moves no `next` pointer. -/
@[simp] theorem nextOf_setPrevious : nextOf (setPrevious heap o p) = nextOf heap := by
  funext y
  simp only [nextOf, setPrevious, Function.update_apply]
  split_ifs with h
  · rw [h]
  · rfl

/-- Writing a `next` field moves no `previous` pointer. -/
@[simp] theorem previousOf_setNext : previousOf (setNext heap o p) = previousOf heap := by
  funext y
  simp only [previousOf, setNext, Function.update_apply]
  split_ifs with h
  · rw [h]
  · rfl

/-- Writing a `previous` field moves that one pointer. -/
@[simp] theorem previousOf_setPrevious :
    previousOf (setPrevious heap o p) = Function.update (previousOf heap) o p := by
  funext y
  simp only [previousOf, setPrevious, Function.update_apply]
  split_ifs <;> rfl

/-- What an order says of itself stays when its `next` is written. -/
@[simp] theorem body_setNext : (setNext heap o p x).body = (heap x).body := by
  simp only [setNext, Function.update_apply]
  split_ifs with h
  · rw [h]
    rfl
  · rfl

/-- What an order says of itself stays when its `previous` is written. -/
@[simp] theorem body_setPrevious : (setPrevious heap o p x).body = (heap x).body := by
  simp only [setPrevious, Function.update_apply]
  split_ifs with h
  · rw [h]
    rfl
  · rfl

theorem setNext_of_ne (h : x ≠ o) : setNext heap o p x = heap x := Function.update_of_ne h _ _

theorem setPrevious_of_ne (h : x ≠ o) : setPrevious heap o p x = heap x :=
  Function.update_of_ne h _ _

theorem next_eq_nextOf : (heap o).next = nextOf heap o := rfl

theorem previous_eq_previousOf : (heap o).previous = previousOf heap o := rfl

/-- Orders with the same body agree on everything that does not read links. -/
theorem eq_of_body {α : Type} {a b : Order m} (f : Order m → α)
    (hf : ∀ order, f order.body = f order) (h : a.body = b.body) : f a = f b := by
  rw [← hf a, h, hf b]

/-! ### `add` -/

namespace OrdersPriceLevel

variable {level : OrdersPriceLevel m l}

/-- **`add` appends.** -/
theorem add_spec (hr : RingAt heap xs) (ht : level.topOrder = xs.head?) (ho : o ∉ xs) :
    ∃ heap', level.add heap o = .ok
        ({ level with
            topOrder := (xs ++ [o]).head?
            side := if xs = [] then (heap o).side else level.side }, heap') ∧
      RingAt heap' (xs ++ [o]) ∧ (∀ x, (heap' x).body = (heap x).body) ∧
      ∀ x, x ∉ xs → x ≠ o → heap' x = heap x := by
  cases xs with
  | nil =>
    rw [List.head?_nil] at ht
    refine ⟨setPrevious (setNext heap o (some o)) o (some o), ?_, ?_, ?_, ?_⟩
    · simp [add, ht, setPrevious, setNext]
    · exact isRing_singleton.2 (by simp)
    · simp
    · intro x _ hx
      rw [setPrevious_of_ne hx, setNext_of_ne hx]
  | cons top xs =>
    rw [List.head?_cons] at ht
    have hto : top ≠ o := fun h => ho (by simp [h])
    set last := (top :: xs).getLast (List.cons_ne_nil top xs) with hlast
    have hlm : last ∈ top :: xs := List.getLast_mem _
    have hlo : last ≠ o := fun h => ho (h ▸ hlm)
    have hp : previousOf heap top = some last := IsRing.prev_head hr
    have h₁ : (setNext heap o (some top) top).previous = some last := by
      rw [setNext_of_ne hto]
      exact hp
    have h₂ : (setPrevious (setNext heap o (some top)) o (some last) o).previous = some last := by
      rw [previous_eq_previousOf]
      simp
    refine ⟨setPrevious (setNext (setPrevious (setNext heap o (some top)) o (some last)) last
      (some o)) top (some o), ?_, ?_, ?_, ?_⟩
    · simp [add, ht, h₁, h₂]
      rw [← ht]
    · refine IsRing.concat (b := last) hr ho hlast.symm ?_ ?_ ?_ ?_ ?_ ?_
      · simp [Function.update_of_ne hlo.symm]
      · simp [Function.update_of_ne hto.symm]
      · simp
      · simp
      · intro y hy hyl
        have hyo : y ≠ o := fun h => ho (h ▸ hy)
        simp [Function.update_of_ne hyl, Function.update_of_ne hyo]
      · intro y hy hyt
        have hyo : y ≠ o := fun h => ho (h ▸ hy)
        simp [Function.update_of_ne hyt, Function.update_of_ne hyo]
    · simp
    · intro x hx hxo
      have hxt : x ≠ top := fun h => hx (by simp [h])
      have hxl : x ≠ last := fun h => hx (h ▸ hlm)
      rw [setPrevious_of_ne hxt, setNext_of_ne hxl, setPrevious_of_ne hxo, setNext_of_ne hxo]

/-! ### `cancel` -/

/-- The search from an order of the ring stops at the first order with the id,
or at the last order. -/
theorem search_from {fuel : ℕ} (ys : List (Fin m)) (hr : RingAt heap (ys ++ x :: xs))
    (ht : (ys ++ x :: xs).head? = some top) (hf : xs.length < fuel) :
    whileLoop .hang (searching heap top orderId) (fun order => deref (heap order).next) fuel x =
      .ok (((x :: xs).find? fun y => (heap y).orderId = orderId).getD
        ((x :: xs).getLast (List.cons_ne_nil x xs))) := by
  have hp : (heap top).previous = some ((x :: xs).getLast (List.cons_ne_nil x xs)) := by
    refine (hr.close _ ?_ top ht).2
    rw [List.getLast?_append_of_ne_nil _ (List.cons_ne_nil x xs)]
    exact List.getLast?_eq_some_getLast _
  induction xs generalizing ys x fuel with
  | nil =>
    obtain ⟨fuel, rfl⟩ : ∃ k, fuel = k + 1 := ⟨fuel - 1, by simp at hf; omega⟩
    rw [whileLoop_of_false (by simp [searching, hp])]
    by_cases hx : (heap x).orderId = orderId <;> simp [hx]
  | cons y xs ih =>
    obtain ⟨fuel, rfl⟩ : ∃ k, fuel = k + 1 := ⟨fuel - 1, by simp at hf; omega⟩
    by_cases hx : (heap x).orderId = orderId
    · rw [whileLoop_of_false (by simp [searching, hx])]
      simp [hx]
    · have hnd : (x :: y :: xs).Nodup := (List.nodup_append.1 hr.nodup).2.1
      have hxl : x ≠ (y :: xs).getLast (List.cons_ne_nil _ _) :=
        fun h => (List.nodup_cons.1 hnd).1 (h ▸ List.getLast_mem _)
      have hn : (heap x).next = some y := hr.next_eq
      rw [whileLoop_of_true (t := y) (by simp [searching, hx, hp, hxl]) (by rw [hn, deref_some]),
        ih (ys ++ [x]) (by simpa using hr) (by simpa using ht) (by simpa using hf)
          (by simpa using hp)]
      simp [hx]

theorem length_le_of_ring (hr : RingAt heap xs) : xs.length ≤ m := by
  simpa using hr.nodup.length_le_card

/-- The search stops at the first order with the id, or at the last order. -/
theorem search_eq (hr : RingAt heap (x :: xs)) :
    search heap x orderId = .ok (((x :: xs).find? fun y => (heap y).orderId = orderId).getD
      ((x :: xs).getLast (List.cons_ne_nil x xs))) :=
  search_from [] hr rfl (length_le_of_ring hr)

/-- **`cancel` without an order of that id** changes nothing. -/
theorem cancel_miss (hr : RingAt heap xs) (ht : level.topOrder = xs.head?) (hne : xs ≠ [])
    (h : ∀ x ∈ xs, (heap x).orderId ≠ orderId) :
    level.cancel heap orderId = .ok (level, heap, none) := by
  cases xs with
  | nil => exact absurd rfl hne
  | cons x xs =>
    have hfind : ((x :: xs).find? fun y => (heap y).orderId = orderId) = none := by
      simpa [List.find?_eq_none] using h
    have hlast := h _ (List.getLast_mem (List.cons_ne_nil x xs))
    rw [cancel, ht, List.head?_cons, deref_some, ok_bind, search_eq hr, hfind]
    simp [hlast]

/-- The removal branch takes the order `o` of the ring `o, rest` out. -/
theorem unlink_spec (hr : RingAt heap (o :: xs)) (htop : top ∈ o :: xs) :
    ∃ heap', unlink heap top o = .ok (if top = o then xs.head? else some top, heap') ∧
      RingAt heap' xs ∧ (∀ x, (heap' x).body = (heap x).body) ∧
      (∀ x, x ∉ o :: xs → heap' x = heap x) ∧ (heap' o).next = none ∧
      (heap' o).previous = none := by
  cases xs with
  | nil =>
    obtain ⟨hn, hp⟩ := isRing_singleton.1 hr
    rw [List.mem_singleton] at htop
    subst htop
    refine ⟨setNext (setPrevious (setPrevious (setNext heap top (some top)) top (some top)) top
      none) top none, ?_, IsRing.nil, by simp, ?_, ?_, ?_⟩
    · simp [unlink, next_eq_nextOf, previous_eq_previousOf, hn, hp]
    · intro x hx
      have hxt : x ≠ top := fun h => hx (by simp [h])
      simp [setNext_of_ne hxt, setPrevious_of_ne hxt]
    · simp [next_eq_nextOf]
    · simp [previous_eq_previousOf]
  | cons f xs =>
    set last := (f :: xs).getLast (List.cons_ne_nil f xs) with hlast
    have hlm : last ∈ f :: xs := List.getLast_mem _
    have hnd := List.nodup_cons.1 hr.nodup
    have hfo : f ≠ o := fun h => hnd.1 (by simp [h])
    have hlo : last ≠ o := fun h => hnd.1 (h ▸ hlm)
    have hn : nextOf heap o = some f :=
      IsRing.next_eq (show RingAt heap ([] ++ o :: f :: xs) from hr)
    have hp : previousOf heap o = some last := by
      have h := IsRing.prev_head hr
      rwa [List.getLast_cons_cons] at h
    refine ⟨setNext (setPrevious (setPrevious (setNext heap last (some f)) f (some last)) o none) o
      none, ?_, ?_, by simp, ?_, ?_, ?_⟩
    · by_cases ht : top = o
      · subst ht
        simp [unlink, next_eq_nextOf, previous_eq_previousOf, hn, hp,
          Function.update_of_ne hlo.symm, hfo]
      · simp [unlink, next_eq_nextOf, previous_eq_previousOf, hn, hp,
          Function.update_of_ne hlo.symm, ht]
    · refine IsRing.unlink (b := last) hr hlast.symm ?_ ?_ ?_ ?_
      · simp [Function.update_of_ne hlo]
      · simp [Function.update_of_ne hfo]
      · intro y hy hyl
        have hyo : y ≠ o := fun h => hnd.1 (h ▸ hy)
        simp [Function.update_of_ne hyl, Function.update_of_ne hyo]
      · intro y hy hyf
        have hyo : y ≠ o := fun h => hnd.1 (h ▸ hy)
        simp [Function.update_of_ne hyf, Function.update_of_ne hyo]
    · intro x hx
      have hxo : x ≠ o := fun h => hx (by simp [h])
      have hxf : x ≠ f := fun h => hx (by simp [h])
      have hxl : x ≠ last := fun h => hx (by rw [h]; exact List.mem_cons_of_mem o hlm)
      simp [setNext_of_ne hxo, setPrevious_of_ne hxo, setPrevious_of_ne hxf, setNext_of_ne hxl]
    · simp [next_eq_nextOf]
    · simp [previous_eq_previousOf]

/-- **`cancel` takes out the first order of that id.** -/
theorem cancel_hit (hr : RingAt heap (xs ++ o :: ys)) (ht : level.topOrder = (xs ++ o :: ys).head?)
    (hxs : ∀ x ∈ xs, (heap x).orderId ≠ orderId) (ho : (heap o).orderId = orderId) :
    ∃ heap', level.cancel heap orderId =
        .ok ({ level with topOrder := (xs ++ ys).head? }, heap', some o) ∧
      RingAt heap' (xs ++ ys) ∧ (∀ x, (heap' x).body = (heap x).body) ∧
      (∀ x, x ∉ xs ++ o :: ys → heap' x = heap x) ∧ (heap' o).next = none ∧
      (heap' o).previous = none := by
  obtain ⟨top, rest, hcons⟩ : ∃ top rest, xs ++ o :: ys = top :: rest :=
    List.exists_cons_of_ne_nil (by simp)
  have hfind : ((top :: rest).find? fun y => (heap y).orderId = orderId) = some o := by
    rw [← hcons, List.find?_append, List.find?_eq_none.2 (by simpa using hxs)]
    simp [ho]
  have hsearch : search heap top orderId = .ok o := by
    rw [search_eq (hcons ▸ hr), hfind]
    rfl
  have htop : top ∈ o :: (ys ++ xs) := by
    have : top ∈ xs ++ o :: ys := by simp [hcons]
    simp only [List.mem_append, List.mem_cons] at this ⊢
    tauto
  have hrot : RingAt heap (o :: (ys ++ xs)) := by
    have h := IsRing.rotate hr
    rwa [List.cons_append] at h
  obtain ⟨heap', hu, hring, hbody, hframe, hnull⟩ := unlink_spec hrot htop
  refine ⟨heap', ?_, IsRing.rotate hring, hbody, fun x hx => hframe x ?_, hnull⟩
  · have htops : (if top = o then (ys ++ xs).head? else some top) = (xs ++ ys).head? := by
      cases xs with
      | nil =>
        obtain ⟨rfl, -⟩ := List.cons.inj hcons
        simp
      | cons x xs =>
        obtain ⟨rfl, -⟩ := List.cons.inj hcons
        have hne : x ≠ o := by
          rintro rfl
          exact (List.nodup_cons.1 hr.nodup).1 (by simp)
        simp [hne]
    rw [cancel, ht, hcons, List.head?_cons, deref_some, ok_bind, hsearch, ok_bind, if_pos ho, hu,
      htops]
    rfl
  · simp only [List.mem_append, List.mem_cons] at hx ⊢
    tauto

/-- The walk from the top order meets exactly the ring. -/
theorem orders_eq (hr : RingAt heap xs) (ht : level.topOrder = xs.head?) :
    level.orders heap = xs := by
  rw [orders, ht, ringFrom_eq hr (length_le_of_ring hr)]

end OrdersPriceLevel

end CppExchange
