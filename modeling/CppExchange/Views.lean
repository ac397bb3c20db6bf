import CppExchange.Library.Relabel
import CppExchange.PoolCursor
import CppExchange.PriceLevel

/-!
# Objects seen another way

Much of what an order or a level holds is copied, and never read by the code that
moves the object about.  A `View` changes orders and levels in such places: it
leaves the links, the ids and the top orders, which the queues of the levels are
made of, as they are.  So a queue of objects seen through a view is worked on as the
objects are (`View.add`, `View.cancel`), a pool gives out and takes back the same
blocks whatever is in them (`ObjectPool.getObject_map`,
`ObjectPool.releaseObject_map`), and a map with other values is looked up as it was
(`UnorderedMap.index_relabel`).
-/

namespace CppExchange

open Library

/-- A way to see orders and levels that leaves alone what the queues are made
of. -/
structure View (m l : ℕ) where
  order : Order m → Order m
  level : OrdersPriceLevel m l → OrdersPriceLevel m l
  order_next : ∀ o p, order { o with next := p } = { order o with next := p }
  order_previous : ∀ o p, order { o with previous := p } = { order o with previous := p }
  next : ∀ o, (order o).next = o.next
  previous : ∀ o, (order o).previous = o.previous
  orderId : ∀ o, (order o).orderId = o.orderId
  topOrder : ∀ lvl, (level lvl).topOrder = lvl.topOrder
  level_topOrder : ∀ lvl top,
    level { lvl with topOrder := top } = { level lvl with topOrder := top }
  level_side : ∀ lvl top o, level { lvl with topOrder := top, side := (o : Order m).side } =
    { level lvl with topOrder := top, side := (order o).side }

namespace View

variable {m l : ℕ} (v : View m l) {heap : Fin m → Order m} {o top : Fin m} {p : Option (Fin m)}
  {orderId : OrderIdT} {lvl : OrdersPriceLevel m l}

/-- The orders of a memory. -/
def onHeap (heap : Fin m → Order m) : Fin m → Order m := fun o => v.order (heap o)

/-- Writing an order and looking at it through the view is writing what the view
makes of it. -/
theorem onHeap_update {order : Order m} : v.onHeap (Function.update heap o order) =
    Function.update (v.onHeap heap) o (v.order order) := by
  funext x
  simp only [View.onHeap, Function.update_apply]
  split_ifs <;> rfl

theorem onHeap_setNext : setNext (v.onHeap heap) o p = v.onHeap (setNext heap o p) := by
  rw [setNext, setNext, onHeap_update, order_next]
  rfl

theorem onHeap_setPrevious : setPrevious (v.onHeap heap) o p = v.onHeap (setPrevious heap o p) := by
  rw [setPrevious, setPrevious, onHeap_update, order_previous]
  rfl

theorem next_onHeap : (v.onHeap heap o).next = (heap o).next := v.next _

theorem previous_onHeap : (v.onHeap heap o).previous = (heap o).previous := v.previous _

/-- **A level adds** an order as it does without the view. -/
theorem add : (v.level lvl).add (v.onHeap heap) o =
    (lvl.add heap o).map fun r => (v.level r.1, v.onHeap r.2) := by
  unfold OrdersPriceLevel.add
  rw [v.topOrder]
  cases lvl.topOrder with
  | none =>
    simp only [onHeap_setNext, onHeap_setPrevious]
    exact congrArg Except.ok (Prod.ext (v.level_side ..).symm rfl)
  | some top =>
    simp only [onHeap_setNext, onHeap_setPrevious, previous_onHeap]
    cases (setPrevious (setNext heap o (some top)) o
      (setNext heap o (some top) top).previous o).previous with
    | none => rfl
    | some previous => rfl

/-- The search of a ring follows links and ids, which the view keeps. -/
theorem search : OrdersPriceLevel.search (v.onHeap heap) top orderId =
    OrdersPriceLevel.search heap top orderId := by
  have hid : ∀ x, (v.onHeap heap x).orderId = (heap x).orderId := fun x => v.orderId _
  unfold OrdersPriceLevel.search OrdersPriceLevel.searching
  simp only [hid, next_onHeap, previous_onHeap]

/-- Unlinking rewrites links alone. -/
theorem unlink : OrdersPriceLevel.unlink (v.onHeap heap) top o =
    (OrdersPriceLevel.unlink heap top o).map fun r => (r.1, v.onHeap r.2) := by
  unfold OrdersPriceLevel.unlink
  rw [next_onHeap, previous_onHeap]
  cases (heap o).previous with
  | none => rfl
  | some previous =>
    simp only [deref_some, ok_bind, onHeap_setNext, next_onHeap, previous_onHeap]
    cases (setNext heap previous (heap o).next o).next with
    | none => rfl
    | some next =>
      simp only [deref_some, ok_bind, onHeap_setPrevious, onHeap_setNext, next_onHeap]
      rfl

/-- **A level cancels** as it does without the view. -/
theorem cancel : (v.level lvl).cancel (v.onHeap heap) orderId =
    (lvl.cancel heap orderId).map fun r => (v.level r.1, v.onHeap r.2.1, r.2.2) := by
  unfold OrdersPriceLevel.cancel
  rw [v.topOrder]
  cases lvl.topOrder with
  | none => rfl
  | some top =>
    rw [deref_some, ok_bind, ok_bind, search]
    cases OrdersPriceLevel.search heap top orderId with
    | error e => rfl
    | ok order =>
      rw [ok_bind, ok_bind, show (v.onHeap heap order).orderId = (heap order).orderId from
        v.orderId _]
      split_ifs
      · rw [unlink]
        cases OrdersPriceLevel.unlink heap top order with
        | error e => rfl
        | ok r => exact congrArg Except.ok (Prod.ext (v.level_topOrder ..).symm rfl)
      · rfl

end View

/-! ### Pools -/

namespace ObjectPool

variable {T : Type} {n : ℕ} {pool : ObjectPool T n} {f : T → T} {object : T} {p : Fin n} {i : ℕ}

/-- The pool with its objects changed. -/
def map (f : T → T) (pool : ObjectPool T n) : ObjectPool T n :=
  { pool with store := fun p => { pool.store p with object := f (pool.get p) } }

theorem map_setHeap {heap : Fin n → T} :
    (pool.setHeap heap).map f = (pool.map f).setHeap (f ∘ heap) := rfl

/-- Taking a block stores the object as the view has it. -/
theorem map_take :
    (pool.take p object).map f = (pool.map f).take p (f object) := by
  unfold map take get
  congr 1
  funext q
  simp only [Function.update_apply]
  split_ifs <;> rfl

/-- Giving a block back leaves its object to be viewed. -/
theorem map_release : (pool.release p).map f = (pool.map f).release p := by
  unfold map release get
  congr 1
  funext q
  simp only [Function.update_apply]
  split_ifs with hq
  · subst hq
    rfl
  · rfl

/-- The cursor goes by the flags of the blocks, whatever is stored in them. -/
theorem updateNextFree_map : (pool.map f).updateNextFree = pool.updateNextFree.map (map f) := by
  unfold updateNextFree
  rw [show (pool.map f).taken = pool.taken from rfl,
    show (pool.map f).nextFree = pool.nextFree from rfl]
  dsimp only
  cases whileLoop .hang pool.taken (advance n pool.nextFree) n pool.nextFree with
  | error e => rfl
  | ok i => rfl

/-- **A pool of changed objects** gives out the same blocks. -/
theorem getObject_map : (pool.map f).getObject (f object) =
    (pool.getObject object).map fun r => (r.1.map f, r.2) := by
  unfold getObject
  rw [show (pool.map f).index = pool.index from rfl,
    show (pool.map f).nextFree = pool.nextFree from rfl]
  cases pool.index pool.nextFree with
  | error e => rfl
  | ok p =>
    rw [ok_bind, ok_bind, show ((pool.map f).store p).available = (pool.store p).available from rfl]
    cases assert (pool.store p).available
        ("Expected free ObjectBlock at index: " ++ toString pool.nextFree) with
    | error e => rfl
    | ok _ =>
      have htake : (pool.map f).take p (f object) = (pool.take p object).map f := map_take.symm
      show ((pool.map f).take p (f object)).updateNextFree >>= _ =
        ((pool.take p object).updateNextFree >>= _).map _
      rw [htake, updateNextFree_map]
      cases (pool.take p object).updateNextFree with
      | error e => rfl
      | ok pool₁ => rfl

/-- A release, with the checks it makes, goes by the flags as well. -/
theorem releaseObject_map : (pool.map f).releaseObject i = (pool.releaseObject i).map (map f) := by
  unfold releaseObject
  rw [show (pool.map f).index = pool.index from rfl]
  cases assert (decide (i < n)) "Element being freed does not belong to this object pool." with
  | error e => rfl
  | ok _ =>
    rw [ok_bind, ok_bind]
    cases pool.index i with
    | error e => rfl
    | ok p =>
      rw [ok_bind, ok_bind,
        show ((pool.map f).store p).available = (pool.store p).available from rfl]
      cases assert (!(pool.store p).available)
          "Attempting to free an already available ObjectBlock." with
      | error e => rfl
      | ok _ => exact congrArg Except.ok map_release.symm

end ObjectPool

/-! ### Maps -/

/-- `m[k]` under another name. -/
theorem UnorderedMap.index_relabel {K K' V V' : Type} [DecidableEq K] [DecidableEq K'] {f : K ↪ K'}
    {g : Option V → Option V'} (hg : g none = none) {m : UnorderedMap K (Option V)} {k : K} :
    index (relabel f g m) (f k) = (relabel f g (index m k).1, g (index m k).2) := by
  unfold index
  rw [lookup_relabel]
  cases AList.lookup k m with
  | some v => rfl
  | none =>
    simp only [Option.map_none, insert_relabel, hg]

end CppExchange
