import CppExchange.Typedefs
import CppExchange.Library.While

/-!
# The object pool

`include/utils/object_pool.h`: a vector of blocks, each an object and a flag,
and the cursor `next_free`.  `getObject` constructs an object in the block under
the cursor and then moves the cursor on to the next available block, failing
with "Buffer is full." when the search comes back to where it began.

A pointer into a pool of `n` blocks is a block index, `Fin n`; the object under
a pointer stays in memory after its block was released.
-/

namespace CppExchange

open Library

/-- `ObjectPool<T>::ObjectBlock`. -/
structure ObjectBlock (T : Type) where
  object : T
  available : Bool := true

/-- `ObjectPool<T>` of `n` blocks. -/
structure ObjectPool (T : Type) (n : ℕ) where
  store : Fin n → ObjectBlock T
  nextFree : ℕ := 0

/-- The exit of `updateNextFree` that the exchange takes when a pool runs out. -/
def bufferIsFull : Fault := .assert "Buffer is full."

namespace ObjectPool

variable {T : Type} {n : ℕ}

/-- `ObjectPool(size)`. -/
def new [Inhabited T] (n : ℕ) : ObjectPool T n where
  store _ := { object := default }

/-- The object under a pointer. -/
def get (pool : ObjectPool T n) (p : Fin n) : T := (pool.store p).object

/-- The objects of the pool as a memory. -/
def heap (pool : ObjectPool T n) : Fin n → T := pool.get

/-- The pool over a changed memory: blocks stay available or in use. -/
def setHeap (pool : ObjectPool T n) (heap : Fin n → T) : ObjectPool T n :=
  { pool with store := fun p => { pool.store p with object := heap p } }

/-- Writing an object through a pointer. -/
def set (pool : ObjectPool T n) (p : Fin n) (object : T) : ObjectPool T n :=
  pool.setHeap (Function.update pool.heap p object)

/-- Whether the block of a pointer is in use. -/
def InUse (pool : ObjectPool T n) (p : Fin n) : Prop := (pool.store p).available = false

instance (pool : ObjectPool T n) (p : Fin n) : Decidable (pool.InUse p) :=
  inferInstanceAs (Decidable (_ = _))

/-- `store[i]`. -/
def index (_pool : ObjectPool T n) (i : ℕ) : Except Fault (Fin n) :=
  if h : i < n then .ok ⟨i, h⟩ else .error .outOfBounds

/-- The test of the loop of `updateNextFree`. -/
def taken (pool : ObjectPool T n) (i : ℕ) : Except Fault Bool := do
  let p ← pool.index i
  return !(pool.store p).available

/-- The body of the loop of `updateNextFree`. -/
def advance (n prevFree i : ℕ) : Except Fault ℕ := do
  let i := i + 1
  let i := if i = n then 0 else i
  if i = prevFree then
    assert (i != prevFree) "Buffer is full."
  return i

/-- `updateNextFree`. -/
def updateNextFree (pool : ObjectPool T n) : Except Fault (ObjectPool T n) := do
  let prevFree := pool.nextFree
  let nextFree ← whileLoop .hang pool.taken (advance n prevFree) n pool.nextFree
  return { pool with nextFree }

/-- `getObject(args...)`, `object` being `T(args...)`. -/
def getObject (pool : ObjectPool T n) (object : T) : Except Fault (ObjectPool T n × Fin n) := do
  let p ← pool.index pool.nextFree
  assert (pool.store p).available
    ("Expected free ObjectBlock at index: " ++ toString pool.nextFree)
  let pool := { pool with store := Function.update pool.store p { object, available := false } }
  let pool ← pool.updateNextFree
  return (pool, p)

/-- `releaseObject(object)`, by the index of the object's block. -/
def releaseObject (pool : ObjectPool T n) (objectIndex : ℕ) : Except Fault (ObjectPool T n) := do
  assert (decide (objectIndex < n)) "Element being freed does not belong to this object pool."
  let p ← pool.index objectIndex
  assert (!(pool.store p).available) "Attempting to free an already available ObjectBlock."
  return { pool with
    store := Function.update pool.store p { pool.store p with available := true } }

end ObjectPool

end CppExchange
