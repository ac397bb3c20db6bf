import CppExchange.Library.Fallible
import Mathlib.Data.List.AList
import Mathlib.Logic.Function.Basic

/-!
# Types, constants and faults

`include/cppexchange/typedefs.h`, `constants.h` and `utils/macros.h`, and the
two pieces of the language the rest of the model is written in: a pointer that
may be null, dereferenced by `deref`, and `std::unordered_map` with its
`operator[]`, which inserts a value-initialised entry on a miss.

A call that does not return is an error of type `Fault`: it failed an `ASSERT`
(the macro prints its message and exits), dereferenced null, indexed a vector
out of its bounds, or did not leave a loop.
-/

namespace CppExchange

open Library

abbrev TickerIdT := UInt32
abbrev OrderIdT := UInt32
abbrev TradeIdT := UInt32
abbrev ClientIdT := UInt32
abbrev QuantityT := UInt32
abbrev PriceT := UInt64

/-- `long long`. -/
abbrev NsTimestampT := Int64

/-- `std::numeric_limits<OrderIdT>::max()`. -/
def orderIdInvalid : OrderIdT := 0xFFFFFFFF

/-- `std::numeric_limits<TradeIdT>::max()`. -/
def tradeIdInvalid : TradeIdT := 0xFFFFFFFF

/-- `typedefs.h` takes the limit of `OrderIdT`, of the same width. -/
def tickerIdInvalid : TickerIdT := 0xFFFFFFFF

def clientIdInvalid : ClientIdT := 0xFFFFFFFF
def quantityInvalid : QuantityT := 0xFFFFFFFF
def priceInvalid : PriceT := 0xFFFFFFFFFFFFFFFF
def nsTimestampInvalid : NsTimestampT := Int64.maxValue

/-- `Constants::MAX_TICKERS`. -/
def maxTickers : ℕ := 16

/-- `Constants::MAX_ORDER_IDS`, `1 << 23`. -/
def maxOrderIds : ℕ := 8388608

/-- `Constants::MAX_PRICE_LEVELS`, `128 * 1024`. -/
def maxPriceLevels : ℕ := 131072

/-- `Orders::OrderSide`. -/
inductive OrderSide
  | invalid
  | buy
  | sell
  deriving DecidableEq, Repr

/-- The side an order trades against. -/
def OrderSide.opposite : OrderSide → OrderSide
  | .buy => .sell
  | _ => .buy

theorem OrderSide.eq_opposite {s side : OrderSide} (hs : s ≠ .invalid) (hside : side ≠ .invalid)
    (h : s ≠ side) : s = side.opposite := by
  cases s <;> cases side <;> simp_all [opposite]

theorem OrderSide.opposite_ne {side : OrderSide} (h : side ≠ .invalid) : side ≠ side.opposite := by
  cases side <;> simp_all [opposite]

@[simp] theorem OrderSide.opposite_ne_invalid {side : OrderSide} : side.opposite ≠ .invalid := by
  cases side <;> simp [opposite]

/-- Why a call did not return. -/
inductive Fault
  | assert (msg : String)
  | nullDeref
  | outOfBounds
  | hang
  deriving DecidableEq, Repr

/-- `ASSERT(cond, msg)`. -/
def assert (cond : Bool) (msg : String) : Except Fault Unit :=
  if cond then .ok () else .error (.assert msg)

theorem assert_eq_ok {cond : Bool} {msg : String} {u : Unit} :
    assert cond msg = .ok u ↔ cond = true := by
  cases cond <;> simp [assert]

/-- `*p`, `p->…`. -/
def deref {α : Type} : Option α → Except Fault α
  | some a => .ok a
  | none => .error .nullDeref

@[simp] theorem deref_some {α : Type} (a : α) : deref (some a) = .ok a := rfl

@[simp] theorem deref_none {α : Type} : deref (none : Option α) = .error .nullDeref := rfl

theorem deref_eq_ok {α : Type} {p : Option α} {a : α} : deref p = .ok a ↔ p = some a := by
  cases p <;> simp [deref]

/-- `std::unordered_map<K, V>`. -/
abbrev UnorderedMap (K V : Type) := AList (fun _ : K => V)

namespace UnorderedMap

variable {K V : Type} [DecidableEq K]

/-- `m[k]` read as a pointer: the entry, and the map, which a miss extends by a
null entry. -/
def index (m : UnorderedMap K (Option V)) (k : K) : UnorderedMap K (Option V) × Option V :=
  match m.lookup k with
  | some v => (m, v)
  | none => (m.insert k none, none)

/-- The pointer under a key, null where there is none. -/
def at? (m : UnorderedMap K (Option V)) (k : K) : Option V := (m.lookup k).join

theorem index_snd (m : UnorderedMap K (Option V)) (k : K) : (index m k).2 = at? m k := by
  unfold index at?
  cases m.lookup k <;> rfl

/-- Assigning to a key is seen at this key alone. -/
theorem at?_insert (m : UnorderedMap K (Option V)) (k k' : K) (v : Option V) :
    at? (AList.insert k v m) k' = if k' = k then v else at? m k' := by
  unfold at?
  split_ifs with h
  · rw [h, AList.lookup_insert]
    rfl
  · rw [AList.lookup_insert_ne h]

/-- A lookup adds at most a null entry, which reads as no entry. -/
theorem at?_index (m : UnorderedMap K (Option V)) (k k' : K) : at? (index m k).1 k' = at? m k' := by
  unfold index
  cases h : m.lookup k with
  | some v => rfl
  | none =>
    rw [at?_insert]
    split_ifs with he
    · rw [at?, he, h]
      rfl
    · rfl

/-- Indexing creates the key, and no other. -/
theorem mem_index {m : UnorderedMap K (Option V)} {k k' : K} (h : k' ∈ (index m k).1) :
    k' = k ∨ k' ∈ m := by
  unfold index at h
  cases hl : m.lookup k with
  | some v =>
    rw [hl] at h
    exact Or.inr h
  | none =>
    rw [hl] at h
    exact (AList.mem_insert m).1 h

/-- Indexing a key that holds a value changes nothing. -/
theorem index_fst_of_at? {m : UnorderedMap K (Option V)} {k : K} {v : V} (h : at? m k = some v) :
    (index m k).1 = m := by
  unfold at? at h
  unfold index
  cases hl : m.lookup k with
  | some w => rfl
  | none => simp [hl] at h

end UnorderedMap

end CppExchange
