import CppExchange.ObjectPool

/-!
# What the object pool does

`getObject` hands out the block under the cursor, which was available, and
leaves every other block as it was (`getObject_ok`); `releaseObject` makes one
block available again and keeps its object (`releaseObject_eq`).

The cursor is in bounds and on an available block (`CursorOk`) from the start
and after every call.  So the first assertion of `getObject` holds, and the only
way it fails is the search of `updateNextFree` coming back to where it began,
which happens exactly when the block just handed out was the last available one
(`getObject_total`).
-/

namespace CppExchange

open Library

namespace ObjectPool

variable {T : Type} {n : ℕ} {pool pool' : ObjectPool T n} {p q : Fin n} {object : T}
  {heap : Fin n → T} {i : ℕ}

/-! ### Changing the objects -/

@[simp] theorem get_setHeap : (pool.setHeap heap).get p = heap p := rfl

@[simp] theorem heap_setHeap : (pool.setHeap heap).heap = heap := rfl

@[simp] theorem inUse_setHeap : (pool.setHeap heap).InUse p ↔ pool.InUse p := Iff.rfl

@[simp] theorem nextFree_setHeap : (pool.setHeap heap).nextFree = pool.nextFree := rfl

@[simp] theorem inUse_set : (pool.set q object).InUse p ↔ pool.InUse p := Iff.rfl

theorem get_set : (pool.set q object).get p = if p = q then object else pool.get p := by
  simp only [set, get_setHeap, Function.update_apply, heap]

@[simp] theorem setHeap_heap : pool.setHeap pool.heap = pool := rfl

/-- Writing back what is there changes nothing. -/
@[simp] theorem set_get : pool.set p (pool.get p) = pool := by
  unfold set
  rw [show pool.get p = pool.heap p from rfl, Function.update_eq_self, setHeap_heap]

/-! ### The cursor -/

/-- The cursor is in bounds and on an available block. -/
def CursorOk (pool : ObjectPool T n) : Prop := ∃ h : pool.nextFree < n, ¬pool.InUse ⟨_, h⟩

theorem CursorOk.setHeap (h : pool.CursorOk) : (pool.setHeap heap).CursorOk := h

theorem CursorOk.set (h : pool.CursorOk) : (pool.set p object).CursorOk := h

theorem cursorOk_new [Inhabited T] (hn : 0 < n) : (new n : ObjectPool T n).CursorOk :=
  ⟨hn, by simp [InUse, new]⟩

theorem not_inUse_new [Inhabited T] : ¬(new n : ObjectPool T n).InUse p := by simp [InUse, new]

theorem taken_of_lt (h : i < n) : pool.taken i = .ok (decide (pool.InUse ⟨i, h⟩)) := by
  have hb : ∀ b : Bool, (!b) = decide (b = false) := by decide
  simp only [taken, index, h, dif_pos, ok_bind, pure_eq_ok, hb]
  rfl

/-- How far the search has come when it stands at `i`. -/
def distance (n prevFree i : ℕ) : ℕ := if prevFree ≤ i then i - prevFree else i + n - prevFree

theorem distance_lt {prevFree : ℕ} (hp : prevFree < n) (hi : i < n) :
    distance n prevFree i < n := by
  unfold distance
  split_ifs <;> omega

/-- Two blocks at one distance are the same. -/
theorem distance_inj {prevFree j : ℕ} (hp : prevFree < n) (hi : i < n) (hj : j < n)
    (h : distance n prevFree i = distance n prevFree j) : i = j := by
  simp only [distance] at h
  split_ifs at h <;> omega

/-- One turn of the search goes one block further, unless it comes back to its
beginning from the last block. -/
theorem advance_cases {prevFree : ℕ} (hp : prevFree < n) (hi : i < n) :
    (∃ j, advance n prevFree i = .ok j ∧ j < n ∧
        distance n prevFree j = distance n prevFree i + 1) ∨
      advance n prevFree i = .error bufferIsFull ∧ distance n prevFree i + 1 = n := by
  unfold advance distance bufferIsFull
  by_cases hn : i + 1 = n
  · by_cases h0 : 0 = prevFree
    · subst h0
      exact Or.inr ⟨by simp [hn, assert], by simp; omega⟩
    · refine Or.inl ⟨0, by simp [hn, h0], by omega, ?_⟩
      split_ifs <;> omega
  · by_cases h1 : i + 1 = prevFree
    · refine Or.inr ⟨?_, by split_ifs <;> omega⟩
      simp only [hn, if_false, if_pos h1]
      simp [h1, assert]
    · refine Or.inl ⟨i + 1, by simp [hn, h1], by omega, ?_⟩
      split_ifs <;> omega

/-- The block `i` is available, and every block the search would look at before
it is in use. -/
def FirstFree (pool : ObjectPool T n) (i : ℕ) : Prop :=
  ∃ h : i < n, ¬pool.InUse ⟨i, h⟩ ∧
    ∀ q : Fin n, distance n pool.nextFree q < distance n pool.nextFree i → pool.InUse q

/-- When the search goes past a block, all blocks up to it are in use. -/
theorem inUse_of_distance_le {i : Fin n} (h : pool.nextFree < n) (hi : pool.InUse i)
    (hbefore : ∀ q : Fin n, distance n pool.nextFree q < distance n pool.nextFree i → pool.InUse q)
    (hq : distance n pool.nextFree q ≤ distance n pool.nextFree i) : pool.InUse q := by
  rcases Nat.lt_or_eq_of_le hq with hlt | heq
  · exact hbefore q hlt
  · rwa [show q = i from Fin.ext (distance_inj h q.isLt i.isLt heq)]

/-- **The search for the next available block** ends within one round, on the
first available block from the cursor on; it fails exactly when every block is
in use. -/
theorem updateNextFree_total (h : pool.nextFree < n) :
    (∃ i, pool.updateNextFree = .ok { pool with nextFree := i } ∧ pool.FirstFree i) ∨
      pool.updateNextFree = .error bufferIsFull ∧ ∀ q, pool.InUse q := by
  let I : ℕ → Prop := fun i => i < n ∧
    ∀ q : Fin n, distance n pool.nextFree q < distance n pool.nextFree i → pool.InUse q
  let E : Fault → Prop := fun e => e = bufferIsFull ∧ ∀ q, pool.InUse q
  let μ : ℕ → ℕ := fun i => n - 1 - distance n pool.nextFree i
  have test : ∀ i, I i → ∃ b, pool.taken i = .ok b := fun i hi => ⟨_, taken_of_lt hi.1⟩
  have step : ∀ i, I i → pool.taken i = .ok true →
      (∃ j, advance n pool.nextFree i = .ok j ∧ I j ∧ μ j < μ i) ∨
        ∃ e, E e ∧ advance n pool.nextFree i = .error e := by
    intro i hi hc
    rw [taken_of_lt hi.1, Except.ok.injEq, decide_eq_true_iff] at hc
    have hdi := distance_lt h hi.1
    rcases advance_cases h hi.1 with ⟨j, hj, hjn, hd⟩ | ⟨he, hd⟩
    · have hdj := distance_lt h hjn
      refine Or.inl ⟨j, hj, ⟨hjn, fun q hq => ?_⟩, by simp only [μ]; omega⟩
      exact inUse_of_distance_le h hc hi.2 (by show _ ≤ distance n pool.nextFree i; omega)
    · refine Or.inr ⟨_, ⟨rfl, fun q => ?_⟩, he⟩
      have hdq := distance_lt h q.isLt
      exact inUse_of_distance_le h hc hi.2 (by show _ ≤ distance n pool.nextFree i; omega)
  have hμ : μ pool.nextFree < n := by
    have := distance_lt h h
    simp only [μ]
    omega
  have key : (∃ i, whileLoop .hang pool.taken (advance n pool.nextFree) n pool.nextFree = .ok i ∧
        I i ∧ pool.taken i = .ok false) ∨
      ∃ e, E e ∧ whileLoop .hang pool.taken (advance n pool.nextFree) n pool.nextFree =
        .error e :=
    whileLoop_total μ test step ⟨h, fun q hq => by simp [distance] at hq⟩ hμ
  rcases key with ⟨i, hl, ⟨hi, hbefore⟩, hc⟩ | ⟨e, ⟨rfl, hall⟩, hl⟩
  · rw [taken_of_lt hi, Except.ok.injEq, decide_eq_false_iff_not] at hc
    exact Or.inl ⟨i, by simp [updateNextFree, hl], hi, hc, hbefore⟩
  · exact Or.inr ⟨by simp [updateNextFree, hl], hall⟩

/-! ### `getObject` -/

/-- The pool after the block `p` was handed out with `object`, before the
cursor moves. -/
def take (pool : ObjectPool T n) (p : Fin n) (object : T) : ObjectPool T n :=
  { pool with store := Function.update pool.store p { object, available := false } }

theorem get_take : (pool.take p object).get q = if q = p then object else pool.get q := by
  simp only [take, get, Function.update_apply]
  split_ifs <;> rfl

theorem inUse_take : (pool.take p object).InUse q ↔ q = p ∨ pool.InUse q := by
  simp only [take, InUse, Function.update_apply]
  split_ifs with h <;> simp [h]

/-- What a `getObject` that returned did. -/
structure Got (pool : ObjectPool T n) (object : T) (pool' : ObjectPool T n) (p : Fin n) : Prop where
  fresh : ¬pool.InUse p
  get : ∀ q, pool'.get q = if q = p then object else pool.get q
  inUse : ∀ q, pool'.InUse q ↔ q = p ∨ pool.InUse q
  cursor : pool'.CursorOk

/-- **`getObject` on a pool with its cursor right** returns a fresh block, or
the block it took was the last one. -/
theorem getObject_total (h : pool.CursorOk) (object : T) :
    (∃ pool' p, pool.getObject object = .ok (pool', p) ∧ pool.Got object pool' p) ∨
      pool.getObject object = .error bufferIsFull ∧
        ∃ p, ¬pool.InUse p ∧ ∀ q, q ≠ p → pool.InUse q := by
  obtain ⟨hn, hfree⟩ := h
  have havail : (pool.store ⟨_, hn⟩).available = true := by simpa [InUse] using hfree
  have hget : pool.getObject object = (pool.take ⟨_, hn⟩ object).updateNextFree >>=
      fun pool' => .ok (pool', ⟨_, hn⟩) := by
    simp [getObject, index, hn, havail, assert, take]
  rcases updateNextFree_total (show (pool.take ⟨_, hn⟩ object).nextFree < n from hn) with
    ⟨i, hu, hi, hav, -⟩ | ⟨hu, hall⟩
  · refine Or.inl ⟨_, _, by rw [hget, hu, ok_bind], hfree, fun q => ?_, fun q => ?_, hi, hav⟩
    · exact get_take
    · exact inUse_take
  · refine Or.inr ⟨by rw [hget, hu, error_bind], _, hfree, fun q hq => ?_⟩
    exact (inUse_take.1 (hall q)).resolve_left hq

/-- `getObject` returns only blocks that were available. -/
theorem getObject_ok (h : pool.getObject object = .ok (pool', p)) : pool.Got object pool' p := by
  have hc : pool.CursorOk := by
    simp only [getObject, bind_eq_ok, assert_eq_ok] at h
    obtain ⟨i, hi, _, ha, -⟩ := h
    unfold index at hi
    split_ifs at hi with hn
    obtain rfl := Except.ok.inj hi
    exact ⟨hn, by simp [InUse, ha]⟩
  rcases getObject_total hc object with ⟨pool'', p', hg, hgot⟩ | ⟨hg, -⟩
  · rw [h, Except.ok.injEq, Prod.mk.injEq] at hg
    obtain ⟨rfl, rfl⟩ := hg
    exact hgot
  · rw [h] at hg
    cases hg

/-- Of the blocks of the pool only the one handed out is written. -/
theorem getObject_eq_take (h : pool.getObject object = .ok (pool', p)) :
    pool' = { pool.take p object with nextFree := pool'.nextFree } := by
  simp only [getObject, updateNextFree, bind_eq_ok] at h
  obtain ⟨i, -, -, -, pool₁, ⟨j, -, hj⟩, h⟩ := h
  obtain ⟨rfl, rfl⟩ := Prod.mk.inj (Except.ok.inj h)
  obtain rfl := Except.ok.inj hj
  rfl

/-! ### `releaseObject` -/

/-- The pool after the block `p` was released. -/
def release (pool : ObjectPool T n) (p : Fin n) : ObjectPool T n :=
  { pool with store := Function.update pool.store p { pool.store p with available := true } }

/-- Giving a block back does not wipe it. -/
@[simp] theorem get_release : (pool.release p).get q = pool.get q := by
  simp only [release, get, Function.update_apply]
  split_ifs with h
  · rw [h]
  · rfl

theorem inUse_release : (pool.release p).InUse q ↔ pool.InUse q ∧ q ≠ p := by
  simp only [release, InUse, Function.update_apply]
  split_ifs with h <;> simp [h]

theorem CursorOk.release (h : pool.CursorOk) : (pool.release p).CursorOk := by
  obtain ⟨hn, hfree⟩ := h
  exact ⟨hn, fun hu => hfree (inUse_release.1 hu).1⟩

/-- **`releaseObject` on a live object** passes both assertions. -/
theorem releaseObject_eq (h : pool.InUse p) : pool.releaseObject p = .ok (pool.release p) := by
  simp [releaseObject, index, assert, show (pool.store p).available = false from h, release]

/-- `releaseObject` returns only for a live object. -/
theorem releaseObject_ok (h : pool.releaseObject p = .ok pool') :
    pool.InUse p ∧ pool' = pool.release p := by
  by_cases hu : pool.InUse p
  · rw [releaseObject_eq hu, Except.ok.injEq] at h
    exact ⟨hu, h.symm⟩
  · have ha : (pool.store p).available = true := by simpa [InUse] using hu
    simp [releaseObject, index, assert, ha] at h

end ObjectPool

end CppExchange
