import CppExchange.PoolCursor
import Mathlib.Data.Fintype.Card

/-!
# How many objects a pool serves

Runs of `getObject` and `releaseObject` on a new pool of `n` blocks, with the
list of the objects that are live.  As long as only live objects are released,
an object is live exactly when its block is in use, and the cursor is on a block
that is not (`Client.Sound`).

So the cursor is right in every state of every run (`Client.cursorRight_of_run`).
It is also why a pool never has all its blocks live: `getObject` looks for the
next available block when it has taken its own, and fails when there is none.
The object that would be the `n`-th is not served (`Client.serves_iff`).
-/

namespace CppExchange

open Library

namespace ObjectPool

/-- A call of a client of the pool. -/
inductive Call (T : Type) (n : ℕ)
  | getObject (object : T)
  | releaseObject (object : Fin n)

/-- A pool and the objects its client holds. -/
structure Client (T : Type) (n : ℕ) where
  pool : ObjectPool T n
  live : List (Fin n)

namespace Client

variable {T : Type} {n : ℕ} {c c' : Client T n} {call : Call T n} {object : T} {p : Fin n}

/-- A new pool, with no live objects. -/
def new [Inhabited T] (n : ℕ) : Client T n := ⟨ObjectPool.new n, []⟩

/-- One call. -/
def step (c : Client T n) : Call T n → Except Fault (Client T n)
  | .getObject object => do
      let (pool, p) ← c.pool.getObject object
      return ⟨pool, p :: c.live⟩
  | .releaseObject p => do
      let pool ← c.pool.releaseObject p
      return ⟨pool, c.live.erase p⟩

/-- Only live objects are released. -/
def ReleasesLive (c : Client T n) : Call T n → Prop
  | .getObject _ => True
  | .releaseObject p => p ∈ c.live

instance : Decidable (c.ReleasesLive call) :=
  match call with
  | .getObject _ => .isTrue trivial
  | .releaseObject p => inferInstanceAs (Decidable (p ∈ c.live))

/-! ### Live objects and blocks in use -/

/-- The live objects are those whose blocks are in use, and the cursor is on a
block that is not. -/
structure Sound (c : Client T n) : Prop where
  nodup : c.live.Nodup
  inUse : ∀ p, p ∈ c.live ↔ c.pool.InUse p
  cursor : c.pool.CursorOk

/-- A new pool is sound. -/
theorem sound_new [Inhabited T] (hn : 0 < n) : (new n : Client T n).Sound where
  nodup := List.nodup_nil
  inUse p := by simp [new, not_inUse_new]
  cursor := cursorOk_new hn

/-- What a `getObject` that returned did to the client. -/
theorem Sound.got {pool : ObjectPool T n} (h : c.Sound) (hg : c.pool.Got object pool p) :
    p ∉ c.live ∧ (⟨pool, p :: c.live⟩ : Client T n).Sound := by
  have hp : p ∉ c.live := fun hp => hg.fresh ((h.inUse p).1 hp)
  refine ⟨hp, List.nodup_cons.2 ⟨hp, h.nodup⟩, fun q => ?_, hg.cursor⟩
  rw [List.mem_cons, hg.inUse, h.inUse]

/-- Releasing a block keeps the pool sound. -/
theorem Sound.release (h : c.Sound) : (⟨c.pool.release p, c.live.erase p⟩ : Client T n).Sound where
  nodup := h.nodup.erase p
  inUse q := by rw [h.nodup.mem_erase_iff, inUse_release, h.inUse, and_comm]
  cursor := h.cursor.release

/-- **A call keeps** the live objects and the blocks in use together. -/
theorem Sound.step (h : c.Sound) (hs : c.step call = .ok c') : c'.Sound := by
  cases call with
  | getObject object =>
    obtain ⟨⟨pool, p⟩, hg, hc⟩ := bind_eq_ok.1 hs
    obtain rfl := Except.ok.inj hc
    exact (h.got (getObject_ok hg)).2
  | releaseObject p =>
    obtain ⟨pool, hr, hc⟩ := bind_eq_ok.1 hs
    obtain rfl := Except.ok.inj hc
    obtain ⟨-, rfl⟩ := releaseObject_ok hr
    exact h.release

/-- So they stay together along every run. -/
theorem sound_of_run [Inhabited T] (hn : 0 < n) {calls : List (Call T n)}
    (h : calls.foldlM step (new n) = .ok c) : c.Sound :=
  foldlM_induction (P := fun _ c => c.Sound) (sound_new hn)
    (fun _ _ _ _ _ hc hs => hc.step hs) h

/-- A list of different blocks is as long as the pool exactly when every block
is on it. -/
theorem length_eq_iff {ps : List (Fin n)} (h : ps.Nodup) : ps.length = n ↔ ∀ p, p ∈ ps := by
  have hcard : ps.length = n ↔ ps.toFinset.card = Fintype.card (Fin n) := by
    rw [List.toFinset_card_of_nodup h, Fintype.card_fin]
  rw [hcard, Finset.card_eq_iff_eq_univ, Finset.eq_univ_iff_forall]
  exact forall_congr' fun p => List.mem_toFinset

/-- **A pool never has all its blocks live:** the cursor is on one that is not. -/
theorem Sound.length_lt (h : c.Sound) : c.live.length < n := by
  obtain ⟨hn, hfree⟩ := h.cursor
  have hle : c.live.length ≤ n := by
    have := h.nodup.length_le_card
    rwa [Fintype.card_fin] at this
  refine lt_of_le_of_ne hle fun heq => hfree ?_
  exact (h.inUse _).1 ((length_eq_iff h.nodup).1 heq _)

/-- **When `getObject` is served:** unless all blocks but one are live. -/
theorem Sound.getObject (h : c.Sound) (object : T) :
    (∃ pool p, c.pool.getObject object = .ok (pool, p) ∧ c.pool.Got object pool p ∧
        c.live.length + 1 ≠ n) ∨
      c.pool.getObject object = .error bufferIsFull ∧ c.live.length + 1 = n := by
  rcases getObject_total h.cursor object with ⟨pool, p, hget, hg⟩ | ⟨hget, p, hfree, hall⟩
  · refine Or.inl ⟨pool, p, hget, hg, ?_⟩
    have hlt := (h.got hg).2.length_lt
    rw [List.length_cons] at hlt
    omega
  · have hp : p ∉ c.live := fun hp => hfree ((h.inUse p).1 hp)
    have hlen : (p :: c.live).length = n := by
      refine (length_eq_iff (List.nodup_cons.2 ⟨hp, h.nodup⟩)).2 fun q => ?_
      by_cases hq : q = p
      · exact hq ▸ List.mem_cons_self
      · exact List.mem_cons_of_mem p ((h.inUse q).2 (hall q hq))
    exact Or.inr ⟨hget, hlen⟩

/-! ### The cursor of a run -/

/-- What the calls need of the cursor: it is on an available block, so no live
object is under it, `getObject` passes its assertion and returns a block that is
not live with the live objects as they were, and `releaseObject` of a live object
passes both of its assertions. -/
structure CursorRight (c : Client T n) : Prop where
  cursor : c.pool.CursorOk
  free : ∀ p ∈ c.live, (p : ℕ) ≠ c.pool.nextFree
  exit : ∀ object e, c.pool.getObject object = .error e → e = bufferIsFull
  fresh : ∀ object pool p, c.pool.getObject object = .ok (pool, p) →
    p ∉ c.live ∧ pool.get p = object ∧ ∀ q ∈ c.live, pool.get q = c.pool.get q
  release : ∀ p ∈ c.live, ∃ pool, c.pool.releaseObject p = .ok pool

/-- **The cursor is right** when it is on a free block and the live objects are
those in use. -/
theorem Sound.cursorRight (h : c.Sound) : c.CursorRight where
  cursor := h.cursor
  free p hp he := by
    obtain ⟨hn, hfree⟩ := h.cursor
    refine hfree ?_
    rw [← show p = ⟨c.pool.nextFree, hn⟩ from Fin.ext he]
    exact (h.inUse p).1 hp
  exit object e he := by
    rcases h.getObject object with ⟨pool, p, hget, -⟩ | ⟨hget, -⟩
    · rw [hget] at he
      cases he
    · rw [hget] at he
      exact (Except.error.inj he).symm
  fresh object pool p hget := by
    have hg := getObject_ok hget
    have hp := (h.got hg).1
    refine ⟨hp, by rw [hg.get, if_pos rfl], fun q hq => ?_⟩
    rw [hg.get, if_neg]
    rintro rfl
    exact hp hq
  release p hp := ⟨_, releaseObject_eq ((h.inUse p).1 hp)⟩

/-- What `updateNextFree` does from a cursor in bounds: it goes to the first
available block from there on, when there is one, and takes its exit exactly when
there is none.  The loop has made at most `n` tests, or it would have hung. -/
structure SearchRight (pool : ObjectPool T n) : Prop where
  ends : pool.updateNextFree ≠ .error .hang
  first : (∃ q, ¬pool.InUse q) →
    ∃ i, pool.updateNextFree = .ok { pool with nextFree := i } ∧ pool.FirstFree i
  full : pool.updateNextFree = .error bufferIsFull ↔ ∀ q, pool.InUse q

/-- The search goes once around from the cursor, and comes back to it only when
every block is in use. -/
theorem searchRight {pool : ObjectPool T n} (h : pool.nextFree < n) : SearchRight pool := by
  rcases updateNextFree_total h with ⟨i, hu, hi⟩ | ⟨hu, hall⟩
  · obtain ⟨hn, hav, -⟩ := id hi
    exact ⟨by simp [hu], fun _ => ⟨i, hu, hi⟩, by simp [hu], fun hall => absurd (hall _) hav⟩
  · exact ⟨by simp [hu, bufferIsFull], fun ⟨q, hq⟩ => absurd (hall q) hq, fun _ => hall,
      fun _ => hu⟩

/-- **The free cursor is always right:** in every state of every run that
releases only live objects; and from wherever the cursor is, over every pattern
of available blocks, the search for the next one is right. -/
theorem cursorRight_of_run [Inhabited T] (hn : 1 ≤ n) :
    (∀ (calls : List (Call T n)) (c : Client T n), EachStep step ReleasesLive (new n) calls →
        calls.foldlM step (new n) = .ok c → c.CursorRight) ∧
      ∀ pool : ObjectPool T n, pool.nextFree < n → SearchRight pool :=
  ⟨fun _ _ _ hc => (sound_of_run hn hc).cursorRight, fun _ h => searchRight h⟩

/-! ### What a pool serves -/

/-- A call is served: `getObject` returns an object that is not live unless all
`n` blocks are, and a release returns. -/
def Serves (c : Client T n) : Call T n → Prop
  | .getObject object => c.live.length < n →
      ∃ r, c.pool.getObject object = .ok r ∧ r.2 ∉ c.live
  | .releaseObject p => (c.pool.releaseObject p).isOk

instance : Decidable (c.Serves call) :=
  match call with
  | .getObject object => inferInstanceAs
      (Decidable (c.live.length < n → ∃ r, c.pool.getObject object = .ok r ∧ r.2 ∉ c.live))
  | .releaseObject p => inferInstanceAs (Decidable ((c.pool.releaseObject p).isOk = true))

/-- No object is asked for while all blocks but one are live. -/
def LeavesOne (c : Client T n) : Call T n → Prop
  | .getObject _ => c.live.length + 1 ≠ n
  | .releaseObject _ => True

instance : Decidable (c.LeavesOne call) :=
  match call with
  | .getObject _ => inferInstanceAs (Decidable (c.live.length + 1 ≠ n))
  | .releaseObject _ => .isTrue trivial

/-- A call is served unless it asks for the last block. -/
theorem Sound.serves_call (h : c.Sound) (hr : c.ReleasesLive call) :
    c.Serves call ↔ c.LeavesOne call := by
  cases call with
  | getObject object =>
    have hlt := h.length_lt
    rcases h.getObject object with ⟨pool, p, hget, hg, hne⟩ | ⟨hget, heq⟩
    · exact iff_of_true (fun _ => ⟨_, hget, (h.got hg).1⟩) hne
    · refine iff_of_false (fun hs => ?_) (fun hne => hne heq)
      obtain ⟨r, hr, -⟩ := hs hlt
      rw [hget] at hr
      cases hr
  | releaseObject p =>
    refine iff_of_true ?_ trivial
    rw [Serves, releaseObject_eq ((h.inUse p).1 hr)]
    rfl

/-- **What a pool of `n` blocks serves.**  A run that releases only live objects
is served throughout exactly when it never asks for an object while `n - 1` are
live: the pool serves one object less than it has blocks. -/
theorem serves_iff [Inhabited T] (hn : 1 ≤ n) {calls : List (Call T n)}
    (hr : EachStep step ReleasesLive (new n) calls) :
    EachStep step Serves (new n) calls ↔ EachStep step LeavesOne (new n) calls :=
  EachStep.congr (P := Sound) (sound_new hn) (fun _ _ _ h _ hs => h.step hs)
    (fun _ _ h hr => h.serves_call hr) hr

/-- Two objects of a pool of three, one of them released in between. -/
def turnover : List (Call ℕ 3) :=
  [.getObject 10, .getObject 11, .releaseObject 0, .getObject 12, .releaseObject 1]

theorem serves_turnover : EachStep step Serves (new 3) turnover :=
  (serves_iff (by decide) (by decide +kernel)).2 (by decide +kernel)

/-- The two objects of a pool of three are an instance. -/
theorem cursorRight_turnover : ∃ c : Client ℕ 3, turnover.foldlM step (new 3) = .ok c ∧
    c.CursorRight :=
  have h : (turnover.foldlM step (new 3 : Client ℕ 3)).isOk = true := by decide +kernel
  let ⟨c, hc⟩ := exists_of_isOk h
  ⟨c, hc, (cursorRight_of_run (by decide)).1 turnover c (by decide +kernel) hc⟩

/-- **The last block is not served:** three objects of a pool of three. -/
theorem not_serves_thirdObject :
    EachStep step ReleasesLive (new 3 : Client ℕ 3)
        [.getObject 10, .getObject 11, .getObject 12] ∧
      ¬EachStep step Serves (new 3 : Client ℕ 3)
        [.getObject 10, .getObject 11, .getObject 12] := by
  decide +kernel

end Client

end ObjectPool

end CppExchange
