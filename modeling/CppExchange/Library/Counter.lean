import Mathlib.Data.List.Nodup
import Mathlib.Data.List.Range

/-!
# A 32-bit counter

`countFrom start n` is what a counter that wraps around hands out in `n` calls.
Up to `UInt32.size` calls the values are distinct (`countFrom_nodup`), and a
value is handed out as soon as there are calls enough to get there
(`mem_countFrom`).
-/

namespace CppExchange.Library

variable {start x : UInt32} {n k : ℕ}

/-- The first `n` values of a counter. -/
def countFrom (start : UInt32) (n : ℕ) : List UInt32 :=
  (List.range n).map fun i => start + UInt32.ofNat i

@[simp] theorem countFrom_zero : countFrom start 0 = [] := rfl

@[simp] theorem length_countFrom : (countFrom start n).length = n := by simp [countFrom]

/-- Counting goes on where it stopped. -/
theorem countFrom_add : countFrom start (n + k) =
    countFrom start n ++ countFrom (start + UInt32.ofNat n) k := by
  rw [countFrom, List.range_add, List.map_append, List.map_map]
  congr 1
  refine List.map_congr_left fun i _ => ?_
  rw [Function.comp_apply, UInt32.ofNat_add, UInt32.add_assoc]

/-- Counting once more appends the next number. -/
theorem countFrom_succ : countFrom start (n + 1) =
    countFrom start n ++ [start + UInt32.ofNat n] := by
  rw [countFrom_add]
  simp [countFrom]

theorem countFrom_cons : countFrom start (n + 1) = start :: countFrom (start + 1) n := by
  rw [Nat.add_comm, countFrom_add]
  simp [countFrom]

/-- **The values are distinct** until the counter comes back to the first one. -/
theorem countFrom_nodup (h : n ≤ UInt32.size) : (countFrom start n).Nodup := by
  refine (List.nodup_map_iff_inj_on List.nodup_range).2 fun i hi j hj he => ?_
  rw [List.mem_range] at hi hj
  have he' := UInt32.add_right_inj start |>.1 he
  have hnat := congrArg UInt32.toNat he'
  rwa [UInt32.toNat_ofNat_of_lt' (by omega), UInt32.toNat_ofNat_of_lt' (by omega)] at hnat

/-- A number is among those counted when it is less than `n` after the start,
around the end of the type. -/
theorem mem_countFrom (h : n ≤ UInt32.size) : x ∈ countFrom start n ↔ (x - start).toNat < n := by
  simp only [countFrom, List.mem_map, List.mem_range]
  constructor
  · rintro ⟨i, hi, rfl⟩
    rw [UInt32.add_comm, UInt32.add_sub_cancel, UInt32.toNat_ofNat_of_lt' (by omega)]
    exact hi
  · intro hx
    refine ⟨_, hx, ?_⟩
    rw [UInt32.ofNat_toNat, UInt32.add_comm, UInt32.sub_add_cancel]

end CppExchange.Library
