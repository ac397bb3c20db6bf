import Mathlib.Data.List.Range

/-!
# The readings of a source

What a source has given so far, as a list, and the values that were kept of it.
Values that were drawn one after the other, and of which some were dropped since,
are a sublist of the readings, and so two of them are related whenever any two
readings are, the earlier one first (`pairwise_of_sublist_readings`).
-/

namespace CppExchange.Library

variable {α : Type} {source : ℕ → α} {xs ys : List α} {k k' : ℕ}

/-- The first `k` readings of a source. -/
def readings (source : ℕ → α) (k : ℕ) : List α := (List.range k).map source

theorem readings_succ : readings source (k + 1) = readings source k ++ [source k] := by
  simp [readings, List.range_succ]

/-- What was read stays read. -/
theorem readings_sublist (h : k ≤ k') : (readings source k).Sublist (readings source k') := by
  obtain ⟨j, rfl⟩ := Nat.exists_eq_add_of_le h
  rw [readings, readings, List.range_add, List.map_append]
  exact List.sublist_append_left _ _

/-- **The next reading,** kept or not, comes behind what was drawn before. -/
theorem append_sublist_readings (h : xs.Sublist (readings source k))
    (h' : ys.Sublist [source k]) : (xs ++ ys).Sublist (readings source (k + 1)) := by
  rw [readings_succ]
  exact h.append h'

/-- **What was drawn from a source is in its order.** -/
theorem pairwise_of_sublist_readings {R : α → α → Prop}
    (hR : ∀ i j, i < j → R (source i) (source j)) (h : xs.Sublist (readings source k)) :
    xs.Pairwise R := by
  refine List.Pairwise.sublist h ?_
  rw [readings, List.pairwise_map]
  exact List.pairwise_lt_range.imp fun {i j} hij => hR i j hij

end CppExchange.Library
