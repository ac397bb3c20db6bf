import Mathlib.Data.List.OfFn

/-!
# A buffer filled from the front

A buffer of `n` cells is a function on `Fin n`, and what it holds are its first
`k` cells, for a length `k` that is kept beside it.  Copying a list to the cells
from `k` on makes the buffer hold that list after what it held
(`front_memcpy`).
-/

namespace CppExchange.Library

variable {α : Type} {n k i : ℕ} {mem : Fin n → α} {xs : List α}

/-- `memcpy(mem + i, xs)`. -/
def memcpy (mem : Fin n → α) (i : ℕ) (xs : List α) : Fin n → α :=
  fun j => if i ≤ j then xs.getD (j - i) (mem j) else mem j

/-- The first `k` cells. -/
def front (mem : Fin n → α) (k : ℕ) (h : k ≤ n) : List α :=
  List.ofFn fun i : Fin k => mem (Fin.castLE h i)

@[simp] theorem length_front (h : k ≤ n) : (front mem k h).length = k := List.length_ofFn

@[simp] theorem front_zero (h : 0 ≤ n) : front mem 0 h = [] := List.ofFn_zero

theorem getElem_front (h : k ≤ n) (hi : i < (front mem k h).length) :
    (front mem k h)[i] = mem ⟨i, by rw [length_front] at hi; omega⟩ :=
  List.getElem_ofFn hi

/-- **Appending.**  What is copied to the end of the contents follows them. -/
theorem front_memcpy (hk : k ≤ n) (h : k + xs.length ≤ n) :
    front (memcpy mem k xs) (k + xs.length) h = front mem k hk ++ xs := by
  refine List.ext_getElem (by simp) fun i hi _ => ?_
  rw [getElem_front, memcpy]
  rw [length_front] at hi
  by_cases hlt : i < k
  · rw [if_neg (by simpa using hlt), List.getElem_append_left (by simpa using hlt), getElem_front]
  · rw [if_pos (by simpa using hlt), List.getElem_append_right (by simpa using hlt)]
    simp [List.getD, List.getElem?_eq_getElem (show i - k < xs.length by omega)]

end CppExchange.Library
