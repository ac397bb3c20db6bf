import Mathlib.Data.List.Basic

/-!
# Singly linked lists

A memory gives every node a pointer `next`, which may be null.
`IsLinkedList next p xs` says that following `next` from the pointer `p` visits
exactly the nodes `xs`, in this order, and ends at null.  A node is pushed in
front of a list by giving it the old entry pointer (`IsLinkedList.push`), and
unlinked from inside one by giving its predecessor its own `next`
(`IsLinkedList.unlink`).
-/

namespace CppExchange.Library

variable {P : Type} {next next' : P → Option P} {p q : Option P} {xs ys : List P} {a b x : P}

/-- Following `next` from `p` visits `xs` and ends at null. -/
def IsLinkedList (next : P → Option P) : Option P → List P → Prop
  | p, [] => p = none
  | p, x :: xs => p = some x ∧ IsLinkedList next (next x) xs

@[simp] theorem isLinkedList_nil : IsLinkedList next p [] ↔ p = none := Iff.rfl

@[simp] theorem isLinkedList_cons :
    IsLinkedList next p (x :: xs) ↔ p = some x ∧ IsLinkedList next (next x) xs := Iff.rfl

theorem IsLinkedList.head?_eq (h : IsLinkedList next p xs) : p = xs.head? := by
  cases xs with
  | nil => exact h
  | cons x xs => exact h.1

/-- **A list lives on its own nodes.** -/
theorem IsLinkedList.congr (h : IsLinkedList next p xs) (hn : ∀ x ∈ xs, next' x = next x) :
    IsLinkedList next' p xs := by
  induction xs generalizing p with
  | nil => exact h
  | cons x xs ih =>
    refine ⟨h.1, ?_⟩
    rw [hn x List.mem_cons_self]
    exact ih h.2 (fun y hy => hn y (List.mem_cons_of_mem x hy))

/-- The nodes after `x` are the list that `next x` leads into. -/
theorem IsLinkedList.of_append (h : IsLinkedList next p (xs ++ x :: ys)) :
    IsLinkedList next (some x) (x :: ys) := by
  induction xs generalizing p with
  | nil => exact ⟨rfl, h.2⟩
  | cons y xs ih => exact ih h.2

theorem IsLinkedList.next_eq (h : IsLinkedList next p (xs ++ a :: b :: ys)) : next a = some b :=
  h.of_append.2.1

/-- **Pushing in front.** -/
theorem IsLinkedList.push (h : IsLinkedList next p xs) (hnx : next' x = p)
    (hn : ∀ y ∈ xs, next' y = next y) : IsLinkedList next' (some x) (x :: xs) :=
  ⟨rfl, hnx ▸ h.congr hn⟩

/-- **Unlinking from inside:** the predecessor takes over the pointer. -/
theorem IsLinkedList.unlink (h : IsLinkedList next p (xs ++ a :: b :: ys))
    (hnd : (xs ++ a :: b :: ys).Nodup) (ha : next' a = next b)
    (hn : ∀ y ∈ xs ++ a :: b :: ys, y ≠ a → next' y = next y) :
    IsLinkedList next' p (xs ++ a :: ys) := by
  induction xs generalizing p with
  | nil =>
    have hnot : a ∉ ys := fun hy =>
      (List.nodup_cons.1 hnd).1 (List.mem_cons_of_mem b hy)
    refine ⟨h.1, ?_⟩
    rw [ha]
    exact h.2.2.congr (fun y hy => hn y (by simp [hy]) (fun he => hnot (he ▸ hy)))
  | cons x xs ih =>
    have hne : x ≠ a := fun he => (List.nodup_cons.1 hnd).1 (by simp [he])
    refine ⟨h.1, ?_⟩
    rw [hn x List.mem_cons_self hne]
    exact ih h.2 (List.nodup_cons.1 hnd).2 (fun y hy => hn y (List.mem_cons_of_mem x hy))

end CppExchange.Library
