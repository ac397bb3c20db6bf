import Mathlib.Data.List.Sort

/-!
# Ties in a sorted list

Elements with equal keys are tied.  `KeepsTies key l l'` says that `l'` has the
elements of each key in the order in which `l` has them.  Insertion sort keeps
ties (`keepsTies_sortByKey`).  A permutation keeps them when tied elements are equal
(`keepsTies_of_perm`), and only then can every element come first in its tie
(`eq_of_keepsTies_cons`).
-/

namespace CppExchange.Library

variable {α κ : Type} {key : α → κ} {l l' l'' : List α}

section Order

variable [LE κ] [DecidableLE κ]

/-- The elements by increasing key. -/
def sortByKey (key : α → κ) (l : List α) : List α :=
  l.insertionSort (Order.Preimage key (· ≤ ·))

theorem sortByKey_perm : (sortByKey key l).Perm l := List.perm_insertionSort _ _

theorem pairwise_sortByKey [Std.IsLinearOrder κ] (key : α → κ) (l : List α) :
    (sortByKey key l).Pairwise fun a b => key a ≤ key b := List.pairwise_insertionSort _ _

end Order

variable [DecidableEq κ]

/-- `l'` has the elements of every key in the order of `l`. -/
def KeepsTies (key : α → κ) (l l' : List α) : Prop :=
  ∀ k, l'.filter (key · = k) = l.filter (key · = k)

theorem KeepsTies.symm (h : KeepsTies key l l') : KeepsTies key l' l := fun k => (h k).symm

theorem KeepsTies.trans (h : KeepsTies key l l') (h' : KeepsTies key l' l'') :
    KeepsTies key l l'' := fun k => (h' k).trans (h k)

/-- What keeps ties is a permutation. -/
theorem KeepsTies.perm [DecidableEq α] (h : KeepsTies key l l') : l'.Perm l := by
  refine List.perm_iff_count.2 fun a => ?_
  have hcount : ∀ l : List α, (l.filter (key · = key a)).count a = l.count a := fun l =>
    List.count_filter (by simp)
  rw [← hcount l', h (key a), hcount l]

/-- **Insertion sort keeps ties.** -/
theorem keepsTies_sortByKey [LE κ] [DecidableLE κ] [Std.IsLinearOrder κ] :
    KeepsTies key l (sortByKey key l) := by
  intro k
  have htie : ∀ a ∈ l.filter (key · = k), key a = k := fun a ha => by
    simpa using (List.mem_filter.1 ha).2
  have hsorted : (l.filter (key · = k)).Pairwise (Order.Preimage key (· ≤ ·)) :=
    List.pairwise_of_forall_mem_list fun a ha b hb => by
      rw [Order.Preimage, htie a ha, htie b hb]
      exact Std.le_refl k
  have hsub := (List.sublist_insertionSort hsorted List.filter_sublist).filter (key · = k)
  simp only [List.filter_filter, Bool.and_self] at hsub
  exact (hsub.eq_of_length (sortByKey_perm.filter _).length_eq.symm).symm

/-- A permutation keeps ties between equal elements. -/
theorem keepsTies_of_perm (hp : l'.Perm l) (h : ∀ a ∈ l, ∀ b ∈ l, key a = key b → a = b) :
    KeepsTies key l l' := by
  intro k
  have hpk := hp.filter (key · = k)
  cases hl : l.filter (key · = k) with
  | nil =>
    rw [hl] at hpk
    exact hpk.eq_nil
  | cons a as =>
    have hmem : ∀ b ∈ l.filter (key · = k), b = a := fun b hb => by
      have ha : a ∈ l.filter (key · = k) := hl ▸ List.mem_cons_self ..
      rw [List.mem_filter, decide_eq_true_eq] at ha hb
      exact h b hb.1 a ha.1 (hb.2.trans ha.2.symm)
    rw [← hl, List.eq_replicate_of_mem hmem,
      List.eq_replicate_of_mem fun b hb => hmem b (hpk.mem_iff.1 hb), hpk.length_eq]

/-- When each element may come first in its tie, tied elements are equal. -/
theorem eq_of_keepsTies_cons [DecidableEq α]
    (h : ∀ a ∈ l, KeepsTies key l (a :: l.erase a)) {a b : α} (ha : a ∈ l) (hb : b ∈ l)
    (hab : key a = key b) : a = b := by
  have hfirst := (h a ha (key a)).trans (h b hb (key a)).symm
  rw [List.filter_cons_of_pos (by simp), List.filter_cons_of_pos (by simp [hab])] at hfirst
  exact (List.cons.inj hfirst).1

end CppExchange.Library
