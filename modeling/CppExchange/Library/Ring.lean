import Mathlib.Data.List.Chain
import Mathlib.Data.List.Nodup

/-!
# Circular doubly linked lists

A memory gives every node `x` a forward pointer `next x` and a backward
pointer `prev x`, either of which may be null.  `IsRing next prev xs` says that
the nodes `xs`, in this order, form a circle: they are distinct, consecutive
ones point at each other, and the last and the first do.  One node alone points
at itself both ways, and the empty list is a ring in every memory.

The two edits of a ring are local.  `IsRing.concat` links a new node between
the last and the first, `IsRing.unlink` takes the first node out; an edit
elsewhere is the same edit after a rotation (`IsRing.rotate`).  A memory that
agrees on the nodes of a ring has the ring too (`IsRing.congr`), so rings
without a common node do not disturb one another.

`ringWalk` is the observer: it follows `next` from a node until it comes back.
-/

namespace CppExchange.Library

variable {P : Type} {next prev next' prev' : P → Option P} {xs ys : List P} {a b o x : P}

/-- `a` and `b` point at each other, `a` forward and `b` backward. -/
def Linked (next prev : P → Option P) (a b : P) : Prop := next a = some b ∧ prev b = some a

/-- The nodes `xs`, in this order, form a circle. -/
structure IsRing (next prev : P → Option P) (xs : List P) : Prop where
  nodup : xs.Nodup
  links : xs.IsChain (Linked next prev)
  close : ∀ a ∈ xs.getLast?, ∀ b ∈ xs.head?, Linked next prev a b

theorem IsRing.nil : IsRing next prev [] := ⟨List.nodup_nil, List.isChain_nil, by simp⟩

/-- A ring of one element is linked to itself, both ways. -/
theorem isRing_singleton : IsRing next prev [x] ↔ next x = some x ∧ prev x = some x := by
  constructor
  · intro h
    exact h.close x rfl x rfl
  · intro h
    refine ⟨List.nodup_singleton x, List.isChain_singleton x, ?_⟩
    simpa [Linked] using h

/-- A chain of links reads `next` of all nodes but the last and `prev` of all
nodes but the first. -/
theorem links_congr (h : xs.IsChain (Linked next prev)) (hn : ∀ x ∈ xs.dropLast, next' x = next x)
    (hp : ∀ x ∈ xs.tail, prev' x = prev x) : xs.IsChain (Linked next' prev') := by
  induction xs with
  | nil => exact List.isChain_nil
  | cons x xs ih =>
    cases xs with
    | nil => exact List.isChain_singleton x
    | cons y ys =>
      rw [List.isChain_cons_cons] at h ⊢
      refine ⟨⟨?_, ?_⟩, ih h.2 (fun z hz => hn z ?_) (fun z hz => hp z ?_)⟩
      · rw [hn x (by simp)]
        exact h.1.1
      · rw [hp y (by simp)]
        exact h.1.2
      · rw [List.dropLast_cons_cons]
        exact List.mem_cons_of_mem x hz
      · exact List.mem_of_mem_tail hz

/-- **A ring lives on its own nodes.** -/
theorem IsRing.congr (h : IsRing next prev xs) (hn : ∀ x ∈ xs, next' x = next x)
    (hp : ∀ x ∈ xs, prev' x = prev x) : IsRing next' prev' xs where
  nodup := h.nodup
  links := links_congr h.links (fun x hx => hn x ((List.dropLast_subset xs) hx))
    (fun x hx => hp x (List.mem_of_mem_tail hx))
  close a ha b hb := by
    have hl := h.close a ha b hb
    exact ⟨(hn a (List.mem_of_getLast? ha)).trans hl.1, (hp b (List.mem_of_head? hb)).trans hl.2⟩

/-- **A ring has no first node:** it may be cut anywhere. -/
theorem IsRing.rotate (h : IsRing next prev (xs ++ ys)) : IsRing next prev (ys ++ xs) := by
  cases xs with
  | nil => simpa using h
  | cons x xs =>
    cases ys with
    | nil => simpa using h
    | cons y ys =>
      obtain ⟨hxs, hys, hj⟩ := List.isChain_append.1 h.links
      refine ⟨List.nodup_append_comm.1 h.nodup, List.isChain_append.2 ⟨hys, hxs, ?_⟩, ?_⟩
      · intro a ha b hb
        refine h.close a ?_ b (by simpa using hb)
        rwa [List.getLast?_append_of_ne_nil _ (List.cons_ne_nil y ys)]
      · intro a ha b hb
        rw [List.getLast?_append_of_ne_nil _ (List.cons_ne_nil x xs)] at ha
        exact hj a ha b (by simpa using hb)

theorem IsRing.next_eq (h : IsRing next prev (xs ++ a :: b :: ys)) : next a = some b :=
  (List.isChain_cons_cons.1 (List.isChain_append.1 h.links).2.1).1.1

/-- The first node points back at the last. -/
theorem IsRing.prev_head (h : IsRing next prev (x :: xs)) :
    prev x = some ((x :: xs).getLast (List.cons_ne_nil x xs)) :=
  (h.close _ (List.getLast?_eq_some_getLast (List.cons_ne_nil x xs)) x rfl).2

/-- A node of a ring is linked to one behind it. -/
theorem IsRing.exists_next (h : IsRing next prev xs) (hx : x ∈ xs) :
    ∃ y ∈ xs, Linked next prev x y := by
  obtain ⟨as, bs, rfl⟩ := List.append_of_mem hx
  have hr := h.rotate
  cases bs with
  | nil =>
    cases as with
    | nil => exact ⟨x, hx, isRing_singleton.1 h⟩
    | cons a as => exact ⟨a, by simp, (List.isChain_cons_cons.1 hr.links).1⟩
  | cons b bs =>
    exact ⟨b, by simp, (List.isChain_cons_cons.1 (List.isChain_append.1 h.links).2.1).1⟩

/-- A node of a ring is linked to one before it. -/
theorem IsRing.exists_prev (h : IsRing next prev xs) (hx : x ∈ xs) :
    ∃ y ∈ xs, Linked next prev y x := by
  obtain ⟨as, bs, rfl⟩ := List.append_of_mem hx
  have hr := h.rotate
  rw [List.cons_append] at hr
  refine ⟨_, ?_, hr.close _ (List.getLast?_eq_some_getLast (List.cons_ne_nil _ _)) x rfl⟩
  have hmem := List.getLast_mem (List.cons_ne_nil x (bs ++ as))
  simp only [List.mem_cons, List.mem_append] at hmem ⊢
  tauto

/-- **On a ring the pointers are inverse to each other.** -/
theorem IsRing.next_eq_iff (h : IsRing next prev xs) (ha : a ∈ xs) (hb : b ∈ xs) :
    next a = some b ↔ prev b = some a := by
  constructor
  · intro hn
    obtain ⟨y, -, hy, hp⟩ := h.exists_next ha
    rw [hn, Option.some.injEq] at hy
    rwa [hy]
  · intro hp
    obtain ⟨y, -, hn, hy⟩ := h.exists_prev hb
    rw [hp, Option.some.injEq] at hy
    rwa [hy]

theorem last_notMem_dropLast (h : (xs ++ [a]).Nodup) : a ∉ (xs ++ [a]).dropLast := by
  rw [List.dropLast_concat]
  exact fun ha => (List.nodup_append.1 h).2.2 a ha a (by simp) rfl

/-- **Linking a node in** between the last node `l` and the first node `x`. -/
theorem IsRing.concat (h : IsRing next prev (x :: xs)) (ho : o ∉ x :: xs)
    (hl : (x :: xs).getLast (List.cons_ne_nil x xs) = b)
    (hon : next' o = some x) (hop : prev' o = some b) (hbn : next' b = some o)
    (hxp : prev' x = some o) (hn : ∀ y ∈ x :: xs, y ≠ b → next' y = next y)
    (hp : ∀ y ∈ x :: xs, y ≠ x → prev' y = prev y) : IsRing next' prev' (x :: xs ++ [o]) := by
  have hlast : (x :: xs).dropLast ++ [b] = x :: xs := by
    rw [← hl, List.dropLast_append_getLast]
  have hnot : b ∉ (x :: xs).dropLast := by
    have := last_notMem_dropLast (hlast ▸ h.nodup)
    rwa [hlast] at this
  refine ⟨?_, List.isChain_append.2 ⟨?_, List.isChain_singleton o, ?_⟩, ?_⟩
  · exact List.nodup_append.2 ⟨h.nodup, List.nodup_singleton o, fun y hy z hz hyz => by
      rw [List.mem_singleton] at hz
      exact ho (by rwa [← hz, ← hyz])⟩
  · refine links_congr h.links (fun y hy => ?_) (fun y hy => ?_)
    · exact hn y ((List.dropLast_subset _) hy) (fun he => hnot (he ▸ hy))
    · refine hp y (List.mem_of_mem_tail hy) (fun he => ?_)
      exact (List.nodup_cons.1 h.nodup).1 (he ▸ hy)
  · intro c hc d hd
    rw [List.getLast?_eq_some_getLast (List.cons_ne_nil x xs), hl, Option.mem_some_iff] at hc
    rw [List.head?_cons, Option.mem_some_iff] at hd
    subst hc hd
    exact ⟨hbn, hop⟩
  · intro c hc d hd
    rw [List.getLast?_concat, Option.mem_some_iff] at hc
    rw [List.cons_append, List.head?_cons, Option.mem_some_iff] at hd
    subst hc hd
    exact ⟨hon, hxp⟩

/-- **Taking the first node out:** the last node `b` and the second node `x`
are linked instead. -/
theorem IsRing.unlink (h : IsRing next prev (o :: x :: xs))
    (hl : (x :: xs).getLast (List.cons_ne_nil x xs) = b)
    (hbn : next' b = some x) (hxp : prev' x = some b)
    (hn : ∀ y ∈ x :: xs, y ≠ b → next' y = next y)
    (hp : ∀ y ∈ x :: xs, y ≠ x → prev' y = prev y) : IsRing next' prev' (x :: xs) := by
  have hnd : (x :: xs).Nodup := (List.nodup_cons.1 h.nodup).2
  have hlast : (x :: xs).dropLast ++ [b] = x :: xs := by
    rw [← hl, List.dropLast_append_getLast]
  have hnot : b ∉ (x :: xs).dropLast := by
    have := last_notMem_dropLast (hlast ▸ hnd)
    rwa [hlast] at this
  refine ⟨hnd, links_congr (List.isChain_cons_cons.1 h.links).2 (fun y hy => ?_)
    (fun y hy => ?_), ?_⟩
  · exact hn y ((List.dropLast_subset _) hy) (fun he => hnot (he ▸ hy))
  · refine hp y (List.mem_of_mem_tail hy) (fun he => ?_)
    exact (List.nodup_cons.1 hnd).1 (he ▸ hy)
  · intro c hc d hd
    rw [List.getLast?_eq_some_getLast (List.cons_ne_nil x xs), hl, Option.mem_some_iff] at hc
    rw [List.head?_cons, Option.mem_some_iff] at hd
    subst hc hd
    exact ⟨hbn, hxp⟩

/-! ### Walking a ring -/

/-- The nodes met following `next` from `x` until it leads back to `top` (or
to null), at most `fuel` of them. -/
def ringWalk [DecidableEq P] (next : P → Option P) (top : P) : ℕ → P → List P
  | 0, _ => []
  | fuel + 1, x => x ::
      match next x with
      | none => []
      | some y => if y = top then [] else ringWalk next top fuel y

/-- The nodes of the ring entered at `top`, null meaning the empty ring. -/
def ringFrom [DecidableEq P] (next : P → Option P) (fuel : ℕ) : Option P → List P
  | none => []
  | some top => ringWalk next top fuel top

/-- **A walk from inside the ring** passes what is left of it and stops at the
head. The induction is on what is left, with the elements passed in `ys`. -/
theorem ringWalk_eq [DecidableEq P] {fuel : ℕ} (ys : List P) (h : IsRing next prev (ys ++ x :: xs))
    (hf : xs.length < fuel) (ht : (ys ++ x :: xs).head? = some a) :
    ringWalk next a fuel x = x :: xs := by
  induction xs generalizing ys x fuel with
  | nil =>
    obtain ⟨fuel, rfl⟩ : ∃ k, fuel = k + 1 := ⟨fuel - 1, by simp at hf; omega⟩
    have hc : next x = some a := (h.close x (by simp) a ht).1
    simp [ringWalk, hc]
  | cons y xs ih =>
    obtain ⟨fuel, rfl⟩ : ∃ k, fuel = k + 1 := ⟨fuel - 1, by simp at hf; omega⟩
    have hy : y ≠ a := by
      rintro rfl
      cases ys with
      | nil =>
        rw [List.nil_append, List.head?_cons, Option.some.injEq] at ht
        exact (List.nodup_cons.1 h.nodup).1 (by simp [ht])
      | cons z ys =>
        rw [List.cons_append, List.head?_cons, Option.some.injEq] at ht
        exact (List.nodup_cons.1 h.nodup).1 (by simp [ht])
    rw [ringWalk, h.next_eq]
    simp only [hy, if_false]
    rw [ih (ys ++ [x]) (by simpa using h) (by simp at hf; omega) (by simpa using ht)]

/-- **The walk meets exactly the ring.** -/
theorem ringFrom_eq [DecidableEq P] {fuel : ℕ} (h : IsRing next prev xs) (hf : xs.length ≤ fuel) :
    ringFrom next fuel xs.head? = xs := by
  cases xs with
  | nil => rfl
  | cons x xs => exact ringWalk_eq [] h hf rfl

end CppExchange.Library
