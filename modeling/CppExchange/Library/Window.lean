import Mathlib.Algebra.NeZero
import Mathlib.Data.Nat.ModEq
import Mathlib.Logic.Function.Basic

/-!
# A window of items in a ring of slots

Item `i` of a sequence that is never cut off goes to slot `i % n`.  A ring of
`n` slots then holds the last items of the sequence, up to `n` of them:
`Window slots items low` says that the items from `low` on are still there.
A new item leaves the window as long as there is a slot for it
(`Window.push`).
-/

namespace CppExchange.Library

variable {α : Type} {n i j low low' : ℕ} [NeZero n] {slots : Fin n → α} {items : List α} {x : α}

/-- The slot of the item `i`. -/
def slot (n : ℕ) [NeZero n] (i : ℕ) : Fin n :=
  ⟨i % n, Nat.mod_lt _ (Nat.pos_of_ne_zero (NeZero.ne n))⟩

/-- Items closer than `n` have slots of their own. -/
theorem slot_ne (h : i < j) (hn : j < i + n) : slot n i ≠ slot n j := by
  intro he
  have hmod : i % n = j % n := congrArg Fin.val he
  have hdvd : n ∣ j - i := (Nat.modEq_iff_dvd' h.le).1 hmod
  have hle := Nat.le_of_dvd (by omega) hdvd
  omega

/-- Within one round the slots tell the positions apart. -/
theorem slot_inj (h : i ≤ j) (hn : j < i + n) : slot n i = slot n j ↔ i = j := by
  constructor
  · intro he
    by_contra hne
    exact slot_ne (by omega) hn he
  · rintro rfl
    rfl

/-- After one round a slot comes back. -/
theorem slot_add_self : slot n (i + n) = slot n i := Fin.ext (Nat.add_mod_right i n)

/-- The items from `low` on are in their slots. -/
structure Window (slots : Fin n → α) (items : List α) (low : ℕ) : Prop where
  width : items.length ≤ low + n
  kept : ∀ i x, low ≤ i → items[i]? = some x → slots (slot n i) = x

/-- Nothing was put into the slots yet. -/
theorem Window.nil : Window slots [] 0 :=
  ⟨Nat.zero_le _, fun i x _ hx => by cases hx⟩

/-- The window may be made smaller. -/
theorem Window.mono (h : Window slots items low) (hle : low ≤ low') :
    Window slots items low' :=
  ⟨by have := h.width; omega, fun i x hi => h.kept i x (by omega)⟩

/-- The slots tell the items. -/
theorem Window.eq_of_length {items' : List α} (h : Window slots items 0)
    (h' : Window slots items' 0) (hlen : items.length = items'.length) : items = items' := by
  refine List.ext_getElem hlen fun i hi hi' => ?_
  rw [← h.kept i _ (Nat.zero_le i) (List.getElem?_eq_getElem hi),
    ← h'.kept i _ (Nat.zero_le i) (List.getElem?_eq_getElem hi')]

/-- **One more item,** in a slot that no item of the window has. -/
theorem Window.push (h : Window slots items low) (hw : items.length < low + n) :
    Window (Function.update slots (slot n items.length) x) (items ++ [x]) low := by
  refine ⟨by rw [List.length_append, List.length_singleton]; omega, fun i y hi hy => ?_⟩
  rcases lt_trichotomy i items.length with hlt | rfl | hgt
  · rw [List.getElem?_append_left hlt] at hy
    rw [Function.update_of_ne (slot_ne hlt (by omega))]
    exact h.kept i y hi hy
  · rw [List.getElem?_append_right le_rfl, Nat.sub_self] at hy
    rw [Function.update_self]
    exact Option.some.inj hy
  · rw [List.getElem?_eq_none (by rw [List.length_append, List.length_singleton]; omega)] at hy
    cases hy

end CppExchange.Library
