import CppExchange.LFQueue

/-!
# A ring with its history

A `Channel` is a ring of `include/communication/lf_queue.h` with the items that
were pushed to it, those that pops gave out, and the pointer that the last pop
returned.  Its reader may use that pointer until the next pop, so a push has to
leave two slots, one that keeps the ring from looking empty and the one under
the pointer (`Channel.Roomy`).  Under such pushes a channel delivers what is
pushed, in order, and the pointer shows the item last given out
(`Channel.Carries`).
-/

namespace CppExchange

open Library

/-- A ring, the items pushed to it, those popped, and the pointer of the last
pop. -/
structure Channel (T : Type) (n : ℕ) where
  queue : LFQueue T n
  pushed : List T := []
  popped : List T := []
  item : Option (Fin n) := none

namespace Channel

variable {T : Type} {n : ℕ} [NeZero n]

/-- A new ring. -/
def new [Inhabited T] : Channel T n := { queue := .new }

def push (c : Channel T n) (x : T) : Channel T n :=
  { c with queue := c.queue.push x, pushed := c.pushed ++ [x] }

def pop (c : Channel T n) : Channel T n :=
  let (queue, item) := c.queue.pop
  { c with queue, item, popped := c.popped ++ (item.map queue.data).toList }

/-- What is read through the pointer, null when there is none. -/
def read (c : Channel T n) : Option T := c.item.map c.queue.data

/-- A push would leave two slots. -/
def Roomy (c : Channel T n) : Prop := c.pushed.length + 2 ≤ c.popped.length + n

instance (c : Channel T n) : Decidable c.Roomy := inferInstanceAs (Decidable (_ ≤ _))

/-- **The invariant.**  The items from the last one popped on are in their
slots. -/
structure Carries (c : Channel T n) : Prop where
  holds : c.queue.Holds c.pushed c.popped.length
  room : c.pushed.length < c.popped.length + n
  popped : c.popped = c.pushed.take c.popped.length
  kept : Window c.queue.data c.pushed (c.popped.length - 1)
  item : ∀ p, c.item = some p → 0 < c.popped.length ∧ p = slot n (c.popped.length - 1)

variable {c : Channel T n}

/-- A new channel has carried nothing. -/
theorem Carries.new [Inhabited T] : (Channel.new : Channel T n).Carries where
  holds := .new
  room := Nat.lt_add_left _ (Nat.pos_of_ne_zero (NeZero.ne n))
  popped := rfl
  kept := .nil
  item p hp := by cases hp

@[simp] theorem pushed_push {x : T} : (c.push x).pushed = c.pushed ++ [x] := rfl

@[simp] theorem popped_push {x : T} : (c.push x).popped = c.popped := rfl

@[simp] theorem item_push {x : T} : (c.push x).item = c.item := rfl

@[simp] theorem pushed_pop : c.pop.pushed = c.pushed := rfl

/-- A pop gives out one item at most. -/
theorem length_popped_pop_le : c.pop.popped.length ≤ c.popped.length + 1 := by
  rw [pop]
  cases c.queue.pop.2 <;> simp

theorem popped_prefix_pop : c.popped <+: c.pop.popped := List.prefix_append _ _

/-- A push takes nothing back. -/
theorem prefix_push (x : T) : c.pushed <+: (c.push x).pushed ∧ c.popped <+: (c.push x).popped :=
  ⟨List.prefix_append _ _, List.prefix_refl _⟩

/-- A pop takes nothing back. -/
theorem prefix_pop : c.pushed <+: c.pop.pushed ∧ c.popped <+: c.pop.popped :=
  ⟨List.prefix_refl _, popped_prefix_pop⟩

/-- **A push that finds room is carried:** the item is behind all that are in
flight. -/
theorem Carries.push (h : c.Carries) (hroom : c.Roomy) (x : T) : (c.push x).Carries where
  holds := h.holds.push x h.room
  room := by
    rw [Roomy] at hroom
    rw [pushed_push, popped_push, List.length_append, List.length_singleton]
    omega
  popped := by
    rw [pushed_push, popped_push, List.take_append_of_le_length h.holds.behind]
    exact h.popped
  kept := by
    rw [Roomy] at hroom
    have hkept := h.kept.push (x := x) (by omega)
    rwa [← h.holds.write] at hkept
  item := h.item

/-- **A pop** gives out the oldest item that was not popped, or null when all
were. -/
theorem Carries.pop_cases (h : c.Carries) :
    c.popped = c.pushed ∧ c.pop.item = none ∧ c.pop.popped = c.popped ∧ c.pop.Carries ∨
      ∃ x rest, c.pushed = c.popped ++ x :: rest ∧ c.pop.item ≠ none ∧
        c.pop.popped = c.popped ++ [x] ∧ c.pop.Carries := by
  rcases h.holds.pop h.room with ⟨he, hp⟩ | ⟨hlt, hp⟩
  · have hpop : c.pop = { c with item := none } := by
      simp only [pop, hp, Option.map_none, Option.toList_none, List.append_nil]
    have hall : c.popped = c.pushed := by
      rw [h.popped, ← he, List.take_length]
    rw [hpop]
    exact Or.inl ⟨hall, rfl, rfl, h.holds, h.room, h.popped, h.kept, fun p hp => by cases hp⟩
  · have hx := h.holds.head hlt
    set x := c.queue.data c.queue.nextReadIndex with hxdef
    have hpop : c.pop = { c with
        queue := c.queue.advanceRead
        item := some c.queue.nextReadIndex
        popped := c.popped ++ [x] } := by
      simp only [pop, hp]
      rfl
    have hlen : (c.popped ++ [x]).length = c.popped.length + 1 := List.length_append
    have hsplit : c.pushed = c.popped ++ x :: c.pushed.drop (c.popped.length + 1) := by
      have hget : c.pushed[c.popped.length] = x :=
        Option.some.inj ((List.getElem?_eq_getElem hlt).symm.trans hx)
      have hdrop := List.drop_eq_getElem_cons hlt
      rw [hget] at hdrop
      have htake := List.take_append_drop c.popped.length c.pushed
      rw [← h.popped, hdrop] at htake
      exact htake.symm
    have hroom := h.room
    rw [hpop]
    refine Or.inr ⟨x, _, hsplit, by simp, rfl, ?_, ?_, ?_, ?_, ?_⟩
    · simp only [hlen]
      exact h.holds.advanceRead hlt
    · simp only [hlen]
      omega
    · simp only [hlen]
      rw [List.take_add_one, hx, ← h.popped]
      rfl
    · simp only [hlen]
      exact h.kept.mono (by omega)
    · rintro p hp
      simp only [hlen]
      exact ⟨Nat.succ_pos _, (Option.some.inj hp).symm.trans h.holds.read⟩

theorem Carries.pop (h : c.Carries) : c.pop.Carries := by
  rcases h.pop_cases with ⟨-, -, -, hc⟩ | ⟨x, rest, -, -, -, hc⟩ <;> exact hc

/-- What was popped is the beginning of what was pushed. -/
theorem Carries.isPrefix (h : c.Carries) : c.popped <+: c.pushed := by
  rw [h.popped]
  exact List.take_prefix _ _

/-- **The pointer shows the item last given out,** whatever was pushed since. -/
theorem Carries.read_eq (h : c.Carries) (hi : c.item ≠ none) :
    ∃ xs x, c.popped = xs ++ [x] ∧ c.read = some x := by
  obtain ⟨p, hp⟩ := Option.ne_none_iff_exists'.1 hi
  obtain ⟨hpos, rfl⟩ := h.item p hp
  have hne : c.popped ≠ [] := List.length_pos_iff.1 hpos
  refine ⟨c.popped.dropLast, c.popped.getLast hne, (List.dropLast_concat_getLast hne).symm, ?_⟩
  have hlt : c.popped.length - 1 < c.pushed.length := by
    have := h.holds.behind
    omega
  have hlast : c.pushed[c.popped.length - 1]? = some (c.popped.getLast hne) := by
    rw [← List.getElem?_take_of_lt (show c.popped.length - 1 < c.popped.length by omega),
      ← h.popped, List.getLast_eq_getElem]
    exact List.getElem?_eq_getElem (by omega)
  rw [read, hp, Option.map_some, h.kept.kept _ _ le_rfl hlast]

/-- The ring is empty when all that was pushed was popped. -/
theorem Carries.empty_iff (h : c.Carries) : c.queue.empty = true ↔ c.popped = c.pushed := by
  have hroom := h.room
  rw [h.holds.empty_iff]
  constructor
  · rintro (he | he)
    · rw [h.popped, ← he, List.take_length]
    · omega
  · intro he
    exact Or.inl (congrArg List.length he.symm)

end Channel

end CppExchange
