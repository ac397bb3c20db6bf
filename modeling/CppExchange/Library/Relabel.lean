import Mathlib.Data.List.AList
import Mathlib.Logic.Embedding.Basic

/-!
# Maps under other names

`relabel f g m` is the map `m` with its keys renamed by the injection `f` and its
values changed by `g`, entry by entry.  A lookup and an insertion see no
difference but the names (`lookup_relabel`, `insert_relabel`).
-/

namespace CppExchange.Library

variable {K K' V V' : Type} {f : K ↪ K'} {g : V → V'} {m : AList fun _ : K => V} {k : K} {v : V}

/-- An entry with its key renamed and its value changed. -/
def relabelEntry (f : K ↪ K') (g : V → V') (e : Σ _ : K, V) : Σ _ : K', V' := ⟨f e.1, g e.2⟩

theorem keys_map_relabelEntry (es : List (Σ _ : K, V)) :
    (es.map (relabelEntry f g)).keys = es.keys.map f := by
  simp only [List.keys, List.map_map]
  rfl

/-- A map with its keys renamed and its values changed. -/
def relabel (f : K ↪ K') (g : V → V') (m : AList fun _ : K => V) : AList fun _ : K' => V' where
  entries := m.entries.map (relabelEntry f g)
  nodupKeys := by
    rw [List.NodupKeys, keys_map_relabelEntry]
    exact m.nodupKeys.map f.injective

theorem keys_relabel : (relabel f g m).keys = m.keys.map f := keys_map_relabelEntry m.entries

theorem mem_relabel : f k ∈ relabel f g m ↔ k ∈ m := by
  rw [AList.mem_keys, keys_relabel, List.mem_map_of_injective f.injective, AList.mem_keys]

@[simp] theorem relabel_empty : relabel f g (∅ : AList fun _ : K => V) = ∅ := rfl

variable [DecidableEq K] [DecidableEq K']

/-- **A lookup** under the new name finds the changed value. -/
theorem lookup_relabel : (relabel f g m).lookup (f k) = (m.lookup k).map g := by
  show (m.entries.map (relabelEntry f g)).dlookup (f k) = (m.entries.dlookup k).map g
  induction m.entries with
  | nil => rfl
  | cons e es ih =>
    obtain ⟨k', v⟩ := e
    rw [List.map_cons]
    by_cases hk : k' = k
    · subst hk
      rw [relabelEntry, List.dlookup_cons_eq, List.dlookup_cons_eq, Option.map_some]
    · have hf : (f k : K') ≠ (relabelEntry f g ⟨k', v⟩).1 := fun he => hk (f.injective he).symm
      have hcons : (⟨k', v⟩ :: es : List (Σ _ : K, V)).dlookup k = es.dlookup k :=
        List.dlookup_cons_ne _ _ (Ne.symm hk)
      rw [hcons, ← ih]
      exact List.dlookup_cons_ne _ _ hf

/-- Erasing a key commutes with relabelling. -/
theorem kerase_map_relabelEntry (es : List (Σ _ : K, V)) :
    (es.map (relabelEntry f g)).kerase (f k) = (es.kerase k).map (relabelEntry f g) := by
  induction es with
  | nil => rfl
  | cons e es ih =>
    rw [List.map_cons]
    by_cases hk : k = e.1
    · rw [List.kerase_cons_eq hk, List.kerase_cons_eq (by rw [hk]; rfl)]
    · have hf : (f k : K') ≠ (relabelEntry f g e).1 := fun he => hk (f.injective he)
      rw [List.kerase_cons_ne hk, List.kerase_cons_ne hf, ih, List.map_cons]

/-- **An insertion** under the new name inserts the changed value. -/
theorem insert_relabel : relabel f g (m.insert k v) = (relabel f g m).insert (f k) (g v) := by
  refine AList.ext ?_
  show (List.kinsert k v m.entries).map (relabelEntry f g) =
    List.kinsert (f k) (g v) (m.entries.map (relabelEntry f g))
  rw [List.kinsert_def, List.kinsert_def, List.map_cons, kerase_map_relabelEntry]
  rfl

end CppExchange.Library
