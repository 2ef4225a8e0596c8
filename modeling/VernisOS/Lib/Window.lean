import Mathlib.Data.List.Sort
import Mathlib.Order.Lattice

/-!
# Sliding windows

A queue of items in the order of their times, from whose front the items before a cutoff are
dropped. Dropping them leaves the items at or after the cutoff (`dropWhile_eq_filter`), so a
queue that was trimmed several times holds the items that no cutoff has passed.
-/

namespace Window

variable {α τ : Type*} [LinearOrder τ] {time : α → τ}

/-- The items are in the order of their times. -/
def InOrder (time : α → τ) (items : List α) : Prop :=
  items.Pairwise fun a b => time a ≤ time b

theorem InOrder.filter {items : List α} (h : InOrder time items) (p : α → Bool) :
    InOrder time (items.filter p) :=
  List.Pairwise.filter p h

theorem InOrder.append {items : List α} {a : α} (h : InOrder time items)
    (ha : ∀ b ∈ items, time b ≤ time a) : InOrder time (items ++ [a]) := by
  refine List.pairwise_append.mpr ⟨h, List.pairwise_singleton _ _, ?_⟩
  intro b hb c hc
  rw [List.mem_singleton.mp hc]
  exact ha b hb

/-- Dropping from the front what lies before a cutoff drops all of it. -/
theorem dropWhile_eq_filter {items : List α} (h : InOrder time items) (cutoff : τ)
    {p : α → Bool} (hp : ∀ a, p a = true ↔ time a < cutoff) :
    items.dropWhile p = items.filter fun a => decide (cutoff ≤ time a) := by
  induction items with
  | nil => rfl
  | cons a items ih =>
    obtain ⟨hfirst, hrest⟩ := List.pairwise_cons.mp h
    by_cases ha : time a < cutoff
    · rw [List.dropWhile_cons_of_pos ((hp a).mpr ha), ih hrest,
        List.filter_cons_of_neg (by simpa using ha)]
    · have hkept : ∀ b ∈ a :: items, decide (cutoff ≤ time b) = true := by
        intro b hb
        rcases List.mem_cons.mp hb with rfl | hb
        · exact decide_eq_true (not_lt.mp ha)
        · exact decide_eq_true ((not_lt.mp ha).trans (hfirst b hb))
      rw [List.dropWhile_cons_of_neg (mt (hp a).mp ha), List.filter_eq_self.mpr hkept]

end Window
