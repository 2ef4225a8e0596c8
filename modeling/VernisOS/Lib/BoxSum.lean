import Mathlib.Algebra.Group.Action.Defs
import Mathlib.Algebra.Order.BigOperators.Ring.Finset
import Mathlib.Data.Nat.Notation

/-!
# Sums over a window that slides along a line

A window of radius `r` on a line of `len` places holds the places within distance `r` of its
centre (`near`). When the centre moves one place on, one place may come in ahead and one may
drop out behind (`sum_near_succ`), so a running sum can follow it. The mean over the window is at
most the largest value (`boxMean_le`).
-/

namespace BoxSum

/-- The places of the line within distance `r` of `i`. -/
def near (len r i : ℕ) : Finset ℕ :=
  (Finset.range len).filter fun j => i ≤ j + r ∧ j ≤ i + r

/-- The floor of the mean over the window. -/
def boxMean (f : ℕ → ℕ) (len r i : ℕ) : ℕ :=
  (∑ j ∈ near len r i, f j) / (near len r i).card

variable {len r i : ℕ}

theorem mem_near {j : ℕ} : j ∈ near len r i ↔ j < len ∧ i ≤ j + r ∧ j ≤ i + r := by
  rw [near, Finset.mem_filter, Finset.mem_range]

theorem self_mem_near (h : i < len) : i ∈ near len r i :=
  mem_near.mpr ⟨h, by omega, by omega⟩

theorem card_near_pos (h : i < len) : 0 < (near len r i).card :=
  Finset.card_pos.mpr ⟨i, self_mem_near h⟩

theorem card_near_le (len r i : ℕ) : (near len r i).card ≤ len :=
  (Finset.card_filter_le _ _).trans (Finset.card_range len).le

/-- The window at the start of the line. -/
theorem near_zero (h : 0 < len) : near len r 0 = Finset.range (min r (len - 1) + 1) := by
  ext j
  rw [mem_near, Finset.mem_range]
  omega

/-- The window one place on, with the place that drops out and the place that comes in. -/
theorem sum_near_succ (f : ℕ → ℕ) (h : i < len) :
    ∑ j ∈ near len r (i + 1), f j + (if r ≤ i then f (i - r) else 0) =
      ∑ j ∈ near len r i, f j + if i + r + 1 < len then f (i + r + 1) else 0 := by
  have hbehind : (if r ≤ i then f (i - r) else 0) =
      ∑ j ∈ Finset.range len, if j + r = i then f j else 0 := by
    by_cases hr : r ≤ i
    · rw [if_pos hr, Finset.sum_eq_single_of_mem (i - r) (Finset.mem_range.mpr (by omega))
        fun j _ hj => if_neg (by omega), if_pos (by omega)]
    · rw [if_neg hr]
      exact (Finset.sum_eq_zero fun j _ => if_neg (by omega)).symm
  have hahead : (if i + r + 1 < len then f (i + r + 1) else 0) =
      ∑ j ∈ Finset.range len, if i + r + 1 = j then f j else 0 := by
    simp only [Finset.sum_ite_eq, Finset.mem_range]
  rw [hbehind, hahead, near, near, Finset.sum_filter, Finset.sum_filter, ← Finset.sum_add_distrib,
    ← Finset.sum_add_distrib]
  refine Finset.sum_congr rfl fun j _ => ?_
  split <;> split <;> split <;> split <;> omega

theorem card_near_succ (h : i < len) :
    (near len r (i + 1)).card + (if r ≤ i then 1 else 0) =
      (near len r i).card + if i + r + 1 < len then 1 else 0 := by
  have hsum := sum_near_succ (fun _ => 1) h (r := r)
  simpa only [Finset.sum_const, smul_eq_mul, mul_one] using hsum

/-- The place that drops out is in the window. -/
theorem le_sum_near (f : ℕ → ℕ) (h : i < len) (hr : r ≤ i) : f (i - r) ≤ ∑ j ∈ near len r i, f j :=
  Finset.single_le_sum (fun _ _ => Nat.zero_le _) (mem_near.mpr ⟨by omega, by omega, by omega⟩)

theorem sum_near_le {f : ℕ → ℕ} {m : ℕ} (hf : ∀ j < len, f j ≤ m) (r i : ℕ) :
    ∑ j ∈ near len r i, f j ≤ (near len r i).card * m := by
  rw [← smul_eq_mul]
  exact Finset.sum_le_card_nsmul _ _ _ fun j hj => hf j (mem_near.mp hj).1

theorem boxMean_le {f : ℕ → ℕ} {m : ℕ} (hf : ∀ j < len, f j ≤ m) (r i : ℕ) :
    boxMean f len r i ≤ m :=
  Nat.div_le_of_le_mul (sum_near_le hf r i)

theorem boxMean_congr {f g : ℕ → ℕ} (h : ∀ j < len, f j = g j) (r i : ℕ) :
    boxMean f len r i = boxMean g len r i := by
  rw [boxMean, boxMean, Finset.sum_congr rfl fun j hj => h j (mem_near.mp hj).1]

end BoxSum
