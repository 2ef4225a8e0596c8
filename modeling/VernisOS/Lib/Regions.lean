import Mathlib.Data.Nat.Notation
import Mathlib.Logic.Function.Basic

/-!
# Regions side by side

Regions of addresses in numbered places. They are packed between two bounds if all lie between
them and no two overlap. A region that starts at the upper bound can be added, whatever places
below have been emptied (`Packed.push`) : the bound only grows, and what is freed is never used
again.
-/

namespace Regions

/-- The addresses from `start` to `stop`. -/
structure Region where
  start : ℕ
  stop : ℕ

/-- One of them ends before the other starts. -/
def Region.Apart (r r' : Region) : Prop :=
  r.stop ≤ r'.start ∨ r'.stop ≤ r.start

theorem Region.Apart.symm {r r' : Region} (h : r.Apart r') : r'.Apart r :=
  Or.symm h

/-- All regions lie between two bounds, and no two overlap. -/
structure Packed {ι : Type*} (lo hi : ℕ) (r : ι → Option Region) : Prop where
  within : ∀ i x, r i = some x → lo ≤ x.start ∧ x.stop ≤ hi
  apart : ∀ i j x y, i ≠ j → r i = some x → r j = some y → x.Apart y

namespace Packed

variable {ι : Type*} {lo hi hi' : ℕ} {r : ι → Option Region}

theorem empty (h : ∀ i, r i = none) : Packed lo hi r := by
  refine ⟨fun i x hx => ?_, fun i j x y _ hx => ?_⟩
  · rw [h i] at hx
    cases hx
  · rw [h i] at hx
    cases hx

theorem mono (h : Packed lo hi r) (hle : hi ≤ hi') : Packed lo hi' r :=
  ⟨fun i x hx => ⟨(h.within i x hx).1, Nat.le_trans (h.within i x hx).2 hle⟩, h.apart⟩

variable [DecidableEq ι]

/-- A place is emptied. -/
theorem free (h : Packed lo hi r) (i : ι) : Packed lo hi (Function.update r i none) := by
  have hold : ∀ j x, Function.update r i none j = some x → r j = some x := by
    intro j x hx
    by_cases hj : j = i
    · rw [hj, Function.update_self] at hx
      cases hx
    · rw [Function.update_of_ne hj] at hx
      exact hx
  exact ⟨fun j x hx => h.within j x (hold j x hx),
    fun j k x y hne hx hy => h.apart j k x y hne (hold j x hx) (hold k y hy)⟩

/-- A region is added at the upper bound. -/
theorem push (h : Packed lo hi r) (hlo : lo ≤ hi) (i : ι) (len : ℕ) :
    Packed lo (hi + len) (Function.update r i (some ⟨hi, hi + len⟩)) := by
  have hcase : ∀ j x, Function.update r i (some ⟨hi, hi + len⟩) j = some x →
      j = i ∧ x = ⟨hi, hi + len⟩ ∨ j ≠ i ∧ r j = some x := by
    intro j x hx
    by_cases hj : j = i
    · rw [hj, Function.update_self] at hx
      exact Or.inl ⟨hj, (Option.some.inj hx).symm⟩
    · rw [Function.update_of_ne hj] at hx
      exact Or.inr ⟨hj, hx⟩
  refine ⟨fun j x hx => ?_, fun j k x y hne hx hy => ?_⟩
  · rcases hcase j x hx with ⟨-, rfl⟩ | ⟨-, hx⟩
    · exact ⟨hlo, Nat.le_refl _⟩
    · obtain ⟨hstart, hstop⟩ := h.within j x hx
      exact ⟨hstart, Nat.le_trans hstop (Nat.le_add_right _ _)⟩
  · rcases hcase j x hx with ⟨hj, rfl⟩ | ⟨-, hx⟩
    · rcases hcase k y hy with ⟨hk, -⟩ | ⟨-, hy⟩
      · exact absurd (hj.trans hk.symm) hne
      · exact Or.inr (h.within k y hy).2
    · rcases hcase k y hy with ⟨-, rfl⟩ | ⟨-, hy⟩
      · exact Or.inl (h.within j x hx).2
      · exact h.apart j k x y hne hx hy

end Packed

end Regions
