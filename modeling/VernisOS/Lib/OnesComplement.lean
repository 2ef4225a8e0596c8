import Mathlib.Data.Nat.ModEq

/-!
# Sums in one's complement

A number in base `B` is folded by adding what carries out of the lowest digit back into it
(`endAround`). A fold keeps the residue modulo `B - 1` and is never zero, so two folds of a number
below `B * B` leave the one digit in `1 … B - 1` that has its residue (`foldTwice`). Adding the
complement of that digit gives a sum that folds to `B - 1` (`foldTwice_add_complement`).
-/

namespace OnesComplement

variable {B n : ℕ}

/-- What carries out of the lowest digit is added to it. -/
def endAround (B n : ℕ) : ℕ :=
  n % B + n / B

/-- Two folds. -/
def foldTwice (B n : ℕ) : ℕ :=
  endAround B (endAround B n)

theorem endAround_modEq (hB : 1 < B) (n : ℕ) : endAround B n ≡ n [MOD B - 1] := by
  have hone : B ≡ 1 [MOD B - 1] := by
    have h := Nat.ModEq.refl (n := B - 1) 1
    calc B = B - 1 + 1 := by omega
      _ ≡ 0 + 1 [MOD B - 1] := Nat.ModEq.add_right 1 (Nat.modEq_zero_iff_dvd.mpr dvd_rfl)
      _ = 1 := Nat.zero_add 1
  calc endAround B n = n % B + 1 * (n / B) := by rw [endAround, one_mul]
    _ ≡ n % B + B * (n / B) [MOD B - 1] :=
      Nat.ModEq.add_left _ (Nat.ModEq.mul_right _ hone.symm)
    _ = n := Nat.mod_add_div n B

theorem endAround_pos (hn : 0 < n) : 0 < endAround B n := by
  have h := Nat.mod_add_div n B
  unfold endAround
  by_contra hzero
  obtain ⟨hmod, hdiv⟩ := Nat.add_eq_zero_iff.mp (Nat.eq_zero_of_not_pos hzero)
  rw [hmod, hdiv, Nat.mul_zero] at h
  omega

theorem endAround_of_lt (h : n < B) : endAround B n = n := by
  rw [endAround, Nat.mod_eq_of_lt h, Nat.div_eq_of_lt h, Nat.add_zero]

theorem foldTwice_modEq (hB : 1 < B) (n : ℕ) : foldTwice B n ≡ n [MOD B - 1] :=
  (endAround_modEq hB _).trans (endAround_modEq hB n)

theorem foldTwice_pos (hn : 0 < n) : 0 < foldTwice B n :=
  endAround_pos (endAround_pos hn)

/-- Two folds of a number of two digits leave one. -/
theorem foldTwice_lt (hB : 1 < B) (hn : n < B * B) : foldTwice B n < B := by
  have hmod : n % B < B := Nat.mod_lt n (by omega)
  have hdiv : n / B < B := Nat.div_lt_of_lt_mul hn
  unfold foldTwice
  by_cases hsmall : endAround B n < B
  · rwa [endAround_of_lt hsmall]
  · have hsum : endAround B n = n % B + n / B := rfl
    have hrest : endAround B n - B < B := by omega
    have hcarry : endAround B n = endAround B n - B + B * 1 := by omega
    rw [hcarry, endAround, Nat.add_mul_mod_self_left, Nat.add_mul_div_left _ _ (by omega),
      Nat.mod_eq_of_lt hrest, Nat.div_eq_of_lt hrest]
    omega

/-- A sum with the complement of its fold folds to the greatest digit. -/
theorem foldTwice_add_complement (hB : 1 < B) (hn : 0 < n)
    (hsum : n + (B - 1 - foldTwice B n) < B * B) :
    foldTwice B (n + (B - 1 - foldTwice B n)) = B - 1 := by
  have hlt : foldTwice B n < B := foldTwice_lt hB (by omega)
  set f := foldTwice B n with hf
  have hmod : n + (B - 1 - f) ≡ 0 [MOD B - 1] := by
    calc n + (B - 1 - f) ≡ f + (B - 1 - f) [MOD B - 1] :=
          Nat.ModEq.add_right _ (foldTwice_modEq hB n).symm
      _ = B - 1 := by omega
      _ ≡ 0 [MOD B - 1] := Nat.modEq_zero_iff_dvd.mpr dvd_rfl
  have hdvd : B - 1 ∣ foldTwice B (n + (B - 1 - f)) :=
    Nat.modEq_zero_iff_dvd.mp ((foldTwice_modEq hB _).trans hmod)
  have hpos : 0 < foldTwice B (n + (B - 1 - f)) := foldTwice_pos (by omega)
  have hle : B - 1 ≤ foldTwice B (n + (B - 1 - f)) := Nat.le_of_dvd hpos hdvd
  have hbound := foldTwice_lt hB hsum
  omega

end OnesComplement
