import Mathlib.Order.Lattice
import Mathlib.Data.Nat.Notation

/-!
# The first maximum of a walk

A walk over the numbers below a bound that keeps the best so far, and changes it only for a key that
is strictly above. It ends with the first number whose key is the greatest, if some key is above the
value that the walk starts with.
-/

namespace FirstMax

variable {κ : Type*} [LinearOrder κ]

/-- One step of the walk. -/
def better (key : ℕ → Option κ) (best : Option ℕ × κ) (i : ℕ) : Option ℕ × κ :=
  match key i with
  | none => best
  | some v => if best.2 < v then (some i, v) else best

/-- The walk over the numbers below `n`. -/
def walk (key : ℕ → Option κ) (floor : κ) (n : ℕ) : Option ℕ × κ :=
  (List.range n).foldl (better key) (none, floor)

/-- `i` is the first number below `n` with the greatest key, and that is above `floor`. -/
structure IsFirst (key : ℕ → Option κ) (floor : κ) (n i : ℕ) (v : κ) : Prop where
  lt : i < n
  key_eq : key i = some v
  above : floor < v
  le : ∀ j < n, ∀ w, key j = some w → w ≤ v
  before : ∀ j < i, ∀ w, key j = some w → w < v

theorem walk_succ (key : ℕ → Option κ) (floor : κ) (n : ℕ) :
    walk key floor (n + 1) = better key (walk key floor n) n := by
  rw [walk, List.range_succ, List.foldl_append]
  rfl

/-- What the walk ends with. -/
theorem walk_cases (key : ℕ → Option κ) (floor : κ) (n : ℕ) :
    (walk key floor n = (none, floor) ∧ ∀ j < n, ∀ w, key j = some w → w ≤ floor) ∨
      ∃ i v, walk key floor n = (some i, v) ∧ IsFirst key floor n i v := by
  induction n with
  | zero => exact Or.inl ⟨rfl, fun j hj => absurd hj (Nat.not_lt_zero j)⟩
  | succ n ih =>
    rw [walk_succ]
    have hlast : ∀ j < n + 1, j < n ∨ j = n := fun j hj => by omega
    rcases ih with ⟨hwalk, hle⟩ | ⟨i, v, hwalk, hfirst⟩
    · rw [hwalk, better]
      cases hkey : key n with
      | none =>
        refine Or.inl ⟨rfl, fun j hj w hw => ?_⟩
        rcases hlast j hj with hlt | rfl
        · exact hle j hlt w hw
        · rw [hkey] at hw
          cases hw
      | some u =>
        dsimp only
        by_cases hu : floor < u
        · rw [if_pos hu]
          refine Or.inr ⟨n, u, rfl, Nat.lt_succ_self n, hkey, hu, fun j hj w hw => ?_,
            fun j hj w hw => (hle j hj w hw).trans_lt hu⟩
          rcases hlast j hj with hlt | rfl
          · exact ((hle j hlt w hw).trans_lt hu).le
          · rw [hkey] at hw
            exact (Option.some.inj hw).ge
        · rw [if_neg hu]
          refine Or.inl ⟨rfl, fun j hj w hw => ?_⟩
          rcases hlast j hj with hlt | rfl
          · exact hle j hlt w hw
          · rw [hkey] at hw
            exact Option.some.inj hw ▸ not_lt.mp hu
    · rw [hwalk, better]
      cases hkey : key n with
      | none =>
        refine Or.inr ⟨i, v, rfl, Nat.lt_succ_of_lt hfirst.lt, hfirst.key_eq, hfirst.above,
          fun j hj w hw => ?_, hfirst.before⟩
        rcases hlast j hj with hlt | rfl
        · exact hfirst.le j hlt w hw
        · rw [hkey] at hw
          cases hw
      | some u =>
        dsimp only
        by_cases hu : v < u
        · rw [if_pos hu]
          refine Or.inr ⟨n, u, rfl, Nat.lt_succ_self n, hkey, hfirst.above.trans hu,
            fun j hj w hw => ?_, fun j hj w hw => (hfirst.le j hj w hw).trans_lt hu⟩
          rcases hlast j hj with hlt | rfl
          · exact ((hfirst.le j hlt w hw).trans_lt hu).le
          · rw [hkey] at hw
            exact (Option.some.inj hw).ge
        · rw [if_neg hu]
          refine Or.inr ⟨i, v, rfl, Nat.lt_succ_of_lt hfirst.lt, hfirst.key_eq,
            hfirst.above, fun j hj w hw => ?_, hfirst.before⟩
          rcases hlast j hj with hlt | rfl
          · exact hfirst.le j hlt w hw
          · rw [hkey] at hw
            exact Option.some.inj hw ▸ not_lt.mp hu

/-- There is one first maximum. -/
theorem IsFirst.unique {key : ℕ → Option κ} {floor : κ} {n i j : ℕ} {v w : κ}
    (hi : IsFirst key floor n i v) (hj : IsFirst key floor n j w) : i = j := by
  rcases Nat.lt_trichotomy i j with hlt | heq | hgt
  · exact absurd (hj.before i hlt v hi.key_eq) (hi.le j hj.lt w hj.key_eq).not_gt
  · exact heq
  · exact absurd (hi.before j hgt w hj.key_eq) (hj.le i hi.lt v hi.key_eq).not_gt

/-- The walk finds a number exactly if it is the first maximum. -/
theorem walk_eq_some_iff {key : ℕ → Option κ} {floor : κ} {n i : ℕ} :
    (walk key floor n).1 = some i ↔ ∃ v, IsFirst key floor n i v := by
  rcases walk_cases key floor n with ⟨hwalk, hle⟩ | ⟨j, v, hwalk, hfirst⟩
  · rw [hwalk]
    refine iff_of_false (Option.some_ne_none i).symm ?_
    rintro ⟨v, hv⟩
    exact absurd hv.above (hle i hv.lt v hv.key_eq).not_gt
  · rw [hwalk]
    constructor
    · rintro ⟨⟩
      exact ⟨v, hfirst⟩
    · rintro ⟨w, hw⟩
      rw [hfirst.unique hw]

/-- The walk finds nothing exactly if no key is above the value it starts with. -/
theorem walk_eq_none_iff {key : ℕ → Option κ} {floor : κ} {n : ℕ} :
    (walk key floor n).1 = none ↔ ∀ j < n, ∀ w, key j = some w → w ≤ floor := by
  rcases walk_cases key floor n with ⟨hwalk, hle⟩ | ⟨j, v, hwalk, hfirst⟩
  · rw [hwalk]
    exact iff_of_true rfl hle
  · rw [hwalk]
    refine iff_of_false (Option.some_ne_none j) fun h => ?_
    exact absurd hfirst.above (h j hfirst.lt v hfirst.key_eq).not_gt

end FirstMax
