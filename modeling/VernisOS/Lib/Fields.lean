import Mathlib.Data.List.Basic
import Mathlib.Data.List.TakeWhile

/-!
# Fields between separators

A scan to the first separator, over any alphabet : what stands before it, and behind it.
-/

namespace Fields

variable {α : Type*} [DecidableEq α] {sep : α} {s part rest : List α}

/-- A scan stops at the first separator. -/
theorem takeWhile_ne (h : sep ∉ part) (rest : List α) :
    (part ++ sep :: rest).takeWhile (· ≠ sep) = part := by
  have hall : ∀ a ∈ part, decide (a ≠ sep) = true := by
    rintro a ha
    exact decide_eq_true fun he => h (he ▸ ha)
  rw [List.takeWhile_append_of_pos hall]
  simp

/-- Without a separator a scan goes to the end. -/
theorem takeWhile_ne_of_notMem (h : sep ∉ s) : s.takeWhile (· ≠ sep) = s :=
  List.takeWhile_eq_self_iff.mpr fun _ ha => decide_eq_true fun he => h (he ▸ ha)

omit [DecidableEq α] in
/-- What stands behind the separator a scan stopped at. -/
theorem drop_ne (part rest : List α) : (part ++ sep :: rest).drop (part.length + 1) = rest := by
  rw [List.drop_append, List.drop_eq_nil_of_le (Nat.le_succ _), List.nil_append,
    Nat.add_sub_cancel_left, List.drop_one, List.tail_cons]

/-- A scan that does not go to the end stops at a separator. -/
theorem length_takeWhile_ne_eq_iff :
    (s.takeWhile (· ≠ sep)).length = s.length ↔ sep ∉ s := by
  constructor
  · intro h hmem
    have hself := ( List.takeWhile_prefix (p := (· ≠ sep)) (l := s)).eq_of_length h
    have hsep := List.takeWhile_eq_self_iff.mp hself sep hmem
    exact of_decide_eq_true hsep rfl
  · intro h
    rw [takeWhile_ne_of_notMem h]

end Fields
