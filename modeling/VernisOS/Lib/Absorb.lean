import Mathlib.Data.List.Count
import Mathlib.Order.Basic

/-!
# Growing a value until it covers all it touches

A value takes in the items it touches, one after the other (`pass`), and the passes are repeated
until one changes nothing (`loop`). If taking in an item makes the value larger and changes
nothing once the value covers the item (`Rules`), every pass that changes something covers an
item that was not covered before. So there are at most as many such passes as items, and at the
end the value covers every item that it touches (`Rules.covers_loop`).
-/

namespace Absorb

variable {α ι : Type*}

/-- One pass over the items. -/
def pass (touches : α → ι → Bool) (absorb : α → ι → α) (items : List ι) (a : α) : α :=
  items.foldl (fun a i => if touches a i then absorb a i else a) a

/-- Passes until one changes nothing. -/
def loop [DecidableEq α] (touches : α → ι → Bool) (absorb : α → ι → α) (items : List ι) :
    ℕ → α → α
  | 0, a => a
  | fuel + 1, a =>
    if pass touches absorb items a = a then a
    else loop touches absorb items fuel (pass touches absorb items a)

/-- What taking in an item does to a value that may cover items. -/
structure Rules [PartialOrder α] (absorb : α → ι → α) (covers : α → ι → Prop) : Prop where
  le_absorb : ∀ a i, a ≤ absorb a i
  covers_absorb : ∀ a i, covers (absorb a i) i
  covers_mono : ∀ {a b i}, a ≤ b → covers a i → covers b i
  absorb_eq_self : ∀ {a i}, covers a i → absorb a i = a

namespace Rules

variable [PartialOrder α] {touches : α → ι → Bool} {absorb : α → ι → α} {covers : α → ι → Prop}
  {items : List ι} {a : α}

theorem le_pass (h : Rules absorb covers) (touches : α → ι → Bool) :
    ∀ (items : List ι) (a : α), a ≤ pass touches absorb items a
  | [], a => le_refl a
  | i :: items, a => by
    unfold pass
    rw [List.foldl_cons]
    split
    · exact (h.le_absorb a i).trans (le_pass h touches items _)
    · exact le_pass h touches items a

/-- A value that a pass leaves as it is covers every item that it touches. -/
theorem covers_of_pass_eq_self (h : Rules absorb covers) :
    ∀ {items : List ι}, pass touches absorb items a = a →
      ∀ i ∈ items, touches a i = true → covers a i
  | [], _, i, hi, _ => absurd hi List.not_mem_nil
  | j :: items, hpass, i, hi, htouches => by
    unfold pass at hpass
    rw [List.foldl_cons] at hpass
    -- the first step changes nothing, as the later ones only make the value larger
    have hstep : (if touches a j then absorb a j else a) = a := by
      refine le_antisymm (le_of_le_of_eq (h.le_pass touches items _) hpass) ?_
      split
      · exact h.le_absorb a j
      · exact le_refl a
    rw [hstep] at hpass
    rcases List.mem_cons.mp hi with rfl | hi
    · rw [if_pos htouches] at hstep
      have hcovers := h.covers_absorb a i
      rwa [hstep] at hcovers
    · exact covers_of_pass_eq_self h hpass i hi htouches

/-- A pass that changes the value covers an item that was not covered. -/
theorem exists_covered (h : Rules absorb covers) :
    ∀ {items : List ι}, pass touches absorb items a ≠ a →
      ∃ i ∈ items, ¬ covers a i ∧ covers (pass touches absorb items a) i
  | [], hpass => absurd rfl hpass
  | i :: items, hpass => by
    unfold pass at hpass ⊢
    rw [List.foldl_cons] at hpass ⊢
    by_cases hstep : (if touches a i then absorb a i else a) = a
    · rw [hstep] at hpass ⊢
      obtain ⟨j, hj, hnew, hcovers⟩ := exists_covered h hpass
      exact ⟨j, List.mem_cons_of_mem i hj, hnew, hcovers⟩
    · by_cases htouches : touches a i = true
      · rw [if_pos htouches] at hstep ⊢
        exact ⟨i, List.mem_cons_self, fun hc => hstep (h.absorb_eq_self hc),
          h.covers_mono (h.le_pass touches items _) (h.covers_absorb a i)⟩
      · exact absurd (if_neg htouches) hstep

variable [∀ a, DecidablePred (covers a)]

/-- How many items the value does not cover. -/
def uncovered (covers : α → ι → Prop) [∀ a, DecidablePred (covers a)] (items : List ι) (a : α) :
    ℕ :=
  items.countP fun i => ¬ covers a i

theorem countP_lt {p q : ι → Bool} :
    ∀ {items : List ι}, (∀ i ∈ items, p i = true → q i = true) →
      (∃ i ∈ items, p i = false ∧ q i = true) → items.countP p < items.countP q
  | [], _, ⟨i, hi, _⟩ => absurd hi List.not_mem_nil
  | j :: items, himp, ⟨i, hi, hp, hq⟩ => by
    have hle : items.countP p ≤ items.countP q :=
      List.countP_mono_left fun k hk => himp k (List.mem_cons_of_mem j hk)
    rw [List.countP_cons, List.countP_cons]
    rcases List.mem_cons.mp hi with rfl | hi
    · rw [hp, hq]
      simp only [Bool.false_eq_true, if_false, if_true]
      omega
    · have hlt := countP_lt (fun k hk => himp k (List.mem_cons_of_mem j hk)) ⟨i, hi, hp, hq⟩
      have hj := himp j List.mem_cons_self
      cases hpj : p j with
      | false =>
        simp only [Bool.false_eq_true, if_false]
        omega
      | true =>
        rw [hj hpj]
        omega

/-- Every pass that changes the value leaves fewer items uncovered. -/
theorem uncovered_pass_lt (h : Rules absorb covers) (hpass : pass touches absorb items a ≠ a) :
    uncovered covers items (pass touches absorb items a) < uncovered covers items a := by
  obtain ⟨i, hi, hnew, hcovers⟩ := h.exists_covered hpass
  refine countP_lt (fun j _ hj => ?_) ⟨i, hi, by simpa using hcovers, by simpa using hnew⟩
  simp only [decide_eq_true_eq] at hj ⊢
  exact fun hc => hj (h.covers_mono (h.le_pass touches items a) hc)

variable [DecidableEq α]

omit [∀ a, DecidablePred (covers a)] in
theorem le_loop (h : Rules absorb covers) (touches : α → ι → Bool) (items : List ι) (fuel : ℕ) :
    a ≤ loop touches absorb items fuel a := by
  induction fuel generalizing a with
  | zero => exact le_refl a
  | succ fuel ih =>
    unfold loop
    split
    · exact le_refl a
    · exact (h.le_pass touches items a).trans ih

theorem pass_loop_of_uncovered_lt (h : Rules absorb covers) (touches : α → ι → Bool) {fuel : ℕ}
    (hfuel : uncovered covers items a < fuel) :
    pass touches absorb items (loop touches absorb items fuel a) =
      loop touches absorb items fuel a := by
  induction fuel generalizing a with
  | zero => exact absurd hfuel (Nat.not_lt_zero _)
  | succ fuel ih =>
    unfold loop
    split
    · assumption
    · rename_i hpass
      have hlt := h.uncovered_pass_lt hpass
      exact ih (by omega)

/-- One pass more than there are items is enough. -/
theorem pass_loop (h : Rules absorb covers) (touches : α → ι → Bool) (items : List ι) (a : α) :
    pass touches absorb items (loop touches absorb items (items.length + 1) a) =
      loop touches absorb items (items.length + 1) a :=
  h.pass_loop_of_uncovered_lt touches (Nat.lt_succ_of_le List.countP_le_length)

/-- At the end the value covers every item that it touches. -/
theorem covers_loop (h : Rules absorb covers) {i : ι} (hi : i ∈ items)
    (htouches : touches (loop touches absorb items (items.length + 1) a) i = true) :
    covers (loop touches absorb items (items.length + 1) a) i :=
  h.covers_of_pass_eq_self (h.pass_loop touches items a) i hi htouches

end Rules

end Absorb
