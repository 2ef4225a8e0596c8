import Mathlib.Data.List.FinRange
import Mathlib.Data.Nat.Notation

/-!
# Scanning a table of slots

A fixed table is a function on `Fin n`. `slots n` lists its indices in the order a loop
`for (i = 0; i < n; i++)` visits them, and `first p` is the first index with `p`, where
such a loop stops. Both are irreducible : no proof unrolls a table.
-/

namespace Slots

variable {n : ℕ}

/-- The indices of a table, in order. -/
@[irreducible] def slots (n : ℕ) : List (Fin n) :=
  List.finRange n

@[simp] theorem mem_slots (i : Fin n) : i ∈ slots n := by
  unfold slots
  exact List.mem_finRange i

theorem nodup_slots : (slots n).Nodup := by
  unfold slots
  exact List.nodup_finRange n

@[simp] theorem length_slots : (slots n).length = n := by
  unfold slots
  exact List.length_finRange

theorem getElem?_slots (i : Fin n) : (slots n)[i.val]? = some i := by
  unfold slots
  simp

theorem pairwise_slots : (slots n).Pairwise (· < ·) := by
  unfold slots
  exact List.pairwise_lt_finRange n

/-- A list of `n` elements, by their indices. -/
theorem map_slots {α : Type*} {l : List α} {t : Fin n → α} (hlen : l.length = n)
    (ht : ∀ i : Fin n, l[i.val]? = some (t i)) : (slots n).map t = l := by
  refine List.ext_getElem (by simp [hlen]) fun i hi hi' => ?_
  have hslot := getElem?_slots (⟨i, hlen ▸ hi'⟩ : Fin n)
  have hget := ht ⟨i, hlen ▸ hi'⟩
  rw [List.getElem?_eq_getElem (by simpa [hlen] using hi')] at hslot hget
  rw [List.getElem_map, Option.some.inj hslot, Option.some.inj hget]

/-- The first index that satisfies `p`. -/
@[irreducible] def first (p : Fin n → Bool) : Option (Fin n) :=
  (slots n).find? p

theorem first_some {p : Fin n → Bool} {i : Fin n} (h : first p = some i) : p i = true := by
  unfold first at h
  exact List.find?_some h

theorem first_none {p : Fin n → Bool} : first p = none ↔ ∀ i, p i = false := by
  unfold first
  simp [List.find?_eq_none]

theorem first_isSome {p : Fin n → Bool} : (first p).isSome = true ↔ ∃ i, p i = true := by
  unfold first
  simp

/-- Nothing before the first index satisfies `p`. -/
theorem first_min {p : Fin n → Bool} {i j : Fin n} (h : first p = some i) (hj : p j = true) :
    i ≤ j := by
  unfold first slots at h
  rw [List.find?_eq_some_iff_append] at h
  obtain ⟨-, as, bs, hs, hbefore⟩ := h
  by_contra hlt
  rw [not_le] at hlt
  have hmem : j ∈ as ++ i :: bs := hs ▸ List.mem_finRange j
  have hsorted : (as ++ i :: bs).Pairwise (· < ·) := hs ▸ List.pairwise_lt_finRange n
  rw [List.mem_append, List.mem_cons] at hmem
  rcases hmem with hj' | rfl | hj'
  · simpa [hj] using hbefore j hj'
  · exact lt_irrefl _ hlt
  · have := (List.pairwise_append.mp hsorted).2.1
    exact absurd (List.rel_of_pairwise_cons this hj') (not_lt.mpr hlt.le)

theorem first_eq_some {p : Fin n → Bool} {i : Fin n} :
    first p = some i ↔ p i = true ∧ ∀ j, p j = true → i ≤ j := by
  refine ⟨fun h => ⟨first_some h, fun j hj => first_min h hj⟩, fun ⟨hi, hmin⟩ => ?_⟩
  obtain ⟨k, hk⟩ := Option.isSome_iff_exists.mp (first_isSome.mpr ⟨i, hi⟩)
  rw [hk, le_antisymm (first_min hk hi) (hmin k (first_some hk))]

/-! ## Collecting into a bounded buffer -/

section Collect

variable {α β : Type*} {p q : α → Bool}

/-- A loop that puts out what satisfies `p`, until the buffer is full. -/
theorem foldl_collect (p : α → Bool) (f : α → β) (max : Int) (l : List α) (out : List β) :
    l.foldl (fun out x => if max ≤ (out.length : Int) then out
        else if p x then out ++ [f x] else out) out =
      out ++ ((l.filter p).take (max.toNat - out.length)).map f := by
  induction l generalizing out with
  | nil => simp
  | cons x l ih =>
    rw [List.foldl_cons]
    by_cases hfull : max ≤ (out.length : Int)
    · rw [if_pos hfull, ih, show max.toNat - out.length = 0 by omega, List.take_zero,
        List.take_zero]
    rw [if_neg hfull]
    by_cases hx : p x = true
    · obtain ⟨n, hn⟩ : ∃ n, max.toNat - out.length = n + 1 :=
        ⟨max.toNat - out.length - 1, by omega⟩
      rw [if_pos hx, ih, List.filter_cons_of_pos hx, hn, List.take_succ_cons, List.map_cons,
        List.length_append, List.length_singleton, List.append_assoc, List.singleton_append,
        show max.toNat - (out.length + 1) = n by omega]
    · rw [if_neg hx, ih, List.filter_cons_of_neg hx]

/-- What is collected by `p` is what is collected by the narrower `q` if the buffer gets no other
element. -/
theorem take_filter_map_iff {f : α → β} {l : List α} (hpq : ∀ x ∈ l, q x = true → p x = true)
    (hf : ∀ x ∈ l, ∀ y ∈ l, p x = true → q x = false → q y = true → f x ≠ f y) (n : ℕ) :
    ((l.filter p).take n).map f = ((l.filter q).take n).map f ↔
      ∀ x ∈ (l.filter p).take n, q x = true := by
  induction l generalizing n with
  | nil => simp
  | cons a l ih =>
    have ih := ih (fun x hx => hpq x (List.mem_cons_of_mem a hx))
      (fun x hx y hy => hf x (List.mem_cons_of_mem a hx) y (List.mem_cons_of_mem a hy))
    by_cases hp : p a = true
    · cases n with
      | zero => simp
      | succ n =>
        rw [List.filter_cons_of_pos hp, List.take_succ_cons]
        by_cases hq : q a = true
        · rw [List.filter_cons_of_pos hq, List.take_succ_cons, List.map_cons, List.map_cons,
            List.cons_inj_right, ih, List.forall_mem_cons]
          exact (and_iff_right hq).symm
        · -- the head is put out, and nothing that satisfies `q` looks like it
          refine iff_of_false (fun heq => ?_) fun hall => hq (hall a List.mem_cons_self)
          rw [List.map_cons, List.filter_cons_of_neg hq] at heq
          have hmem : f a ∈ ((l.filter q).take (n + 1)).map f := heq ▸ List.mem_cons_self
          obtain ⟨y, hy, hfy⟩ := List.mem_map.mp hmem
          obtain ⟨hyl, hqy⟩ := List.mem_filter.mp (List.mem_of_mem_take hy)
          exact hf a List.mem_cons_self y (List.mem_cons_of_mem a hyl) hp (by simpa using hq) hqy
            hfy.symm
    · have hq : ¬ q a = true := fun h => hp (hpq a List.mem_cons_self h)
      rw [List.filter_cons_of_neg hp, List.filter_cons_of_neg hq, ih]

/-- The buffer gets no other element if it is full before each of them. -/
theorem forall_mem_take_filter_iff [LinearOrder α] {l : List α} (hl : l.Pairwise (· < ·))
    (hpq : ∀ x ∈ l, q x = true → p x = true) (n : ℕ) :
    (∀ x ∈ (l.filter p).take n, q x = true) ↔
      ∀ x ∈ l, p x = true → q x = false → n ≤ ((l.filter q).filter (· < x)).length := by
  induction l generalizing n with
  | nil => simp
  | cons a l ih =>
    obtain ⟨ha, hl⟩ := List.pairwise_cons.mp hl
    have ih := ih hl fun x hx => hpq x (List.mem_cons_of_mem a hx)
    have hself : ((((a :: l).filter q).filter (· < a)).length) = 0 := by
      rw [List.length_eq_zero_iff, List.filter_eq_nil_iff]
      intro x hx
      have hx' := (List.mem_filter.mp hx).1
      rcases List.mem_cons.mp hx' with rfl | hx'
      · simp
      · simpa using (ha x hx').le
    rw [List.forall_mem_cons, hself]
    by_cases hq : q a = true
    · have hp : p a = true := hpq a List.mem_cons_self hq
      have hrest : ∀ x ∈ l, (((a :: l).filter q).filter (· < x)).length =
          ((l.filter q).filter (· < x)).length + 1 := by
        intro x hx
        rw [List.filter_cons_of_pos hq, List.filter_cons_of_pos (by simpa using ha x hx),
          List.length_cons]
      cases n with
      | zero => simp
      | succ n =>
        rw [List.filter_cons_of_pos hp, List.take_succ_cons, List.forall_mem_cons, ih,
          and_iff_right hq, and_iff_right fun _ hc => absurd hq (by simp [hc])]
        refine forall₂_congr fun x hx => ?_
        rw [hrest x hx, Nat.succ_le_succ_iff]
    · rw [List.filter_cons_of_neg hq]
      by_cases hp : p a = true
      · cases n with
        | zero => simp
        | succ n =>
          rw [List.filter_cons_of_pos hp, List.take_succ_cons, List.forall_mem_cons]
          exact iff_of_false (fun h => hq h.1)
            fun h => absurd (h.1 hp (by simpa using hq)) (Nat.not_succ_le_zero n)
      · rw [List.filter_cons_of_neg hp, ih]
        exact (and_iff_right fun h => absurd h hp).symm

end Collect

end Slots
