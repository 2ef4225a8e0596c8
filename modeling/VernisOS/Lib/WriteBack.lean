import Mathlib.Data.Nat.Notation
import Mathlib.Logic.Function.Basic

/-!
# Write-back slots over a store

A table of slots in front of a store `d : K → V`. A valid slot holds the value of one
key; a dirty one holds a value the store does not have yet. `Represents c d m` says that
slots and store together stand for the map `m`. The operations of a write-back cache
keep it : `writeback` stores a slot and cleans it, `fill` reuses a slot for a key of the
store, `put` gives a slot a new value for its key. `Represents.flushed` reads the map
back off the store once nothing is dirty.
-/

namespace WriteBack

variable {ι K V : Type*}

/-- One slot : the key and value it holds, if valid, and whether the store lacks it. -/
structure Line (K V : Type*) where
  key : K
  valid : Bool
  dirty : Bool
  val : V

/-- The slots `c` over the store `d` stand for the map `m`. -/
structure Represents (c : ι → Line K V) (d m : K → V) : Prop where
  unique : ∀ i j, (c i).valid = true → (c j).valid = true → (c i).key = (c j).key → i = j
  hit : ∀ i, (c i).valid = true → (c i).val = m (c i).key
  miss : ∀ k, (∀ i, (c i).valid = true → (c i).key ≠ k) → d k = m k
  clean : ∀ i, (c i).valid = true → (c i).dirty = false → d (c i).key = m (c i).key
  dirty_valid : ∀ i, (c i).dirty = true → (c i).valid = true

/-- Empty slots stand for the store itself. -/
theorem represents_empty (c : ι → Line K V) (d : K → V) (hv : ∀ i, (c i).valid = false)
    (hd : ∀ i, (c i).dirty = false) : Represents c d d where
  unique i j hi := by simp [hv] at hi
  hit i hi := by simp [hv] at hi
  miss _ _ := rfl
  clean i hi := by simp [hv] at hi
  dirty_valid i hi := by simp [hd] at hi

namespace Represents

variable [DecidableEq ι] [DecidableEq K] {c : ι → Line K V} {d m : K → V}

omit [DecidableEq ι] [DecidableEq K] in
/-- Once nothing is dirty the store is the map. -/
theorem flushed (h : Represents c d m) (hc : ∀ i, (c i).dirty = false) : d = m := by
  funext k
  by_cases hk : ∃ i, (c i).valid = true ∧ (c i).key = k
  · obtain ⟨i, hv, rfl⟩ := hk
    exact h.clean i hv (hc i)
  · exact h.miss k fun i hv he => hk ⟨i, hv, he⟩

/-- Storing a slot's value and clearing its dirty mark changes nothing. -/
theorem writeback (h : Represents c d m) (i : ι) (hi : (c i).dirty = true) :
    Represents (Function.update c i { c i with dirty := false })
      (Function.update d (c i).key (c i).val) m := by
  have hvi := h.dirty_valid i hi
  have key : ∀ j, (Function.update c i { c i with dirty := false } j).key = (c j).key := by
    intro j
    by_cases hj : j = i
    · subst hj; simp
    · simp [hj]
  have valid : ∀ j, (Function.update c i { c i with dirty := false } j).valid = (c j).valid := by
    intro j
    by_cases hj : j = i
    · subst hj; simp
    · simp [hj]
  have val : ∀ j, (Function.update c i { c i with dirty := false } j).val = (c j).val := by
    intro j
    by_cases hj : j = i
    · subst hj; simp
    · simp [hj]
  refine ⟨?_, ?_, ?_, ?_, ?_⟩
  · intro a b ha hb hab
    rw [valid] at ha hb
    rw [key, key] at hab
    exact h.unique a b ha hb hab
  · intro a ha
    rw [valid] at ha
    rw [val, key]
    exact h.hit a ha
  · intro k hk
    have hk' : ∀ j, (c j).valid = true → (c j).key ≠ k := by
      intro j hj
      rw [← key j]
      exact hk j (by rw [valid]; exact hj)
    rw [Function.update_of_ne (hk' i hvi).symm]
    exact h.miss k hk'
  · intro a ha hda
    rw [valid] at ha
    rw [key]
    by_cases hai : a = i
    · subst hai
      rw [Function.update_self]
      exact h.hit a ha
    · rw [Function.update_of_ne fun he => hai (h.unique a i ha hvi he)]
      rw [Function.update_of_ne hai] at hda
      exact h.clean a ha hda
  · intro a ha
    rw [valid]
    by_cases hai : a = i
    · subst hai
      exact hvi
    · rw [Function.update_of_ne hai] at ha
      exact h.dirty_valid a ha

omit [DecidableEq K] in
/-- A slot that is not dirty can be dropped. -/
theorem drop (h : Represents c d m) (i : ι) (hi : (c i).dirty = false) (l : Line K V)
    (hv : l.valid = false) (hd : l.dirty = false) : Represents (Function.update c i l) d m := by
  have old : ∀ j, (Function.update c i l j).valid = true → j ≠ i := by
    rintro j hj rfl
    simp [hv] at hj
  refine ⟨?_, ?_, ?_, ?_, ?_⟩
  · intro a b ha hb hab
    have hai := old a ha
    have hbi := old b hb
    rw [Function.update_of_ne hai] at ha hab
    rw [Function.update_of_ne hbi] at hb hab
    exact h.unique a b ha hb hab
  · intro a ha
    have hai := old a ha
    rw [Function.update_of_ne hai] at ha ⊢
    exact h.hit a ha
  · intro k hk
    by_cases hki : (c i).valid = true ∧ (c i).key = k
    · rw [← hki.2]
      exact h.clean i hki.1 hi
    · refine h.miss k fun j hj => ?_
      by_cases hji : j = i
      · subst hji
        exact fun he => hki ⟨hj, he⟩
      · have := hk j
        rw [Function.update_of_ne hji] at this
        exact this hj
  · intro a ha hda
    have hai := old a ha
    rw [Function.update_of_ne hai] at ha hda ⊢
    exact h.clean a ha hda
  · intro a ha
    by_cases hai : a = i
    · subst hai
      simp [hd] at ha
    · rw [Function.update_of_ne hai] at ha ⊢
      exact h.dirty_valid a ha

omit [DecidableEq K] in
/-- A free slot takes a key of the store that no slot holds. -/
theorem fill (h : Represents c d m) (i : ι) (hi : (c i).valid = false) (k : K)
    (hk : ∀ j, (c j).valid = true → (c j).key ≠ k) :
    Represents (Function.update c i ⟨k, true, false, d k⟩) d m := by
  refine ⟨?_, ?_, ?_, ?_, ?_⟩
  · intro a b ha hb hab
    by_cases hai : a = i <;> by_cases hbi : b = i
    · rw [hai, hbi]
    · subst hai
      rw [Function.update_of_ne hbi] at hb hab
      rw [Function.update_self] at hab
      exact absurd hab.symm (hk b hb)
    · subst hbi
      rw [Function.update_of_ne hai] at ha hab
      rw [Function.update_self] at hab
      exact absurd hab (hk a ha)
    · rw [Function.update_of_ne hai] at ha hab
      rw [Function.update_of_ne hbi] at hb hab
      exact h.unique a b ha hb hab
  · intro a ha
    by_cases hai : a = i
    · subst hai
      rw [Function.update_self]
      exact h.miss k hk
    · rw [Function.update_of_ne hai] at ha ⊢
      exact h.hit a ha
  · intro k' hk'
    refine h.miss k' fun j hj => ?_
    have hji : j ≠ i := by
      rintro rfl
      simp [hi] at hj
    have := hk' j
    rw [Function.update_of_ne hji] at this
    exact this hj
  · intro a ha hda
    by_cases hai : a = i
    · subst hai
      rw [Function.update_self]
      exact h.miss k hk
    · rw [Function.update_of_ne hai] at ha hda ⊢
      exact h.clean a ha hda
  · intro a ha
    by_cases hai : a = i
    · subst hai
      rw [Function.update_self]
    · rw [Function.update_of_ne hai] at ha ⊢
      exact h.dirty_valid a ha

/-- A slot that no other slot shares its key with takes a new value for it. -/
theorem put (h : Represents c d m) (i : ι) (k : K) (v : V)
    (hi : (c i).valid = true ∧ (c i).key = k ∨
      (c i).valid = false ∧ ∀ j, (c j).valid = true → (c j).key ≠ k) :
    Represents (Function.update c i ⟨k, true, true, v⟩) d (Function.update m k v) := by
  have other : ∀ j, j ≠ i → (c j).valid = true → (c j).key ≠ k := by
    intro j hji hj he
    rcases hi with ⟨hv, hk⟩ | ⟨-, hk⟩
    · exact hji (h.unique j i hj hv (he.trans hk.symm))
    · exact hk j hj he
  refine ⟨?_, ?_, ?_, ?_, ?_⟩
  · intro a b ha hb hab
    by_cases hai : a = i <;> by_cases hbi : b = i
    · rw [hai, hbi]
    · subst hai
      rw [Function.update_of_ne hbi] at hb hab
      rw [Function.update_self] at hab
      exact absurd hab.symm (other b hbi hb)
    · subst hbi
      rw [Function.update_of_ne hai] at ha hab
      rw [Function.update_self] at hab
      exact absurd hab (other a hai ha)
    · rw [Function.update_of_ne hai] at ha hab
      rw [Function.update_of_ne hbi] at hb hab
      exact h.unique a b ha hb hab
  · intro a ha
    by_cases hai : a = i
    · subst hai
      simp
    · rw [Function.update_of_ne hai] at ha ⊢
      rw [Function.update_of_ne (other a hai ha)]
      exact h.hit a ha
  · intro k' hk'
    have hne : k' ≠ k := by
      rintro rfl
      have := hk' i
      rw [Function.update_self] at this
      exact this rfl rfl
    rw [Function.update_of_ne hne]
    refine h.miss k' fun j hj => ?_
    by_cases hji : j = i
    · subst hji
      rcases hi with ⟨-, hk⟩ | ⟨hv, -⟩
      · rw [hk]
        exact hne.symm
      · simp [hv] at hj
    · have := hk' j
      rw [Function.update_of_ne hji] at this
      exact this hj
  · intro a ha hda
    have hai : a ≠ i := by
      rintro rfl
      rw [Function.update_self] at hda
      simp at hda
    rw [Function.update_of_ne hai] at ha hda ⊢
    rw [Function.update_of_ne (other a hai ha)]
    exact h.clean a ha hda
  · intro a ha
    by_cases hai : a = i
    · subst hai
      simp
    · rw [Function.update_of_ne hai] at ha ⊢
      exact h.dirty_valid a ha

end Represents

end WriteBack
