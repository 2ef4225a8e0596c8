import Mathlib.Data.Fintype.Card
import Mathlib.Data.Fintype.EquivFin

/-!
# Reference-counted pools

A pool hands out frames from a free list and counts the references to each of them. A
reference has a holder : `own w` is the frame the holder `w` refers to, if any. `Ok`
relates the holders to the counts and the free list, for the frames the pool knows. Each
operation of a pool changes what one holder has (`Function.update`).
-/

set_option linter.unusedSectionVars false

namespace Ledger

variable {F W : Type*} [DecidableEq F] [Fintype W] [DecidableEq W]

/-- How many holders refer to `f`. -/
def uses (own : W → Option F) (f : F) : ℕ :=
  (Finset.univ.filter fun w => own w = some f).card

variable {own : W → Option F} {f g : F} {w : W}

theorem uses_eq_zero (h : ∀ w, own w ≠ some f) : uses own f = 0 := by
  unfold uses
  rw [Finset.card_eq_zero, Finset.filter_eq_empty_iff]
  exact fun w _ => h w

/-- With one reference there is one holder. -/
theorem eq_of_uses_le_one (h : uses own f ≤ 1) {w' : W} (hw : own w = some f)
    (hw' : own w' = some f) : w = w' :=
  Finset.card_le_one.mp h w (Finset.mem_filter.mpr ⟨Finset.mem_univ w, hw⟩) w'
    (Finset.mem_filter.mpr ⟨Finset.mem_univ w', hw'⟩)

/-- Holders that agree on `k` are equal, so there are at most as many as values of `k`. -/
theorem uses_le_card {κ : Type*} [Fintype κ] (k : W → κ)
    (h : ∀ w w', own w = some f → own w' = some f → k w = k w' → w = w') :
    uses own f ≤ Fintype.card κ := by
  refine Finset.card_le_card_of_injOn k (fun w _ => Finset.mem_univ (k w)) ?_
  intro w hw w' hw' hk
  exact h w w' (Finset.mem_filter.mp hw).2 (Finset.mem_filter.mp hw').2 hk

theorem uses_update_ne (hw : own w ≠ some g) {x : Option F} (hx : x ≠ some g) :
    uses (Function.update own w x) g = uses own g := by
  unfold uses
  congr 1
  refine Finset.filter_congr fun v _ => ?_
  by_cases hv : v = w
  · subst hv
    rw [Function.update_self]
    exact ⟨fun h => absurd h hx, fun h => absurd h hw⟩
  · rw [Function.update_of_ne hv]

/-- A holder that has nothing takes `f`. -/
theorem uses_update_some (hw : own w ≠ some f) :
    uses (Function.update own w (some f)) f = uses own f + 1 := by
  unfold uses
  have h : (Finset.univ.filter fun v => Function.update own w (some f) v = some f)
      = insert w (Finset.univ.filter fun v => own v = some f) := by
    ext v
    rw [Finset.mem_insert, Finset.mem_filter, Finset.mem_filter]
    by_cases hv : v = w
    · subst hv
      simp
    · simp [hv]
  rw [h, Finset.card_insert_of_notMem]
  simp [hw]

/-- A holder of `f` gives it up. -/
theorem uses_update_none (hw : own w = some f) :
    uses (Function.update own w none) f + 1 = uses own f := by
  have h : uses (Function.update (Function.update own w none) w (some f)) f
      = uses (Function.update own w none) f + 1 :=
    uses_update_some (by simp)
  rw [Function.update_idem, ← hw, Function.update_eq_self] at h
  exact h.symm

/-- Renaming the holders changes no count. -/
theorem uses_comp (e : W ≃ W) (f : F) : uses (own ∘ e) f = uses own f := by
  unfold uses
  refine Finset.card_bij (fun w _ => e w) ?_ ?_ ?_
  · intro w hw
    simpa using hw
  · intro w _ w' _ h
    exact e.injective h
  · intro w hw
    exact ⟨e.symm w, by simpa using hw, e.apply_symm_apply w⟩

/-- The counts are those of the holders, and a frame is free or has a holder. -/
structure Ok (known : F → Prop) (free : List F) (ref : F → ℕ) (own : W → Option F) : Prop where
  known_of : ∀ w f, own w = some f → known f
  ref_eq : ∀ f, known f → ref f = uses own f
  free_nodup : free.Nodup
  free_known : ∀ f ∈ free, known f
  free_unused : ∀ f ∈ free, ∀ w, own w ≠ some f
  covered : ∀ f, known f → f ∈ free ∨ ∃ w, own w = some f

variable {known : F → Prop} {free : List F} {ref ref' : F → ℕ}

theorem Ok.notMem_free (h : Ok known free ref own) (hw : own w = some f) : f ∉ free :=
  fun hf => h.free_unused f hf w hw

/-- A frame whose count is at most one has no other holder. -/
theorem Ok.sole (h : Ok known free ref own) (href : ref f ≤ 1) {w' : W} (hw : own w = some f)
    (hw' : own w' = some f) : w = w' := by
  rw [h.ref_eq f (h.known_of w f hw)] at href
  exact eq_of_uses_le_one href hw hw'

/-- A frame that nobody holds goes to `w`, with the count 1. -/
theorem Ok.take {known' : F → Prop} {free' : List F} (h : Ok known free ref own)
    (hw : own w = none) (hunused : ∀ v, own v ≠ some f)
    (hknown : ∀ g, known' g ↔ known g ∨ g = f) (hself : ref' f = 1)
    (hother : ∀ g, known g → g ≠ f → ref' g = ref g) (hsub : free'.Sublist free)
    (hrest : ∀ g ∈ free, g ≠ f → g ∈ free') (hfree : f ∉ free') :
    Ok known' free' ref' (Function.update own w (some f)) where
  known_of v g hv := by
    rw [hknown]
    by_cases hvw : v = w
    · subst hvw
      rw [Function.update_self] at hv
      exact Or.inr (Option.some.inj hv).symm
    · rw [Function.update_of_ne hvw] at hv
      exact Or.inl (h.known_of v g hv)
  ref_eq g hg := by
    by_cases hgf : g = f
    · subst hgf
      rw [hself, uses_update_some (by simp [hw]), uses_eq_zero hunused]
    · have hg' : known g := ((hknown g).mp hg).resolve_right hgf
      rw [hother g hg' hgf, h.ref_eq g hg', uses_update_ne]
      · simp [hw]
      · simpa using Ne.symm hgf
  free_nodup := h.free_nodup.sublist hsub
  free_known g hg := (hknown g).mpr (Or.inl (h.free_known g (hsub.subset hg)))
  free_unused g hg v hv := by
    by_cases hvw : v = w
    · subst hvw
      rw [Function.update_self] at hv
      exact hfree (Option.some.inj hv ▸ hg)
    · rw [Function.update_of_ne hvw] at hv
      exact h.free_unused g (hsub.subset hg) v hv
  covered g hg := by
    by_cases hgf : g = f
    · exact Or.inr ⟨w, by rw [hgf, Function.update_self]⟩
    · refine (h.covered g (((hknown g).mp hg).resolve_right hgf)).imp (hrest g · hgf) ?_
      rintro ⟨v, hv⟩
      have hvw : v ≠ w := by
        rintro rfl
        simp [hw] at hv
      exact ⟨v, by rw [Function.update_of_ne hvw, hv]⟩

/-- One more holder of `f`. -/
theorem Ok.share (h : Ok known free ref own) (hw : own w = none) {w' : W} (hw' : own w' = some f)
    (hself : ref' f = ref f + 1) (hother : ∀ g, known g → g ≠ f → ref' g = ref g) :
    Ok known free ref' (Function.update own w (some f)) where
  known_of v g hv := by
    by_cases hvw : v = w
    · subst hvw
      rw [Function.update_self] at hv
      exact Option.some.inj hv ▸ h.known_of w' f hw'
    · rw [Function.update_of_ne hvw] at hv
      exact h.known_of v g hv
  ref_eq g hg := by
    by_cases hgf : g = f
    · subst hgf
      rw [hself, uses_update_some (by simp [hw]), h.ref_eq g hg]
    · rw [hother g hg hgf, h.ref_eq g hg, uses_update_ne]
      · simp [hw]
      · simpa using Ne.symm hgf
  free_nodup := h.free_nodup
  free_known := h.free_known
  free_unused g hg v hv := by
    by_cases hvw : v = w
    · subst hvw
      rw [Function.update_self] at hv
      exact h.free_unused f (Option.some.inj hv ▸ hg) w' hw'
    · rw [Function.update_of_ne hvw] at hv
      exact h.free_unused g hg v hv
  covered g hg := by
    refine (h.covered g hg).imp_right ?_
    rintro ⟨v, hv⟩
    have hvw : v ≠ w := by
      rintro rfl
      simp [hw] at hv
    exact ⟨v, by rw [Function.update_of_ne hvw, hv]⟩

/-- The holder `w` gives `f` up. With no other holder the frame becomes free. -/
theorem Ok.drop {free' : List F} (h : Ok known free ref own) (hw : own w = some f)
    (hself : ref' f = ref f - 1) (hother : ∀ g, known g → g ≠ f → ref' g = ref g)
    (hfree : 1 < ref f ∧ free' = free ∨ ref f ≤ 1 ∧ free' = f :: free) :
    Ok known free' ref' (Function.update own w none) := by
  have hf := h.known_of w f hw
  have hown : ∀ v g, Function.update own w none v = some g → own v = some g ∧ v ≠ w := by
    intro v g hv
    by_cases hvw : v = w
    · subst hvw
      simp at hv
    · rw [Function.update_of_ne hvw] at hv
      exact ⟨hv, hvw⟩
  have hsub : ∀ g ∈ free', g ∈ free ∨ g = f ∧ ref f ≤ 1 := by
    intro g hg
    rcases hfree with ⟨_, rfl⟩ | ⟨hlast, rfl⟩
    · exact Or.inl hg
    · rcases List.mem_cons.mp hg with rfl | hg
      · exact Or.inr ⟨rfl, hlast⟩
      · exact Or.inl hg
  refine ⟨fun v g hv => h.known_of v g (hown v g hv).1, fun g hg => ?_, ?_, ?_, ?_, ?_⟩
  · by_cases hgf : g = f
    · subst hgf
      have hdrop := uses_update_none hw
      have href := h.ref_eq g hg
      omega
    · rw [hother g hg hgf, h.ref_eq g hg, uses_update_ne]
      · rw [hw]
        simpa using Ne.symm hgf
      · simp
  · rcases hfree with ⟨_, rfl⟩ | ⟨_, rfl⟩
    · exact h.free_nodup
    · exact List.nodup_cons.mpr ⟨h.notMem_free hw, h.free_nodup⟩
  · intro g hg
    rcases hsub g hg with hg | ⟨rfl, _⟩
    · exact h.free_known g hg
    · exact hf
  · intro g hg v hv
    obtain ⟨hv, hvw⟩ := hown v g hv
    rcases hsub g hg with hg | ⟨rfl, hlast⟩
    · exact h.free_unused g hg v hv
    · exact hvw (h.sole hlast hv hw)
  · intro g hg
    rcases h.covered g hg with hgf | ⟨v, hv⟩
    · rcases hfree with ⟨_, rfl⟩ | ⟨_, rfl⟩
      · exact Or.inl hgf
      · exact Or.inl (List.mem_cons_of_mem f hgf)
    · by_cases hvw : v = w
      · subst hvw
        obtain rfl : f = g := Option.some.inj (hw.symm.trans hv)
        rcases hfree with ⟨hmany, rfl⟩ | ⟨_, rfl⟩
        · have hpos : 0 < uses (Function.update own v none) f := by
            have hdrop := uses_update_none hw
            rw [h.ref_eq f hf] at hmany
            omega
          obtain ⟨v', hv'⟩ := Finset.card_pos.mp hpos
          exact Or.inr ⟨v', (Finset.mem_filter.mp hv').2⟩
        · exact Or.inl List.mem_cons_self
      · exact Or.inr ⟨v, by rw [Function.update_of_ne hvw, hv]⟩

/-- Renaming the holders keeps the ledger. -/
theorem Ok.comp (h : Ok known free ref own) (e : W ≃ W) : Ok known free ref (own ∘ e) where
  known_of w f hw := h.known_of (e w) f hw
  ref_eq f hf := by rw [uses_comp e f, h.ref_eq f hf]
  free_nodup := h.free_nodup
  free_known := h.free_known
  free_unused f hf w hw := h.free_unused f hf (e w) hw
  covered f hf := by
    refine (h.covered f hf).imp_right ?_
    rintro ⟨w, hw⟩
    exact ⟨e.symm w, by rw [Function.comp_apply, e.apply_symm_apply, hw]⟩

end Ledger
