import Mathlib.Data.Set.Lattice

/-!
# Transformations of an image

An image is a function from points to colours. A transformation is *local* on a set of points
if it changes nothing outside of it and what it makes of the set depends on the set alone
(`LocalOn`). Images that agree on the set still agree there afterwards.
-/

namespace Raster

variable {ι α : Type*}

/-- Two images agree on a set of points. -/
def AgreeOn (S : Set ι) (b b' : ι → α) : Prop :=
  ∀ p ∈ S, b p = b' p

/-- A transformation that changes nothing outside the set. -/
def Confined (S : Set ι) (f : (ι → α) → ι → α) : Prop :=
  ∀ b, ∀ p ∉ S, f b p = b p

/-- A transformation that works on the set : it changes nothing outside, and what it makes of
the set depends on the set alone. -/
structure LocalOn (S : Set ι) (f : (ι → α) → ι → α) : Prop where
  confined : Confined S f
  inside : ∀ b b', AgreeOn S b b' → AgreeOn S (f b) (f b')

theorem AgreeOn.symm {S : Set ι} {b b' : ι → α} (h : AgreeOn S b b') : AgreeOn S b' b :=
  fun p hp => (h p hp).symm

theorem AgreeOn.trans {S : Set ι} {b b' b'' : ι → α} (h : AgreeOn S b b')
    (h' : AgreeOn S b' b'') : AgreeOn S b b'' :=
  fun p hp => (h p hp).trans (h' p hp)

theorem AgreeOn.mono {S T : Set ι} {b b' : ι → α} (h : AgreeOn T b b') (hST : S ⊆ T) :
    AgreeOn S b b' :=
  fun p hp => h p (hST hp)

/-! ## Transformations that change nothing outside a set -/

theorem Confined.id (S : Set ι) : Confined S (fun b : ι → α => b) :=
  fun _ _ _ => rfl

theorem Confined.mono {S T : Set ι} {f : (ι → α) → ι → α} (h : Confined S f) (hST : S ⊆ T) :
    Confined T f :=
  fun b p hp => h b p fun hS => hp (hST hS)

theorem Confined.comp {S : Set ι} {f g : (ι → α) → ι → α} (hg : Confined S g)
    (hf : Confined S f) : Confined S fun b => g (f b) :=
  fun b p hp => (hg (f b) p hp).trans (hf b p hp)

theorem Confined.foldl {β : Type*} {S : Set ι} {f : β → (ι → α) → ι → α} :
    ∀ {l : List β}, (∀ x ∈ l, Confined S (f x)) → Confined S fun b => l.foldl (fun b x => f x b) b
  | [], _ => Confined.id S
  | x :: l, h => by
    have hl : Confined S fun b => l.foldl (fun b x => f x b) b :=
      Confined.foldl fun y hy => h y (List.mem_cons_of_mem x hy)
    exact hl.comp (h x List.mem_cons_self)

/-! ## Local transformations -/

namespace LocalOn

theorem id (S : Set ι) : LocalOn S (fun b : ι → α => b) where
  confined := Confined.id S
  inside _ _ h := h

/-- Each point of the set gets a colour made from its own. -/
theorem pointwise (S : Set ι) [DecidablePred (· ∈ S)] (g : ι → α → α) :
    LocalOn S fun b p => if p ∈ S then g p (b p) else b p where
  confined b p hp := if_neg hp
  inside b b' h p hp := by
    simp only [if_pos hp, h p hp]

theorem mono {S T : Set ι} {f : (ι → α) → ι → α} (h : LocalOn S f) (hST : S ⊆ T) :
    LocalOn T f where
  confined := h.confined.mono hST
  inside b b' hb p hp := by
    by_cases hS : p ∈ S
    · exact h.inside b b' (hb.mono hST) p hS
    · rw [h.confined b p hS, h.confined b' p hS, hb p hp]

/-- Images that agree on a set still agree there after a transformation local on a part. -/
theorem agree {S T : Set ι} {f : (ι → α) → ι → α} (h : LocalOn S f) (hST : S ⊆ T)
    {b b' : ι → α} (hb : AgreeOn T b b') : AgreeOn T (f b) (f b') :=
  (h.mono hST).inside b b' hb

end LocalOn

end Raster
