import Mathlib.Data.List.Basic
import VernisOS.Lib.Raster

/-!
# Repainting a part of a picture

A picture is painted item by item over a background (`paint`). Where every item works inside a
part of the picture or off it (`Splits`), the items inside alone make up the part, and the others
what is off it. So when the items off the part stay the same, it is enough to put the background
of the part back and to paint the items inside it (`agreeOn_repaint`).
-/

namespace Raster

variable {ι α β : Type*}

/-- The items painted over a background, one after the other. -/
def paint (f : β → (ι → α) → ι → α) (items : List β) (b : ι → α) : ι → α :=
  items.foldl (fun b x => f x b) b

/-- Every item works inside the part or off it. -/
structure Splits (f : β → (ι → α) → ι → α) (inside : β → Bool) (D : Set ι) (items : List β) :
    Prop where
  within : ∀ x ∈ items, inside x = true → LocalOn D (f x)
  off : ∀ x ∈ items, inside x = false → LocalOn Dᶜ (f x)

namespace Splits

variable {f f' : β → (ι → α) → ι → α} {inside : β → Bool} {D T : Set ι} {items items' : List β}
  {b b' bg : ι → α}

theorem tail {x : β} (h : Splits f inside D (x :: items)) : Splits f inside D items :=
  ⟨fun y hy => h.within y (List.mem_cons_of_mem x hy),
    fun y hy => h.off y (List.mem_cons_of_mem x hy)⟩

/-- The items inside make up the part. -/
theorem paint_within (h : Splits f inside D items) (hb : AgreeOn D b b') :
    AgreeOn D (paint f items b) (paint f (items.filter inside) b') := by
  unfold paint
  induction items generalizing b b' with
  | nil => exact hb
  | cons x items ih =>
    have hx := List.mem_cons_self (a := x) (l := items)
    cases hin : inside x with
    | true =>
      rw [List.filter_cons_of_pos hin, List.foldl_cons, List.foldl_cons]
      exact ih h.tail ((h.within x hx hin).inside b b' hb)
    | false =>
      rw [List.filter_cons_of_neg (by simp [hin]), List.foldl_cons]
      refine ih h.tail fun p hp => ?_
      rw [(h.off x hx hin).confined b p fun hout => hout hp]
      exact hb p hp

/-- The other items make up what is off the part. -/
theorem paint_off (h : Splits f inside D items) (hb : AgreeOn Dᶜ b b') :
    AgreeOn Dᶜ (paint f items b) (paint f (items.filter fun x => !inside x) b') := by
  unfold paint
  induction items generalizing b b' with
  | nil => exact hb
  | cons x items ih =>
    have hx := List.mem_cons_self (a := x) (l := items)
    cases hin : inside x with
    | true =>
      rw [List.filter_cons_of_neg (by simp [hin]), List.foldl_cons]
      refine ih h.tail fun p hp => ?_
      rw [(h.within x hx hin).confined b p hp]
      exact hb p hp
    | false =>
      rw [List.filter_cons_of_pos (by simp [hin]), List.foldl_cons, List.foldl_cons]
      exact ih h.tail ((h.off x hx hin).inside b b' hb)

/-- The items inside change nothing off the part. -/
theorem paint_filter_confined (h : Splits f inside D items) :
    Confined D (paint f (items.filter inside)) :=
  Confined.foldl fun x hx =>
    (h.within x (List.mem_filter.mp hx).1 (List.mem_filter.mp hx).2).confined

end Splits

theorem paint_congr {f f' : β → (ι → α) → ι → α} {items : List β}
    (h : ∀ x ∈ items, f x = f' x) (b : ι → α) : paint f items b = paint f' items b :=
  List.foldl_ext _ _ _ fun b x hx => congrFun (h x hx) b

/-- The old picture, with the part set back to the background and the new items inside painted
over it, is the new picture. -/
theorem agreeOn_repaint {f f' : β → (ι → α) → ι → α} {inside : β → Bool} {D T : Set ι}
    {items items' : List β} {b b' bg : ι → α} (h : Splits f inside D items)
    (h' : Splits f' inside D items')
    (hsame : (items.filter fun x => !inside x) = items'.filter fun x => !inside x)
    (hf : ∀ x ∈ items', inside x = false → f x = f' x) (hb : AgreeOn T b (paint f items bg))
    (hpart : AgreeOn D b' bg) (hkept : AgreeOn (T \ D) b' b) :
    AgreeOn T (paint f' (items'.filter inside) b') (paint f' items' bg) := by
  intro p hp
  by_cases hD : p ∈ D
  · have hnew := h'.paint_within fun q hq => (hpart q hq).symm
    exact (hnew p hD).symm
  · have hold := h.paint_off (b := bg) (fun _ _ => rfl) p hD
    have hnew := h'.paint_off (b := bg) (fun _ _ => rfl) p hD
    have hout : paint f (items.filter fun x => !inside x) bg =
        paint f' (items'.filter fun x => !inside x) bg := by
      rw [hsame]
      refine paint_congr (fun x hx => ?_) bg
      obtain ⟨hmem, hnot⟩ := List.mem_filter.mp hx
      exact hf x hmem (by simpa using hnot)
    rw [h'.paint_filter_confined b' p hD, hkept p ⟨hp, hD⟩, hb p hp, hold, hout, hnew]

end Raster
