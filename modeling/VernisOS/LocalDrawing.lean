import VernisOS.Drawing

/-!
# Drawing depends on the pixels drawn over

Every drawing call works on its rectangle (`Compositor.WorksOn`) : it changes nothing outside,
and what it makes of the rectangle depends on nothing else. Two compositors whose back buffers
agree on a set of pixels and whose caches agree (`Compositor.Alike`) therefore still do after
every drawing inside the set, and after a restore they agree where pixels were restored. The
background alone makes them agree on the whole screen.
-/

open Raster

namespace VernisOS

namespace Compositor

variable {scr : Screen} {font : ℕ → UInt8} {S T : Set Pixel} {c c' : Compositor} {r : Rect}
  {p : Pixel}

/-! ## The calls work on their rectangle -/

/-- What a call does to the back buffer is local to the rectangle. -/
def WorksOn (scr : Screen) (r : Rect) (op : Compositor → Compositor) : Prop :=
  ∃ f, LocalOn (scr.part r) f ∧ ∀ c, (op c).backBuffer = f c.backBuffer

/-- The caches of the wallpaper and of the glass of a window. -/
structure Caches where
  wallpaper : Image
  wallpaperValid : Bool
  glass : Image
  glassValid : Bool
  glassId : ℕ
  glassRect : Rect

/-- The caches of a compositor. -/
def caches (c : Compositor) : Caches :=
  ⟨c.wallpaper, c.wallpaperValid, c.glass, c.glassValid, c.glassId, c.glassRect⟩

theorem caches_markDirtyRect (c : Compositor) (r : Rect) : (c.markDirtyRect r).caches = c.caches := by
  unfold markDirtyRect
  split <;> rfl

theorem caches_draw (c : Compositor) (r : Rect) (f : Image → Image) :
    (c.draw r f).caches = c.caches :=
  caches_markDirtyRect { c with backBuffer := f c.backBuffer } r

theorem backBuffer_draw (c : Compositor) (r : Rect) (f : Image → Image) :
    (c.draw r f).backBuffer = f c.backBuffer :=
  backBuffer_markDirtyRect { c with backBuffer := f c.backBuffer } r

/-- Each pixel of the clipped rectangle gets a colour made from its own. -/
theorem localOn_clip {q : Clip} (h : scr.clip r = some q) (g : Pixel → ℕ → ℕ) :
    LocalOn (scr.part r) fun b p => if p ∈ q then g p (b p) else b p := by
  have hpart : {p | p ∈ q} = scr.part r := Set.ext fun p => Screen.mem_clip h
  rw [← hpart]
  exact LocalOn.pointwise {p | p ∈ q} g

theorem worksOn_fillRectAlpha (scr : Screen) (r : Rect) (color alpha : ℕ) :
    WorksOn scr r fun c => c.fillRectAlpha scr r color alpha := by
  unfold fillRectAlpha
  cases hq : scr.clip r with
  | none => exact ⟨_, LocalOn.id _, fun _ => rfl⟩
  | some q =>
    exact ⟨_, localOn_clip hq fun _ v => blendPx v color alpha, fun c => backBuffer_draw c r _⟩

/-- Both passes of the blur read nothing but the rectangle. -/
theorem blurClip_congr {q : Clip} {b b' : Image} (h : ∀ p ∈ q, b p = b' p) (radius : ℕ)
    (hp : p ∈ q) : blurClip q radius b p = blurClip q radius b' p := by
  have hrows : ∀ p ∈ q, blurLine (fun i => b (q.x0 + i, p.2)) (q.x1 - q.x0) radius (p.1 - q.x0) =
      blurLine (fun i => b' (q.x0 + i, p.2)) (q.x1 - q.x0) radius (p.1 - q.x0) := by
    intro p hq
    obtain ⟨hx, hy⟩ := Clip.mem_def.mp hq
    refine blurLine_congr (fun i hi => h (q.x0 + i, p.2) ?_) (by omega)
    exact Clip.mem_def.mpr ⟨⟨Nat.le_add_right _ _, by change q.x0 + i < q.x1; omega⟩, hy⟩
  obtain ⟨hcol, hrow⟩ := Clip.mem_def.mp hp
  simp only [blurClip, if_pos hp]
  refine blurLine_congr (fun i hi => ?_) (by omega)
  have hmem : (p.1, q.y0 + i) ∈ q :=
    Clip.mem_def.mpr ⟨hcol, Nat.le_add_right _ _, by change q.y0 + i < q.y1; omega⟩
  have hline := hrows _ hmem
  dsimp only at hline
  simp only [if_pos hmem, hline]

theorem localOn_blurClip {q : Clip} (h : scr.clip r = some q) (radius : ℕ) :
    LocalOn (scr.part r) (blurClip q radius) := by
  refine ⟨fun b p hp => ?_, fun b b' hb p hp => ?_⟩
  · exact blurClip_of_notMem radius fun hq => hp ((Screen.mem_clip h).mp hq)
  · exact blurClip_congr (fun p hq => hb p ((Screen.mem_clip h).mp hq)) radius
      ((Screen.mem_clip h).mpr hp)

theorem worksOn_blurRect (scr : Screen) (r : Rect) (radius : ℕ) :
    WorksOn scr r fun c => c.blurRect scr r radius := by
  unfold blurRect
  split
  · exact ⟨_, LocalOn.id _, fun _ => rfl⟩
  cases hq : scr.clip r with
  | none => exact ⟨_, LocalOn.id _, fun _ => rfl⟩
  | some q => exact ⟨_, localOn_blurClip hq radius, fun c => backBuffer_draw c r _⟩

theorem worksOn_drawChar (scr : Screen) (font : ℕ → UInt8) (x y : ℤ) (ch : UInt8) (fg : ℕ) :
    WorksOn scr (charRect x y) fun c => c.drawCharTransparent scr font x y ch fg := by
  unfold drawCharTransparent
  split
  · exact ⟨_, LocalOn.id _, fun _ => rfl⟩
  dsimp only
  cases hq : scr.clip ⟨x, y, 8, 16⟩ with
  | none => exact ⟨_, LocalOn.id _, fun c => backBuffer_markDirtyRect c _⟩
  | some q =>
    refine ⟨_, localOn_clip hq fun p v =>
      if glyphBit font ch (p.2 - y).toNat (p.1 - x).toNat then fg else v, fun c => ?_⟩
    refine (backBuffer_draw c _ _).trans (funext fun p => ?_)
    by_cases hp : p ∈ q <;> simp [hp]

theorem worksOn_blitColorkey (scr : Screen) (src : Image) (r : Rect) (key : ℕ) :
    WorksOn scr r fun c => c.blitColorkey scr src r key := by
  unfold blitColorkey
  cases hq : scr.clip r with
  | none => exact ⟨_, LocalOn.id _, fun _ => rfl⟩
  | some q =>
    exact ⟨_, localOn_clip hq fun p v =>
      let px := src ((p.1 - r.x).toNat, (p.2 - r.y).toNat)
      if px ≠ key then px else v, fun c => backBuffer_draw c r _⟩

/-- A call in a part of the set keeps what lies outside. -/
theorem WorksOn.outside {op : Compositor → Compositor} (h : WorksOn scr r op)
    (hS : scr.part r ⊆ S) (hp : p ∉ S) : (op c).backBuffer p = c.backBuffer p := by
  obtain ⟨f, hf, hop⟩ := h
  rw [hop]
  exact hf.confined _ p fun hin => hp (hS hin)

/-- A call in a part of the set keeps an agreement on it. -/
theorem WorksOn.agree {op : Compositor → Compositor} (h : WorksOn scr r op)
    (hS : scr.part r ⊆ S) (hc : AgreeOn S c.backBuffer c'.backBuffer) :
    AgreeOn S (op c).backBuffer (op c').backBuffer := by
  obtain ⟨f, hf, hop⟩ := h
  rw [hop, hop]
  exact hf.agree hS hc

/-! ## The caches -/

theorem caches_fillRectAlpha (c : Compositor) (r : Rect) (color alpha : ℕ) :
    (c.fillRectAlpha scr r color alpha).caches = c.caches := by
  unfold fillRectAlpha
  split
  · rfl
  · exact caches_draw c r _

theorem caches_blurRect (c : Compositor) (r : Rect) (radius : ℕ) :
    (c.blurRect scr r radius).caches = c.caches := by
  unfold blurRect
  split
  · rfl
  split
  · rfl
  · exact caches_draw c r _

theorem caches_drawChar (c : Compositor) (x y : ℤ) (ch : UInt8) (fg : ℕ) :
    (c.drawCharTransparent scr font x y ch fg).caches = c.caches := by
  unfold drawCharTransparent
  split
  · rfl
  dsimp only
  split
  · exact caches_markDirtyRect c _
  · exact caches_draw c _ _

theorem caches_blitColorkey (c : Compositor) (src : Image) (r : Rect) (key : ℕ) :
    (c.blitColorkey scr src r key).caches = c.caches := by
  unfold blitColorkey
  split
  · rfl
  · exact caches_draw c r _

theorem caches_fillRect (c : Compositor) (r : Rect) (color : ℕ) :
    (c.fillRect scr r color).caches = c.caches := by
  unfold fillRect
  split
  · exact caches_markDirtyRect c r
  · exact caches_draw c r _

/-- Caches with the same keys that agree on the screen. -/
structure Caches.Same (scr : Screen) (k k' : Caches) : Prop where
  wallpaperValid : k.wallpaperValid = k'.wallpaperValid
  wallpaper : AgreeOn scr.pixels k.wallpaper k'.wallpaper
  glassValid : k.glassValid = k'.glassValid
  glassId : k.glassId = k'.glassId
  glassRect : k.glassRect = k'.glassRect
  glass : AgreeOn scr.pixels k.glass k'.glass

/-- Back buffers that agree on a set, and caches that agree. -/
structure Alike (scr : Screen) (S : Set Pixel) (c c' : Compositor) : Prop where
  buffer : AgreeOn S c.backBuffer c'.backBuffer
  caches : c.caches.Same scr c'.caches

theorem Alike.works {op : Compositor → Compositor} (h : Alike scr S c c')
    (hop : WorksOn scr r op) (hS : scr.part r ⊆ S) (hcaches : ∀ c, (op c).caches = c.caches) :
    Alike scr S (op c) (op c') :=
  ⟨hop.agree hS h.buffer, by rw [hcaches, hcaches]; exact h.caches⟩

/-- Drawing inside a set keeps an agreement on it. -/
theorem alike_drawClosed (scr : Screen) (font : ℕ → UInt8) (S : Set Pixel) :
    DrawClosed scr font S (Alike scr S) where
  fillRectAlpha r color alpha hS h :=
    h.works (worksOn_fillRectAlpha scr r color alpha) hS fun c => caches_fillRectAlpha c r _ _
  blurRect r radius hS h :=
    h.works (worksOn_blurRect scr r radius) hS fun c => caches_blurRect c r _
  drawChar x y ch fg hS h :=
    h.works (worksOn_drawChar scr font x y ch fg) hS fun c => caches_drawChar c x y _ _
  blit src r key hS h :=
    h.works (worksOn_blitColorkey scr src r key) hS fun c => caches_blitColorkey c _ r _
  capture {c c'} id r hS h := by
    refine ⟨h.buffer, h.caches.wallpaperValid, h.caches.wallpaper, rfl, rfl, rfl, ?_⟩
    intro p hp
    have hglass : c.glass p = c'.glass p := h.caches.glass p hp
    simp only [Compositor.caches, glassCapture]
    cases hq : scr.clip r with
    | none => exact hglass
    | some q =>
      dsimp only
      split
      · rename_i hin
        exact h.buffer p (hS ((Screen.mem_clip hq).mp hin))
      · exact hglass

/-- Drawing inside a set keeps what lies outside. -/
theorem outside_drawClosed (scr : Screen) (font : ℕ → UInt8) (S : Set Pixel) (b : Image) :
    DrawClosed scr font S fun c _ => ∀ p ∉ S, c.backBuffer p = b p where
  fillRectAlpha r color alpha hS h p hp :=
    ((worksOn_fillRectAlpha scr r color alpha).outside hS hp).trans (h p hp)
  blurRect r radius hS h p hp := ((worksOn_blurRect scr r radius).outside hS hp).trans (h p hp)
  drawChar x y ch fg hS h p hp :=
    ((worksOn_drawChar scr font x y ch fg).outside hS hp).trans (h p hp)
  blit src r key hS h p hp := ((worksOn_blitColorkey scr src r key).outside hS hp).trans (h p hp)
  capture _ _ _ h := h

/-! ## Restores -/

/-- Restoring a rectangle of the wallpaper fails in both or makes both agree there. -/
theorem Alike.wallpaperRestoreRect (h : Alike scr S c c') (r : Rect) :
    (c.wallpaperRestoreRect scr r = none ∧ c'.wallpaperRestoreRect scr r = none) ∨
      ∃ d d', c.wallpaperRestoreRect scr r = some d ∧ c'.wallpaperRestoreRect scr r = some d' ∧
        Alike scr (S ∪ scr.part r) d d' ∧
        (∀ p ∉ scr.part r, d.backBuffer p = c.backBuffer p ∧ d'.backBuffer p = c'.backBuffer p) := by
  have hvalid : c.wallpaperValid = c'.wallpaperValid := h.caches.wallpaperValid
  unfold Compositor.wallpaperRestoreRect
  rw [← hvalid]
  split
  · refine Or.inr ?_
    cases hq : scr.clip r with
    | none =>
      refine ⟨c, c', rfl, rfl, ⟨?_, h.caches⟩, fun p _ => ⟨rfl, rfl⟩⟩
      rintro p (hp | hp)
      · exact h.buffer p hp
      · exact absurd hp (Screen.not_mem_of_clip hq)
    | some q =>
      refine ⟨_, _, rfl, rfl, ⟨?_, ?_⟩, fun p hp => ?_⟩
      · intro p hp
        rw [backBuffer_draw, backBuffer_draw]
        split
        · rename_i hin
          exact h.caches.wallpaper p ((Screen.mem_clip hq).mp hin).2
        · rename_i hout
          exact h.buffer p (hp.resolve_right fun hr => hout ((Screen.mem_clip hq).mpr hr))
      · rw [caches_draw, caches_draw]
        exact h.caches
      · rw [backBuffer_draw, backBuffer_draw]
        have hout : p ∉ q := fun hin => hp ((Screen.mem_clip hq).mp hin)
        exact ⟨if_neg hout, if_neg hout⟩
  · exact Or.inl ⟨rfl, rfl⟩

/-- Restoring the glass of a window fails in both or makes both agree there. -/
theorem Alike.glassRestore (h : Alike scr S c c') (id : ℕ) (r : Rect) :
    (c.glassRestore scr id r = none ∧ c'.glassRestore scr id r = none) ∨
      ∃ d d', c.glassRestore scr id r = some d ∧ c'.glassRestore scr id r = some d' ∧
        Alike scr (S ∪ scr.part r) d d' ∧
        (∀ p ∉ scr.part r, d.backBuffer p = c.backBuffer p ∧ d'.backBuffer p = c'.backBuffer p) := by
  have hvalid : c.glassValid = c'.glassValid := h.caches.glassValid
  have hid : c.glassId = c'.glassId := h.caches.glassId
  have hrect : c.glassRect = c'.glassRect := h.caches.glassRect
  unfold Compositor.glassRestore
  rw [← hvalid, ← hid, ← hrect]
  split
  · refine Or.inr ?_
    cases hq : scr.clip r with
    | none =>
      refine ⟨_, _, rfl, rfl, ⟨?_, ?_⟩, fun p _ => ?_⟩
      · rw [backBuffer_markDirtyRect, backBuffer_markDirtyRect]
        rintro p (hp | hp)
        · exact h.buffer p hp
        · exact absurd hp (Screen.not_mem_of_clip hq)
      · rw [caches_markDirtyRect, caches_markDirtyRect]
        exact h.caches
      · rw [backBuffer_markDirtyRect, backBuffer_markDirtyRect]
        exact ⟨rfl, rfl⟩
    | some q =>
      refine ⟨_, _, rfl, rfl, ⟨?_, ?_⟩, fun p hp => ?_⟩
      · intro p hp
        rw [backBuffer_draw, backBuffer_draw]
        split
        · rename_i hin
          exact h.caches.glass p ((Screen.mem_clip hq).mp hin).2
        · rename_i hout
          exact h.buffer p (hp.resolve_right fun hr => hout ((Screen.mem_clip hq).mpr hr))
      · rw [caches_draw, caches_draw]
        exact h.caches
      · rw [backBuffer_draw, backBuffer_draw]
        have hout : p ∉ q := fun hin => hp ((Screen.mem_clip hq).mp hin)
        exact ⟨if_neg hout, if_neg hout⟩
  · exact Or.inl ⟨rfl, rfl⟩

/-! ## The background -/

theorem backBuffer_fillRow (c : Compositor) (row color : ℕ) (hp : p ∈ scr.pixels) :
    (c.fillRect scr ⟨0, row, scr.width, 1⟩ color).backBuffer p =
      if p.2 = row then color else c.backBuffer p := by
  have hrow : p ∈ scr.part ⟨0, row, scr.width, 1⟩ ↔ p.2 = row := by
    rw [Screen.mem_pixels] at hp
    simp only [Screen.mem_part, Screen.mem_pixels, Rect.mem_def]
    omega
  unfold fillRect
  cases hq : scr.clip ⟨0, row, scr.width, 1⟩ with
  | none =>
    rw [backBuffer_markDirtyRect, if_neg (mt hrow.mpr (Screen.not_mem_of_clip hq))]
  | some q =>
    rw [backBuffer_draw]
    by_cases hin : p.2 = row
    · rw [if_pos hin, if_pos ((Screen.mem_clip hq).mpr (hrow.mpr hin))]
    · rw [if_neg hin, if_neg (mt (Screen.mem_clip hq).mp (mt hrow.mp hin))]

theorem agree_drawBlob (h : AgreeOn scr.pixels c.backBuffer c'.backBuffer) (cx cy radius : ℤ)
    (color maxAlpha : ℕ) :
    AgreeOn scr.pixels (drawBlob scr c cx cy radius color maxAlpha).backBuffer
      (drawBlob scr c' cx cy radius color maxAlpha).backBuffer := by
  intro p hp
  simp only [drawBlob, h p hp]

/-- The gradient covers the screen, so the wallpaper depends on nothing that was there. -/
theorem agree_paintWallpaper (scr : Screen) (c c' : Compositor) :
    AgreeOn scr.pixels (paintWallpaper scr c).backBuffer (paintWallpaper scr c').backBuffer := by
  have hrows : ∀ (rows : List ℕ) (c c' : Compositor),
      AgreeOn {p | p ∈ scr.pixels ∧ p.2 ∈ rows}
        (rows.foldl (fun c row => c.fillRect scr ⟨0, row, scr.width, 1⟩ (gradient scr row))
          c).backBuffer
        (rows.foldl (fun c row => c.fillRect scr ⟨0, row, scr.width, 1⟩ (gradient scr row))
          c').backBuffer ∧
      ∀ p ∈ scr.pixels, c.backBuffer p = c'.backBuffer p →
        (rows.foldl (fun c row => c.fillRect scr ⟨0, row, scr.width, 1⟩ (gradient scr row))
          c).backBuffer p =
        (rows.foldl (fun c row => c.fillRect scr ⟨0, row, scr.width, 1⟩ (gradient scr row))
          c').backBuffer p := by
    intro rows
    induction rows with
    | nil => exact fun c c' => ⟨fun p hp => absurd hp.2 List.not_mem_nil, fun p _ h => h⟩
    | cons row rows ih =>
      intro c c'
      simp only [List.foldl_cons]
      obtain ⟨hmem, hkeep⟩ := ih (c.fillRect scr ⟨0, row, scr.width, 1⟩ (gradient scr row))
        (c'.fillRect scr ⟨0, row, scr.width, 1⟩ (gradient scr row))
      refine ⟨fun p hp => ?_, fun p hp h => hkeep p hp ?_⟩
      · rcases List.mem_cons.mp hp.2 with hrow | hrow
        · refine hkeep p hp.1 ?_
          rw [backBuffer_fillRow c row _ hp.1, backBuffer_fillRow c' row _ hp.1, if_pos hrow,
            if_pos hrow]
        · exact hmem p ⟨hp.1, hrow⟩
      · rw [backBuffer_fillRow c row _ hp, backBuffer_fillRow c' row _ hp, h]
  have hgradient := (hrows (List.range scr.height) c c').1
  unfold paintWallpaper
  refine agree_drawBlob (agree_drawBlob (agree_drawBlob ?_ _ _ _ _ _) _ _ _ _ _) _ _ _ _ _
  exact fun p hp => hgradient p ⟨hp, List.mem_range.mpr hp.2⟩

theorem caches_paintWallpaper (scr : Screen) (c : Compositor) :
    (paintWallpaper scr c).caches = c.caches := by
  have hrows : ∀ (rows : List ℕ) (c : Compositor),
      (rows.foldl (fun c row => c.fillRect scr ⟨0, row, scr.width, 1⟩ (gradient scr row))
        c).caches = c.caches := by
    intro rows
    induction rows with
    | nil => exact fun _ => rfl
    | cons row rows ih => exact fun c => (ih _).trans (caches_fillRect c _ _)
  exact hrows (List.range scr.height) c

/-- Capturing the wallpaper from back buffers that agree on the screen. -/
theorem Alike.wallpaperCapture (h : Alike scr scr.pixels c c') :
    Alike scr scr.pixels (c.wallpaperCapture scr) (c'.wallpaperCapture scr) := by
  refine ⟨h.buffer, rfl, fun p hp => ?_, h.caches.glassValid, h.caches.glassId,
    h.caches.glassRect, h.caches.glass⟩
  have hin := Screen.mem_pixels.mp hp
  simp only [Compositor.caches, Compositor.wallpaperCapture, if_pos hin]
  exact h.buffer p hp

/-- The background makes the whole screen agree. -/
theorem Caches.Same.background (h : c.caches.Same scr c'.caches) :
    Alike scr scr.pixels (desktopDrawBackground scr c) (desktopDrawBackground scr c') := by
  have hvalid : c.wallpaperValid = c'.wallpaperValid := h.wallpaperValid
  unfold desktopDrawBackground wallpaperRestoreFull
  rw [← hvalid]
  cases c.wallpaperValid with
  | true =>
    simp only [if_true]
    refine ⟨fun p hp => ?_, ?_⟩
    · have hin := Screen.mem_pixels.mp hp
      rw [backBuffer_draw, backBuffer_draw, if_pos hin, if_pos hin]
      exact h.wallpaper p hp
    · rw [caches_draw, caches_draw]
      exact h
  | false =>
    have hpaint : Alike scr scr.pixels (paintWallpaper scr c) (paintWallpaper scr c') :=
      ⟨agree_paintWallpaper scr c c', by rwa [caches_paintWallpaper, caches_paintWallpaper]⟩
    simp only [Bool.false_eq_true, if_false]
    exact hpaint.wallpaperCapture

end Compositor

end VernisOS
