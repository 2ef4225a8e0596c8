import Mathlib.Data.List.Basic
import Mathlib.Algebra.Order.Group.Int
import VernisOS.Lib.Raster

/-!
# The compositor

`gui/compositor.rs` : all drawing goes to a back buffer and notes the rectangle it changed; a
present copies that rectangle to the framebuffer. A picture is a function from pixels to
colours `0xRRGGBB`. The size of the screen is the same in every static that has a copy of it.

Coordinates are far from the limits of 32 bits, so they are integers, and sizes are naturals.
The compositor is initialized : if the mode does not fit the reserved region, `gui_init` leaves
it off and nothing is drawn. Pixels of 24 and of 32 bits hold the same colours.
-/

open Raster

namespace VernisOS

/-- Column and row. -/
abbrev Pixel := ℕ × ℕ

abbrev Image := Pixel → ℕ

/-- `screen_w` and `screen_h`. -/
structure Screen where
  width : ℕ
  height : ℕ
  deriving DecidableEq

/-- `DirtyRect`, and the `x, y, w, h` of a drawing call. -/
structure Rect where
  x : ℤ
  y : ℤ
  w : ℕ
  h : ℕ
  deriving DecidableEq

/-- The pixels of a rectangle. -/
instance : Membership Pixel Rect where
  mem r p := (r.x ≤ p.1 ∧ (p.1 : ℤ) < r.x + r.w) ∧ r.y ≤ p.2 ∧ (p.2 : ℤ) < r.y + r.h

theorem Rect.mem_def {r : Rect} {p : Pixel} :
    p ∈ r ↔ (r.x ≤ p.1 ∧ (p.1 : ℤ) < r.x + r.w) ∧ r.y ≤ p.2 ∧ (p.2 : ℤ) < r.y + r.h :=
  Iff.rfl

/-- A clipped rectangle : `x0 ≤ x < x1` and `y0 ≤ y < y1`. -/
structure Clip where
  x0 : ℕ
  y0 : ℕ
  x1 : ℕ
  y1 : ℕ
  deriving DecidableEq

instance : Membership Pixel Clip where
  mem q p := (q.x0 ≤ p.1 ∧ p.1 < q.x1) ∧ q.y0 ≤ p.2 ∧ p.2 < q.y1

instance (q : Clip) : DecidablePred (· ∈ q) := fun p =>
  inferInstanceAs (Decidable ((q.x0 ≤ p.1 ∧ p.1 < q.x1) ∧ q.y0 ≤ p.2 ∧ p.2 < q.y1))

theorem Clip.mem_def {q : Clip} {p : Pixel} :
    p ∈ q ↔ (q.x0 ≤ p.1 ∧ p.1 < q.x1) ∧ q.y0 ≤ p.2 ∧ p.2 < q.y1 :=
  Iff.rfl

/-- The clipped rectangle as `x, y, w, h`. -/
def Clip.rect (q : Clip) : Rect :=
  ⟨q.x0, q.y0, q.x1 - q.x0, q.y1 - q.y0⟩

namespace Screen

/-- The whole screen. -/
def rect (scr : Screen) : Rect :=
  ⟨0, 0, scr.width, scr.height⟩

/-- `clip_rect`, `rect_clip` and the clipping of the presents : nothing if no pixel of the
rectangle is on the screen. -/
def clip (scr : Screen) (r : Rect) : Option Clip :=
  let x0 := r.x.toNat
  let y0 := r.y.toNat
  let x1 := min (r.x + r.w).toNat scr.width
  let y1 := min (r.y + r.h).toNat scr.height
  if x1 ≤ x0 ∨ y1 ≤ y0 then none else some ⟨x0, y0, x1, y1⟩

/-- The pixels of the screen. -/
def pixels (scr : Screen) : Set Pixel :=
  {p | p.1 < scr.width ∧ p.2 < scr.height}

/-- The pixels of a rectangle that are on the screen. -/
def part (scr : Screen) (r : Rect) : Set Pixel :=
  {p | p ∈ r ∧ p ∈ scr.pixels}

variable {scr : Screen} {r : Rect} {q : Clip} {p : Pixel}

theorem mem_pixels : p ∈ scr.pixels ↔ p.1 < scr.width ∧ p.2 < scr.height :=
  Iff.rfl

theorem mem_part : p ∈ scr.part r ↔ p ∈ r ∧ p ∈ scr.pixels :=
  Iff.rfl

theorem mem_clip (h : scr.clip r = some q) : p ∈ q ↔ p ∈ scr.part r := by
  simp only [clip] at h
  split at h
  · cases h
  · cases h
    simp only [Clip.mem_def, mem_part, mem_pixels, Rect.mem_def]
    omega

theorem not_mem_of_clip (h : scr.clip r = none) : p ∉ scr.part r := by
  simp only [clip] at h
  split at h
  · simp only [mem_part, mem_pixels, Rect.mem_def]
    omega
  · cases h

theorem mem_part_clip (h : scr.clip r = some q) : p ∈ scr.part q.rect ↔ p ∈ scr.part r := by
  rw [← mem_clip h]
  simp only [clip] at h
  split at h
  · cases h
  · cases h
    simp only [mem_part, mem_pixels, Rect.mem_def, Clip.rect, Clip.mem_def]
    omega

theorem clip_bounds (h : scr.clip r = some q) :
    q.x0 < q.x1 ∧ q.y0 < q.y1 ∧ q.x1 ≤ scr.width ∧ q.y1 ≤ scr.height := by
  simp only [clip] at h
  split at h
  · cases h
  · cases h
    dsimp only
    omega

theorem mem_rect (h : p ∈ scr.pixels) : p ∈ scr.rect := by
  simp only [Rect.mem_def, rect]
  rw [mem_pixels] at h
  omega

end Screen

/-! ## Dirty rectangles -/

namespace Rect

/-- `DirtyRect::union` : the bounding box of both. -/
def union (r other : Rect) : Rect :=
  let x0 := if r.x < other.x then r.x else other.x
  let y0 := if r.y < other.y then r.y else other.y
  let x1 := if r.x + r.w > other.x + other.w then r.x + r.w else other.x + other.w
  let y1 := if r.y + r.h > other.y + other.h then r.y + r.h else other.y + other.h
  ⟨x0, y0, (x1 - x0).toNat, (y1 - y0).toNat⟩

variable {r other : Rect} {p : Pixel}

theorem mem_union_left (h : p ∈ r) : p ∈ r.union other := by
  simp only [mem_def, union] at h ⊢
  split <;> split <;> split <;> split <;> omega

theorem mem_union_right (h : p ∈ other) : p ∈ r.union other := by
  simp only [mem_def, union] at h ⊢
  split <;> split <;> split <;> split <;> omega

end Rect

/-- `Compositor`, with the framebuffer that it presents to. -/
structure Compositor where
  backBuffer : Image
  wallpaper : Image
  wallpaperValid : Bool
  glass : Image
  glassValid : Bool
  glassId : ℕ
  glassRect : Rect
  dirty : Bool
  dirtyRect : Rect
  framebuffer : Image

/-- `blend_px`. -/
def blendPx (dst src alpha : ℕ) : ℕ :=
  let a := alpha + (alpha >>> 7)
  let inv := 256 - a
  let r := ((src >>> 16 &&& 0xFF) * a + (dst >>> 16 &&& 0xFF) * inv) >>> 8
  let g := ((src >>> 8 &&& 0xFF) * a + (dst >>> 8 &&& 0xFF) * inv) >>> 8
  let b := ((src &&& 0xFF) * a + (dst &&& 0xFF) * inv) >>> 8
  (r <<< 16) ||| (g <<< 8) ||| b

/-! ## The box blur -/

/-- The running sums of `blur_line_u32`. -/
structure BlurSums where
  sr : ℕ
  sg : ℕ
  sb : ℕ
  count : ℕ

namespace BlurSums

def add (s : BlurSums) (p : ℕ) : BlurSums :=
  ⟨s.sr + (p >>> 16 &&& 0xFF), s.sg + (p >>> 8 &&& 0xFF), s.sb + (p &&& 0xFF), s.count + 1⟩

def sub (s : BlurSums) (p : ℕ) : BlurSums :=
  ⟨s.sr - (p >>> 16 &&& 0xFF), s.sg - (p >>> 8 &&& 0xFF), s.sb - (p &&& 0xFF), s.count - 1⟩

/-- The average colour. -/
def average (s : BlurSums) : ℕ :=
  ((s.sr / s.count) <<< 16) ||| ((s.sg / s.count) <<< 8) ||| (s.sb / s.count)

/-- The sums when the `i`-th colour of the line is written. -/
def window (line : ℕ → ℕ) (len r : ℕ) : ℕ → BlurSums
  | 0 => (List.range (min r (len - 1) + 1)).foldl (fun s i => s.add (line i)) ⟨0, 0, 0, 0⟩
  | i + 1 =>
    let s := window line len r i
    let s := if i + r + 1 < len then s.add (line (i + r + 1)) else s
    if r ≤ i then s.sub (line (i - r)) else s

end BlurSums

/-- `blur_line_u32` : the `i`-th colour it writes. -/
def blurLine (line : ℕ → ℕ) (len r i : ℕ) : ℕ :=
  (BlurSums.window line len r i).average

/-- The blur of a line reads nothing beyond its length. -/
theorem blurLine_congr {line line' : ℕ → ℕ} {len r i : ℕ} (h : ∀ j < len, line j = line' j)
    (hi : i < len) : blurLine line len r i = blurLine line' len r i := by
  have hsums : ∀ i < len, BlurSums.window line len r i = BlurSums.window line' len r i := by
    intro i
    induction i with
    | zero =>
      intro hlen
      simp only [BlurSums.window]
      refine List.foldl_ext _ _ _ fun s j hj => ?_
      rw [List.mem_range] at hj
      rw [h j (by omega)]
    | succ i ih =>
      intro hlen
      simp only [BlurSums.window, ih (by omega), h (i - r) (by omega)]
      by_cases hnext : i + r + 1 < len
      · simp only [if_pos hnext, h _ hnext]
      · simp only [if_neg hnext]
  rw [blurLine, blurLine, hsums i hi]

/-- The two passes of `compositor_blur_rect` over the clipped rectangle. -/
def blurClip (q : Clip) (radius : ℕ) (b : Image) : Image :=
  let rows : Image := fun p =>
    if p ∈ q then blurLine (fun i => b (q.x0 + i, p.2)) (q.x1 - q.x0) radius (p.1 - q.x0) else b p
  fun p =>
    if p ∈ q then blurLine (fun i => rows (p.1, q.y0 + i)) (q.y1 - q.y0) radius (p.2 - q.y0)
    else rows p

theorem blurClip_of_notMem {q : Clip} {b : Image} {p : Pixel} (radius : ℕ) (h : p ∉ q) :
    blurClip q radius b p = b p := by
  simp only [blurClip, if_neg h]

namespace Compositor

/-! ## What is marked -/

/-- `compositor_mark_dirty_rect`. -/
def markDirtyRect (c : Compositor) (r : Rect) : Compositor :=
  if c.dirtyRect.w = 0 ∨ c.dirtyRect.h = 0 then { c with dirty := true, dirtyRect := r }
  else { c with dirty := true, dirtyRect := c.dirtyRect.union r }

theorem framebuffer_markDirtyRect (c : Compositor) (r : Rect) :
    (c.markDirtyRect r).framebuffer = c.framebuffer := by
  unfold markDirtyRect
  split <;> rfl

theorem backBuffer_markDirtyRect (c : Compositor) (r : Rect) :
    (c.markDirtyRect r).backBuffer = c.backBuffer := by
  unfold markDirtyRect
  split <;> rfl

/-- Changes the back buffer and marks a rectangle. -/
def draw (c : Compositor) (r : Rect) (f : Image → Image) : Compositor :=
  { c with backBuffer := f c.backBuffer }.markDirtyRect r

/-! ## Drawing calls -/

/-- `compositor_fill_rect`. -/
def fillRect (scr : Screen) (c : Compositor) (r : Rect) (color : ℕ) : Compositor :=
  match scr.clip r with
  | none => c.markDirtyRect r
  | some q => c.draw r fun b p => if p ∈ q then color else b p

/-- `compositor_fill_rect_alpha`. -/
def fillRectAlpha (scr : Screen) (c : Compositor) (r : Rect) (color alpha : ℕ) : Compositor :=
  match scr.clip r with
  | none => c
  | some q => c.draw r fun b p => if p ∈ q then blendPx (b p) color alpha else b p

/-- `compositor_blur_rect`. -/
def blurRect (scr : Screen) (c : Compositor) (r : Rect) (radius : ℕ) : Compositor :=
  if radius = 0 then c
  else
    match scr.clip r with
    | none => c
    | some q => c.draw r (blurClip q radius)

/-- `compositor_blit_colorkey` : `src` is read from its own top left corner. -/
def blitColorkey (scr : Screen) (c : Compositor) (src : Image) (r : Rect) (key : ℕ) : Compositor :=
  match scr.clip r with
  | none => c
  | some q => c.draw r fun b p =>
      if p ∈ q then
        let px := src ((p.1 - r.x).toNat, (p.2 - r.y).toNat)
        if px ≠ key then px else b p
      else b p

/-- A glyph of the font has the pixel at this row and column. -/
def glyphBit (font : ℕ → UInt8) (ch : UInt8) (row col : ℕ) : Bool :=
  (font (ch.toNat * 16 + row)).toNat.testBit (7 - col)

/-- `compositor_draw_char_transparent` : `FONT_WIDTH` is 8 and `FONT_HEIGHT` is 16. -/
def drawCharTransparent (scr : Screen) (font : ℕ → UInt8) (c : Compositor) (x y : ℤ) (ch : UInt8)
    (fg : ℕ) : Compositor :=
  if x ≥ scr.width ∨ y ≥ scr.height then c
  else
    let r : Rect := ⟨x, y, 8, 16⟩
    match scr.clip r with
    | none => c.markDirtyRect r
    | some q => c.draw r fun b p =>
        if p ∈ q ∧ glyphBit font ch (p.2 - y).toNat (p.1 - x).toNat then fg else b p

/-- `compositor_draw_string_transparent`. -/
def drawStringTransparent (scr : Screen) (font : ℕ → UInt8) (c : Compositor) (x y : ℤ) :
    List UInt8 → ℕ → Compositor
  | [], _ => c
  | ch :: s, fg =>
    if ch = 0 then c
    else drawStringTransparent scr font (c.drawCharTransparent scr font x y ch fg) (x + 8) y s fg

/-! ## The wallpaper and the glass of a window -/

/-- `compositor_wallpaper_capture`. -/
def wallpaperCapture (scr : Screen) (c : Compositor) : Compositor :=
  { c with
    wallpaper := fun p =>
      if p.1 < scr.width ∧ p.2 < scr.height then c.backBuffer p else c.wallpaper p
    wallpaperValid := true }

/-- `compositor_wallpaper_restore_full`, `none` if nothing has been captured. -/
def wallpaperRestoreFull (scr : Screen) (c : Compositor) : Option Compositor :=
  if c.wallpaperValid then
    some (c.draw scr.rect fun b p =>
      if p.1 < scr.width ∧ p.2 < scr.height then c.wallpaper p else b p)
  else none

/-- `compositor_wallpaper_restore_rect`. -/
def wallpaperRestoreRect (scr : Screen) (c : Compositor) (r : Rect) : Option Compositor :=
  if c.wallpaperValid then
    match scr.clip r with
    | none => some c
    | some q => some (c.draw r fun b p => if p ∈ q then c.wallpaper p else b p)
  else none

/-- `compositor_glass_capture`. -/
def glassCapture (scr : Screen) (c : Compositor) (id : ℕ) (r : Rect) : Compositor :=
  { c with
    glass :=
      match scr.clip r with
      | none => c.glass
      | some q => fun p => if p ∈ q then c.backBuffer p else c.glass p
    glassId := id
    glassRect := r
    glassValid := true }

/-- `compositor_glass_restore`, `none` if the cache is not of this window at this place. -/
def glassRestore (scr : Screen) (c : Compositor) (id : ℕ) (r : Rect) : Option Compositor :=
  if c.glassValid ∧ c.glassId = id ∧ c.glassRect = r then
    match scr.clip r with
    | none => some (c.markDirtyRect r)
    | some q => some (c.draw r fun b p => if p ∈ q then c.glass p else b p)
  else none

/-! ## Presenting -/

/-- `fb_blit` of a clipped rectangle. -/
def fbBlit (c : Compositor) (q : Clip) : Compositor :=
  { c with framebuffer := fun p => if p ∈ q then c.backBuffer p else c.framebuffer p }

/-- `compositor_present`. -/
def present (scr : Screen) (c : Compositor) : Compositor :=
  if !c.dirty ∨ c.dirtyRect.w = 0 ∨ c.dirtyRect.h = 0 then c
  else
    match scr.clip c.dirtyRect with
    | none => { c with dirty := false, dirtyRect := ⟨0, 0, 0, 0⟩ }
    | some q => { c.fbBlit q with dirty := false, dirtyRect := ⟨0, 0, 0, 0⟩ }

/-- `compositor_present_rect`. -/
def presentRect (scr : Screen) (c : Compositor) (r : Rect) : Compositor :=
  if r.w = 0 ∨ r.h = 0 then c
  else
    match scr.clip r with
    | none => c
    | some q => c.fbBlit q

end Compositor

end VernisOS
