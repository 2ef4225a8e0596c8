import VernisOS.Compositor

/-!
# The mouse cursor

`gui/cursor.rs` : an arrow of 12 by 19 pixels is painted into the back buffer, after the pixels
under it were saved. `shape` stands for `draw_cursor_shape`; `drawCursorShape` is the source's.
-/

namespace VernisOS

/-- `CURSOR_W`. -/
def cursorW : ℕ := 12

/-- `CURSOR_H`. -/
def cursorH : ℕ := 19

/-- `CURSOR_MASK`. -/
def cursorMask : List (BitVec 16) :=
  [0b1000000000000000, 0b1100000000000000, 0b1110000000000000, 0b1111000000000000,
   0b1111100000000000, 0b1111110000000000, 0b1111111000000000, 0b1111111100000000,
   0b1111111110000000, 0b1111111111000000, 0b1111111111100000, 0b1111111111110000,
   0b1111111000000000, 0b1110111100000000, 0b1100011110000000, 0b1000011110000000,
   0b0000001111000000, 0b0000001111000000, 0b0000000110000000]

/-- `CURSOR_SHAPE`. -/
def cursorShape : List (BitVec 16) :=
  [0b0000000000000000, 0b0100000000000000, 0b0110000000000000, 0b0111000000000000,
   0b0111100000000000, 0b0111110000000000, 0b0111111000000000, 0b0111111100000000,
   0b0111111110000000, 0b0111111111000000, 0b0111111111100000, 0b0111111000000000,
   0b0111011000000000, 0b0110011100000000, 0b0100001100000000, 0b0000001100000000,
   0b0000000110000000, 0b0000000110000000, 0b0000000000000000]

/-- What paints the cursor at a position. -/
abbrev CursorShape := Screen → ℤ → ℤ → Image → Image

/-- The rectangle of the cursor at `(x, y)`. -/
def cursorRect (x y : ℤ) : Rect :=
  ⟨x, y, cursorW, cursorH⟩

/-- The colour of the arrow at a column and a row, `none` where it is transparent. -/
def cursorColor (col row : ℕ) : Option ℕ :=
  if (cursorMask[row]?.getD 0).getLsbD (15 - col) then
    some (if (cursorShape[row]?.getD 0).getLsbD (15 - col) then 0xFFFFFF else 0)
  else none

/-- `draw_cursor_shape`. -/
def drawCursorShape : CursorShape := fun scr x y b p =>
  match scr.clip (cursorRect x y) with
  | none => b p
  | some q => if p ∈ q then (cursorColor (p.1 - x).toNat (p.2 - y).toNat).getD (b p) else b p

/-- The statics of the cursor : the saved pixels and the clipped rectangle they are from. -/
structure Cursor where
  saved : Image
  hasSaved : Bool
  x : ℕ
  y : ℕ
  wClip : ℕ
  hClip : ℕ

namespace Cursor

/-- The statics before anything was saved. -/
def init : Cursor where
  saved _ := 0
  hasSaved := false
  x := 0
  y := 0
  wClip := 0
  hClip := 0

/-- The clipped rectangle of the saved pixels. -/
def box (k : Cursor) : Clip :=
  ⟨k.x, k.y, k.x + k.wClip, k.y + k.hClip⟩

/-- The clipped rectangle, as the arguments of a drawing call. -/
def rect (k : Cursor) : Rect :=
  ⟨k.x, k.y, k.wClip, k.hClip⟩

/-- `cursor_save_under`. -/
def saveUnder (scr : Screen) (k : Cursor) (b : Image) (x y : ℤ) : Cursor :=
  match scr.clip (cursorRect x y) with
  | none => { k with hasSaved := false }
  | some q =>
    { saved := fun p => b (q.x0 + p.1, q.y0 + p.2)
      hasSaved := true
      x := q.x0
      y := q.y0
      wClip := q.x1 - q.x0
      hClip := q.y1 - q.y0 }

/-- The copying of `cursor_restore_under`. -/
def restoreUnder (k : Cursor) (b : Image) : Image :=
  if !k.hasSaved ∨ k.wClip = 0 ∨ k.hClip = 0 then b
  else fun p => if p ∈ k.box then k.saved (p.1 - k.x, p.2 - k.y) else b p

/-- `cursor_clear_old`. -/
def clearOld (k : Cursor) (c : Compositor) : Compositor :=
  if !k.hasSaved then c
  else { c with backBuffer := k.restoreUnder c.backBuffer }.markDirtyRect k.rect

/-- `cursor_draw_fresh`. -/
def drawFresh (scr : Screen) (shape : CursorShape) (k : Cursor) (c : Compositor) (x y : ℤ) :
    Cursor × Compositor :=
  (k.saveUnder scr c.backBuffer x y,
    { c with backBuffer := shape scr x y c.backBuffer }.markDirtyRect (cursorRect x y))

/-- `cursor_move_incremental`, with the rectangles of the old and of the new cursor. -/
def moveIncremental (scr : Screen) (shape : CursorShape) (k : Cursor) (c : Compositor) (x y : ℤ) :
    Cursor × Compositor × Option Rect × Option Rect :=
  let old := if k.hasSaved then (scr.clip k.rect).map Clip.rect else none
  let under := k.restoreUnder c.backBuffer
  (k.saveUnder scr under x y, { c with backBuffer := shape scr x y under }, old,
    (scr.clip (cursorRect x y)).map Clip.rect)

end Cursor

end VernisOS
