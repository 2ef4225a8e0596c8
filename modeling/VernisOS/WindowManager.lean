import VernisOS.Compositor

/-!
# The window manager

`gui/window.rs` : the windows, their order on the screen, focus, dragging and hit tests, and how
they are drawn. An operation notes the part of the screen that it made stale (`damage_add`). Ids
are handed out once, so there is one window with an id, and the content buffers are kept by id.
-/

open Raster

namespace VernisOS

/-- `TITLE_BAR_HEIGHT`. -/
def titleBarHeight : ℕ := 24

/-- `BORDER_WIDTH`. -/
def borderWidth : ℕ := 1

/-- `CLOSE_BTN_SIZE`. -/
def closeBtnSize : ℕ := 16

/-- `MAX_TITLE_LEN`. -/
def maxTitleLen : ℕ := 63

/-- `Window` : what the window manager reads of one. -/
structure GuiWindow where
  id : ℕ
  title : List UInt8
  x : ℤ
  y : ℤ
  width : ℕ
  height : ℕ
  visible : Bool
  focused : Bool
  deriving DecidableEq

namespace GuiWindow

/-- The rectangle of the whole window. -/
def rect (w : GuiWindow) : Rect :=
  ⟨w.x, w.y, w.width, w.height⟩

def contentWidth (w : GuiWindow) : ℕ :=
  w.width - borderWidth * 2

def contentHeight (w : GuiWindow) : ℕ :=
  w.height - (titleBarHeight + borderWidth)

def contentX (w : GuiWindow) : ℤ :=
  w.x + borderWidth

def contentY (w : GuiWindow) : ℤ :=
  w.y + titleBarHeight

/-- `content_buf.is_empty()`. -/
def contentEmpty (w : GuiWindow) : Bool :=
  w.contentWidth * w.contentHeight = 0

end GuiWindow

/-- `WindowManager`, with the content buffer of each window. -/
structure WindowManager where
  windows : List GuiWindow
  zOrder : List ℕ
  nextId : ℕ
  dragging : Option ℕ
  dragOffsetX : ℤ
  dragOffsetY : ℤ
  winsDirty : Bool
  dmg : Rect
  taskbarDirty : Bool
  contentBuf : ℕ → Image

/-- `HitArea`. -/
inductive HitArea
  | titleBar
  | closeButton
  | content
  deriving DecidableEq

namespace WindowManager

/-- `wm_init`. -/
def init : WindowManager where
  windows := []
  zOrder := []
  nextId := 1
  dragging := none
  dragOffsetX := 0
  dragOffsetY := 0
  winsDirty := true
  dmg := ⟨0, 0, 0, 0⟩
  taskbarDirty := true
  contentBuf _ _ := 0

/-! ## Damage -/

/-- `damage_add`. -/
def damageAdd (wm : WindowManager) (r : Rect) : WindowManager :=
  if r.w = 0 ∨ r.h = 0 then wm
  else if wm.dmg.w = 0 ∨ wm.dmg.h = 0 then { wm with dmg := r }
  else { wm with dmg := wm.dmg.union r }

/-- `wm_take_damage`. -/
def takeDamage (wm : WindowManager) : Option Rect × WindowManager :=
  if wm.dmg.w = 0 ∨ wm.dmg.h = 0 then (none, wm)
  else (some wm.dmg, { wm with dmg := { wm.dmg with w := 0, h := 0 } })

/-- `wm_take_taskbar_dirty`. -/
def takeTaskbarDirty (wm : WindowManager) : Bool × WindowManager :=
  (wm.taskbarDirty, { wm with taskbarDirty := false })

/-- `wm_windows_rendered`. -/
def windowsRendered (wm : WindowManager) : WindowManager :=
  { wm with winsDirty := false }

/-! ## Windows -/

/-- `find_window`. -/
def findWindow (wm : WindowManager) (id : ℕ) : Option GuiWindow :=
  wm.windows.find? (·.id = id)

/-- Changes the window with this id. -/
def updateWindow (wm : WindowManager) (id : ℕ) (f : GuiWindow → GuiWindow) : WindowManager :=
  { wm with windows := wm.windows.map fun w => if w.id = id then f w else w }

/-- `wm_window_exists`. -/
def windowExists (wm : WindowManager) (id : ℕ) : Bool :=
  wm.windows.any (·.id = id)

/-- `wm_create_window`. -/
def createWindow (wm : WindowManager) (title : List UInt8) (x y : ℤ) (w h : ℕ) :
    WindowManager × ℕ :=
  let id := wm.nextId
  let win : GuiWindow :=
    { id, title := title.take maxTitleLen, x, y, width := w, height := h, visible := true,
      focused := true }
  let wm := { wm with
    nextId := id + 1
    windows := (wm.windows.map fun w : GuiWindow => { w with focused := false }) ++ [win]
    zOrder := wm.zOrder ++ [id]
    contentBuf := Function.update wm.contentBuf id fun _ => 0 }
  ({ wm.damageAdd win.rect with taskbarDirty := true, winsDirty := true }, id)

/-- What `wm_close_window` does once the damage is noted. -/
def removeWindow (wm : WindowManager) (id : ℕ) : WindowManager :=
  let wm := { wm with
    zOrder := wm.zOrder.filter (· ≠ id)
    windows := wm.windows.filter (·.id ≠ id) }
  let wm :=
    match wm.zOrder.getLast? with
    | some topId => wm.updateWindow topId fun w => { w with focused := true }
    | none => wm
  { wm with taskbarDirty := true, winsDirty := true }

/-- `wm_close_window`. -/
def closeWindow (wm : WindowManager) (id : ℕ) : WindowManager :=
  match wm.findWindow id with
  | some w => (wm.damageAdd w.rect).removeWindow id
  | none => wm.removeWindow id

/-- `wm_focus_window`. -/
def focusWindow (wm : WindowManager) (id : ℕ) : WindowManager :=
  let wm := { wm with
    zOrder := wm.zOrder.filter (· ≠ id) ++ [id]
    windows := wm.windows.map fun w : GuiWindow => { w with focused := w.id = id } }
  let wm := wm.windows.foldl (fun wm w => if w.visible then wm.damageAdd w.rect else wm) wm
  { wm with taskbarDirty := true, winsDirty := true }

/-- `wm_get_focused_id`. -/
def getFocusedId (wm : WindowManager) : Option ℕ :=
  wm.zOrder.getLast?

/-- `wm_move_window`. -/
def moveWindow (wm : WindowManager) (id : ℕ) (x y : ℤ) : WindowManager :=
  match wm.findWindow id with
  | none => wm
  | some w =>
    let wm := wm.updateWindow id fun w => { w with x, y }
    { (wm.damageAdd w.rect).damageAdd { w.rect with x, y } with winsDirty := true }

/-- `gui_move_focused_window`, whether there was a window to move. -/
def moveFocusedWindow (wm : WindowManager) (dx dy : ℤ) : WindowManager × Bool :=
  match wm.getFocusedId with
  | none => (wm, false)
  | some id =>
    match wm.findWindow id with
    | none => (wm, false)
    | some w => (wm.moveWindow id (w.x + dx) (w.y + dy), true)

/-! ## Content buffers -/

/-- `wm_window_fill` with black. -/
def windowFill (wm : WindowManager) (id : ℕ) : WindowManager :=
  if wm.windowExists id then
    { wm with contentBuf := Function.update wm.contentBuf id fun _ => 0 }
  else wm

/-- `wm_render_rows_direct` : the row of characters in the content buffer, in cells of 8 by 16
pixels. -/
def renderRowsDirect (font : ℕ → UInt8) (wm : WindowManager) (id row : ℕ)
    (chars : ℕ → UInt8) (fgs bgs : ℕ → ℕ) : WindowManager :=
  match wm.findWindow id with
  | none => wm
  | some w =>
    { wm with contentBuf := Function.update wm.contentBuf id fun p =>
        if p.2 / 16 = row ∧ p.2 < w.contentHeight ∧ p.1 / 8 < 80 ∧ p.1 < w.contentWidth then
          if Compositor.glyphBit font (chars (p.1 / 8)) (p.2 % 16) (p.1 % 8) then fgs (p.1 / 8)
          else bgs (p.1 / 8)
        else wm.contentBuf id p }

/-- `wm_window_fill_rect`. -/
def windowFillRect (wm : WindowManager) (id x y w h color : ℕ) : WindowManager :=
  match wm.findWindow id with
  | none => wm
  | some win =>
    { wm with contentBuf := Function.update wm.contentBuf id fun p =>
        if (x ≤ p.1 ∧ p.1 < min (x + w) win.contentWidth) ∧
            y ≤ p.2 ∧ p.2 < min (y + h) win.contentHeight then color
        else wm.contentBuf id p }

/-! ## Hit tests and dragging -/

/-- What `(mx, my)` hits of a window. -/
def hitWindow (w : GuiWindow) (mx my : ℤ) : Option HitArea :=
  if !w.visible then none
  else if (w.x ≤ mx ∧ mx < w.x + w.width) ∧ w.y ≤ my ∧ my < w.y + w.height then
    let closeX := w.x + w.width - borderWidth - closeBtnSize - 4
    let closeY := w.y + borderWidth + 4
    if (closeX ≤ mx ∧ mx < closeX + closeBtnSize) ∧ closeY ≤ my ∧ my < closeY + closeBtnSize then
      some .closeButton
    else if my < w.y + titleBarHeight then some .titleBar
    else some .content
  else none

/-- `wm_hit_test`, from the top of the z-order to its bottom. -/
def hitTest (wm : WindowManager) (mx my : ℤ) : Option (ℕ × HitArea) :=
  wm.zOrder.reverse.findSome? fun id =>
    match wm.findWindow id with
    | none => none
    | some w => (hitWindow w mx my).map fun area => (id, area)

/-- `wm_start_drag`. -/
def startDrag (wm : WindowManager) (id : ℕ) (mx my : ℤ) : WindowManager :=
  match wm.findWindow id with
  | none => wm
  | some w => { wm with dragging := some id, dragOffsetX := mx - w.x, dragOffsetY := my - w.y }

/-- `wm_drag_to`. -/
def dragTo (wm : WindowManager) (mx my : ℤ) : WindowManager :=
  match wm.dragging with
  | none => wm
  | some id => wm.moveWindow id (mx - wm.dragOffsetX) (my - wm.dragOffsetY)

/-- `wm_stop_drag`. -/
def stopDrag (wm : WindowManager) : WindowManager :=
  { wm with dragging := none }

/-- `wm_is_dragging`. -/
def isDragging (wm : WindowManager) : Bool :=
  wm.dragging.isSome

/-! ## Drawing -/

/-- `compose_window_glass`. -/
def composeWindowGlass (scr : Screen) (font : ℕ → UInt8) (wm : WindowManager) (c : Compositor)
    (w : GuiWindow) (doBlur : Bool) : Compositor :=
  let c := if doBlur then c.blurRect scr w.rect 9 else c
  let c := c.fillRectAlpha scr ⟨w.x + borderWidth, w.y + titleBarHeight,
    w.width - borderWidth * 2, w.height - (titleBarHeight + borderWidth)⟩ 0x0E1626 150
  let titleAlpha := if w.focused then 60 else 28
  let c := c.fillRectAlpha scr ⟨w.x + borderWidth, w.y + borderWidth,
    w.width - borderWidth * 2, titleBarHeight - borderWidth⟩ 0xFFFFFF titleAlpha
  let edgeAlpha := if w.focused then 120 else 60
  let c := c.fillRectAlpha scr ⟨w.x, w.y, w.width, borderWidth⟩ 0xFFFFFF edgeAlpha
  let c := c.fillRectAlpha scr ⟨w.x, w.y, borderWidth, w.height⟩ 0xFFFFFF edgeAlpha
  let c := c.fillRectAlpha scr ⟨w.x + w.width - borderWidth, w.y, borderWidth, w.height⟩
    0xFFFFFF edgeAlpha
  let c := c.fillRectAlpha scr ⟨w.x, w.y + w.height - borderWidth, w.width, borderWidth⟩
    0xFFFFFF edgeAlpha
  let c := c.drawStringTransparent scr font (w.x + borderWidth + 6) (w.y + borderWidth + 4)
    w.title 0xF2F5FF
  let closeX := w.x + w.width - borderWidth - closeBtnSize - 4
  let closeY := w.y + borderWidth + 4
  let c := c.fillRectAlpha scr ⟨closeX, closeY, closeBtnSize, closeBtnSize⟩ 0xE84855 170
  let c := c.drawCharTransparent scr font (closeX + 4) closeY 'X'.toUInt8 0xFFFFFF
  let c := if doBlur then c.glassCapture scr w.id w.rect else c
  if w.contentEmpty then c
  else c.blitColorkey scr (wm.contentBuf w.id)
    ⟨w.contentX, w.contentY, w.contentWidth, w.contentHeight⟩ 0

/-- The visible windows in z-order. -/
def shown (wm : WindowManager) : List GuiWindow :=
  (wm.zOrder.filterMap wm.findWindow).filter (·.visible)

/-- `wm_compose_all`. -/
def composeAll (scr : Screen) (font : ℕ → UInt8) (wm : WindowManager) (c : Compositor)
    (doBlur : Bool) : Compositor :=
  wm.shown.foldl (fun c w => composeWindowGlass scr font wm c w doBlur) c

/-- `rects_intersect`. -/
def rectsIntersect (a b : Rect) : Bool :=
  (a.x < b.x + b.w ∧ b.x < a.x + a.w) ∧ a.y < b.y + b.h ∧ b.y < a.y + a.h

/-- One pass of the loop in `wm_compose_partial` : the damage grows by every window it meets. -/
def growDamage (wm : WindowManager) (d : Rect) : Rect :=
  wm.windows.foldl (fun d w =>
    if w.visible ∧ rectsIntersect d w.rect then d.union w.rect else d) d

/-- The loop of `wm_compose_partial` : passes until one changes nothing. -/
def growLoop (wm : WindowManager) : ℕ → Rect → Rect
  | 0, d => d
  | fuel + 1, d => if wm.growDamage d = d then d else growLoop wm fuel (wm.growDamage d)

/-- `wm_compose_partial`, `none` if the wallpaper has not been captured. Every pass of the loop
that changes the damage covers one more window, so it ends within the number of windows. -/
def composePartial (scr : Screen) (font : ℕ → UInt8) (wm : WindowManager) (c : Compositor)
    (dmg : Rect) (doBlur : Bool) : Option Compositor :=
  let d := wm.growLoop (wm.windows.length + 1) dmg
  match c.wallpaperRestoreRect scr d with
  | none => none
  | some c => some (wm.shown.foldl (fun c w =>
      if rectsIntersect d w.rect then composeWindowGlass scr font wm c w doBlur else c) c)

/-- `wm_compose_by_id`, `none` if there is no such visible window. -/
def composeById (scr : Screen) (font : ℕ → UInt8) (wm : WindowManager) (c : Compositor)
    (id : ℕ) : Option Compositor :=
  match wm.findWindow id with
  | none => none
  | some w => if w.visible then some (composeWindowGlass scr font wm c w true) else none

/-- `wm_blit_content_by_id`, `none` if there is no such visible window with a content. -/
def blitContentById (scr : Screen) (wm : WindowManager) (c : Compositor) (id : ℕ) :
    Option Compositor :=
  match wm.findWindow id with
  | none => none
  | some w =>
    if w.visible ∧ !w.contentEmpty then
      some (c.blitColorkey scr (wm.contentBuf w.id)
        ⟨w.contentX, w.contentY, w.contentWidth, w.contentHeight⟩ 0)
    else none

/-- `wm_rect_hits_taskbar`. -/
def rectHitsTaskbar (scr : Screen) (y : ℤ) (h taskbarH : ℕ) : Bool :=
  y + h > ((scr.height - taskbarH : ℕ) : ℤ)

end WindowManager

end VernisOS
