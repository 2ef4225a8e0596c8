import VernisOS.Lib.Bytes
import VernisOS.WindowManager

/-!
# Wallpaper, taskbar and start menu

`gui/desktop.rs` and `gui/startmenu.rs` : the wallpaper, a gradient with three soft blobs, is
painted once and captured; the taskbar is a glass strip with a button for each window; the start
menu is a panel above the taskbar. A label is its bytes up to `len`.
-/

open Bytes

namespace VernisOS

/-- `TASKBAR_HEIGHT`. -/
def taskbarHeight : ℕ := 32

/-- `START_BTN_W`. -/
def startBtnW : ℤ := 96

/-- `ITEM_H`. -/
def itemH : ℤ := 24

/-- `MENU_W`. -/
def menuW : ℤ := 210

/-- `PAD`. -/
def menuPad : ℤ := 6

/-- `MAX_APPS`. -/
def maxApps : ℕ := 16

/-- `LABEL_MAX`. -/
def labelMax : ℕ := 22

def actTerminal : UInt8 := 0

def actRestart : UInt8 := 3

def actShutdown : UInt8 := 4

/-- `bar_y`, where the taskbar begins. -/
def Screen.barY (scr : Screen) : ℤ :=
  ((scr.height - taskbarHeight : ℕ) : ℤ)

/-! ## The start menu -/

/-- `AppEntry`. -/
structure AppEntry where
  label : List UInt8
  action : UInt8
  fits : label.length ≤ labelMax

/-- `StartMenu`. -/
structure StartMenu where
  apps : List AppEntry
  isOpen : Bool
  dirty : Bool

namespace StartMenu

/-- `register_app`. -/
def registerApp (m : StartMenu) (label : List UInt8) (action : UInt8) : StartMenu :=
  if m.apps.length ≥ maxApps then m
  else { m with apps := m.apps ++ [⟨label.take labelMax, action, List.length_take_le _ _⟩] }

/-- `startmenu_init`. -/
def init : StartMenu :=
  (((⟨[], false, false⟩ : StartMenu).registerApp (utf8 "Terminal") actTerminal).registerApp
    (utf8 "Restart") actRestart).registerApp (utf8 "Shut Down") actShutdown

/-- `take_dirty`. -/
def takeDirty (m : StartMenu) : Bool × StartMenu :=
  (m.dirty, { m with dirty := false })

/-- `close`. -/
def close (m : StartMenu) : StartMenu :=
  if m.isOpen then { m with isOpen := false, dirty := true } else m

/-- `toggle`. -/
def toggle (m : StartMenu) : StartMenu :=
  { m with isOpen := !m.isOpen, dirty := true }

/-- `menu_geom`. -/
def geom (scr : Screen) (count : ℕ) : Rect :=
  let h := count * itemH + menuPad * 2
  ⟨4, scr.barY - h, menuW.toNat, h.toNat⟩

/-- `hit_start_button`. -/
def hitStartButton (scr : Screen) (mx my : ℤ) : Bool :=
  (scr.barY ≤ my ∧ my < scr.height) ∧ 0 ≤ mx ∧ mx < startBtnW

/-- `hit_item` of an open menu : `none` outside of the panel, `some none` between items, where
the source returns `0xFF`. -/
def hitItem (scr : Screen) (m : StartMenu) (mx my : ℤ) : Option (Option UInt8) × StartMenu :=
  if !m.isOpen then (none, m)
  else
    let r := geom scr m.apps.length
    if mx < r.x ∨ mx ≥ r.x + r.w ∨ my < r.y ∨ my ≥ r.y + r.h then (none, m)
    else
      -- the division of `i32` rounds towards zero
      let idx := (my - r.y - menuPad).tdiv itemH
      match if idx ≥ 0 then m.apps[idx.toNat]? else none with
      | some e => (some (some e.action), { m with isOpen := false, dirty := true })
      | none => (some none, m)

/-- An item of the panel `r` in `startmenu::draw`, with its place in the list. -/
def drawItem (scr : Screen) (font : ℕ → UInt8) (r : Rect) (c : Compositor) (e : AppEntry × ℕ) :
    Compositor :=
  let iy := r.y + menuPad + e.2 * itemH
  let c := if e.1.action = actRestart then
      c.fillRectAlpha scr ⟨r.x + 6, iy - 1, r.w - 12, 1⟩ 0xFFFFFF 40
    else c
  let color := if e.1.action = actRestart ∨ e.1.action = actShutdown then 0xFF9E9E else 0xE8ECF8
  c.drawStringTransparent scr font (r.x + 12) (iy + 4) e.1.label color

/-- `startmenu::draw`. -/
def draw (scr : Screen) (font : ℕ → UInt8) (m : StartMenu) (c : Compositor) : Compositor :=
  let barY := scr.barY
  let c := if m.isOpen then
      c.fillRectAlpha scr ⟨0, barY, startBtnW.toNat, taskbarHeight⟩ 0xFFFFFF 40
    else c
  let c := c.drawStringTransparent scr font 8 (barY + 8) (utf8 "= VernisOS") 0x7FB4FF
  if !m.isOpen then c
  else
    let r := geom scr m.apps.length
    let c := c.blurRect scr r 9
    let c := c.fillRectAlpha scr r 0x0E1626 165
    let c := c.fillRectAlpha scr { r with h := 1 } 0xFFFFFF 90
    let c := c.fillRectAlpha scr { r with w := 1 } 0xFFFFFF 60
    m.apps.zipIdx.foldl (drawItem scr font r) c

end StartMenu

/-! ## The taskbar -/

/-- `btn_w`, the width of the button of a window. -/
def taskbarBtnW (w : GuiWindow) : ℕ :=
  min (w.title.length * 8 + 16) 150

/-- The button that covers `mx`, if the first one is at `tx`. -/
def taskbarButton : List GuiWindow → ℤ → ℤ → Option ℕ
  | [], _, _ => none
  | w :: ws, tx, mx =>
    if tx ≤ mx ∧ mx < tx + taskbarBtnW w then some w.id
    else taskbarButton ws (tx + taskbarBtnW w + 4) mx

/-- `taskbar_hit_test`. -/
def taskbarHitTest (scr : Screen) (wm : WindowManager) (mx my : ℤ) : Option ℕ :=
  if my < scr.barY ∨ my ≥ scr.height then none
  else taskbarButton wm.shown (startBtnW + 8) mx

/-- The buttons of the taskbar, the first one at `tx`. -/
def drawTaskbarButtons (scr : Screen) (font : ℕ → UInt8) :
    List GuiWindow → ℤ → Compositor → Compositor
  | [], _, c => c
  | w :: ws, tx, c =>
    let c := if w.focused then
        c.fillRectAlpha scr ⟨tx, scr.barY + 4, taskbarBtnW w, taskbarHeight - 8⟩ 0xFFFFFF 45
      else c
    let c := c.drawStringTransparent scr font (tx + 4) (scr.barY + 8) w.title 0xE8ECF8
    drawTaskbarButtons scr font ws (tx + taskbarBtnW w + 4) c

/-- `desktop_draw_taskbar`, with the start menu on top. -/
def desktopDrawTaskbar (scr : Screen) (font : ℕ → UInt8) (wm : WindowManager) (m : StartMenu)
    (c : Compositor) : Compositor :=
  let strip : Rect := ⟨0, scr.barY, scr.width, taskbarHeight⟩
  let c := c.blurRect scr strip 8
  let c := c.fillRectAlpha scr strip 0x0A0F1E 110
  let c := c.fillRectAlpha scr { strip with h := 1 } 0xFFFFFF 60
  let c := drawTaskbarButtons scr font wm.shown (startBtnW + 8) c
  m.draw scr font c

/-! ## The wallpaper -/

/-- `lerp_channel`. -/
def lerpChannel (a b num den : ℕ) : ℕ :=
  (a * (den - num) + b * num) / den

/-- `draw_blob` : it marks nothing. -/
def drawBlob (scr : Screen) (c : Compositor) (cx cy radius : ℤ) (color maxAlpha : ℕ) :
    Compositor :=
  let r2 := (radius * radius).toNat
  let recip := (maxAlpha <<< 15) / r2
  { c with backBuffer := fun p =>
      let d2 := ((p.1 - cx) * (p.1 - cx) + (p.2 - cy) * (p.2 - cy)).toNat
      if (cx - radius ≤ p.1 ∧ (p.1 : ℤ) < cx + radius) ∧
          (cy - radius ≤ p.2 ∧ (p.2 : ℤ) < cy + radius) ∧
          (p.1 < scr.width ∧ p.2 < scr.height) ∧ d2 < r2 then
        let a := ((r2 - d2) * recip) >>> 15
        if a = 0 then c.backBuffer p else blendPx (c.backBuffer p) color a
      else c.backBuffer p }

/-- The colour of a row of the gradient, from `WALL_TOP` to `WALL_BOTTOM`. -/
def gradient (scr : Screen) (row : ℕ) : ℕ :=
  let h := max scr.height 1
  let r := lerpChannel (0x101332 >>> 16 &&& 0xFF) (0x2A1A4E >>> 16 &&& 0xFF) row h
  let g := lerpChannel (0x101332 >>> 8 &&& 0xFF) (0x2A1A4E >>> 8 &&& 0xFF) row h
  let b := lerpChannel (0x101332 &&& 0xFF) (0x2A1A4E &&& 0xFF) row h
  (r <<< 16) ||| (g <<< 8) ||| b

/-- The painting of `desktop_draw_background`, before the capture. -/
def paintWallpaper (scr : Screen) (c : Compositor) : Compositor :=
  let c := (List.range scr.height).foldl (fun c row =>
    c.fillRect scr ⟨0, row, scr.width, 1⟩ (gradient scr row)) c
  let w : ℤ := scr.width
  let hh : ℤ := scr.height
  let c := drawBlob scr c (w / 5) (hh / 4) (hh / 3) 0x3D5AFE 70
  let c := drawBlob scr c (w * 4 / 5) (hh / 3) (hh / 4) 0xB447D6 60
  drawBlob scr c (w / 2) (hh * 9 / 10) (hh / 3) 0x1DE9B6 45

/-- `desktop_draw_background`. -/
def desktopDrawBackground (scr : Screen) (c : Compositor) : Compositor :=
  match c.wallpaperRestoreFull scr with
  | some c => c
  | none => (paintWallpaper scr c).wallpaperCapture scr

end VernisOS
