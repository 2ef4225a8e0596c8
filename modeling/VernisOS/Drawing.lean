import VernisOS.Gui

/-!
# What the drawing calls have in common

Windows, taskbar and start menu are drawn by a few calls of the compositor, each in a rectangle.
A relation between two compositors that every call inside a set of pixels keeps (`DrawClosed`)
is kept by a window that lies in the set (`DrawClosed.window`) and by the taskbar
(`DrawClosed.taskbar`).
-/

open Raster

namespace VernisOS

/-! ## The pixels of a drawing -/

/-- The rectangle of a character at `(x, y)`. -/
def charRect (x y : ℤ) : Rect :=
  ⟨x, y, 8, 16⟩

/-- The pixels that the characters of a string may change. -/
def textArea (scr : Screen) (x y : ℤ) (s : List UInt8) : Set Pixel :=
  {p | ∃ i < s.length, p ∈ scr.part (charRect (x + 8 * i) y)}

/-- The rectangles of `compose_window_glass`, the letters of the title apart. -/
def GuiWindow.paneRects (w : GuiWindow) : List Rect :=
  let closeX := w.x + w.width - borderWidth - closeBtnSize - 4
  let closeY := w.y + borderWidth + 4
  [w.rect,
    ⟨w.x + borderWidth, w.y + titleBarHeight, w.width - borderWidth * 2,
      w.height - (titleBarHeight + borderWidth)⟩,
    ⟨w.x + borderWidth, w.y + borderWidth, w.width - borderWidth * 2,
      titleBarHeight - borderWidth⟩,
    ⟨w.x, w.y, w.width, borderWidth⟩,
    ⟨w.x, w.y, borderWidth, w.height⟩,
    ⟨w.x + w.width - borderWidth, w.y, borderWidth, w.height⟩,
    ⟨w.x, w.y + w.height - borderWidth, w.width, borderWidth⟩,
    ⟨closeX, closeY, closeBtnSize, closeBtnSize⟩,
    charRect (closeX + 4) closeY,
    ⟨w.contentX, w.contentY, w.contentWidth, w.contentHeight⟩]

/-- A window is drawn within a set of pixels. -/
structure GuiWindow.DrawnIn (scr : Screen) (w : GuiWindow) (S : Set Pixel) : Prop where
  pane : ∀ r ∈ w.paneRects, scr.part r ⊆ S
  title : textArea scr (w.x + borderWidth + 6) (w.y + borderWidth + 4) w.title ⊆ S

theorem GuiWindow.drawnIn_of_subset {scr : Screen} {S : Set Pixel} (h : scr.pixels ⊆ S)
    (w : GuiWindow) : w.DrawnIn scr S :=
  ⟨fun _ _ _ hp => h hp.2, fun _ ⟨_, _, hp⟩ => h hp.2⟩

/-- A relation between compositors that the drawing calls inside of `S` keep. -/
structure DrawClosed (scr : Screen) (font : ℕ → UInt8) (S : Set Pixel)
    (R : Compositor → Compositor → Prop) : Prop where
  fillRectAlpha : ∀ {c d} r color alpha, scr.part r ⊆ S → R c d →
    R (c.fillRectAlpha scr r color alpha) (d.fillRectAlpha scr r color alpha)
  blurRect : ∀ {c d} r radius, scr.part r ⊆ S → R c d →
    R (c.blurRect scr r radius) (d.blurRect scr r radius)
  drawChar : ∀ {c d} x y ch fg, scr.part (charRect x y) ⊆ S → R c d →
    R (c.drawCharTransparent scr font x y ch fg) (d.drawCharTransparent scr font x y ch fg)
  blit : ∀ {c d} src r key, scr.part r ⊆ S → R c d →
    R (c.blitColorkey scr src r key) (d.blitColorkey scr src r key)
  capture : ∀ {c d} id r, scr.part r ⊆ S → R c d →
    R (c.glassCapture scr id r) (d.glassCapture scr id r)

namespace DrawClosed

variable {scr : Screen} {font : ℕ → UInt8} {S : Set Pixel} {R : Compositor → Compositor → Prop}
  {c d : Compositor}

theorem text (h : DrawClosed scr font S R) (y : ℤ) (fg : ℕ) :
    ∀ {s : List UInt8} {x : ℤ} {c d : Compositor}, textArea scr x y s ⊆ S → R c d →
      R (c.drawStringTransparent scr font x y s fg) (d.drawStringTransparent scr font x y s fg)
  | [], _, _, _, _, hR => hR
  | ch :: s, x, c, d, hS, hR => by
    unfold Compositor.drawStringTransparent
    split
    · exact hR
    · have hchar : scr.part (charRect x y) ⊆ S := fun p hp => hS ⟨0, by simp, by simpa using hp⟩
      refine h.text y fg (fun p hp => hS ?_) (h.drawChar x y ch fg hchar hR)
      obtain ⟨i, hi, hp⟩ := hp
      refine ⟨i + 1, by simpa using hi, ?_⟩
      have hx : x + 8 * ((i + 1 : ℕ) : ℤ) = x + 8 + 8 * i := by omega
      rw [hx]
      exact hp

/-! ## A window -/

theorem window (h : DrawClosed scr font S R) (wm : WindowManager) {w : GuiWindow}
    (hw : w.DrawnIn scr S) (doBlur : Bool) (hR : R c d) :
    R (wm.composeWindowGlass scr font c w doBlur) (wm.composeWindowGlass scr font d w doBlur) := by
  have hpane := hw.pane
  simp only [GuiWindow.paneRects, List.forall_mem_cons, List.not_mem_nil, false_imp_iff,
    implies_true, and_true] at hpane
  obtain ⟨hwhole, hdark, hstrip, htop, hleft, hright, hbottom, hclose, hcross, hcontent⟩ := hpane
  unfold WindowManager.composeWindowGlass
  have hfrost : R (if doBlur then c.blurRect scr w.rect 9 else c)
      (if doBlur then d.blurRect scr w.rect 9 else d) := by
    split
    · exact h.blurRect _ _ hwhole hR
    · exact hR
  have hglass := h.fillRectAlpha _ 0xFFFFFF (if w.focused then 60 else 28) hstrip
    (h.fillRectAlpha _ 0x0E1626 150 hdark hfrost)
  have hedges := h.fillRectAlpha _ 0xFFFFFF (if w.focused then 120 else 60) hbottom
    (h.fillRectAlpha _ 0xFFFFFF (if w.focused then 120 else 60) hright
      (h.fillRectAlpha _ 0xFFFFFF (if w.focused then 120 else 60) hleft
        (h.fillRectAlpha _ 0xFFFFFF (if w.focused then 120 else 60) htop hglass)))
  have htitled := h.text (w.y + borderWidth + 4) 0xF2F5FF hw.title hedges
  have hbutton := h.drawChar _ _ 'X'.toUInt8 0xFFFFFF hcross
    (h.fillRectAlpha _ 0xE84855 170 hclose htitled)
  cases doBlur with
  | true =>
    cases w.contentEmpty with
    | true => exact h.capture _ _ hwhole hbutton
    | false => exact h.blit _ _ _ hcontent (h.capture _ _ hwhole hbutton)
  | false =>
    cases w.contentEmpty with
    | true => exact hbutton
    | false => exact h.blit _ _ _ hcontent hbutton

theorem windows (h : DrawClosed scr font S R) (wm : WindowManager) (doBlur : Bool) :
    ∀ {ws : List GuiWindow} {c d : Compositor}, (∀ w ∈ ws, w.DrawnIn scr S) → R c d →
      R (ws.foldl (fun c w => wm.composeWindowGlass scr font c w doBlur) c)
        (ws.foldl (fun c w => wm.composeWindowGlass scr font c w doBlur) d)
  | [], _, _, _, hR => hR
  | w :: ws, _, _, hS, hR => by
    rw [List.foldl_cons, List.foldl_cons]
    exact h.windows wm doBlur (fun w' hw' => hS w' (List.mem_cons_of_mem w hw'))
      (h.window wm (hS w List.mem_cons_self) doBlur hR)

/-- The windows that meet a rectangle. -/
theorem windowsMet (h : DrawClosed scr font S R) (wm : WindowManager) (r : Rect) (doBlur : Bool) :
    ∀ {ws : List GuiWindow} {c d : Compositor},
      (∀ w ∈ ws, WindowManager.rectsIntersect r w.rect = true → w.DrawnIn scr S) → R c d →
      R (ws.foldl (fun c w => if WindowManager.rectsIntersect r w.rect then
          wm.composeWindowGlass scr font c w doBlur else c) c)
        (ws.foldl (fun c w => if WindowManager.rectsIntersect r w.rect then
          wm.composeWindowGlass scr font c w doBlur else c) d)
  | [], _, _, _, hR => hR
  | w :: ws, _, _, hS, hR => by
    rw [List.foldl_cons, List.foldl_cons]
    refine h.windowsMet wm r doBlur (fun w' hw' => hS w' (List.mem_cons_of_mem w hw')) ?_
    split
    · exact h.window wm (hS w List.mem_cons_self ‹_›) doBlur hR
    · exact hR

/-! ## The taskbar and the start menu -/

theorem buttons (h : DrawClosed scr font S R)
    (hS : scr.part ⟨0, scr.barY, scr.width, taskbarHeight⟩ ⊆ S) :
    ∀ {ws : List GuiWindow} {tx : ℤ} {c d : Compositor}, R c d →
      R (drawTaskbarButtons scr font ws tx c) (drawTaskbarButtons scr font ws tx d)
  | [], _, _, _, hR => hR
  | w :: ws, tx, c, d, hR => by
    have hpill : R
        (if w.focused then c.fillRectAlpha scr
          ⟨tx, scr.barY + 4, taskbarBtnW w, taskbarHeight - 8⟩ 0xFFFFFF 45 else c)
        (if w.focused then d.fillRectAlpha scr
          ⟨tx, scr.barY + 4, taskbarBtnW w, taskbarHeight - 8⟩ 0xFFFFFF 45 else d) := by
      split
      · refine h.fillRectAlpha _ _ _ (fun p hp => hS ?_) hR
        simp only [Screen.mem_part, Screen.mem_pixels, Rect.mem_def, taskbarHeight] at hp ⊢
        omega
      · exact hR
    rw [drawTaskbarButtons, drawTaskbarButtons]
    refine h.buttons hS (h.text _ _ (fun p hp => hS ?_) hpill)
    obtain ⟨i, -, hp⟩ := hp
    simp only [charRect, Screen.mem_part, Screen.mem_pixels, Rect.mem_def, taskbarHeight] at hp ⊢
    omega

/-- An item of the start menu, whose label fits. -/
theorem menuItem (h : DrawClosed scr font S R) {r : Rect} {e : AppEntry × ℕ}
    (hS : scr.part r ⊆ S) (hwidth : 12 + 8 * e.1.label.length ≤ r.w)
    (hheight : 24 * e.2 + 36 ≤ r.h) (hR : R c d) :
    R (StartMenu.drawItem scr font r c e) (StartMenu.drawItem scr font r d e) := by
  unfold StartMenu.drawItem
  have hline : R
      (if e.1.action = actRestart then c.fillRectAlpha scr
        ⟨r.x + 6, r.y + menuPad + e.2 * itemH - 1, r.w - 12, 1⟩ 0xFFFFFF 40 else c)
      (if e.1.action = actRestart then d.fillRectAlpha scr
        ⟨r.x + 6, r.y + menuPad + e.2 * itemH - 1, r.w - 12, 1⟩ 0xFFFFFF 40 else d) := by
    split
    · refine h.fillRectAlpha _ _ _ (fun p hp => hS ?_) hR
      simp only [Screen.mem_part, Screen.mem_pixels, Rect.mem_def, menuPad, itemH] at hp ⊢
      omega
    · exact hR
  refine h.text _ _ (fun p hp => hS ?_) hline
  obtain ⟨i, hi, hp⟩ := hp
  simp only [charRect, Screen.mem_part, Screen.mem_pixels, Rect.mem_def, menuPad, itemH] at hp ⊢
  omega

theorem menuItems (h : DrawClosed scr font S R) {r : Rect} (hS : scr.part r ⊆ S) :
    ∀ {es : List (AppEntry × ℕ)} {c d : Compositor},
      (∀ e ∈ es, 12 + 8 * e.1.label.length ≤ r.w ∧ 24 * e.2 + 36 ≤ r.h) → R c d →
      R (es.foldl (StartMenu.drawItem scr font r) c) (es.foldl (StartMenu.drawItem scr font r) d)
  | [], _, _, _, hR => hR
  | e :: es, _, _, hes, hR => by
    obtain ⟨hwidth, hheight⟩ := hes e List.mem_cons_self
    rw [List.foldl_cons, List.foldl_cons]
    exact h.menuItems hS (fun e' he' => hes e' (List.mem_cons_of_mem e he'))
      (h.menuItem hS hwidth hheight hR)

theorem menu (h : DrawClosed scr font S R) {m : StartMenu}
    (hbar : scr.part ⟨0, scr.barY, scr.width, taskbarHeight⟩ ⊆ S)
    (hpanel : m.isOpen = true → scr.part (StartMenu.geom scr m.apps.length) ⊆ S) (hR : R c d) :
    R (m.draw scr font c) (m.draw scr font d) := by
  unfold StartMenu.draw
  have hpill : R
      (if m.isOpen then c.fillRectAlpha scr ⟨0, scr.barY, startBtnW.toNat, taskbarHeight⟩
        0xFFFFFF 40 else c)
      (if m.isOpen then d.fillRectAlpha scr ⟨0, scr.barY, startBtnW.toNat, taskbarHeight⟩
        0xFFFFFF 40 else d) := by
    split
    · refine h.fillRectAlpha _ _ _ (fun p hp => hbar ?_) hR
      simp only [Screen.mem_part, Screen.mem_pixels, Rect.mem_def, taskbarHeight] at hp ⊢
      omega
    · exact hR
  have hlabel := h.text (x := 8) (s := Bytes.utf8 "= VernisOS") (scr.barY + 8) 0x7FB4FF
    (fun p hp => hbar (by
      obtain ⟨i, -, hp⟩ := hp
      simp only [charRect, Screen.mem_part, Screen.mem_pixels, Rect.mem_def, taskbarHeight] at hp ⊢
      omega)) hpill
  cases hopen : m.isOpen with
  | false =>
    simp only [hopen, Bool.not_false, if_true, Bool.false_eq_true, if_false] at hlabel ⊢
    exact hlabel
  | true =>
    have hS := hpanel hopen
    have hw : (StartMenu.geom scr m.apps.length).w = 210 := rfl
    have hh : (StartMenu.geom scr m.apps.length).h = 24 * m.apps.length + 12 := by
      simp only [StartMenu.geom, itemH, menuPad]
      omega
    have hthin : ∀ r : Rect, r.x = (StartMenu.geom scr m.apps.length).x →
        r.y = (StartMenu.geom scr m.apps.length).y → r.w ≤ (StartMenu.geom scr m.apps.length).w →
        r.h ≤ (StartMenu.geom scr m.apps.length).h → scr.part r ⊆ S := by
      intro r hx hy hle hle' p hp
      refine hS ?_
      simp only [Screen.mem_part, Screen.mem_pixels, Rect.mem_def] at hp ⊢
      omega
    have hpane := h.fillRectAlpha _ 0x0E1626 165 hS (h.blurRect _ 9 hS hlabel)
    have htop := h.fillRectAlpha { StartMenu.geom scr m.apps.length with h := 1 } 0xFFFFFF 90
      (hthin _ rfl rfl le_rfl (by change 1 ≤ _; omega)) hpane
    have hleft := h.fillRectAlpha { StartMenu.geom scr m.apps.length with w := 1 } 0xFFFFFF 60
      (hthin _ rfl rfl (by change 1 ≤ _; omega) le_rfl) htop
    simp only [hopen, Bool.not_true, Bool.false_eq_true, if_false, if_true] at hleft ⊢
    refine h.menuItems hS (fun e he => ?_) hleft
    have hlt : e.2 < m.apps.length := (List.mem_zipIdx' he).1
    have hfits := e.1.fits
    simp only [labelMax] at hfits
    omega

/-- The taskbar, with the start menu on top. -/
theorem taskbar (h : DrawClosed scr font S R) (wm : WindowManager) {m : StartMenu}
    (hbar : scr.part ⟨0, scr.barY, scr.width, taskbarHeight⟩ ⊆ S)
    (hpanel : m.isOpen = true → scr.part (StartMenu.geom scr m.apps.length) ⊆ S) (hR : R c d) :
    R (desktopDrawTaskbar scr font wm m c) (desktopDrawTaskbar scr font wm m d) := by
  unfold desktopDrawTaskbar
  have hline : scr.part ⟨0, scr.barY, scr.width, 1⟩ ⊆ S := by
    intro p hp
    refine hbar ?_
    simp only [Screen.mem_part, Screen.mem_pixels, Rect.mem_def, taskbarHeight] at hp ⊢
    omega
  have hstrip := h.fillRectAlpha _ 0xFFFFFF 60 hline
    (h.fillRectAlpha _ 0x0A0F1E 110 hbar (h.blurRect _ 8 hbar hR))
  exact h.menu hbar hpanel (h.buttons hbar hstrip)

end DrawClosed

end VernisOS
