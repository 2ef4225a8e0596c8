import VernisOS.LocalDrawing
import VernisOS.Lib.Run
import VernisOS.ScreenCoherence
import VernisOS.WindowsFit

/-!
# The cursor leaves no trace

Two runs on the same inputs, one with the arrow and one in which the cursor draws nothing, handle
the same events and compose the same frames. After every tick the arrow comes off again with
the pixels that were saved under it (`Gui.Twin`), except where a typing tick redraws its one
window over the arrow : what the arrow left outside of the window is then saved as background
(`Gui.Smears`). The runs agree exactly as long as no tick does (`Gui.cursor_no_trace`).
-/

open Raster Run

namespace VernisOS

/-- A `draw_cursor_shape` that draws nothing. -/
def blankCursor : CursorShape := fun _ _ _ b => b

/-! ## Saving and restoring -/

namespace Cursor

variable {scr : Screen} {k : Cursor} {p : Pixel}

theorem box_saveUnder {q : Clip} {x y : ℤ} (hq : scr.clip (cursorRect x y) = some q) (b : Image) :
    (k.saveUnder scr b x y).box = q := by
  have hbounds := Screen.clip_bounds hq
  simp only [saveUnder, hq, box]
  obtain ⟨x0, y0, x1, y1⟩ := q
  simp only [Clip.mk.injEq, true_and]
  dsimp only at hbounds
  omega

/-- The saved pixels come back, whatever was painted over them. -/
theorem restore_saved {b b' : Image} {x y : ℤ}
    (hb : ∀ p ∉ scr.part (cursorRect x y), b' p = b p) (p : Pixel) :
    (k.saveUnder scr b x y).restoreUnder b' p = b p := by
  cases hq : scr.clip (cursorRect x y) with
  | none =>
    rw [restoreUnder_of_unsaved (by simp only [saveUnder, hq])]
    exact hb p (Screen.not_mem_of_clip hq)
  | some q =>
    by_cases hp : p ∈ q
    · have hbounds := Screen.clip_bounds hq
      have hbox : p ∈ (k.saveUnder scr b x y).box := by rwa [box_saveUnder hq]
      obtain ⟨hx, hy⟩ := Clip.mem_def.mp hp
      have hwide : ¬ (q.x1 - q.x0 = 0 ∨ q.y1 - q.y0 = 0) := by omega
      have hcol : q.x0 + (p.1 - q.x0) = p.1 := by omega
      have hrow : q.y0 + (p.2 - q.y0) = p.2 := by omega
      unfold restoreUnder
      rw [if_neg, if_pos hbox]
      · simp only [saveUnder, hq, hcol, hrow]
      · simp only [saveUnder, hq, Bool.not_true, Bool.false_eq_true, false_or]
        exact hwide
    · rw [restoreUnder_of_notMem (by rwa [box_saveUnder hq])]
      exact hb p fun hpart => hp ((Screen.mem_clip hq).mpr hpart)

theorem backBuffer_clearOld (k : Cursor) (c : Compositor) :
    (k.clearOld c).backBuffer = k.restoreUnder c.backBuffer := by
  unfold clearOld
  split
  · rename_i hsaved
    rw [restoreUnder_of_unsaved (by simpa using hsaved)]
  · exact Compositor.backBuffer_markDirtyRect _ _

theorem caches_clearOld (k : Cursor) (c : Compositor) : (k.clearOld c).caches = c.caches := by
  unfold clearOld
  split
  · rfl
  · exact Compositor.caches_markDirtyRect _ _

end Cursor

/-- The mouse is at no negative coordinate of a screen that has pixels. -/
def Mouse.Inside (scr : Screen) (m : Mouse) : Prop :=
  (0 < scr.width → 0 ≤ m.x) ∧ (0 < scr.height → 0 ≤ m.y)

theorem Mouse.clamp_nonneg {size : ℕ} (v : ℤ) (h : 0 < size) : 0 ≤ Mouse.clamp v size := by
  simp only [Mouse.clamp]
  split <;> split <;> omega

theorem Mouse.inside_handlePacket (scr : Screen) (m : Mouse) (flags : UInt8) (dx dy : ℤ) :
    (m.handlePacket scr flags dx dy).Inside scr :=
  ⟨Mouse.clamp_nonneg _, Mouse.clamp_nonneg _⟩

/-! ## Frames of two compositors -/

theorem GuiWindow.Open.drawnIn {w : GuiWindow} (h : w.Open) (scr : Screen) :
    w.DrawnIn scr (scr.part w.rect) := by
  have hwidth := h.width
  have hheight := h.height
  have htitle := h.title
  constructor
  · simp only [GuiWindow.paneRects, List.forall_mem_cons, List.not_mem_nil, false_imp_iff,
      implies_true, and_true]
    refine ⟨?_, ?_, ?_, ?_, ?_, ?_, ?_, ?_, ?_, ?_⟩ <;>
    · intro p hp
      simp only [Screen.mem_part, Screen.mem_pixels, Rect.mem_def, GuiWindow.rect, charRect,
        GuiWindow.contentX, GuiWindow.contentY, GuiWindow.contentWidth, GuiWindow.contentHeight,
        borderWidth, titleBarHeight, closeBtnSize] at hp ⊢
      omega
  · rintro p ⟨i, hi, hp⟩
    simp only [Screen.mem_part, Screen.mem_pixels, Rect.mem_def, GuiWindow.rect, charRect,
      borderWidth] at hp ⊢
    omega

theorem WindowManager.Tidy.findWindow {wm : WindowManager} {w : GuiWindow} (h : wm.Tidy)
    (hw : wm.windows.find? (·.visible) = some w) : wm.findWindow w.id = some w := by
  unfold WindowManager.findWindow
  cases hws : wm.windows with
  | nil =>
    rw [hws] at hw
    cases hw
  | cons w' ws =>
    have hvisible := (h.windows w' (by rw [hws]; exact List.mem_cons_self)).visible
    rw [hws, List.find?_cons, hvisible] at hw
    cases hw
    rw [List.find?_cons, decide_eq_true rfl]

namespace WindowManager

theorem mem_growDamage {wm : WindowManager} {d : Rect} {p : Pixel} (h : p ∈ d) :
    p ∈ wm.growDamage d := by
  unfold growDamage
  generalize wm.windows = ws
  induction ws generalizing d with
  | nil => exact h
  | cons w ws ih =>
    rw [List.foldl_cons]
    split
    · exact ih (Rect.mem_union_left h)
    · exact ih h

theorem mem_growLoop {wm : WindowManager} {d : Rect} {p : Pixel} (h : p ∈ d) (fuel : ℕ) :
    p ∈ wm.growLoop fuel d := by
  induction fuel generalizing d with
  | zero => exact h
  | succ fuel ih =>
    unfold growLoop
    split
    · exact h
    · exact ih (mem_growDamage h)

end WindowManager

namespace Compositor

variable {scr : Screen} {font : ℕ → UInt8} {c c' : Compositor} {p : Pixel}

theorem Alike.taskbar (h : Alike scr scr.pixels c c') (font : ℕ → UInt8) (wm : WindowManager)
    (m : StartMenu) :
    Alike scr scr.pixels (desktopDrawTaskbar scr font wm m c)
      (desktopDrawTaskbar scr font wm m c') :=
  (alike_drawClosed scr font scr.pixels).taskbar wm (fun _ hp => hp.2) (fun _ _ hp => hp.2) h

/-- A frame from scratch is the same over compositors with the same caches. -/
theorem Caches.Same.full (h : c.caches.Same scr c'.caches) (font : ℕ → UInt8) (d : Desk)
    (doBlur : Bool) :
    Alike scr scr.pixels (Gui.composeFull scr font d c doBlur)
      (Gui.composeFull scr font d c' doBlur) :=
  ((alike_drawClosed scr font scr.pixels).windows d.wm doBlur (fun w _ => w.drawnIn_of_subset subset_rfl)
    h.background).taskbar font d.wm d.menu

/-- Damage that covers every pixel where the back buffers differ makes them agree. -/
theorem Alike.composePartial (h : c.caches.Same scr c'.caches) {r : Rect}
    (hout : ∀ p ∈ scr.pixels, p ∉ r → c.backBuffer p = c'.backBuffer p) (font : ℕ → UInt8)
    (wm : WindowManager) (doBlur : Bool) :
    (wm.composePartial scr font c r doBlur = none ∧
      wm.composePartial scr font c' r doBlur = none) ∨
      ∃ e e', wm.composePartial scr font c r doBlur = some e ∧
        wm.composePartial scr font c' r doBlur = some e' ∧ Alike scr scr.pixels e e' := by
  have hnone : Alike scr ∅ c c' := ⟨fun p hp => absurd hp (Set.notMem_empty p), h⟩
  simp only [WindowManager.composePartial]
  rcases hnone.wallpaperRestoreRect (wm.growLoop (wm.windows.length + 1) r) with
    ⟨hc, hc'⟩ | ⟨d, d', hd, hd', halike, hkept⟩
  · rw [hc, hc']
    exact Or.inl ⟨rfl, rfl⟩
  · rw [hd, hd']
    refine Or.inr ⟨_, _, rfl, rfl, ?_⟩
    refine (alike_drawClosed scr font scr.pixels).windowsMet wm _ doBlur
      (fun w _ _ => w.drawnIn_of_subset subset_rfl) ⟨fun p hp => ?_, halike.caches⟩
    by_cases hin : p ∈ scr.part (wm.growLoop (wm.windows.length + 1) r)
    · exact halike.buffer p (Or.inr hin)
    · rw [(hkept p hin).1, (hkept p hin).2]
      exact hout p hp fun hr => hin ⟨WindowManager.mem_growLoop hr _, hp⟩

end Compositor

namespace Gui

variable {κ : Type} {scr : Screen} {font : ℕ → UInt8} {sh : GuiShell κ} {g : Gui κ}
  {now : BitVec 32}

/-! ## The window that a typing tick draws over -/

/-- The window that `partial_compose_single_window` draws over : the menu is closed, the window
is the only one and ends above the taskbar, and its glass or the wallpaper has been captured. -/
def loneWindow (scr : Screen) (d : Desk) (c : Compositor) : Option GuiWindow :=
  if d.menu.isOpen ∨ d.wm.zOrder.length ≠ 1 then none
  else
    match d.wm.windows.find? (·.visible) with
    | none => none
    | some w =>
      if w.y + w.height > scr.barY then none
      else if (c.glassValid ∧ c.glassId = w.id ∧ c.glassRect = w.rect) ∨ c.wallpaperValid then
        some w
      else none

theorem loneWindow_congr {scr : Screen} {c c' : Compositor} (h : c.caches.Same scr c'.caches) (d : Desk) :
    loneWindow scr d c = loneWindow scr d c' := by
  have hwall : c.wallpaperValid = c'.wallpaperValid := h.wallpaperValid
  have hvalid : c.glassValid = c'.glassValid := h.glassValid
  have hid : c.glassId = c'.glassId := h.glassId
  have hrect : c.glassRect = c'.glassRect := h.glassRect
  simp only [loneWindow, hwall, hvalid, hid, hrect]

theorem partialCompose_of_none (font : ℕ → UInt8) {d : Desk} {c : Compositor}
    (h : loneWindow scr d c = none) :
    partialComposeSingleWindow scr font d c = (c, false) := by
  unfold loneWindow at h
  unfold partialComposeSingleWindow
  split
  · rfl
  rename_i hclosed
  split
  · rfl
  rename_i hone
  rw [if_neg (not_or.mpr ⟨hclosed, hone⟩)] at h
  split
  · rfl
  · rename_i w hw
    simp only [hw] at h
    split
    · rfl
    · rename_i habove
      rw [if_neg habove] at h
      have hmatch : ¬ (c.glassValid ∧ c.glassId = w.id ∧ c.glassRect = w.rect) := by
        intro hglass
        rw [if_pos (Or.inl hglass)] at h
        cases h
      have hwall : ¬ c.wallpaperValid = true := by
        intro hvalid
        rw [if_pos (Or.inr hvalid)] at h
        cases h
      simp only [Compositor.glassRestore, if_neg hmatch, Compositor.wallpaperRestoreRect,
        if_neg hwall]

/-- Redrawing the one window makes it agree, and keeps everything else. -/
theorem partialCompose_of_some (font : ℕ → UInt8) {d : Desk} {c c' : Compositor} {w : GuiWindow}
    (hd : d.Tidy)
    (hc : c.caches.Same scr c'.caches) (h : loneWindow scr d c = some w) :
    ∃ e e', partialComposeSingleWindow scr font d c = (e, true) ∧
      partialComposeSingleWindow scr font d c' = (e', true) ∧
      Compositor.Alike scr (scr.part w.rect) e e' ∧
      ∀ p ∉ scr.part w.rect,
        e.backBuffer p = c.backBuffer p ∧ e'.backBuffer p = c'.backBuffer p := by
  have hnone : Compositor.Alike scr ∅ c c' := ⟨fun p hp => absurd hp (Set.notMem_empty p), hc⟩
  unfold loneWindow at h
  split at h
  · cases h
  rename_i hlone
  split at h
  · cases h
  rename_i w' hw
  split at h
  · cases h
  rename_i habove
  split at h
  swap
  · cases h
  rename_i hcached
  cases h
  have hopen := hd.windows w (List.mem_of_find?_eq_some hw)
  have hfind := WindowManager.Tidy.findWindow hd hw
  rw [not_or, not_not] at hlone
  simp only [partialComposeSingleWindow, if_neg hlone.1, hlone.2, ne_eq, not_true_eq_false,
    if_false, hw, if_neg habove]
  rcases hnone.glassRestore w.id w.rect with ⟨hg, hg'⟩ | ⟨e, e', hg, hg', halike, hkept⟩
  · rw [hg, hg']
    dsimp only
    rcases hnone.wallpaperRestoreRect w.rect with ⟨hr, -⟩ | ⟨e, e', hr, hr', halike, hkept⟩
    · exfalso
      have hwall : c.wallpaperValid = true := by
        refine hcached.resolve_left fun hglass => ?_
        simp only [Compositor.glassRestore, if_pos hglass] at hg
        split at hg <;> cases hg
      simp only [Compositor.wallpaperRestoreRect, if_pos hwall] at hr
      split at hr <;> cases hr
    · rw [Set.empty_union] at halike
      rw [hr, hr']
      simp only [WindowManager.composeById, hfind, hopen.visible, if_true]
      refine ⟨_, _, rfl, rfl,
        (Compositor.alike_drawClosed scr font _).window d.wm (hopen.drawnIn scr) true halike, ?_⟩
      intro p hp
      have hin := (Compositor.outside_drawClosed scr font (scr.part w.rect) c.backBuffer).window
        (d := e) d.wm (hopen.drawnIn scr) true fun p hp => (hkept p hp).1
      have hin' := (Compositor.outside_drawClosed scr font (scr.part w.rect) c'.backBuffer).window
        (d := e') d.wm (hopen.drawnIn scr) true fun p hp => (hkept p hp).2
      exact ⟨hin p hp, hin' p hp⟩
  · rw [Set.empty_union] at halike
    rw [hg, hg']
    simp only [WindowManager.blitContentById, hfind, hopen.visible, hopen.content, Bool.not_false,
      and_self, if_true]
    have hcontent := (hopen.drawnIn scr).pane
      ⟨w.contentX, w.contentY, w.contentWidth, w.contentHeight⟩ (by simp [GuiWindow.paneRects])
    refine ⟨_, _, rfl, rfl,
      (Compositor.alike_drawClosed scr font _).blit _ _ 0 hcontent halike, fun p hp => ?_⟩
    have hworks := Compositor.worksOn_blitColorkey scr (d.wm.contentBuf w.id)
      ⟨w.contentX, w.contentY, w.contentWidth, w.contentHeight⟩ 0
    exact ⟨(hworks.outside hcontent hp).trans (hkept p hp).1,
      (hworks.outside hcontent hp).trans (hkept p hp).2⟩

/-! ## Two runs -/

/-- The same GUI, with another compositor and another cursor. -/
def withDrawing (g : Gui κ) (c : Compositor) (k : Cursor) : Gui κ :=
  { g with comp := c, cursor := k }

/-- The back buffer without the cursor is the one of the other run. -/
def NoTrace (scr : Screen) (g g' : Gui κ) : Prop :=
  AgreeOn scr.pixels (g.cursor.restoreUnder g.comp.backBuffer) g'.comp.backBuffer

/-- A run with the arrow in `g`, and the compositor and the cursor of the run without it. -/
structure Twin (scr : Screen) (g : Gui κ) (c : Compositor) (k : Cursor) : Prop where
  caches : g.comp.caches.Same scr c.caches
  under : AgreeOn scr.pixels (g.cursor.restoreUnder g.comp.backBuffer) c.backBuffer
  still : AgreeOn scr.pixels (k.restoreUnder c.backBuffer) c.backBuffer
  place : g.cursor.hasSaved = true → (0 ≤ g.lastCursor.1 ∧ 0 ≤ g.lastCursor.2) ∧
    scr.clip (cursorRect g.lastCursor.1 g.lastCursor.2) = some g.cursor.box
  mouse : g.mouse.Inside scr
  desk : g.desk.Tidy

theorem processEvents_withDrawing (scr : Screen) (sh : GuiShell κ) (g : Gui κ) (n : ℕ)
    (c : Compositor) (k : Cursor) (had : Had) :
    processEvents scr sh n (g.withDrawing c k) had =
      ((processEvents scr sh n g had).1.withDrawing c k, (processEvents scr sh n g had).2) := by
  induction n generalizing g had with
  | zero => rfl
  | succ n ih =>
    have hpop : (g.withDrawing c k).eventPop =
        g.eventPop.map fun r => (r.1, r.2.withDrawing c k) := by
      have hqueue : (g.withDrawing c k).queue = g.queue := rfl
      have hpending : (g.withDrawing c k).pending = g.pending := rfl
      unfold eventPop
      rw [hqueue, hpending]
      cases g.queue with
      | cons ev queue => rfl
      | nil => rcases g.pending with - | ⟨x, y⟩ <;> rfl
    unfold processEvents
    rw [hpop]
    rcases g.eventPop with - | ⟨ev, g₁⟩
    · rfl
    · exact ih (g := { g₁ with
        shell := (g₁.desk.handleEvent scr sh g₁.shell ev).1
        desk := (g₁.desk.handleEvent scr sh g₁.shell ev).2 }) (had.note ev)

/-- What the text of the terminal draws depends on no pixel. -/
theorem terminalRender_desk (d : Desk) (c c' : Compositor) :
    (d.terminalRender font c).1 = (d.terminalRender font c').1 := by
  have hrow : ∀ (d : Desk) (c c' : Compositor) row,
      (d.renderRow font c row).1 = (d.renderRow font c' row).1 := by
    intro d c c' row
    simp only [Desk.renderRow]
    split <;> rfl
  have hrows : ∀ (rows : List ℕ) (d : Desk) (c c' : Compositor),
      (rows.foldl (fun s row => Desk.renderRow font s.1 s.2 row) (d, c)).1 =
        (rows.foldl (fun s row => Desk.renderRow font s.1 s.2 row) (d, c')).1 := by
    intro rows
    induction rows with
    | nil => exact fun _ _ _ => rfl
    | cons row rows ih =>
      intro d c c'
      rw [List.foldl_cons, List.foldl_cons]
      have hd := hrow d c c' row
      generalize d.renderRow font c row = s at hd ⊢
      obtain ⟨d₁, c₁⟩ := s
      dsimp only at hd
      subst hd
      exact ih _ c₁ (d.renderRow font c' row).2
  simp only [Desk.terminalRender]
  split
  · rfl
  split
  · rfl
  · have hs := hrows (List.range termRows) d c c'
    generalize (List.range termRows).foldl (fun s row => Desk.renderRow font s.1 s.2 row) (d, c) = s
      at hs ⊢
    generalize (List.range termRows).foldl (fun s row => Desk.renderRow font s.1 s.2 row) (d, c') = t
      at hs ⊢
    simp only [hs]

/-- Up to the choice of the branch the drawing has no part in a tick. -/
theorem beforeCompose_withDrawing (scr : Screen) (font : ℕ → UInt8) (sh : GuiShell κ) (g : Gui κ)
    (now : BitVec 32) (c : Compositor) (k : Cursor) :
    ∃ c', (g.withDrawing c k).beforeCompose scr font sh now =
        ((g.beforeCompose scr font sh now).1.withDrawing c' k,
          (g.beforeCompose scr font sh now).2) ∧
      c'.backBuffer = c.backBuffer ∧ c'.caches = c.caches := by
  have hmark : ∀ (e : Compositor) r, e.backBuffer = c.backBuffer ∧ e.caches = c.caches →
      (e.markDirtyRect r).backBuffer = c.backBuffer ∧ (e.markDirtyRect r).caches = c.caches := by
    intro e r he
    rwa [Compositor.backBuffer_markDirtyRect, Compositor.caches_markDirtyRect]
  have hran := processEvents_withDrawing scr sh { g with lastFrameTick := now }
    guiMaxEventsPerTick c k Had.none
  have hstart : { g.withDrawing c k with lastFrameTick := now } =
      ({ g with lastFrameTick := now } : Gui κ).withDrawing c k := rfl
  simp only [beforeCompose, hstart, hran]
  generalize processEvents scr sh guiMaxEventsPerTick { g with lastFrameTick := now } Had.none = r
  have hdesk : (r.1.withDrawing c k).desk = r.1.desk := rfl
  have hcomp : (r.1.withDrawing c k).comp = c := rfl
  rw [hdesk, hcomp]
  split
  · exact ⟨c, rfl, rfl, rfl⟩
  · refine ⟨(r.1.desk.terminalRender font c).2, ?_, ?_⟩
    · rw [terminalRender_desk r.1.desk c r.1.comp]
      rfl
    · exact terminalRender_mark (P := fun e => e.backBuffer = c.backBuffer ∧ e.caches = c.caches)
        hmark r.1.desk ⟨rfl, rfl⟩

theorem Twin.noTrace {c : Compositor} {k : Cursor} (h : Twin scr g c k) :
    NoTrace scr g (g.withDrawing c k) :=
  h.under

/-- Off the old cursor the back buffers agree. -/
theorem Twin.agree_of_notMem {c : Compositor} {k : Cursor} (h : Twin scr g c k) {p : Pixel}
    (hp : p ∈ scr.pixels) (hbox : g.cursor.hasSaved = true → p ∉ g.cursor.box) :
    g.comp.backBuffer p = c.backBuffer p := by
  rw [← h.under p hp]
  by_cases hs : g.cursor.hasSaved = true
  · rw [Cursor.restoreUnder_of_notMem (hbox hs)]
  · rw [Cursor.restoreUnder_of_unsaved (by simpa using hs)]

theorem backBuffer_present (c : Compositor) :
    (c.present scr).backBuffer = c.backBuffer ∧ (c.present scr).caches = c.caches := by
  unfold Compositor.present
  split
  · exact ⟨rfl, rfl⟩
  · split <;> exact ⟨rfl, rfl⟩

/-- The cursor at the mouse, over frames that agree. -/
theorem twin_drawn {g' : Gui κ} {b : Image} {c c' : Compositor} {k : Cursor}
    (hframe : AgreeOn scr.pixels b c.backBuffer)
    (hcaches : g'.comp.caches.Same scr c'.caches)
    (hcursor : g'.cursor = g.cursor.saveUnder scr b g.mouse.x g.mouse.y)
    (hbuffer : g'.comp.backBuffer = drawCursorShape scr g.mouse.x g.mouse.y b)
    (hbuffer' : c'.backBuffer = c.backBuffer)
    (hlast : g'.lastCursor = (g.mouse.x, g.mouse.y)) (hmouse : g'.mouse = g.mouse)
    (hinside : g.mouse.Inside scr) (hdesk : g'.desk.Tidy) :
    Twin scr g' c' (k.saveUnder scr c.backBuffer g.mouse.x g.mouse.y) where
  caches := hcaches
  under p hp := by
    rw [hcursor, hbuffer, hbuffer', ← hframe p hp]
    exact Cursor.restore_saved (fun p hout => drawCursorShape_of_notMem hout) p
  still p hp := by
    rw [hbuffer']
    exact Cursor.restore_saved (fun _ _ => rfl) p
  place hsaved := by
    rw [hcursor] at hsaved
    cases hq : scr.clip (cursorRect g.mouse.x g.mouse.y) with
    | none =>
      simp only [Cursor.saveUnder, hq] at hsaved
      cases hsaved
    | some q =>
      have hbounds := Screen.clip_bounds hq
      rw [hlast, hcursor, Cursor.box_saveUnder hq]
      exact ⟨⟨hinside.1 (by omega), hinside.2 (by omega)⟩, hq⟩
  mouse := by rwa [hmouse]
  desk := hdesk

/-- The last steps of a tick, over frames that agree. -/
theorem twin_finish {c : Compositor} {k : Cursor}
    (hframe : Compositor.Alike scr scr.pixels g.comp c) (hmouse : g.mouse.Inside scr)
    (hdesk : g.desk.Tidy) :
    ∃ c' k', (g.withDrawing c k).finish scr blankCursor =
      (g.finish scr drawCursorShape).withDrawing c' k' ∧
      Twin scr (g.finish scr drawCursorShape) c' k' := by
  refine ⟨_, _, rfl, twin_drawn (g := g) hframe.buffer ?_ rfl ?_ ?_ rfl rfl hmouse hdesk⟩
  · simp only [finish, Cursor.drawFresh]
    rw [(backBuffer_present _).2, (backBuffer_present _).2, Compositor.caches_markDirtyRect,
      Compositor.caches_markDirtyRect]
    exact hframe.caches
  · simp only [finish, Cursor.drawFresh]
    rw [(backBuffer_present _).1, Compositor.backBuffer_markDirtyRect]
  · simp only [withDrawing, Cursor.drawFresh]
    rw [(backBuffer_present _).1, Compositor.backBuffer_markDirtyRect]
    rfl

theorem twin_tickCursorOnly {c : Compositor} {k : Cursor} (h : Twin scr g c k) :
    ∃ c' k', (g.withDrawing c k).tickCursorOnly scr blankCursor =
      (g.tickCursorOnly scr drawCursorShape).withDrawing c' k' ∧
      Twin scr (g.tickCursorOnly scr drawCursorShape) c' k' := by
  have hpresent : ∀ (e : Compositor) (o : Option Rect),
      ((o.map (e.presentRect scr)).getD e).backBuffer = e.backBuffer ∧
        ((o.map (e.presentRect scr)).getD e).caches = e.caches := by
    intro e o
    cases o with
    | none => exact ⟨rfl, rfl⟩
    | some r =>
      simp only [Option.map_some, Option.getD_some, Compositor.presentRect]
      split
      · exact ⟨rfl, rfl⟩
      · split <;> exact ⟨rfl, rfl⟩
  have hmouse : (g.withDrawing c k).mouse = g.mouse := rfl
  have hlast : (g.withDrawing c k).lastCursor = g.lastCursor := rfl
  unfold tickCursorOnly
  rw [hmouse, hlast]
  split
  · exact ⟨c, k, rfl, h⟩
  · refine ⟨_, _, rfl, twin_drawn (g := g) (c := { c with backBuffer := k.restoreUnder c.backBuffer })
      (fun p hp => (h.under p hp).trans (h.still p hp).symm) ?_ rfl ?_ ?_ rfl rfl h.mouse h.desk⟩
    · dsimp only
      rw [(hpresent _ _).2, (hpresent _ _).2, (hpresent _ _).2, (hpresent _ _).2]
      exact h.caches
    · dsimp only
      rw [(hpresent _ _).1, (hpresent _ _).1]
      rfl
    · dsimp only
      rw [(hpresent _ _).1, (hpresent _ _).1]
      rfl

/-! ## Composing -/

theorem mem_coverCursor {r : Rect} {p : Pixel} (h : p ∈ r) (at_ : ℤ × ℤ) :
    p ∈ coverCursor r at_ := by
  simp only [coverCursor]
  split
  · simp only [Rect.mem_def] at h ⊢
    omega
  · exact h

/-- The damage is widened by the cursor of the last tick. -/
theorem mem_coverCursor_cursor {r : Rect} {p : Pixel} {at_ : ℤ × ℤ} (h0 : 0 ≤ at_.1 ∧ 0 ≤ at_.2)
    (h : p ∈ cursorRect at_.1 at_.2) : p ∈ coverCursor r at_ := by
  simp only [coverCursor, if_pos (show at_.1 ≥ 0 ∧ at_.2 ≥ 0 from h0)]
  simp only [Rect.mem_def, cursorRect, cursorW, cursorH] at h ⊢
  omega

/-- A frame after a change of the layout is the same in both runs. -/
theorem Twin.layout (font : ℕ → UInt8) (now : BitVec 32) {c : Compositor} {k : Cursor}
    (h : Twin scr g c k) :
    ∃ c', (g.withDrawing c k).composeLayout scr font now =
      (g.composeLayout scr font now).withDrawing c' k ∧
      Compositor.Alike scr scr.pixels (g.composeLayout scr font now).comp c' := by
  refine ⟨_, rfl, ?_⟩
  have hdesk : (g.withDrawing c k).desk = g.desk := rfl
  have hcomp : (g.withDrawing c k).comp = c := rfl
  have hcursor : (g.withDrawing c k).cursor = k := rfl
  have hmouse : (g.withDrawing c k).mouse = g.mouse := rfl
  have hlast : (g.withDrawing c k).lastCursor = g.lastCursor := rfl
  simp only [composeLayout, hdesk, hcomp, hcursor, hmouse, hlast]
  cases hdamage : (g.desk.wm.takeTaskbarDirty.2.takeDamage).1 with
  | none =>
    have hclean : g.desk.wm.takeTaskbarDirty.1 = false := by
      cases hdirty : g.desk.wm.takeTaskbarDirty.1 with
      | false => rfl
      | true =>
        have hdmg := h.desk.damaged hdirty
        unfold WindowManager.takeDamage at hdamage
        split at hdamage
        · rename_i hempty
          exact absurd hempty (not_or.mpr hdmg)
        · cases hdamage
    simp only [hclean, Bool.false_eq_true, if_false]
    refine ⟨fun p hp => ?_, ?_⟩
    · rw [Cursor.backBuffer_clearOld, Cursor.backBuffer_clearOld, h.under p hp, h.still p hp]
    · rw [Cursor.caches_clearOld, Cursor.caches_clearOld]
      exact h.caches
  | some r =>
    have hout : ∀ p ∈ scr.pixels,
        p ∉ coverCursor (coverCursor r g.lastCursor) (g.mouse.x, g.mouse.y) →
        g.comp.backBuffer p = c.backBuffer p := by
      intro p hp hr
      refine h.agree_of_notMem hp fun hsaved hbox => hr (mem_coverCursor ?_ _)
      obtain ⟨h0, hclip⟩ := h.place hsaved
      exact mem_coverCursor_cursor h0 ((Screen.mem_clip hclip).mp hbox).1
    dsimp only
    rcases Compositor.Alike.composePartial h.caches hout font
      (g.desk.wm.takeTaskbarDirty.2.takeDamage).2 (!g.desk.wm.isDragging) with
      ⟨hc, hc'⟩ | ⟨e, e', hc, hc', halike⟩
    · rw [hc, hc']
      exact h.caches.full font _ _
    · rw [hc, hc']
      dsimp only
      split
      · exact halike.taskbar font _ _
      · exact halike

/-- The arrow shows outside of the single window that is drawn over : a pixel there is not the one
that was saved under it. -/
def ArrowOutside (scr : Screen) (g : Gui κ) : Prop :=
  ∃ w, loneWindow scr g.desk g.comp = some w ∧ ∃ p ∈ scr.pixels, p ∉ w.rect ∧
    g.cursor.restoreUnder g.comp.backBuffer p ≠ g.comp.backBuffer p

/-- A tick that composes a frame after typing while the arrow shows outside of the window. -/
def Smears (scr : Screen) (font : ℕ → UInt8) (sh : GuiShell κ) (g : Gui κ) : GuiInput → Prop
  | .tick now => g.branch scr font sh now = .typing ∧
      ((g.cliGuiTick sh now).beforeCompose scr font sh now).1.ArrowOutside scr
  | _ => False

/-- A frame after typing is the same in both runs if no arrow shows outside of the window. -/
theorem Twin.typing (font : ℕ → UInt8) (now : BitVec 32) {c : Compositor} {k : Cursor}
    (h : Twin scr g c k) :
    ∃ c', (g.withDrawing c k).composeTyping scr font now =
      (g.composeTyping scr font now).withDrawing c' k ∧
      (g.composeTyping scr font now).comp.caches.Same scr c'.caches ∧
      (AgreeOn scr.pixels (g.composeTyping scr font now).comp.backBuffer c'.backBuffer ↔
        ¬ g.ArrowOutside scr) := by
  have hdesk : (g.withDrawing c k).desk = g.desk := rfl
  have hcomp : (g.withDrawing c k).comp = c := rfl
  have hlone := loneWindow_congr h.caches g.desk
  cases hw : loneWindow scr g.desk g.comp with
  | none =>
    have hpart := partialCompose_of_none font hw
    have hpart' := partialCompose_of_none font (hlone.symm.trans hw)
    have hfull := h.caches.full font g.desk true
    refine ⟨Gui.composeFull scr font g.desk c true, ?_, ?_, ?_⟩
    · simp only [composeTyping, hdesk, hcomp, hpart, hpart', Bool.false_eq_true, if_false]
      rfl
    · simp only [composeTyping, hpart, Bool.false_eq_true, if_false]
      exact hfull.caches
    · simp only [composeTyping, hpart, Bool.false_eq_true, if_false]
      refine iff_of_true hfull.buffer ?_
      rintro ⟨w, hw', -⟩
      rw [hw] at hw'
      cases hw'
  | some w =>
    obtain ⟨e, e', hpart, hpart', halike, hkept⟩ := partialCompose_of_some font h.desk
      h.caches hw
    refine ⟨e', ?_, ?_, ?_⟩
    · simp only [composeTyping, hdesk, hcomp, hpart, hpart', if_true]
      rfl
    · simp only [composeTyping, hpart, if_true]
      exact halike.caches
    · simp only [composeTyping, hpart, if_true]
      have hoff : ∀ p ∈ scr.pixels, p ∉ w.rect → (e.backBuffer p = e'.backBuffer p ↔
          g.comp.backBuffer p = g.cursor.restoreUnder g.comp.backBuffer p) := by
        intro p hp hout
        have hpart : p ∉ scr.part w.rect := fun hin => hout hin.1
        rw [(hkept p hpart).1, (hkept p hpart).2, h.under p hp]
      constructor
      · rintro hagree ⟨w', hw', p, hp, hout, hne⟩
        rw [hw] at hw'
        cases hw'
        exact hne ((hoff p hp hout).mp (hagree p hp)).symm
      · intro hclean p hp
        by_cases hin : p ∈ w.rect
        · exact halike.buffer p ⟨hin, hp⟩
        · refine (hoff p hp hin).mpr ?_
          by_contra hne
          exact hclean ⟨w, hw, p, hp, hin, fun heq => hne heq.symm⟩

theorem tidy_composeLayout (h : g.desk.Tidy) : (g.composeLayout scr font now).desk.Tidy :=
  WindowManager.Tidy.same (WindowManager.Tidy.taken h) rfl rfl fun hd => hd

theorem tidy_composeMenu (h : g.desk.Tidy) : (g.composeMenu scr font now).desk.Tidy := by
  have hrendered : g.desk.wm.windowsRendered.Tidy :=
    WindowManager.Tidy.same h rfl rfl fun hd => hd
  refine ⟨?_, fun hd => absurd hd Bool.false_ne_true⟩
  simp only [composeMenu, WindowManager.takeTaskbarDirty, WindowManager.takeDamage]
  split <;> exact hrendered.windows

theorem tidy_composeTyping (h : g.desk.Tidy) : (g.composeTyping scr font now).desk.Tidy := by
  simp only [composeTyping]
  split
  · exact h
  · exact WindowManager.Tidy.same h rfl rfl fun hd => hd

theorem mouse_composeTyping : (g.composeTyping scr font now).mouse = g.mouse := by
  simp only [composeTyping]
  split <;> rfl

/-- The last steps of a tick leave a trace where the frames differ. -/
theorem noTrace_finish {g' : Gui κ} :
    NoTrace scr (g.finish scr drawCursorShape) (g'.finish scr blankCursor) ↔
      AgreeOn scr.pixels g.comp.backBuffer g'.comp.backBuffer := by
  have hframe : ∀ p, (g.finish scr drawCursorShape).cursor.restoreUnder
      (g.finish scr drawCursorShape).comp.backBuffer p = g.comp.backBuffer p := by
    intro p
    simp only [finish, Cursor.drawFresh]
    rw [(backBuffer_present _).1, Compositor.backBuffer_markDirtyRect]
    exact Cursor.restore_saved (fun p hout => drawCursorShape_of_notMem hout) p
  have hframe' : (g'.finish scr blankCursor).comp.backBuffer = g'.comp.backBuffer := by
    simp only [finish, Cursor.drawFresh]
    rw [(backBuffer_present _).1, Compositor.backBuffer_markDirtyRect]
    rfl
  unfold NoTrace
  rw [hframe']
  exact forall₂_congr fun p _ => by rw [hframe]

/-! ## Ticks -/

/-- What the branches keep. -/
theorem Twin.drawPath {c : Compositor} {k : Cursor} (h : Twin scr g c k) {p : Path}
    (hclean : ¬ (p = .typing ∧ g.ArrowOutside scr)) :
    ∃ c' k', (g.withDrawing c k).drawPath scr font blankCursor now p =
      (g.drawPath scr font drawCursorShape now p).withDrawing c' k' ∧
      Twin scr (g.drawPath scr font drawCursorShape now p) c' k' := by
  cases p with
  | idle => exact ⟨c, k, rfl, h⟩
  | throttled => exact ⟨c, k, rfl, h⟩
  | cursorOnly => exact twin_tickCursorOnly h
  | menu =>
    exact twin_finish (g := g.composeMenu scr font now)
      (c := Gui.composeFull scr font g.desk c true) (h.caches.full font g.desk true) h.mouse
      (tidy_composeMenu h.desk)
  | layout =>
    obtain ⟨c', heq, halike⟩ := h.layout font now
    simp only [Gui.drawPath, heq]
    exact twin_finish halike h.mouse (tidy_composeLayout h.desk)
  | typing =>
    obtain ⟨c', heq, hcaches, hagree⟩ := h.typing font now
    simp only [Gui.drawPath, heq]
    refine twin_finish ⟨hagree.mpr fun hout => hclean ⟨rfl, hout⟩, hcaches⟩ ?_
      (tidy_composeTyping h.desk)
    rw [mouse_composeTyping]
    exact h.mouse

theorem Twin.not_noTrace {c : Compositor} {k : Cursor} (h : Twin scr g c k)
    (hout : g.ArrowOutside scr) :
    ¬ NoTrace scr (g.drawPath scr font drawCursorShape now .typing)
      ((g.withDrawing c k).drawPath scr font blankCursor now .typing) := by
  obtain ⟨c', heq, -, hagree⟩ := h.typing font now
  simp only [Gui.drawPath, heq]
  rw [noTrace_finish]
  exact fun h => hagree.mp h hout

/-- Handling events moves no cursor. -/
theorem processEvents_keeps (scr : Screen) (sh : GuiShell κ) (n : ℕ) (had : Had)
    (h : g.desk.Tidy) :
    (processEvents scr sh n g had).1.desk.Tidy ∧
      (processEvents scr sh n g had).1.mouse = g.mouse ∧
      (processEvents scr sh n g had).1.cursor = g.cursor ∧
      (processEvents scr sh n g had).1.lastCursor = g.lastCursor := by
  induction n generalizing g had with
  | zero => exact ⟨h, rfl, rfl, rfl⟩
  | succ n ih =>
    unfold processEvents
    split
    · exact ⟨h, rfl, rfl, rfl⟩
    · rename_i ev g₁ hpop
      have hsame : g₁.desk = g.desk ∧ g₁.mouse = g.mouse ∧ g₁.cursor = g.cursor ∧
          g₁.lastCursor = g.lastCursor := by
        unfold eventPop at hpop
        split at hpop
        · cases hpop
          exact ⟨rfl, rfl, rfl, rfl⟩
        · split at hpop
          · cases hpop
            exact ⟨rfl, rfl, rfl, rfl⟩
          · cases hpop
      obtain ⟨hdesk, hmouse, hcursor, hlast⟩ := hsame
      have hev : (g₁.desk.handleEvent scr sh g₁.shell ev).2.Tidy :=
        Desk.tidy_handleEvent (by rwa [hdesk]) ev
      rw [← hmouse, ← hcursor, ← hlast]
      exact ih (g := { g₁ with
        shell := (g₁.desk.handleEvent scr sh g₁.shell ev).1
        desk := (g₁.desk.handleEvent scr sh g₁.shell ev).2 }) _ hev

theorem Twin.beforeCompose (font : ℕ → UInt8) (sh : GuiShell κ) (now : BitVec 32)
    {c : Compositor} {k : Cursor} (h : Twin scr g c k) :
    ∃ c', (g.withDrawing c k).beforeCompose scr font sh now =
        ((g.beforeCompose scr font sh now).1.withDrawing c' k,
          (g.beforeCompose scr font sh now).2) ∧
      Twin scr (g.beforeCompose scr font sh now).1 c' k := by
  obtain ⟨c', heq, hbuffer, hcaches⟩ := beforeCompose_withDrawing scr font sh g now c k
  have hcomp : (g.beforeCompose scr font sh now).1.comp.backBuffer = g.comp.backBuffer ∧
      (g.beforeCompose scr font sh now).1.comp.caches = g.comp.caches :=
    beforeCompose_mark (P := fun e => e.backBuffer = g.comp.backBuffer ∧ e.caches = g.comp.caches)
      (fun e r he => by rwa [Compositor.backBuffer_markDirtyRect, Compositor.caches_markDirtyRect])
      ⟨rfl, rfl⟩
  obtain ⟨hdesk, hmouse, hcursor, hlast⟩ := processEvents_keeps scr sh
    (g := { g with lastFrameTick := now }) guiMaxEventsPerTick Had.none h.desk
  have hkept : (g.beforeCompose scr font sh now).1.desk.Tidy ∧
      (g.beforeCompose scr font sh now).1.mouse = g.mouse ∧
      (g.beforeCompose scr font sh now).1.cursor = g.cursor ∧
      (g.beforeCompose scr font sh now).1.lastCursor = g.lastCursor := by
    simp only [Gui.beforeCompose]
    split
    · exact ⟨hdesk, hmouse, hcursor, hlast⟩
    · exact ⟨Desk.tidy_terminalRender hdesk _, hmouse, hcursor, hlast⟩
  refine ⟨c', heq, ?_⟩
  constructor
  · rw [hcomp.2, hcaches]
    exact h.caches
  · rw [hkept.2.2.1, hcomp.1, hbuffer]
    exact h.under
  · rw [hbuffer]
    exact h.still
  · rw [hkept.2.2.1, hkept.2.2.2]
    exact h.place
  · rw [hkept.2.1]
    exact h.mouse
  · exact hkept.1

theorem Twin.cliGuiTick {c : Compositor} {k : Cursor} (h : Twin scr g c k) (sh : GuiShell κ)
    (now : BitVec 32) : Twin scr (g.cliGuiTick sh now) c k :=
  ⟨h.caches, h.under, h.still, h.place, h.mouse, Desk.tidy_termCalls h.desk _⟩

/-- A tick keeps the runs together if it smears nothing. -/
theorem Twin.tick {c : Compositor} {k : Cursor} (h : Twin scr g c k)
    (hclean : ¬ g.Smears scr font sh (.tick now)) :
    ∃ c' k', (g.withDrawing c k).tick scr font sh blankCursor now =
      (g.tick scr font sh drawCursorShape now).withDrawing c' k' ∧
      Twin scr (g.tick scr font sh drawCursorShape now) c' k' := by
  have hdesk : (g.withDrawing c k).desk = g.desk := rfl
  have hcli : (g.withDrawing c k).cliGuiTick sh now = (g.cliGuiTick sh now).withDrawing c k := rfl
  have hlast : ((g.cliGuiTick sh now).withDrawing c k).lastFrameTick = g.lastFrameTick := rfl
  have hlast' : (g.cliGuiTick sh now).lastFrameTick = g.lastFrameTick := rfl
  have hbranch : g.Smears scr font sh (.tick now) ↔ g.branch scr font sh now = .typing ∧
      ((g.cliGuiTick sh now).beforeCompose scr font sh now).1.ArrowOutside scr := Iff.rfl
  simp only [Gui.tick, hdesk, hcli, hlast, hlast']
  split
  · exact ⟨c, k, rfl, h⟩
  rename_i hup
  split
  · exact ⟨c, k, rfl, h.cliGuiTick sh now⟩
  · rename_i hnow
    obtain ⟨c', heq, hready⟩ :=
      (h.cliGuiTick sh now).beforeCompose font sh now
    rw [heq]
    refine hready.drawPath fun hsmear => hclean (hbranch.mpr ⟨?_, hsmear.2⟩)
    rw [branch, if_neg (not_or.mpr ⟨hup, hnow⟩)]
    exact hsmear.1

/-- A tick that smears leaves a trace. -/
theorem Twin.trace {c : Compositor} {k : Cursor} (h : Twin scr g c k)
    (hsmear : g.Smears scr font sh (.tick now)) :
    ¬ NoTrace scr (g.tick scr font sh drawCursorShape now)
      ((g.withDrawing c k).tick scr font sh blankCursor now) := by
  obtain ⟨hbranch, hout⟩ : g.branch scr font sh now = .typing ∧
      ((g.cliGuiTick sh now).beforeCompose scr font sh now).1.ArrowOutside scr := hsmear
  have hdesk : (g.withDrawing c k).desk = g.desk := rfl
  have hcli : (g.withDrawing c k).cliGuiTick sh now = (g.cliGuiTick sh now).withDrawing c k := rfl
  have hlast : ((g.cliGuiTick sh now).withDrawing c k).lastFrameTick = g.lastFrameTick := rfl
  have hlast' : (g.cliGuiTick sh now).lastFrameTick = g.lastFrameTick := rfl
  unfold branch at hbranch
  split at hbranch
  · cases hbranch
  rename_i hlive
  obtain ⟨hup, hnow⟩ := not_or.mp hlive
  obtain ⟨c', heq, hready⟩ :=
    (h.cliGuiTick sh now).beforeCompose font sh now
  simp only [Gui.tick, hdesk, hcli, hlast, hlast', if_neg hup, if_neg hnow, heq, hbranch]
  exact hready.not_noTrace hout

/-! ## Runs -/

/-- The second GUI is the first with the drawing of a run without arrow. -/
def Paired (scr : Screen) (g g' : Gui κ) : Prop :=
  ∃ c k, g' = g.withDrawing c k ∧ Twin scr g c k

theorem foldl_eventPush_keeps (evs : List GuiEvent) (c : Compositor) (k : Cursor) :
    evs.foldl eventPush (g.withDrawing c k) = (evs.foldl eventPush g).withDrawing c k ∧
      (evs.foldl eventPush g).cursor = g.cursor ∧
      (evs.foldl eventPush g).lastCursor = g.lastCursor ∧
      (evs.foldl eventPush g).mouse = g.mouse ∧ (evs.foldl eventPush g).desk = g.desk := by
  induction evs generalizing g with
  | nil => exact ⟨rfl, rfl, rfl, rfl, rfl⟩
  | cons ev evs ih =>
    have hpush : (g.withDrawing c k).eventPush ev = (g.eventPush ev).withDrawing c k ∧
        (g.eventPush ev).cursor = g.cursor ∧ (g.eventPush ev).lastCursor = g.lastCursor ∧
        (g.eventPush ev).mouse = g.mouse ∧ (g.eventPush ev).desk = g.desk := by
      have hqueue : (g.withDrawing c k).queue = g.queue := rfl
      unfold eventPush
      rw [hqueue]
      split <;> exact ⟨rfl, rfl, rfl, rfl, rfl⟩
    obtain ⟨heq, hcursor, hlast, hmouse, hdesk⟩ := hpush
    rw [List.foldl_cons, List.foldl_cons, heq, ← hcursor, ← hlast, ← hmouse, ← hdesk]
    exact ih

/-- An input keeps the runs together if it smears nothing. -/
theorem Paired.step {g' : Gui κ} (h : Paired scr g g') {i : GuiInput}
    (hclean : ¬ g.Smears scr font sh i) :
    Paired scr (g.step scr font sh drawCursorShape i) (g'.step scr font sh blankCursor i) := by
  obtain ⟨c, k, rfl, h⟩ := h
  cases i with
  | tick now => exact h.tick hclean
  | mouse flags dx dy =>
    obtain ⟨heq, hcursor, hlast, hmouse, hdesk⟩ := foldl_eventPush_keeps
      (g := { g with
        mouse := g.mouse.handlePacket scr flags dx dy
        pending := some ((g.mouse.handlePacket scr flags dx dy).x,
          (g.mouse.handlePacket scr flags dx dy).y) })
      (buttonEdges g.prevButtons (g.mouse.handlePacket scr flags dx dy).buttons
        (g.mouse.handlePacket scr flags dx dy).x (g.mouse.handlePacket scr flags dx dy).y) c k
    have hcomp : (g.step scr font sh drawCursorShape (.mouse flags dx dy)).comp = g.comp :=
      comp_step (by simp)
    refine ⟨c, k, congrArg (fun g : Gui κ => { g with
      prevButtons := (g.mouse.handlePacket scr flags dx dy).buttons }) heq, ?_⟩
    exact ⟨by rw [hcomp]; exact h.caches, by rw [hcomp]; exact hcursor ▸ h.under, h.still,
      by exact hcursor ▸ hlast ▸ h.place,
      hmouse ▸ Mouse.inside_handlePacket scr g.mouse flags dx dy, hdesk ▸ h.desk⟩
  | key scancode pressed =>
    obtain ⟨heq, hcursor, hlast, hmouse, hdesk⟩ := foldl_eventPush_keeps (g := g)
      [if pressed ≠ 0 then .keyPress scancode else .keyRelease scancode] c k
    have hcomp : (g.step scr font sh drawCursorShape (.key scancode pressed)).comp = g.comp :=
      comp_step (by simp)
    refine ⟨c, k, heq, ?_⟩
    exact ⟨by rw [hcomp]; exact h.caches, by rw [hcomp]; exact hcursor ▸ h.under, h.still,
      by exact hcursor ▸ hlast ▸ h.place, hmouse ▸ h.mouse, hdesk ▸ h.desk⟩
  | output call =>
    exact ⟨c, k, rfl, h.caches, h.under, h.still, h.place, h.mouse, Desk.tidy_termCall h.desk call⟩

theorem inside_packets (scr : Screen) (packets : List (UInt8 × ℤ × ℤ)) {m : Mouse}
    (h : m.Inside scr) :
    (packets.foldl (fun m p => m.handlePacket scr p.1 p.2.1 p.2.2) m).Inside scr := by
  induction packets generalizing m with
  | nil => exact h
  | cons p packets ih => exact ih (Mouse.inside_handlePacket scr m p.1 p.2.1 p.2.2)

theorem paired_start (scr : Screen) (wallpaper glass framebuffer : Image)
    (packets : List (UInt8 × ℤ × ℤ)) (shell : κ) (boot : BitVec 32) :
    Paired scr (start scr wallpaper glass framebuffer packets shell boot)
      (start scr wallpaper glass framebuffer packets shell boot) := by
  refine ⟨compositorInit scr wallpaper glass framebuffer, Cursor.init, rfl, ?_⟩
  constructor
  · exact ⟨rfl, fun _ _ => rfl, rfl, rfl, rfl, fun _ _ => rfl⟩
  · exact fun _ _ => rfl
  · exact fun _ _ => rfl
  · exact fun hsaved => absurd hsaved Bool.false_ne_true
  · exact inside_packets scr packets ⟨fun _ => Int.natCast_nonneg _, fun _ => Int.natCast_nonneg _⟩
  · exact Desk.tidy_deskInit scr

/-- The mouse leaves the window to the top left corner, and then a key is typed. -/
def smearRun : List GuiInput :=
  [.tick 1, .mouse 0 (-462) 334, .tick 2, .key 0x1E 1, .tick 3]

end Gui

end VernisOS
