import VernisOS.Drawing

/-!
# The screen shows the back buffer

Every drawing call marks the rectangle it changes, so a pixel where the screen differs from the
back buffer is in the dirty rectangle (`Compositor.Covered`), and a present brings the two
together (`Compositor.Synced`). The cursor moves with presents of its own. From the first frame
on the screen therefore shows the back buffer after every input (`Gui.screen_coherent`).
-/

open Raster

namespace VernisOS

namespace Compositor

variable {scr : Screen} {font : ℕ → UInt8} {c : Compositor} {r : Rect} {p : Pixel}

/-- The next present copies the pixel. -/
def Marked (c : Compositor) (p : Pixel) : Prop :=
  c.dirty = true ∧ p ∈ c.dirtyRect

/-- A pixel that the screen does not show is going to be presented. -/
def Covered (scr : Screen) (c : Compositor) : Prop :=
  ∀ p ∈ scr.pixels, c.framebuffer p ≠ c.backBuffer p → c.Marked p

/-- The screen shows the back buffer. -/
def Synced (scr : Screen) (c : Compositor) : Prop :=
  ∀ p ∈ scr.pixels, c.framebuffer p = c.backBuffer p

theorem Synced.covered (h : c.Synced scr) : c.Covered scr :=
  fun p hp hne => absurd (h p hp) hne

theorem marked_of_mem (c : Compositor) (h : p ∈ r) : (c.markDirtyRect r).Marked p := by
  unfold markDirtyRect
  split
  · exact ⟨rfl, h⟩
  · exact ⟨rfl, Rect.mem_union_right h⟩

theorem Marked.mark (h : c.Marked p) (r : Rect) : (c.markDirtyRect r).Marked p := by
  unfold markDirtyRect
  split
  · rename_i hempty
    have hmem := Rect.mem_def.mp h.2
    omega
  · exact ⟨rfl, Rect.mem_union_left h.2⟩

theorem Covered.mark (h : c.Covered scr) (r : Rect) : (c.markDirtyRect r).Covered scr := by
  intro p hp hne
  rw [framebuffer_markDirtyRect, backBuffer_markDirtyRect] at hne
  exact (h p hp hne).mark r

theorem Synced.mark (h : c.Synced scr) (r : Rect) : (c.markDirtyRect r).Synced scr := by
  intro p hp
  rw [framebuffer_markDirtyRect, backBuffer_markDirtyRect]
  exact h p hp

/-- A change of the back buffer within the rectangle that is marked. -/
theorem Covered.draw (h : c.Covered scr) {f : Image → Image}
    (hf : ∀ p ∈ scr.pixels, p ∉ r → f c.backBuffer p = c.backBuffer p) :
    (c.draw r f).Covered scr := by
  intro p hp hne
  by_cases hr : p ∈ r
  · exact marked_of_mem _ hr
  · rw [Compositor.draw, framebuffer_markDirtyRect, backBuffer_markDirtyRect] at hne
    change c.framebuffer p ≠ f c.backBuffer p at hne
    rw [hf p hp hr] at hne
    have hm : c.Marked p := h p hp hne
    exact Marked.mark (c := { c with backBuffer := f c.backBuffer }) hm r

/-! ## The drawing calls -/

theorem covered_drawClosed (scr : Screen) (font : ℕ → UInt8) :
    DrawClosed scr font Set.univ fun c _ => c.Covered scr where
  fillRectAlpha r color alpha _ h := by
    unfold fillRectAlpha
    cases hq : scr.clip r with
    | none => exact h
    | some q => exact h.draw fun p _ hp => if_neg fun hin => hp ((Screen.mem_clip hq).mp hin).1
  blurRect r radius _ h := by
    unfold blurRect
    split
    · exact h
    · cases hq : scr.clip r with
      | none => exact h
      | some q =>
        exact h.draw fun p _ hp => blurClip_of_notMem radius fun hin =>
          hp ((Screen.mem_clip hq).mp hin).1
  drawChar x y ch fg _ h := by
    unfold drawCharTransparent
    split
    · exact h
    · simp only
      cases hq : scr.clip ⟨x, y, 8, 16⟩ with
      | none => exact h.mark _
      | some q =>
        exact h.draw fun p _ hp => if_neg fun hin => hp ((Screen.mem_clip hq).mp hin.1).1
  blit src r key _ h := by
    unfold blitColorkey
    cases hq : scr.clip r with
    | none => exact h
    | some q => exact h.draw fun p _ hp => if_neg fun hin => hp ((Screen.mem_clip hq).mp hin).1
  capture _ _ _ h := h

theorem Covered.wallpaperRestoreFull {c' : Compositor} (h : c.Covered scr)
    (hc : c.wallpaperRestoreFull scr = some c') : c'.Covered scr := by
  unfold Compositor.wallpaperRestoreFull at hc
  split at hc
  · cases hc
    exact h.draw fun p _ hp => if_neg fun hin => hp (Screen.mem_rect hin)
  · cases hc

theorem Covered.wallpaperRestoreRect {c' : Compositor} (h : c.Covered scr)
    (hc : c.wallpaperRestoreRect scr r = some c') : c'.Covered scr := by
  unfold Compositor.wallpaperRestoreRect at hc
  split at hc
  · cases hq : scr.clip r with
    | none =>
      rw [hq] at hc
      cases hc
      exact h
    | some q =>
      rw [hq] at hc
      cases hc
      exact h.draw fun p _ hp => if_neg fun hin => hp ((Screen.mem_clip hq).mp hin).1
  · cases hc

theorem Covered.glassRestore {c' : Compositor} {id : ℕ} (h : c.Covered scr)
    (hc : c.glassRestore scr id r = some c') : c'.Covered scr := by
  unfold Compositor.glassRestore at hc
  split at hc
  · cases hq : scr.clip r with
    | none =>
      rw [hq] at hc
      cases hc
      exact h.mark r
    | some q =>
      rw [hq] at hc
      cases hc
      exact h.draw fun p _ hp => if_neg fun hin => hp ((Screen.mem_clip hq).mp hin).1
  · cases hc

/-! ## Presents -/

/-- A present shows the whole back buffer. -/
theorem Covered.present (h : c.Covered scr) : (c.present scr).Synced scr := by
  have hsame : ∀ p ∈ scr.pixels, ¬ c.Marked p → c.framebuffer p = c.backBuffer p := by
    intro p hp hm
    by_contra hne
    exact hm (h p hp hne)
  intro p hp
  unfold Compositor.present
  split
  · rename_i hclean
    refine hsame p hp fun hm => ?_
    have hmem := Rect.mem_def.mp hm.2
    rcases hclean with hd | hd | hd
    · rw [hm.1] at hd
      cases hd
    · omega
    · omega
  · cases hq : scr.clip c.dirtyRect with
    | none => exact hsame p hp fun hm => Screen.not_mem_of_clip hq ⟨hm.2, hp⟩
    | some q =>
      simp only [fbBlit]
      split
      · rfl
      · rename_i hnot
        exact hsame p hp fun hm => hnot ((Screen.mem_clip hq).mpr ⟨hm.2, hp⟩)

theorem backBuffer_presentRect (c : Compositor) (r : Rect) :
    (c.presentRect scr r).backBuffer = c.backBuffer := by
  unfold presentRect
  split
  · rfl
  · split <;> rfl

theorem marked_presentRect (h : c.Marked p) (r : Rect) : (c.presentRect scr r).Marked p := by
  unfold presentRect
  split
  · exact h
  · split <;> exact h

/-- A present of a rectangle shows its pixels. -/
theorem framebuffer_presentRect_of_mem (c : Compositor) (hp : p ∈ scr.part r) :
    (c.presentRect scr r).framebuffer p = c.backBuffer p := by
  have hmem := Rect.mem_def.mp hp.1
  unfold presentRect
  split
  · omega
  · cases hq : scr.clip r with
    | none => exact absurd hp (Screen.not_mem_of_clip hq)
    | some q => exact if_pos ((Screen.mem_clip hq).mpr hp)

theorem framebuffer_presentRect (c : Compositor) (r : Rect) :
    (c.presentRect scr r).framebuffer p = c.framebuffer p ∨
      (c.presentRect scr r).framebuffer p = c.backBuffer p := by
  unfold presentRect
  split
  · exact Or.inl rfl
  · cases scr.clip r with
    | none => exact Or.inl rfl
    | some q =>
      simp only [fbBlit]
      split
      · exact Or.inr rfl
      · exact Or.inl rfl

/-- A present of a rectangle, if there is one. -/
theorem presented (c : Compositor) (scr : Screen) (o : Option Rect) :
    let c' := (o.map (c.presentRect scr)).getD c
    c'.backBuffer = c.backBuffer ∧ (∀ p, c.Marked p → c'.Marked p) ∧
      (∀ p, c'.framebuffer p = c.framebuffer p ∨ c'.framebuffer p = c.backBuffer p) ∧
      ∀ r, o = some r → ∀ p ∈ scr.part r, c'.framebuffer p = c.backBuffer p := by
  cases o with
  | none => exact ⟨rfl, fun _ h => h, fun _ => Or.inl rfl, fun _ h => by cases h⟩
  | some r =>
    refine ⟨backBuffer_presentRect c r, fun _ h => marked_presentRect h r,
      fun _ => framebuffer_presentRect c r, ?_⟩
    rintro r' ⟨⟩ p hp
    exact framebuffer_presentRect_of_mem c hp

/-! ## The wallpaper -/

theorem marked_fillRect (c : Compositor) (color : ℕ) (h : c.Marked p ∨ p ∈ r) :
    (c.fillRect scr r color).Marked p := by
  have hmark : ∀ b : Image, ({ c with backBuffer := b }.markDirtyRect r).Marked p := by
    intro b
    rcases h with h | h
    · have hm : ({ c with backBuffer := b } : Compositor).Marked p := h
      exact hm.mark r
    · exact marked_of_mem _ h
  unfold Compositor.fillRect
  cases scr.clip r with
  | none => exact hmark c.backBuffer
  | some q => exact hmark _

/-- The gradient marks every row, so the blobs need not mark what they paint over it. -/
theorem covered_paintWallpaper (c : Compositor) : (paintWallpaper scr c).Covered scr := by
  intro p hp _
  have hrows : ∀ (rows : List ℕ) (c : Compositor), (c.Marked p ∨ p.2 ∈ rows) →
      (rows.foldl (fun c row => c.fillRect scr ⟨0, row, scr.width, 1⟩ (gradient scr row))
        c).Marked p := by
    intro rows
    induction rows with
    | nil => exact fun c h => h.resolve_right List.not_mem_nil
    | cons row rows ih =>
      intro c h
      refine ih _ ?_
      rw [List.mem_cons, ← or_assoc] at h
      refine h.imp_left fun h => marked_fillRect c _ (h.imp_right fun hrow => ?_)
      subst hrow
      have := Screen.mem_pixels.mp hp
      simp only [Rect.mem_def]
      omega
  exact hrows (List.range scr.height) c (Or.inr (List.mem_range.mpr hp.2))

theorem Covered.background (h : c.Covered scr) : (desktopDrawBackground scr c).Covered scr := by
  unfold desktopDrawBackground
  cases hc : c.wallpaperRestoreFull scr with
  | some c' => exact h.wallpaperRestoreFull hc
  | none => exact covered_paintWallpaper c

/-! ## Frames -/

theorem Covered.window (h : c.Covered scr) (font : ℕ → UInt8) (wm : WindowManager) (w : GuiWindow)
    (doBlur : Bool) : (wm.composeWindowGlass scr font c w doBlur).Covered scr :=
  (covered_drawClosed scr font).window (d := c) wm (w.drawnIn_of_subset (Set.subset_univ _)) doBlur h

theorem Covered.windows (h : c.Covered scr) (font : ℕ → UInt8) (wm : WindowManager)
    (ws : List GuiWindow) (doBlur : Bool) :
    (ws.foldl (fun c w => wm.composeWindowGlass scr font c w doBlur) c).Covered scr :=
  (covered_drawClosed scr font).windows (d := c) wm doBlur (fun w _ => w.drawnIn_of_subset (Set.subset_univ _)) h

theorem Covered.taskbar (h : c.Covered scr) (font : ℕ → UInt8) (wm : WindowManager)
    (m : StartMenu) : (desktopDrawTaskbar scr font wm m c).Covered scr :=
  (covered_drawClosed scr font).taskbar (d := c) wm (Set.subset_univ _)
    (fun _ => Set.subset_univ _) h

theorem Covered.full (h : c.Covered scr) (font : ℕ → UInt8) (d : Desk) (doBlur : Bool) :
    (Gui.composeFull scr font d c doBlur).Covered scr :=
  (h.background.windows font d.wm _ doBlur).taskbar font d.wm d.menu

theorem Covered.composePartial {c' : Compositor} {font : ℕ → UInt8} {wm : WindowManager}
    {doBlur : Bool} (h : c.Covered scr)
    (hc : wm.composePartial scr font c r doBlur = some c') : c'.Covered scr := by
  simp only [WindowManager.composePartial] at hc
  cases hw : c.wallpaperRestoreRect scr (wm.growLoop (wm.windows.length + 1) r) with
  | none =>
    rw [hw] at hc
    cases hc
  | some c₁ =>
    rw [hw] at hc
    cases hc
    exact (covered_drawClosed scr font).windowsMet (d := c₁) wm _ doBlur
      (fun w _ _ => w.drawnIn_of_subset (Set.subset_univ _)) (h.wallpaperRestoreRect hw)

end Compositor

/-! ## The cursor -/

theorem drawCursorShape_of_notMem {scr : Screen} {x y : ℤ} {b : Image} {p : Pixel}
    (h : p ∉ scr.part (cursorRect x y)) : drawCursorShape scr x y b p = b p := by
  unfold drawCursorShape
  cases hq : scr.clip (cursorRect x y) with
  | none => rfl
  | some q => exact if_neg (mt (Screen.mem_clip hq).mp h)

namespace Cursor

variable {scr : Screen} {k : Cursor} {c : Compositor} {p : Pixel}

theorem mem_rect : p ∈ k.rect ↔ p ∈ k.box := by
  simp only [Rect.mem_def, Clip.mem_def, rect, box]
  omega

theorem restoreUnder_of_notMem {b : Image} (h : p ∉ k.box) : k.restoreUnder b p = b p := by
  unfold restoreUnder
  split
  · rfl
  · exact if_neg h

theorem restoreUnder_of_unsaved {b : Image} (h : k.hasSaved = false) : k.restoreUnder b = b := by
  simp only [restoreUnder, h, Bool.not_false, true_or, if_true]

theorem covered_clearOld (h : c.Covered scr) : (k.clearOld c).Covered scr := by
  unfold clearOld
  split
  · exact h
  · exact h.draw fun p _ hp => restoreUnder_of_notMem (mt mem_rect.mpr hp)

theorem covered_drawFresh (h : c.Covered scr) (x y : ℤ) :
    (k.drawFresh scr drawCursorShape c x y).2.Covered scr :=
  h.draw fun _ _ hp => drawCursorShape_of_notMem fun hpart => hp hpart.1

end Cursor

namespace Gui

variable {κ : Type} {scr : Screen} {font : ℕ → UInt8} {sh : GuiShell κ} {g : Gui κ}
  {now : BitVec 32}

/-- A pixel that a cursor that moved changed is presented with it. -/
theorem tickCursorOnly_pixel {p : Pixel} (hp : p ∈ scr.pixels) :
    let c := g.comp
    let c' := (g.tickCursorOnly scr drawCursorShape).comp
    (c.Marked p → c'.Marked p) ∧ (c'.framebuffer p = c'.backBuffer p ∨
      c'.framebuffer p = c.framebuffer p ∧ c'.backBuffer p = c.backBuffer p) := by
  simp only [tickCursorOnly]
  split
  · exact ⟨fun h => h, Or.inr ⟨rfl, rfl⟩⟩
  simp only [Cursor.moveIncremental]
  generalize hb : drawCursorShape scr g.mouse.x g.mouse.y (g.cursor.restoreUnder g.comp.backBuffer)
    = b
  generalize ho : (if g.cursor.hasSaved then (scr.clip g.cursor.rect).map Clip.rect else none) = o
  obtain ⟨hbuf₁, hmark₁, hshow₁, hrect₁⟩ := Compositor.presented { g.comp with backBuffer := b }
    scr o
  obtain ⟨hbuf₂, hmark₂, hshow₂, hrect₂⟩ := Compositor.presented
    ((o.map ({ g.comp with backBuffer := b }.presentRect scr)).getD { g.comp with backBuffer := b })
    scr ((scr.clip (cursorRect g.mouse.x g.mouse.y)).map Clip.rect)
  refine ⟨fun h => hmark₂ p (hmark₁ p h), ?_⟩
  -- under the new cursor, under the old one, or under neither
  by_cases hnew : p ∈ scr.part (cursorRect g.mouse.x g.mouse.y)
  · cases hq : scr.clip (cursorRect g.mouse.x g.mouse.y) with
    | none => exact absurd hnew (Screen.not_mem_of_clip hq)
    | some q =>
      rw [hq] at hrect₂ hbuf₂
      have hin := (Screen.mem_part_clip hq).mpr hnew
      exact Or.inl ((hrect₂ _ rfl p hin).trans (congrFun hbuf₂ p).symm)
  by_cases hold : g.cursor.hasSaved = true ∧ p ∈ g.cursor.box
  · have hpart : p ∈ scr.part g.cursor.rect := ⟨Cursor.mem_rect.mpr hold.2, hp⟩
    cases hq : scr.clip g.cursor.rect with
    | none => exact absurd hpart (Screen.not_mem_of_clip hq)
    | some q =>
      have hin := (Screen.mem_part_clip hq).mpr hpart
      have hold' : o = some q.rect := by
        rw [← ho, if_pos hold.1, hq]
        rfl
      have hshown := hrect₁ _ hold' p hin
      refine Or.inl (Eq.trans ?_ (congrFun hbuf₂ p).symm)
      rcases hshow₂ p with h | h
      · rw [h, hshown, hbuf₁]
      · exact h
  · have hsame : b p = g.comp.backBuffer p := by
      rw [← hb, drawCursorShape_of_notMem hnew]
      by_cases hs : g.cursor.hasSaved = true
      · exact Cursor.restoreUnder_of_notMem fun hbox => hold ⟨hs, hbox⟩
      · rw [Cursor.restoreUnder_of_unsaved (by simpa using hs)]
    have hbuf := (congrFun hbuf₂ p).trans (congrFun hbuf₁ p)
    rcases hshow₂ p with h | h
    · rcases hshow₁ p with h' | h'
      · exact Or.inr ⟨h.trans h', hbuf.trans hsame⟩
      · exact Or.inl (h.trans (h'.trans hbuf.symm))
    · exact Or.inl (h.trans (congrFun hbuf₂ p).symm)

theorem covered_tickCursorOnly (h : g.comp.Covered scr) :
    (g.tickCursorOnly scr drawCursorShape).comp.Covered scr := by
  intro p hp hne
  obtain ⟨hmark, hshown | ⟨hfb, hbb⟩⟩ := tickCursorOnly_pixel (g := g) hp
  · exact absurd hshown hne
  · rw [hfb, hbb] at hne
    exact hmark (h p hp hne)

theorem synced_tickCursorOnly (h : g.comp.Synced scr) :
    (g.tickCursorOnly scr drawCursorShape).comp.Synced scr := by
  intro p hp
  obtain ⟨-, hshown | ⟨hfb, hbb⟩⟩ := tickCursorOnly_pixel (g := g) hp
  · exact hshown
  · rw [hfb, hbb, h p hp]

/-! ## Ticks -/

theorem covered_composeLayout (h : g.comp.Covered scr) :
    (g.composeLayout scr font now).comp.Covered scr := by
  simp only [composeLayout]
  split
  · split
    · rename_i hpart
      have hc := h.composePartial hpart
      split
      · exact hc.taskbar font _ _
      · exact hc
    · exact h.full font _ _
  · refine Cursor.covered_clearOld ?_
    split
    · exact h.taskbar font _ _
    · exact h

theorem covered_partialCompose (font : ℕ → UInt8) (d : Desk) {c : Compositor}
    (h : c.Covered scr) : (partialComposeSingleWindow scr font d c).1.Covered scr := by
  unfold partialComposeSingleWindow
  split
  · exact h
  split
  · exact h
  split
  · exact h
  split
  · exact h
  split
  · rename_i hglass
    have hc := h.glassRestore hglass
    split
    · rename_i hblit
      unfold WindowManager.blitContentById at hblit
      split at hblit
      · cases hblit
      · split at hblit
        · cases hblit
          exact (Compositor.covered_drawClosed scr font).blit (d := c) _ _ _
            (Set.subset_univ _) hc
        · cases hblit
    · exact hc
  · split
    · exact h
    · rename_i hwall
      have hc := h.wallpaperRestoreRect hwall
      split
      · rename_i hcompose
        unfold WindowManager.composeById at hcompose
        split at hcompose
        · cases hcompose
        · split at hcompose
          · cases hcompose
            exact hc.window font _ _ _
          · cases hcompose
      · exact hc

theorem covered_composeTyping (h : g.comp.Covered scr) :
    (g.composeTyping scr font now).comp.Covered scr := by
  have hpart := covered_partialCompose font g.desk h
  simp only [composeTyping]
  split
  · exact hpart
  · exact hpart.full font _ _

/-- The last steps of a tick show everything. -/
theorem synced_finish (h : g.comp.Covered scr) : (g.finish scr drawCursorShape).comp.Synced scr :=
  (Cursor.covered_drawFresh h _ _).present

/-- The branches that compose a frame. -/
def Path.composes : Path → Bool
  | .menu | .layout | .typing => true
  | _ => false

theorem synced_drawPath (h : g.comp.Covered scr) {p : Path} (hp : p.composes = true) :
    (g.drawPath scr font drawCursorShape now p).comp.Synced scr := by
  cases p with
  | menu => exact synced_finish (h.full font _ _)
  | layout => exact synced_finish (covered_composeLayout h)
  | typing => exact synced_finish (covered_composeTyping h)
  | idle => cases hp
  | throttled => cases hp
  | cursorOnly => cases hp

theorem covered_drawPath (h : g.comp.Covered scr) (p : Path) :
    (g.drawPath scr font drawCursorShape now p).comp.Covered scr := by
  cases p with
  | menu => exact (synced_drawPath (p := .menu) h rfl).covered
  | layout => exact (synced_drawPath (p := .layout) h rfl).covered
  | typing => exact (synced_drawPath (p := .typing) h rfl).covered
  | idle => exact h
  | throttled => exact h
  | cursorOnly => exact covered_tickCursorOnly h

theorem synced_drawPath_of_synced (h : g.comp.Synced scr) (p : Path) :
    (g.drawPath scr font drawCursorShape now p).comp.Synced scr := by
  cases p with
  | menu => exact synced_drawPath (p := .menu) h.covered rfl
  | layout => exact synced_drawPath (p := .layout) h.covered rfl
  | typing => exact synced_drawPath (p := .typing) h.covered rfl
  | idle => exact h
  | throttled => exact h
  | cursorOnly => exact synced_tickCursorOnly h

/-- Rendering the text marks rectangles, and draws nothing on the back buffer. -/
theorem terminalRender_mark {P : Compositor → Prop} (hP : ∀ c r, P c → P (c.markDirtyRect r))
    (d : Desk) {c : Compositor} (h : P c) : P (d.terminalRender font c).2 := by
  have hrow : ∀ (s : Desk × Compositor) row, P s.2 → P (s.1.renderRow font s.2 row).2 := by
    intro s row hs
    simp only [Desk.renderRow]
    split
    · exact hs
    · dsimp only
      split
      · exact hs
      · exact hP _ _ hs
  have hrows : ∀ (rows : List ℕ) (s : Desk × Compositor), P s.2 →
      P (rows.foldl (fun s row => Desk.renderRow font s.1 s.2 row) s).2 := by
    intro rows
    induction rows with
    | nil => exact fun _ hs => hs
    | cons row rows ih => exact fun s hs => ih _ (hrow s row hs)
  simp only [Desk.terminalRender]
  split
  · exact h
  split
  · exact h
  · have hs := hrows (List.range termRows) (d, c) h
    generalize (List.range termRows).foldl (fun s row => Desk.renderRow font s.1 s.2 row) (d, c) = s
      at hs ⊢
    exact hs

theorem comp_processEvents (n : ℕ) (had : Had) :
    (processEvents scr sh n g had).1.comp = g.comp := by
  induction n generalizing g had with
  | zero => rfl
  | succ n ih =>
    unfold processEvents
    split
    · rfl
    · rename_i ev g' hpop
      have hcomp : g'.comp = g.comp := by
        unfold eventPop at hpop
        split at hpop
        · cases hpop
          rfl
        · split at hpop
          · cases hpop
            rfl
          · cases hpop
      exact (ih _).trans hcomp

theorem beforeCompose_mark {P : Compositor → Prop} (hP : ∀ c r, P c → P (c.markDirtyRect r))
    (h : P g.comp) : P (g.beforeCompose scr font sh now).1.comp := by
  have hran : P (processEvents scr sh guiMaxEventsPerTick { g with lastFrameTick := now }
      Had.none).1.comp := by
    rw [comp_processEvents]
    exact h
  simp only [beforeCompose]
  split
  · exact hran
  · exact terminalRender_mark hP _ hran

/-- The branch that a tick takes. -/
def branch (scr : Screen) (font : ℕ → UInt8) (sh : GuiShell κ) (g : Gui κ) (now : BitVec 32) :
    Path :=
  if g.desk.down ∨ now - g.lastFrameTick = 0 then .idle
  else ((g.cliGuiTick sh now).beforeCompose scr font sh now).2

theorem covered_tick (h : g.comp.Covered scr) :
    (g.tick scr font sh drawCursorShape now).comp.Covered scr := by
  simp only [tick]
  split
  · exact h
  split
  · exact h
  · have hcli : (g.cliGuiTick sh now).comp.Covered scr := h
    exact covered_drawPath (beforeCompose_mark (fun _ r hc => hc.mark r) hcli) _

theorem synced_tick (h : g.comp.Synced scr) :
    (g.tick scr font sh drawCursorShape now).comp.Synced scr := by
  simp only [tick]
  split
  · exact h
  split
  · exact h
  · have hcli : (g.cliGuiTick sh now).comp.Synced scr := h
    exact synced_drawPath_of_synced (beforeCompose_mark (fun _ r hc => hc.mark r) hcli) _

/-- A tick that composes shows the whole frame. -/
theorem synced_tick_of_composes (h : g.comp.Covered scr)
    (hc : (g.branch scr font sh now).composes = true) :
    (g.tick scr font sh drawCursorShape now).comp.Synced scr := by
  unfold branch at hc
  split at hc
  · cases hc
  · rename_i hlive
    have hdown : ¬ g.desk.down = true := fun hd => hlive (Or.inl hd)
    have hnow : ¬ now - (g.cliGuiTick sh now).lastFrameTick = 0 := fun ht => hlive (Or.inr ht)
    have hcli : (g.cliGuiTick sh now).comp.Covered scr := h
    simp only [tick, if_neg hdown, if_neg hnow]
    exact synced_drawPath (beforeCompose_mark (fun _ r hcomp => hcomp.mark r) hcli) hc

/-! ## Runs -/

theorem comp_foldl_eventPush (evs : List GuiEvent) : (evs.foldl eventPush g).comp = g.comp := by
  induction evs generalizing g with
  | nil => rfl
  | cons ev evs ih =>
    rw [List.foldl_cons, ih]
    unfold eventPush
    split <;> rfl

/-- Only ticks draw. -/
theorem comp_step {i : GuiInput} (hi : ∀ now, i ≠ .tick now) :
    (g.step scr font sh drawCursorShape i).comp = g.comp := by
  cases i with
  | mouse flags dx dy => exact comp_foldl_eventPush _
  | key scancode pressed =>
    simp only [step, handleKey, eventPush]
    split <;> rfl
  | output call => rfl
  | tick now => exact absurd rfl (hi now)

theorem covered_run (is : List GuiInput) (h : g.comp.Covered scr) :
    (g.run scr font sh drawCursorShape is).comp.Covered scr := by
  induction is generalizing g with
  | nil => exact h
  | cons i is ih =>
    refine ih ?_
    cases i with
    | tick now => exact covered_tick h
    | mouse flags dx dy => rwa [comp_step (by simp)]
    | key scancode pressed => rwa [comp_step (by simp)]
    | output call => exact h

theorem synced_run (is : List GuiInput) (h : g.comp.Synced scr) :
    (g.run scr font sh drawCursorShape is).comp.Synced scr := by
  induction is generalizing g with
  | nil => exact h
  | cons i is ih =>
    refine ih ?_
    cases i with
    | tick now => exact synced_tick h
    | mouse flags dx dy => rwa [comp_step (by simp)]
    | key scancode pressed => rwa [comp_step (by simp)]
    | output call => exact h

/-- Before the first frame the whole screen is marked. -/
theorem covered_init {bpp : ℕ} {wallpaper glass framebuffer : Image}
    {packets : List (UInt8 × ℤ × ℤ)} {shell : κ} {now : BitVec 32}
    (h : Gui.init scr bpp wallpaper glass framebuffer packets shell now = some g) :
    g.comp.Covered scr := by
  unfold Gui.init at h
  split at h
  · cases h
  · cases h
    exact fun p hp _ => ⟨rfl, Screen.mem_rect hp⟩

/-- From the first tick that composes a frame on, the screen shows the back buffer. -/
theorem screen_coherent (scr : Screen) (bpp : ℕ) (font : ℕ → UInt8) (sh : GuiShell κ)
    (wallpaper glass framebuffer : Image) (packets : List (UInt8 × ℤ × ℤ)) (shell : κ)
    (boot : BitVec 32) (g : Gui κ)
    (h : Gui.init scr bpp wallpaper glass framebuffer packets shell boot = some g)
    (is is' : List GuiInput) (now : BitVec 32)
    (hc : ((g.run scr font sh drawCursorShape is).branch scr font sh now).composes = true) :
    (g.run scr font sh drawCursorShape (is ++ .tick now :: is')).comp.Synced scr := by
  rw [run, List.foldl_append]
  exact synced_run is' (synced_tick_of_composes (covered_run is (covered_init h)) hc)

theorem screen_coherent_moved :
    ((start ⟨1024, 768⟩ (fun _ => 0) (fun _ => 0) (fun _ => 0xAA) [] () 0).run ⟨1024, 768⟩
      (fun _ => 0) quietShell drawCursorShape
      [.tick 1, .mouse 0 5 5, .tick 2]).comp.Synced ⟨1024, 768⟩ :=
  screen_coherent ⟨1024, 768⟩ 32 (fun _ => 0) quietShell (fun _ => 0) (fun _ => 0) (fun _ => 0xAA)
    [] () 0 _ (if_neg (by decide)) [] [.mouse 0 5 5, .tick 2] 1 (by decide +kernel)

end Gui

end VernisOS
