import VernisOS.CursorTrace
import VernisOS.Lib.Absorb
import VernisOS.Lib.Repaint

/-!
# Partial frames

`wm_compose_partial` of `gui/window.rs` against `wm_compose_all`. The damage grows until it covers
every window it meets (`covers_growLoop`), and a window is drawn within its own rectangle from
what is there. So each window on the screen lies inside the damage or apart from it, and putting
the wallpaper back and drawing the windows inside gives the frame that a composition from scratch
would (`FrameOf.partial_compose_frame`).
-/

open Raster

namespace VernisOS

/-! ## Growing the damage -/

/-- A rectangle inside another one. -/
instance Rect.partialOrder : PartialOrder Rect where
  le r s := (s.x ≤ r.x ∧ r.x + r.w ≤ s.x + s.w) ∧ s.y ≤ r.y ∧ r.y + r.h ≤ s.y + s.h
  le_refl r := ⟨⟨le_refl _, le_refl _⟩, le_refl _, le_refl _⟩
  le_trans r s t h h' :=
    ⟨⟨h'.1.1.trans h.1.1, h.1.2.trans h'.1.2⟩, h'.2.1.trans h.2.1, h.2.2.trans h'.2.2⟩
  le_antisymm r s h h' := by
    obtain ⟨rx, ry, rw, rh⟩ := r
    obtain ⟨sx, sy, sw, sh⟩ := s
    dsimp only at h h'
    rw [Rect.mk.injEq]
    omega

namespace Rect

variable {r s : Rect} {p : Pixel}

theorem le_def : r ≤ s ↔ (s.x ≤ r.x ∧ r.x + r.w ≤ s.x + s.w) ∧ s.y ≤ r.y ∧ r.y + r.h ≤ s.y + s.h :=
  Iff.rfl

instance decidableLE : DecidableLE Rect := fun r s =>
  inferInstanceAs (Decidable
    ((s.x ≤ r.x ∧ r.x + r.w ≤ s.x + s.w) ∧ s.y ≤ r.y ∧ r.y + r.h ≤ s.y + s.h))

theorem mem_of_le (h : r ≤ s) (hp : p ∈ r) : p ∈ s := by
  rw [le_def] at h
  rw [mem_def] at hp ⊢
  omega

theorem le_union_left (r s : Rect) : r ≤ r.union s := by
  simp only [le_def, union]
  split <;> split <;> split <;> split <;> omega

theorem le_union_right (r s : Rect) : s ≤ r.union s := by
  simp only [le_def, union]
  split <;> split <;> split <;> split <;> omega

theorem union_eq_left (h : s ≤ r) : r.union s = r := by
  refine le_antisymm ?_ (le_union_left r s)
  rw [le_def] at h
  simp only [le_def, union]
  split <;> split <;> split <;> split <;> omega

end Rect

namespace WindowManager

variable {wm wm' : WindowManager} {d r : Rect} {w : GuiWindow} {p : Pixel}

/-- A visible window that meets the damage. -/
def meets (d : Rect) (w : GuiWindow) : Bool :=
  w.visible && rectsIntersect d w.rect

/-- Damage that takes a window in. -/
theorem absorb_rules : Absorb.Rules (fun (d : Rect) (w : GuiWindow) => d.union w.rect)
    fun d w => w.rect ≤ d where
  le_absorb d w := d.le_union_left w.rect
  covers_absorb d w := d.le_union_right w.rect
  covers_mono h h' := h'.trans h
  absorb_eq_self h := Rect.union_eq_left h

theorem growDamage_eq (wm : WindowManager) (d : Rect) :
    wm.growDamage d = Absorb.pass meets (fun d w => d.union w.rect) wm.windows d := by
  unfold growDamage Absorb.pass
  refine List.foldl_ext _ _ _ fun d w _ => ?_
  simp only [meets, Bool.and_eq_true]

theorem growLoop_eq (wm : WindowManager) (fuel : ℕ) (d : Rect) :
    wm.growLoop fuel d = Absorb.loop meets (fun d w => d.union w.rect) wm.windows fuel d := by
  induction fuel generalizing d with
  | zero => rfl
  | succ fuel ih => rw [growLoop, Absorb.loop, growDamage_eq, ih]

/-- The loop of `wm_compose_partial` ends : another pass would change nothing. -/
theorem growDamage_growLoop (wm : WindowManager) (d : Rect) :
    wm.growDamage (wm.growLoop (wm.windows.length + 1) d) =
      wm.growLoop (wm.windows.length + 1) d := by
  rw [growDamage_eq, growLoop_eq]
  exact absorb_rules.pass_loop meets wm.windows d

theorem le_growLoop (wm : WindowManager) (fuel : ℕ) (d : Rect) : d ≤ wm.growLoop fuel d := by
  rw [growLoop_eq]
  exact absorb_rules.le_loop meets wm.windows fuel

/-- The grown damage covers every visible window it meets. -/
theorem covers_growLoop (hw : w ∈ wm.windows) (hvisible : w.visible = true)
    (hmeets : rectsIntersect (wm.growLoop (wm.windows.length + 1) d) w.rect = true) :
    w.rect ≤ wm.growLoop (wm.windows.length + 1) d := by
  rw [growLoop_eq] at hmeets ⊢
  exact absorb_rules.covers_loop hw (by rw [meets, hvisible, hmeets]; rfl)

theorem mem_windows_of_shown (h : w ∈ wm.shown) : w ∈ wm.windows ∧ w.visible = true := by
  obtain ⟨hfind, hvisible⟩ := List.mem_filter.mp h
  obtain ⟨id, -, hid⟩ := List.mem_filterMap.mp hfind
  exact ⟨List.mem_of_find?_eq_some hid, hvisible⟩

theorem not_mem_of_apart (h : rectsIntersect d r = false) (hp : p ∈ r) : p ∉ d := by
  rw [rectsIntersect, decide_eq_false_iff_not] at h
  simp only [Rect.mem_def] at hp ⊢
  omega

theorem meets_of_le (h : w.rect ≤ d) (hopen : w.Open) : rectsIntersect d w.rect = true := by
  have hwidth := hopen.width
  have hheight := hopen.height
  rw [Rect.le_def] at h
  simp only [GuiWindow.rect] at h
  rw [rectsIntersect, decide_eq_true_eq]
  simp only [GuiWindow.rect]
  omega

end WindowManager

/-! ## What a window does to the back buffer -/

namespace Compositor

variable {scr : Screen} {font : ℕ → UInt8} {S : Set Pixel} {c c' : Compositor}

/-- A compositor with this back buffer. -/
def ofBuffer (b : Image) : Compositor where
  backBuffer := b
  wallpaper := b
  wallpaperValid := false
  glass := b
  glassValid := false
  glassId := 0
  glassRect := ⟨0, 0, 0, 0⟩
  dirty := false
  dirtyRect := ⟨0, 0, 0, 0⟩
  framebuffer := b

theorem agree_drawClosed (scr : Screen) (font : ℕ → UInt8) (S : Set Pixel) :
    DrawClosed scr font S fun c c' => AgreeOn S c.backBuffer c'.backBuffer where
  fillRectAlpha r color alpha hS h := (worksOn_fillRectAlpha scr r color alpha).agree hS h
  blurRect r radius hS h := (worksOn_blurRect scr r radius).agree hS h
  drawChar x y ch fg hS h := (worksOn_drawChar scr font x y ch fg).agree hS h
  blit src r key hS h := (worksOn_blitColorkey scr src r key).agree hS h
  capture _ _ _ h := h

/-- No drawing call touches the captured wallpaper. -/
theorem wallpaper_drawClosed (scr : Screen) (font : ℕ → UInt8) (S : Set Pixel) (k : Compositor) :
    DrawClosed scr font S fun c _ =>
      c.wallpaper = k.wallpaper ∧ c.wallpaperValid = k.wallpaperValid where
  fillRectAlpha {c _} r color alpha _ h :=
    ⟨(congrArg Caches.wallpaper (caches_fillRectAlpha c r color alpha)).trans h.1,
      (congrArg Caches.wallpaperValid (caches_fillRectAlpha c r color alpha)).trans h.2⟩
  blurRect {c _} r radius _ h :=
    ⟨(congrArg Caches.wallpaper (caches_blurRect c r radius)).trans h.1,
      (congrArg Caches.wallpaperValid (caches_blurRect c r radius)).trans h.2⟩
  drawChar {c _} x y ch fg _ h :=
    ⟨(congrArg Caches.wallpaper (caches_drawChar c x y ch fg)).trans h.1,
      (congrArg Caches.wallpaperValid (caches_drawChar c x y ch fg)).trans h.2⟩
  blit {c _} src r key _ h :=
    ⟨(congrArg Caches.wallpaper (caches_blitColorkey c src r key)).trans h.1,
      (congrArg Caches.wallpaperValid (caches_blitColorkey c src r key)).trans h.2⟩
  capture _ _ _ h := h

end Compositor

namespace WindowManager

variable {scr : Screen} {font : ℕ → UInt8} {wm wm' : WindowManager} {doBlur : Bool}
  {c : Compositor} {w : GuiWindow} {S : Set Pixel}

/-- What `compose_window_glass` does to the back buffer. -/
def glassImage (scr : Screen) (font : ℕ → UInt8) (wm : WindowManager) (doBlur : Bool)
    (w : GuiWindow) (b : Image) : Image :=
  (composeWindowGlass scr font wm (.ofBuffer b) w doBlur).backBuffer

theorem backBuffer_composeWindowGlass (c : Compositor) :
    (composeWindowGlass scr font wm c w doBlur).backBuffer =
      glassImage scr font wm doBlur w c.backBuffer := by
  have hsame : AgreeOn Set.univ c.backBuffer (Compositor.ofBuffer c.backBuffer).backBuffer :=
    fun p _ => rfl
  have hdraw := (Compositor.agree_drawClosed scr font Set.univ).window wm
    (w.drawnIn_of_subset (Set.subset_univ _)) doBlur hsame
  exact funext fun p => hdraw p (Set.mem_univ p)

theorem localOn_glassImage (h : w.DrawnIn scr S) :
    LocalOn S (glassImage scr font wm doBlur w) where
  confined b p hp :=
    (Compositor.outside_drawClosed scr font S b).window (c := .ofBuffer b) (d := .ofBuffer b) wm h
      doBlur (fun _ _ => rfl) p hp
  inside b b' hb :=
    (Compositor.agree_drawClosed scr font S).window (c := .ofBuffer b) (d := .ofBuffer b') wm h
      doBlur hb

theorem glassImage_congr (h : wm.contentBuf w.id = wm'.contentBuf w.id) :
    glassImage scr font wm doBlur w = glassImage scr font wm' doBlur w := by
  funext b
  simp only [glassImage, composeWindowGlass, h]

theorem backBuffer_foldl_compose (ws : List GuiWindow) (c : Compositor) :
    (ws.foldl (fun c w => composeWindowGlass scr font wm c w doBlur) c).backBuffer =
      paint (glassImage scr font wm doBlur) ws c.backBuffer := by
  unfold paint
  induction ws generalizing c with
  | nil => rfl
  | cons w ws ih => rw [List.foldl_cons, List.foldl_cons, ih, backBuffer_composeWindowGlass]

end WindowManager

/-! ## Frames -/

/-- The frame from scratch : the captured wallpaper, then all visible windows. -/
def fullFrame (scr : Screen) (font : ℕ → UInt8) (wm : WindowManager) (c : Compositor)
    (doBlur : Bool) : Option Compositor :=
  (c.wallpaperRestoreFull scr).map fun c => wm.composeAll scr font c doBlur

/-- The screen shows the frame from scratch. -/
def FrameOf (scr : Screen) (font : ℕ → UInt8) (doBlur : Bool) (wm : WindowManager)
    (c : Compositor) : Prop :=
  ∃ f, fullFrame scr font wm c doBlur = some f ∧ AgreeOn scr.pixels c.backBuffer f.backBuffer

namespace WindowManager

/-- Nothing on the screen changed but windows that lie inside the rectangle, before and after. -/
structure ChangedWithin (r : Rect) (wm wm' : WindowManager) : Prop where
  shown : (wm.shown.filter fun w => ¬ w.rect ≤ r) = wm'.shown.filter fun w => ¬ w.rect ≤ r
  content : ∀ w ∈ wm'.shown, ¬ w.rect ≤ r → wm.contentBuf w.id = wm'.contentBuf w.id

variable {scr : Screen} {font : ℕ → UInt8} {wm wm' : WindowManager} {doBlur : Bool}
  {c : Compositor} {w : GuiWindow} {r : Rect}

/-- A window inside the grown damage or apart from it. -/
theorem splits_of_rect {ws : List GuiWindow} {d : Rect} (hopen : ∀ w ∈ ws, w.Open)
    (hd : ∀ w ∈ ws, rectsIntersect d w.rect = true → w.rect ≤ d) :
    Splits (glassImage scr font wm doBlur) (fun w => rectsIntersect d w.rect) (scr.part d) ws where
  within w hw hmeets :=
    (localOn_glassImage ((hopen w hw).drawnIn scr)).mono fun _ hp =>
      ⟨Rect.mem_of_le (hd w hw hmeets) hp.1, hp.2⟩
  off w hw hapart :=
    (localOn_glassImage ((hopen w hw).drawnIn scr)).mono fun _ hp hin =>
      not_mem_of_apart hapart hp.1 hin.1

theorem paint_composeAll (scr : Screen) (font : ℕ → UInt8) (wm : WindowManager) (c : Compositor)
    (doBlur : Bool) :
    (wm.composeAll scr font c doBlur).backBuffer =
      paint (glassImage scr font wm doBlur) wm.shown c.backBuffer :=
  backBuffer_foldl_compose wm.shown c

/-- A frame depends on the pixels of the wallpaper alone. -/
theorem agree_composeAll {c c' : Compositor} (h : AgreeOn scr.pixels c.backBuffer c'.backBuffer) :
    AgreeOn scr.pixels (wm.composeAll scr font c doBlur).backBuffer
      (wm.composeAll scr font c' doBlur).backBuffer :=
  (Compositor.agree_drawClosed scr font scr.pixels).windows wm doBlur
    (fun w _ => w.drawnIn_of_subset subset_rfl) h

end WindowManager

namespace Compositor

variable {scr : Screen} {c : Compositor} {r : Rect}

theorem wallpaperRestoreFull_of_valid (scr : Screen) (h : c.wallpaperValid = true) :
    ∃ f, c.wallpaperRestoreFull scr = some f ∧ f.caches = c.caches ∧
      AgreeOn scr.pixels f.backBuffer c.wallpaper := by
  unfold wallpaperRestoreFull
  rw [if_pos h]
  refine ⟨_, rfl, caches_draw c scr.rect _, fun p hp => ?_⟩
  rw [backBuffer_draw]
  exact if_pos (Screen.mem_pixels.mp hp)

theorem valid_of_wallpaperRestoreFull {f : Compositor}
    (h : c.wallpaperRestoreFull scr = some f) : c.wallpaperValid = true := by
  unfold wallpaperRestoreFull at h
  split at h
  · assumption
  · cases h

theorem wallpaperRestoreRect_of_valid (scr : Screen) (h : c.wallpaperValid = true) (r : Rect) :
    ∃ f, c.wallpaperRestoreRect scr r = some f ∧ f.caches = c.caches ∧
      AgreeOn (scr.part r) f.backBuffer c.wallpaper ∧
      ∀ p ∉ scr.part r, f.backBuffer p = c.backBuffer p := by
  unfold wallpaperRestoreRect
  rw [if_pos h]
  cases hq : scr.clip r with
  | none => exact ⟨c, rfl, rfl, fun p hp => absurd hp (Screen.not_mem_of_clip hq), fun _ _ => rfl⟩
  | some q =>
    refine ⟨_, rfl, caches_draw c r _, fun p hp => ?_, fun p hp => ?_⟩
    · rw [backBuffer_draw]
      exact if_pos ((Screen.mem_clip hq).mpr hp)
    · rw [backBuffer_draw]
      exact if_neg fun hin => hp ((Screen.mem_clip hq).mp hin)

end Compositor

namespace FrameOf

variable {scr : Screen} {font : ℕ → UInt8} {wm wm' : WindowManager} {doBlur : Bool}
  {c : Compositor} {r : Rect}

/-- The frame over any buffer that shows the wallpaper. -/
theorem iff_of_wallpaper (c₀ : Compositor) (hvalid : c.wallpaperValid = true)
    (hc₀ : AgreeOn scr.pixels c₀.backBuffer c.wallpaper) :
    FrameOf scr font doBlur wm c ↔
      AgreeOn scr.pixels c.backBuffer (wm.composeAll scr font c₀ doBlur).backBuffer := by
  obtain ⟨f, hf, -, hpaper⟩ := Compositor.wallpaperRestoreFull_of_valid scr hvalid
  have hsame : AgreeOn scr.pixels (wm.composeAll scr font f doBlur).backBuffer
      (wm.composeAll scr font c₀ doBlur).backBuffer :=
    WindowManager.agree_composeAll (hpaper.trans hc₀.symm)
  unfold FrameOf fullFrame
  rw [hf]
  constructor
  · rintro ⟨g, hg, hagree⟩
    cases hg
    exact hagree.trans hsame
  · exact fun hagree => ⟨_, rfl, hagree.trans hsame.symm⟩

theorem valid (h : FrameOf scr font doBlur wm c) : c.wallpaperValid = true := by
  obtain ⟨f, hf, -⟩ := h
  obtain ⟨g, hg, -⟩ := Option.map_eq_some_iff.mp hf
  exact Compositor.valid_of_wallpaperRestoreFull hg

/-- Drawing all windows over the wallpaper makes a frame. -/
theorem of_composeAll (wm : WindowManager) (hvalid : c.wallpaperValid = true)
    (hc : AgreeOn scr.pixels c.backBuffer c.wallpaper) :
    FrameOf scr font doBlur wm (wm.composeAll scr font c doBlur) := by
  have hdrawn : ∀ w ∈ wm.shown, w.DrawnIn scr Set.univ := fun w _ =>
    w.drawnIn_of_subset (Set.subset_univ _)
  have hpaper := (Compositor.wallpaper_drawClosed scr font Set.univ c).windows wm doBlur hdrawn
    (c := c) (d := c) ⟨rfl, rfl⟩
  exact (iff_of_wallpaper _ (hpaper.2.trans hvalid) (by rw [← hpaper.1] at hc; exact hc)).mpr
    fun _ _ => rfl

/-- Changed windows inside the damage, and the others where they were. -/
theorem rects_of_changedWithin {d : Rect} (hchanged : wm.ChangedWithin r wm') (hr : r ≤ d)
    (hd : ∀ w ∈ wm'.shown, WindowManager.rectsIntersect d w.rect = true → w.rect ≤ d) :
    ∀ w ∈ wm.shown, WindowManager.rectsIntersect d w.rect = true → w.rect ≤ d := by
  intro w hw hmeets
  by_cases hin : w.rect ≤ r
  · exact hin.trans hr
  · have hkept : w ∈ wm.shown.filter fun w => ¬ w.rect ≤ r :=
      List.mem_filter.mpr ⟨hw, decide_eq_true hin⟩
    rw [hchanged.shown] at hkept
    exact hd w (List.mem_filter.mp hkept).1 hmeets

theorem filter_apart {ws : List GuiWindow} {d : Rect} (hopen : ∀ w ∈ ws, w.Open) (hr : r ≤ d) :
    (ws.filter fun w => !WindowManager.rectsIntersect d w.rect) =
      (ws.filter fun w => ¬ w.rect ≤ r).filter fun w => !WindowManager.rectsIntersect d w.rect := by
  rw [List.filter_filter]
  refine List.filter_congr fun w hw => ?_
  cases hmeets : WindowManager.rectsIntersect d w.rect with
  | true => rfl
  | false =>
    have hout : ¬ w.rect ≤ r := fun hle => by
      rw [WindowManager.meets_of_le (hle.trans hr) (hopen w hw)] at hmeets
      cases hmeets
    simp [hout]

/-- `wm_compose_partial` on damage with all changes inside ends, and makes a frame of the windows
before the changes to the frame of the windows after them. -/
theorem partial_compose_frame (h : FrameOf scr font doBlur wm c) (hopen : ∀ w ∈ wm.shown, w.Open)
    (hopen' : ∀ w ∈ wm'.shown, w.Open) (hchanged : wm.ChangedWithin r wm') :
    wm'.growDamage (wm'.growLoop (wm'.windows.length + 1) r) =
        wm'.growLoop (wm'.windows.length + 1) r ∧
      ∃ c', wm'.composePartial scr font c r doBlur = some c' ∧ FrameOf scr font doBlur wm' c' := by
  refine ⟨wm'.growDamage_growLoop r, ?_⟩
  have hvalid := h.valid
  have hr := wm'.le_growLoop (wm'.windows.length + 1) r
  have hd : ∀ w ∈ wm'.shown,
      WindowManager.rectsIntersect (wm'.growLoop (wm'.windows.length + 1) r) w.rect = true →
        w.rect ≤ wm'.growLoop (wm'.windows.length + 1) r := fun w hw hmeets =>
    WindowManager.covers_growLoop (WindowManager.mem_windows_of_shown hw).1 (hopen' w hw).visible
      hmeets
  unfold WindowManager.composePartial
  generalize wm'.growLoop (wm'.windows.length + 1) r = d at hr hd ⊢
  obtain ⟨c₁, hc₁, hcaches, hpart, hkept⟩ :=
    Compositor.wallpaperRestoreRect_of_valid scr hvalid d
  dsimp only
  rw [hc₁]
  refine ⟨_, rfl, ?_⟩
  -- the drawing keeps the wallpaper, so the frame is over the same one
  have hdrawn : ∀ w ∈ wm'.shown, WindowManager.rectsIntersect d w.rect = true →
      w.DrawnIn scr Set.univ := fun w _ _ => w.drawnIn_of_subset (Set.subset_univ _)
  have hpaper := (Compositor.wallpaper_drawClosed scr font Set.univ c).windowsMet wm' d doBlur
    hdrawn (c := c₁) (d := c₁) ⟨congrArg Compositor.Caches.wallpaper hcaches,
      congrArg Compositor.Caches.wallpaperValid hcaches⟩
  have hbase : AgreeOn scr.pixels (Compositor.ofBuffer c.wallpaper).backBuffer c.wallpaper :=
    fun _ _ => rfl
  rw [iff_of_wallpaper _ hvalid hbase, WindowManager.paint_composeAll] at h
  rw [iff_of_wallpaper (.ofBuffer c.wallpaper) (hpaper.2.trans hvalid)
    (by rw [hpaper.1]; exact hbase), WindowManager.paint_composeAll, ← List.foldl_filter,
    WindowManager.backBuffer_foldl_compose]
  refine agreeOn_repaint (WindowManager.splits_of_rect hopen
    (rects_of_changedWithin hchanged hr hd)) (WindowManager.splits_of_rect hopen' hd) ?_ ?_ h
    hpart fun p hp => hkept p hp.2
  · rw [filter_apart hopen hr, filter_apart hopen' hr, hchanged.shown]
  · intro w hw hapart
    refine WindowManager.glassImage_congr (hchanged.content w hw fun hle => ?_)
    rw [WindowManager.meets_of_le (hle.trans hr) (hopen' w hw)] at hapart
    cases hapart

end FrameOf

theorem open_of_bounds {ws : List GuiWindow}
    (h : ∀ w ∈ ws, w.visible = true ∧ 64 ≤ w.width ∧ 64 ≤ w.height ∧
      8 * w.title.length + 7 ≤ w.width) : ∀ w ∈ ws, w.Open :=
  fun w hw => ⟨(h w hw).1, (h w hw).2.1, (h w hw).2.2.1, (h w hw).2.2.2⟩

/-- Two windows, one over a corner of the other. -/
def twoWindows : WindowManager :=
  ((WindowManager.init.createWindow [] 10 10 64 64).1.createWindow [] 40 30 80 64).1

/-- A white screen with a captured white wallpaper. -/
def whiteScreen : Compositor :=
  { Compositor.ofBuffer fun _ => 0xFFFFFF with wallpaperValid := true }

/-- The lower one of the two windows is moved partly off the screen. -/
theorem partial_compose_frame_twoWindows :
    let wm := twoWindows.moveWindow 1 (-20) 50
    wm.growDamage (wm.growLoop 3 wm.dmg) = wm.growLoop 3 wm.dmg ∧
      ∃ c, wm.composePartial ⟨100, 80⟩ (fun _ => 0)
          (twoWindows.composeAll ⟨100, 80⟩ (fun _ => 0) whiteScreen true) wm.dmg true = some c ∧
        FrameOf ⟨100, 80⟩ (fun _ => 0) true wm c := by
  refine (FrameOf.of_composeAll twoWindows rfl fun _ _ => rfl).partial_compose_frame
    (open_of_bounds (by decide)) (open_of_bounds (by decide)) ⟨by decide, fun _ _ _ => rfl⟩

end VernisOS
