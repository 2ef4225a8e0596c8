import VernisOS.Gui

/-!
# The windows that the GUI opens

Every window of a run is a terminal : it is visible, and its title and its buttons fit into it
(`GuiWindow.Open`). Whatever asks for a new taskbar also damages some window, so there is damage
whenever the taskbar is dirty (`WindowManager.Tidy`). Both hold after every event, call of the
shell and frame.
-/

open Bytes

namespace VernisOS

/-- A visible window of at least 64 by 64 pixels, with room for its title. -/
structure GuiWindow.Open (w : GuiWindow) : Prop where
  visible : w.visible = true
  width : 64 ≤ w.width
  height : 64 ≤ w.height
  title : 8 * w.title.length + 7 ≤ w.width

theorem GuiWindow.Open.content {w : GuiWindow} (h : w.Open) : w.contentEmpty = false := by
  have hw := h.width
  have hh := h.height
  simp only [contentEmpty, contentWidth, contentHeight, borderWidth, titleBarHeight,
    decide_eq_false_iff_not, Nat.mul_eq_zero]
  omega

namespace WindowManager

variable {wm : WindowManager} {r : Rect} {id : ℕ}

/-- Some damage is noted. -/
def Damaged (wm : WindowManager) : Prop :=
  wm.dmg.w ≠ 0 ∧ wm.dmg.h ≠ 0

/-- The windows are open, and there is damage if the taskbar is dirty. -/
structure Tidy (wm : WindowManager) : Prop where
  windows : ∀ w ∈ wm.windows, w.Open
  damaged : wm.taskbarDirty = true → wm.Damaged

/-! ## Damage -/

theorem Damaged.damageAdd (h : wm.Damaged) (r : Rect) : (wm.damageAdd r).Damaged := by
  obtain ⟨hw, hh⟩ := h
  unfold WindowManager.damageAdd
  split
  · exact ⟨hw, hh⟩
  split
  · rename_i hempty
    exact absurd hempty (by simp [hw, hh])
  · simp only [Damaged, Rect.union]
    split <;> split <;> split <;> split <;> omega

theorem damaged_damageAdd (wm : WindowManager) (hw : r.w ≠ 0) (hh : r.h ≠ 0) :
    (wm.damageAdd r).Damaged := by
  unfold WindowManager.damageAdd
  split
  · rename_i hempty
    exact absurd hempty (by simp [hw, hh])
  split
  · exact ⟨hw, hh⟩
  · simp only [Damaged, Rect.union]
    split <;> split <;> split <;> split <;> omega

theorem windows_damageAdd (wm : WindowManager) (r : Rect) :
    (wm.damageAdd r).windows = wm.windows := by
  unfold WindowManager.damageAdd
  split
  · rfl
  · split <;> rfl

theorem taskbarDirty_damageAdd (wm : WindowManager) (r : Rect) :
    (wm.damageAdd r).taskbarDirty = wm.taskbarDirty := by
  unfold WindowManager.damageAdd
  split
  · rfl
  · split <;> rfl

theorem Tidy.damageAdd (h : wm.Tidy) (r : Rect) : (wm.damageAdd r).Tidy where
  windows w hw := h.windows w (by rwa [windows_damageAdd] at hw)
  damaged hdirty := (h.damaged (by rwa [taskbarDirty_damageAdd] at hdirty)).damageAdd r

/-- A desktop whose windows are open and which is damaged may ask for a new taskbar. -/
theorem tidy_of_damaged {wm' : WindowManager} (h : ∀ w ∈ wm.windows, w.Open) (hd : wm.Damaged)
    (hwindows : wm'.windows = wm.windows) (hdmg : wm'.dmg = wm.dmg) : wm'.Tidy where
  windows := by rwa [hwindows]
  damaged _ := by rwa [Damaged, hdmg]

/-- What changes neither the windows nor the damage, and asks for no taskbar. -/
theorem Tidy.same {wm' : WindowManager} (h : wm.Tidy) (hwindows : wm'.windows = wm.windows)
    (hdmg : wm'.dmg = wm.dmg) (hdirty : wm'.taskbarDirty = true → wm.taskbarDirty = true) :
    wm'.Tidy where
  windows := by rw [hwindows]; exact h.windows
  damaged hd := by rw [Damaged, hdmg]; exact h.damaged (hdirty hd)

/-! ## The operations -/

theorem open_map {f : GuiWindow → GuiWindow} (hf : ∀ w, w.Open → (f w).Open)
    (h : ∀ w ∈ wm.windows, w.Open) : ∀ w ∈ wm.windows.map f, w.Open := by
  intro w hw
  obtain ⟨w', hw', rfl⟩ := List.mem_map.mp hw
  exact hf w' (h w' hw')

theorem findWindow_mem {w : GuiWindow} (h : wm.findWindow id = some w) : w ∈ wm.windows :=
  List.mem_of_find?_eq_some h

theorem tidy_createWindow (h : ∀ w ∈ wm.windows, w.Open) {title : List UInt8} {width height : ℕ}
    (hwidth : 64 ≤ width) (hheight : 64 ≤ height) (htitle : 8 * title.length + 7 ≤ width)
    (x y : ℤ) : (wm.createWindow title x y width height).1.Tidy := by
  simp only [WindowManager.createWindow]
  refine tidy_of_damaged ?_ (damaged_damageAdd _ (r := GuiWindow.rect _) ?_ ?_) rfl rfl
  · rw [windows_damageAdd]
    intro w hw
    rcases List.mem_append.mp hw with hw | hw
    · refine open_map (fun w hopen => ?_) h w hw
      exact ⟨hopen.visible, hopen.width, hopen.height, hopen.title⟩
    · rw [List.mem_singleton] at hw
      subst hw
      have hlen := List.length_take_le maxTitleLen title
      have hlen' := List.length_take_le' maxTitleLen title
      exact ⟨rfl, hwidth, hheight, by dsimp only; omega⟩
  · change width ≠ 0
    omega
  · change height ≠ 0
    omega

theorem damaged_foldl_damageAdd (ws : List GuiWindow) (hopen : ∀ w ∈ ws, w.Open)
    (h : ws ≠ [] ∨ wm.Damaged) :
    (ws.foldl (fun wm w => if w.visible then wm.damageAdd w.rect else wm) wm).Damaged := by
  induction ws generalizing wm with
  | nil => exact h.resolve_left fun hne => hne rfl
  | cons w ws ih =>
    have hw := hopen w List.mem_cons_self
    have hwidth := hw.width
    have hheight := hw.height
    rw [List.foldl_cons, if_pos hw.visible]
    refine ih (fun w' hw' => hopen w' (List.mem_cons_of_mem w hw')) (Or.inr ?_)
    refine damaged_damageAdd wm ?_ ?_
    · change w.width ≠ 0
      omega
    · change w.height ≠ 0
      omega

theorem windows_foldl_damageAdd (ws : List GuiWindow) :
    (ws.foldl (fun wm w => if w.visible then wm.damageAdd w.rect else wm) wm).windows =
      wm.windows := by
  induction ws generalizing wm with
  | nil => rfl
  | cons w ws ih =>
    rw [List.foldl_cons, ih]
    split
    · exact windows_damageAdd wm w.rect
    · rfl

/-- Where there is a window, a new focus damages it. -/
theorem open_focusWindow (h : ∀ w ∈ wm.windows, w.Open) (hne : wm.windows ≠ []) (id : ℕ) :
    (∀ w ∈ (wm.focusWindow id).windows, w.Open) ∧ (wm.focusWindow id).Damaged := by
  have hopen : ∀ w ∈ wm.windows.map fun w => { w with focused := w.id = id }, w.Open :=
    open_map (fun w hw => ⟨hw.visible, hw.width, hw.height, hw.title⟩) h
  refine ⟨fun w hw => ?_, ?_⟩
  · simp only [WindowManager.focusWindow, windows_foldl_damageAdd] at hw
    exact hopen w hw
  · exact damaged_foldl_damageAdd _ hopen (Or.inl (by simpa using hne))

theorem Tidy.focusWindow (h : wm.Tidy) (hne : wm.windows ≠ []) (id : ℕ) :
    (wm.focusWindow id).Tidy :=
  have hfocus := open_focusWindow h.windows hne id
  tidy_of_damaged hfocus.1 hfocus.2 rfl rfl

theorem tidy_removeWindow (h : ∀ w ∈ wm.windows, w.Open) (hd : wm.Damaged) (id : ℕ) :
    (wm.removeWindow id).Tidy := by
  have hkept : ∀ w ∈ wm.windows.filter (·.id ≠ id), w.Open :=
    fun w hw => h w (List.mem_of_mem_filter hw)
  simp only [WindowManager.removeWindow]
  split
  · refine ⟨?_, fun _ => hd⟩
    refine open_map ?_ hkept
    intro w hw
    split
    · exact ⟨hw.visible, hw.width, hw.height, hw.title⟩
    · exact hw
  · exact ⟨hkept, fun _ => hd⟩

theorem tidy_closeWindow (h : ∀ w ∈ wm.windows, w.Open) (hd : wm.Damaged) (id : ℕ) :
    (wm.closeWindow id).Tidy := by
  unfold closeWindow
  split
  · rename_i w _
    exact tidy_removeWindow (by rwa [windows_damageAdd]) (hd.damageAdd w.rect) id
  · exact tidy_removeWindow h hd id

theorem Tidy.moveWindow (h : wm.Tidy) (id : ℕ) (x y : ℤ) : (wm.moveWindow id x y).Tidy := by
  unfold WindowManager.moveWindow
  split
  · exact h
  · rename_i w _
    have hmoved : (wm.updateWindow id fun w => { w with x, y }).Tidy :=
      ⟨open_map (fun w hw => by
        split
        · exact ⟨hw.visible, hw.width, hw.height, hw.title⟩
        · exact hw) h.windows, h.damaged⟩
    exact ((hmoved.damageAdd w.rect).damageAdd _).same rfl rfl fun hd => hd

theorem Tidy.moveFocusedWindow (h : wm.Tidy) (dx dy : ℤ) : (wm.moveFocusedWindow dx dy).1.Tidy := by
  unfold WindowManager.moveFocusedWindow
  split
  · exact h
  split
  · exact h
  · exact h.moveWindow _ _ _

theorem Tidy.startDrag (h : wm.Tidy) (id : ℕ) (mx my : ℤ) : (wm.startDrag id mx my).Tidy := by
  unfold WindowManager.startDrag
  split
  · exact h
  · exact h.same rfl rfl fun hd => hd

theorem Tidy.dragTo (h : wm.Tidy) (mx my : ℤ) : (wm.dragTo mx my).Tidy := by
  unfold WindowManager.dragTo
  split
  · exact h
  · exact h.moveWindow _ _ _

theorem Tidy.windowFill (h : wm.Tidy) (id : ℕ) : (wm.windowFill id).Tidy := by
  unfold WindowManager.windowFill
  split
  · exact h.same rfl rfl fun hd => hd
  · exact h

theorem Tidy.renderRowsDirect (h : wm.Tidy) (font : ℕ → UInt8) (id row : ℕ) (chars : ℕ → UInt8)
    (fgs bgs : ℕ → ℕ) : (wm.renderRowsDirect font id row chars fgs bgs).Tidy := by
  unfold WindowManager.renderRowsDirect
  split
  · exact h
  · exact h.same rfl rfl fun hd => hd

theorem Tidy.windowFillRect (h : wm.Tidy) (id x y w height color : ℕ) :
    (wm.windowFillRect id x y w height color).Tidy := by
  unfold WindowManager.windowFillRect
  split
  · exact h
  · exact h.same rfl rfl fun hd => hd

/-- Taking the damage with the flag of the taskbar leaves neither. -/
theorem Tidy.taken (h : wm.Tidy) : wm.takeTaskbarDirty.2.takeDamage.2.Tidy := by
  refine ⟨?_, ?_⟩
  · unfold takeDamage
    split <;> exact h.windows
  · unfold takeDamage
    split <;> exact fun hd => absurd hd Bool.false_ne_true

end WindowManager

/-! ## Events and calls -/

namespace Desk

variable {κ : Type} {scr : Screen} {font : ℕ → UInt8} {sh : GuiShell κ} {k : κ} {d : Desk}

/-- The windows of the desktop are tidy. -/
def Tidy (d : Desk) : Prop :=
  d.wm.Tidy

theorem tidy_termCall (h : d.Tidy) (call : TermCall) : (d.termCall call).Tidy := by
  cases call <;> exact h

theorem tidy_termCalls (h : d.Tidy) (calls : List TermCall) : (calls.foldl termCall d).Tidy := by
  induction calls generalizing d with
  | nil => exact h
  | cons call calls ih => exact ih (tidy_termCall h call)

theorem tidy_guiCall (h : d.Tidy) (call : GuiCall) : (d.guiCall call).Tidy := by
  unfold guiCall
  split
  · exact h
  · cases call with
    | output call => exact tidy_termCall h call
    | moveFocusedWindow dx dy => exact WindowManager.Tidy.moveFocusedWindow h dx dy
    | registerApp label action => exact h
    | halt => exact h

theorem tidy_guiCalls (h : d.Tidy) (calls : List GuiCall) : (calls.foldl guiCall d).Tidy := by
  induction calls generalizing d with
  | nil => exact h
  | cons call calls ih => exact ih (tidy_guiCall h call)

theorem tidy_terminalCreate (h : ∀ w ∈ d.wm.windows, w.Open) (x y : ℤ) :
    (d.terminalCreate x y).Tidy := by
  have hcreated : (d.wm.createWindow (utf8 "Terminal") x y termWidth termHeight).1.Tidy :=
    WindowManager.tidy_createWindow h (by decide) (by decide) (by decide) x y
  unfold terminalCreate
  exact hcreated.windowFill _

theorem tidy_terminalReopen (h : d.Tidy) : (d.terminalReopen scr).Tidy := by
  unfold terminalReopen
  split
  · rename_i hterm
    refine WindowManager.Tidy.focusWindow h ?_ _
    rintro hnil
    have hexists := hterm.2
    rw [WindowManager.windowExists, hnil] at hexists
    cases hexists
  · simp only [Tidy]
    exact tidy_terminalCreate h.windows _ _

theorem tidy_runStartAction (h : d.Tidy) (action : UInt8) : (d.runStartAction scr action).Tidy := by
  unfold runStartAction
  split
  · exact tidy_terminalReopen h
  split
  · exact h
  · exact h

theorem windows_ne_nil_of_shown (h : d.wm.shown ≠ []) : d.wm.windows ≠ [] := by
  intro hnil
  refine h ?_
  have hfind : ∀ id, d.wm.findWindow id = none := by
    intro id
    rw [WindowManager.findWindow, hnil]
    rfl
  rw [WindowManager.shown, List.filterMap_eq_nil_iff.mpr fun id _ => hfind id]
  rfl

theorem windows_ne_nil_of_hitTest {mx my : ℤ} {hit : ℕ × HitArea}
    (h : d.wm.hitTest mx my = some hit) : d.wm.windows ≠ [] := by
  obtain ⟨id, -, hid⟩ := List.exists_of_findSome?_eq_some h
  split at hid
  · cases hid
  · rename_i w hw
    exact List.ne_nil_of_mem (WindowManager.findWindow_mem hw)

theorem tidy_handleMouseDown (h : d.Tidy) (mx my : ℤ) (button : ℕ) :
    (d.handleMouseDown scr mx my button).Tidy := by
  unfold handleMouseDown
  split
  · exact h
  split
  · exact h
  split
  · split
    · rename_i menu _
      exact tidy_runStartAction (d := { d with menu }) h _
    · exact h
    · exact h
  · split
    · rename_i id hbar
      refine WindowManager.Tidy.focusWindow h (windows_ne_nil_of_shown fun hnil => ?_) id
      rw [taskbarHitTest, hnil] at hbar
      split at hbar <;> cases hbar
    · split
      · rename_i id hhit
        have hne := windows_ne_nil_of_hitTest hhit
        have hfocus := WindowManager.open_focusWindow h.windows hne id
        exact WindowManager.tidy_closeWindow hfocus.1 hfocus.2 id
      · rename_i id hhit
        exact (WindowManager.Tidy.focusWindow h (windows_ne_nil_of_hitTest hhit) id).startDrag id mx my
      · rename_i id hhit
        exact WindowManager.Tidy.focusWindow h (windows_ne_nil_of_hitTest hhit) id
      · exact h

theorem tidy_terminalHandleKey (h : d.Tidy) (scancode : UInt8) :
    (d.terminalHandleKey sh k scancode).2.Tidy := by
  unfold terminalHandleKey
  split
  · exact h
  split
  · exact h
  split
  · exact h
  dsimp only
  generalize (if d.term.shiftHeld then scancodeTableShift else scancodeTable)[scancode.toNat]?.getD 0
    = ascii
  split
  · exact h
  have hps := tidy_termCalls h (sh.psHandleKey k d ascii).2.1
  generalize List.foldl termCall d (sh.psHandleKey k d ascii).2.1 = d₁ at hps ⊢
  split
  · exact hps
  have hprompt : (if !d₁.term.promptShown then { d₁ with term := d₁.term.showPrompt }
      else d₁).Tidy := by
    split <;> exact hps
  generalize (if !d₁.term.promptShown then { d₁ with term := d₁.term.showPrompt } else d₁) = d₂
    at hprompt ⊢
  split
  · have hran := tidy_guiCalls (d := { d₂ with term := d₂.term.putchar 10 }) hprompt
      (sh.processLine (sh.psHandleKey k d ascii).1 { d₂ with term := d₂.term.putchar 10 }
        (d₂.term.putchar 10).inputLine).2
    split
    · split <;> exact hran
    · split <;> exact hprompt
  split
  · split <;> exact hprompt
  split <;> exact hprompt

theorem tidy_handleKeyPress (h : d.Tidy) (scancode : UInt8) :
    (d.handleKeyPress sh k scancode).2.Tidy := by
  unfold handleKeyPress
  split
  · exact h
  split
  · exact tidy_terminalHandleKey h scancode
  · exact h

theorem tidy_handleEvent (h : d.Tidy) (ev : GuiEvent) : (d.handleEvent scr sh k ev).2.Tidy := by
  unfold handleEvent
  split
  · exact h
  cases ev with
  | mouseDown x y button => exact tidy_handleMouseDown h x y button
  | mouseUp x y =>
    simp only [handleMouseUp]
    split
    · exact WindowManager.Tidy.same h rfl rfl fun hd => hd
    · exact h
  | mouseMove x y =>
    simp only [handleMouseMove]
    split
    · exact WindowManager.Tidy.dragTo h x y
    · exact h
  | keyPress scancode => exact tidy_handleKeyPress h scancode
  | keyRelease scancode => exact tidy_handleKeyPress h scancode

theorem tidy_renderRow (h : d.Tidy) (c : Compositor) (row : ℕ) : (d.renderRow font c row).1.Tidy := by
  simp only [renderRow]
  split
  · exact h
  · simp only [Tidy]
    exact WindowManager.Tidy.renderRowsDirect h _ _ _ _ _ _

theorem tidy_terminalRender (h : d.Tidy) (c : Compositor) : (d.terminalRender font c).1.Tidy := by
  have hrows : ∀ (rows : List ℕ) (s : Desk × Compositor), s.1.Tidy →
      (rows.foldl (fun s row => renderRow font s.1 s.2 row) s).1.Tidy := by
    intro rows
    induction rows with
    | nil => exact fun _ hs => hs
    | cons row rows ih => exact fun s hs => ih _ (tidy_renderRow hs s.2 row)
  simp only [terminalRender]
  split
  · exact h
  split
  · exact h
  · have hs := hrows (List.range termRows) (d, c) h
    generalize (List.range termRows).foldl (fun s row => renderRow font s.1 s.2 row) (d, c) = s
      at hs ⊢
    simp only [Tidy]
    split
    · exact WindowManager.Tidy.windowFillRect hs _ _ _ _ _ _
    · exact hs

/-- The desktop of `gui_init`. -/
theorem tidy_deskInit (scr : Screen) : (Gui.deskInit scr).Tidy := by
  have hcreated := tidy_terminalCreate
    (d := ⟨WindowManager.init, StartMenu.init, Terminal.init, false⟩)
    (fun w hw => absurd hw List.not_mem_nil) (((scr.width - 648) / 2 : ℕ) : ℤ)
    (((scr.height - (680 + taskbarHeight)) / 2 : ℕ) : ℤ)
  simp only [Gui.deskInit, Tidy]
  exact hcreated

end Desk

end VernisOS
