import VernisOS.Gui

/-!
# The layout of the desktop

Where a click lands and what a move does is decided by the windows, their order, the drag in
progress, the start menu and which window is the terminal (`Desk.layout`). Damage, flags, text
and pixels have no part in it : two desktops with one layout have one layout after every mouse
event (`Desk.layout_reacts`), and drawing a frame keeps the layout (`Gui.layout_drawPath`).
-/

namespace VernisOS

variable {κ : Type}

/-! ## The layout and the operations -/

namespace WindowManager

/-- The window manager without damage, flags and contents. -/
def bare (wm : WindowManager) : WindowManager :=
  { wm with
    winsDirty := false, dmg := ⟨0, 0, 0, 0⟩, taskbarDirty := false, contentBuf := fun _ _ => 0 }

variable {wm wm' : WindowManager}

@[simp] theorem bare_damageAdd (r : Rect) : (wm.damageAdd r).bare = wm.bare := by
  unfold damageAdd
  split
  · rfl
  · split <;> rfl

@[simp] theorem bare_bare : wm.bare.bare = wm.bare :=
  rfl

theorem bare_foldl_damageAdd (ws : List GuiWindow) :
    (ws.foldl (fun wm w => if w.visible then wm.damageAdd w.rect else wm) wm).bare = wm.bare := by
  induction ws generalizing wm with
  | nil => rfl
  | cons w ws ih =>
    rw [List.foldl_cons, ih]
    split
    · exact bare_damageAdd w.rect
    · rfl

theorem bare_createWindow (title : List UInt8) (x y : ℤ) (w h : ℕ) :
    (wm.createWindow title x y w h).1.bare = (wm.bare.createWindow title x y w h).1.bare := by
  change (damageAdd _ _).bare = (damageAdd _ _).bare
  rw [bare_damageAdd, bare_damageAdd]
  rfl

theorem bare_focusWindow (wm : WindowManager) (id : ℕ) :
    (wm.focusWindow id).bare = (wm.bare.focusWindow id).bare := by
  change bare (List.foldl _ _ _) = bare (List.foldl _ _ _)
  rw [bare_foldl_damageAdd, bare_foldl_damageAdd]
  rfl

theorem bare_moveWindow (id : ℕ) (x y : ℤ) :
    (wm.moveWindow id x y).bare = (wm.bare.moveWindow id x y).bare := by
  have hfind : wm.bare.findWindow id = wm.findWindow id := rfl
  unfold moveWindow
  rw [hfind]
  cases wm.findWindow id with
  | none => rfl
  | some w =>
    change (damageAdd _ _).bare = (damageAdd _ _).bare
    simp only [bare_damageAdd]
    rfl

theorem bare_removeWindow (wm : WindowManager) (id : ℕ) :
    (wm.removeWindow id).bare = (wm.bare.removeWindow id).bare := by
  have hz : wm.bare.zOrder = wm.zOrder := rfl
  simp only [removeWindow, hz]
  cases (wm.zOrder.filter (· ≠ id)).getLast? <;> rfl

theorem bare_closeWindow (wm : WindowManager) (id : ℕ) :
    (wm.closeWindow id).bare = (wm.bare.closeWindow id).bare := by
  have hfind : wm.bare.findWindow id = wm.findWindow id := rfl
  unfold closeWindow
  rw [hfind]
  cases wm.findWindow id with
  | none => exact bare_removeWindow wm id
  | some w =>
    simp only
    rw [bare_removeWindow, bare_damageAdd, bare_removeWindow (wm.bare.damageAdd w.rect),
      bare_damageAdd, bare_bare]

theorem bare_startDrag (wm : WindowManager) (id : ℕ) (mx my : ℤ) :
    (wm.startDrag id mx my).bare = (wm.bare.startDrag id mx my).bare := by
  have hfind : wm.bare.findWindow id = wm.findWindow id := rfl
  unfold startDrag
  rw [hfind]
  cases wm.findWindow id <;> rfl

theorem bare_dragTo (mx my : ℤ) : (wm.dragTo mx my).bare = (wm.bare.dragTo mx my).bare := by
  have hdrag : wm.bare.dragging = wm.dragging := rfl
  unfold dragTo
  rw [hdrag]
  cases wm.dragging with
  | none => rfl
  | some id => exact bare_moveWindow id _ _

theorem bare_windowFill (id : ℕ) : (wm.windowFill id).bare = wm.bare := by
  unfold windowFill
  split <;> rfl

end WindowManager

namespace Terminal

/-- The terminal without its text. -/
def bare (t : Terminal) : Terminal :=
  { init with windowId := t.windowId, initialized := t.initialized }

variable {t : Terminal}

@[simp] theorem bare_newline : t.newline.bare = t.bare := by
  simp only [newline]
  split <;> rfl

@[simp] theorem bare_putchar (ch : UInt8) : (t.putchar ch).bare = t.bare := by
  have hnew : ∀ u : Terminal, u.newline.markRow.bare = u.bare := fun u => u.bare_newline
  simp only [putchar]
  split
  · rfl
  split
  · exact hnew _
  split
  · rfl
  split
  · split <;> rfl
  · split
    · exact bare_newline
    · rfl

@[simp] theorem bare_writeString (s : List UInt8) : (t.writeString s).bare = t.bare := by
  induction s generalizing t with
  | nil => rfl
  | cons ch s ih =>
    rw [writeString]
    split
    · rfl
    · rw [ih, bare_putchar]

@[simp] theorem bare_setColor (fg bg : UInt8) : (t.setColor fg bg).bare = t.bare :=
  rfl

@[simp] theorem bare_showPrompt : t.showPrompt.bare = t.bare := by
  change (writeString _ _).bare = _
  simp only [bare_writeString, bare_setColor]

@[simp] theorem bare_welcome : t.welcome.bare = t.bare := by
  simp only [welcome, bare_showPrompt, bare_writeString, bare_setColor]

@[simp] theorem bare_clear : t.clear.bare = t.bare := by
  unfold clear
  split <;> rfl

end Terminal

namespace StartMenu

/-- The start menu without the flag that it is to be drawn again. -/
def bare (m : StartMenu) : StartMenu :=
  { m with dirty := false }

theorem bare_close (m : StartMenu) : m.close.bare = m.bare.close.bare := by
  have hopen : m.bare.isOpen = m.isOpen := rfl
  simp only [close, hopen]
  cases m.isOpen <;> rfl

theorem hitItem_bare (scr : Screen) (m : StartMenu) (mx my : ℤ) :
    (m.bare.hitItem scr mx my).1 = (m.hitItem scr mx my).1 ∧
      (m.bare.hitItem scr mx my).2.bare = (m.hitItem scr mx my).2.bare := by
  have hopen : m.bare.isOpen = m.isOpen := rfl
  have happs : m.bare.apps = m.apps := rfl
  simp only [hitItem, hopen, happs]
  split
  · exact ⟨rfl, rfl⟩
  split
  · exact ⟨rfl, rfl⟩
  split <;> exact ⟨rfl, rfl⟩

end StartMenu

namespace Desk

/-- What of the desktop decides where a click lands and what a move does. -/
def layout (d : Desk) : Desk :=
  ⟨d.wm.bare, d.menu.bare, d.term.bare, d.down⟩

variable {d : Desk} {scr : Screen}

theorem layout_terminalCreate (x y : ℤ) :
    (d.terminalCreate x y).layout = (d.layout.terminalCreate x y).layout := by
  simp only [terminalCreate, layout, WindowManager.bare_windowFill]
  rw [WindowManager.bare_createWindow]
  rfl

theorem layout_terminalReopen :
    (d.terminalReopen scr).layout = (d.layout.terminalReopen scr).layout := by
  have hinit : d.layout.term.initialized = d.term.initialized := rfl
  have hexists : d.layout.wm.windowExists d.layout.term.windowId =
      d.wm.windowExists d.term.windowId := rfl
  simp only [terminalReopen, hinit, hexists]
  split
  · simp only [layout]
    rw [WindowManager.bare_focusWindow]
    rfl
  · have := layout_terminalCreate (d := d) (((scr.width - termWidth) / 2 : ℕ) : ℤ)
      (((scr.height - (termHeight + 32)) / 2 : ℕ) : ℤ)
    simp only [layout, Terminal.bare_welcome, Desk.mk.injEq] at this ⊢
    exact this

theorem layout_runStartAction (action : UInt8) :
    (d.runStartAction scr action).layout = (d.layout.runStartAction scr action).layout := by
  unfold runStartAction
  split
  · exact layout_terminalReopen
  · split <;> rfl

/-- A change of the window manager that its layout decides. -/
theorem layout_wm {f : WindowManager → WindowManager}
    (hf : (f d.wm).bare = (f d.wm.bare).bare) :
    ({ d with wm := f d.wm } : Desk).layout =
      ({ d.layout with wm := f d.layout.wm } : Desk).layout := by
  simp only [layout, hf]
  rfl

theorem layout_handleMouseDown (mx my : ℤ) (button : ℕ) :
    (d.handleMouseDown scr mx my button).layout =
      (d.layout.handleMouseDown scr mx my button).layout := by
  have hopen : d.layout.menu.isOpen = d.menu.isOpen := rfl
  have htask : taskbarHitTest scr d.layout.wm mx my = taskbarHitTest scr d.wm mx my := rfl
  have hhit : d.layout.wm.hitTest mx my = d.wm.hitTest mx my := rfl
  unfold handleMouseDown
  split
  · rfl
  split
  · rfl
  rw [hopen, htask, hhit]
  split
  · -- an open menu takes the click
    obtain ⟨hres, hmenu⟩ := StartMenu.hitItem_bare scr d.menu mx my
    change (d.layout.menu.hitItem scr mx my).1 = _ at hres
    change (d.layout.menu.hitItem scr mx my).2.bare = _ at hmenu
    cases h : d.menu.hitItem scr mx my with
    | mk res menu =>
      cases h' : d.layout.menu.hitItem scr mx my with
      | mk res' menu' =>
        rw [h, h'] at hres hmenu
        obtain rfl : res' = res := hres
        have hsame : ({ d.layout with menu := menu' } : Desk).layout =
            ({ d with menu } : Desk).layout := by
          change Desk.mk d.wm.bare menu'.bare d.term.bare d.down = ⟨_, menu.bare, _, _⟩
          rw [hmenu]
        match res' with
        | some (some action) =>
          simp only
          rw [layout_runStartAction, ← hsame, ← layout_runStartAction]
        | some none => exact hsame.symm
        | none =>
          change Desk.mk d.wm.bare menu.close.bare d.term.bare d.down =
            ⟨_, menu'.close.bare, _, _⟩
          rw [StartMenu.bare_close menu, StartMenu.bare_close menu', hmenu]
          rfl
  · split
    · exact layout_wm (f := fun wm => wm.focusWindow _) (WindowManager.bare_focusWindow _ _)
    · split
      · refine layout_wm (f := fun wm => (wm.focusWindow _).closeWindow _) ?_
        rw [WindowManager.bare_closeWindow, WindowManager.bare_focusWindow,
          WindowManager.bare_closeWindow (d.wm.bare.focusWindow _)]
      · refine layout_wm (f := fun wm => (wm.focusWindow _).startDrag _ mx my) ?_
        rw [WindowManager.bare_startDrag, WindowManager.bare_focusWindow,
          WindowManager.bare_startDrag (d.wm.bare.focusWindow _)]
      · exact layout_wm (f := fun wm => wm.focusWindow _) (WindowManager.bare_focusWindow _ _)
      · rfl

theorem layout_handleMouseUp : d.handleMouseUp.layout = d.layout.handleMouseUp.layout := by
  have hdrag : d.layout.wm.isDragging = d.wm.isDragging := rfl
  unfold handleMouseUp
  rw [hdrag]
  split <;> rfl

theorem layout_handleMouseMove (mx my : ℤ) :
    (d.handleMouseMove mx my).layout = (d.layout.handleMouseMove mx my).layout := by
  have hdrag : d.layout.wm.isDragging = d.wm.isDragging := rfl
  unfold handleMouseMove
  rw [hdrag]
  split
  · exact layout_wm (f := fun wm => wm.dragTo mx my) (WindowManager.bare_dragTo mx my)
  · rfl

/-! ## Mouse events -/

/-- The handler of a mouse event. -/
def react (scr : Screen) (d : Desk) (ev : GuiEvent) : Desk :=
  if d.down then d
  else
    match ev with
    | .mouseDown x y button => d.handleMouseDown scr x y button
    | .mouseUp _ _ => d.handleMouseUp
    | .mouseMove x y => d.handleMouseMove x y
    | _ => d

theorem layout_react (ev : GuiEvent) :
    (d.react scr ev).layout = (d.layout.react scr ev).layout := by
  have hdown : d.layout.down = d.down := rfl
  unfold react
  rw [hdown]
  split
  · rfl
  · split
    · exact layout_handleMouseDown _ _ _
    · exact layout_handleMouseUp
    · exact layout_handleMouseMove _ _
    · rfl

/-- The handlers of several mouse events. -/
def reacts (scr : Screen) (d : Desk) (evs : List GuiEvent) : Desk :=
  evs.foldl (react scr) d

@[simp] theorem reacts_nil : d.reacts scr [] = d :=
  rfl

@[simp] theorem reacts_cons (ev : GuiEvent) (evs : List GuiEvent) :
    d.reacts scr (ev :: evs) = (d.react scr ev).reacts scr evs :=
  rfl

theorem reacts_append (evs evs' : List GuiEvent) :
    d.reacts scr (evs ++ evs') = (d.reacts scr evs).reacts scr evs' :=
  List.foldl_append

theorem layout_reacts (scr : Screen) {d d' : Desk} (h : d.layout = d'.layout)
    (evs : List GuiEvent) :
    (d.reacts scr evs).layout = (d'.reacts scr evs).layout := by
  induction evs generalizing d d' with
  | nil => exact h
  | cons ev evs ih =>
    refine ih ?_
    rw [layout_react, h, ← layout_react]

theorem layout_termCall (call : TermCall) : (d.termCall call).layout = d.layout := by
  cases call with
  | putchar ch => simp only [termCall, layout, Terminal.bare_putchar]
  | clear => simp only [termCall, layout, Terminal.bare_clear]

theorem layout_termCalls (calls : List TermCall) :
    (calls.foldl termCall d).layout = d.layout := by
  induction calls generalizing d with
  | nil => rfl
  | cons call calls ih => rw [List.foldl_cons, ih, layout_termCall]

/-! ## Drawing -/

theorem layout_renderRow (font : ℕ → UInt8) (c : Compositor) (row : ℕ) :
    (d.renderRow font c row).1.layout = d.layout := by
  simp only [renderRow]
  split
  · rfl
  · simp only [layout, WindowManager.renderRowsDirect]
    split <;> rfl

theorem layout_terminalRender (font : ℕ → UInt8) (c : Compositor) :
    (d.terminalRender font c).1.layout = d.layout := by
  have hrows : ∀ (rows : List ℕ) (s : Desk × Compositor),
      (rows.foldl (fun s row => renderRow font s.1 s.2 row) s).1.layout = s.1.layout := by
    intro rows
    induction rows with
    | nil => exact fun _ => rfl
    | cons row rows ih =>
      intro s
      rw [List.foldl_cons, ih, layout_renderRow]
  simp only [terminalRender]
  split
  · rfl
  split
  · rfl
  · have hd := hrows (List.range termRows) (d, c)
    generalize (List.range termRows).foldl (fun s row => renderRow font s.1 s.2 row) (d, c) = s
      at hd ⊢
    rw [← hd]
    simp only [layout]
    split
    · simp only [WindowManager.windowFillRect]
      split <;> rfl
    · rfl

end Desk

namespace WindowManager

variable {wm : WindowManager}

theorem bare_takeDamage : wm.takeDamage.2.bare = wm.bare := by
  unfold takeDamage
  split <;> rfl

end WindowManager

namespace Gui

variable {scr : Screen} {font : ℕ → UInt8} {shape : CursorShape} {g : Gui κ} {now : BitVec 32}

/-- What drawing leaves alone : the layout, the mouse and the events. -/
structure SameInput (g g' : Gui κ) : Prop where
  layout : g'.desk.layout = g.desk.layout
  mouse : g'.mouse = g.mouse
  prevButtons : g'.prevButtons = g.prevButtons
  queue : g'.queue = g.queue
  pending : g'.pending = g.pending
  lastFrameTick : g'.lastFrameTick = g.lastFrameTick

theorem SameInput.refl (g : Gui κ) : SameInput g g :=
  ⟨rfl, rfl, rfl, rfl, rfl, rfl⟩

theorem SameInput.trans {g g' g'' : Gui κ} (h : SameInput g g') (h' : SameInput g' g'') :
    SameInput g g'' where
  layout := h'.layout.trans h.layout
  mouse := h'.mouse.trans h.mouse
  prevButtons := h'.prevButtons.trans h.prevButtons
  queue := h'.queue.trans h.queue
  pending := h'.pending.trans h.pending
  lastFrameTick := h'.lastFrameTick.trans h.lastFrameTick

theorem sameInput_finish (g : Gui κ) : SameInput g (g.finish scr shape) :=
  ⟨rfl, rfl, rfl, rfl, rfl, rfl⟩

theorem sameInput_composeMenu (g : Gui κ) : SameInput g (g.composeMenu scr font now) := by
  refine ⟨?_, rfl, rfl, rfl, rfl, rfl⟩
  have hwm : (g.composeMenu scr font now).desk.wm.bare = g.desk.wm.bare := by
    change WindowManager.bare (WindowManager.takeDamage _).2 = _
    rw [WindowManager.bare_takeDamage]
    rfl
  exact congrArg (fun wm => Desk.mk wm g.desk.menu.bare g.desk.term.bare g.desk.down) hwm

theorem sameInput_composeLayout (g : Gui κ) : SameInput g (g.composeLayout scr font now) := by
  refine ⟨?_, rfl, rfl, rfl, rfl, rfl⟩
  have hwm : (g.composeLayout scr font now).desk.wm.bare = g.desk.wm.bare := by
    change WindowManager.bare (WindowManager.takeDamage _).2 = _
    rw [WindowManager.bare_takeDamage]
    rfl
  exact congrArg (fun wm => Desk.mk wm g.desk.menu.bare g.desk.term.bare g.desk.down) hwm

theorem sameInput_composeTyping (g : Gui κ) : SameInput g (g.composeTyping scr font now) := by
  simp only [composeTyping]
  split <;> exact ⟨rfl, rfl, rfl, rfl, rfl, rfl⟩

theorem sameInput_drawPath (g : Gui κ) (p : Path) :
    SameInput g (g.drawPath scr font shape now p) := by
  cases p with
  | idle => exact SameInput.refl g
  | throttled => exact SameInput.refl g
  | cursorOnly =>
    simp only [drawPath, tickCursorOnly]
    split <;> exact ⟨rfl, rfl, rfl, rfl, rfl, rfl⟩
  | menu => exact (sameInput_composeMenu g).trans (sameInput_finish _)
  | layout => exact (sameInput_composeLayout g).trans (sameInput_finish _)
  | typing => exact (sameInput_composeTyping g).trans (sameInput_finish _)

end Gui

end VernisOS
