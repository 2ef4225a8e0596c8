import VernisOS.Cursor
import VernisOS.GuiTerminal

/-!
# The GUI

`gui/event.rs`, `gui/mod.rs` and `mouse.rs` : interrupts turn mouse packets and scancodes into
events, and `gui_main_loop_tick` handles them, decides how much of the frame to compose again,
paints the cursor and presents. Button events go through a queue, while only the latest move is
kept, and it is handled after them.
-/

open Bytes

namespace VernisOS

/-- `EventKind`, with what the event carries. -/
inductive GuiEvent
  | keyPress (scancode : UInt8)
  | keyRelease (scancode : UInt8)
  | mouseMove (x y : ℤ)
  | mouseDown (x y : ℤ) (button : ℕ)
  | mouseUp (x y : ℤ)
  deriving DecidableEq

/-- `EVENT_QUEUE_SIZE`. -/
def eventQueueSize : ℕ := 256

/-- `GUI_MAX_EVENTS_PER_TICK`. -/
def guiMaxEventsPerTick : ℕ := 64

/-- `MouseState`. -/
structure Mouse where
  x : ℤ
  y : ℤ
  buttons : UInt8

namespace Mouse

/-- `mouse_init`. -/
def init (scr : Screen) : Mouse :=
  ⟨(scr.width / 2 : ℕ), (scr.height / 2 : ℕ), 0⟩

/-- A coordinate clamped to the screen. -/
def clamp (v : ℤ) (size : ℕ) : ℤ :=
  let v := if v < 0 then 0 else v
  if v ≥ size then size - 1 else v

/-- `mouse_handle_packet`. -/
def handlePacket (scr : Screen) (m : Mouse) (flags : UInt8) (dx dy : ℤ) : Mouse :=
  ⟨clamp (m.x + dx) scr.width, clamp (m.y - dy) scr.height, flags &&& 0x07⟩

end Mouse

/-- The statics of the GUI, with those of the shell behind the terminal. `lastCursor` is
`LAST_CURSOR_X` and `LAST_CURSOR_Y`. -/
structure Gui (κ : Type) where
  desk : Desk
  shell : κ
  mouse : Mouse
  prevButtons : UInt8
  queue : List GuiEvent
  pending : Option (ℤ × ℤ)
  comp : Compositor
  cursor : Cursor
  lastFrameTick : BitVec 32
  lastCursor : ℤ × ℤ
  lastFullComposeTick : BitVec 32

namespace Gui

variable {κ : Type}

/-! ## Events -/

/-- `event_push` : a full queue drops the event. -/
def eventPush (g : Gui κ) (ev : GuiEvent) : Gui κ :=
  if g.queue.length + 1 = eventQueueSize then g else { g with queue := g.queue ++ [ev] }

/-- `event_pop` : the pending move comes after the queue. -/
def eventPop (g : Gui κ) : Option (GuiEvent × Gui κ) :=
  match g.queue with
  | ev :: queue => some (ev, { g with queue })
  | [] =>
    match g.pending with
    | some (x, y) => some (.mouseMove x y, { g with pending := none })
    | none => none

/-- `gui_handle_key`. -/
def handleKey (g : Gui κ) (scancode pressed : UInt8) : Gui κ :=
  g.eventPush (if pressed ≠ 0 then .keyPress scancode else .keyRelease scancode)

/-- `gui_push_mouse_button` for one bit of the buttons, if it changed. -/
def buttonEdge (prev buttons : UInt8) (x y : ℤ) (bit : ℕ) : Option GuiEvent :=
  match prev.toNat.testBit bit, buttons.toNat.testBit bit with
  | false, true => some (.mouseDown x y bit)
  | true, false => some (.mouseUp x y)
  | _, _ => none

/-- The button events of a packet, in the order they are pushed. -/
def buttonEdges (prev buttons : UInt8) (x y : ℤ) : List GuiEvent :=
  [0, 1, 2].filterMap (buttonEdge prev buttons x y)

/-- `gui_handle_mouse`. -/
def handleMouse (scr : Screen) (g : Gui κ) (flags : UInt8) (dx dy : ℤ) : Gui κ :=
  let mouse := g.mouse.handlePacket scr flags dx dy
  let g := { g with mouse, pending := some (mouse.x, mouse.y) }
  let g := (buttonEdges g.prevButtons mouse.buttons mouse.x mouse.y).foldl eventPush g
  { g with prevButtons := mouse.buttons }

end Gui

/-! ## Handlers -/

namespace Desk

/-- `run_start_action`. -/
def runStartAction (scr : Screen) (d : Desk) (action : UInt8) : Desk :=
  if action = actTerminal then d.terminalReopen scr
  else if action = actRestart ∨ action = actShutdown then { d with down := true }
  else d

/-- `handle_mouse_down`. A click into the content of a window reaches its widgets only. -/
def handleMouseDown (scr : Screen) (d : Desk) (mx my : ℤ) (button : ℕ) : Desk :=
  if button ≠ 0 then d
  else if StartMenu.hitStartButton scr mx my then { d with menu := d.menu.toggle }
  else if d.menu.isOpen then
    match d.menu.hitItem scr mx my with
    | (some (some action), menu) => runStartAction scr { d with menu } action
    | (some none, menu) => { d with menu }
    | (none, menu) => { d with menu := menu.close }
  else
    match taskbarHitTest scr d.wm mx my with
    | some id => { d with wm := d.wm.focusWindow id }
    | none =>
      match d.wm.hitTest mx my with
      | some (id, .closeButton) => { d with wm := (d.wm.focusWindow id).closeWindow id }
      | some (id, .titleBar) => { d with wm := (d.wm.focusWindow id).startDrag id mx my }
      | some (id, .content) => { d with wm := d.wm.focusWindow id }
      | none => d

/-- `handle_mouse_up`. -/
def handleMouseUp (d : Desk) : Desk :=
  if d.wm.isDragging then { d with wm := d.wm.stopDrag } else d

/-- `handle_mouse_move`. -/
def handleMouseMove (d : Desk) (mx my : ℤ) : Desk :=
  if d.wm.isDragging then { d with wm := d.wm.dragTo mx my } else d

variable {κ : Type}

/-- `handle_key_press`. -/
def handleKeyPress (sh : GuiShell κ) (k : κ) (d : Desk) (scancode : UInt8) : κ × Desk :=
  match d.wm.getFocusedId with
  | none => (k, d)
  | some id =>
    if d.term.initialized ∧ d.term.windowId = id then d.terminalHandleKey sh k scancode else (k, d)

/-- The handler of an event. Nothing runs once the machine is down. -/
def handleEvent (scr : Screen) (sh : GuiShell κ) (k : κ) (d : Desk) (ev : GuiEvent) : κ × Desk :=
  if d.down then (k, d)
  else
    match ev with
    | .mouseDown x y button => (k, d.handleMouseDown scr x y button)
    | .mouseUp _ _ => (k, d.handleMouseUp)
    | .mouseMove x y => (k, d.handleMouseMove x y)
    | .keyPress scancode => d.handleKeyPress sh k scancode
    | .keyRelease scancode => d.handleKeyPress sh k scancode

end Desk

/-- `had_events`, `had_mouse_move`, `had_mouse_button` and `had_key`. -/
structure Had where
  events : Bool
  mouseMove : Bool
  mouseButton : Bool
  key : Bool

namespace Had

/-- Nothing has been handled. -/
def none : Had := ⟨false, false, false, false⟩

/-- Notes an event. -/
def note (h : Had) : GuiEvent → Had
  | .mouseDown _ _ _ => { h with events := true, mouseButton := true }
  | .mouseUp _ _ => { h with events := true, mouseButton := true }
  | .mouseMove _ _ => { h with events := true, mouseMove := true }
  | .keyPress _ => { h with events := true, key := true }
  | .keyRelease _ => { h with events := true }

end Had

namespace Gui

variable {κ : Type}

/-- The event loop of a tick, at most `n` events. -/
def processEvents (scr : Screen) (sh : GuiShell κ) : ℕ → Gui κ → Had → Gui κ × Had
  | 0, g, had => (g, had)
  | n + 1, g, had =>
    match g.eventPop with
    | none => (g, had)
    | some (ev, g) =>
      let r := g.desk.handleEvent scr sh g.shell ev
      processEvents scr sh n { g with shell := r.1, desk := r.2 } (had.note ev)

/-! ## Composing -/

/-- `partial_compose_single_window`, `none` where it returns false. What it drew before is in
the compositor it leaves. -/
def partialComposeSingleWindow (scr : Screen) (font : ℕ → UInt8) (d : Desk) (c : Compositor) :
    Compositor × Bool :=
  if d.menu.isOpen then (c, false)
  else if d.wm.zOrder.length ≠ 1 then (c, false)
  else
    match d.wm.windows.find? (·.visible) with
    | none => (c, false)
    | some w =>
      if w.y + w.height > scr.barY then (c, false)
      else
        match c.glassRestore scr w.id w.rect with
        | some c =>
          match d.wm.blitContentById scr c w.id with
          | some c => (c, true)
          | none => (c, false)
        | none =>
          match c.wallpaperRestoreRect scr w.rect with
          | none => (c, false)
          | some c =>
            match d.wm.composeById scr font c w.id with
            | some c => (c, true)
            | none => (c, false)

/-- The whole frame : the wallpaper, the windows and the taskbar. -/
def composeFull (scr : Screen) (font : ℕ → UInt8) (d : Desk) (c : Compositor) (doBlur : Bool) :
    Compositor :=
  desktopDrawTaskbar scr font d.wm d.menu
    (d.wm.composeAll scr font (desktopDrawBackground scr c) doBlur)

/-- The damage with the rectangle of a cursor that is on the screen. -/
def coverCursor (r : Rect) (at_ : ℤ × ℤ) : Rect :=
  if at_.1 ≥ 0 ∧ at_.2 ≥ 0 then
    let x1 := max (r.x + r.w) (at_.1 + 16)
    let y1 := max (r.y + r.h) (at_.2 + 24)
    let x := min r.x at_.1
    let y := min r.y at_.2
    ⟨x, y, (x1 - x).toNat, (y1 - y).toNat⟩
  else r

/-- The last steps of a tick that composed : the cursor at the mouse, and a present. -/
def finish (scr : Screen) (shape : CursorShape) (g : Gui κ) : Gui κ :=
  let drawn := g.cursor.drawFresh scr shape g.comp g.mouse.x g.mouse.y
  { g with
    cursor := drawn.1
    lastCursor := (g.mouse.x, g.mouse.y)
    comp := drawn.2.present scr }

/-- `gui_main_loop_tick` where only the mouse moved. -/
def tickCursorOnly (scr : Screen) (shape : CursorShape) (g : Gui κ) : Gui κ :=
  if (g.mouse.x, g.mouse.y) = g.lastCursor then g
  else
    let moved := g.cursor.moveIncremental scr shape g.comp g.mouse.x g.mouse.y
    let comp := moved.2.1
    let comp := (moved.2.2.1.map (comp.presentRect scr)).getD comp
    let comp := (moved.2.2.2.map (comp.presentRect scr)).getD comp
    { g with cursor := moved.1, comp, lastCursor := (g.mouse.x, g.mouse.y) }

/-- The composing of `gui_main_loop_tick` after the start menu opened or closed. -/
def composeMenu (scr : Screen) (font : ℕ → UInt8) (now : BitVec 32) (g : Gui κ) : Gui κ :=
  { g with
    comp := composeFull scr font g.desk g.comp true
    desk := { g.desk with wm := g.desk.wm.windowsRendered.takeDamage.2.takeTaskbarDirty.2 }
    lastFullComposeTick := now }

/-- The composing of `gui_main_loop_tick` after a change of the layout. -/
def composeLayout (scr : Screen) (font : ℕ → UInt8) (now : BitVec 32) (g : Gui κ) : Gui κ :=
  let doBlur := !g.desk.wm.isDragging
  let bar := g.desk.wm.takeTaskbarDirty
  let damage := bar.2.takeDamage
  let d := { g.desk with wm := damage.2 }
  let comp :=
    match damage.1 with
    | some r =>
      let r := coverCursor (coverCursor r g.lastCursor) (g.mouse.x, g.mouse.y)
      match d.wm.composePartial scr font g.comp r doBlur with
      | some c =>
        if bar.1 ∨ WindowManager.rectHitsTaskbar scr r.y r.h taskbarHeight then
          desktopDrawTaskbar scr font d.wm d.menu c
        else c
      | none => composeFull scr font d g.comp doBlur
    | none =>
      g.cursor.clearOld (if bar.1 then desktopDrawTaskbar scr font d.wm d.menu g.comp else g.comp)
  { g with
    comp
    desk := { d with wm := d.wm.windowsRendered }
    lastFullComposeTick := now }

/-- The composing of `gui_main_loop_tick` after typing or terminal output. -/
def composeTyping (scr : Screen) (font : ℕ → UInt8) (now : BitVec 32) (g : Gui κ) : Gui κ :=
  let part := partialComposeSingleWindow scr font g.desk g.comp
  if part.2 then { g with comp := part.1 }
  else
    { g with
      comp := composeFull scr font g.desk part.1 true
      desk := { g.desk with wm := g.desk.wm.windowsRendered }
      lastFullComposeTick := now }

/-- What a tick has to draw. -/
inductive Path
  | idle
  | cursorOnly
  | menu
  | throttled
  | layout
  | typing
  deriving DecidableEq

/-- The branch that `gui_main_loop_tick` takes once the events are handled. -/
def path (now : BitVec 32) (g : Gui κ) (had : Had) (termWasDirty menuChanged : Bool) : Path :=
  let winsDirty := g.desk.wm.winsDirty
  let dragging := g.desk.wm.isDragging
  if !(had.events || termWasDirty || winsDirty || menuChanged) then .idle
  else if had.mouseMove && !had.mouseButton && !menuChanged && !had.key && !termWasDirty &&
      !dragging && !winsDirty then .cursorOnly
  else if menuChanged then .menu
  else if had.mouseButton || winsDirty then
    if dragging && (now - g.lastFullComposeTick).toNat < 4 then .throttled else .layout
  else if had.key || termWasDirty then .typing
  else .idle

/-- The tick up to the choice of the branch : the shell's own work, the events, the content of
the terminal. -/
def beforeCompose (scr : Screen) (font : ℕ → UInt8) (sh : GuiShell κ) (now : BitVec 32)
    (g : Gui κ) : Gui κ × Path :=
  let ran := processEvents scr sh guiMaxEventsPerTick { g with lastFrameTick := now } Had.none
  let g := ran.1
  if g.desk.down then (g, .idle)
  else
    let termWasDirty := g.desk.term.dirty
    let rendered := g.desk.terminalRender font g.comp
    let menuChanged := rendered.1.menu.takeDirty
    let g := { g with desk := { rendered.1 with menu := menuChanged.2 }, comp := rendered.2 }
    (g, g.path now ran.2 termWasDirty menuChanged.1)

/-- `cli_gui_tick`. -/
def cliGuiTick (sh : GuiShell κ) (now : BitVec 32) (g : Gui κ) : Gui κ :=
  let out := sh.guiTick g.shell g.desk now
  { g with shell := out.1, desk := out.2.foldl Desk.termCall g.desk }

/-- The drawing of a branch. -/
def drawPath (scr : Screen) (font : ℕ → UInt8) (shape : CursorShape) (now : BitVec 32)
    (g : Gui κ) : Path → Gui κ
  | .idle => g
  | .throttled => g
  | .cursorOnly => g.tickCursorOnly scr shape
  | .menu => (g.composeMenu scr font now).finish scr shape
  | .layout => (g.composeLayout scr font now).finish scr shape
  | .typing => (g.composeTyping scr font now).finish scr shape

/-- `gui_main_loop_tick` at a time : there is one frame for each tick of the timer. -/
def tick (scr : Screen) (font : ℕ → UInt8) (sh : GuiShell κ) (shape : CursorShape) (g : Gui κ)
    (now : BitVec 32) : Gui κ :=
  if g.desk.down then g
  else
    let g := g.cliGuiTick sh now
    if now - g.lastFrameTick = 0 then g
    else
      let ready := g.beforeCompose scr font sh now
      ready.1.drawPath scr font shape now ready.2

/-! ## Start and runs -/

/-- `BACK_BUFFER_MAX`. -/
def backBufferMax : ℕ := 8 * 1024 * 1024

/-- `compositor_init`, over whatever is in the memory of its buffers and on the screen. -/
def compositorInit (scr : Screen) (wallpaper glass framebuffer : Image) : Compositor where
  backBuffer _ := 0
  wallpaper
  wallpaperValid := false
  glass
  glassValid := false
  glassId := 0
  glassRect := ⟨0, 0, 0, 0⟩
  dirty := true
  dirtyRect := scr.rect
  framebuffer

/-- The desktop that `gui_init` sets up : a terminal in the middle of the screen. -/
def deskInit (scr : Screen) : Desk :=
  let d : Desk := ⟨WindowManager.init, StartMenu.init, Terminal.init, false⟩
  let d := d.terminalCreate (((scr.width - 648) / 2 : ℕ) : ℤ)
    (((scr.height - (680 + taskbarHeight)) / 2 : ℕ) : ℤ)
  { d with term := d.term.welcome }

/-- The GUI that `gui_init` sets up at a time, with the mouse where the packets since the boot
left it. -/
def start (scr : Screen) (wallpaper glass framebuffer : Image) (packets : List (UInt8 × ℤ × ℤ))
    (shell : κ) (now : BitVec 32) : Gui κ where
  desk := deskInit scr
  shell
  mouse := packets.foldl (fun m p => m.handlePacket scr p.1 p.2.1 p.2.2) (Mouse.init scr)
  prevButtons := 0
  queue := []
  pending := none
  comp := compositorInit scr wallpaper glass framebuffer
  cursor := Cursor.init
  lastFrameTick := now
  lastCursor := (-1, -1)
  lastFullComposeTick := 0

/-- `gui_init`. If the mode does not fit the region of the back buffer, the GUI stays off. -/
def init (scr : Screen) (bpp : ℕ) (wallpaper glass framebuffer : Image)
    (packets : List (UInt8 × ℤ × ℤ)) (shell : κ) (now : BitVec 32) : Option (Gui κ) :=
  if scr.width * (bpp / 8) * scr.height > backBufferMax then none
  else some (start scr wallpaper glass framebuffer packets shell now)

end Gui

/-- What happens to the GUI : a mouse packet, a scancode, output to the terminal, a tick. -/
inductive GuiInput
  | mouse (flags : UInt8) (dx dy : ℤ)
  | key (scancode pressed : UInt8)
  | output (call : TermCall)
  | tick (now : BitVec 32)

/-- A shell that runs nothing and says nothing. -/
def quietShell : GuiShell Unit where
  processLine _ _ _ := ((), [])
  psHandleKey _ _ _ := ((), [], false)
  guiTick _ _ _ := ((), [])

namespace Gui

variable {κ : Type}

/-- One input. -/
def step (scr : Screen) (font : ℕ → UInt8) (sh : GuiShell κ) (shape : CursorShape) (g : Gui κ) :
    GuiInput → Gui κ
  | .mouse flags dx dy => g.handleMouse scr flags dx dy
  | .key scancode pressed => g.handleKey scancode pressed
  | .output call => { g with desk := g.desk.termCall call }
  | .tick now => g.tick scr font sh shape now

/-- The inputs one after the other. -/
def run (scr : Screen) (font : ℕ → UInt8) (sh : GuiShell κ) (shape : CursorShape) (g : Gui κ)
    (is : List GuiInput) : Gui κ :=
  is.foldl (step scr font sh shape) g

end Gui

end VernisOS
