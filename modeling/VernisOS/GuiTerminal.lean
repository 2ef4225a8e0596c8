import VernisOS.Desktop

/-!
# The terminal window

`gui/terminal.rs` : a text buffer of 40 rows of 80 cells in a window, drawn into the content
buffer of the window row by row, and the keys that go to it. The shell that a line is handed to
is a parameter (`GuiShell`) : it sees the desktop but no pixel, and acts on it by `GuiCall`s.
-/

open Bytes

namespace VernisOS

/-- `TERM_COLS`. -/
def termCols : ℕ := 80

/-- `TERM_ROWS`. -/
def termRows : ℕ := 40

/-- `TERM_INPUT_MAX`. -/
def termInputMax : ℕ := 256

/-- `VGA_PALETTE`. -/
def vgaPalette : List ℕ :=
  [0x000000, 0x0000AA, 0x00AA00, 0x00AAAA, 0xAA0000, 0xAA00AA, 0xAA5500, 0xAAAAAA,
   0x555555, 0x5555FF, 0x55FF55, 0x55FFFF, 0xFF5555, 0xFF55FF, 0xFFFF55, 0xFFFFFF]

/-- `Terminal`, with `SHIFT_HELD`. The arrays are indexed by row, then column; `inputLine` is
the first `input_len` characters. -/
structure Terminal where
  windowId : ℕ
  chars : ℕ → ℕ → UInt8
  fgColors : ℕ → ℕ → UInt8
  bgColors : ℕ → ℕ → UInt8
  cursorRow : ℕ
  cursorCol : ℕ
  fg : UInt8
  bg : UInt8
  inputLine : List UInt8
  initialized : Bool
  promptShown : Bool
  dirty : Bool
  dirtyRows : ℕ → Bool
  shiftHeld : Bool

namespace Terminal

/-- `TERM` and `SHIFT_HELD` at the start. -/
def init : Terminal where
  windowId := 0
  chars _ _ := ' '.toUInt8
  fgColors _ _ := 7
  bgColors _ _ := 0
  cursorRow := 0
  cursorCol := 0
  fg := 7
  bg := 0
  inputLine := []
  initialized := false
  promptShown := false
  dirty := true
  dirtyRows _ := true
  shiftHeld := false

/-! ## The text buffer -/

/-- `terminal_scroll`. -/
def scroll (t : Terminal) : Terminal :=
  let last := termRows - 1
  { t with
    chars := fun r c => if r = last then ' '.toUInt8 else t.chars (r + 1) c
    fgColors := fun r c => if r = last then t.fg else t.fgColors (r + 1) c
    bgColors := fun r c => if r = last then t.bg else t.bgColors (r + 1) c
    dirtyRows := fun _ => true }

/-- `dirty_rows[cursor_row] = true`. -/
def markRow (t : Terminal) : Terminal :=
  { t with dirtyRows := Function.update t.dirtyRows t.cursorRow true }

/-- To the first column of the next row. -/
def newline (t : Terminal) : Terminal :=
  let t := { t.markRow with cursorCol := 0, cursorRow := t.cursorRow + 1 }
  if t.cursorRow ≥ termRows then { t.scroll with cursorRow := termRows - 1 } else t

/-- `terminal_putchar`. -/
def putchar (t : Terminal) (ch : UInt8) : Terminal :=
  if !t.initialized then t
  else
    let t := { t with dirty := true }
    if ch = 10 then t.newline.markRow
    else if ch = 13 then { t.markRow with cursorCol := 0 }
    else if ch = 8 ∨ ch = 127 then
      let t := t.markRow
      if t.cursorCol > 0 then
        { t with
          cursorCol := t.cursorCol - 1
          chars := Function.update t.chars t.cursorRow
            (Function.update (t.chars t.cursorRow) (t.cursorCol - 1) ' '.toUInt8) }
      else t
    else
      let t := if t.cursorCol ≥ termCols then t.newline else t
      let t := { t with
        chars := Function.update t.chars t.cursorRow
          (Function.update (t.chars t.cursorRow) t.cursorCol ch)
        fgColors := Function.update t.fgColors t.cursorRow
          (Function.update (t.fgColors t.cursorRow) t.cursorCol t.fg)
        bgColors := Function.update t.bgColors t.cursorRow
          (Function.update (t.bgColors t.cursorRow) t.cursorCol t.bg) }
      { t.markRow with cursorCol := t.cursorCol + 1 }

/-- `terminal_write_string`. -/
def writeString (t : Terminal) : List UInt8 → Terminal
  | [] => t
  | ch :: s => if ch = 0 then t else writeString (t.putchar ch) s

/-- `terminal_set_color`. -/
def setColor (t : Terminal) (fg bg : UInt8) : Terminal :=
  { t with fg := fg &&& 0x0F, bg := bg &&& 0x0F }

/-- `terminal_show_prompt`. -/
def showPrompt (t : Terminal) : Terminal :=
  let t := (t.setColor 10 0).writeString (utf8 "root@vernisOS")
  { (t.setColor 7 0).writeString (utf8 ":~$ ") with promptShown := true }

/-- What `gui_init` and `terminal_reopen` write into a new terminal. -/
def welcome (t : Terminal) : Terminal :=
  let t := (t.setColor 10 0).writeString (utf8 "VernisOS GUI Terminal\n")
  ((t.setColor 7 0).writeString (utf8 "Type 'help' for available commands.\n\n")).showPrompt

/-- `gui_terminal_clear`. -/
def clear (t : Terminal) : Terminal :=
  if !t.initialized then t
  else
    { t with
      chars := fun _ _ => ' '.toUInt8
      fgColors := fun _ _ => 7
      bgColors := fun _ _ => 0
      dirtyRows := fun _ => true
      cursorRow := 0
      cursorCol := 0
      dirty := true }

end Terminal

/-- The statics of the window manager, the start menu and the terminal. `down` : the machine was
told to restart or to shut down, and runs no further. -/
structure Desk where
  wm : WindowManager
  menu : StartMenu
  term : Terminal
  down : Bool

namespace Desk

/-! ## Opening and drawing -/

/-- The width of the terminal window. -/
def termWidth : ℕ :=
  termCols * 8 + borderWidth * 2

/-- The height of the terminal window. -/
def termHeight : ℕ :=
  termRows * 16 + titleBarHeight + borderWidth

/-- `terminal_create`. -/
def terminalCreate (d : Desk) (x y : ℤ) : Desk :=
  let created := d.wm.createWindow (utf8 "Terminal") x y termWidth termHeight
  { d with
    wm := created.1.windowFill created.2
    term := { Terminal.init with
      windowId := created.2, initialized := true, shiftHeld := d.term.shiftHeld } }

/-- `terminal_reopen`. -/
def terminalReopen (scr : Screen) (d : Desk) : Desk :=
  if d.term.initialized ∧ d.wm.windowExists d.term.windowId then
    { d with wm := d.wm.focusWindow d.term.windowId }
  else
    let d := d.terminalCreate (((scr.width - termWidth) / 2 : ℕ) : ℤ)
      (((scr.height - (termHeight + 32)) / 2 : ℕ) : ℤ)
    { d with term := d.term.welcome }

/-- One dirty row of `terminal_render`, with the rectangle marked by `wm_render_rows_direct`,
which counts from the corner of the content. -/
def renderRow (font : ℕ → UInt8) (d : Desk) (c : Compositor) (row : ℕ) : Desk × Compositor :=
  if !d.term.dirtyRows row then (d, c)
  else
    let id := d.term.windowId
    let wm := d.wm.renderRowsDirect font id row (d.term.chars row)
      (fun col => vgaPalette[(d.term.fgColors row col &&& 0x0F).toNat]?.getD 0)
      (fun col => vgaPalette[(d.term.bgColors row col &&& 0x0F).toNat]?.getD 0)
    let c :=
      match d.wm.findWindow id with
      | none => c
      | some w => c.markDirtyRect ⟨0, (row * 16 : ℕ), w.contentWidth, 16⟩
    ({ d with
        wm
        term := { d.term with dirtyRows := Function.update d.term.dirtyRows row false } }, c)

/-- `terminal_render`. -/
def terminalRender (font : ℕ → UInt8) (d : Desk) (c : Compositor) : Desk × Compositor :=
  if !d.term.initialized ∨ !d.term.dirty then (d, c)
  else if !(List.range termRows).any d.term.dirtyRows then
    ({ d with term := { d.term with dirty := false } }, c)
  else
    let rows := (List.range termRows).foldl (fun s row => renderRow font s.1 s.2 row) (d, c)
    let d := rows.1
    let wm :=
      if d.term.cursorRow < termRows ∧ d.term.cursorCol < termCols then
        d.wm.windowFillRect d.term.windowId (d.term.cursorCol * 8) (d.term.cursorRow * 16) 8 16
          0xAAAAAA
      else d.wm
    ({ d with wm, term := { d.term with dirty := false } }, rows.2)

end Desk

/-! ## What the shell does to the desktop -/

/-- Output to the terminal : `gui_terminal_putchar` and `gui_terminal_clear`. -/
inductive TermCall
  | putchar (ch : UInt8)
  | clear

/-- A call of the kernel into the GUI, or one that ends the machine. -/
inductive GuiCall
  | output (call : TermCall)
  | moveFocusedWindow (dx dy : ℤ)
  | registerApp (label : List UInt8) (action : UInt8)
  | halt

/-- The C side of the terminal : `cli_process_line_gui`, `cli_gui_ps_handle_key` (whether it
takes the key) and `cli_gui_tick`, which is called at a time. -/
structure GuiShell (κ : Type) where
  processLine : κ → Desk → List UInt8 → κ × List GuiCall
  psHandleKey : κ → Desk → UInt8 → κ × List TermCall × Bool
  guiTick : κ → Desk → BitVec 32 → κ × List TermCall

namespace Desk

/-- A call that writes to the terminal. -/
def termCall (d : Desk) : TermCall → Desk
  | .putchar ch => { d with term := d.term.putchar ch }
  | .clear => { d with term := d.term.clear }

/-- A call into the GUI. Nothing runs once the machine is down. -/
def guiCall (d : Desk) (call : GuiCall) : Desk :=
  if d.down then d
  else
    match call with
    | .output call => d.termCall call
    | .moveFocusedWindow dx dy => { d with wm := (d.wm.moveFocusedWindow dx dy).1 }
    | .registerApp label action => { d with menu := d.menu.registerApp (label.takeWhile (· ≠ 0)) action }
    | .halt => { d with down := true }

end Desk

/-! ## Keys -/

/-- `SCANCODE_TABLE`. -/
def scancodeTable : List UInt8 :=
  [0, 27] ++ utf8 "1234567890-=" ++ [8, 9] ++ utf8 "qwertyuiop[]" ++ [10, 0] ++
    utf8 "asdfghjkl;'\x60" ++ [0] ++ utf8 "\\zxcvbnm,./" ++ [0] ++ utf8 "*" ++ [0] ++ utf8 " "

/-- `SCANCODE_TABLE_SHIFT`. -/
def scancodeTableShift : List UInt8 :=
  [0, 27] ++ utf8 "!@#$%^&*()_+" ++ [8, 9] ++ utf8 "QWERTYUIOP\x7b\x7d" ++ [10, 0] ++
    utf8 "ASDFGHJKL:\x22~" ++ [0] ++ utf8 "|ZXCVBNM<>?" ++ [0] ++ utf8 "*" ++ [0] ++ utf8 " "

namespace Desk

variable {κ : Type}

/-- `terminal_handle_key`. -/
def terminalHandleKey (sh : GuiShell κ) (k : κ) (d : Desk) (scancode : UInt8) : κ × Desk :=
  if scancode = 0x2A ∨ scancode = 0x36 then
    (k, { d with term := { d.term with shiftHeld := true } })
  else if scancode = 0xAA ∨ scancode = 0xB6 then
    (k, { d with term := { d.term with shiftHeld := false } })
  else if scancode &&& 0x80 ≠ 0 then (k, d)
  else
    let table := if d.term.shiftHeld then scancodeTableShift else scancodeTable
    let ascii := table[scancode.toNat]?.getD 0
    if ascii = 0 then (k, d)
    else
      let ps := sh.psHandleKey k d ascii
      let k := ps.1
      let d := ps.2.1.foldl termCall d
      if ps.2.2 then (k, d)
      else
        let d := if !d.term.promptShown then { d with term := d.term.showPrompt } else d
        if ascii = 10 then
          let d := { d with term := d.term.putchar 10 }
          let run :=
            if d.term.inputLine.length > 0 then
              let out := sh.processLine k d d.term.inputLine
              (out.1, out.2.foldl guiCall d)
            else (k, d)
          if run.2.down then run
          else (run.1, { run.2 with term := { run.2.term with inputLine := [] }.showPrompt })
        else if ascii = 8 then
          if d.term.inputLine.length > 0 then
            (k, { d with
              term := { d.term with inputLine := d.term.inputLine.dropLast }.putchar 8 })
          else (k, d)
        else if d.term.inputLine.length < termInputMax - 1 then
          (k, { d with
            term := { d.term with inputLine := d.term.inputLine ++ [ascii] }.putchar ascii })
        else (k, d)

end Desk

end VernisOS
