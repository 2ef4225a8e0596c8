import VernisOS.GuiTerminal
import VernisOS.PartialCompose
import VernisOS.WindowOrder

/-!
# Incremental drawing of the terminal

`gui/terminal.rs` keeps a flag for each row, and `terminal_render` draws the flagged rows alone and
then the cursor. The reference is a sheet of paper that the text is written on, seen through a
window of 40 rows (`Paper`). The buffer of the terminal is that window (`Terminal.Shows`), and a
row that is not flagged has kept its cells and its part of the cursor since it was drawn
(`Terminal.Redraws`). So whatever was written before, the content of the window after
`terminal_render` is the picture of the paper (`terminal_rendering`).
-/

open Bytes

namespace VernisOS

/-- A character cell. -/
structure TermCell where
  ch : UInt8
  fg : UInt8
  bg : UInt8
  deriving DecidableEq

/-- A blank in these colours. -/
def TermCell.blank (fg bg : UInt8) : TermCell :=
  ⟨' '.toUInt8, fg, bg⟩

/-! ## The reference terminal -/

/-- Text on an endless sheet. The screen shows the rows from `top` on. -/
structure Paper where
  cells : ℕ → ℕ → TermCell
  top : ℕ
  row : ℕ
  col : ℕ
  fg : UInt8
  bg : UInt8

/-- What is written to a terminal. -/
inductive TermOp
  | putchar (ch : UInt8)
  | setColor (fg bg : UInt8)
  | clear
  | render

namespace Paper

/-- An empty sheet, light grey on black. -/
def empty : Paper :=
  ⟨fun _ _ => .blank 7 0, 0, 0, 0, 7, 0⟩

/-- Down to the next row. A row that comes into view is blank in the current colours. -/
def newline (P : Paper) : Paper :=
  if P.row + 1 < P.top + termRows then { P with row := P.row + 1, col := 0 }
  else
    { P with
      cells := Function.update P.cells (P.row + 1) fun _ => .blank P.fg P.bg
      top := P.top + 1
      row := P.row + 1
      col := 0 }

/-- Changes the cell at a position. -/
def set (P : Paper) (row col : ℕ) (cell : TermCell) : Paper :=
  { P with cells := Function.update P.cells row (Function.update (P.cells row) col cell) }

/-- A character behind the last one. -/
def put (P : Paper) (ch : UInt8) : Paper :=
  { P.set P.row P.col ⟨ch, P.fg, P.bg⟩ with col := P.col + 1 }

/-- A character, where newline, carriage return, backspace and delete move the cursor. -/
def putchar (P : Paper) (ch : UInt8) : Paper :=
  if ch = 10 then P.newline
  else if ch = 13 then { P with col := 0 }
  else if ch = 8 ∨ ch = 127 then
    if 0 < P.col then
      { P.set P.row (P.col - 1) { P.cells P.row (P.col - 1) with ch := ' '.toUInt8 } with
        col := P.col - 1 }
    else P
  else (if P.col < termCols then P else P.newline).put ch

/-- What is written, in the order of writing. -/
def step (P : Paper) : TermOp → Paper
  | .putchar ch => P.putchar ch
  | .setColor fg bg => { P with fg := fg &&& 0x0F, bg := bg &&& 0x0F }
  | .clear => { empty with fg := P.fg, bg := P.bg }
  | .render => P

/-- The colour of a point of a cell. -/
def glyphColor (font : ℕ → UInt8) (cell : TermCell) (row col : ℕ) : ℕ :=
  if Compositor.glyphBit font cell.ch row col then vgaPalette[(cell.fg &&& 0x0F).toNat]?.getD 0
  else vgaPalette[(cell.bg &&& 0x0F).toNat]?.getD 0

/-- The rows in view in cells of 8 by 16 points, with a block at the cursor if it is not behind
the last column. -/
def picture (font : ℕ → UInt8) (P : Paper) : Image := fun p =>
  if P.row = P.top + p.2 / 16 ∧ P.col = p.1 / 8 then 0xAAAAAA
  else glyphColor font (P.cells (P.top + p.2 / 16) (p.1 / 8)) (p.2 % 16) (p.1 % 8)

end Paper

namespace Terminal

variable {t t' t'' : Terminal} {P : Paper} {r : ℕ}

/-! ## The buffer is the view of the paper -/

def cell (t : Terminal) (r c : ℕ) : TermCell :=
  ⟨t.chars r c, t.fgColors r c, t.bgColors r c⟩

/-- The buffer shows the rows of the paper in view, and the cursor is on one of them. -/
structure Shows (t : Terminal) (P : Paper) : Prop where
  cells : ∀ r < termRows, t.cell r = P.cells (P.top + r)
  row : P.top + t.cursorRow = P.row
  col : t.cursorCol = P.col
  fg : t.fg = P.fg
  bg : t.bg = P.bg
  inside : t.cursorRow < termRows

/-- A character behind the last one, in the row of the cursor. -/
def put (t : Terminal) (ch : UInt8) : Terminal :=
  let t := { t with
    chars := Function.update t.chars t.cursorRow
      (Function.update (t.chars t.cursorRow) t.cursorCol ch)
    fgColors := Function.update t.fgColors t.cursorRow
      (Function.update (t.fgColors t.cursorRow) t.cursorCol t.fg)
    bgColors := Function.update t.bgColors t.cursorRow
      (Function.update (t.bgColors t.cursorRow) t.cursorCol t.bg) }
  { t.markRow with cursorCol := t.cursorCol + 1 }

/-- The cell before the cursor becomes blank. -/
def erase (t : Terminal) : Terminal :=
  if t.cursorCol > 0 then
    { t with
      cursorCol := t.cursorCol - 1
      chars := Function.update t.chars t.cursorRow
        (Function.update (t.chars t.cursorRow) (t.cursorCol - 1) ' '.toUInt8) }
  else t

theorem putchar_eq (h : t.initialized = true) (ch : UInt8) :
    t.putchar ch =
      let t := { t with dirty := true }
      if ch = 10 then t.newline.markRow
      else if ch = 13 then { t.markRow with cursorCol := 0 }
      else if ch = 8 ∨ ch = 127 then t.markRow.erase
      else (if t.cursorCol ≥ termCols then t.newline else t).put ch := by
  unfold putchar
  rw [h]
  rfl

theorem cell_put (t : Terminal) (ch : UInt8) :
    (t.put ch).cell = Function.update t.cell t.cursorRow
      (Function.update (t.cell t.cursorRow) t.cursorCol ⟨ch, t.fg, t.bg⟩) := by
  funext r c
  simp only [put, markRow, cell, Function.update_apply]
  by_cases hr : r = t.cursorRow
  · by_cases hc : c = t.cursorCol
    · simp [hr, hc]
    · simp [hr, hc, cell]
  · simp [hr, cell]

theorem Shows.put (h : t.Shows P) (ch : UInt8) : (t.put ch).Shows (P.put ch) := by
  refine ⟨fun r hr => ?_, h.row, congrArg (· + 1) h.col, h.fg, h.bg, h.inside⟩
  rw [cell_put]
  change _ = Function.update P.cells P.row
    (Function.update (P.cells P.row) P.col ⟨ch, P.fg, P.bg⟩) (P.top + r)
  rw [← h.row, ← h.col, ← h.fg, ← h.bg, ← h.cells _ h.inside]
  by_cases hrow : r = t.cursorRow
  · rw [hrow, Function.update_self, Function.update_self]
  · rw [Function.update_of_ne hrow, Function.update_of_ne (by omega), h.cells r hr]

theorem Shows.newline (h : t.Shows P) : t.newline.Shows P.newline := by
  have hrow := h.row
  have hin := h.inside
  unfold Terminal.newline Paper.newline
  dsimp only
  by_cases hlast : t.cursorRow + 1 ≥ termRows
  · rw [if_pos hlast, if_neg (by omega)]
    refine ⟨fun r hr => ?_, ?_, rfl, h.fg, h.bg, by dsimp only; omega⟩
    · funext c
      by_cases hr' : r = termRows - 1
      · have hnew : P.top + 1 + r = P.row + 1 := by omega
        simp only [cell, scroll, markRow, if_pos hr', hnew, Function.update_self, TermCell.blank,
          h.fg, h.bg]
      · have hold : P.top + 1 + r = P.top + (r + 1) := by omega
        have hne : P.top + (r + 1) ≠ P.row + 1 := by omega
        simp only [cell, scroll, markRow, if_neg hr', hold, Function.update_of_ne hne]
        exact congrFun (h.cells (r + 1) (by omega)) c
    · dsimp only
      omega
  · rw [if_neg hlast, if_pos (by omega)]
    refine ⟨h.cells, ?_, rfl, h.fg, h.bg, by dsimp only; omega⟩
    dsimp only
    omega

theorem Shows.erase (h : t.Shows P) :
    t.erase.Shows (if 0 < P.col then
      { P.set P.row (P.col - 1) { P.cells P.row (P.col - 1) with ch := ' '.toUInt8 } with
        col := P.col - 1 }
    else P) := by
  unfold Terminal.erase
  rw [← h.col]
  by_cases hcol : t.cursorCol > 0
  · rw [if_pos hcol, if_pos hcol]
    refine ⟨fun r hr => ?_, h.row, rfl, h.fg, h.bg, h.inside⟩
    change _ = Function.update P.cells P.row (Function.update (P.cells P.row) _ _) (P.top + r)
    rw [← h.row, ← h.cells _ h.inside]
    funext c
    by_cases hrow : r = t.cursorRow
    · subst hrow
      rw [Function.update_self]
      by_cases hc : c = t.cursorCol - 1
      · subst hc
        simp [cell]
      · simp [cell, hc]
    · rw [Function.update_of_ne (by omega), ← h.cells r hr]
      simp [cell, hrow]
  · rw [if_neg hcol, if_neg hcol]
    exact h

theorem Shows.putchar (h : t.Shows P) (hinit : t.initialized = true) (ch : UInt8) :
    (t.putchar ch).Shows (P.putchar ch) := by
  rw [putchar_eq hinit]
  have hdirty : ({ t with dirty := true } : Terminal).Shows P :=
    ⟨h.cells, h.row, h.col, h.fg, h.bg, h.inside⟩
  generalize ({ t with dirty := true } : Terminal) = t at hdirty ⊢
  have hmark : ∀ {t : Terminal} {P : Paper}, t.Shows P → t.markRow.Shows P := fun h =>
    ⟨h.cells, h.row, h.col, h.fg, h.bg, h.inside⟩
  unfold Paper.putchar
  dsimp only
  split
  · exact hmark hdirty.newline
  split
  · exact ⟨hdirty.cells, hdirty.row, rfl, hdirty.fg, hdirty.bg, hdirty.inside⟩
  split
  · exact (hmark hdirty).erase
  · refine Shows.put ?_ ch
    rw [← hdirty.col]
    by_cases hcol : t.cursorCol ≥ termCols
    · rw [if_pos hcol, if_neg (by omega)]
      exact hdirty.newline
    · rw [if_neg hcol, if_pos (by omega)]
      exact hdirty

theorem Shows.clear (h : t.Shows P) (hinit : t.initialized = true) :
    t.clear.Shows { Paper.empty with fg := P.fg, bg := P.bg } := by
  unfold Terminal.clear
  rw [hinit]
  exact ⟨fun _ _ => rfl, rfl, rfl, h.fg, h.bg, (by decide : 0 < termRows)⟩

/-! ## Rows that are not flagged -/

/-- The column of the cursor block in a row. -/
def blockIn (t : Terminal) (r : ℕ) : Option ℕ :=
  if t.cursorRow = r ∧ t.cursorCol < termCols then some t.cursorCol else none

/-- Every row that is not flagged afterwards was not before, and kept its cells and its block. -/
def Redraws (t t' : Terminal) : Prop :=
  ∀ r, t'.dirtyRows r = false →
    t.dirtyRows r = false ∧ t'.cell r = t.cell r ∧ t'.blockIn r = t.blockIn r

theorem Redraws.trans (h : t.Redraws t') (h' : t'.Redraws t'') : t.Redraws t'' := by
  intro r hr
  obtain ⟨hr', hcell', hblock'⟩ := h' r hr
  obtain ⟨hr'', hcell, hblock⟩ := h r hr'
  exact ⟨hr'', hcell'.trans hcell, hblock'.trans hblock⟩

/-- A change in the row of the cursor that flags the row and leaves the cursor in it. -/
theorem redraws_of_row (hdirty : t'.dirtyRows = Function.update t.dirtyRows t.cursorRow true)
    (hrow : t'.cursorRow = t.cursorRow) (hcell : ∀ r ≠ t.cursorRow, t'.cell r = t.cell r) :
    t.Redraws t' := by
  intro r hr
  rw [hdirty] at hr
  have hne : r ≠ t.cursorRow := by
    rintro rfl
    rw [Function.update_self] at hr
    cases hr
  rw [Function.update_of_ne hne] at hr
  refine ⟨hr, hcell r hne, ?_⟩
  unfold blockIn
  rw [hrow, if_neg fun h => hne h.1.symm, if_neg fun h => hne h.1.symm]

theorem redraws_put (t : Terminal) (ch : UInt8) : t.Redraws (t.put ch) := by
  refine redraws_of_row rfl rfl fun r hr => ?_
  rw [cell_put, Function.update_of_ne hr]

theorem redraws_markRow_erase (t : Terminal) : t.Redraws t.markRow.erase := by
  unfold erase
  split
  · refine redraws_of_row rfl rfl fun r hr => ?_
    funext c
    simp only [cell, markRow, Function.update_of_ne hr]
  · exact redraws_of_row rfl rfl fun _ _ => rfl

/-- A newline flags the row that the cursor leaves; with a mark on the new row the cursor is
redrawn too. -/
theorem redraws_newline_markRow (t : Terminal) : t.Redraws t.newline.markRow := by
  unfold newline
  dsimp only
  split
  · intro r hr
    simp only [markRow, scroll, Function.update_apply] at hr
    split at hr <;> cases hr
  · intro r hr
    simp only [markRow, Function.update_apply] at hr
    split at hr
    · cases hr
    split at hr
    · cases hr
    · rename_i hnew hold
      refine ⟨hr, rfl, ?_⟩
      unfold blockIn
      rw [if_neg fun h => hnew h.1.symm, if_neg fun h => hold h.1.symm]

theorem put_markRow (t : Terminal) (ch : UInt8) : t.markRow.put ch = t.put ch := by
  simp only [put, markRow, Function.update_idem]

theorem redraws_putchar (hinit : t.initialized = true) (ch : UInt8) :
    t.Redraws (t.putchar ch) := by
  have hdirty : t.Redraws { t with dirty := true } := fun _ h => ⟨h, rfl, rfl⟩
  rw [putchar_eq hinit]
  refine hdirty.trans ?_
  generalize ({ t with dirty := true } : Terminal) = t
  dsimp only
  split
  · exact redraws_newline_markRow t
  split
  · exact redraws_of_row rfl rfl fun _ _ => rfl
  split
  · exact redraws_markRow_erase t
  · split
    · -- the character flags the new row, as the mark does
      rw [← put_markRow]
      exact (redraws_newline_markRow t).trans (redraws_put _ ch)
    · exact redraws_put t ch

theorem redraws_clear (hinit : t.initialized = true) : t.Redraws t.clear := by
  unfold clear
  rw [hinit]
  intro r hr
  cases hr

/-- A terminal that is drawn when the window opens, with something to draw. -/
structure Pending (t t' : Terminal) : Prop where
  initialized : t'.initialized = true
  windowId : t'.windowId = t.windowId
  dirty : t'.dirty = true

theorem pending_newline {t : Terminal} (hinit : t.initialized = true) (hdirty : t.dirty = true) :
    Pending t t.newline := by
  unfold newline
  dsimp only
  split <;> exact ⟨hinit, rfl, hdirty⟩

theorem pending_putchar (hinit : t.initialized = true) (ch : UInt8) :
    Pending t (t.putchar ch) := by
  rw [putchar_eq hinit]
  have hdirty : Pending t { t with dirty := true } := ⟨hinit, rfl, rfl⟩
  generalize ({ t with dirty := true } : Terminal) = s at hdirty ⊢
  obtain ⟨hs, hid, hd⟩ := hdirty
  have hline := pending_newline hs hd
  dsimp only
  split
  · exact ⟨hline.initialized, hline.windowId.trans hid, hline.dirty⟩
  split
  · exact ⟨hs, hid, hd⟩
  split
  · unfold erase
    split <;> exact ⟨hs, hid, hd⟩
  split
  · exact ⟨hline.initialized, hline.windowId.trans hid, hline.dirty⟩
  · exact ⟨hs, hid, hd⟩

theorem pending_clear (hinit : t.initialized = true) : Pending t t.clear := by
  unfold clear
  rw [hinit]
  exact ⟨rfl, rfl, rfl⟩

end Terminal

/-! ## Drawing -/

namespace Desk

variable {font : ℕ → UInt8} {d : Desk} {c : Compositor} {P : Paper}

/-- The terminal's own window, of the size that `terminal_create` gives it. -/
def HasTerminal (d : Desk) : Prop :=
  ∃ w, d.wm.findWindow d.term.windowId = some w ∧ w.contentWidth = 8 * termCols ∧
    w.contentHeight = 16 * termRows

/-- The content of the terminal's window. -/
def content (d : Desk) : Image :=
  d.wm.contentBuf d.term.windowId

/-- A point of the content. -/
def InContent (p : Pixel) : Prop :=
  p.1 < 8 * termCols ∧ p.2 < 16 * termRows

/-- The cells of the buffer without the cursor. -/
def glyphs (font : ℕ → UInt8) (t : Terminal) : Image := fun p =>
  Paper.glyphColor font (t.cell (p.2 / 16) (p.1 / 8)) (p.2 % 16) (p.1 % 8)

theorem renderRow_of_dirty (font : ℕ → UInt8) (c : Compositor) {row : ℕ} (hwin : d.HasTerminal)
    (hdirty : d.term.dirtyRows row = true) :
    let d' := (renderRow font d c row).1
    d'.term = { d.term with dirtyRows := Function.update d.term.dirtyRows row false } ∧
      d'.HasTerminal ∧ (∀ p, InContent p →
        d'.content p = if p.2 / 16 = row then glyphs font d.term p else d.content p) := by
  obtain ⟨w, hfind, hwidth, hheight⟩ := hwin
  unfold renderRow
  rw [hdirty]
  refine ⟨rfl, ⟨w, ?_, hwidth, hheight⟩, fun p hp => ?_⟩
  · simp only [Bool.not_true, Bool.false_eq_true, if_false]
    rw [WindowManager.renderRowsDirect, hfind]
    exact hfind
  · obtain ⟨hx, hy⟩ := hp
    unfold termCols at hx hwidth
    unfold termRows at hy hheight
    simp only [Bool.not_true, Bool.false_eq_true, if_false, content]
    rw [WindowManager.renderRowsDirect, hfind]
    dsimp only
    rw [Function.update_self, hwidth, hheight]
    by_cases hr : p.2 / 16 = row
    · rw [if_pos ⟨hr, hy, by omega, hx⟩, if_pos hr]
      simp only [glyphs, Paper.glyphColor, Terminal.cell, ← hr]
      rfl
    · rw [if_neg fun h => hr h.1, if_neg hr]

/-- The loop over the rows draws those that are flagged and takes their flags away. -/
theorem foldl_renderRow (font : ℕ → UInt8) :
    ∀ (rows : List ℕ) {d : Desk} (c : Compositor), d.HasTerminal →
      let d' := (rows.foldl (fun s row => renderRow font s.1 s.2 row) (d, c)).1
      d'.term = { d.term with
          dirtyRows := fun r => if r ∈ rows then false else d.term.dirtyRows r } ∧
        d'.HasTerminal ∧ (∀ p, InContent p →
          d'.content p = if p.2 / 16 ∈ rows ∧ d.term.dirtyRows (p.2 / 16) = true then
            glyphs font d.term p else d.content p)
  | [], d, _, hwin => ⟨by simp, hwin, fun p _ => by simp⟩
  | row :: rows, d, c, hwin => by
    rw [List.foldl_cons]
    cases hdirty : d.term.dirtyRows row with
    | false =>
      have hskip : renderRow font d c row = (d, c) := by
        unfold renderRow
        rw [hdirty]
        rfl
      rw [hskip]
      obtain ⟨hterm, hwin', hcontent⟩ := foldl_renderRow font rows c hwin
      refine ⟨?_, hwin', fun p hp => ?_⟩
      · have hflags : (fun r => if r ∈ rows then false else d.term.dirtyRows r) =
            fun r => if r ∈ row :: rows then false else d.term.dirtyRows r := by
          funext r
          by_cases hr : r = row
          · simp [hr, hdirty]
          · simp [hr]
        rw [hterm, hflags]
      · rw [hcontent p hp]
        by_cases hr : p.2 / 16 = row
        · simp [hr, hdirty]
        · simp [hr]
    | true =>
      obtain ⟨hterm, hwin₁, hcontent⟩ := renderRow_of_dirty font c hwin hdirty
      generalize renderRow font d c row = s at hterm hwin₁ hcontent ⊢
      obtain ⟨hterm', hwin', hcontent'⟩ := foldl_renderRow font rows s.2 hwin₁
      refine ⟨?_, hwin', fun p hp => ?_⟩
      · have hflags : (fun r => if r ∈ rows then false else
            Function.update d.term.dirtyRows row false r) =
              fun r => if r ∈ row :: rows then false else d.term.dirtyRows r := by
          funext r
          by_cases hr : r = row
          · simp [hr]
          · simp [hr]
        rw [hterm', hterm, hflags]
      · rw [hcontent' p hp, hcontent p hp, hterm]
        have hglyphs : glyphs font { d.term with
            dirtyRows := Function.update d.term.dirtyRows row false } p = glyphs font d.term p :=
          rfl
        rw [hglyphs]
        by_cases hr : p.2 / 16 = row
        · simp [hr, hdirty]
        · simp [hr]

/-- Between two drawings : the terminal has its window, its buffer shows the paper, rows without a
flag are as they were drawn, and no row is flagged unless the terminal is dirty. -/
structure Drawn (font : ℕ → UInt8) (d : Desk) (P : Paper) : Prop where
  initialized : d.term.initialized = true
  window : d.HasTerminal
  shows : d.term.Shows P
  clean : ∀ p, InContent p → d.term.dirtyRows (p.2 / 16) = false →
    d.content p = P.picture font p
  dirty : d.term.dirty = false → ∀ r < termRows, d.term.dirtyRows r = false

/-- The picture of the paper, from the buffer. -/
theorem picture_eq (h : d.term.Shows P) {p : Pixel} (hp : InContent p) :
    P.picture font p =
      if d.term.cursorRow = p.2 / 16 ∧ d.term.cursorCol = p.1 / 8 then 0xAAAAAA
      else glyphs font d.term p := by
  obtain ⟨-, hy⟩ := hp
  have hrow : p.2 / 16 < termRows := by omega
  unfold Paper.picture glyphs
  rw [← h.row, ← h.col, ← h.cells _ hrow]
  simp only [Nat.add_left_cancel_iff]

/-- What is written keeps the drawn rows, if it redraws the others. -/
theorem Drawn.write (h : d.Drawn font P) {t : Terminal} {P' : Paper}
    (hshows : t.Shows P') (hinit : t.initialized = true) (hid : t.windowId = d.term.windowId)
    (hredraws : d.term.Redraws t)
    (hdirty : t.dirty = false → ∀ r < termRows, t.dirtyRows r = false) :
    ({ d with term := t } : Desk).Drawn font P' where
  initialized := hinit
  window := by
    obtain ⟨w, hfind, hsize⟩ := h.window
    exact ⟨w, by rw [hid]; exact hfind, hsize⟩
  shows := hshows
  clean := by
    intro p hp hclean
    obtain ⟨hold, hcell, hblock⟩ := hredraws _ hclean
    have hcontent : ({ d with term := t } : Desk).content p = d.content p := by
      rw [content, content, hid]
    rw [hcontent, h.clean p hp hold, picture_eq h.shows hp,
      picture_eq (d := { d with term := t }) hshows hp]
    -- the block is in the row before exactly if it is now, and then in the same cell
    have hx : p.1 / 8 < termCols := by
      have := hp.1
      omega
    have hsame : (d.term.cursorRow = p.2 / 16 ∧ d.term.cursorCol = p.1 / 8) ↔
        (t.cursorRow = p.2 / 16 ∧ t.cursorCol = p.1 / 8) := by
      have hat : ∀ t : Terminal, (t.cursorRow = p.2 / 16 ∧ t.cursorCol = p.1 / 8) ↔
          t.blockIn (p.2 / 16) = some (p.1 / 8) := by
        intro t
        unfold Terminal.blockIn
        split
        · rename_i hin
          rw [Option.some.injEq]
          exact and_iff_right hin.1
        · rename_i hout
          refine iff_of_false (fun hat => hout ⟨hat.1, ?_⟩) (Option.some_ne_none _).symm
          rw [hat.2]
          exact hx
      rw [hat, hat, hblock]
    have hglyphs : glyphs font d.term p = glyphs font t p := by
      rw [glyphs, glyphs, hcell]
    simp only [hsame, hglyphs]
  dirty := hdirty

/-- The block at the cursor. -/
theorem content_windowFillRect (hwin : d.HasTerminal) {row col : ℕ} (hrow : row < termRows)
    (hcol : col < termCols) (color : ℕ) :
    let d' : Desk := { d with
      wm := d.wm.windowFillRect d.term.windowId (col * 8) (row * 16) 8 16 color }
    d'.HasTerminal ∧ ∀ p, InContent p →
      d'.content p = if row = p.2 / 16 ∧ col = p.1 / 8 then color else d.content p := by
  obtain ⟨w, hfind, hwidth, hheight⟩ := hwin
  refine ⟨⟨w, ?_, hwidth, hheight⟩, fun p hp => ?_⟩
  · rw [WindowManager.windowFillRect, hfind]
    exact hfind
  · obtain ⟨hx, hy⟩ := hp
    simp only [content]
    rw [WindowManager.windowFillRect, hfind]
    dsimp only
    rw [Function.update_self, hwidth, hheight]
    refine if_congr ?_ rfl rfl
    omega

/-- The same terminal with other flags. -/
def reflag (t : Terminal) (dirty : Bool) (rows : ℕ → Bool) : Terminal :=
  { t with dirty, dirtyRows := rows }

/-- A drawing that leaves the whole picture and no flags. -/
theorem Drawn.of_picture (h : d.Drawn font P) {d' : Desk} (dirty : Bool) {rows : ℕ → Bool}
    (hterm : d'.term = reflag d.term dirty rows) (hwin : d'.HasTerminal)
    (hrows : ∀ r < termRows, rows r = false)
    (hpicture : ∀ p, InContent p → d'.content p = P.picture font p) :
    d'.Drawn font P ∧ ∀ p, InContent p → d'.content p = P.picture font p := by
  have hshows := h.shows
  refine ⟨⟨?_, hwin, ?_, fun p hp _ => hpicture p hp, fun _ => ?_⟩, hpicture⟩
  · rw [hterm]
    exact h.initialized
  · rw [hterm]
    exact ⟨hshows.cells, hshows.row, hshows.col, hshows.fg, hshows.bg, hshows.inside⟩
  · rw [hterm]
    exact hrows

/-- `terminal_render` keeps all this, and draws the whole picture. -/
theorem Drawn.render (h : d.Drawn font P) (c : Compositor) :
    (terminalRender font d c).1.Drawn font P ∧
      ∀ p, InContent p → (terminalRender font d c).1.content p = P.picture font p := by
  have hclean : (∀ r < termRows, d.term.dirtyRows r = false) →
      ∀ p, InContent p → d.content p = P.picture font p := by
    intro hclean p hp
    have hy := hp.2
    exact h.clean p hp (hclean _ (by omega))
  unfold terminalRender
  rw [h.initialized]
  simp only [Bool.not_true, Bool.false_eq_true, false_or]
  cases hdirty : d.term.dirty with
  | false =>
    have hrows := h.dirty hdirty
    exact h.of_picture d.term.dirty rfl h.window hrows (hclean hrows)
  | true =>
    simp only [Bool.not_true, Bool.false_eq_true, if_false]
    cases hany : (List.range termRows).any d.term.dirtyRows with
    | false =>
      have hrows : ∀ r < termRows, d.term.dirtyRows r = false := fun r hr => by
        simpa using List.any_eq_false.mp hany r (List.mem_range.mpr hr)
      exact h.of_picture false rfl h.window hrows (hclean hrows)
    | true =>
      simp only [Bool.not_true, Bool.false_eq_true, if_false]
      obtain ⟨hterm, hwin, hcontent⟩ := foldl_renderRow font
        (List.range termRows) c h.window
      generalize (List.range termRows).foldl (fun s row => renderRow font s.1 s.2 row) (d, c) = s
        at hterm hwin hcontent ⊢
      have hrow : s.1.term.cursorRow = d.term.cursorRow := by rw [hterm]
      have hcol : s.1.term.cursorCol = d.term.cursorCol := by rw [hterm]
      -- flagged rows have no block yet, the others have the one they were drawn with
      have hunder : ∀ p, InContent p → (if d.term.cursorRow = p.2 / 16 ∧
          d.term.cursorCol = p.1 / 8 then 0xAAAAAA else s.1.content p) = P.picture font p := by
        intro p hp
        have hy := hp.2
        have hmem : p.2 / 16 ∈ List.range termRows := List.mem_range.mpr (by omega)
        rw [hcontent p hp]
        by_cases hflag : p.2 / 16 ∈ List.range termRows ∧ d.term.dirtyRows (p.2 / 16) = true
        · rw [if_pos hflag, picture_eq h.shows hp]
        · rw [if_neg hflag, h.clean p hp (by simpa [hmem] using hflag)]
          split
          · rename_i hat
            rw [picture_eq h.shows hp, if_pos hat]
          · rfl
      have hrows : ∀ r < termRows,
          (if r ∈ List.range termRows then false else d.term.dirtyRows r) = false :=
        fun r hr => if_pos (List.mem_range.mpr hr)
      by_cases hin : s.1.term.cursorRow < termRows ∧ s.1.term.cursorCol < termCols
      · obtain ⟨hwin', hcontent'⟩ := content_windowFillRect hwin hin.1 hin.2 0xAAAAAA
        rw [if_pos hin]
        refine h.of_picture false ?_ hwin' hrows fun p hp => ?_
        · rw [hterm]
          rfl
        · rw [← hunder p hp, ← hrow, ← hcol]
          exact hcontent' p hp
      · rw [if_neg hin]
        refine h.of_picture false ?_ hwin hrows fun p hp => ?_
        · rw [hterm]
          rfl
        · -- the cursor is behind the last column
          obtain ⟨hx, hy⟩ := hp
          have hout : ¬ (d.term.cursorRow = p.2 / 16 ∧ d.term.cursorCol = p.1 / 8) := by
            rintro ⟨hr, hc⟩
            rw [hrow, hcol, hr, hc] at hin
            omega
          rw [← hunder p ⟨hx, hy⟩, if_neg hout]
          rfl

/-! ## Runs -/

/-- One call, with the compositor that a drawing marks rows in. -/
def termStep (font : ℕ → UInt8) (s : Desk × Compositor) : TermOp → Desk × Compositor
  | .putchar ch => ({ s.1 with term := s.1.term.putchar ch }, s.2)
  | .setColor fg bg => ({ s.1 with term := s.1.term.setColor fg bg }, s.2)
  | .clear => ({ s.1 with term := s.1.term.clear }, s.2)
  | .render => terminalRender font s.1 s.2

theorem Drawn.step (h : d.Drawn font P) (c : Compositor) (op : TermOp) :
    (termStep font (d, c) op).1.Drawn font (P.step op) := by
  have hshows := h.shows
  cases op with
  | putchar ch =>
    have hpending := Terminal.pending_putchar h.initialized ch
    refine h.write (hshows.putchar h.initialized ch) hpending.initialized hpending.windowId
      (Terminal.redraws_putchar h.initialized ch) fun hclean => ?_
    rw [hpending.dirty] at hclean
    cases hclean
  | setColor fg bg =>
    exact h.write (t := d.term.setColor fg bg)
      ⟨hshows.cells, hshows.row, hshows.col, rfl, rfl, hshows.inside⟩ h.initialized rfl
      (fun _ hr => ⟨hr, rfl, rfl⟩) h.dirty
  | clear =>
    have hpending := Terminal.pending_clear h.initialized
    refine h.write (hshows.clear h.initialized) hpending.initialized hpending.windowId
      (Terminal.redraws_clear h.initialized) fun hclean => ?_
    rw [hpending.dirty] at hclean
    cases hclean
  | render => exact (h.render c).1

/-- `terminal_create` opens a window with an empty sheet, every row still to be drawn. -/
theorem drawn_terminalCreate (font : ℕ → UInt8) (x y : ℤ)
    (hid : ∀ w ∈ d.wm.windows, w.id ≠ d.wm.nextId) :
    (d.terminalCreate x y).Drawn font Paper.empty := by
  have hwindows := (WindowManager.windows_createWindow d.wm (utf8 "Terminal") x y termWidth
    termHeight).1
  refine ⟨rfl, ?_, ⟨fun _ _ => rfl, rfl, rfl, rfl, rfl, (by decide : 0 < termRows)⟩, ?_, ?_⟩
  · have hfind : (d.wm.createWindow (utf8 "Terminal") x y termWidth termHeight).1.findWindow
        d.wm.nextId = some (⟨d.wm.nextId, (utf8 "Terminal").take maxTitleLen, x, y, termWidth,
          termHeight, true, true⟩) := by
      have hnone : (d.wm.windows.map fun w : GuiWindow => { w with focused := false }).find?
          (·.id = d.wm.nextId) = none := by
        rw [List.find?_eq_none]
        intro v hv
        obtain ⟨u, hu, rfl⟩ := List.mem_map.mp hv
        rw [decide_eq_true_eq]
        exact hid u hu
      rw [WindowManager.findWindow, hwindows, List.find?_append, hnone, Option.none_or]
      exact List.find?_cons_of_pos (decide_eq_true rfl)
    refine ⟨⟨d.wm.nextId, (utf8 "Terminal").take maxTitleLen, x, y, termWidth, termHeight, true,
      true⟩, ?_, rfl, rfl⟩
    unfold terminalCreate WindowManager.windowFill
    dsimp only
    split
    · exact hfind
    · exact hfind
  · intro p _ hclean
    cases hclean
  · intro hclean
    cases hclean

theorem drawn_run (ops : List TermOp) {s : Desk × Compositor} (h : s.1.Drawn font P) :
    (ops.foldl (termStep font) s).1.Drawn font (ops.foldl Paper.step P) := by
  induction ops generalizing s P with
  | nil => exact h
  | cons op ops ih => exact ih (h.step s.2 op)

end Desk

/-- After any calls since `terminal_create` the buffer shows the sheet that the reference terminal
has written, and `terminal_render` leaves its picture in the window. -/
theorem terminal_rendering (font : ℕ → UInt8) (d : Desk) (x y : ℤ) (c : Compositor)
    (hid : ∀ w ∈ d.wm.windows, w.id ≠ d.wm.nextId) (ops : List TermOp) :
    let s := ops.foldl (Desk.termStep font) (d.terminalCreate x y, c)
    let P := ops.foldl Paper.step .empty
    s.1.term.Shows P ∧
      ∀ p, Desk.InContent p → (s.1.terminalRender font s.2).1.content p = P.picture font p := by
  have hdrawn := Desk.drawn_run ops (s := (d.terminalCreate x y, c))
    (Desk.drawn_terminalCreate font x y hid)
  exact ⟨hdrawn.shows, (hdrawn.render _).2⟩

/-- A character at the end of a line, a backspace and a new line, drawn in between. -/
def typedText : List TermOp :=
  [.putchar 65, .putchar 66, .render, .putchar 8, .setColor 12 0, .putchar 10, .render]

theorem terminal_rendering_typedText :
    let s := typedText.foldl (Desk.termStep fun _ => 0x18)
      (Desk.terminalCreate ⟨.init, .init, .init, false⟩ 5 5, .ofBuffer fun _ => 0)
    let P := typedText.foldl Paper.step .empty
    s.1.term.Shows P ∧ ∀ p, Desk.InContent p →
      (s.1.terminalRender (fun _ => 0x18) s.2).1.content p = P.picture (fun _ => 0x18) p :=
  terminal_rendering _ _ 5 5 _ (fun _ hw => absurd hw List.not_mem_nil) typedText

end VernisOS
