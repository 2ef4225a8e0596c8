import VernisOS.CliDepth
import VernisOS.Lib.LineEditor

/-!
# The line editor of the shell

`cli_readline`, `cli_history_push` and `cli_shell_loop` of `kernel/shell/cli.c`. The keys are
those the keyboard and the serial line give, one after the other. The bytes in `line` refine a
text with a cursor, and Up and Down walk through the strings in the slots of the history
(`refines_readKey`). A slot is written by `cli_strcpy`, which leaves what it does not overwrite :
its string is the last line only if no earlier line in it was longer (`readline_exact_iff`).
-/

open Bytes LineEditor

namespace VernisOS

/-! ## History -/

/-- `CLI_HISTORY_SIZE`. -/
def cliHistorySize : ℕ := 50

/-- The history of `CliShell` : the slots, each `char[CLI_MAX_INPUT_LEN]`, and how many lines
were pushed. -/
structure CliHistory where
  history : ℕ → List UInt8
  historyIndex : ℕ

namespace CliHistory

/-- The history that `cli_shell_init` clears. -/
def cleared : CliHistory :=
  ⟨fun _ => List.replicate cliMaxInputLen 0, 0⟩

/-- `cli_history_push`. -/
def push (h : CliHistory) (line : List UInt8) : CliHistory :=
  if cStr line = [] then h
  else
    ⟨fun slot =>
      if slot = h.historyIndex % cliHistorySize then cliStrcpy (h.history slot) line cliMaxInputLen
      else h.history slot,
      h.historyIndex + 1⟩

/-- `hist_count`. -/
def count (h : CliHistory) : ℕ :=
  if h.historyIndex < cliHistorySize then h.historyIndex else cliHistorySize

/-- The slot that is `histOff` lines back. -/
def slotBack (h : CliHistory) (histOff : ℕ) : List UInt8 :=
  h.history ((h.historyIndex + cliHistorySize * 2 - histOff) % cliHistorySize)

end CliHistory

/-! ## Keys -/

/-- `KEY_UP`. -/
def keyUp : UInt8 := 0x80

/-- `KEY_DOWN`. -/
def keyDown : UInt8 := 0x81

/-- `KEY_LEFT`. -/
def keyLeft : UInt8 := 0x82

/-- `KEY_RIGHT`. -/
def keyRight : UInt8 := 0x83

/-- `KEY_DEL`. -/
def keyDel : UInt8 := 0x84

/-- `KEY_HOME`. -/
def keyHome : UInt8 := 0x85

/-- `KEY_END`. -/
def keyEnd : UInt8 := 0x86

/-- A newline or a carriage return. -/
def isEnter (uc : UInt8) : Bool :=
  uc = 10 || uc = 13

/-! ## Line editor -/

/-- The locals of `cli_readline`. -/
structure CliInput where
  line : List UInt8
  len : ℕ
  cur : ℕ
  histOff : ℕ

/-- `for (; i < len - 1; i++) line[i] = line[i + 1]`, with `n` passes left. -/
def closeGap : ℕ → ℕ → List UInt8 → List UInt8
  | 0, _, line => line
  | n + 1, i, line => closeGap n (i + 1) (line.set i (line.getD (i + 1) 0))

/-- `for (; i > cur; i--) line[i] = line[i - 1]`. -/
def openGap (cur : ℕ) : ℕ → List UInt8 → List UInt8
  | 0, line => line
  | i + 1, line => if cur < i + 1 then openGap cur i (line.set (i + 1) (line.getD i 0)) else line

/-- `while (h[len] && len < max_len - 1) { line[len] = h[len]; len++; }`, at `h + len`. -/
def copyHistory (maxLen len : ℕ) (line : List UInt8) : List UInt8 → List UInt8 × ℕ
  | [] => (line, len)
  | c :: h =>
    if c ≠ 0 ∧ len < maxLen - 1 then copyHistory maxLen (len + 1) (line.set len c) h
    else (line, len)

namespace CliInput

/-- The locals at the first key. -/
def start : CliInput :=
  ⟨List.replicate cliMaxInputLen 0, 0, 0, 0⟩

/-- Replace the line by the one `histOff` lines back. -/
def browse (s : CliInput) (h : CliHistory) (maxLen histOff : ℕ) : CliInput :=
  let r := copyHistory maxLen 0 s.line (h.slotBack histOff)
  ⟨r.1.set r.2 0, r.2, r.2, histOff⟩

/-- The loop of `cli_readline` for a key other than Enter. -/
def readKey (h : CliHistory) (maxLen : ℕ) (s : CliInput) (uc : UInt8) : CliInput :=
  if uc = 8 ∨ uc = 0x7F then
    if 0 < s.cur then
      ⟨(closeGap (s.len - 1 - (s.cur - 1)) (s.cur - 1) s.line).set (s.len - 1) 0, s.len - 1,
        s.cur - 1, s.histOff⟩
    else s
  else if uc = keyDel then
    if s.cur < s.len then
      ⟨(closeGap (s.len - 1 - s.cur) s.cur s.line).set (s.len - 1) 0, s.len - 1, s.cur, s.histOff⟩
    else s
  else if uc = keyLeft then
    if 0 < s.cur then { s with cur := s.cur - 1 } else s
  else if uc = keyRight then
    if s.cur < s.len then { s with cur := s.cur + 1 } else s
  else if uc = keyHome then { s with cur := 0 }
  else if uc = keyEnd then { s with cur := s.len }
  else if uc = keyUp then
    if s.histOff < h.count then s.browse h maxLen (s.histOff + 1) else s
  else if uc = keyDown then
    if 1 < s.histOff then s.browse h maxLen (s.histOff - 1)
    else if s.histOff = 1 then ⟨s.line.set 0 0, 0, 0, 0⟩
    else s
  else if 32 ≤ uc ∧ uc < 127 ∧ s.len < maxLen - 1 then
    ⟨((openGap s.cur s.len s.line).set s.cur uc).set (s.len + 1) 0, s.len + 1, s.cur + 1,
      s.histOff⟩
  else s

/-- The loop of `cli_readline` : the locals at Enter and the keys behind it, `none` while it
waits for a key. -/
def readKeys (h : CliHistory) (maxLen : ℕ) (s : CliInput) :
    List UInt8 → Option (CliInput × List UInt8)
  | [] => none
  | uc :: keys =>
    if isEnter uc then some (s, keys) else (s.readKey h maxLen uc).readKeys h maxLen keys

end CliInput

/-- `cli_readline` : what is in `buf`, the length it returns and the keys that are left. -/
def cliReadline (h : CliHistory) (buf : List UInt8) (maxLen : ℕ) (keys : List UInt8) :
    Option (List UInt8 × ℕ × List UInt8) :=
  if maxLen < 2 then some (buf, 0, keys)
  else
    (CliInput.start.readKeys h maxLen keys).map fun r =>
      (cliStrcpy buf r.1.line maxLen, r.1.len, r.2)

/-- One pass of `cli_shell_loop` : the line that is entered, `none` for an empty one, the history
behind it and the keys that are left. -/
def cliShellPass (h : CliHistory) (keys : List UInt8) :
    Option (Option (List UInt8) × CliHistory × List UInt8) :=
  (cliReadline h (List.replicate cliMaxInputLen 0) cliMaxInputLen keys).map fun r =>
    if r.2.1 = 0 then (none, h, r.2.2) else (some (cStr r.1), h.push r.1, r.2.2)

/-- The history after passes of the shell loop in which these lines were entered. -/
inductive Entered : CliHistory → List (List UInt8) → Prop
  | start : Entered CliHistory.cleared []
  | line {h h' : CliHistory} {lines : List (List UInt8)} {line keys rest : List UInt8} :
    Entered h lines → cliShellPass h keys = some (some line, h', rest) →
      Entered h' (lines ++ [line])

/-! ## Reference editor -/

/-- The edit that a key stands for. -/
def editOf (uc : UInt8) : Option (Edit UInt8) :=
  if uc = 8 ∨ uc = 0x7F then some .backspace
  else if uc = keyDel then some .delete
  else if uc = keyLeft then some .left
  else if uc = keyRight then some .right
  else if uc = keyHome then some .home
  else if uc = keyEnd then some .toEnd
  else if uc = keyUp then some .up
  else if uc = keyDown then some .down
  else if 32 ≤ uc ∧ uc < 127 then some (.insert uc)
  else none

/-- The `k`-th most recent line, as far as it fits. -/
def recentLine (maxLen : ℕ) (lines : List (List UInt8)) (k : ℕ) : List UInt8 :=
  (lines.getD (lines.length - k) []).take (maxLen - 1)

/-- The line that an editor with these lines behind it has after these keys. -/
def referenceLine (maxLen : ℕ) (lines : List (List UInt8)) (typed : List UInt8) : List UInt8 :=
  (Editor.empty.run (maxLen - 1) (min lines.length cliHistorySize) (recentLine maxLen lines)
    (typed.filterMap editOf)).text

/-- With the lines `lines` behind it, `cli_readline` returns the reference line for every sequence
of keys that ends in Enter. -/
def ReadsExactly (h : CliHistory) (lines : List (List UInt8)) (maxLen : ℕ) : Prop :=
  ∀ (typed : List UInt8) (enter : UInt8) (rest : List UInt8), (∀ uc ∈ typed, isEnter uc = false) →
    isEnter enter = true →
    ∃ buf, cliReadline h (List.replicate maxLen 0) maxLen (typed ++ enter :: rest) =
      some (buf, (referenceLine maxLen lines typed).length, rest) ∧
      cStr buf = referenceLine maxLen lines typed

/-- Each line that can be shown fills the line editor, or is as long as every earlier one of its
slot. -/
def CoverSlots (lines : List (List UInt8)) (maxLen : ℕ) : Prop :=
  ∀ j < lines.length, lines.length ≤ j + cliHistorySize →
    maxLen - 1 ≤ (lines.getD j []).length ∨
    ∀ i < j, i % cliHistorySize = j % cliHistorySize →
      (lines.getD i []).length ≤ (lines.getD j []).length

/-! ## The bytes of the line -/

theorem closeGap_eq (b : List UInt8) : ∀ (a : List UInt8) (z x : UInt8) (rest : List UInt8),
    closeGap b.length a.length (a ++ z :: (b ++ x :: rest)) =
      a ++ b ++ (z :: b).getLast (List.cons_ne_nil z b) :: x :: rest := by
  induction b with
  | nil =>
    intro a z x rest
    simp [closeGap]
  | cons y b ih =>
    intro a z x rest
    have hget : (a ++ z :: (y :: b ++ x :: rest)).getD (a.length + 1) 0 = y := by
      simp [List.getD_eq_getElem?_getD]
    have hset : (a ++ z :: (y :: b ++ x :: rest)).set a.length y =
        (a ++ [y]) ++ y :: (b ++ x :: rest) := by
      simp
    have hlen : (a ++ [y]).length = a.length + 1 := by simp
    rw [List.length_cons, closeGap, hget, hset, ← hlen, ih, List.getLast_cons_cons]
    simp

/-- Backspace and Delete : one character less. -/
theorem closeGap_erase {text : List UInt8} (rest : List UInt8) {k : ℕ} (hk : k < text.length) :
    (closeGap (text.length - 1 - k) k (text ++ 0 :: rest)).set (text.length - 1) 0 =
      text.eraseIdx k ++ 0 :: 0 :: rest := by
  obtain ⟨a, z, b, rfl, rfl⟩ : ∃ a z b, text = a ++ z :: b ∧ k = a.length :=
    ⟨text.take k, text[k], text.drop (k + 1), by simp, (List.length_take_of_le hk.le).symm⟩
  have hpasses : (a ++ z :: b).length - 1 - a.length = b.length := by simp
  have hend : (a ++ z :: b).length - 1 = (a ++ b).length := by simp
  have herase : (a ++ z :: b).eraseIdx a.length = a ++ b := by
    rw [List.eraseIdx_append_of_length_le le_rfl]
    simp
  rw [hpasses, hend, herase, List.append_assoc, List.cons_append, closeGap_eq,
    List.set_append_right _ _ le_rfl]
  simp

theorem openGap_eq (a b : List UInt8) : ∀ (x : UInt8) (rest : List UInt8),
    openGap a.length (a.length + b.length) (a ++ (b ++ x :: rest)) =
      a ++ b.headD x :: (b ++ rest) := by
  induction b using List.reverseRecOn with
  | nil =>
    intro x rest
    cases a with
    | nil => rfl
    | cons y a => simp [openGap]
  | append_singleton b z ih =>
    intro x rest
    have hget : (a ++ (b ++ [z] ++ x :: rest)).getD (a.length + b.length) 0 = z := by
      rw [← List.length_append, List.append_assoc b, ← List.append_assoc a]
      simp [List.getD_eq_getElem?_getD]
    have hset : (a ++ (b ++ [z] ++ x :: rest)).set (a.length + b.length + 1) z =
        a ++ (b ++ z :: (z :: rest)) := by
      have hlen : a.length + b.length + 1 = (a ++ (b ++ [z])).length := by
        simp [Nat.add_assoc]
      rw [hlen, ← List.append_assoc a, List.set_append_right _ _ le_rfl]
      simp
    rw [List.length_append, List.length_singleton, ← Nat.add_assoc, openGap,
      if_pos (by omega), hget, hset, ih]
    cases b <;> simp

/-- A character is inserted. -/
theorem openGap_insert {text rest : List UInt8} {k : ℕ} (hk : k ≤ text.length) (c y : UInt8) :
    ((openGap k text.length (text ++ 0 :: y :: rest)).set k c).set (text.length + 1) 0 =
      text.take k ++ c :: text.drop k ++ 0 :: rest := by
  have hgap := openGap_eq (text.take k) (text.drop k) 0 (y :: rest)
  rw [← List.append_assoc, List.take_append_drop, ← List.length_append,
    List.take_append_drop, List.length_take_of_le hk] at hgap
  have hset : (text.take k ++ (text.drop k).headD 0 :: (text.drop k ++ y :: rest)).set k c =
      (text.take k ++ c :: text.drop k) ++ y :: rest := by
    rw [List.set_append_right _ _ (List.length_take_le _ _), List.length_take_of_le hk]
    simp
  have hend : text.length + 1 = (text.take k ++ c :: text.drop k).length := by
    rw [List.length_append, List.length_cons, List.length_take_of_le hk, List.length_drop]
    omega
  rw [hgap, hset, hend, List.set_append_right _ _ le_rfl]
  simp

/-- A line of the history is copied. -/
theorem copyHistory_eq {maxLen : ℕ} (h : List UInt8) : ∀ (a rest : List UInt8),
    maxLen ≤ a.length + rest.length →
    copyHistory maxLen a.length (a ++ rest) h =
      (a ++ (cStr h).take (maxLen - 1 - a.length) ++
        rest.drop ((cStr h).take (maxLen - 1 - a.length)).length,
      a.length + ((cStr h).take (maxLen - 1 - a.length)).length) := by
  induction h with
  | nil =>
    intro a rest _
    simp [copyHistory, cStr]
  | cons c h ih =>
    intro a rest hroom
    unfold copyHistory
    by_cases hc : c = 0
    · simp [hc, cStr]
    by_cases hlt : a.length < maxLen - 1
    · rw [if_pos ⟨hc, hlt⟩]
      obtain ⟨y, rest, rfl⟩ : ∃ y rest', rest = y :: rest' := by
        cases rest with
        | nil => simp at hroom; omega
        | cons y rest => exact ⟨y, rest, rfl⟩
      have hset : (a ++ y :: rest).set a.length c = (a ++ [c]) ++ rest := by simp
      have hlen : (a ++ [c]).length = a.length + 1 := by simp
      have hcstr : cStr (c :: h) = c :: cStr h := by simp [cStr, hc]
      obtain ⟨m, hm⟩ : ∃ m, maxLen - 1 - a.length = m + 1 := ⟨maxLen - 1 - a.length - 1, by omega⟩
      rw [hset, ← hlen, ih (a ++ [c]) rest (by simp at hroom ⊢; omega), hlen, hcstr,
        (by omega : maxLen - 1 - (a.length + 1) = m), hm]
      simp
      omega
    · rw [if_neg fun hand => hlt hand.2, (by omega : maxLen - 1 - a.length = 0)]
      simp

/-! ## Refinement -/

/-- The string that Up shows `k` lines back. -/
def CliHistory.recall (h : CliHistory) (maxLen k : ℕ) : List UInt8 :=
  (cStr (h.slotBack k)).take (maxLen - 1)

/-- The locals hold the text and the cursor of the editor. -/
structure CliInput.Refines (s : CliInput) (maxLen : ℕ) (e : Editor UInt8) : Prop where
  line : ∃ rest, s.line = e.text ++ 0 :: rest
  size : s.line.length = cliMaxInputLen
  len : s.len = e.text.length
  cur : s.cur = e.cursor
  histOff : s.histOff = e.back
  noNul : 0 ∉ e.text
  short : e.text.length ≤ maxLen - 1

section Refinement

variable {h : CliHistory} {maxLen : ℕ} {s : CliInput} {e : Editor UInt8} {uc : UInt8}

theorem refines_start : CliInput.start.Refines maxLen Editor.empty where
  line := ⟨List.replicate 255 0, List.replicate_succ⟩
  size := List.length_replicate
  len := rfl
  cur := rfl
  histOff := rfl
  noNul := by simp [Editor.empty]
  short := Nat.zero_le _

theorem refines_browse (hs : s.Refines maxLen e) (h2 : 2 ≤ maxLen) (hmax : maxLen ≤ cliMaxInputLen)
    (k : ℕ) : (s.browse h maxLen k).Refines maxLen (Editor.replace (h.recall maxLen k) k) := by
  have hsize := hs.size
  have hcopy : copyHistory maxLen 0 s.line (h.slotBack k) =
      (h.recall maxLen k ++ s.line.drop (h.recall maxLen k).length,
        (h.recall maxLen k).length) := by
    simpa [CliHistory.recall] using copyHistory_eq (h.slotBack k) [] s.line (by simpa [hsize])
  have hle : (h.recall maxLen k).length ≤ maxLen - 1 := List.length_take_le _ _
  have hrun : s.browse h maxLen k =
      ⟨(h.recall maxLen k ++ s.line.drop (h.recall maxLen k).length).set
          (h.recall maxLen k).length 0,
        (h.recall maxLen k).length, (h.recall maxLen k).length, k⟩ := by
    simp only [CliInput.browse, hcopy]
  rw [hrun]
  refine ⟨?_, ?_, rfl, rfl, rfl, ?_, hle⟩
  · cases hrest : s.line.drop (h.recall maxLen k).length with
    | nil =>
      have hdrop := congrArg List.length hrest
      rw [List.length_drop, List.length_nil] at hdrop
      omega
    | cons y rest =>
      refine ⟨rest, ?_⟩
      simp [Editor.replace]
  · simp only [List.length_set, List.length_append, List.length_drop]
    omega
  · exact fun h0 => zero_notMem_cStr _ (List.mem_of_mem_take h0)

theorem refines_move (hs : s.Refines maxLen e) {s' : CliInput} {cur : ℕ}
    (hs' : s' = { s with cur := cur }) (hcur : cur ≤ e.text.length) :
    s'.Refines maxLen ⟨e.text, cur, e.back, hcur⟩ := by
  rw [hs']
  exact ⟨hs.line, hs.size, hs.len, rfl, hs.histOff, hs.noNul, hs.short⟩

theorem refines_erase (hs : s.Refines maxLen e) {k : ℕ} (hk : k < e.text.length) {cur : ℕ}
    (hcur : cur ≤ (e.text.eraseIdx k).length) :
    CliInput.Refines ⟨(closeGap (s.len - 1 - k) k s.line).set (s.len - 1) 0, s.len - 1, cur,
      s.histOff⟩ maxLen ⟨e.text.eraseIdx k, cur, e.back, hcur⟩ := by
  obtain ⟨⟨rest, hline⟩, hsize, hlen, -, hoff, hnul, hshort⟩ := hs
  have hbytes := closeGap_erase rest hk
  rw [← hline, ← hlen] at hbytes
  have hlen' := List.length_eraseIdx_of_lt hk
  rw [hline, List.length_append, List.length_cons] at hsize
  refine ⟨⟨0 :: rest, hbytes⟩, ?_, by rw [hlen, hlen'], rfl, hoff,
    fun h0 => hnul (List.mem_of_mem_eraseIdx h0), by rw [hlen']; omega⟩
  change (List.set _ _ _).length = _
  rw [hbytes, List.length_append, hlen', ← hsize]
  simp only [List.length_cons]
  omega

theorem refines_insert (hs : s.Refines maxLen e) (hmax : maxLen ≤ cliMaxInputLen) (hc : uc ≠ 0)
    (hroom : s.len < maxLen - 1)
    (hcur : e.cursor + 1 ≤ (e.text.take e.cursor ++ uc :: e.text.drop e.cursor).length) :
    CliInput.Refines ⟨((openGap s.cur s.len s.line).set s.cur uc).set (s.len + 1) 0, s.len + 1,
      s.cur + 1, s.histOff⟩ maxLen
      ⟨e.text.take e.cursor ++ uc :: e.text.drop e.cursor, e.cursor + 1, e.back, hcur⟩ := by
  obtain ⟨⟨rest, hline⟩, hsize, hlen, hcur', hoff, hnul, hshort⟩ := hs
  rw [hline, List.length_append, List.length_cons] at hsize
  obtain ⟨y, rest, rfl⟩ : ∃ y rest', rest = y :: rest' := by
    cases rest with
    | nil => simp at hsize; omega
    | cons y rest => exact ⟨y, rest, rfl⟩
  have hbytes : ((openGap s.cur s.len s.line).set s.cur uc).set (s.len + 1) 0 =
      e.text.take e.cursor ++ uc :: e.text.drop e.cursor ++ 0 :: rest := by
    rw [hline, hlen, hcur']
    exact openGap_insert e.inside uc y
  have hlen' : (e.text.take e.cursor ++ uc :: e.text.drop e.cursor).length = e.text.length + 1 := by
    have hin := e.inside
    rw [List.length_append, List.length_cons, List.length_take_of_le hin, List.length_drop]
    omega
  refine ⟨⟨rest, hbytes⟩, ?_, (congrArg (· + 1) hlen).trans hlen'.symm, congrArg (· + 1) hcur',
    hoff, ?_, ?_⟩
  · change (List.set _ _ _).length = _
    rw [hbytes, List.length_append, hlen', ← hsize]
    simp only [List.length_cons]
    omega
  · intro h0
    rcases List.mem_append.mp h0 with h0 | h0
    · exact hnul (List.mem_of_mem_take h0)
    · rcases List.mem_cons.mp h0 with h0 | h0
      · exact hc h0.symm
      · exact hnul (List.mem_of_mem_drop h0)
  · refine hlen'.le.trans ?_
    omega

theorem refines_clear (hs : s.Refines maxLen e) :
    CliInput.Refines ⟨s.line.set 0 0, 0, 0, 0⟩ maxLen Editor.empty := by
  have hsize := hs.size
  cases hline : s.line with
  | nil =>
    rw [hline] at hsize
    exact absurd hsize (by decide)
  | cons c rest =>
    rw [hline] at hsize
    exact ⟨⟨rest, rfl⟩, hsize, rfl, rfl, rfl, by simp [Editor.empty], Nat.zero_le _⟩

/-- A key does to the bytes what its edit does to the text. -/
theorem refines_readKey (hs : s.Refines maxLen e) (h2 : 2 ≤ maxLen)
    (hmax : maxLen ≤ cliMaxInputLen) (uc : UInt8) :
    (s.readKey h maxLen uc).Refines maxLen
      (((editOf uc).map (e.step (maxLen - 1) h.count (h.recall maxLen))).getD e) := by
  have hin := e.inside
  have hlen := hs.len
  have hcur := hs.cur
  have hoff := hs.histOff
  unfold CliInput.readKey editOf
  by_cases hback : uc = 8 ∨ uc = 0x7F
  · rw [if_pos hback, if_pos hback]
    simp only [Option.map_some, Option.getD_some, Editor.step]
    by_cases h0 : 0 < e.cursor
    · rw [if_pos (hcur ▸ h0), dif_pos h0, hcur]
      exact refines_erase hs (by omega) _
    · rw [if_neg (hcur ▸ h0), dif_neg h0]
      exact hs
  rw [if_neg hback, if_neg hback]
  by_cases hdel : uc = keyDel
  · rw [if_pos hdel, if_pos hdel]
    simp only [Option.map_some, Option.getD_some, Editor.step]
    by_cases hlt : e.cursor < e.text.length
    · rw [if_pos (by rwa [hcur, hlen]), dif_pos hlt, hcur]
      exact refines_erase hs hlt _
    · rw [if_neg (by rwa [hcur, hlen]), dif_neg hlt]
      exact hs
  rw [if_neg hdel, if_neg hdel]
  by_cases hleft : uc = keyLeft
  · rw [if_pos hleft, if_pos hleft]
    refine refines_move hs ?_ ((Nat.sub_le _ _).trans hin)
    split_ifs
    · rw [hcur]
    · rw [(by omega : e.cursor - 1 = s.cur)]
  rw [if_neg hleft, if_neg hleft]
  by_cases hright : uc = keyRight
  · rw [if_pos hright, if_pos hright]
    refine refines_move hs ?_ (min_le_right _ _)
    split_ifs
    · rw [(by omega : min (e.cursor + 1) e.text.length = s.cur + 1)]
    · rw [(by omega : min (e.cursor + 1) e.text.length = s.cur)]
  rw [if_neg hright, if_neg hright]
  by_cases hhome : uc = keyHome
  · rw [if_pos hhome, if_pos hhome]
    exact refines_move hs rfl (Nat.zero_le _)
  rw [if_neg hhome, if_neg hhome]
  by_cases hend : uc = keyEnd
  · rw [if_pos hend, if_pos hend]
    exact refines_move hs (by rw [hlen]) le_rfl
  rw [if_neg hend, if_neg hend]
  by_cases hup : uc = keyUp
  · rw [if_pos hup, if_pos hup]
    simp only [Option.map_some, Option.getD_some, Editor.step]
    by_cases hlt : e.back < h.count
    · rw [if_pos (hoff ▸ hlt), if_pos hlt, hoff]
      exact refines_browse hs h2 hmax _
    · rw [if_neg (hoff ▸ hlt), if_neg hlt]
      exact hs
  rw [if_neg hup, if_neg hup]
  by_cases hdown : uc = keyDown
  · rw [if_pos hdown, if_pos hdown]
    simp only [Option.map_some, Option.getD_some, Editor.step]
    by_cases h1 : 1 < e.back
    · rw [if_pos (hoff ▸ h1), if_pos h1, hoff]
      exact refines_browse hs h2 hmax _
    rw [if_neg (hoff ▸ h1), if_neg h1]
    by_cases h1 : e.back = 1
    · rw [if_pos (hoff ▸ h1), if_pos h1]
      exact refines_clear hs
    · rw [if_neg (hoff ▸ h1), if_neg h1]
      exact hs
  rw [if_neg hdown, if_neg hdown]
  by_cases hprint : 32 ≤ uc ∧ uc < 127
  · rw [if_pos hprint]
    simp only [Option.map_some, Option.getD_some, Editor.step]
    by_cases hroom : e.text.length < maxLen - 1
    · rw [if_pos ⟨hprint.1, hprint.2, hlen ▸ hroom⟩, if_pos hroom]
      exact refines_insert hs hmax (by rintro rfl; exact absurd hprint.1 (by decide))
        (hlen ▸ hroom) _
    · rw [if_neg fun hand => hroom (hlen ▸ hand.2.2), if_neg hroom]
      exact hs
  · rw [if_neg fun hand => hprint ⟨hand.1, hand.2.1⟩, if_neg hprint]
    exact hs

theorem refines_readKeys (h2 : 2 ≤ maxLen) (hmax : maxLen ≤ cliMaxInputLen) {enter : UInt8}
    (henter : isEnter enter = true) (rest : List UInt8) {typed : List UInt8} :
    ∀ {s : CliInput} {e : Editor UInt8}, s.Refines maxLen e →
    (∀ uc ∈ typed, isEnter uc = false) →
    ∃ s', s.readKeys h maxLen (typed ++ enter :: rest) = some (s', rest) ∧
      s'.Refines maxLen
        (e.run (maxLen - 1) h.count (h.recall maxLen) (typed.filterMap editOf)) := by
  induction typed with
  | nil =>
    intro s e hs _
    exact ⟨s, by simp [CliInput.readKeys, henter], hs⟩
  | cons uc typed ih =>
    intro s e hs htyped
    have huc : isEnter uc = false := htyped uc List.mem_cons_self
    have hkey := refines_readKey (h := h) hs h2 hmax uc
    obtain ⟨s', hread, hs'⟩ := ih hkey fun uc' huc' => htyped uc' (List.mem_cons_of_mem _ huc')
    refine ⟨s', ?_, ?_⟩
    · rw [List.cons_append, CliInput.readKeys, huc]
      exact hread
    · cases hedit : editOf uc with
      | none =>
        rw [hedit] at hs'
        rw [List.filterMap_cons_none hedit]
        exact hs'
      | some edit =>
        rw [hedit] at hs'
        rw [List.filterMap_cons_some hedit]
        exact hs'

end Refinement

/-- The line that the editor has after these keys if Up shows the strings in the slots. -/
def CliHistory.typedLine (h : CliHistory) (maxLen : ℕ) (typed : List UInt8) : List UInt8 :=
  (Editor.empty.run (maxLen - 1) h.count (h.recall maxLen) (typed.filterMap editOf)).text

/-- `cli_readline` returns the line of an editor that remembers the strings in the slots. -/
theorem readline_eq (h : CliHistory) {maxLen : ℕ} (h2 : 2 ≤ maxLen)
    (hmax : maxLen ≤ cliMaxInputLen) {typed : List UInt8} {enter : UInt8} (rest : List UInt8)
    (htyped : ∀ uc ∈ typed, isEnter uc = false) (henter : isEnter enter = true) :
    ∃ buf, cliReadline h (List.replicate maxLen 0) maxLen (typed ++ enter :: rest) =
      some (buf, (h.typedLine maxLen typed).length, rest) ∧
      cStr buf = h.typedLine maxLen typed := by
  obtain ⟨s', hread, hs'⟩ :=
    refines_readKeys (h := h) h2 hmax henter rest refines_start htyped
  obtain ⟨tail, hline⟩ := hs'.line
  refine ⟨cliStrcpy (List.replicate maxLen 0) s'.line maxLen, ?_, ?_⟩
  · rw [cliReadline, if_neg (by omega), hread, Option.map_some, hs'.len]
    rfl
  · rw [cStr_cliStrcpy_zero _ (by omega), hline, cStr_append_zero hs'.noNul]
    exact List.take_of_length_le hs'.short

/-! ## Slots -/

/-- The string left of lines that were copied over each other. -/
def overlay (lines : List (List UInt8)) : List UInt8 :=
  lines.foldl (fun old line => line ++ old.drop line.length) []

theorem overlay_concat (lines : List (List UInt8)) (line : List UInt8) :
    overlay (lines ++ [line]) = line ++ (overlay lines).drop line.length := by
  rw [overlay, List.foldl_append]
  rfl

theorem length_overlay_le_iff (lines : List (List UInt8)) (m : ℕ) :
    (overlay lines).length ≤ m ↔ ∀ line ∈ lines, line.length ≤ m := by
  induction lines using List.reverseRecOn with
  | nil => simp [overlay]
  | append_singleton lines line ih =>
    rw [overlay_concat, List.length_append, List.length_drop, List.forall_mem_append, ← ih]
    simp only [List.mem_singleton, forall_eq]
    omega

theorem zero_notMem_overlay {lines : List (List UInt8)} (h : ∀ line ∈ lines, 0 ∉ line) :
    0 ∉ overlay lines := by
  induction lines using List.reverseRecOn with
  | nil => simp [overlay]
  | append_singleton lines line ih =>
    rw [overlay_concat, List.mem_append]
    rintro (h0 | h0)
    · exact h line (by simp) h0
    · exact ih (fun l hl => h l (List.mem_append_left _ hl)) (List.mem_of_mem_drop h0)

/-- A line shows as it is, as far as it fits, exactly if it fills the editor or is as long as
every line below it. -/
theorem take_overlay_iff (lines : List (List UInt8)) (line : List UInt8) (m : ℕ) :
    (overlay (lines ++ [line])).take m = line.take m ↔
      m ≤ line.length ∨ ∀ l ∈ lines, l.length ≤ line.length := by
  rw [overlay_concat, ← length_overlay_le_iff]
  constructor
  · intro heq
    by_contra! hlong
    have hlen := congrArg List.length heq
    simp only [List.length_take, List.length_append, List.length_drop] at hlen
    omega
  · rintro (hfill | hle)
    · rw [List.take_append_of_le_length hfill]
    · rw [List.drop_of_length_le hle, List.append_nil]

/-- The lines that went into a slot. -/
def slotLines (lines : List (List UInt8)) (slot : ℕ) : List (List UInt8) :=
  ((List.range lines.length).filter fun i => i % cliHistorySize = slot).map fun i =>
    lines.getD i []

theorem slotLines_concat (lines : List (List UInt8)) (line : List UInt8) (slot : ℕ) :
    slotLines (lines ++ [line]) slot =
      slotLines lines slot ++ if lines.length % cliHistorySize = slot then [line] else [] := by
  have hold : ∀ i ∈ (List.range lines.length).filter (fun i => i % cliHistorySize = slot),
      (lines ++ [line]).getD i [] = lines.getD i [] := by
    intro i hi
    have hlt := List.mem_range.mp (List.mem_of_mem_filter hi)
    rw [List.getD_eq_getElem?_getD, List.getD_eq_getElem?_getD, List.getElem?_append_left hlt]
  rw [slotLines, List.length_append, List.length_singleton, List.range_succ, List.filter_append,
    List.map_append, List.map_congr_left hold]
  congr 1
  by_cases hslot : lines.length % cliHistorySize = slot
  · simp [hslot, List.getD_eq_getElem?_getD]
  · simp [hslot]

theorem slotLines_append {lines more : List (List UInt8)} {slot : ℕ}
    (h : ∀ i, lines.length ≤ i → i < lines.length + more.length → i % cliHistorySize ≠ slot) :
    slotLines (lines ++ more) slot = slotLines lines slot := by
  induction more using List.reverseRecOn with
  | nil => rw [List.append_nil]
  | append_singleton more line ih =>
    rw [List.length_append, List.length_singleton] at h
    have hlast : (lines ++ more).length % cliHistorySize ≠ slot :=
      h _ (by simp) (by simp)
    rw [← List.append_assoc, slotLines_concat, if_neg hlast, List.append_nil]
    exact ih fun i hi hlt => h i hi (by omega)

theorem mem_slotLines {lines : List (List UInt8)} {slot : ℕ} {line : List UInt8} :
    line ∈ slotLines lines slot ↔
      ∃ i < lines.length, i % cliHistorySize = slot ∧ lines.getD i [] = line := by
  simp [slotLines, and_assoc]

/-- The last line of a slot, as long as no later one went into it, over the ones before. -/
theorem slotLines_last {lines : List (List UInt8)} {j : ℕ} (hj : j < lines.length)
    (hlate : lines.length ≤ j + cliHistorySize) :
    slotLines lines (j % cliHistorySize) =
      slotLines (lines.take j) (j % cliHistorySize) ++ [lines.getD j []] := by
  have hsplit : lines = (lines.take j ++ [lines.getD j []]) ++ lines.drop (j + 1) := by
    rw [List.getD_eq_getElem?_getD, List.getElem?_eq_getElem hj, Option.getD_some,
      List.append_assoc, List.singleton_append, ← List.drop_eq_getElem_cons hj,
      List.take_append_drop]
  have hlen : (lines.take j ++ [lines.getD j []]).length = j + 1 := by
    rw [List.length_append, List.length_take_of_le hj.le, List.length_singleton]
  have hlast : (lines.take j).length % cliHistorySize = j % cliHistorySize := by
    rw [List.length_take_of_le hj.le]
  have hmore : slotLines ((lines.take j ++ [lines.getD j []]) ++ lines.drop (j + 1))
      (j % cliHistorySize) =
        slotLines (lines.take j ++ [lines.getD j []]) (j % cliHistorySize) := by
    refine slotLines_append fun i hi hlt => ?_
    rw [hlen, List.length_drop] at hlt
    rw [hlen] at hi
    unfold cliHistorySize at hlate ⊢
    omega
  rw [← hsplit] at hmore
  rw [hmore, slotLines_concat, if_pos hlast]

/-! ## Entered lines -/

/-- The slots hold the lines that were entered, copied over each other. -/
structure CliHistory.Stores (h : CliHistory) (lines : List (List UInt8)) : Prop where
  index : h.historyIndex = lines.length
  slot : ∀ k < cliHistorySize, h.history k = overlay (slotLines lines k) ++
    List.replicate (cliMaxInputLen - (overlay (slotLines lines k)).length) 0
  noNul : ∀ line ∈ lines, 0 ∉ line
  short : ∀ line ∈ lines, line.length < cliMaxInputLen

section Entered

variable {h h' : CliHistory} {lines : List (List UInt8)}

theorem CliHistory.Stores.length_overlay_lt (hs : h.Stores lines) (k : ℕ) :
    (overlay (slotLines lines k)).length < cliMaxInputLen := by
  refine Nat.lt_of_le_pred (by decide) ((length_overlay_le_iff _ _).mpr fun line hline => ?_)
  obtain ⟨i, hi, -, rfl⟩ := mem_slotLines.mp hline
  rw [List.getD_eq_getElem?_getD, List.getElem?_eq_getElem hi]
  exact Nat.le_pred_of_lt (hs.short _ (List.getElem_mem hi))

theorem CliHistory.Stores.zero_notMem (hs : h.Stores lines) (k : ℕ) :
    0 ∉ overlay (slotLines lines k) := by
  refine zero_notMem_overlay fun line hline => ?_
  obtain ⟨i, hi, -, rfl⟩ := mem_slotLines.mp hline
  rw [List.getD_eq_getElem?_getD, List.getElem?_eq_getElem hi]
  exact hs.noNul _ (List.getElem_mem hi)

/-- `cli_strcpy` over a string with zeros behind it. -/
theorem cliStrcpy_zeros {old src : List UInt8} {max : ℕ} (hold : old.length < max)
    (hsrc : (cStr src).length < max) :
    cliStrcpy (old ++ List.replicate (max - old.length) 0) src max =
      (cStr src ++ old.drop (cStr src).length) ++
        List.replicate (max - (cStr src ++ old.drop (cStr src).length).length) 0 := by
  have hle : (cStr src ++ old.drop (cStr src).length).length ≤ max - 1 := by
    rw [List.length_append, List.length_drop]
    omega
  have hcount : max - old.length - ((cStr src).length - old.length) =
      max - (cStr src ++ old.drop (cStr src).length).length := by
    rw [List.length_append, List.length_drop]
    omega
  have hwhole : (cStr src).take (max - 1) = cStr src :=
    List.take_of_length_le (Nat.le_pred_of_lt hsrc)
  rw [cliStrcpy, hwhole, List.drop_append,
    List.drop_replicate, ← List.append_assoc, List.set_append_right _ _ hle,
    List.set_replicate_self, hcount]

theorem stores_cleared : CliHistory.cleared.Stores [] where
  index := rfl
  slot := fun _ _ => rfl
  noNul := by simp
  short := by simp

/-- What a pass of the shell loop enters. -/
theorem stores_push (hs : h.Stores lines) {buf : List UInt8} (hne : cStr buf ≠ [])
    (hshort : (cStr buf).length < cliMaxInputLen) : (h.push buf).Stores (lines ++ [cStr buf]) := by
  rw [CliHistory.push, if_neg hne]
  refine ⟨by simp [hs.index], fun k hk => ?_, ?_, ?_⟩
  · dsimp only
    rw [slotLines_concat, ← hs.index]
    by_cases hk' : k = h.historyIndex % cliHistorySize
    · rw [if_pos hk', if_pos hk'.symm, hs.slot k hk, overlay_concat,
        cliStrcpy_zeros (hs.length_overlay_lt k) hshort]
    · rw [if_neg hk', if_neg (Ne.symm hk'), List.append_nil]
      exact hs.slot k hk
  · rw [List.forall_mem_append]
    exact ⟨hs.noNul, by simpa using zero_notMem_cStr buf⟩
  · rw [List.forall_mem_append]
    exact ⟨hs.short, by simpa using hshort⟩

theorem exists_refines_readKeys {maxLen : ℕ} (h2 : 2 ≤ maxLen) (hmax : maxLen ≤ cliMaxInputLen)
    {keys rest : List UInt8} {s' : CliInput} : ∀ {s : CliInput} {e : Editor UInt8},
    s.Refines maxLen e → s.readKeys h maxLen keys = some (s', rest) →
      ∃ e', s'.Refines maxLen e' := by
  induction keys with
  | nil => exact fun _ hread => by cases hread
  | cons uc keys ih =>
    intro s e hs hread
    unfold CliInput.readKeys at hread
    split_ifs at hread
    · cases hread
      exact ⟨e, hs⟩
    · exact ih (refines_readKey hs h2 hmax uc) hread

theorem Entered.stores (he : Entered h lines) : h.Stores lines := by
  induction he with
  | start => exact stores_cleared
  | line _ hpass ih =>
    obtain ⟨r, hread, hr⟩ := Option.map_eq_some_iff.mp hpass
    rw [cliReadline, if_neg (by decide)] at hread
    obtain ⟨⟨s', rest'⟩, hkeys, rfl⟩ := Option.map_eq_some_iff.mp hread
    obtain ⟨e, hs'⟩ := exists_refines_readKeys (by decide) le_rfl refines_start hkeys
    obtain ⟨tail, hline⟩ := hs'.line
    dsimp only at hr
    split_ifs at hr with hlen
    · cases hr
    · cases hr
      have htext : cStr (cliStrcpy (List.replicate cliMaxInputLen 0) s'.line cliMaxInputLen) =
          e.text := by
        rw [cStr_cliStrcpy_zero _ (by decide), hline, cStr_append_zero hs'.noNul]
        exact List.take_of_length_le hs'.short
      refine stores_push ih ?_ ?_
      · rw [htext]
        rintro hnil
        exact hlen (by rw [hs'.len, hnil]; rfl)
      · rw [htext]
        exact hs'.short.trans_lt (by decide)

/-- What Up shows `k` lines back is the line there with the rest of longer ones behind it. -/
theorem CliHistory.Stores.recall_eq (hs : h.Stores lines) (maxLen : ℕ) {k : ℕ} (hk : 1 ≤ k)
    (hcount : k ≤ min lines.length cliHistorySize) :
    h.recall maxLen k = (overlay (slotLines (lines.take (lines.length - k))
      ((lines.length - k) % cliHistorySize) ++ [lines.getD (lines.length - k) []])).take
        (maxLen - 1) := by
  have hle : k ≤ cliHistorySize := hcount.trans (min_le_right _ _)
  have hle' : k ≤ lines.length := hcount.trans (min_le_left _ _)
  have hslot : (h.historyIndex + cliHistorySize * 2 - k) % cliHistorySize =
      (lines.length - k) % cliHistorySize := by
    rw [hs.index]
    unfold cliHistorySize at hle ⊢
    omega
  have hj : lines.length - k < lines.length := by omega
  have hlast := slotLines_last hj (by omega)
  rw [CliHistory.recall, CliHistory.slotBack, hslot, hs.slot _ (Nat.mod_lt _ (by decide)), ← hlast]
  congr 1
  obtain ⟨m, hm⟩ : ∃ m, cliMaxInputLen - (overlay (slotLines lines
      ((lines.length - k) % cliHistorySize))).length = m + 1 :=
    Nat.exists_eq_succ_of_ne_zero (Nat.sub_ne_zero_of_lt (hs.length_overlay_lt _))
  rw [hm, List.replicate_succ, cStr_append_zero (hs.zero_notMem _)]

theorem CliHistory.Stores.count_eq (hs : h.Stores lines) :
    h.count = min lines.length cliHistorySize := by
  rw [CliHistory.count, hs.index]
  split_ifs <;> omega

/-- Every line read is the reference line exactly if Up shows the lines as they were entered. -/
theorem readsExactly_iff_recall (hs : h.Stores lines) {maxLen : ℕ} (h2 : 2 ≤ maxLen)
    (hmax : maxLen ≤ cliMaxInputLen) : ReadsExactly h lines maxLen ↔
      ∀ k, 1 ≤ k → k ≤ min lines.length cliHistorySize →
        h.recall maxLen k = recentLine maxLen lines k := by
  have hcount := hs.count_eq
  constructor
  · intro hreads k hk hle
    obtain ⟨k, rfl⟩ := Nat.exists_eq_succ_of_ne_zero (by omega : k ≠ 0)
    have htyped : ∀ uc ∈ List.replicate (k + 1) keyUp, isEnter uc = false := by
      intro uc huc
      rw [List.eq_of_mem_replicate huc]
      rfl
    have hedits : (List.replicate (k + 1) keyUp).filterMap editOf =
        List.replicate (k + 1) Edit.up := by
      rw [List.filterMap_replicate_of_some (rfl : editOf keyUp = some .up)]
    obtain ⟨buf, hread, hbuf⟩ := hreads _ 10 [] htyped rfl
    obtain ⟨buf', hread', hbuf'⟩ := readline_eq h h2 hmax [] htyped (rfl : isEnter 10 = true)
    rw [hread] at hread'
    rw [← (Prod.mk.inj (Option.some.inj hread')).1] at hbuf'
    rw [CliHistory.typedLine, hedits, hcount, Editor.run_ups _ _ hle] at hbuf'
    rw [referenceLine, hedits, Editor.run_ups _ _ hle] at hbuf
    exact hbuf'.symm.trans hbuf
  · intro hrecall typed enter rest htyped henter
    have hline : h.typedLine maxLen typed = referenceLine maxLen lines typed := by
      rw [CliHistory.typedLine, referenceLine, hcount,
        Editor.run_congr hrecall _ (Nat.zero_le _)]
    rw [← hline]
    exact readline_eq h h2 hmax rest htyped henter

theorem readsExactly_iff (he : Entered h lines) {maxLen : ℕ} (h2 : 2 ≤ maxLen)
    (hmax : maxLen ≤ cliMaxInputLen) : ReadsExactly h lines maxLen ↔ CoverSlots lines maxLen := by
  have hs := he.stores
  rw [readsExactly_iff_recall hs h2 hmax]
  have hslot : ∀ j < lines.length, (∀ l ∈ slotLines (lines.take j) (j % cliHistorySize),
      l.length ≤ (lines.getD j []).length) ↔
      ∀ i < j, i % cliHistorySize = j % cliHistorySize →
        (lines.getD i []).length ≤ (lines.getD j []).length := by
    intro j hj
    have hget : ∀ i < j, (lines.take j).getD i [] = lines.getD i [] := by
      intro i hi
      rw [List.getD_eq_getElem?_getD, List.getD_eq_getElem?_getD, List.getElem?_take_of_lt hi]
    constructor
    · intro hall i hi hmod
      refine hall _ (mem_slotLines.mpr ⟨i, ?_, hmod, hget i hi⟩)
      rw [List.length_take_of_le hj.le]
      exact hi
    · intro hall l hl
      obtain ⟨i, hi, hmod, rfl⟩ := mem_slotLines.mp hl
      rw [List.length_take_of_le hj.le] at hi
      rw [hget i hi]
      exact hall i hi hmod
  constructor
  · intro hrecall j hj hlate
    have hk := hrecall (lines.length - j) (by omega) (le_min (by omega) (by omega))
    rw [hs.recall_eq maxLen (by omega) (le_min (by omega) (by omega)), recentLine,
      Nat.sub_sub_self hj.le, take_overlay_iff, hslot j hj] at hk
    exact hk
  · intro hcover k hk hle
    have hle' : k ≤ lines.length := hle.trans (min_le_left _ _)
    have hle50 : k ≤ cliHistorySize := hle.trans (min_le_right _ _)
    rw [hs.recall_eq maxLen hk hle, recentLine, take_overlay_iff,
      hslot _ (by omega : lines.length - k < lines.length)]
    exact hcover _ (by omega) (by omega)

end Entered

/-- A line that can be typed in. -/
def Typeable (line : List UInt8) : Prop :=
  line ≠ [] ∧ line.length < cliMaxInputLen ∧ ∀ c ∈ line, 32 ≤ c ∧ c < 127

theorem editOf_printable {c : UInt8} (h : 32 ≤ c ∧ c < 127) : editOf c = some (.insert c) := by
  have hne : ∀ d : UInt8, ¬ (32 ≤ d ∧ d < 127) → c ≠ d := by
    rintro d hd rfl
    exact hd h
  unfold editOf
  rw [if_neg (not_or_intro (hne 8 (by decide)) (hne 0x7F (by decide))),
    if_neg (hne keyDel (by decide)), if_neg (hne keyLeft (by decide)),
    if_neg (hne keyRight (by decide)), if_neg (hne keyHome (by decide)),
    if_neg (hne keyEnd (by decide)), if_neg (hne keyUp (by decide)),
    if_neg (hne keyDown (by decide)), if_pos h]

/-- Lines that are typed in are entered. -/
theorem exists_entered {lines : List (List UInt8)} (h : ∀ line ∈ lines, Typeable line) :
    ∃ hist, Entered hist lines := by
  induction lines using List.reverseRecOn with
  | nil => exact ⟨_, Entered.start⟩
  | append_singleton lines line ih =>
    obtain ⟨hist, he⟩ := ih fun l hl => h l (List.mem_append_left _ hl)
    obtain ⟨hne, hshort, hprint⟩ := h line (by simp)
    have htyped : ∀ uc ∈ line, isEnter uc = false := by
      intro uc huc
      have hge := (hprint uc huc).1
      rw [isEnter, Bool.or_eq_false_iff, decide_eq_false_iff_not, decide_eq_false_iff_not]
      constructor <;> rintro rfl <;> exact absurd hge (by decide)
    have hedits : line.filterMap editOf = line.map Edit.insert := by
      rw [← List.filterMap_eq_map]
      exact List.filterMap_congr fun c hc => editOf_printable (hprint c hc)
    have hline : hist.typedLine cliMaxInputLen line = line := by
      have hfit : ([] : List UInt8).length + line.length ≤ cliMaxInputLen - 1 := by
        simpa using Nat.le_pred_of_lt hshort
      have hrun := Editor.run_inserts hist.count (hist.recall cliMaxInputLen) 0 line hfit
      rw [CliHistory.typedLine, hedits]
      exact congrArg Editor.text hrun
    obtain ⟨buf, hread, hbuf⟩ :=
      readline_eq hist (by decide) le_rfl [] htyped (rfl : isEnter 10 = true)
    rw [hline] at hread hbuf
    have hpass : cliShellPass hist (line ++ [10]) = some (some line, hist.push buf, []) := by
      rw [cliShellPass, hread, Option.map_some, if_neg (by simpa using hne), hbuf]
    exact ⟨hist.push buf, Entered.line he hpass⟩

/-! ## Reading lines -/

/-- With the lines `lines` entered before, `cli_readline` returns the reference line for every
sequence of keys exactly if each line that Up can show fills the editor, or is as long as every
earlier one of its slot. -/
theorem readline_exact_iff {h : CliHistory} {lines : List (List UInt8)} (he : Entered h lines)
    {maxLen : ℕ} (h2 : 2 ≤ maxLen) (hmax : maxLen ≤ cliMaxInputLen) :
    ReadsExactly h lines maxLen ↔ CoverSlots lines maxLen :=
  readsExactly_iff he h2 hmax

theorem readline_exact_first :
    ∃ h, Entered h [utf8 "ls"] ∧ ReadsExactly h [utf8 "ls"] cliMaxInputLen := by
  have hlines : ∀ line ∈ [utf8 "ls"], Typeable line := by
    simp only [List.mem_singleton, forall_eq]
    exact ⟨by decide, by decide, by decide +kernel⟩
  obtain ⟨h, he⟩ := exists_entered hlines
  refine ⟨h, he, (readline_exact_iff he (by decide) le_rfl).mpr ?_⟩
  intro j hj _
  obtain rfl : j = 0 := Nat.lt_one_iff.mp hj
  exact Or.inr fun i hi => absurd hi (Nat.not_lt_zero i)

/-- `ab`, and then 50 times `a` : the next Up shows `ab`. -/
theorem not_readline_exact :
    ¬ ∀ h lines, Entered h lines → ∀ maxLen, 2 ≤ maxLen → maxLen ≤ cliMaxInputLen →
      ReadsExactly h lines maxLen := by
  intro hall
  have hlines : ∀ line ∈ utf8 "ab" :: List.replicate 50 (utf8 "a"), Typeable line := by
    intro line hline
    rcases List.mem_cons.mp hline with rfl | hline
    · exact ⟨by decide, by decide, by decide +kernel⟩
    · rw [List.eq_of_mem_replicate hline]
      exact ⟨by decide, by decide, by decide +kernel⟩
  obtain ⟨h, he⟩ := exists_entered hlines
  have hcover := (readsExactly_iff he (by decide) le_rfl).mp (hall h _ he _ (by decide) le_rfl)
  have hlast := hcover 50 (by simp) (by simp [cliHistorySize])
  revert hlast
  decide

end VernisOS
