import VernisOS.Lib.Ring
import VernisOS.Lib.Run

/-!
# The terminal's line discipline

`tty_push_char` and `tty_read` of `kernel/arch/x86_64/kernel_x64.c`. The discipline itself is
stated by `edit` and `LineOutput` : of the lines that end, each one that fits into the ring is
delivered whole, and of one that does not fit nothing is delivered, or a part with its newline.
The code copies what fits and then has no room for the newline, so a run follows the discipline
exactly if the ring is full, or has room for the whole line, whenever a line ends
(`line_discipline_iff`).
-/

open Ring Run

namespace VernisOS

/-- `TTY_BUF_SIZE`. -/
abbrev ttyBufSize : ℕ := 256

/-- The terminal : the ring that `tty_read` drains, and the line that is being typed. -/
structure KernelTTY where
  input : Cyclic UInt8 ttyBufSize
  cooked : Bool
  lineBuf : List UInt8
  lineReady : Bool
  inputWf : input.Wf
  lineFits : lineBuf.length < ttyBufSize

namespace KernelTTY

variable {tty : KernelTTY}

/-- An empty terminal in cooked mode. -/
def ttyInit : KernelTTY where
  input := ⟨fun _ => 0, 0, 0, 0⟩
  cooked := true
  lineBuf := []
  lineReady := false
  inputWf := Cyclic.wf_empty _ 0
  lineFits := Nat.zero_lt_succ _

/-- Copy bytes into the ring until it is full. -/
def emit (tty : KernelTTY) (bytes : List UInt8) : KernelTTY :=
  { tty with
    input := (Cyclic.fill bytes tty.input).2
    inputWf := (tty.inputWf.fill bytes).1 }

/-- Drop the last character of the line. -/
def backspace (tty : KernelTTY) : KernelTTY :=
  { tty with
    lineBuf := tty.lineBuf.dropLast
    lineFits := by
      have := tty.lineFits
      rw [List.length_dropLast]
      omega }

/-- Drop the line. -/
def clearLine (tty : KernelTTY) : KernelTTY :=
  { tty with lineBuf := [], lineFits := Nat.zero_lt_succ _ }

/-- Append a character to the line, if there is room for it and for the newline. -/
def type (tty : KernelTTY) (c : UInt8) : KernelTTY :=
  if h : tty.lineBuf.length < ttyBufSize - 1 then
    { tty with
      lineBuf := tty.lineBuf ++ [c]
      lineFits := by
        rw [List.length_append, List.length_singleton]
        omega }
  else tty

/-- The line and a newline are copied into the ring, as far as they fit. -/
def endLine (tty : KernelTTY) : KernelTTY :=
  { ((tty.emit tty.lineBuf).emit [10]).clearLine with lineReady := true }

/-- A character is typed. -/
def ttyPushChar (tty : KernelTTY) (c : UInt8) : KernelTTY :=
  if tty.cooked then
    if c = 10 ∨ c = 13 then tty.endLine
    else if c = 8 ∨ c = 127 then tty.backspace
    else if c = 3 then tty.clearLine
    else tty.type c
  else tty.emit [c]

/-- Read at most `max` bytes. -/
def ttyRead (tty : KernelTTY) (max : Int) : List UInt8 × KernelTTY :=
  let r := Cyclic.drain max.toNat tty.input
  (r.1, { tty with
    input := r.2
    inputWf := (tty.inputWf.drain max.toNat).1
    lineReady := if tty.cooked ∧ r.2.count = 0 then false else tty.lineReady })

/-- The bytes that wait in the ring. -/
def pending (tty : KernelTTY) : List UInt8 :=
  tty.input.content

theorem length_pending (tty : KernelTTY) : tty.pending.length = tty.input.count :=
  Cyclic.length_content _

theorem pending_emit (tty : KernelTTY) (bytes : List UInt8) :
    (tty.emit bytes).pending =
      tty.pending ++ bytes.take (min bytes.length (ttyBufSize - tty.input.count)) := by
  obtain ⟨-, hcount, hcontent⟩ := tty.inputWf.fill bytes
  rw [← hcount]
  exact hcontent

theorem count_emit (tty : KernelTTY) (bytes : List UInt8) :
    (tty.emit bytes).input.count =
      tty.input.count + min bytes.length (ttyBufSize - tty.input.count) := by
  rw [← length_pending, pending_emit, List.length_append, length_pending, List.length_take]
  omega

theorem pending_ttyRead (tty : KernelTTY) (max : Int) :
    (tty.ttyRead max).1 ++ (tty.ttyRead max).2.pending = tty.pending := by
  obtain ⟨-, htake, hdrop⟩ := tty.inputWf.drain max.toNat
  change (Cyclic.drain max.toNat tty.input).1 ++ (Cyclic.drain max.toNat tty.input).2.content = _
  rw [htake, hdrop]
  exact List.take_append_drop _ _

/-- A line that fits is emitted with its newline. -/
theorem pending_line_of_fits (h : tty.input.count + tty.lineBuf.length + 1 ≤ ttyBufSize) :
    ((tty.emit tty.lineBuf).emit [10]).pending = tty.pending ++ tty.lineBuf ++ [10] := by
  have hline : min tty.lineBuf.length (ttyBufSize - tty.input.count) = tty.lineBuf.length := by
    omega
  have hend : min [(10 : UInt8)].length (ttyBufSize - (tty.emit tty.lineBuf).input.count) = 1 := by
    rw [count_emit, hline, List.length_singleton]
    omega
  rw [pending_emit, hend, pending_emit, hline, List.take_length]
  rfl

/-- A line at a full ring is dropped. -/
theorem pending_line_of_full (h : tty.input.count = ttyBufSize) :
    ((tty.emit tty.lineBuf).emit [10]).pending = tty.pending := by
  have hline : min tty.lineBuf.length (ttyBufSize - tty.input.count) = 0 := by omega
  have hend : min [(10 : UInt8)].length (ttyBufSize - (tty.emit tty.lineBuf).input.count) = 0 := by
    rw [count_emit, hline]
    omega
  rw [pending_emit, hend, pending_emit, hline, List.take_zero, List.take_zero, List.append_nil,
    List.append_nil]

/-- Of any other line a part is emitted, and no newline. -/
theorem pending_line_of_cut (h : tty.input.count < ttyBufSize)
    (hlong : ttyBufSize < tty.input.count + tty.lineBuf.length + 1) :
    ((tty.emit tty.lineBuf).emit [10]).pending =
      tty.pending ++ tty.lineBuf.take (ttyBufSize - tty.input.count) := by
  have hline : min tty.lineBuf.length (ttyBufSize - tty.input.count) =
      ttyBufSize - tty.input.count := by omega
  have hend : min [(10 : UInt8)].length (ttyBufSize - (tty.emit tty.lineBuf).input.count) = 0 := by
    rw [count_emit, hline]
    omega
  rw [pending_emit, hend, pending_emit, hline, List.take_zero, List.append_nil]

end KernelTTY

/-! ## The discipline -/

/-- A character ends the line. -/
def IsLineEnd (c : UInt8) : Prop :=
  c = 10 ∨ c = 13

instance : DecidablePred IsLineEnd :=
  fun _ => inferInstanceAs (Decidable (_ ∨ _))

/-- What a character that ends no line does to the line : backspace, Ctrl-C, or one character more,
up to 255. -/
def edit (line : List UInt8) (c : UInt8) : List UInt8 :=
  if c = 8 ∨ c = 127 then line.dropLast
  else if c = 3 then []
  else if line.length < 255 then line ++ [c] else line

/-- What may be delivered of lines, some of which fit into the ring : each in order and with its
newline, and of one that does not fit only a part, or nothing. -/
inductive LineOutput : List (List UInt8 × Bool) → List UInt8 → Prop
  | nil : LineOutput [] []
  | whole {lines out} (line : List UInt8) (fits : Bool) :
    LineOutput lines out → LineOutput (lines ++ [(line, fits)]) (out ++ line ++ [10])
  | cut {lines out} (line part : List UInt8) :
    LineOutput lines out → part <+: line →
      LineOutput (lines ++ [(line, false)]) (out ++ part ++ [10])
  | drop {lines out} (line : List UInt8) :
    LineOutput lines out → LineOutput (lines ++ [(line, false)]) out

/-- What is delivered ends with a newline. -/
theorem LineOutput.ends {lines : List (List UInt8 × Bool)} {out : List UInt8}
    (h : LineOutput lines out) :
    out = [] ∨ ∃ pre, out = pre ++ [10] := by
  induction h with
  | nil => exact Or.inl rfl
  | whole line fits _ _ => exact Or.inr ⟨_, rfl⟩
  | cut line part _ _ _ => exact Or.inr ⟨_, rfl⟩
  | drop line _ ih => exact ih

/-! ## Runs -/

/-- A character is typed, or a read takes bytes. -/
inductive TtyInput where
  | push (c : UInt8)
  | read (max : Int)

/-- A terminal, with the line as the discipline edits it, the lines that have ended, each with
whether it fitted into the ring, and the bytes read. -/
structure TtySession where
  tty : KernelTTY
  line : List UInt8
  lines : List (List UInt8 × Bool)
  returned : List UInt8

namespace TtySession

variable {s : TtySession} {i : TtyInput}

/-- After `tty_init`. -/
def start : TtySession :=
  ⟨.ttyInit, [], [], []⟩

/-- One event. -/
def step (s : TtySession) (i : TtyInput) : TtySession :=
  match i with
  | .push c =>
    if IsLineEnd c then
      ⟨s.tty.ttyPushChar c, [],
        s.lines ++ [(s.line, decide (s.tty.input.count + s.line.length + 1 ≤ ttyBufSize))],
        s.returned⟩
    else ⟨s.tty.ttyPushChar c, edit s.line c, s.lines, s.returned⟩
  | .read max =>
    let (bytes, tty) := s.tty.ttyRead max
    ⟨tty, s.line, s.lines, s.returned ++ bytes⟩

/-- The session after an event. -/
def next (s : TtySession) (i : TtyInput) : Option TtySession :=
  some (s.step i)

/-- The bytes read and those in the ring. -/
def delivered (s : TtySession) : List UInt8 :=
  s.returned ++ s.tty.pending

/-- What is delivered follows the discipline. -/
def Disciplined (s : TtySession) : Prop :=
  LineOutput s.lines s.delivered

/-- A line ends at a full ring, or the ring has room for it and for its newline. -/
def RoomForLine (s : TtySession) (i : TtyInput) : Prop :=
  ∀ c, i = .push c → IsLineEnd c → s.tty.input.count = ttyBufSize ∨
    s.tty.input.count + s.tty.lineBuf.length + 1 ≤ ttyBufSize

/-- The terminal is in cooked mode and holds the line as it is edited. -/
structure Typing (s : TtySession) : Prop where
  cooked : s.tty.cooked = true
  line : s.tty.lineBuf = s.line
  noEnd : (10 : UInt8) ∉ s.line

theorem typing_start : Typing start :=
  ⟨rfl, rfl, List.not_mem_nil⟩

theorem newline_notMem_edit {line : List UInt8} (h : (10 : UInt8) ∉ line) {c : UInt8}
    (hc : ¬ IsLineEnd c) : (10 : UInt8) ∉ edit line c := by
  unfold edit
  split
  · exact fun hmem => h ((List.dropLast_subset _) hmem)
  · split
    · exact List.not_mem_nil
    · split
      · intro hmem
        rcases List.mem_append.mp hmem with hmem | hmem
        · exact h hmem
        · exact hc (Or.inl (List.mem_singleton.mp hmem).symm)
      · exact h

/-- A character that ends the line. -/
theorem push_ends {tty : KernelTTY} (hcooked : tty.cooked = true) {c : UInt8}
    (hc : IsLineEnd c) : tty.ttyPushChar c = tty.endLine := by
  have hc' : c = 10 ∨ c = 13 := hc
  rw [KernelTTY.ttyPushChar, if_pos hcooked, if_pos hc']

/-- A character that ends no line edits the line. -/
theorem push_edits {tty : KernelTTY} (hcooked : tty.cooked = true) {c : UInt8}
    (hc : ¬ IsLineEnd c) :
    (tty.ttyPushChar c).lineBuf = edit tty.lineBuf c ∧ (tty.ttyPushChar c).cooked = true ∧
      (tty.ttyPushChar c).input = tty.input := by
  have hc' : ¬ (c = 10 ∨ c = 13) := hc
  unfold KernelTTY.ttyPushChar edit
  rw [if_pos hcooked, if_neg hc']
  by_cases hback : c = 8 ∨ c = 127
  · rw [if_pos hback, if_pos hback]
    exact ⟨rfl, hcooked, rfl⟩
  rw [if_neg hback, if_neg hback]
  by_cases hbreak : c = 3
  · rw [if_pos hbreak, if_pos hbreak]
    exact ⟨rfl, hcooked, rfl⟩
  rw [if_neg hbreak, if_neg hbreak, KernelTTY.type]
  by_cases hroom : tty.lineBuf.length < ttyBufSize - 1
  · have hroom' : tty.lineBuf.length < 255 := hroom
    rw [dif_pos hroom, if_pos hroom']
    exact ⟨rfl, hcooked, rfl⟩
  · have hroom' : ¬ tty.lineBuf.length < 255 := hroom
    rw [dif_neg hroom, if_neg hroom']
    exact ⟨rfl, hcooked, rfl⟩

theorem Typing.step (h : Typing s) (i : TtyInput) : Typing (s.step i) := by
  cases i with
  | push c =>
    unfold TtySession.step
    dsimp only
    split
    · next hend =>
      rw [push_ends h.cooked hend]
      exact ⟨h.cooked, rfl, List.not_mem_nil⟩
    · next hc =>
      obtain ⟨hline, hcooked, -⟩ := push_edits h.cooked hc
      exact ⟨hcooked, hline.trans (congrArg (edit · c) h.line), newline_notMem_edit h.noEnd hc⟩
  | read max => exact ⟨h.cooked, h.line, h.noEnd⟩

/-- The end of a line follows the discipline exactly if the ring is full or has room. -/
theorem disciplined_lineEnd (h : Typing s) (hd : Disciplined s) {c : UInt8} (hc : IsLineEnd c) :
    Disciplined (s.step (.push c)) ↔ s.tty.input.count = ttyBufSize ∨
      s.tty.input.count + s.tty.lineBuf.length + 1 ≤ ttyBufSize := by
  have hstep : s.step (.push c) = ⟨s.tty.ttyPushChar c, [],
      s.lines ++ [(s.line, decide (s.tty.input.count + s.line.length + 1 ≤ ttyBufSize))],
      s.returned⟩ := if_pos hc
  have hout : (s.step (.push c)).delivered =
      s.returned ++ ((s.tty.emit s.tty.lineBuf).emit [10]).pending := by
    rw [hstep, push_ends h.cooked hc]
    rfl
  have hlines : (s.step (.push c)).lines =
      s.lines ++ [(s.line, decide (s.tty.input.count + s.line.length + 1 ≤ ttyBufSize))] := by
    rw [hstep]
  unfold Disciplined
  rw [hlines, hout]
  by_cases hfits : s.tty.input.count + s.tty.lineBuf.length + 1 ≤ ttyBufSize
  · refine iff_of_true ?_ (Or.inr hfits)
    rw [KernelTTY.pending_line_of_fits hfits, ← List.append_assoc, ← List.append_assoc, h.line]
    exact LineOutput.whole s.line _ hd
  have hnofit : decide (s.tty.input.count + s.line.length + 1 ≤ ttyBufSize) = false := by
    rw [← h.line]
    exact decide_eq_false hfits
  rw [hnofit]
  by_cases hfull : s.tty.input.count = ttyBufSize
  · refine iff_of_true ?_ (Or.inl hfull)
    rw [KernelTTY.pending_line_of_full hfull]
    exact LineOutput.drop s.line hd
  -- the ring takes a part of the line, and is full
  refine iff_of_false (fun himage => ?_) (not_or.mpr ⟨hfull, hfits⟩)
  have hle := s.tty.inputWf.count_le
  rw [KernelTTY.pending_line_of_cut (by omega) (by omega), h.line] at himage
  set part := s.line.take (ttyBufSize - s.tty.input.count) with hpart
  have hne : part ≠ [] := by
    rw [hpart, ← h.line, ← List.length_pos_iff, List.length_take]
    omega
  rcases himage.ends with hnil | ⟨pre, hend⟩
  · exact hne (List.append_eq_nil_iff.mp (List.append_eq_nil_iff.mp hnil).2).2
  · have hlast : (s.returned ++ (s.tty.pending ++ part)).getLast? = some 10 := by
      rw [hend, List.getLast?_concat]
    rw [← List.append_assoc, List.getLast?_append_of_ne_nil _ hne] at hlast
    exact h.noEnd (List.mem_of_mem_take (List.mem_of_getLast? hlast))

/-- One event follows the discipline exactly if a line that ends finds a full ring, or room. -/
theorem disciplined_step (h : Typing s) (hd : Disciplined s) (i : TtyInput) :
    Disciplined (s.step i) ↔ RoomForLine s i := by
  cases i with
  | push c =>
    by_cases hc : IsLineEnd c
    · rw [disciplined_lineEnd h hd hc]
      constructor
      · rintro hroom c' hpush -
        exact hroom
      · exact fun hroom => hroom c rfl hc
    · refine iff_of_true ?_ ?_
      · have hstep : s.step (.push c) =
            ⟨s.tty.ttyPushChar c, edit s.line c, s.lines, s.returned⟩ := if_neg hc
        have hinput := (push_edits h.cooked hc).2.2
        rw [hstep, Disciplined, delivered, KernelTTY.pending, hinput]
        exact hd
      · rintro c' hpush hend
        cases hpush
        exact absurd hend hc
  | read max =>
    refine iff_of_true ?_ fun c hpush => by cases hpush
    have hout : (s.step (.read max)).delivered = s.delivered := by
      change s.returned ++ (s.tty.ttyRead max).1 ++ (s.tty.ttyRead max).2.pending = _
      rw [List.append_assoc, KernelTTY.pending_ttyRead]
      rfl
    rw [Disciplined, hout]
    exact hd

end TtySession

/-- Over every run of a terminal, what was read and what is in the ring follows the discipline in
every state, exactly if each line that ends finds the ring full, or with room for it. -/
theorem line_discipline_iff (is : List TtyInput) :
    After TtySession.next TtySession.Disciplined .start is ↔
      Along TtySession.next TtySession.RoomForLine .start is := by
  refine After.iff_along (f := TtySession.step) (I := fun s => s.Typing ∧ s.Disciplined)
    (A := fun _ => True) (fun _ h => h.2) (fun s i h _ => TtySession.disciplined_step h.1 h.2 i)
    (fun s i h _ hd => ⟨h.1.step i, hd⟩) is .start (fun _ _ => trivial)
    ⟨TtySession.typing_start, LineOutput.nil⟩

/-- A line of 200 characters, and one of 100. -/
def twoLines : List TtyInput :=
  List.replicate 200 (.push 97) ++ [.push 10] ++ List.replicate 100 (.push 98) ++ [.push 10]

/-- Of the second line 55 characters are delivered, and no newline. -/
theorem not_line_discipline :
    ¬ After TtySession.next TtySession.Disciplined .start twoLines := by
  intro h
  have himage : LineOutput _ _ := After.foldl (f := TtySession.step) twoLines .start h
  have hlast : (twoLines.foldl TtySession.step .start).delivered.getLast? = some 98 := by
    decide +kernel
  rcases himage.ends with hnil | ⟨pre, hend⟩
  · rw [hnil] at hlast
    cases hlast
  · rw [hend, List.getLast?_concat] at hlast
    exact absurd hlast (by decide)

end VernisOS
