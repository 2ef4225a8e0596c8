import Mathlib.Data.Nat.Digits.Defs
import VernisOS.Lib.Bytes

/-!
# The listener of the AI engine

`ai/corelib.py` and the dispatch of `ai/ai_listener.py` : the frames on the engine's side of the
line. A `str` is the list of its characters, and an `int` an integer.
-/

open Bytes

namespace VernisOS

/-! ## Text -/

/-- A byte of `decode("ascii", errors="replace")`. -/
def asciiChar (b : UInt8) : Char :=
  if b < 128 then Char.ofNat b.toNat else Char.ofNat 0xfffd

/-- `str.isspace` of a character that was decoded from ASCII. -/
def pySpace (c : Char) : Bool :=
  (9 ≤ c.toNat && c.toNat ≤ 13) || (28 ≤ c.toNat && c.toNat ≤ 32)

/-- `str.strip`. -/
def pyStrip (s : List Char) : List Char :=
  ((s.dropWhile pySpace).reverse.dropWhile pySpace).reverse

/-- `str.split(sep, maxsplit)`. -/
def pySplit (sep : Char) : ℕ → List Char → List (List Char)
  | 0, s => [s]
  | n + 1, s =>
    let part := s.takeWhile (· ≠ sep)
    if part.length = s.length then [s] else part :: pySplit sep n (s.drop (part.length + 1))

/-- The value of decimal digits. -/
def pyDigits (s : List Char) : ℕ :=
  s.foldl (fun n c => n * 10 + (c.toNat - 48)) 0

/-- `int(s)`, or none for a `ValueError`. Underscores may stand between digits. -/
def pyInt (s : List Char) : Option ℤ :=
  let digits (s : List Char) : Option ℕ :=
    if (s.splitOn '_').all fun g => !g.isEmpty && g.all Char.isDigit then
      some (pyDigits (s.filter Char.isDigit))
    else none
  match pyStrip s with
  | '-' :: s => (digits s).map fun n => -(n : ℤ)
  | '+' :: s => (digits s).map fun n => (n : ℤ)
  | s => (digits s).map fun n => (n : ℤ)

/-- `str(n)` of a number that is not negative. -/
def pyStr (n : ℕ) : List Char :=
  if n = 0 then ['0'] else ((Nat.digits 10 n).map fun d => Char.ofNat (48 + d)).reverse

/-- `str(n)`. -/
def pyStrInt (n : ℤ) : List Char :=
  if n < 0 then '-' :: pyStr n.natAbs else pyStr n.toNat

/-! ## Frames -/

structure MessageFrame where
  msgType : List Char
  seq : ℤ
  payload : List Char

/-- `MessageFrame.parse`. -/
def MessageFrame.parse (line : List Char) : Option MessageFrame :=
  match pySplit '|' 2 line with
  | [msgType, seqStr, payload] => some ⟨msgType, (pyInt seqStr).getD 0, payload⟩
  | _ => none

/-- `MessageFrame.encode`. -/
def MessageFrame.encode (frame : MessageFrame) : List Char :=
  frame.msgType ++ '|' :: (pyStrInt frame.seq ++ '|' :: (frame.payload ++ ['\n']))

/-- The bytes `send_response` sends. -/
def sendResponse (seq : ℤ) (payload : List Char) : List UInt8 :=
  (MessageFrame.encode ⟨"RESP".toList, seq, payload⟩).map asciiByte

/-- The complete lines of the bytes that arrive behind those in the buffer. -/
def completeLines (buf : List UInt8) : List UInt8 → List (List UInt8)
  | [] => []
  | c :: bytes =>
    if c = 10 then buf :: completeLines [] bytes else completeLines (buf ++ [c]) bytes

/-- `VernisConnection.recv_lines`. -/
def recvLines (bytes : List UInt8) : List (List Char) :=
  ((completeLines [] bytes).map fun line => pyStrip (line.map asciiChar)).filter fun line =>
    !line.isEmpty

/-- The frames of `run_session`. -/
def sessionFrames (bytes : List UInt8) : List MessageFrame :=
  (recvLines bytes).filterMap MessageFrame.parse

/-- `AIEngine.handle_event` : the type and the data that the modules are given. -/
def handleEvent (frame : MessageFrame) : List Char × List Char :=
  match pySplit '|' 1 frame.payload with
  | [eventType, data] => (eventType, data)
  | eventType :: _ => (eventType, [])
  | [] => ([], [])

/-- The events of `run_session`. -/
def sessionEvents (bytes : List UInt8) : List (List Char × List Char) :=
  ((sessionFrames bytes).filter fun frame => frame.msgType = "EVT".toList).map handleEvent

end VernisOS
