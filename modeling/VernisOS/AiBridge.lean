import Mathlib.Data.Nat.Digits.Defs
import VernisOS.Lib.Bytes

/-!
# The AI bridge

`kernel/drivers/ai_bridge.c` : frames to and from the AI engine over a serial line. The line is
the list of what the calls of `ai_getc` find from now on, one entry for each call : a byte, or
none if no data is ready. Behind the end of the list there is no more data.

A C string is the list of the characters before its NUL.
-/

open Bytes

namespace VernisOS

/-- `AI_MSG_MAX`. -/
def aiMsgMax : ℕ := 512

/-- `AI_RESP_TIMEOUT`. -/
def aiRespTimeout : ℕ := 5000000

/-- The characters of a C string in a buffer. -/
def cString (bytes : List UInt8) : List UInt8 :=
  bytes.takeWhile (· ≠ 0)

/-! ## Frames that are sent -/

/-- `ai_put_dec`. -/
def aiPutDec (v : UInt32) : List UInt8 :=
  if v = 0 then [48] else ((Nat.digits 10 v.toNat).map fun n => UInt8.ofNat (48 + n)).reverse

/-- `ai_send_frame`. -/
def aiSendFrame (type : List UInt8) (seq : UInt32) (payload : List UInt8) : List UInt8 :=
  type ++ [124] ++ aiPutDec seq ++ [124] ++ payload ++ [10]

/-- What `ai_send_event` writes, where the line is there. -/
def aiSendEvent (eventType data : List UInt8) : List UInt8 :=
  utf8 "EVT|" ++ eventType ++ [124] ++ data ++ [10]

/-! ## Lines that are received -/

/-- The receiving side of the line : `rx_line` up to `rx_pos`, and what is still to come. -/
structure AiReader where
  rxLine : List UInt8
  input : List (Option UInt8)

/-- `ai_readline` with a buffer of `AI_MSG_MAX` bytes, which no line overflows. The empty list
is the return value 0. -/
def aiReadline (rxLine : List UInt8) : List (Option UInt8) → List UInt8 × AiReader
  | [] => ([], ⟨rxLine, []⟩)
  | none :: input => ([], ⟨rxLine, input⟩)
  | some c :: input =>
    if c = 13 then aiReadline rxLine input
    else if c = 10 then (rxLine, ⟨[], input⟩)
    else aiReadline (if rxLine.length < aiMsgMax - 1 then rxLine ++ [c] else rxLine) input

/-- A character of a sequence number. -/
def aiSeqDigit (recvSeq : UInt32) (c : UInt8) : UInt32 :=
  recvSeq * 10 + UInt32.ofInt (c.toInt8.toInt - 48)

/-- The sequence number and the payload of a line "RESP|<seq>|<payload>". -/
def aiParseResp (line : List UInt8) : Option (UInt32 × List UInt8) :=
  if line.take 5 ≠ utf8 "RESP|" then none
  else
    let p := cString (line.drop 5)
    let recvSeq := p.takeWhile (· ≠ 124)
    if recvSeq.length = p.length then none
    else some (recvSeq.foldl aiSeqDigit 0, p.drop (recvSeq.length + 1))

/-- The bridge. The handlers are the registered ones. -/
structure AiBridge where
  com2Hw : Bool
  nextSeq : UInt32
  rxLine : List UInt8
  tuneHandler : Bool
  remediateHandler : Bool

/-- A bridge behind `ai_bridge_init`, with both handlers registered. -/
def initialBridge : AiBridge :=
  ⟨true, 1, [], true, true⟩

/-- What a call of `ai_query_sync` comes to : the response buffer, or none for -1, and the line
behind the call. `read` is not in the source : the lines the call has read. -/
structure AiAnswer where
  respBuf : Option (List UInt8)
  reader : AiReader
  read : List (List UInt8)

/-- The loop of `ai_query_sync`, with the number of turns that are left. -/
def aiAwaitResp (seq : UInt32) (maxLen : ℕ) : ℕ → AiReader → AiAnswer
  | 0, r => ⟨none, r, []⟩
  | spin + 1, r =>
    let (line, r) := aiReadline r.rxLine r.input
    if line = [] then aiAwaitResp seq maxLen spin r
    else
      match aiParseResp line with
      | some (recvSeq, payload) =>
        if recvSeq = seq then ⟨some (payload.take (maxLen - 1)), r, [line]⟩
        else
          let answer := aiAwaitResp seq maxLen spin r
          { answer with read := line :: answer.read }
      | none =>
        let answer := aiAwaitResp seq maxLen spin r
        { answer with read := line :: answer.read }

/-- `ai_query_sync` on a line : what it sends, its answer, and the bridge behind it. -/
def AiBridge.aiQuerySync (s : AiBridge) (query : List UInt8) (maxLen : ℕ)
    (input : List (Option UInt8)) : List UInt8 × AiAnswer × AiBridge :=
  if s.com2Hw = false ∨ maxLen < 2 then ([], ⟨none, ⟨s.rxLine, input⟩, []⟩, s)
  else
    let answer := aiAwaitResp s.nextSeq maxLen aiRespTimeout ⟨s.rxLine, input⟩
    (aiSendFrame (utf8 "REQ") s.nextSeq query, answer,
      { s with nextSeq := s.nextSeq + 1, rxLine := answer.reader.rxLine })

/-! ## Commands -/

/-- What a command frame is dispatched as : the arguments of the handler. -/
inductive AiCommand
  | tune (action target : List UInt8) (value : UInt32) (reason : List UInt8)
  | remediate (action target param : List UInt8)
  | policy (blob : List UInt8)
  deriving DecidableEq

/-- `ai_parse_dec`. -/
def aiParseDec (s : List UInt8) : UInt32 :=
  (s.takeWhile fun c => 48 ≤ c ∧ c ≤ 57).foldl (fun v c => v * 10 + (c - 48).toUInt32) 0

/-- `ai_split` : what stands before the first '|' and behind it. -/
def aiSplit (src : List UInt8) : Option (List UInt8 × List UInt8) :=
  let p := src.takeWhile (· ≠ 124)
  if p.length = src.length then none else some (p, src.drop (p.length + 1))

/-- The value of a hexadecimal digit. -/
def hexDigit (c : UInt8) : Option UInt8 :=
  if 48 ≤ c ∧ c ≤ 57 then some (c - 48)
  else if 97 ≤ c ∧ c ≤ 102 then some (c - 97 + 10)
  else if 65 ≤ c ∧ c ≤ 70 then some (c - 65 + 10)
  else none

/-- The blob of a policy frame, while there is room for so many bytes. -/
def hexDecode : ℕ → List UInt8 → List UInt8
  | room + 1, hi :: lo :: rest =>
    match hexDigit hi, hexDigit lo with
    | some hi, some lo => (hi <<< 4 ||| lo) :: hexDecode room rest
    | _, _ => []
  | _, _ => []

/-- The command behind the sequence number of a frame. -/
def aiParseTune (rest : List UInt8) : Option AiCommand := do
  let (action, rest) ← aiSplit rest
  let (target, rest) ← aiSplit rest
  match aiSplit rest with
  | some (value, reason) => return .tune action target (aiParseDec value) reason
  | none => return .tune action target (aiParseDec rest) rest

def aiParseRemediate (rest : List UInt8) : Option AiCommand := do
  let (action, rest) ← aiSplit rest
  match aiSplit rest with
  | some (target, param) => return .remediate action target param
  | none => return .remediate action rest rest

def aiParsePolicy (rest : List UInt8) : Option AiCommand :=
  let blob := hexDecode (aiMsgMax / 2) rest
  if 8 ≤ blob.length then some (.policy blob) else none

/-- The command of a line that `ai_poll_cmd` has read. -/
def aiParseCmd (line : List UInt8) : Option AiCommand := do
  let line := cString line
  if line.take 4 ≠ utf8 "CMD|" then none
  else
    let (_, rest) ← aiSplit (line.drop 4)
    let (subcmd, rest) ← aiSplit rest
    if subcmd.take 4 = utf8 "TUNE" then aiParseTune rest
    else if subcmd.take 4 = utf8 "REME" then aiParseRemediate rest
    else if subcmd.take 4 = utf8 "POLI" then aiParsePolicy rest
    else none

/-- The command that goes to a handler. -/
def AiBridge.dispatch (s : AiBridge) (line : List UInt8) : Option AiCommand :=
  match aiParseCmd line with
  | some (.tune action target value reason) =>
    if s.tuneHandler then some (.tune action target value reason) else none
  | some (.remediate action target param) =>
    if s.remediateHandler then some (.remediate action target param) else none
  | some (.policy blob) => some (.policy blob)
  | none => none

/-- `ai_poll_cmd` on a line : the line it reads, the command it dispatches, and the line and the
bridge behind it. -/
def AiBridge.aiPollCmd (s : AiBridge) (input : List (Option UInt8)) :
    List UInt8 × Option AiCommand × List (Option UInt8) × AiBridge :=
  if s.com2Hw = false then ([], none, input, s)
  else
    let (line, r) := aiReadline s.rxLine input
    (line, if line = [] then none else s.dispatch line, r.input, { s with rxLine := r.rxLine })

end VernisOS
