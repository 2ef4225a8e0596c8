import Mathlib.Algebra.Order.BigOperators.Group.List
import VernisOS.BridgeLines

/-!
# Commands and answers on one line

`ai_poll_cmd` and `ai_query_sync` read the same line. A query drops every line that is not its
answer, so that a command which arrives while it waits is lost, and it takes any text for a
sequence number that adds up to its own. `bridge_run` says that nothing is swallowed in a run
exactly if no query reads such a line.
-/

open Bytes

namespace VernisOS

/-! ## Runs -/

/-- A call that reads lines. -/
inductive BridgeCall
  | query (query : List UInt8) (maxLen : ℕ)
  | poll

/-- What a call did : the lines it read, the commands it dispatched and, for a query, its
sequence number, the size of its buffer and its answer. -/
inductive CallLog
  | query (seq : UInt32) (maxLen : ℕ) (read : List (List UInt8)) (answer : Option (List UInt8))
  | poll (read : List (List UInt8)) (dispatched : Option AiCommand)

namespace CallLog

def read : CallLog → List (List UInt8)
  | query _ _ read _ => read
  | poll read _ => read

def dispatched : CallLog → List AiCommand
  | query _ _ _ _ => []
  | poll _ dispatched => dispatched.toList

end CallLog

/-- One call on a bridge and a line. -/
def AiBridge.call (s : AiBridge) (input : List (Option UInt8)) :
    BridgeCall → CallLog × AiBridge × List (Option UInt8)
  | .query query maxLen =>
    let (_, answer, s') := s.aiQuerySync query maxLen input
    (.query s.nextSeq maxLen answer.read answer.respBuf, s', answer.reader.input)
  | .poll =>
    let (line, dispatched, input, s') := s.aiPollCmd input
    (.poll (if line = [] then [] else [line]) dispatched, s', input)

/-- The calls in order : what each did, and what is left on the line. -/
def AiBridge.run (s : AiBridge) (input : List (Option UInt8)) :
    List BridgeCall → List CallLog × AiReader
  | [] => ([], ⟨s.rxLine, input⟩)
  | c :: calls =>
    let (log, s', input') := s.call input c
    let (logs, r) := s'.run input' calls
    (log :: logs, r)

/-! ## What is expected -/

/-- The value of decimal digits. -/
def decValue (digits : List UInt8) : ℕ :=
  digits.foldl (fun v c => v * 10 + (c.toNat - 48)) 0

/-- The payload of a line "RESP|<seq>|<payload>" with this sequence number in decimal. -/
def respPayload (seq : UInt32) (line : List UInt8) : Option (List UInt8) :=
  if line.take 5 ≠ utf8 "RESP|" then none
  else
    match aiSplit (line.drop 5) with
    | none => none
    | some (digits, payload) =>
      if digits ≠ [] ∧ (digits.all fun c => 48 ≤ c.toNat ∧ c.toNat ≤ 57) ∧
          decValue digits = seq.toNat then
        some (cString payload)
      else none

/-- A query returns the payload of the first line it read that carries its number. -/
def CallLog.Answered : CallLog → Prop
  | query seq maxLen read answer =>
    answer = (read.findSome? (respPayload seq)).map fun payload => payload.take (maxLen - 1)
  | poll _ _ => True

/-- What a query has to meet : none of the lines that arrive while it waits is a command, and a
line whose number it takes for its own carries it. -/
def CallLog.Kept (s : AiBridge) : CallLog → Prop
  | query seq _ read _ => ∀ line ∈ read, s.dispatch line = none ∧
      ((aiParseResp line).map Prod.fst = some seq → (respPayload seq line).isSome)
  | poll _ _ => True

instance CallLog.decidableKept (s : AiBridge) : DecidablePred (CallLog.Kept s)
  | query seq _ read _ => inferInstanceAs (Decidable (∀ line ∈ read, s.dispatch line = none ∧
      ((aiParseResp line).map Prod.fst = some seq → (respPayload seq line).isSome)))
  | poll _ _ => inferInstanceAs (Decidable True)

/-- A field of a frame : no separator and no NUL. -/
def FieldOf (field : List UInt8) : Prop :=
  (124 : UInt8) ∉ field ∧ (0 : UInt8) ∉ field

/-- The two digits of a byte. -/
def hexByte (b : UInt8) : List UInt8 :=
  let digit (n : UInt8) : UInt8 := if n < 10 then 48 + n else 87 + n
  [digit (b >>> 4), digit (b &&& 15)]

/-- The command frames, and what they say. -/
inductive WellFormed : List UInt8 → AiCommand → Prop
  | tune {seq action target value reason : List UInt8} (hseq : FieldOf seq)
    (haction : FieldOf action) (htarget : FieldOf target) (hvalue : FieldOf value)
    (hreason : (0 : UInt8) ∉ reason) :
    WellFormed (utf8 "CMD|" ++ (seq ++ 124 :: (utf8 "TUNE" ++ 124 :: (action ++ 124 ::
      (target ++ 124 :: (value ++ 124 :: reason))))))
      (.tune action target (aiParseDec value) reason)
  | remediate {seq action target param : List UInt8} (hseq : FieldOf seq)
    (haction : FieldOf action) (htarget : FieldOf target) (hparam : (0 : UInt8) ∉ param) :
    WellFormed (utf8 "CMD|" ++ (seq ++ 124 :: (utf8 "REMEDIATE" ++ 124 :: (action ++ 124 ::
      (target ++ 124 :: param)))))
      (.remediate action target param)
  | policy {seq blob : List UInt8} (hseq : FieldOf seq) (hmin : 8 ≤ blob.length)
    (hmax : blob.length ≤ aiMsgMax / 2) :
    WellFormed (utf8 "CMD|" ++ (seq ++ 124 :: (utf8 "POLICY" ++ 124 :: blob.flatMap hexByte)))
      (.policy blob)

/-! ## Command frames -/

theorem aiSplit_append {part : List UInt8} (h : (124 : UInt8) ∉ part) (rest : List UInt8) :
    aiSplit (part ++ 124 :: rest) = some (part, rest) := by
  rw [aiSplit, Fields.takeWhile_ne h, if_neg (by simp), Fields.drop_ne]

theorem cString_eq {line : List UInt8} (h : (0 : UInt8) ∉ line) : cString line = line :=
  Fields.takeWhile_ne_of_notMem h

theorem hexDecode_hexByte (b : UInt8) :
    hexDecode 1 (hexByte b) = [b] ∧ (0 : UInt8) ∉ hexByte b := by
  have hall : ∀ n : Fin 256, hexDecode 1 (hexByte (UInt8.ofNat n.val)) = [UInt8.ofNat n.val] ∧
      (0 : UInt8) ∉ hexByte (UInt8.ofNat n.val) := by
    decide +kernel
  have hb := hall ⟨b.toNat, b.toNat_lt⟩
  rwa [UInt8.ofNat_toNat] at hb

theorem hexDecode_flatMap {blob : List UInt8} {room : ℕ} (h : blob.length ≤ room) :
    hexDecode room (blob.flatMap hexByte) = blob := by
  induction blob generalizing room with
  | nil => cases room <;> rfl
  | cons b blob ih =>
    rw [List.length_cons] at h
    obtain ⟨room, rfl⟩ := Nat.exists_eq_succ_of_ne_zero (by omega : room ≠ 0)
    obtain ⟨hi, lo, hbyte⟩ : ∃ hi lo, hexByte b = [hi, lo] := ⟨_, _, rfl⟩
    have hone := (hexDecode_hexByte b).1
    rw [hbyte, hexDecode] at hone
    rw [List.flatMap_cons, hbyte, List.cons_append, List.cons_append, List.nil_append, hexDecode]
    cases hhi : hexDigit hi with
    | none => rw [hhi] at hone; cases hone
    | some hi' =>
      cases hlo : hexDigit lo with
      | none => rw [hhi, hlo] at hone; cases hone
      | some lo' =>
        rw [hhi, hlo] at hone
        dsimp only at hone ⊢
        rw [(List.cons.inj hone).1, ih (by omega)]

/-- A frame is taken apart at its separators. -/
theorem aiParseCmd_eq {seq subcmd rest : List UInt8} (hseq : FieldOf seq) (hsub : FieldOf subcmd)
    (hrest : (0 : UInt8) ∉ rest) :
    aiParseCmd (utf8 "CMD|" ++ (seq ++ 124 :: (subcmd ++ 124 :: rest))) =
      if subcmd.take 4 = utf8 "TUNE" then aiParseTune rest
      else if subcmd.take 4 = utf8 "REME" then aiParseRemediate rest
      else if subcmd.take 4 = utf8 "POLI" then aiParsePolicy rest
      else none := by
  have hnul : (0 : UInt8) ∉ utf8 "CMD|" ++ (seq ++ 124 :: (subcmd ++ 124 :: rest)) := by
    simp only [List.mem_append, List.mem_cons, not_or]
    exact ⟨by decide, hseq.2, by decide, hsub.2, by decide, hrest⟩
  have htake : (utf8 "CMD|" ++ (seq ++ 124 :: (subcmd ++ 124 :: rest))).take 4 = utf8 "CMD|" :=
    List.take_left' rfl
  have hdrop : (utf8 "CMD|" ++ (seq ++ 124 :: (subcmd ++ 124 :: rest))).drop 4 =
      seq ++ 124 :: (subcmd ++ 124 :: rest) :=
    List.drop_left' rfl
  rw [VernisOS.aiParseCmd, cString_eq hnul]
  dsimp only
  rw [htake, if_neg (not_not.mpr rfl), hdrop, aiSplit_append hseq.1]
  dsimp only [Option.bind_eq_bind, Option.bind_some]
  rw [aiSplit_append hsub.1]
  rfl

/-- The bridge reads every command frame as what it says. -/
theorem WellFormed.aiParseCmd {line : List UInt8} {c : AiCommand} (h : WellFormed line c) :
    aiParseCmd line = some c := by
  cases h with
  | tune hseq haction htarget hvalue hreason =>
    rename_i seq action target value reason
    have hrest : (0 : UInt8) ∉ action ++ 124 :: (target ++ 124 :: (value ++ 124 :: reason)) := by
      simp only [List.mem_append, List.mem_cons, not_or]
      exact ⟨haction.2, by decide, htarget.2, by decide, hvalue.2, by decide, hreason⟩
    rw [aiParseCmd_eq hseq (by unfold FieldOf; decide) hrest, if_pos (by decide), aiParseTune,
      aiSplit_append haction.1]
    dsimp only [Option.bind_eq_bind, Option.bind_some]
    rw [aiSplit_append htarget.1]
    dsimp only [Option.bind_some]
    rw [aiSplit_append hvalue.1]
    rfl
  | remediate hseq haction htarget hparam =>
    rename_i seq action target param
    have hrest : (0 : UInt8) ∉ action ++ 124 :: (target ++ 124 :: param) := by
      simp only [List.mem_append, List.mem_cons, not_or]
      exact ⟨haction.2, by decide, htarget.2, by decide, hparam⟩
    rw [aiParseCmd_eq hseq (by unfold FieldOf; decide) hrest, if_neg (by decide),
      if_pos (by decide), aiParseRemediate, aiSplit_append haction.1]
    dsimp only [Option.bind_eq_bind, Option.bind_some]
    rw [aiSplit_append htarget.1]
    rfl
  | policy hseq hmin hmax =>
    rename_i seq blob
    have hrest : (0 : UInt8) ∉ blob.flatMap hexByte := by
      intro hmem
      obtain ⟨b, -, hb⟩ := List.mem_flatMap.mp hmem
      exact (hexDecode_hexByte b).2 hb
    rw [aiParseCmd_eq hseq (by unfold FieldOf; decide) hrest, if_neg (by decide),
      if_neg (by decide), if_pos (by decide), aiParsePolicy, hexDecode_flatMap hmax,
      if_pos hmin]

/-! ## What a query reads -/

/-- The kernel takes this line for an answer. -/
def Taken (seq : UInt32) (line : List UInt8) : Prop :=
  (aiParseResp line).map Prod.fst = some seq

/-- A line that carries a sequence number is taken for its answer. -/
theorem aiParseResp_of_respPayload {seq : UInt32} {line payload : List UInt8}
    (h : respPayload seq line = some payload) : aiParseResp line = some (seq, payload) := by
  unfold respPayload at h
  split at h
  · cases h
  · next hresp =>
    by_cases hbar : (124 : UInt8) ∈ line.drop 5
    · obtain ⟨digits, rest, hdrop, hnot⟩ := List.eq_append_cons_of_mem hbar
      rw [hdrop, aiSplit_append hnot] at h
      dsimp only at h
      split at h
      · next hdigits =>
        cases h
        obtain ⟨-, hdigit, hvalue⟩ := hdigits
        have hall : ∀ c ∈ digits, 48 ≤ c.toNat ∧ c.toNat ≤ 57 := fun c hc =>
          of_decide_eq_true (List.all_eq_true.mp hdigit c hc)
        have hne : ∀ b ∈ digits, decide (b ≠ 0) = true := by
          rintro b hb
          rw [decide_eq_true_eq]
          rintro rfl
          exact absurd (hall 0 hb).1 (by decide)
        have hcString : cString (digits ++ 124 :: rest) = digits ++ 124 :: cString rest := by
          rw [cString, List.takeWhile_append_of_pos hne, List.takeWhile_cons_of_pos (by decide)]
          rfl
        have hfold := foldl_aiSeqDigit_ofNat hall 0
        rw [decValue] at hvalue
        rw [hvalue, UInt32.ofNat_toNat] at hfold
        rw [aiParseResp, if_neg hresp, hdrop, hcString]
        dsimp only
        rw [Fields.takeWhile_ne hnot, if_neg (by simp), Fields.drop_ne]
        exact congrArg (fun v => some (v, cString rest)) hfold
      · cases h
    · rw [aiSplit, if_pos (Fields.length_takeWhile_ne_eq_iff.mpr hbar)] at h
      cases h

/-- A query reads the lines up to its answer, or all that arrive in time. -/
theorem aiAwaitResp_spec (seq : UInt32) (maxLen spin : ℕ) (r : AiReader) :
    let answer := aiAwaitResp seq maxLen spin r
    r.lines = answer.read ++ answer.reader.lines ∧
      ((answer.respBuf = none ∧ ∀ line ∈ answer.read, ¬ Taken seq line) ∨
        ∃ before line payload, answer.read = before ++ [line] ∧
          (∀ line ∈ before, ¬ Taken seq line) ∧ aiParseResp line = some (seq, payload) ∧
          answer.respBuf = some (payload.take (maxLen - 1))) := by
  induction spin generalizing r with
  | zero => exact ⟨rfl, Or.inl ⟨rfl, fun _ h => absurd h List.not_mem_nil⟩⟩
  | succ spin ih =>
    have hlines := aiReadline_lines r.rxLine r.input
    have hskip : ∀ line r', ¬ Taken seq line →
        let answer := aiAwaitResp seq maxLen spin r'
        line :: r'.lines = line :: answer.read ++ answer.reader.lines ∧
          ((answer.respBuf = none ∧ ∀ l ∈ line :: answer.read, ¬ Taken seq l) ∨
            ∃ before last payload, line :: answer.read = before ++ [last] ∧
              (∀ l ∈ before, ¬ Taken seq l) ∧ aiParseResp last = some (seq, payload) ∧
              answer.respBuf = some (payload.take (maxLen - 1))) := by
      intro line r' hnot
      obtain ⟨hread, hcases⟩ := ih r'
      refine ⟨by rw [hread]; rfl, ?_⟩
      rcases hcases with ⟨hnone, hall⟩ | ⟨before, last, payload, heq, hall, hlast, hbuf⟩
      · exact Or.inl ⟨hnone, List.forall_mem_cons.mpr ⟨hnot, hall⟩⟩
      · exact Or.inr ⟨line :: before, last, payload, by rw [heq]; rfl,
          List.forall_mem_cons.mpr ⟨hnot, hall⟩, hlast, hbuf⟩
    rw [aiAwaitResp]
    generalize hreadline : aiReadline r.rxLine r.input = lr at hlines
    obtain ⟨line, r'⟩ := lr
    dsimp only at hlines ⊢
    by_cases hempty : line = []
    · rw [if_pos hempty] at hlines ⊢
      rw [show r.lines = _ from hlines]
      exact ih r'
    · rw [if_neg hempty] at hlines ⊢
      rw [show r.lines = _ from hlines]
      cases hparse : aiParseResp line with
      | none =>
        refine hskip line r' ?_
        rw [Taken, hparse]
        simp
      | some parsed =>
        obtain ⟨recvSeq, payload⟩ := parsed
        dsimp only
        by_cases hseq : recvSeq = seq
        · rw [if_pos hseq]
          refine ⟨rfl, Or.inr ⟨[], line, payload, rfl, fun _ h => absurd h List.not_mem_nil, ?_,
            rfl⟩⟩
          rw [hparse, hseq]
        · rw [if_neg hseq]
          refine hskip line r' fun htaken => hseq ?_
          rw [Taken, hparse] at htaken
          exact Option.some.inj htaken

/-- The answer is that of the first line with the number exactly if every line that is taken
for the answer has it. -/
theorem answered_iff (seq : UInt32) (maxLen spin : ℕ) (r : AiReader) :
    (CallLog.query seq maxLen (aiAwaitResp seq maxLen spin r).read
        (aiAwaitResp seq maxLen spin r).respBuf).Answered ↔
      ∀ line ∈ (aiAwaitResp seq maxLen spin r).read,
        Taken seq line → (respPayload seq line).isSome := by
  obtain ⟨-, hcases⟩ := aiAwaitResp_spec seq maxLen spin r
  generalize aiAwaitResp seq maxLen spin r = answer at hcases ⊢
  have htaken : ∀ line payload, respPayload seq line = some payload → Taken seq line := by
    intro line payload h
    rw [Taken, aiParseResp_of_respPayload h]
    rfl
  have hnot : ∀ line, ¬ Taken seq line → respPayload seq line = none := by
    intro line h
    by_contra hne
    obtain ⟨payload, hp⟩ := Option.ne_none_iff_exists'.mp hne
    exact h (htaken line payload hp)
  dsimp only [CallLog.Answered]
  rcases hcases with ⟨hnone, hall⟩ | ⟨before, last, payload, hread, hall, hlast, hbuf⟩
  · have hfind : answer.read.findSome? (respPayload seq) = none :=
      List.findSome?_eq_none_iff.mpr fun line hline => hnot line (hall line hline)
    rw [hnone, hfind]
    exact ⟨fun _ line hline ht => absurd ht (hall line hline), fun _ => rfl⟩
  · have hfind : answer.read.findSome? (respPayload seq) = respPayload seq last := by
      rw [hread, List.findSome?_append, List.findSome?_eq_none_iff.mpr fun line hline =>
        hnot line (hall line hline), Option.none_or, List.findSome?_singleton]
    have hself : Taken seq last := by
      rw [Taken, hlast]
      rfl
    rw [hbuf, hfind]
    constructor
    · intro heq line hline ht
      rw [hread, List.mem_append, List.mem_singleton] at hline
      rcases hline with hbefore | rfl
      · exact absurd ht (hall line hbefore)
      · rw [← Option.isSome_map, ← heq]
        rfl
    · intro hkept
      obtain ⟨payload', hp⟩ := Option.isSome_iff_exists.mp
        (hkept last (by rw [hread]; simp) hself)
      have hsame := aiParseResp_of_respPayload hp
      rw [hlast] at hsame
      cases hsame
      rw [hp]
      rfl

/-! ## What a call does -/

theorem dispatch_eq {s s' : AiBridge} (htune : s'.tuneHandler = s.tuneHandler)
    (hremediate : s'.remediateHandler = s.remediateHandler) : s'.dispatch = s.dispatch := by
  funext line
  rw [AiBridge.dispatch, AiBridge.dispatch, htune, hremediate]

/-- What holds of a call and what it leaves. -/
structure CallSpec (s : AiBridge) (input : List (Option UInt8)) (log : CallLog) (s' : AiBridge)
    (input' : List (Option UInt8)) : Prop where
  lines : (AiReader.mk s.rxLine input).lines =
    log.read ++ (AiReader.mk s'.rxLine input').lines
  dispatch : s'.dispatch = s.dispatch
  sublist : log.dispatched.Sublist (log.read.filterMap s.dispatch)
  kept : log.dispatched = log.read.filterMap s.dispatch ∧ log.Answered ↔ log.Kept s

theorem dispatch_nil (s : AiBridge) : s.dispatch [] = none := by
  have hparse : aiParseCmd [] = none := by decide
  rw [AiBridge.dispatch, hparse]

/-- A call reads the next lines, and dispatches commands among them. It swallows none and answers
right exactly if it meets its condition. -/
theorem call_spec {s s' : AiBridge} {input input' : List (Option UInt8)} {c : BridgeCall}
    {log : CallLog} (h : s.call input c = (log, s', input')) : CallSpec s input log s' input' := by
  cases c with
  | query query maxLen =>
    rw [AiBridge.call, AiBridge.aiQuerySync] at h
    by_cases hguard : s.com2Hw = false ∨ maxLen < 2
    · rw [if_pos hguard] at h
      cases h
      refine ⟨rfl, rfl, List.Sublist.refl _, ?_⟩
      exact ⟨fun _ _ h => absurd h List.not_mem_nil, fun _ => ⟨rfl, rfl⟩⟩
    · have hanswered := answered_iff s.nextSeq maxLen aiRespTimeout ⟨s.rxLine, input⟩
      obtain ⟨hread, -⟩ := aiAwaitResp_spec s.nextSeq maxLen aiRespTimeout ⟨s.rxLine, input⟩
      rw [if_neg hguard] at h
      cases h
      refine ⟨hread, dispatch_eq rfl rfl, List.nil_sublist _, ?_⟩
      rw [hanswered]
      have hnone : ∀ read : List (List UInt8), [] = read.filterMap s.dispatch ↔
          ∀ line ∈ read, s.dispatch line = none := fun read =>
        eq_comm.trans List.filterMap_eq_nil_iff
      constructor
      · rintro ⟨hd, ha⟩ line hline
        exact ⟨(hnone _).mp hd line hline, ha line hline⟩
      · intro hkept
        exact ⟨(hnone _).mpr fun line hline => (hkept line hline).1,
          fun line hline => (hkept line hline).2⟩
  | poll =>
    rw [AiBridge.call, AiBridge.aiPollCmd] at h
    by_cases hhw : s.com2Hw = false
    · rw [if_pos hhw] at h
      cases h
      exact ⟨rfl, rfl, List.Sublist.refl _, ⟨fun _ => trivial, fun _ => ⟨rfl, trivial⟩⟩⟩
    · have hlines := aiReadline_lines s.rxLine input
      rw [if_neg hhw] at h
      cases h
      have hsame : (if (aiReadline s.rxLine input).1 = [] then none
          else s.dispatch (aiReadline s.rxLine input).1).toList =
          (if (aiReadline s.rxLine input).1 = [] then []
            else [(aiReadline s.rxLine input).1]).filterMap s.dispatch := by
        split
        · rfl
        · cases hd : s.dispatch (aiReadline s.rxLine input).1 with
          | none => rw [List.filterMap_cons_none hd]; rfl
          | some d => rw [List.filterMap_cons_some hd]; rfl
      refine ⟨?_, dispatch_eq rfl rfl, ?_, ⟨fun _ => trivial, fun _ => ⟨hsame, trivial⟩⟩⟩
      · rw [hlines]
        dsimp only [CallLog.read]
        split
        · rfl
        · rfl
      · exact hsame ▸ List.Sublist.refl _

/-! ## What a run does -/

/-- Lists that are pieced together from sublists are equal exactly if the pieces are. -/
theorem flatMap_eq_iff {α β : Type} {f g : α → List β} {l : List α}
    (h : ∀ a ∈ l, (f a).Sublist (g a)) : l.flatMap f = l.flatMap g ↔ ∀ a ∈ l, f a = g a := by
  refine ⟨fun heq => ?_, List.flatMap_congr⟩
  induction l with
  | nil => exact fun a ha => absurd ha List.not_mem_nil
  | cons x l ih =>
    have hx := h x List.mem_cons_self
    have hrest : (l.flatMap f).length ≤ (l.flatMap g).length := by
      rw [List.length_flatMap, List.length_flatMap]
      exact List.sum_le_sum fun a ha => (h a (List.mem_cons_of_mem _ ha)).length_le
    have hlen := congrArg List.length heq
    rw [List.flatMap_cons, List.flatMap_cons, List.length_append, List.length_append] at hlen
    have hxle := hx.length_le
    have hself : f x = g x := hx.eq_of_length (by omega)
    rw [List.flatMap_cons, List.flatMap_cons, hself] at heq
    exact List.forall_mem_cons.mpr ⟨hself, ih (fun a ha => h a (List.mem_cons_of_mem _ ha))
      (List.append_cancel_left heq)⟩

theorem run_spec (calls : List BridgeCall) (s : AiBridge) (input : List (Option UInt8)) :
    (AiReader.mk s.rxLine input).lines =
        (s.run input calls).1.flatMap CallLog.read ++ (s.run input calls).2.lines ∧
      ∀ log ∈ (s.run input calls).1, log.dispatched.Sublist (log.read.filterMap s.dispatch) ∧
        (log.dispatched = log.read.filterMap s.dispatch ∧ log.Answered ↔ log.Kept s) := by
  induction calls generalizing s input with
  | nil => exact ⟨rfl, fun _ h => absurd h List.not_mem_nil⟩
  | cons c calls ih =>
    generalize hcall : s.call input c = result
    obtain ⟨log, s', input'⟩ := result
    have hspec := call_spec hcall
    have hdispatch := hspec.dispatch
    obtain ⟨hlines, hlogs⟩ := ih s' input'
    rw [AiBridge.run, hcall]
    dsimp only
    refine ⟨?_, List.forall_mem_cons.mpr ⟨⟨hspec.sublist, hspec.kept⟩, ?_⟩⟩
    · rw [hspec.lines, hlines, List.flatMap_cons, List.append_assoc]
    · intro log' hlog'
      have hkept : log'.Kept s' ↔ log'.Kept s := by
        cases log' with
        | query => rw [CallLog.Kept, CallLog.Kept, hdispatch]
        | poll => exact Iff.rfl
      rw [← hdispatch, ← hkept]
      exact hlogs log' hlog'

/-- The lines of a stream of whole lines. -/
theorem lines_of_stream {lines : List (List UInt8)} {input : List (Option UInt8)}
    (hlines : ∀ line ∈ lines, (10 : UInt8) ∉ line ∧ line.length < aiMsgMax)
    (hinput : input.reduceOption = lines.flatMap (· ++ [10])) :
    (AiReader.mk [] input).lines =
      (lines.map fun line => line.filter (· ≠ 13)).filter fun line => !line.isEmpty := by
  rw [AiReader.lines, hinput]
  congr 1
  clear hinput
  induction lines with
  | nil => rfl
  | cons line lines ih =>
    obtain ⟨hnl, hlen⟩ := hlines line List.mem_cons_self
    have hle := List.length_filter_le (· ≠ (13 : UInt8)) line
    rw [List.flatMap_cons, List.append_assoc, List.singleton_append,
      aiLines_append (Nat.zero_le _) hnl, List.nil_append, List.take_of_length_le (by omega),
      ih fun l hl => hlines l (List.mem_cons_of_mem _ hl), List.map_cons]

/-- Whole lines arrive in any order and at any time, and the calls read them all. Every command
frame is read as what it says, and all commands are dispatched, in order, and every query
answered right exactly if every query meets its condition. -/
theorem bridge_run (s : AiBridge) (hrx : s.rxLine = []) (lines : List (List UInt8))
    (hlines : ∀ line ∈ lines, (10 : UInt8) ∉ line ∧ line.length < aiMsgMax)
    (input : List (Option UInt8)) (hinput : input.reduceOption = lines.flatMap (· ++ [10]))
    (calls : List BridgeCall) (hall : (s.run input calls).2.lines = []) :
    (∀ line c, WellFormed line c → aiParseCmd line = some c) ∧
      (((s.run input calls).1.flatMap CallLog.dispatched =
            lines.filterMap fun line => s.dispatch (line.filter (· ≠ 13))) ∧
          (∀ log ∈ (s.run input calls).1, log.Answered) ↔
        ∀ log ∈ (s.run input calls).1, log.Kept s) := by
  refine ⟨fun line c h => h.aiParseCmd, ?_⟩
  obtain ⟨hread, hlogs⟩ := run_spec calls s input
  rw [hrx, lines_of_stream hlines hinput, hall, List.append_nil] at hread
  have htotal : (lines.filterMap fun line => s.dispatch (line.filter (· ≠ 13))) =
      (s.run input calls).1.flatMap fun log => log.read.filterMap s.dispatch := by
    rw [← List.filterMap_flatMap, ← hread, List.filterMap_filter, List.filterMap_map]
    refine List.filterMap_congr fun line _ => ?_
    rw [Function.comp_apply]
    split
    · rfl
    · next hempty =>
      have hnil : line.filter (· ≠ 13) = [] := by simpa using hempty
      rw [hnil, dispatch_nil]
  rw [htotal, flatMap_eq_iff fun log hlog => (hlogs log hlog).1]
  constructor
  · rintro ⟨hd, ha⟩ log hlog
    exact (hlogs log hlog).2.mp ⟨hd log hlog, ha log hlog⟩
  · intro hkept
    exact ⟨fun log hlog => ((hlogs log hlog).2.mpr (hkept log hlog)).1,
      fun log hlog => ((hlogs log hlog).2.mpr (hkept log hlog)).2⟩

/-- A line, and how it arrives without a break. -/
def tuneLine : List UInt8 :=
  utf8 "CMD|0|TUNE|SCHED_QUANTUM|scheduler|15.00|load"

def respLine : List UInt8 :=
  utf8 "RESP|1|ok"

def arrive (lines : List (List UInt8)) : List (Option UInt8) :=
  (lines.flatMap (· ++ [10])).map some

/-- The answer first, then the command. -/
theorem bridge_run_answer_first :
    (initialBridge.run (arrive [respLine, tuneLine]) [.query (utf8 "status") 512, .poll]).1.flatMap
        CallLog.dispatched =
      [respLine, tuneLine].filterMap fun line => initialBridge.dispatch (line.filter (· ≠ 13)) := by
  have hkept : ∀ log ∈ (initialBridge.run (arrive [respLine, tuneLine])
      [.query (utf8 "status") 512, .poll]).1, log.Kept initialBridge := by
    decide
  exact ((bridge_run initialBridge rfl [respLine, tuneLine] (by decide) (arrive [respLine, tuneLine])
    (by decide) [.query (utf8 "status") 512, .poll] (by rfl)).2.mpr hkept).1

/-- A command that arrives while a query waits is lost. -/
theorem not_bridge_run : ¬ ∀ (s : AiBridge) (lines : List (List UInt8))
    (input : List (Option UInt8)) (calls : List BridgeCall), s.rxLine = [] →
    (∀ line ∈ lines, (10 : UInt8) ∉ line ∧ line.length < aiMsgMax) →
    input.reduceOption = lines.flatMap (· ++ [10]) → (s.run input calls).2.lines = [] →
    (s.run input calls).1.flatMap CallLog.dispatched =
        (lines.filterMap fun line => s.dispatch (line.filter (· ≠ 13))) ∧
      ∀ log ∈ (s.run input calls).1, log.Answered := by
  intro h
  have hrun := (h initialBridge [tuneLine, respLine] (arrive [tuneLine, respLine])
    [.query (utf8 "status") 512] rfl (by decide) (by decide) (by decide +kernel)).1
  exact absurd hrun (by decide)

end VernisOS
