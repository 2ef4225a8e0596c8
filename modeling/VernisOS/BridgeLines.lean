import Mathlib.Data.List.ReduceOption
import VernisOS.AiBridge
import VernisOS.Lib.Fields

/-!
# Lines on the serial line

`aiReadline` assembles the lines of what arrives, however it is spread over the calls :
`AiReader.lines` are the lines that are still to be read, and a call takes the first of them or
none (`aiReadline_lines`).
-/

open Bytes

namespace VernisOS

/-- The lines that bytes complete, behind what is in `rx_line`. -/
def aiLines : List UInt8 → List UInt8 → List (List UInt8)
  | _, [] => []
  | rxLine, c :: bytes =>
    if c = 13 then aiLines rxLine bytes
    else if c = 10 then rxLine :: aiLines [] bytes
    else aiLines (if rxLine.length < aiMsgMax - 1 then rxLine ++ [c] else rxLine) bytes

/-- The lines that are still to be read. Empty ones are not noticed. -/
def AiReader.lines (r : AiReader) : List (List UInt8) :=
  (aiLines r.rxLine r.input.reduceOption).filter fun line => !line.isEmpty

/-- A call reads the next line or none. -/
theorem aiReadline_lines (rxLine : List UInt8) (input : List (Option UInt8)) :
    (AiReader.mk rxLine input).lines =
      if (aiReadline rxLine input).1 = [] then (aiReadline rxLine input).2.lines
      else (aiReadline rxLine input).1 :: (aiReadline rxLine input).2.lines := by
  induction input generalizing rxLine with
  | nil => rfl
  | cons poll input ih =>
    cases poll with
    | none =>
      rw [aiReadline, if_pos rfl]
      rfl
    | some c =>
      have hlines : (AiReader.mk rxLine (some c :: input)).lines =
          (aiLines rxLine (c :: input.reduceOption)).filter fun line => !line.isEmpty := rfl
      rw [aiReadline, hlines, aiLines]
      by_cases hcr : c = 13
      · rw [if_pos hcr, if_pos hcr]
        exact ih rxLine
      · rw [if_neg hcr, if_neg hcr]
        by_cases hnl : c = 10
        · rw [if_pos hnl, if_pos hnl]
          dsimp only
          by_cases hempty : rxLine = []
          · rw [if_pos hempty, hempty, List.filter_cons_of_neg (by decide)]
            rfl
          · rw [if_neg hempty, List.filter_cons_of_pos (by simpa using hempty)]
            rfl
        · rw [if_neg hnl, if_neg hnl]
          exact ih _

/-- A line is what stands before its newline, without carriage returns and cut at the size of
the buffer. -/
theorem aiLines_append {rxLine x : List UInt8} (hlen : rxLine.length ≤ aiMsgMax - 1)
    (hx : (10 : UInt8) ∉ x) (y : List UInt8) :
    aiLines rxLine (x ++ 10 :: y) =
      (rxLine ++ x.filter (· ≠ 13)).take (aiMsgMax - 1) :: aiLines [] y := by
  induction x generalizing rxLine with
  | nil =>
    rw [List.nil_append, aiLines, if_neg (by decide), if_pos rfl, List.filter_nil,
      List.append_nil, List.take_of_length_le hlen]
  | cons c x ih =>
    rw [List.mem_cons, not_or] at hx
    rw [List.cons_append, aiLines]
    by_cases hcr : c = 13
    · rw [if_pos hcr, ih hlen hx.2, List.filter_cons_of_neg (by simpa using hcr)]
    · rw [if_neg hcr, if_neg (Ne.symm hx.1), List.filter_cons_of_pos (by simpa using hcr)]
      by_cases hroom : rxLine.length < aiMsgMax - 1
      · rw [if_pos hroom, ih (by rw [List.length_append]; exact hroom) hx.2, List.append_assoc]
        rfl
      · rw [if_neg hroom, ih hlen hx.2, List.take_append_of_le_length (by omega),
          List.take_append_of_le_length (by omega)]

/-- The first line that arrives ends the wait if it is the answer and arrives in time. -/
theorem aiAwaitResp_first {seq : UInt32} {maxLen : ℕ} {line payload : List UInt8}
    {lines : List (List UInt8)} (hresp : aiParseResp line = some (seq, payload))
    (rest : List (Option UInt8)) : ∀ (polls : List (Option UInt8)) (rxLine : List UInt8) (spin : ℕ),
      aiLines rxLine polls.reduceOption = line :: lines → polls.count none < spin →
      (aiAwaitResp seq maxLen spin ⟨rxLine, polls ++ rest⟩).respBuf =
        some (payload.take (maxLen - 1))
  | [], _, _, hline, _ => by cases hline
  | none :: polls, rxLine, spin + 1, hline, hspin => by
    rw [List.count_cons_self] at hspin
    exact aiAwaitResp_first hresp rest polls rxLine spin hline (by omega)
  | some c :: polls, rxLine, spin + 1, hline, hspin => by
    rw [List.count_cons_of_ne (Option.some_ne_none c)] at hspin
    rw [List.reduceOption_cons_of_some, aiLines] at hline
    rw [List.cons_append, aiAwaitResp, aiReadline]
    by_cases hcr : c = 13
    · rw [if_pos hcr] at hline
      rw [if_pos hcr]
      exact aiAwaitResp_first hresp rest polls rxLine (spin + 1) hline hspin
    · rw [if_neg hcr] at hline
      rw [if_neg hcr]
      by_cases hnl : c = 10
      · rw [if_pos hnl] at hline
        obtain ⟨rfl, -⟩ := List.cons.inj hline
        have hne : rxLine ≠ [] := by
          rintro rfl
          cases hresp
        rw [if_pos hnl]
        dsimp only
        rw [if_neg hne, hresp]
        dsimp only
        rw [if_pos rfl]
      · rw [if_neg hnl] at hline
        rw [if_neg hnl]
        exact aiAwaitResp_first hresp rest polls _ (spin + 1) hline hspin

/-! ## Sequence numbers -/

theorem aiSeqDigit_ofNat {c : UInt8} (h : 48 ≤ c.toNat ∧ c.toNat ≤ 57) (n : ℕ) :
    aiSeqDigit (UInt32.ofNat n) c = UInt32.ofNat (n * 10 + (c.toNat - 48)) := by
  have hall : ∀ k : Fin 10, UInt32.ofInt ((UInt8.ofNat (48 + k.val)).toInt8.toInt - 48) =
      UInt32.ofNat k.val := by
    decide
  have hc := hall ⟨c.toNat - 48, by omega⟩
  rw [show 48 + (c.toNat - 48) = c.toNat by omega, UInt8.ofNat_toNat] at hc
  rw [aiSeqDigit, hc, UInt32.ofNat_add, UInt32.ofNat_mul]
  rfl

/-- Decimal digits add up to their value, in 32 bits. -/
theorem foldl_aiSeqDigit_ofNat {digits : List UInt8}
    (h : ∀ c ∈ digits, 48 ≤ c.toNat ∧ c.toNat ≤ 57) (n : ℕ) :
    digits.foldl aiSeqDigit (UInt32.ofNat n) =
      UInt32.ofNat (digits.foldl (fun v c => v * 10 + (c.toNat - 48)) n) := by
  induction digits generalizing n with
  | nil => rfl
  | cons c digits ih =>
    rw [List.foldl_cons, aiSeqDigit_ofNat (h c List.mem_cons_self),
      ih (fun d hd => h d (List.mem_cons_of_mem _ hd)), List.foldl_cons]

end VernisOS
