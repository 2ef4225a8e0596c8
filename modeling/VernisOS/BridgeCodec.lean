import Mathlib.Data.Nat.Digits.Lemmas
import VernisOS.AiListener
import VernisOS.BridgeLines

/-!
# The codec of the bridge

What the engine makes of an event and of a query, and what the kernel makes of an answer. The
frame of an event has no sequence number, so that its type is taken for one and its data for
type and data (`sessionEvents_iff`). A query loses the spaces at its end (`sessionFrames_iff`),
and an answer is cut at its first line break (`aiQuerySync_iff`). `bridge_codec` puts the three
together.
-/

open Bytes

namespace VernisOS

/-- The text of bytes, each a character. -/
def text (bytes : List UInt8) : List Char :=
  bytes.map fun b => Char.ofNat b.toNat

/-! ## Lines -/

/-- A complete line stands in the stream, and its newline behind it. -/
theorem mem_completeLines {l bytes : List UInt8} :
    ∀ {buf}, l ∈ completeLines buf bytes → ∃ pre post, buf ++ bytes = pre ++ l ++ 10 :: post := by
  induction bytes with
  | nil => exact fun h => absurd h List.not_mem_nil
  | cons c bytes ih =>
    intro buf h
    rw [completeLines] at h
    split at h
    · next hc =>
      rcases List.mem_cons.mp h with rfl | hrest
      · exact ⟨[], bytes, by rw [hc]; rfl⟩
      · obtain ⟨pre, post, heq⟩ := ih hrest
        rw [List.nil_append] at heq
        exact ⟨buf ++ c :: pre, post, by rw [heq]; simp⟩
    · obtain ⟨pre, post, heq⟩ := ih h
      exact ⟨pre, post, by rw [← heq]; simp⟩

/-- One line without a newline in it. -/
theorem completeLines_line {l : List UInt8} (h : (10 : UInt8) ∉ l) (buf : List UInt8) :
    completeLines buf (l ++ [10]) = [buf ++ l] := by
  induction l generalizing buf with
  | nil =>
    rw [List.append_nil]
    rfl
  | cons c l ih =>
    rw [List.mem_cons, not_or] at h
    refine (if_neg (Ne.symm h.1)).trans ((ih h.2 _).trans ?_)
    simp

theorem length_pyStrip_le (s : List Char) : (pyStrip s).length ≤ s.length := by
  rw [pyStrip, List.length_reverse]
  refine (List.dropWhile_suffix _).length_le.trans ?_
  rw [List.length_reverse]
  exact (List.dropWhile_suffix _).length_le

/-- Stripping that takes nothing away changes nothing. -/
theorem pyStrip_eq_of_length {s : List Char} (h : s.length ≤ (pyStrip s).length) :
    pyStrip s = s := by
  have hfront := List.dropWhile_suffix (p := pySpace) (l := s)
  have hback := List.dropWhile_suffix (p := pySpace) (l := (s.dropWhile pySpace).reverse)
  rw [pyStrip, List.length_reverse] at h
  have hlen := hback.length_le
  rw [List.length_reverse] at hlen
  have hs : s.dropWhile pySpace = s := hfront.eq_of_length_le (by omega)
  have hrest : (s.dropWhile pySpace).reverse.length ≤
      ((s.dropWhile pySpace).reverse.dropWhile pySpace).length := by
    rw [List.length_reverse, hs]
    rwa [hs] at h
  rw [pyStrip, hback.eq_of_length_le hrest, List.reverse_reverse, hs]

/-! ## Splitting -/

theorem pySplit_succ {sep : Char} {part : List Char} (h : sep ∉ part) (n : ℕ) (rest : List Char) :
    pySplit sep (n + 1) (part ++ sep :: rest) = part :: pySplit sep n rest := by
  rw [pySplit, Fields.takeWhile_ne h, if_neg (by simp), Fields.drop_ne]

theorem pySplit_of_notMem {sep : Char} {s : List Char} (h : sep ∉ s) (n : ℕ) :
    pySplit sep n s = [s] := by
  cases n with
  | zero => rfl
  | succ n => rw [pySplit, if_pos (Fields.length_takeWhile_ne_eq_iff.mpr h)]

/-- A line is a frame exactly if it has two separators. -/
theorem parse_some {line : List Char} {frame : MessageFrame}
    (h : MessageFrame.parse line = some frame) : ∃ seqStr,
      line = frame.msgType ++ '|' :: (seqStr ++ '|' :: frame.payload) ∧
      '|' ∉ frame.msgType ∧ '|' ∉ seqStr ∧ frame.seq = (pyInt seqStr).getD 0 := by
  unfold MessageFrame.parse at h
  by_cases hmem : '|' ∈ line
  · obtain ⟨part, rest, rfl, hpart⟩ := List.eq_append_cons_of_mem hmem
    rw [pySplit_succ hpart] at h
    by_cases hmem' : '|' ∈ rest
    · obtain ⟨seqStr, payload, rfl, hseq⟩ := List.eq_append_cons_of_mem hmem'
      rw [pySplit_succ hseq] at h
      cases h
      exact ⟨seqStr, rfl, hpart, hseq, rfl⟩
    · rw [pySplit_of_notMem hmem'] at h
      cases h
  · rw [pySplit_of_notMem hmem] at h
    cases h

theorem parse_frame {msgType seqStr : List Char} (hmsg : '|' ∉ msgType) (hseq : '|' ∉ seqStr)
    (payload : List Char) :
    MessageFrame.parse (msgType ++ '|' :: (seqStr ++ '|' :: payload)) =
      some ⟨msgType, (pyInt seqStr).getD 0, payload⟩ := by
  rw [MessageFrame.parse, pySplit_succ hmsg, pySplit_succ hseq]
  rfl

/-- The type and the data of an event make up its payload, or the data is empty. -/
theorem handleEvent_cases (frame : MessageFrame) :
    frame.payload = (handleEvent frame).1 ++ '|' :: (handleEvent frame).2 ∨
      frame.payload = (handleEvent frame).1 ∧ (handleEvent frame).2 = [] := by
  unfold handleEvent
  by_cases hmem : '|' ∈ frame.payload
  · obtain ⟨part, rest, heq, hpart⟩ := List.eq_append_cons_of_mem hmem
    rw [heq, pySplit_succ hpart]
    exact Or.inl rfl
  · rw [pySplit_of_notMem hmem]
    exact Or.inr ⟨rfl, rfl⟩

/-! ## Events -/

theorem asciiChar_toNat {b : UInt8} (h : (asciiChar b).toNat < 128) :
    b < 128 ∧ (asciiChar b).toNat = b.toNat := by
  unfold asciiChar at h ⊢
  split
  · next hlt =>
    refine ⟨hlt, ?_⟩
    have hnat : b.toNat < 128 := UInt8.lt_iff_toNat_lt.mp hlt
    exact toNat_charOfNat (by omega)
  · next hge =>
    rw [if_neg hge] at h
    exact absurd h (by decide)

theorem asciiChar_bar {b : UInt8} (h : asciiChar b = '|') : b = 124 := by
  have hnat := (asciiChar_toNat (b := b) (by rw [h]; decide)).2
  rw [h] at hnat
  exact UInt8.toNat_inj.mp hnat.symm

/-- The type of an event is read as its sequence number : only where both type and data are
empty are they read as what they are. -/
theorem sessionEvents_iff {eventType data : List UInt8} (htype : (124 : UInt8) ∉ eventType) :
    sessionEvents (aiSendEvent eventType data) = [(text eventType, text data)] ↔
      eventType = [] ∧ data = [] := by
  constructor
  · intro h
    have hmem : (text eventType, text data) ∈ sessionEvents (aiSendEvent eventType data) := by
      rw [h]
      exact List.mem_singleton.mpr rfl
    obtain ⟨frame, hframe, hevent⟩ := List.mem_map.mp hmem
    obtain ⟨hframe, hmsg⟩ := List.mem_filter.mp hframe
    obtain ⟨line, hline, hparse⟩ := List.mem_filterMap.mp hframe
    obtain ⟨seqStr, hlineEq, -, hseq, -⟩ := parse_some hparse
    obtain ⟨bytes, hbytes, rfl⟩ := List.mem_map.mp (List.mem_of_mem_filter hline)
    obtain ⟨pre, post, hstream⟩ := mem_completeLines hbytes
    have hstrip := length_pyStrip_le (bytes.map asciiChar)
    rw [List.length_map] at hstrip
    have hmsglen : frame.msgType.length = 3 := by
      rw [of_decide_eq_true hmsg]
      rfl
    have hlen := congrArg List.length hlineEq
    have htotal := congrArg List.length hstream
    simp only [List.length_append, List.length_cons, hmsglen] at hlen
    simp only [aiSendEvent, List.nil_append, List.length_append, List.length_cons,
      List.length_nil, show (utf8 "EVT|").length = 4 from rfl] at htotal
    rcases handleEvent_cases frame with hpayload | ⟨hpayload, hdata⟩
    · have hplen := congrArg List.length hpayload
      rw [hevent] at hplen
      simp only [List.length_append, List.length_cons, text, List.length_map] at hplen
      omega
    · have hplen := congrArg List.length hpayload
      rw [hevent] at hplen hdata
      simp only [text, List.map_eq_nil_iff] at hdata
      simp only [text, List.length_map] at hplen
      -- The line is the whole stream, and nothing is left for the sequence number.
      rw [hdata, List.length_nil] at htotal
      have hpre : pre = [] := List.length_eq_zero_iff.mp (by omega)
      have hpost : post = [] := List.length_eq_zero_iff.mp (by omega)
      have hseqnil : seqStr = [] := List.length_eq_zero_iff.mp (by omega)
      have hself := pyStrip_eq_of_length (s := bytes.map asciiChar) (by
        rw [List.length_map]
        omega)
      rw [hpre, hpost, hdata, List.nil_append, List.nil_append] at hstream
      have hbytesEq : bytes = utf8 "EVT|" ++ (eventType ++ [124]) :=
        (List.append_cancel_right (hstream.symm.trans (by simp [aiSendEvent]))).trans rfl
      rw [hself, hbytesEq, of_decide_eq_true hmsg, hseqnil] at hlineEq
      refine ⟨?_, hdata⟩
      cases eventType with
      | nil => rfl
      | cons c eventType =>
        have hbar : asciiChar c = '|' := by
          have hget := congrArg (fun l : List Char => l[4]?) hlineEq
          exact Option.some.inj hget
        exact absurd List.mem_cons_self (asciiChar_bar hbar ▸ htype)
  · rintro ⟨rfl, rfl⟩
    decide

/-! ## Numbers -/

/-- The decimal digits of a number, the most significant first. -/
def decDigits (n : ℕ) : List ℕ :=
  if n = 0 then [0] else (Nat.digits 10 n).reverse

theorem decDigits_lt {n d : ℕ} (h : d ∈ decDigits n) : d < 10 := by
  unfold decDigits at h
  split at h
  · rw [List.mem_singleton.mp h]
    decide
  · exact Nat.digits_lt_base (by decide) (List.mem_reverse.mp h)

theorem decDigits_ne_nil (n : ℕ) : decDigits n ≠ [] := by
  unfold decDigits
  split
  · exact List.cons_ne_nil _ _
  · next hn =>
    rw [ne_eq, List.reverse_eq_nil_iff]
    exact Nat.digits_ne_nil_iff_ne_zero.mpr hn

theorem foldl_decDigits (n : ℕ) : (decDigits n).foldl (fun v d => v * 10 + d) 0 = n := by
  unfold decDigits
  split
  · next hn => rw [hn]; rfl
  · rw [List.foldl_reverse]
    conv_rhs => rw [← Nat.ofDigits_digits 10 n, Nat.ofDigits_eq_foldr]
    refine congrFun (congrFun (congrArg List.foldr ?_) 0) _
    funext d v
    push_cast
    ring

theorem aiPutDec_eq (v : UInt32) :
    aiPutDec v = (decDigits v.toNat).map fun d => UInt8.ofNat (48 + d) := by
  unfold aiPutDec decDigits
  by_cases hv : v = 0
  · rw [if_pos hv, if_pos (by rw [hv]; rfl)]
    rfl
  · have hne : v.toNat ≠ 0 := fun h => hv (UInt32.toNat_inj.mp h)
    rw [if_neg hv, if_neg hne, List.map_reverse]

theorem pyStr_eq (n : ℕ) : pyStr n = (decDigits n).map fun d => Char.ofNat (48 + d) := by
  unfold pyStr decDigits
  split
  · rfl
  · rw [List.map_reverse]

theorem digitChar_toNat {n d : ℕ} (h : d ∈ decDigits n) : (Char.ofNat (48 + d)).toNat = 48 + d := by
  have hlt := decDigits_lt h
  exact toNat_charOfNat (by omega)

theorem mem_pyStr {n : ℕ} {c : Char} (h : c ∈ pyStr n) : 48 ≤ c.toNat ∧ c.toNat ≤ 57 := by
  rw [pyStr_eq] at h
  obtain ⟨d, hd, rfl⟩ := List.mem_map.mp h
  have hlt := decDigits_lt hd
  rw [digitChar_toNat hd]
  omega

theorem mem_aiPutDec {v : UInt32} {b : UInt8} (h : b ∈ aiPutDec v) :
    48 ≤ b.toNat ∧ b.toNat ≤ 57 := by
  rw [aiPutDec_eq] at h
  obtain ⟨d, hd, rfl⟩ := List.mem_map.mp h
  have hlt := decDigits_lt hd
  rw [UInt8.toNat_ofNat_of_lt' (by rw [UInt8.size]; omega)]
  omega

theorem map_asciiChar_aiPutDec (v : UInt32) : (aiPutDec v).map asciiChar = pyStr v.toNat := by
  rw [aiPutDec_eq, pyStr_eq, List.map_map]
  refine List.map_congr_left fun d hd => ?_
  have hlt := decDigits_lt hd
  have hnat : (UInt8.ofNat (48 + d)).toNat = 48 + d :=
    UInt8.toNat_ofNat_of_lt' (by rw [UInt8.size]; omega)
  have hascii : UInt8.ofNat (48 + d) < 128 := by
    rw [UInt8.lt_iff_toNat_lt, hnat]
    exact (by omega : 48 + d < 128)
  rw [Function.comp_apply, asciiChar, if_pos hascii, hnat]

theorem map_asciiByte_pyStr (v : UInt32) : (pyStr v.toNat).map asciiByte = aiPutDec v := by
  rw [aiPutDec_eq, pyStr_eq, List.map_map]
  refine List.map_congr_left fun d hd => ?_
  have hlt := decDigits_lt hd
  rw [Function.comp_apply, asciiByte, digitChar_toNat hd, if_pos (by omega)]

/-- Text without spaces is left as it is. -/
theorem pyStrip_of_noSpace {s : List Char} (h : ∀ c ∈ s, pySpace c = false) : pyStrip s = s := by
  have hfront : s.dropWhile pySpace = s := by
    refine List.dropWhile_eq_self_iff.mpr fun hpos => ?_
    rw [h _ (List.getElem_mem hpos)]
    decide
  have hback : s.reverse.dropWhile pySpace = s.reverse := by
    refine List.dropWhile_eq_self_iff.mpr fun hpos => ?_
    rw [h _ (List.mem_reverse.mp (List.getElem_mem hpos))]
    decide
  rw [pyStrip, hfront, hback, List.reverse_reverse]

theorem pyDigits_pyStr (n : ℕ) : pyDigits (pyStr n) = n := by
  conv_rhs => rw [← foldl_decDigits n]
  rw [pyDigits, pyStr_eq, List.foldl_map]
  refine List.foldl_ext _ _ _ fun v d hd => ?_
  rw [digitChar_toNat hd, Nat.add_sub_cancel_left]

/-- A number that was written is read back. -/
theorem pyInt_pyStr (n : ℕ) : pyInt (pyStr n) = some (n : ℤ) := by
  have hdigit : ∀ c ∈ pyStr n, c.isDigit = true := by
    intro c hc
    have := mem_pyStr hc
    rw [Char.isDigit_iff_toNat]
    exact this
  have hspace : ∀ c ∈ pyStr n, pySpace c = false := by
    intro c hc
    have := mem_pyStr hc
    rw [pySpace, Bool.or_eq_false_iff, Bool.and_eq_false_iff, Bool.and_eq_false_iff]
    simp only [decide_eq_false_iff_not]
    omega
  have hgroups : ((pyStr n).splitOn '_').all (fun g => !g.isEmpty && g.all Char.isDigit) = true := by
    have hbar : '_' ∉ pyStr n := fun h => absurd (hdigit _ h) (by decide)
    have hne : pyStr n ≠ [] := by
      rw [pyStr_eq, ne_eq, List.map_eq_nil_iff]
      exact decDigits_ne_nil n
    rw [List.splitOn_eq_singleton hbar, List.all_cons, List.all_nil, Bool.and_true,
      Bool.and_eq_true, Bool.not_eq_true', List.isEmpty_eq_false_iff, List.all_eq_true]
    exact ⟨hne, hdigit⟩
  have hfilter : (pyStr n).filter Char.isDigit = pyStr n := List.filter_eq_self.mpr hdigit
  unfold pyInt
  rw [pyStrip_of_noSpace hspace]
  dsimp only
  split
  · next s hs =>
    exact absurd (hdigit '-' (by rw [hs]; exact List.mem_cons_self)) (by decide)
  · next s hs =>
    exact absurd (hdigit '+' (by rw [hs]; exact List.mem_cons_self)) (by decide)
  · rw [if_pos hgroups, hfilter, pyDigits_pyStr]
    rfl

/-- A sequence number is read back by the kernel. -/
theorem foldl_aiSeqDigit (v : UInt32) : (aiPutDec v).foldl aiSeqDigit 0 = v := by
  have hrun := foldl_aiSeqDigit_ofNat (fun c (hc : c ∈ aiPutDec v) => mem_aiPutDec hc) 0
  have hvalue : (aiPutDec v).foldl (fun v c => v * 10 + (c.toNat - 48)) 0 = v.toNat := by
    conv_rhs => rw [← foldl_decDigits v.toNat]
    rw [aiPutDec_eq, List.foldl_map]
    refine List.foldl_ext _ _ _ fun w d hd => ?_
    have hlt := decDigits_lt hd
    rw [UInt8.toNat_ofNat_of_lt' (by rw [UInt8.size]; omega), Nat.add_sub_cancel_left]
  rw [hvalue, UInt32.ofNat_toNat] at hrun
  exact hrun

/-! ## Queries -/

/-- What the engine keeps of a text at the end of a line. -/
def rstrip (s : List Char) : List Char :=
  (s.reverse.dropWhile pySpace).reverse

theorem pyStrip_append {front s : List Char} {c d : Char} (hc : pySpace c = false)
    (hd : pySpace d = false) :
    pyStrip (c :: (front ++ d :: s)) = c :: (front ++ d :: rstrip s) := by
  have hback : ∀ t : List Char, (t ++ (d :: front.reverse ++ [c])).dropWhile pySpace =
      t.dropWhile pySpace ++ (d :: front.reverse ++ [c]) := by
    intro t
    induction t with
    | nil =>
      rw [List.nil_append, List.cons_append, List.dropWhile_cons_of_neg (by rw [hd]; decide)]
      rfl
    | cons x t ih =>
      by_cases hx : pySpace x = true
      · rw [List.cons_append, List.dropWhile_cons_of_pos hx, ih, List.dropWhile_cons_of_pos hx]
      · rw [List.cons_append, List.dropWhile_cons_of_neg hx, List.dropWhile_cons_of_neg hx]
        rfl
  have hreverse : (c :: (front ++ d :: s)).reverse =
      s.reverse ++ (d :: front.reverse ++ [c]) := by
    simp
  rw [pyStrip, List.dropWhile_cons_of_neg (by rw [hc]; decide), hreverse, hback, rstrip]
  simp

theorem asciiChar_eq_iff {b : UInt8} : asciiChar b = Char.ofNat b.toNat ↔ b < 128 := by
  have hb := b.toNat_lt
  constructor
  · intro h
    by_contra hge
    have hnat := congrArg Char.toNat h
    have hright : (Char.ofNat b.toNat).toNat = b.toNat := toNat_charOfNat (by omega)
    have hleft : (Char.ofNat 0xfffd).toNat = 65533 := by decide
    rw [asciiChar, if_neg hge, hleft, hright] at hnat
    omega
  · intro h
    rw [asciiChar, if_pos h]

theorem rstrip_eq_iff {query : List UInt8} : rstrip (query.map asciiChar) = text query ↔
    (∀ b ∈ query, b < 128) ∧ ∀ b ∈ query.getLast?, pySpace (asciiChar b) = false := by
  have hlast : rstrip (query.map asciiChar) = query.map asciiChar ↔
      ∀ b ∈ query.getLast?, pySpace (asciiChar b) = false := by
    rw [rstrip, List.reverse_eq_iff, List.dropWhile_eq_self_iff]
    rw [← List.map_reverse, ← List.head?_reverse]
    cases query.reverse with
    | nil => simp
    | cons b bs => simp
  have hascii : query.map asciiChar = text query ↔ ∀ b ∈ query, b < 128 := by
    rw [text, List.map_inj_left]
    exact forall₂_congr fun b _ => asciiChar_eq_iff
  rw [← hlast, ← hascii]
  constructor
  · intro h
    have hlen := congrArg List.length h
    have hself : rstrip (query.map asciiChar) = query.map asciiChar := by
      have hsuffix := List.dropWhile_suffix (p := pySpace) (l := (query.map asciiChar).reverse)
      rw [rstrip, hsuffix.eq_of_length_le, List.reverse_reverse]
      rw [rstrip, List.length_reverse, text, List.length_map] at hlen
      rw [List.length_reverse, List.length_map]
      exact hlen.ge
    exact ⟨hself.symm.trans h, hself⟩
  · rintro ⟨htext, hself⟩
    rw [hself, htext]

/-- A query arrives as it was sent exactly if it is ASCII and no space ends it. -/
theorem sessionFrames_iff (seq : UInt32) {query : List UInt8} (hline : (10 : UInt8) ∉ query) :
    sessionFrames (aiSendFrame (utf8 "REQ") seq query) =
        [⟨"REQ".toList, seq.toNat, text query⟩] ↔
      (∀ b ∈ query, b < 128) ∧ ∀ b ∈ query.getLast?, pySpace (asciiChar b) = false := by
  have hnewline : (10 : UInt8) ∉ utf8 "REQ" ++ [124] ++ aiPutDec seq ++ [124] ++ query := by
    intro h
    simp only [List.mem_append] at h
    rcases h with (((h | h) | h) | h) | h
    · exact absurd h (by decide)
    · exact absurd h (by decide)
    · exact absurd (mem_aiPutDec h).1 (by decide)
    · exact absurd h (by decide)
    · exact hline h
  have hbar : '|' ∉ pyStr seq.toNat := fun h => absurd (mem_pyStr h).2 (by decide)
  have hchars : (utf8 "REQ" ++ [124] ++ aiPutDec seq ++ [124] ++ query).map asciiChar =
      'R' :: (['E', 'Q', '|'] ++ pyStr seq.toNat ++ '|' :: query.map asciiChar) := by
    simp only [List.map_append, map_asciiChar_aiPutDec]
    simp only [List.append_assoc]
    rfl
  have hframes : sessionFrames (aiSendFrame (utf8 "REQ") seq query) =
      [⟨"REQ".toList, seq.toNat, rstrip (query.map asciiChar)⟩] := by
    have hreq : '|' ∉ "REQ".toList := by
      decide
    have hparse := parse_frame hreq hbar (rstrip (query.map asciiChar))
    rw [pyInt_pyStr, Option.getD_some] at hparse
    rw [sessionFrames, recvLines, aiSendFrame, completeLines_line hnewline, List.nil_append,
      List.map_singleton, hchars, pyStrip_append (by decide) (by decide)]
    rw [List.filter_cons_of_pos rfl, List.filter_nil, List.filterMap_cons_some (b := _) ?_]
    · rfl
    · rw [← hparse]
      simp
  rw [hframes, ← rstrip_eq_iff, List.cons.injEq, MessageFrame.mk.injEq]
  simp

/-! ## Answers -/

/-- What stands before the text of an answer. -/
def respHeader (seq : UInt32) : List UInt8 :=
  utf8 "RESP|" ++ aiPutDec seq ++ [124]

/-- The characters of a text that fit into a line behind the header of an answer. -/
def respRoom (seq : UInt32) : ℕ :=
  aiMsgMax - 1 - (respHeader seq).length

/-- A character that the line keeps : ASCII, no NUL and no line break. -/
def Plain (c : Char) : Prop :=
  0 < c.toNat ∧ c.toNat < 128 ∧ c ≠ '\n' ∧ c ≠ '\r'

theorem length_respHeader_le (seq : UInt32) : (respHeader seq).length ≤ 16 := by
  have hdigits : (aiPutDec seq).length ≤ 10 := by
    rw [aiPutDec_eq, List.length_map, decDigits]
    split
    · exact Nat.le_of_ble_eq_true rfl
    · rw [List.length_reverse, Nat.digits_length_le_iff (by decide)]
      exact lt_of_lt_of_le seq.toNat_lt (by decide)
  have hresp : (utf8 "RESP|").length = 5 := rfl
  simp only [respHeader, List.length_append, hresp, List.length_cons, List.length_nil]
  omega

theorem mem_respHeader {seq : UInt32} {b : UInt8} (h : b ∈ respHeader seq) :
    b ≠ 0 ∧ b ≠ 10 ∧ b ≠ 13 := by
  simp only [respHeader, List.mem_append] at h
  rcases h with (h | h) | h
  · have hresp : utf8 "RESP|" = [82, 69, 83, 80, 124] := rfl
    rw [hresp] at h
    simp only [List.mem_cons, List.not_mem_nil, or_false] at h
    rcases h with rfl | rfl | rfl | rfl | rfl <;> decide
  · obtain ⟨hlow, -⟩ := mem_aiPutDec h
    refine ⟨?_, ?_, ?_⟩
    · rintro rfl
      exact absurd hlow (by decide)
    · rintro rfl
      exact absurd hlow (by decide)
    · rintro rfl
      exact absurd hlow (by decide)
  · rw [List.mem_singleton.mp h]
    decide

/-- The kernel reads the number of an answer, and what follows up to a NUL. -/
theorem aiParseResp_respHeader (seq : UInt32) (rest : List UInt8) :
    aiParseResp (respHeader seq ++ rest) = some (seq, cString rest) := by
  have hbar : (124 : UInt8) ∉ aiPutDec seq := fun h => absurd (mem_aiPutDec h).2 (by decide)
  have hdrop : (respHeader seq ++ rest).drop 5 = aiPutDec seq ++ 124 :: rest := by
    simp only [respHeader, List.append_assoc]
    exact List.drop_left' rfl
  have htake : (respHeader seq ++ rest).take 5 = utf8 "RESP|" := by
    simp only [respHeader, List.append_assoc]
    exact List.take_left' rfl
  have hcString : cString (aiPutDec seq ++ 124 :: rest) = aiPutDec seq ++ 124 :: cString rest := by
    have hne : ∀ b ∈ aiPutDec seq, decide (b ≠ 0) = true := by
      rintro b hb
      rw [decide_eq_true_eq]
      rintro rfl
      exact absurd (mem_aiPutDec hb).1 (by decide)
    rw [cString, List.takeWhile_append_of_pos hne, List.takeWhile_cons_of_pos (by decide)]
    rfl
  unfold aiParseResp
  rw [htake, if_neg (not_not.mpr rfl), hdrop, hcString]
  dsimp only
  rw [Fields.takeWhile_ne hbar, if_neg (by simp), Fields.drop_ne, foldl_aiSeqDigit]

theorem sendResponse_eq (seq : UInt32) (txt : List Char) :
    sendResponse seq.toNat txt = respHeader seq ++ txt.map asciiByte ++ [10] := by
  have hstr : pyStrInt (seq.toNat : ℤ) = pyStr seq.toNat := by
    rw [pyStrInt, if_neg (by omega), Int.toNat_natCast]
  have hbar : asciiByte '|' = 124 := by decide
  have hnewline : asciiByte '\n' = 10 := by decide
  have hresp : "RESP".toList.map asciiByte ++ [124] = utf8 "RESP|" := by decide
  rw [sendResponse, MessageFrame.encode]
  simp only [List.map_append, List.map_cons, List.map_nil, hstr, map_asciiByte_pyStr, hbar,
    hnewline, respHeader, ← hresp, List.append_assoc, List.cons_append, List.nil_append]

/-- What the kernel receives of a text. -/
def received (seq : UInt32) (maxLen : ℕ) (txt : List Char) : List UInt8 :=
  (cString ((((txt.map asciiByte).takeWhile (· ≠ 10)).filter (· ≠ 13)).take (respRoom seq))).take
    (maxLen - 1)

/-- The first line of an answer. -/
theorem aiLines_sendResponse (seq : UInt32) (txt : List Char) : ∃ lines,
    aiLines [] (sendResponse seq.toNat txt) = (respHeader seq ++
      (((txt.map asciiByte).takeWhile (· ≠ 10)).filter (· ≠ 13)).take (respRoom seq)) :: lines := by
  have hheader := length_respHeader_le seq
  have hsize : aiMsgMax = 512 := rfl
  have hline : ∀ x y : List UInt8, (10 : UInt8) ∉ x →
      aiLines [] (respHeader seq ++ x ++ 10 :: y) =
        (respHeader seq ++ (x.filter (· ≠ 13)).take (respRoom seq)) :: aiLines [] y := by
    intro x y hx
    have hfilter : (respHeader seq).filter (· ≠ 13) = respHeader seq :=
      List.filter_eq_self.mpr fun b hb => decide_eq_true (mem_respHeader hb).2.2
    have hnot : (10 : UInt8) ∉ respHeader seq ++ x := by
      rw [List.mem_append, not_or]
      exact ⟨fun h => (mem_respHeader h).2.1 rfl, hx⟩
    rw [aiLines_append (Nat.zero_le _) hnot, List.nil_append, List.filter_append, hfilter,
      List.take_append, List.take_of_length_le (by omega), respRoom]
  rw [sendResponse_eq]
  by_cases hmem : (10 : UInt8) ∈ txt.map asciiByte
  · obtain ⟨x, y, hxy, hx⟩ := List.eq_append_cons_of_mem hmem
    rw [hxy, Fields.takeWhile_ne hx, ← List.append_assoc, List.append_assoc _ (10 :: y),
      List.cons_append]
    exact ⟨_, hline x _ hx⟩
  · rw [Fields.takeWhile_ne_of_notMem hmem]
    exact ⟨_, hline _ [] hmem⟩

theorem asciiByte_toNat {c : Char} (h : c.toNat < 128) : (asciiByte c).toNat = c.toNat := by
  rw [asciiByte, if_pos h]
  exact UInt8.toNat_ofNat_of_lt' (by rw [UInt8.size]; omega)

theorem text_map_asciiByte {txt : List Char} (h : ∀ c ∈ txt, c.toNat < 128) :
    text (txt.map asciiByte) = txt := by
  rw [text, List.map_map]
  conv_rhs => rw [← List.map_id txt]
  refine List.map_congr_left fun c hc => ?_
  rw [Function.comp_apply, asciiByte_toNat (h c hc), Char.ofNat_toNat, id_eq]

/-- A byte that is received is that of a plain character. -/
theorem plain_of_mem_received {seq : UInt32} {maxLen : ℕ} {txt : List Char} {c : Char}
    (h : c ∈ text (received seq maxLen txt)) : Plain c := by
  obtain ⟨b, hb, rfl⟩ := List.mem_map.mp h
  have hcString := List.mem_of_mem_take hb
  have hzero : b ≠ 0 := by simpa using List.mem_takeWhile_imp hcString
  have hfilter := List.mem_of_mem_take ((List.takeWhile_subset _) hcString)
  obtain ⟨hline, hcr⟩ := List.mem_filter.mp hfilter
  have hcr : b ≠ 13 := by simpa using hcr
  have hnl : b ≠ 10 := by simpa using List.mem_takeWhile_imp hline
  obtain ⟨c, -, hc⟩ := List.mem_map.mp ((List.takeWhile_subset _) hline)
  have hlt := asciiByte_lt c
  rw [hc] at hlt
  have hnat : (Char.ofNat b.toNat).toNat = b.toNat := toNat_charOfNat (by omega)
  refine ⟨?_, by rw [hnat]; exact hlt, fun he => hnl ?_, fun he => hcr ?_⟩
  · rw [hnat, Nat.pos_iff_ne_zero]
    exact fun he => hzero (UInt8.toNat_inj.mp he)
  · rw [← UInt8.toNat_inj, ← hnat, he]
    rfl
  · rw [← UInt8.toNat_inj, ← hnat, he]
    rfl

/-- Where the front is plain, what follows it is cut off by the shorter of the two limits. -/
theorem cut_eq_of_plain {front rest : List UInt8} {room n : ℕ}
    (hplain : ∀ b ∈ front, b ≠ 0 ∧ b ≠ 10 ∧ b ≠ 13) (hlen : front.length ≤ min n room)
    (hrest : front.length < min n room → rest = []) :
    (cString ((((front ++ rest).takeWhile (· ≠ 10)).filter (· ≠ 13)).take room)).take n =
      front := by
  have hnl : ∀ b ∈ front, decide (b ≠ 10) = true := fun b hb => decide_eq_true (hplain b hb).2.1
  have hcr : ∀ b ∈ front, decide (b ≠ 13) = true := fun b hb => decide_eq_true (hplain b hb).2.2
  have hnul : ∀ b ∈ front, decide (b ≠ 0) = true := fun b hb => decide_eq_true (hplain b hb).1
  rw [List.takeWhile_append_of_pos hnl, List.filter_append, List.filter_eq_self.mpr hcr,
    List.take_append, List.take_of_length_le (hlen.trans (min_le_right _ _)), cString,
    List.takeWhile_append_of_pos hnul, List.take_append,
    List.take_of_length_le (hlen.trans (min_le_left _ _))]
  rcases lt_or_eq_of_le hlen with hlt | heq
  · rw [hrest hlt]
    simp
  · rcases min_choice n room with hn | hroom
    · rw [show n - front.length = 0 by omega, List.take_zero, List.append_nil]
    · rw [show room - front.length = 0 by omega]
      simp

/-- What is received is the text, cut to the buffer and to the line, exactly if that part of it
is plain. -/
theorem received_iff (seq : UInt32) (maxLen : ℕ) (txt : List Char) :
    text (received seq maxLen txt) = txt.take (min (maxLen - 1) (respRoom seq)) ↔
      ∀ c ∈ txt.take (min (maxLen - 1) (respRoom seq)), Plain c := by
  constructor
  · intro h c hc
    rw [← h] at hc
    exact plain_of_mem_received hc
  · intro hplain
    set k := min (maxLen - 1) (respRoom seq) with hk
    have hbyte : ∀ b ∈ (txt.take k).map asciiByte, b ≠ 0 ∧ b ≠ 10 ∧ b ≠ 13 := by
      intro b hb
      obtain ⟨c, hc, rfl⟩ := List.mem_map.mp hb
      obtain ⟨hpos, hlt, hnl, hcr⟩ := hplain c hc
      have hnat := asciiByte_toNat hlt
      have hinj : ∀ d : Char, d.toNat < 256 → asciiByte c = UInt8.ofNat d.toNat → c = d := by
        intro d hd he
        have hval := congrArg UInt8.toNat he
        rw [hnat, UInt8.toNat_ofNat_of_lt' (by rw [UInt8.size]; omega)] at hval
        exact Char.toNat_inj.mp hval
      refine ⟨fun he => ?_, fun he => hnl (hinj '\n' (by decide) he),
        fun he => hcr (hinj '\r' (by decide) he)⟩
      rw [he] at hnat
      change 0 = c.toNat at hnat
      omega
    have hreceived : received seq maxLen txt = (txt.take k).map asciiByte := by
      have hsplit : txt.map asciiByte =
          (txt.take k).map asciiByte ++ (txt.drop k).map asciiByte := by
        rw [← List.map_append, List.take_append_drop]
      rw [received, hsplit]
      refine cut_eq_of_plain hbyte ?_ fun hlt => ?_
      · rw [List.length_map, List.length_take]
        omega
      · rw [List.length_map, List.length_take] at hlt
        rw [List.drop_eq_nil_of_le (by omega), List.map_nil]
    rw [hreceived]
    exact text_map_asciiByte fun c hc => (hplain c hc).2.1

/-- An answer that arrives in time is returned, cut to the buffer and to the line, exactly if that
part of it is plain. -/
theorem aiQuerySync_iff {s : AiBridge} {maxLen : ℕ} {txt : List Char}
    {polls : List (Option UInt8)} (query : List UInt8) (rest : List (Option UInt8))
    (hhw : s.com2Hw = true) (hrx : s.rxLine = []) (hmax : 2 ≤ maxLen)
    (hpolls : polls.reduceOption = sendResponse s.nextSeq.toNat txt)
    (htime : polls.count none < aiRespTimeout) :
    (s.aiQuerySync query maxLen (polls ++ rest)).2.1.respBuf.map text =
        some (txt.take (min (maxLen - 1) (respRoom s.nextSeq))) ↔
      ∀ c ∈ txt.take (min (maxLen - 1) (respRoom s.nextSeq)), Plain c := by
  obtain ⟨lines, hline⟩ := aiLines_sendResponse s.nextSeq txt
  rw [← hpolls] at hline
  have hanswer := @aiAwaitResp_first _ maxLen _ _ _ (aiParseResp_respHeader s.nextSeq _) rest
    polls [] aiRespTimeout hline htime
  have hguard : ¬ (s.com2Hw = false ∨ maxLen < 2) := by
    rw [hhw, not_or]
    exact ⟨by decide, by omega⟩
  rw [AiBridge.aiQuerySync, if_neg hguard, hrx]
  dsimp only
  rw [hanswer, Option.map_some, Option.some.injEq, ← received_iff]
  rfl

/-! ## The codec -/

/-- When each kind of frame is decoded as what was sent. -/
theorem bridge_codec (eventType data query : List UInt8) (txt : List Char) (s : AiBridge)
    (maxLen : ℕ) (input polls rest : List (Option UInt8)) :
    ((124 : UInt8) ∉ eventType → (10 : UInt8) ∉ data → (13 : UInt8) ∉ data →
      (sessionEvents (aiSendEvent eventType data) = [(text eventType, text data)] ↔
        eventType = [] ∧ data = [])) ∧
    (s.com2Hw = true → 2 ≤ maxLen → (10 : UInt8) ∉ query → (13 : UInt8) ∉ query →
      (sessionFrames (s.aiQuerySync query maxLen input).1 =
          [⟨"REQ".toList, s.nextSeq.toNat, text query⟩] ↔
        (∀ b ∈ query, b < 128) ∧ ∀ b ∈ query.getLast?, pySpace (asciiChar b) = false)) ∧
    (s.com2Hw = true → s.rxLine = [] → 2 ≤ maxLen →
      polls.reduceOption = sendResponse s.nextSeq.toNat txt →
      polls.count none < aiRespTimeout →
      ((s.aiQuerySync query maxLen (polls ++ rest)).2.1.respBuf.map text =
          some (txt.take (min (maxLen - 1) (respRoom s.nextSeq))) ↔
        ∀ c ∈ txt.take (min (maxLen - 1) (respRoom s.nextSeq)), Plain c)) := by
  refine ⟨fun htype _ _ => sessionEvents_iff htype, ?_, ?_⟩
  · intro hhw hmax hnl _
    have hguard : ¬ (s.com2Hw = false ∨ maxLen < 2) := by
      rw [hhw, not_or]
      exact ⟨by decide, by omega⟩
    rw [AiBridge.aiQuerySync, if_neg hguard]
    exact sessionFrames_iff s.nextSeq hnl
  · intro hhw hrx hmax hpolls htime
    exact aiQuerySync_iff query rest hhw hrx hmax hpolls htime

/-- The empty event, the query "status" and the answer "ok" come through. -/
theorem bridge_codec_status :
    sessionEvents (aiSendEvent [] []) = [([], [])] ∧
    sessionFrames (initialBridge.aiQuerySync (utf8 "status") 512 []).1 =
      [⟨"REQ".toList, 1, text (utf8 "status")⟩] ∧
    (initialBridge.aiQuerySync (utf8 "status") 512
      ((sendResponse 1 "ok".toList).map some ++ [])).2.1.respBuf.map text = some "ok".toList := by
  have h := bridge_codec [] [] (utf8 "status") "ok".toList initialBridge 512 []
    ((sendResponse 1 "ok".toList).map some) []
  refine ⟨(h.1 (by decide) (by decide) (by decide)).mpr ⟨rfl, rfl⟩, ?_, ?_⟩
  · exact (h.2.1 rfl (by decide) (by decide) (by decide)).mpr
      ⟨by decide +kernel, by decide +kernel⟩
  · refine ((h.2.2 rfl rfl (by decide) ?_ ?_).mpr ?_).trans ?_
    · decide
    · decide
    · exact fun c hc =>
        (by simp [Plain] : ∀ c ∈ "ok".toList, Plain c) c (List.mem_of_mem_take hc)
    · decide

/-- The event "PROC" with the data "1|fork" is decoded as "1" with "fork". -/
theorem not_bridge_codec : ¬ ∀ eventType data : List UInt8, (124 : UInt8) ∉ eventType →
    (10 : UInt8) ∉ data → (13 : UInt8) ∉ data →
      sessionEvents (aiSendEvent eventType data) = [(text eventType, text data)] := by
  intro h
  have hproc := h (utf8 "PROC") (utf8 "1|fork") (by decide) (by decide) (by decide)
  exact absurd hproc (by decide)

end VernisOS
