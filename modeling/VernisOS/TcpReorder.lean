import VernisOS.Lib.Run
import VernisOS.TcpAck

/-!
# Segments out of order

The receiving side of a connection is the buffer, `ack_num` and the slot for one segment that
came too early (`RxSide`). Two adjacent segments may be delivered in either order exactly if
`ack_num` does not wrap around within the first one, because `tcp_handle_segment` compares
sequence numbers as plain numbers (`reordered_pair_iff`). For the same reason, and because nothing
clears the slot when in-order data or a FIN passes it, what is held is ahead of `ack_num` only as
long as none of this happens (`slot_ahead_iff`).
-/

open Run

namespace VernisOS

/-- What a connection has received. -/
structure RxSide where
  rxBuf : List UInt8
  ackNum : UInt32
  oooValid : Bool
  oooSeq : UInt32
  oooBuf : List UInt8

namespace RxSide

/-- In-order data, as much as fits. -/
def store (r : RxSide) (data : List UInt8) : RxSide :=
  { r with
    rxBuf := r.rxBuf ++ data.take (tcpRxBufSize - r.rxBuf.length)
    ackNum := r.ackNum + UInt32.ofNat (data.take (tcpRxBufSize - r.rxBuf.length)).length }

/-- Data at a sequence number. -/
def receive (r : RxSide) (seq : UInt32) (data : List UInt8) : RxSide :=
  if seq = r.ackNum then
    let r := r.store data
    if r.oooValid ∧ r.oooSeq = r.ackNum then { r.store r.oooBuf with oooValid := false } else r
  else if r.ackNum < seq ∧ !r.oooValid then
    { r with oooBuf := data.take tcpMaxSeg, oooSeq := seq, oooValid := true }
  else r

/-- The FIN of a segment, if everything before it has been stored. -/
def fin (r : RxSide) (seg : TcpSegment) : RxSide :=
  if hasFlag seg.flags tcpFlagFin ∧ seg.seqNum + UInt32.ofNat seg.payload.length = r.ackNum then
    { r with ackNum := r.ackNum + 1 }
  else r

/-- The data of a segment. -/
def data (r : RxSide) (seg : TcpSegment) : RxSide :=
  if 0 < seg.payload.length then r.receive seg.seqNum seg.payload else r

/-- What the slot holds is ahead of `ack_num`, by less than half of the sequence space. -/
def SlotAhead (r : RxSide) : Prop :=
  r.oooValid = true → 0 < (r.oooSeq - r.ackNum).toNat ∧
    (r.oooSeq - r.ackNum).toNat < 2147483648

end RxSide

namespace TcpControlBlock

variable {env : TcpEnv} {tcb : TcpControlBlock}

/-- The receiving side. -/
def rxSide (tcb : TcpControlBlock) : RxSide :=
  ⟨tcb.rxBuf, tcb.ackNum, tcb.oooValid, tcb.oooSeq, tcb.oooBuf⟩

theorem Quiet.rxSide {tcb' : TcpControlBlock} (h : Quiet tcb tcb') :
    tcb'.rxSide = tcb.rxSide := by
  simp only [TcpControlBlock.rxSide, h.rxBuf, h.ackNum, h.oooValid, h.oooSeq, h.oooBuf]

theorem rxSide_tcpAckAdvance (env : TcpEnv) (tcb : TcpControlBlock) (ack : UInt32) (wnd : UInt16) :
    (tcpAckAdvance env tcb ack wnd).rxSide = tcb.rxSide := by
  unfold tcpAckAdvance
  dsimp only
  split <;> rfl

theorem rxSide_receiveData (tcb : TcpControlBlock) (seq : UInt32) (data : List UInt8) :
    (tcb.receiveData seq data).rxSide = tcb.rxSide.receive seq data := by
  unfold receiveData RxSide.receive
  change _ = if seq = tcb.ackNum then _ else _
  by_cases hseq : seq = tcb.ackNum
  · rw [if_pos hseq, if_pos hseq]
    change _ = if (tcb.storeRx data).oooValid = true ∧
      (tcb.storeRx data).oooSeq = (tcb.storeRx data).ackNum then _ else _
    by_cases hflush : (tcb.storeRx data).oooValid = true ∧
        (tcb.storeRx data).oooSeq = (tcb.storeRx data).ackNum
    · rw [if_pos hflush]
      exact (if_pos hflush).symm
    · rw [if_neg hflush]
      exact (if_neg hflush).symm
  · rw [if_neg hseq, if_neg hseq]
    change _ = if tcb.ackNum < seq ∧ (!tcb.oooValid) = true then _ else _
    split <;> rfl

/-- An established connection takes the data of a segment, then its FIN. -/
theorem handleEstablished_rx (env : TcpEnv) (tcb : TcpControlBlock) (seg : TcpSegment) :
    (handleEstablished env tcb seg).1.rxSide = (tcb.rxSide.data seg).fin seg ∧
      (handleEstablished env tcb seg).1.state =
        if hasFlag seg.flags tcpFlagFin ∧
            seg.seqNum + UInt32.ofNat seg.payload.length = (tcb.rxSide.data seg).ackNum then
          .closeWait
        else tcb.state := by
  unfold handleEstablished
  dsimp only
  set t := if hasFlag seg.flags tcpFlagAck then tcpAckAdvance env tcb seg.ackNum seg.window
    else tcb with ht
  have hacked : t.rxSide = tcb.rxSide ∧ t.state = tcb.state := by
    rw [ht]
    split
    · exact ⟨rxSide_tcpAckAdvance env tcb _ _, (tcpAckAdvance_rx env tcb _ _).1⟩
    · exact ⟨rfl, rfl⟩
  set r := if 0 < seg.payload.length then
    tcpSendAck env (t.receiveData seg.seqNum seg.payload) else (t, []) with hr
  have hdata : r.1.rxSide = tcb.rxSide.data seg ∧ r.1.state = tcb.state := by
    rw [hr, RxSide.data]
    split
    · have hq := quiet_tcpSendAck env (t.receiveData seg.seqNum seg.payload)
      obtain ⟨-, -, -, hstate⟩ := receiveData_count t seg.seqNum seg.payload
      rw [hq.rxSide, rxSide_receiveData, hacked.1]
      exact ⟨rfl, hq.state.trans (hstate.trans hacked.2)⟩
    · exact hacked
  have hack : r.1.ackNum = (tcb.rxSide.data seg).ackNum := congrArg RxSide.ackNum hdata.1
  rw [RxSide.fin, ← hack]
  split
  · have hq := quiet_tcpSendAck env (r.1.setAck (r.1.ackNum + 1))
    refine ⟨?_, rfl⟩
    change (tcpSendAck env (r.1.setAck (r.1.ackNum + 1))).1.rxSide = _
    rw [hq.rxSide, ← hdata.1]
    rfl
  · exact hdata

/-! ## Two adjacent segments -/

/-- A segment that carries data and neither opens nor ends anything. -/
structure Plain (seg : TcpSegment) : Prop where
  rst : hasFlag seg.flags tcpFlagRst = false
  fin : hasFlag seg.flags tcpFlagFin = false

theorem handle_plain (env : TcpEnv) {seg : TcpSegment} (h : Plain seg)
    (hs : tcb.state = .established) :
    (tcpHandleSegment env tcb seg).1.rxSide = tcb.rxSide.data seg ∧
      (tcpHandleSegment env tcb seg).1.state = .established := by
  obtain ⟨hrx, hstate⟩ := handleEstablished_rx env tcb seg
  have heq : tcpHandleSegment env tcb seg = handleEstablished env tcb seg := by
    unfold tcpHandleSegment
    simp only [h.rst, hs, Bool.false_eq_true, if_false]
  have hnofin : ¬ (hasFlag seg.flags tcpFlagFin = true ∧
      seg.seqNum + UInt32.ofNat seg.payload.length = (tcb.rxSide.data seg).ackNum) := by
    rw [h.fin]
    exact fun hfin => absurd hfin.1 Bool.false_ne_true
  rw [heq]
  rw [RxSide.fin, if_neg hnofin] at hrx
  rw [if_neg hnofin] at hstate
  exact ⟨hrx, hstate.trans hs⟩

end TcpControlBlock

namespace RxSide

variable {r : RxSide} {a b : List UInt8}

theorem store_of_room (h : r.rxBuf.length + a.length ≤ tcpRxBufSize) :
    r.store a = { r with rxBuf := r.rxBuf ++ a, ackNum := r.ackNum + UInt32.ofNat a.length } := by
  have htake : a.take (tcpRxBufSize - r.rxBuf.length) = a := List.take_of_length_le (by omega)
  rw [store, htake]

theorem receive_inOrder (hooo : r.oooValid = false) (h : r.rxBuf.length + a.length ≤ tcpRxBufSize) :
    r.receive r.ackNum a =
      { r with rxBuf := r.rxBuf ++ a, ackNum := r.ackNum + UInt32.ofNat a.length } := by
  rw [receive, if_pos rfl, store_of_room h]
  dsimp only
  rw [if_neg (by simp [hooo])]

theorem ofNat_ne_zero {n : ℕ} (hpos : 0 < n) (hn : n < 2 ^ 32) : UInt32.ofNat n ≠ 0 := by
  intro h
  have hzero := congrArg UInt32.toNat h
  rw [UInt32.toNat_ofNat', Nat.mod_eq_of_lt hn] at hzero
  exact absurd hzero (by rw [show (0 : UInt32).toNat = 0 from rfl]; omega)

theorem add_ofNat_ne_self (x : UInt32) {n : ℕ} (hpos : 0 < n) (hn : n < 2 ^ 32) :
    x + UInt32.ofNat n ≠ x := by
  intro h
  exact ofNat_ne_zero hpos hn (UInt32.add_eq_left.mp h)

/-- The segment behind the next one is kept if its number is the larger one. -/
theorem receive_early (hooo : r.oooValid = false) (hne : a ≠ []) (ha : a.length ≤ tcpMaxSeg)
    (b : List UInt8) :
    r.receive (r.ackNum + UInt32.ofNat a.length) b =
      if r.ackNum < r.ackNum + UInt32.ofNat a.length then
        { r with
          oooBuf := b.take tcpMaxSeg, oooSeq := r.ackNum + UInt32.ofNat a.length, oooValid := true }
      else r := by
  have hseq : r.ackNum + UInt32.ofNat a.length ≠ r.ackNum := by
    refine add_ofNat_ne_self _ (List.length_pos_iff.mpr hne) (Nat.lt_of_le_of_lt ha ?_)
    decide
  rw [receive, if_neg hseq]
  simp only [hooo, Bool.not_false, and_true]

/-- The missing segment arrives : it and the one held are stored. -/
theorem receive_missing (hlen : b.length ≤ tcpMaxSeg)
    (hroom : r.rxBuf.length + a.length + b.length ≤ tcpRxBufSize) :
    RxSide.receive
        { r with
          oooBuf := b.take tcpMaxSeg, oooSeq := r.ackNum + UInt32.ofNat a.length, oooValid := true }
        r.ackNum a =
      ⟨r.rxBuf ++ a ++ b, r.ackNum + UInt32.ofNat a.length + UInt32.ofNat b.length, false,
        r.ackNum + UInt32.ofNat a.length, b⟩ := by
  rw [List.take_of_length_le hlen, receive, if_pos rfl, store_of_room (by dsimp only; omega)]
  dsimp only
  rw [if_pos ⟨rfl, rfl⟩, store_of_room]
  dsimp only
  rw [List.length_append]
  exact hroom

end RxSide

namespace TcpControlBlock

variable {tcb : TcpControlBlock}

theorem data_of_payload {r : RxSide} {seg : TcpSegment} (h : seg.payload ≠ []) :
    r.data seg = r.receive seg.seqNum seg.payload := by
  rw [RxSide.data, if_pos (List.length_pos_iff.mpr h)]

theorem data_of_empty {r : RxSide} {seg : TcpSegment} (h : seg.payload = []) :
    r.data seg = r := by
  rw [RxSide.data, h, if_neg (by simp)]

/-- Two segments on an established connection. -/
theorem handle_pair (env env' : TcpEnv) {a b : TcpSegment} (hs : tcb.state = .established)
    (ha : Plain a) (hb : Plain b) :
    (tcpHandleSegment env' (tcpHandleSegment env tcb a).1 b).1.rxSide =
      (tcb.rxSide.data a).data b := by
  obtain ⟨hrx, hstate⟩ := handle_plain env ha hs
  rw [(handle_plain env' hb hstate).1, hrx]

/-- In either order, two adjacent segments leave the same bytes and the same `ack_num`, exactly
if one of them is empty or `ack_num` does not wrap around within the first one. -/
theorem reordered_pair_iff (env env' : TcpEnv) (tcb : TcpControlBlock) (a b : TcpSegment)
    (hs : tcb.state = .established) (hooo : tcb.oooValid = false) (ha : Plain a) (hb : Plain b)
    (haseq : a.seqNum = tcb.ackNum)
    (hbseq : b.seqNum = tcb.ackNum + UInt32.ofNat a.payload.length)
    (halen : a.payload.length ≤ tcpMaxSeg) (hblen : b.payload.length ≤ tcpMaxSeg)
    (hroom : tcb.rxBuf.length + a.payload.length + b.payload.length ≤ tcpRxBufSize) :
    ((tcpHandleSegment env' (tcpHandleSegment env tcb b).1 a).1.rxBuf =
          (tcpHandleSegment env' (tcpHandleSegment env tcb a).1 b).1.rxBuf ∧
        (tcpHandleSegment env' (tcpHandleSegment env tcb b).1 a).1.ackNum =
          (tcpHandleSegment env' (tcpHandleSegment env tcb a).1 b).1.ackNum) ↔
      a.payload = [] ∨ b.payload = [] ∨
        tcb.ackNum < tcb.ackNum + UInt32.ofNat a.payload.length := by
  have hab := handle_pair env env' hs ha hb
  have hba := handle_pair env env' hs hb ha
  have hbuf := fun t : TcpControlBlock => show t.rxBuf = t.rxSide.rxBuf from rfl
  have hnum := fun t : TcpControlBlock => show t.ackNum = t.rxSide.ackNum from rfl
  rw [hbuf, hbuf (tcpHandleSegment env' _ b).1, hnum (tcpHandleSegment env' _ a).1,
    hnum (tcpHandleSegment env' _ b).1, hab, hba]
  by_cases hae : a.payload = []
  · rw [data_of_empty hae, data_of_empty hae]
    exact iff_of_true ⟨rfl, rfl⟩ (Or.inl hae)
  by_cases hbe : b.payload = []
  · rw [data_of_empty hbe, data_of_empty hbe]
    exact iff_of_true ⟨rfl, rfl⟩ (Or.inr (Or.inl hbe))
  simp only [hae, hbe, false_or, data_of_payload hae, data_of_payload hbe, haseq, hbseq]
  -- in order, both are stored
  have hfirst : tcb.rxSide.receive tcb.ackNum a.payload =
      { tcb.rxSide with
        rxBuf := tcb.rxBuf ++ a.payload
        ackNum := tcb.ackNum + UInt32.ofNat a.payload.length } :=
    RxSide.receive_inOrder (r := tcb.rxSide) hooo (by change tcb.rxBuf.length + _ ≤ _; omega)
  have hboth : (tcb.rxSide.receive tcb.ackNum a.payload).receive
        (tcb.ackNum + UInt32.ofNat a.payload.length) b.payload =
      { tcb.rxSide with
        rxBuf := tcb.rxBuf ++ a.payload ++ b.payload
        ackNum := tcb.ackNum + UInt32.ofNat a.payload.length + UInt32.ofNat b.payload.length } := by
    rw [hfirst]
    refine RxSide.receive_inOrder (r := ⟨tcb.rxBuf ++ a.payload,
      tcb.ackNum + UInt32.ofNat a.payload.length, tcb.oooValid, tcb.oooSeq, tcb.oooBuf⟩) hooo ?_
    change (tcb.rxBuf ++ a.payload).length + b.payload.length ≤ _
    rw [List.length_append]
    exact hroom
  have hearly := RxSide.receive_early (r := tcb.rxSide) hooo hae halen b.payload
  change tcb.rxSide.receive (tcb.ackNum + UInt32.ofNat a.payload.length) b.payload =
    if tcb.ackNum < tcb.ackNum + UInt32.ofNat a.payload.length then _ else _ at hearly
  rw [hboth, hearly]
  by_cases hwrap : tcb.ackNum < tcb.ackNum + UInt32.ofNat a.payload.length
  · have hmissing := RxSide.receive_missing (r := tcb.rxSide) hblen hroom
    rw [if_pos hwrap, show tcb.ackNum = tcb.rxSide.ackNum from rfl, hmissing]
    exact iff_of_true ⟨rfl, rfl⟩ hwrap
  · rw [if_neg hwrap, hfirst]
    refine iff_of_false ?_ hwrap
    rintro ⟨hbytes, -⟩
    exact hbe (List.self_eq_append_right.mp hbytes)

end TcpControlBlock

/-- Bytes from port 5000 to port 80. -/
def peerBytes (seq : UInt32) (payload : List UInt8) : TcpSegment :=
  ⟨5000, 80, seq, 2, tcpFlagPsh ||| tcpFlagAck, 1024, payload⟩

/-- An established connection that expects the byte `ack`. -/
def expecting (ack : UInt32) : TcpControlBlock :=
  { TcpControlBlock.zero with state := .established, seqNum := 2, sndUna := 2, ackNum := ack }

theorem plain_peerBytes (seq : UInt32) (payload : List UInt8) :
    TcpControlBlock.Plain (peerBytes seq payload) := by
  have hrst : hasFlag (tcpFlagPsh ||| tcpFlagAck) tcpFlagRst = false := by decide
  have hfin : hasFlag (tcpFlagPsh ||| tcpFlagAck) tcpFlagFin = false := by decide
  exact ⟨hrst, hfin⟩

theorem reordered_pair_small :
    ((TcpControlBlock.tcpHandleSegment ⟨true, 0⟩ (TcpControlBlock.tcpHandleSegment ⟨true, 0⟩
          (expecting 1001) (peerBytes 1003 [3, 4])).1 (peerBytes 1001 [1, 2])).1.rxBuf =
        (TcpControlBlock.tcpHandleSegment ⟨true, 0⟩ (TcpControlBlock.tcpHandleSegment ⟨true, 0⟩
          (expecting 1001) (peerBytes 1001 [1, 2])).1 (peerBytes 1003 [3, 4])).1.rxBuf ∧
      (TcpControlBlock.tcpHandleSegment ⟨true, 0⟩ (TcpControlBlock.tcpHandleSegment ⟨true, 0⟩
          (expecting 1001) (peerBytes 1003 [3, 4])).1 (peerBytes 1001 [1, 2])).1.ackNum =
        (TcpControlBlock.tcpHandleSegment ⟨true, 0⟩ (TcpControlBlock.tcpHandleSegment ⟨true, 0⟩
          (expecting 1001) (peerBytes 1001 [1, 2])).1 (peerBytes 1003 [3, 4])).1.ackNum) :=
  (TcpControlBlock.reordered_pair_iff ⟨true, 0⟩ ⟨true, 0⟩ (expecting 1001) (peerBytes 1001 [1, 2])
    (peerBytes 1003 [3, 4]) rfl rfl (plain_peerBytes _ _) (plain_peerBytes _ _) rfl rfl
    (by decide) (by decide) (by decide)).mpr (Or.inr (Or.inr (by decide)))

/-- `ack_num` wraps around within the first of two segments : the second one, which arrives first,
is not kept. -/
theorem not_reordered_pair :
    (expecting 0xFFFFFFFB).state = .established ∧ (expecting 0xFFFFFFFB).oooValid = false ∧
      TcpControlBlock.Plain (peerBytes 0xFFFFFFFB (List.replicate 10 7)) ∧
      TcpControlBlock.Plain (peerBytes 5 (List.replicate 10 9)) ∧
      (0xFFFFFFFB : UInt32) + UInt32.ofNat 10 = 5 ∧
      (TcpControlBlock.tcpHandleSegment ⟨true, 0⟩ (TcpControlBlock.tcpHandleSegment ⟨true, 0⟩
          (expecting 0xFFFFFFFB) (peerBytes 0xFFFFFFFB (List.replicate 10 7))).1
          (peerBytes 5 (List.replicate 10 9))).1.rxBuf =
        List.replicate 10 7 ++ List.replicate 10 9 ∧
      (TcpControlBlock.tcpHandleSegment ⟨true, 0⟩ (TcpControlBlock.tcpHandleSegment ⟨true, 0⟩
          (expecting 0xFFFFFFFB) (peerBytes 5 (List.replicate 10 9))).1
          (peerBytes 0xFFFFFFFB (List.replicate 10 7))).1.rxBuf = List.replicate 10 7 :=
  ⟨rfl, rfl, plain_peerBytes _ _, plain_peerBytes _ _, rfl, by decide, by decide⟩

/-! ## The slot -/

namespace RxSide

variable {r : RxSide} {seg : TcpSegment}

/-- Bytes of a segment that are stored in order. -/
def stored (r : RxSide) (seg : TcpSegment) : ℕ :=
  if seg.seqNum = r.ackNum then min seg.payload.length (tcpRxBufSize - r.rxBuf.length) else 0

/-- A segment on an established connection that leaves the slot ahead of `ack_num`. -/
structure Keeps (r : RxSide) (seg : TcpSegment) : Prop where
  /-- What is stored in order does not reach beyond the start of the segment held. -/
  overtaken : r.oooValid = true → r.stored seg ≤ (r.oooSeq - r.ackNum).toNat
  /-- What is kept, as the larger number, is not behind `ack_num`. -/
  placed : r.oooValid = false → seg.payload ≠ [] → r.ackNum < seg.seqNum →
    (seg.seqNum - r.ackNum).toNat < 2147483648
  /-- A FIN that is taken is not the byte in front of the segment held. -/
  finished : r.oooValid = true → hasFlag seg.flags tcpFlagFin = true →
    seg.seqNum + UInt32.ofNat seg.payload.length = r.ackNum + UInt32.ofNat (r.stored seg) →
    r.oooSeq ≠ r.ackNum + UInt32.ofNat (r.stored seg) + 1

theorem toNat_sub_ofNat {x : UInt32} {n : ℕ} (h : n ≤ x.toNat) :
    (x - UInt32.ofNat n).toNat = x.toNat - n := by
  have hx := x.toNat_lt
  have hn : (UInt32.ofNat n).toNat = n := by
    rw [UInt32.toNat_ofNat', Nat.mod_eq_of_lt (Nat.lt_of_le_of_lt h hx)]
  rw [UInt32.toNat_sub, hn]
  omega

theorem toNat_sub_ofNat_of_lt {x : UInt32} {n : ℕ} (h : x.toNat < n) (hn : n ≤ 4096) :
    (x - UInt32.ofNat n).toNat = 4294967296 + x.toNat - n := by
  have hn' : (UInt32.ofNat n).toNat = n := by
    rw [UInt32.toNat_ofNat', Nat.mod_eq_of_lt (by omega)]
  rw [UInt32.toNat_sub, hn']
  omega

/-- The slot seen from a receive point that has moved. -/
theorem sub_add_ofNat (x y : UInt32) (n : ℕ) :
    x - (y + UInt32.ofNat n) = x - y - UInt32.ofNat n := by
  grind

/-- A slot ahead stays ahead of a receive point that moves by `n` exactly if that does not reach
it. -/
theorem ahead_move_iff {x : UInt32} {n : ℕ} (hn : n ≤ 4096) (hx : x.toNat < 2147483648) :
    0 < (x - UInt32.ofNat n).toNat ∧ (x - UInt32.ofNat n).toNat < 2147483648 ↔ n < x.toNat := by
  rcases Nat.lt_or_ge x.toNat n with h | h
  · rw [toNat_sub_ofNat_of_lt h hn]
    omega
  · rw [toNat_sub_ofNat h]
    omega

theorem toNat_pos_of_ne {x y : UInt32} (h : x ≠ y) : 0 < (x - y).toNat := by
  rw [Nat.pos_iff_ne_zero]
  intro hdiff
  have hzero : x - y = 0 := UInt32.toNat_inj.mp hdiff
  exact h (by grind)

theorem slotAhead_of_invalid (h : r.oooValid = false) : r.SlotAhead := by
  intro hvalid
  rw [h] at hvalid
  exact absurd hvalid Bool.false_ne_true

theorem stored_le (r : RxSide) (seg : TcpSegment) : r.stored seg ≤ 1024 := by
  unfold stored
  split
  · exact Nat.le_trans (Nat.min_le_right _ _) (Nat.sub_le _ _)
  · exact Nat.zero_le _

theorem length_stored (h : seg.seqNum = r.ackNum) :
    (seg.payload.take (tcpRxBufSize - r.rxBuf.length)).length = r.stored seg := by
  rw [List.length_take, stored, if_pos h, Nat.min_comm]

/-- The data of a segment flushes the slot, fills it, or moves `ack_num` only. -/
theorem data_cases (r : RxSide) (seg : TcpSegment) :
    (r.data seg).oooValid = false ∧ r.oooValid = true ∧
        r.oooSeq = r.ackNum + UInt32.ofNat (r.stored seg) ∨
      (r.oooValid = false ∧ seg.payload ≠ [] ∧ r.ackNum < seg.seqNum) ∧
        (r.data seg).oooValid = true ∧ (r.data seg).oooSeq = seg.seqNum ∧
        (r.data seg).ackNum = r.ackNum ∨
      ¬ (r.oooValid = false ∧ seg.payload ≠ [] ∧ r.ackNum < seg.seqNum) ∧
        (r.data seg).oooValid = r.oooValid ∧ (r.data seg).oooSeq = r.oooSeq ∧
        (r.data seg).ackNum = r.ackNum + UInt32.ofNat (r.stored seg) ∧
        (0 < r.stored seg → r.oooValid = true →
          r.oooSeq ≠ r.ackNum + UInt32.ofNat (r.stored seg)) := by
  by_cases hempty : seg.payload = []
  · have hzero : r.stored seg = 0 := by
      unfold stored
      rw [hempty]
      split <;> simp
    refine Or.inr (Or.inr ⟨fun h => h.2.1 hempty, ?_⟩)
    rw [TcpControlBlock.data_of_empty hempty, hzero]
    exact ⟨rfl, rfl, by simp, fun h => absurd h (Nat.lt_irrefl 0)⟩
  rw [TcpControlBlock.data_of_payload hempty]
  by_cases hseq : seg.seqNum = r.ackNum
  · have hlen := length_stored hseq
    have hlt : ¬ r.ackNum < seg.seqNum := by
      rw [hseq]
      exact UInt32.lt_irrefl _
    rw [receive, if_pos hseq]
    dsimp only [store]
    rw [hlen]
    by_cases hflush : r.oooValid = true ∧ r.oooSeq = r.ackNum + UInt32.ofNat (r.stored seg)
    · rw [if_pos hflush]
      exact Or.inl ⟨rfl, hflush⟩
    · rw [if_neg hflush]
      exact Or.inr (Or.inr ⟨fun h => hlt h.2.2, rfl, rfl, rfl, fun _ hv he => hflush ⟨hv, he⟩⟩)
  · have hzero : r.stored seg = 0 := if_neg hseq
    rw [receive, if_neg hseq, hzero]
    by_cases hkeep : r.ackNum < seg.seqNum ∧ (!r.oooValid) = true
    · have hinvalid : r.oooValid = false := by simpa using hkeep.2
      rw [if_pos hkeep]
      exact Or.inr (Or.inl ⟨⟨hinvalid, hempty, hkeep.1⟩, rfl, rfl, rfl⟩)
    · rw [if_neg hkeep]
      refine Or.inr (Or.inr ⟨?_, rfl, rfl, by simp, fun h => absurd h (Nat.lt_irrefl 0)⟩)
      rintro ⟨hinvalid, -, hlt⟩
      exact hkeep ⟨hlt, by rw [hinvalid]; rfl⟩

/-- `ack_num` moves past the FIN if it is taken. -/
theorem fin_moves (r r' : RxSide) (seg : TcpSegment) (h : r' = r.fin seg) :
    r'.oooValid = r.oooValid ∧ r'.oooSeq = r.oooSeq ∧
      (hasFlag seg.flags tcpFlagFin = true ∧
          seg.seqNum + UInt32.ofNat seg.payload.length = r.ackNum ∧ r'.ackNum = r.ackNum + 1 ∨
        ¬ (hasFlag seg.flags tcpFlagFin = true ∧
          seg.seqNum + UInt32.ofNat seg.payload.length = r.ackNum) ∧ r'.ackNum = r.ackNum) := by
  rw [h, fin]
  by_cases htaken : hasFlag seg.flags tcpFlagFin = true ∧
      seg.seqNum + UInt32.ofNat seg.payload.length = r.ackNum
  · rw [if_pos htaken]
    exact ⟨rfl, rfl, Or.inl ⟨htaken.1, htaken.2, rfl⟩⟩
  · rw [if_neg htaken]
    exact ⟨rfl, rfl, Or.inr ⟨htaken, rfl⟩⟩

theorem slotAhead_iff (h : r.oooValid = true) : r.SlotAhead ↔
    0 < (r.oooSeq - r.ackNum).toNat ∧ (r.oooSeq - r.ackNum).toNat < 2147483648 :=
  ⟨fun hahead => hahead h, fun hahead _ => hahead⟩

theorem toNat_ofNat_of_lt {n : ℕ} (h : n < 4294967296) : (UInt32.ofNat n).toNat = n := by
  rw [UInt32.toNat_ofNat', Nat.mod_eq_of_lt h]

/-- What reaches the start of the segment held flushes it. -/
theorem keeps_of_flushed (hheld : r.oooValid = true)
    (hnext : r.oooSeq = r.ackNum + UInt32.ofNat (r.stored seg)) : r.Keeps seg := by
  refine ⟨fun _ => ?_, fun hfree => ?_, fun _ _ _ hone => ?_⟩
  · have hdist : r.oooSeq - r.ackNum = UInt32.ofNat (r.stored seg) := by
      rw [hnext]
      grind
    have hn := stored_le r seg
    rw [hdist, toNat_ofNat_of_lt (by omega)]
  · rw [hfree] at hheld
    exact absurd hheld Bool.false_ne_true
  · rw [hnext] at hone
    exact add_ofNat_ne_self _ (n := 1) (by decide) (by decide) hone.symm

/-- A segment that is kept is ahead if its number is, with or without a FIN. -/
theorem slotAhead_kept_iff {r' : RxSide} (hlen : seg.payload.length < 2147483648)
    (hne : seg.payload ≠ []) (hlt : r.ackNum < seg.seqNum) (hvalid : r'.oooValid = true)
    (hslot : r'.oooSeq = seg.seqNum)
    (hack : r'.ackNum = r.ackNum ∨
      seg.seqNum + UInt32.ofNat seg.payload.length = r.ackNum ∧ r'.ackNum = r.ackNum + 1) :
    r'.SlotAhead ↔ (seg.seqNum - r.ackNum).toNat < 2147483648 := by
  have hpos : 0 < (seg.seqNum - r.ackNum).toNat := by
    refine toNat_pos_of_ne fun heq => ?_
    rw [heq] at hlt
    exact UInt32.lt_irrefl _ hlt
  rw [slotAhead_iff hvalid, hslot]
  rcases hack with hstays | ⟨htaken, hmoved⟩
  · rw [hstays]
    omega
  · -- the end of the segment is `ack_num`, so its start is behind
    have hpay : 0 < seg.payload.length := List.length_pos_iff.mpr hne
    have hdist : seg.seqNum - r.ackNum = 0 - UInt32.ofNat seg.payload.length := by
      rw [← htaken]
      grind
    have hback : (seg.seqNum - r.ackNum).toNat = 4294967296 - seg.payload.length := by
      rw [hdist, UInt32.toNat_sub, toNat_ofNat_of_lt (by omega)]
      change (4294967296 - seg.payload.length + 0) % 4294967296 = _
      omega
    have hmove : seg.seqNum - r'.ackNum = seg.seqNum - r.ackNum - UInt32.ofNat 1 := by
      rw [hmoved]
      exact sub_add_ofNat _ _ 1
    rw [hmove, toNat_sub_ofNat (by omega)]
    omega

/-- A slot that stays is ahead if `ack_num` does not reach it, with or without a FIN. -/
theorem slotAhead_moved_iff {r' : RxSide} (h : r.SlotAhead) (hheld : r.oooValid = true)
    (hvalid : r'.oooValid = true) (hslot : r'.oooSeq = r.oooSeq)
    (hpast : 0 < r.stored seg → r.oooSeq ≠ r.ackNum + UInt32.ofNat (r.stored seg))
    (hack : hasFlag seg.flags tcpFlagFin = true ∧
        seg.seqNum + UInt32.ofNat seg.payload.length = r.ackNum + UInt32.ofNat (r.stored seg) ∧
        r'.ackNum = r.ackNum + UInt32.ofNat (r.stored seg) + 1 ∨
      ¬ (hasFlag seg.flags tcpFlagFin = true ∧
        seg.seqNum + UInt32.ofNat seg.payload.length = r.ackNum + UInt32.ofNat (r.stored seg)) ∧
        r'.ackNum = r.ackNum + UInt32.ofNat (r.stored seg)) :
    r'.SlotAhead ↔ r.Keeps seg := by
  have hn := stored_le r seg
  obtain ⟨hpos, hnear⟩ := h hheld
  have hdist : r.stored seg ≠ (r.oooSeq - r.ackNum).toNat := by
    intro heq
    refine hpast (by omega) ?_
    have hofNat : UInt32.ofNat (r.stored seg) = r.oooSeq - r.ackNum := by
      rw [heq, UInt32.ofNat_toNat]
    rw [hofNat]
    grind
  have hplaced : r.oooValid = false → seg.payload ≠ [] → r.ackNum < seg.seqNum →
      (seg.seqNum - r.ackNum).toNat < 2147483648 := by
    intro hfree
    rw [hfree] at hheld
    exact absurd hheld Bool.false_ne_true
  rw [slotAhead_iff hvalid, hslot]
  rcases hack with ⟨hfin, htaken, hmoved⟩ | ⟨hnone, hstays⟩
  · have hmove : r.oooSeq - r'.ackNum = r.oooSeq - r.ackNum - UInt32.ofNat (r.stored seg + 1) := by
      rw [hmoved, UInt32.ofNat_add]
      change _ = r.oooSeq - r.ackNum - (UInt32.ofNat (r.stored seg) + 1)
      grind
    rw [hmove, ahead_move_iff (by omega) hnear]
    constructor
    · intro hroom
      refine ⟨fun _ => by omega, hplaced, fun _ _ _ hone => ?_⟩
      have hofNat : r.oooSeq - r.ackNum = UInt32.ofNat (r.stored seg + 1) := by
        rw [hone, UInt32.ofNat_add]
        change _ = UInt32.ofNat (r.stored seg) + 1
        grind
      rw [hofNat, toNat_ofNat_of_lt (by omega)] at hroom
      exact Nat.lt_irrefl _ hroom
    · intro hkeeps
      have hle := hkeeps.overtaken hheld
      by_contra hroom
      refine hkeeps.finished hheld hfin htaken ?_
      have heq : (r.oooSeq - r.ackNum).toNat = r.stored seg + 1 := by omega
      have hofNat : r.oooSeq - r.ackNum = UInt32.ofNat (r.stored seg) + 1 := by
        rw [← UInt32.ofNat_toNat (x := r.oooSeq - r.ackNum), heq, UInt32.ofNat_add]
        rfl
      grind
  · have hmove : r.oooSeq - r'.ackNum = r.oooSeq - r.ackNum - UInt32.ofNat (r.stored seg) := by
      rw [hstays]
      exact sub_add_ofNat _ _ _
    rw [hmove, ahead_move_iff (by omega) hnear]
    constructor
    · intro hroom
      exact ⟨fun _ => Nat.le_of_lt hroom, hplaced, fun _ hfin htaken _ => hnone ⟨hfin, htaken⟩⟩
    · intro hkeeps
      exact Nat.lt_of_le_of_ne (hkeeps.overtaken hheld) hdist

/-- A segment leaves the slot ahead of `ack_num` exactly if it meets the condition. -/
theorem slotAhead_segment_iff (h : r.SlotAhead) (hlen : seg.payload.length < 2147483648) :
    ((r.data seg).fin seg).SlotAhead ↔ r.Keeps seg := by
  obtain ⟨hvalid, hslot, hack⟩ := fin_moves (r.data seg) _ seg rfl
  rcases data_cases r seg with ⟨hflushed, hheld, hnext⟩ | ⟨⟨hfree, hne, hlt⟩, hv, hs, ha⟩ |
    ⟨hnot, hv, hs, ha, hpast⟩
  · exact iff_of_true (slotAhead_of_invalid (hvalid.trans hflushed))
      (keeps_of_flushed hheld hnext)
  · rw [ha] at hack
    have hnone : r.oooValid ≠ true := by
      rw [hfree]
      exact Bool.false_ne_true
    rw [slotAhead_kept_iff hlen hne hlt (hvalid.trans hv) (hslot.trans hs)]
    · exact ⟨fun hahead => ⟨fun hh => absurd hh hnone, fun _ _ _ => hahead,
        fun hh => absurd hh hnone⟩, fun hkeeps => hkeeps.placed hfree hne hlt⟩
    · rcases hack with ⟨-, htaken, hmoved⟩ | ⟨-, hstays⟩
      · exact Or.inr ⟨htaken, hmoved⟩
      · exact Or.inl hstays
  · rw [ha] at hack
    by_cases hheld : r.oooValid = true
    · exact slotAhead_moved_iff h hheld (hvalid.trans (hv.trans hheld)) (hslot.trans hs)
        (fun hpos => hpast hpos hheld) hack
    · have hfree : r.oooValid = false := by simpa using hheld
      exact iff_of_true (slotAhead_of_invalid (hvalid.trans (hv.trans hfree)))
        ⟨fun hh => absurd hh hheld, fun _ hne hlt => absurd ⟨hfree, hne, hlt⟩ hnot,
          fun hh => absurd hh hheld⟩

end RxSide

/-! ## Runs of a connection -/

namespace TcpControlBlock

variable {env : TcpEnv} {tcb : TcpControlBlock} {seg : TcpSegment}

/-- A state in which `ack_num` is not known yet. -/
def Opening (s : TcpState) : Prop :=
  s = .synSent ∨ s = .synReceived

theorem not_opening {s : TcpState} (h : s ≠ .synSent ∧ s ≠ .synReceived) : ¬ Opening s :=
  not_or.mpr h

theorem not_opening_ending (p : Prop) [Decidable p] :
    ¬ Opening (if p then .closed else .closing) := by
  split <;> exact not_opening (by decide)

/-- The slot is ahead of `ack_num`, and empty before `ack_num` is known. -/
structure SlotInv (tcb : TcpControlBlock) : Prop where
  ahead : tcb.rxSide.SlotAhead
  opening : Opening tcb.state → tcb.oooValid = false

/-- What keeps the receiving side and opens nothing keeps the slot ahead. -/
theorem SlotInv.same {tcb' : TcpControlBlock} (h : SlotInv tcb) (hrx : tcb'.rxSide = tcb.rxSide)
    (hs : Opening tcb'.state → Opening tcb.state) : SlotInv tcb' := by
  refine ⟨by rw [hrx]; exact h.ahead, fun hopen => ?_⟩
  have hvalid : tcb'.oooValid = tcb.oooValid := congrArg RxSide.oooValid hrx
  rw [hvalid]
  exact h.opening (hs hopen)

theorem SlotInv.quiet {tcb' : TcpControlBlock} (h : SlotInv tcb) (hq : Quiet tcb tcb') :
    SlotInv tcb' := by
  refine h.same hq.rxSide ?_
  rw [hq.state]
  exact id

/-- A segment that leaves the slot ahead of `ack_num`, in any state. -/
structure SlotKept (tcb : TcpControlBlock) (seg : TcpSegment) : Prop where
  data : tcb.state = .established → tcb.rxSide.Keeps seg
  /-- A FIN that sets `ack_num` sets it to a number in front of the segment held. -/
  fin : tcb.state = .finWait1 ∨ tcb.state = .finWait2 → hasFlag seg.flags tcpFlagFin = true →
    tcb.oooValid = true → 0 < (tcb.oooSeq - (seg.seqNum + 1)).toNat ∧
      (tcb.oooSeq - (seg.seqNum + 1)).toNat < 2147483648

theorem rxSide_takeFin (env : TcpEnv) (tcb : TcpControlBlock) (seg : TcpSegment) :
    (takeFin env tcb seg).1.rxSide = { tcb.rxSide with ackNum := seg.seqNum + 1 } :=
  (quiet_tcpSendAck env _).rxSide

/-- What a segment without RST does to the receiving side. -/
theorem handle_rxSide (env : TcpEnv) (tcb : TcpControlBlock) (seg : TcpSegment)
    (hrst : hasFlag seg.flags tcpFlagRst = false) :
    (tcb.state ≠ .established ∧
        ¬ ((tcb.state = .finWait1 ∨ tcb.state = .finWait2) ∧
          hasFlag seg.flags tcpFlagFin = true)) ∧
        ((tcpHandleSegment env tcb seg).1.rxSide = tcb.rxSide ∨ tcb.state = .synSent ∧
          ∃ n, (tcpHandleSegment env tcb seg).1.rxSide = { tcb.rxSide with ackNum := n }) ∧
        (Opening (tcpHandleSegment env tcb seg).1.state → Opening tcb.state) ∨
      tcb.state = .established ∧
        (tcpHandleSegment env tcb seg).1.rxSide = (tcb.rxSide.data seg).fin seg ∧
        ¬ Opening (tcpHandleSegment env tcb seg).1.state ∨
      ((tcb.state = .finWait1 ∨ tcb.state = .finWait2) ∧ hasFlag seg.flags tcpFlagFin = true) ∧
        (tcpHandleSegment env tcb seg).1.rxSide =
          { tcb.rxSide with ackNum := seg.seqNum + 1 } ∧
        ¬ Opening (tcpHandleSegment env tcb seg).1.state := by
  unfold tcpHandleSegment
  rw [hrst, if_neg Bool.false_ne_true]
  have hadvance : (if hasFlag seg.flags tcpFlagAck then
      tcpAckAdvance env tcb seg.ackNum seg.window else tcb).rxSide = tcb.rxSide ∧
      (if hasFlag seg.flags tcpFlagAck then
        tcpAckAdvance env tcb seg.ackNum seg.window else tcb).state = tcb.state := by
    split
    · exact ⟨rxSide_tcpAckAdvance env tcb _ _, (tcpAckAdvance_rx env tcb _ _).1⟩
    · exact ⟨rfl, rfl⟩
  cases hs : tcb.state with
  | established =>
    obtain ⟨hrx, hstate⟩ := handleEstablished_rx env tcb seg
    refine Or.inr (Or.inl ⟨rfl, hrx, ?_⟩)
    dsimp only
    rw [hstate, hs]
    unfold Opening
    split <;> decide
  | synSent =>
    refine Or.inl ⟨⟨by decide, by simp⟩, Or.inr ⟨rfl, ?_⟩, fun _ => Or.inl rfl⟩
    dsimp only
    split
    · exact ⟨_, (quiet_tcpSendAck env _).rxSide⟩
    · exact ⟨_, rfl⟩
  | synReceived =>
    refine Or.inl ⟨⟨by decide, by simp⟩, Or.inl ?_, fun _ => Or.inr rfl⟩
    dsimp only
    split <;> rfl
  | closeWait =>
    refine Or.inl ⟨⟨by decide, by simp⟩, Or.inl hadvance.1, ?_⟩
    dsimp only
    rw [hadvance.2, hs]
    exact id
  | finWait1 =>
    dsimp only
    by_cases hfin : hasFlag seg.flags tcpFlagFin = true
    · simp only [hfin, if_true]
      refine Or.inr (Or.inr ⟨⟨Or.inl trivial, trivial⟩, ?_, ?_⟩)
      · refine Eq.trans (rxSide_takeFin env _ seg) ?_
        split <;> rfl
      · exact not_opening_ending _
    · simp only [hfin]
      refine Or.inl ⟨⟨by decide, by simp⟩, Or.inl ?_, ?_⟩
      · simp only [Bool.false_eq_true, if_false]
        split <;> rfl
      · simp only [Bool.false_eq_true, if_false]
        split
        · exact fun h => absurd h (not_opening (s := .finWait2) (by decide))
        · rw [hs]
          exact id
  | finWait2 =>
    dsimp only
    by_cases hfin : hasFlag seg.flags tcpFlagFin = true
    · simp only [hfin, if_true]
      exact Or.inr (Or.inr ⟨⟨Or.inr trivial, trivial⟩, rxSide_takeFin env _ seg,
        not_opening (s := .closed) (by decide)⟩)
    · simp only [hfin]
      refine Or.inl ⟨⟨by decide, by simp⟩, Or.inl rfl, ?_⟩
      simp only [Bool.false_eq_true, if_false]
      rw [hs]
      exact id
  | closing | lastAck =>
    refine Or.inl ⟨⟨by decide, by simp⟩, Or.inl ?_, ?_⟩
    · dsimp only
      split <;> rfl
    · dsimp only
      split
      · exact fun h => absurd h (not_opening (s := .closed) (by decide))
      · rw [hs]
        exact id
  | closed | listen | timeWait =>
    refine Or.inl ⟨⟨by decide, by simp⟩, Or.inl rfl, ?_⟩
    dsimp only
    rw [hs]
    exact id

/-- What a segment does to the slot of a block that satisfies the invariant. -/
theorem slotInv_segment (env : TcpEnv) (h : SlotInv tcb)
    (hlen : seg.payload.length < 2147483648) (hrst : hasFlag seg.flags tcpFlagRst = false) :
    ((tcpHandleSegment env tcb seg).1.rxSide.SlotAhead ↔ SlotKept tcb seg) ∧
      (Opening (tcpHandleSegment env tcb seg).1.state →
        (tcpHandleSegment env tcb seg).1.oooValid = false) := by
  have hvalid := fun t : TcpControlBlock => show t.oooValid = t.rxSide.oooValid from rfl
  rcases handle_rxSide env tcb seg hrst with ⟨⟨hne, hnofin⟩, hrx, hopen⟩ | ⟨hs, hrx, hopen⟩ |
    ⟨⟨hs, hfin⟩, hrx, hopen⟩
  · have hkept : SlotKept tcb seg :=
      ⟨fun hs => absurd hs hne, fun hs hfin => absurd ⟨hs, hfin⟩ hnofin⟩
    rcases hrx with hrx | ⟨hs, n, hrx⟩
    · refine ⟨iff_of_true (by rw [hrx]; exact h.ahead) hkept, fun hopen' => ?_⟩
      rw [hvalid, hrx]
      exact h.opening (hopen hopen')
    · have hfree : (tcpHandleSegment env tcb seg).1.oooValid = false := by
        rw [hvalid, hrx]
        exact h.opening (Or.inl hs)
      exact ⟨iff_of_true (RxSide.slotAhead_of_invalid hfree) hkept, fun _ => hfree⟩
  · refine ⟨?_, fun hopen' => absurd hopen' hopen⟩
    rw [hrx, RxSide.slotAhead_segment_iff h.ahead hlen]
    constructor
    · refine fun hkeeps => ⟨fun _ => hkeeps, fun hwait => ?_⟩
      rw [hs] at hwait
      exact absurd hwait (by decide)
    · exact fun hkept => hkept.data hs
  · refine ⟨?_, fun hopen' => absurd hopen' hopen⟩
    rw [hrx]
    constructor
    · refine fun hahead => ⟨fun hest => ?_, fun _ _ hheld => hahead hheld⟩
      rw [hest] at hs
      exact absurd hs (by decide)
    · exact fun hkept hheld => hkept.fin hs hfin hheld

end TcpControlBlock

/-- The length of a segment is an `int`. -/
def ConnInput.Sized (i : ConnInput) : Prop :=
  ∀ seg, i.op = .segment seg → seg.payload.length < 2147483648

namespace Conn

open TcpControlBlock

variable {c : Conn} {i : ConnInput}

/-- The segments that an event may bring keep the slot ahead of `ack_num`. -/
def SlotKeeps (c : Conn) (i : ConnInput) : Prop :=
  ∀ seg, i.op = .segment seg → hasFlag seg.flags tcpFlagRst = false → SlotKept c.tcb seg

/-- An event that brings no segment keeps the slot. -/
theorem slotInv_call (h : SlotInv c.tcb) (hi : ∀ seg, i.op ≠ .segment seg) :
    SlotInv (connStep c i).1.tcb := by
  obtain ⟨now, op⟩ := i
  cases op with
  | segment seg => exact absurd rfl (hi seg)
  | send buf =>
    rcases tcpSend_cases ⟨true, now⟩ c.tcb buf with ⟨-, he⟩ | ⟨n, -, -, -, -, -, hq, -⟩
    · have hstep : (connStep c ⟨now, .send buf⟩).1 = c := by
        simp only [connStep, ConnInput.env, he]
      rw [hstep]
      exact h
    · have hqueued : SlotInv ((c.tcb.queue (buf.take n)).setSeq
          (c.tcb.seqNum + UInt32.ofNat n)) := h.same rfl id
      exact hqueued.quiet hq
  | recv maxlen =>
    obtain ⟨n, -, hq, -⟩ := tcpRecv_cases ⟨true, now⟩ c.tcb maxlen
    have hdropped : SlotInv (c.tcb.dropRx n) := ⟨h.ahead, h.opening⟩
    exact hdropped.quiet hq
  | close =>
    have hmoved : ∀ s, s ≠ .synSent ∧ s ≠ .synReceived → SlotInv (c.tcb.setState s) :=
      fun s hs => h.same rfl fun hopen => absurd hopen (not_opening hs)
    rcases tcpClose_cases ⟨true, now⟩ c.tcb with he | ⟨s, hs, hq, -⟩
    · have hstep : (connStep c ⟨now, .close⟩).1.tcb = c.tcb.setState .closed :=
        congrArg Prod.fst he
      rw [hstep]
      exact hmoved .closed (by decide)
    · refine SlotInv.quiet (hmoved s ?_) hq
      rcases hs with ⟨-, rfl⟩ | ⟨-, rfl⟩ <;> decide
  | tick =>
    obtain ⟨hq | he, -⟩ := ticked_tcpTick ⟨true, now⟩ c.tcb
    · exact h.quiet hq
    · have hstep : (connStep c ⟨now, .tick⟩).1.tcb = c.tcb.setState .closed := he
      rw [hstep]
      exact h.same rfl fun hopen => absurd hopen (not_opening (s := .closed) (by decide))

/-- One event keeps the slot ahead of `ack_num` exactly if its segment meets the condition, and
then it keeps the invariant. -/
theorem slotInv_step (h : SlotInv c.tcb) (hi : i.Sized) :
    ((connStep c i).1.tcb.rxSide.SlotAhead ↔ SlotKeeps c i) ∧
      ((connStep c i).1.tcb.rxSide.SlotAhead → SlotInv (connStep c i).1.tcb) := by
  by_cases hcall : ∀ seg, i.op ≠ .segment seg
  · have hnext := slotInv_call h hcall
    exact ⟨iff_of_true hnext.ahead fun seg hop => absurd hop (hcall seg), fun _ => hnext⟩
  rw [not_forall] at hcall
  obtain ⟨seg, hop⟩ := hcall
  rw [not_not] at hop
  have hlen := hi seg hop
  obtain ⟨now, op⟩ := i
  obtain rfl : op = .segment seg := hop
  change ((c.tcb.tcpHandleSegment ⟨true, now⟩ seg).1.rxSide.SlotAhead ↔ _) ∧
    ((c.tcb.tcpHandleSegment ⟨true, now⟩ seg).1.rxSide.SlotAhead →
      SlotInv (c.tcb.tcpHandleSegment ⟨true, now⟩ seg).1)
  by_cases hrst : hasFlag seg.flags tcpFlagRst = true
  · have hclosed : (c.tcb.tcpHandleSegment ⟨true, now⟩ seg).1 = c.tcb.setState .closed := by
      rw [tcpHandleSegment, if_pos hrst]
    have hnext : SlotInv (c.tcb.setState .closed) :=
      h.same rfl fun hopen => absurd hopen (not_opening (s := .closed) (by decide))
    rw [hclosed]
    refine ⟨iff_of_true hnext.ahead fun seg' hop' hno => ?_, fun _ => hnext⟩
    cases hop'
    rw [hno] at hrst
    exact absurd hrst Bool.false_ne_true
  · have hno : hasFlag seg.flags tcpFlagRst = false := by simpa using hrst
    obtain ⟨hiff, hopening⟩ := slotInv_segment ⟨true, now⟩ h hlen hno
    refine ⟨hiff.trans ⟨fun hkept seg' hop' _ => ?_, fun hkeeps => hkeeps seg rfl hno⟩,
      fun hahead => ⟨hahead, hopening⟩⟩
    cases hop'
    exact hkept

theorem slotInv_of_opened (h : ConnOpened c) : SlotInv c.tcb := by
  cases h with
  | connect env localIp ip irs localPort port isn =>
    have hopened : SlotInv (activeTcb localIp localPort ip port isn) :=
      ⟨RxSide.slotAhead_of_invalid rfl, fun _ => rfl⟩
    exact hopened.quiet (quiet_tcpSendSyn env _)
  | listen env listener srcIp syn isn =>
    have hopened : SlotInv (passiveTcb listener srcIp syn isn) :=
      ⟨RxSide.slotAhead_of_invalid rfl, fun _ => rfl⟩
    exact hopened.quiet (quiet_tcpSendSynack env _)

end Conn

/-- In every state of a run the segment held is ahead of `ack_num`, exactly if every segment of
the run meets the condition. -/
theorem slot_ahead_iff (c : Conn) (hc : ConnOpened c) (is : List ConnInput)
    (hlen : ∀ i ∈ is, i.Sized) :
    After connNext (fun c => c.tcb.rxSide.SlotAhead) c is ↔ Along connNext Conn.SlotKeeps c is :=
  After.iff_along (f := fun c i => (connStep c i).1) (I := fun c => TcpControlBlock.SlotInv c.tcb)
    (fun _ h => h.ahead) (fun _ _ h hi => (Conn.slotInv_step h hi).1)
    (fun _ _ h hi => (Conn.slotInv_step h hi).2) is c hlen (Conn.slotInv_of_opened hc)

/-- A segment ten bytes ahead is held, and twenty bytes arrive in order. -/
def overtakingRun (len : ℕ) : List ConnInput :=
  [⟨0, .segment (peerSegment 1001 2 tcpFlagAck)⟩,
    ⟨0, .segment (peerBytes 1011 (List.replicate 10 7))⟩,
    ⟨0, .segment (peerBytes 1001 (List.replicate len 7))⟩]


theorem sized_overtakingRun (len : ℕ) (hlen : len < 2147483648) :
    ∀ i ∈ overtakingRun len, i.Sized := by
  intro i hi seg hop
  simp only [overtakingRun, List.mem_cons, List.not_mem_nil, or_false] at hi
  rcases hi with rfl | rfl | rfl <;> cases hop
  · exact Nat.zero_lt_succ _
  · simp [peerBytes]
  · simpa [peerBytes] using hlen

/-- Ten bytes arrive in order : the segment held is flushed. -/
theorem slot_ahead_filled :
    ConnOpened openedConn ∧
      (After connNext (fun c => c.tcb.rxSide.SlotAhead) openedConn (overtakingRun 10) ↔
        Along connNext Conn.SlotKeeps openedConn (overtakingRun 10)) :=
  ⟨opened_openedConn, slot_ahead_iff openedConn opened_openedConn (overtakingRun 10)
    (sized_overtakingRun 10 (by decide))⟩

/-- Twenty bytes arrive in order : the segment held stays, ten bytes behind `ack_num`. -/
theorem not_slot_ahead :
    ConnOpened openedConn ∧ (∀ i ∈ overtakingRun 20, i.Sized) ∧
      ¬ After connNext (fun c => c.tcb.rxSide.SlotAhead) openedConn (overtakingRun 20) := by
  refine ⟨opened_openedConn, sized_overtakingRun 20 (by decide), ?_⟩
  rintro ⟨-, h⟩
  obtain ⟨-, h⟩ := h _ rfl
  obtain ⟨-, h⟩ := h _ rfl
  have hlast : TcpControlBlock.rxSide _ |>.SlotAhead := h _ rfl
  obtain ⟨-, hnear⟩ := hlast (by decide)
  exact absurd hnear (by decide)

end VernisOS
