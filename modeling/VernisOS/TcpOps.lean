import Mathlib.Data.List.Basic
import VernisOS.Tcp

/-!
# What the TCP functions do to a control block

Output changes nothing but the advertised window and sends at most one segment. The other
functions leave most of a block alone; `Quiet` is what they share.
-/

namespace VernisOS

namespace TcpControlBlock

variable {env : TcpEnv} {tcb tcb' : TcpControlBlock}

/-- `seg` is what `tcb` sends with these flags, payload and sequence number. -/
structure Sends (tcb : TcpControlBlock) (flags : UInt8) (payload : List UInt8) (seq : UInt32)
    (seg : TcpSegment) : Prop where
  srcPort : seg.srcPort = tcb.localPort
  dstPort : seg.dstPort = tcb.remotePort
  seqNum : seg.seqNum = seq
  ackNum : seg.ackNum = if hasFlag flags tcpFlagAck then tcb.ackNum else 0
  flags : seg.flags = flags
  payload : seg.payload = payload

theorem tcpOutputSeq_fst (env : TcpEnv) (tcb : TcpControlBlock) (flags : UInt8)
    (payload : List UInt8) (seq : UInt32) :
    ∃ w, (tcpOutputSeq env tcb flags payload seq).1 = tcb.setWindow w := by
  unfold tcpOutputSeq
  split
  · exact ⟨tcb.window, rfl⟩
  · exact ⟨_, rfl⟩

theorem sends_of_mem {flags : UInt8} {payload : List UInt8} {seq : UInt32} {seg : TcpSegment}
    (h : seg ∈ (tcpOutputSeq env tcb flags payload seq).2) : Sends tcb flags payload seq seg := by
  unfold tcpOutputSeq at h
  split at h
  · cases h
  · obtain rfl := List.mem_singleton.mp h
    exact ⟨rfl, rfl, rfl, rfl, rfl, rfl⟩

/-- With an output function, one segment is sent. -/
theorem tcpOutputSeq_snd (env : TcpEnv) (henv : env.ipOutput = true) (tcb : TcpControlBlock) (flags : UInt8)
    {payload : List UInt8} (seq : UInt32) (hlen : payload.length ≤ tcpMaxSeg) :
    ∃ seg, (tcpOutputSeq env tcb flags payload seq).2 = [seg] := by
  unfold tcpOutputSeq
  rw [if_neg (by simp [henv, hlen])]
  exact ⟨_, rfl⟩

/-- `tcb'` differs from `tcb` in the window, the clocks and the retransmission count only. -/
structure Quiet (tcb tcb' : TcpControlBlock) : Prop where
  state : tcb'.state = tcb.state
  localPort : tcb'.localPort = tcb.localPort
  remoteIp : tcb'.remoteIp = tcb.remoteIp
  remotePort : tcb'.remotePort = tcb.remotePort
  seqNum : tcb'.seqNum = tcb.seqNum
  ackNum : tcb'.ackNum = tcb.ackNum
  remoteWindow : tcb'.remoteWindow = tcb.remoteWindow
  rxBuf : tcb'.rxBuf = tcb.rxBuf
  sndUna : tcb'.sndUna = tcb.sndUna
  txStart : tcb'.txStart = tcb.txStart
  txBuf : tcb'.txBuf = tcb.txBuf
  oooValid : tcb'.oooValid = tcb.oooValid
  oooSeq : tcb'.oooSeq = tcb.oooSeq
  oooBuf : tcb'.oooBuf = tcb.oooBuf

theorem Quiet.refl (tcb : TcpControlBlock) : Quiet tcb tcb :=
  ⟨rfl, rfl, rfl, rfl, rfl, rfl, rfl, rfl, rfl, rfl, rfl, rfl, rfl, rfl⟩

theorem Quiet.setActivity (h : Quiet tcb tcb') (now : UInt32) : Quiet tcb (tcb'.setActivity now) :=
  { h with }

theorem Quiet.setRto (h : Quiet tcb tcb') (now : UInt32) : Quiet tcb (tcb'.setRto now) :=
  { h with }

theorem Quiet.countRetransmit (h : Quiet tcb tcb') : Quiet tcb tcb'.countRetransmit :=
  { h with }

theorem quiet_tcpOutputSeq (env : TcpEnv) (tcb : TcpControlBlock) (flags : UInt8)
    (payload : List UInt8) (seq : UInt32) :
    Quiet tcb (tcpOutputSeq env tcb flags payload seq).1 := by
  obtain ⟨w, hw⟩ := tcpOutputSeq_fst env tcb flags payload seq
  rw [hw]
  exact { Quiet.refl tcb with }

theorem quiet_tcpSendSyn (env : TcpEnv) (tcb : TcpControlBlock) :
    Quiet tcb (tcpSendSyn env tcb).1 :=
  (quiet_tcpOutputSeq _ _ _ _ _).setActivity _

theorem quiet_tcpSendSynack (env : TcpEnv) (tcb : TcpControlBlock) :
    Quiet tcb (tcpSendSynack env tcb).1 :=
  (quiet_tcpOutputSeq _ _ _ _ _).setActivity _

theorem quiet_tcpSendAck (env : TcpEnv) (tcb : TcpControlBlock) :
    Quiet tcb (tcpSendAck env tcb).1 :=
  quiet_tcpOutputSeq _ _ _ _ _

/-- The head of the ring, as it is sent again. -/
def headBytes (tcb : TcpControlBlock) : List UInt8 :=
  Ring.get tcb.txBuf tcb.txStart.toNat
    (if tcb.inflight.toNat < tcpMaxSeg then tcb.inflight.toNat else tcpMaxSeg)

/-- What a tick may send. -/
def TickSends (tcb : TcpControlBlock) (seg : TcpSegment) : Prop :=
  tcb.state = .synSent ∧ Sends tcb tcpFlagSyn [] tcb.seqNum seg ∨
  tcb.state = .synReceived ∧ Sends tcb (tcpFlagSyn ||| tcpFlagAck) [] tcb.seqNum seg ∨
  (tcb.state = .established ∨ tcb.state = .closeWait) ∧ 0 < tcb.inflight ∧
    Sends tcb (tcpFlagPsh ||| tcpFlagAck) tcb.headBytes tcb.sndUna seg

/-- A tick keeps the block but for its clocks, or closes it. -/
def Ticked (tcb : TcpControlBlock) (r : TcpControlBlock × List TcpSegment) : Prop :=
  (Quiet tcb r.1 ∨ r.1 = tcb.setState .closed) ∧ ∀ seg ∈ r.2, TickSends tcb seg

theorem ticked_idle (tcb : TcpControlBlock) : Ticked tcb (tcb, []) :=
  ⟨Or.inl (Quiet.refl tcb), fun _ h => by cases h⟩

theorem ticked_closed (tcb : TcpControlBlock) : Ticked tcb (tcb.setState .closed, []) :=
  ⟨Or.inr rfl, fun _ h => by cases h⟩

/-- When the time is over a segment is sent again, or the connection given up. -/
theorem ticked_retry {a b : Prop} [Decidable a] [Decidable b]
    {again : TcpControlBlock × List TcpSegment} (h : Ticked tcb again) :
    Ticked tcb (if a then if b then again else (tcb.setState .closed, []) else (tcb, [])) := by
  by_cases ha : a
  · by_cases hb : b
    · rw [if_pos ha, if_pos hb]
      exact h
    · rw [if_pos ha, if_neg hb]
      exact ticked_closed tcb
  · rw [if_neg ha]
    exact ticked_idle tcb

theorem ticked_giveUp {a : Prop} [Decidable a] :
    Ticked tcb (if a then (tcb.setState .closed, []) else (tcb, [])) := by
  by_cases ha : a
  · rw [if_pos ha]
    exact ticked_closed tcb
  · rw [if_neg ha]
    exact ticked_idle tcb

theorem ticked_retransmit (env : TcpEnv) (hpos : 0 < tcb.inflight)
    (hs : tcb.state = .established ∨ tcb.state = .closeWait) :
    Ticked tcb ((tcpRetransmitHead env tcb).1.countRetransmit.setRto env.now,
      (tcpRetransmitHead env tcb).2) := by
  refine ⟨Or.inl (Quiet.setRto (Quiet.countRetransmit ?_) _), fun seg h => ?_⟩
  · exact quiet_tcpOutputSeq _ _ _ _ _
  · exact Or.inr (Or.inr ⟨hs, hpos, sends_of_mem h⟩)

theorem ticked_tcpTick (env : TcpEnv) (tcb : TcpControlBlock) : Ticked tcb (tcpTick env tcb) := by
  unfold tcpTick
  split
  · next hs =>
    rw [if_pos hs]
    refine ticked_retry ⟨Or.inl (Quiet.setActivity (Quiet.countRetransmit ?_) _), fun seg h => ?_⟩
    · exact quiet_tcpSendSyn env tcb
    · exact Or.inl ⟨hs, sends_of_mem h⟩
  · next hs =>
    have hne : ¬ tcb.state = .synSent := by rw [hs]; decide
    rw [if_neg hne]
    refine ticked_retry ⟨Or.inl (Quiet.setActivity (Quiet.countRetransmit ?_) _), fun seg h => ?_⟩
    · exact quiet_tcpSendSynack env tcb
    · exact Or.inr (Or.inl ⟨hs, sends_of_mem h⟩)
  · next hs =>
    by_cases hpos : 0 < tcb.inflight
    · rw [if_pos hpos]
      exact ticked_retry (ticked_retransmit env hpos (Or.inl hs))
    · rw [if_neg hpos]
      exact ticked_idle tcb
  · next hs =>
    by_cases hpos : 0 < tcb.inflight
    · rw [if_pos hpos]
      exact ticked_retry (ticked_retransmit env hpos (Or.inr hs))
    · rw [if_neg hpos]
      exact ticked_idle tcb
  all_goals first | exact ticked_giveUp | exact ticked_idle tcb

/-! ## Calls on a connection -/

/-- A send is refused, or queues and sends the first `n` bytes. -/
theorem tcpSend_cases (env : TcpEnv) (tcb : TcpControlBlock) (buf : List UInt8) :
    (tcpSend env tcb buf).1 ≤ 0 ∧ (tcpSend env tcb buf).2 = (tcb, []) ∨
    ∃ n : ℕ, (tcpSend env tcb buf).1 = n ∧ (tcb.state = .established ∨ tcb.state = .closeWait) ∧
      n ≤ buf.length ∧ n ≤ tcpMaxSeg ∧ (n : Int) ≤ tcpTxBufSize - Bytes.cInt tcb.inflight ∧
      Quiet ((tcb.queue (buf.take n)).setSeq (tcb.seqNum + UInt32.ofNat n))
        (tcpSend env tcb buf).2.1 ∧
      ∀ seg ∈ (tcpSend env tcb buf).2.2,
        Sends tcb (tcpFlagPsh ||| tcpFlagAck) (buf.take n) tcb.seqNum seg := by
  unfold tcpSend
  by_cases hs : tcb.state ≠ .established ∧ tcb.state ≠ .closeWait
  · rw [if_pos hs]
    exact Or.inl ⟨by simp, rfl⟩
  rw [if_neg hs]
  by_cases hlen : buf.length = 0
  · rw [if_pos hlen]
    exact Or.inl ⟨by simp, rfl⟩
  rw [if_neg hlen]
  dsimp only
  split
  · exact Or.inl ⟨by simp, rfl⟩
  · next hroom =>
    rw [not_or, not_le, not_le] at hroom
    set n := min (min (min buf.length (tcb.remoteWindow.toNat - Bytes.cInt tcb.inflight).toNat)
      (tcpTxBufSize - Bytes.cInt tcb.inflight).toNat) tcpMaxSeg with hn
    have hspace : n ≤ (tcpTxBufSize - Bytes.cInt tcb.inflight).toNat := by omega
    refine Or.inr ⟨n, rfl, ?_, by omega, by omega, by omega, ?_, fun seg h => ?_⟩
    · by_contra hno
      rw [not_or] at hno
      exact hs hno
    · obtain ⟨w, hw⟩ := tcpOutputSeq_fst env (tcb.queue (buf.take n))
        (tcpFlagPsh ||| tcpFlagAck) (buf.take n) (tcb.queue (buf.take n)).seqNum
      simp only [tcpOutput, hw]
      exact ⟨rfl, rfl, rfl, rfl, rfl, rfl, rfl, rfl, rfl, rfl, rfl, rfl, rfl, rfl⟩
    · exact { sends_of_mem h with }

/-- A send accepts no more than the peer's window leaves. -/
theorem tcpSend_allow (env : TcpEnv) (tcb : TcpControlBlock) (buf : List UInt8)
    (h : 0 < (tcpSend env tcb buf).1) :
    (tcpSend env tcb buf).1 ≤ tcb.remoteWindow.toNat - Bytes.cInt tcb.inflight := by
  unfold tcpSend at h ⊢
  by_cases hs : tcb.state ≠ .established ∧ tcb.state ≠ .closeWait
  · rw [if_pos hs] at h
    exact absurd h (by simp)
  rw [if_neg hs] at h ⊢
  by_cases hlen : buf.length = 0
  · rw [if_pos hlen] at h
    exact absurd h (by simp)
  rw [if_neg hlen] at h ⊢
  dsimp only at h ⊢
  split at h
  · exact absurd h (by simp)
  · next hroom =>
    rw [if_neg hroom]
    dsimp only
    omega

/-- A receive takes the first bytes of the buffer, and may announce the room. -/
theorem tcpRecv_cases (env : TcpEnv) (tcb : TcpControlBlock) (maxlen : Int) :
    ∃ n, (tcpRecv env tcb maxlen).2.1 = tcb.rxBuf.take n ∧
      Quiet (tcb.dropRx n) (tcpRecv env tcb maxlen).2.2.1 ∧
      ∀ seg ∈ (tcpRecv env tcb maxlen).2.2.2,
        tcb.canReceive = true ∧ Sends tcb tcpFlagAck [] tcb.seqNum seg := by
  have hidle : Quiet (tcb.dropRx 0) tcb := { Quiet.refl tcb with }
  unfold tcpRecv
  split
  · exact ⟨0, rfl, hidle, fun _ h => by cases h⟩
  · split
    · exact ⟨0, rfl, hidle, fun _ h => by cases h⟩
    · dsimp only
      split
      · next hcond =>
        refine ⟨_, rfl, quiet_tcpOutputSeq _ _ _ _ _, fun seg h => ⟨hcond.2.2, ?_⟩⟩
        exact { sends_of_mem h with }
      · exact ⟨_, rfl, Quiet.refl _, fun _ h => by cases h⟩

/-- A close moves to one of the closing states with a FIN, or drops the connection. -/
theorem tcpClose_cases (env : TcpEnv) (tcb : TcpControlBlock) :
    (tcpClose env tcb = (tcb.setState .closed, [])) ∨
    ∃ s, ((tcb.state = .established ∨ tcb.state = .synReceived) ∧ s = .finWait1 ∨
        tcb.state = .closeWait ∧ s = .lastAck) ∧
      Quiet (tcb.setState s) (tcpClose env tcb).1 ∧
      ∀ seg ∈ (tcpClose env tcb).2,
        Sends tcb (tcpFlagFin ||| tcpFlagAck) [] tcb.seqNum seg := by
  have hfin : ∀ s now, Quiet (tcb.setState s)
      (((tcpOutput env tcb (tcpFlagFin ||| tcpFlagAck) []).1.setState s).setActivity now) := by
    intro s now
    obtain ⟨w, hw⟩ := tcpOutputSeq_fst env tcb (tcpFlagFin ||| tcpFlagAck) [] tcb.seqNum
    rw [tcpOutput, hw]
    exact ⟨rfl, rfl, rfl, rfl, rfl, rfl, rfl, rfl, rfl, rfl, rfl, rfl, rfl, rfl⟩
  unfold tcpClose
  split
  · next hs =>
    exact Or.inr ⟨.finWait1, Or.inl ⟨Or.inl hs, rfl⟩, hfin _ _, fun seg h => sends_of_mem h⟩
  · next hs =>
    exact Or.inr ⟨.finWait1, Or.inl ⟨Or.inr hs, rfl⟩, hfin _ _, fun seg h => sends_of_mem h⟩
  · next hs =>
    exact Or.inr ⟨.lastAck, Or.inr ⟨hs, rfl⟩, hfin _ _, fun seg h => sends_of_mem h⟩
  · exact Or.inl rfl

/-! ## Incoming segments -/

/-- `tcb'` differs from `tcb` in the send window, the clocks and the retransmission count. -/
theorem tcpAckAdvance_rx (env : TcpEnv) (tcb : TcpControlBlock) (ack : UInt32) (wnd : UInt16) :
    (tcpAckAdvance env tcb ack wnd).state = tcb.state ∧
      (tcpAckAdvance env tcb ack wnd).ackNum = tcb.ackNum ∧
      (tcpAckAdvance env tcb ack wnd).rxBuf = tcb.rxBuf := by
  unfold tcpAckAdvance
  dsimp only
  split <;> exact ⟨rfl, rfl, rfl⟩

/-- Data that arrives moves `ack_num` by the number of bytes stored. -/
theorem receiveData_count (tcb : TcpControlBlock) (seq : UInt32) (data : List UInt8) :
    ∃ n, (tcb.receiveData seq data).rxBuf.length = tcb.rxBuf.length + n ∧
      (tcb.receiveData seq data).ackNum = tcb.ackNum + UInt32.ofNat n ∧
      (tcb.receiveData seq data).state = tcb.state := by
  unfold receiveData
  dsimp only
  split
  · split
    · refine ⟨(data.take (tcpRxBufSize - tcb.rxBuf.length)).length +
        (tcb.oooBuf.take (tcpRxBufSize - (tcb.storeRx data).rxBuf.length)).length, ?_, ?_, rfl⟩
      · simp only [clearOoo, storeRx, List.length_append]
        omega
      · rw [UInt32.ofNat_add, ← UInt32.add_assoc]
        rfl
    · exact ⟨(data.take (tcpRxBufSize - tcb.rxBuf.length)).length, by simp [storeRx], rfl, rfl⟩
  · split
    · exact ⟨0, rfl, by simp [keepOoo], rfl⟩
    · exact ⟨0, rfl, by simp, rfl⟩

/-- What a segment does to an established connection, as far as the peer's bytes go : `n`
of them are stored, and a FIN behind them is taken after they were acknowledged. -/
theorem handleEstablished_count (env : TcpEnv) (henv : env.ipOutput = true) (tcb : TcpControlBlock)
    (seg : TcpSegment) :
    ∃ n, (handleEstablished env tcb seg).1.rxBuf.length = tcb.rxBuf.length + n ∧
      (((handleEstablished env tcb seg).1.state = tcb.state ∧
          (handleEstablished env tcb seg).1.ackNum = tcb.ackNum + UInt32.ofNat n ∧
          ∀ s ∈ (handleEstablished env tcb seg).2,
            s.ackNum = tcb.ackNum + UInt32.ofNat n) ∨
        (hasFlag seg.flags tcpFlagFin = true ∧
          (handleEstablished env tcb seg).1.state = .closeWait ∧
          (handleEstablished env tcb seg).1.ackNum = tcb.ackNum + UInt32.ofNat n + 1 ∧
          ∃ l s, (handleEstablished env tcb seg).2 = l ++ [s] ∧
            (∀ s' ∈ l, s'.ackNum = tcb.ackNum + UInt32.ofNat n) ∧
            s.ackNum = tcb.ackNum + UInt32.ofNat n + 1)) := by
  unfold handleEstablished
  dsimp only
  set t₁ := if hasFlag seg.flags tcpFlagAck then tcpAckAdvance env tcb seg.ackNum seg.window
    else tcb with ht₁
  have h₁ : t₁.state = tcb.state ∧ t₁.ackNum = tcb.ackNum ∧ t₁.rxBuf = tcb.rxBuf := by
    rw [ht₁]
    split
    · exact tcpAckAdvance_rx _ _ _ _
    · exact ⟨rfl, rfl, rfl⟩
  set r := if 0 < seg.payload.length then
    tcpSendAck env (t₁.receiveData seg.seqNum seg.payload) else (t₁, []) with hr
  have h₂ : ∃ n, r.1.rxBuf.length = tcb.rxBuf.length + n ∧
      r.1.ackNum = tcb.ackNum + UInt32.ofNat n ∧ r.1.state = tcb.state ∧
      ∀ s ∈ r.2, s.ackNum = tcb.ackNum + UInt32.ofNat n := by
    rw [hr]
    split
    · obtain ⟨n, hlen, hack, hstate⟩ := receiveData_count t₁ seg.seqNum seg.payload
      have hq := quiet_tcpOutputSeq env (t₁.receiveData seg.seqNum seg.payload) tcpFlagAck []
        (t₁.receiveData seg.seqNum seg.payload).seqNum
      rw [h₁.2.1] at hack
      rw [h₁.2.2] at hlen
      refine ⟨n, ?_, hq.ackNum.trans hack, hq.state.trans (hstate.trans h₁.1), fun s hs => ?_⟩
      · rw [← hlen]
        exact congrArg List.length hq.rxBuf
      · have hack' := (sends_of_mem hs).ackNum
        rw [if_pos (by decide)] at hack'
        exact hack'.trans hack
    · exact ⟨0, by rw [h₁.2.2]; rfl, by simp [h₁.2.1], h₁.1, fun _ h => by cases h⟩
  obtain ⟨n, hlen, hack, hstate, hsegs⟩ := h₂
  refine ⟨n, ?_⟩
  split
  · next hfin =>
    have hq := quiet_tcpOutputSeq env (r.1.setAck (r.1.ackNum + 1)) tcpFlagAck []
      (r.1.setAck (r.1.ackNum + 1)).seqNum
    have hnil : ([] : List UInt8).length ≤ tcpMaxSeg := by simp
    obtain ⟨s, hs⟩ := tcpOutputSeq_snd env henv (r.1.setAck (r.1.ackNum + 1)) tcpFlagAck
      (r.1.setAck (r.1.ackNum + 1)).seqNum hnil
    have hmem : s ∈ (tcpSendAck env (r.1.setAck (r.1.ackNum + 1))).2 := by
      rw [tcpSendAck, tcpOutput, hs]
      exact List.mem_singleton.mpr rfl
    have hs' := (sends_of_mem hmem).ackNum
    rw [if_pos (by decide)] at hs'
    have hnew : (r.1.setAck (r.1.ackNum + 1)).ackNum = tcb.ackNum + UInt32.ofNat n + 1 := by
      rw [← hack]
      rfl
    refine ⟨?_, Or.inr ⟨hfin.1, rfl, hq.ackNum.trans hnew, r.2, s, ?_, hsegs, hs'.trans hnew⟩⟩
    · rw [← hlen]
      exact congrArg List.length hq.rxBuf
    · exact congrArg (r.2 ++ ·) hs
  · exact ⟨hlen, Or.inl ⟨hstate, hack, hsegs⟩⟩

end TcpControlBlock

end VernisOS
