import Mathlib.Tactic.ClearExcept
import VernisOS.Lib.SeqStream
import VernisOS.TcpOps

/-!
# The two ends of a TCP stream

What a connection that sends keeps true (`Sender`) and what one that receives keeps true
(`Receiver`), for the stream `S` of the bytes accepted so far. The sender holds whatever
arrives; the receiver relies on the segments of the other end being pieces of the stream
(`Genuine`).
-/

open SeqStream

namespace VernisOS

/-- The identity of a connection : ports and initial sequence number of the end that
connects, and the addresses and port of the other. -/
structure TcpLink where
  srcIp : UInt32
  srcPort : UInt16
  dstIp : UInt32
  dstPort : UInt16
  isn : UInt32

namespace TcpLink

variable (link : TcpLink)

/-- Number of the first byte of the stream. -/
def base : UInt32 :=
  link.isn + 1

/-- A segment the sender may have sent when the stream was `S`. -/
structure Genuine (S : List UInt8) (seg : TcpSegment) : Prop where
  srcPort : seg.srcPort = link.srcPort
  dstPort : seg.dstPort = link.dstPort
  rst : hasFlag seg.flags tcpFlagRst = false
  syn : hasFlag seg.flags tcpFlagSyn = true → seg.seqNum = link.isn
  data : seg.payload = [] ∨ Frag link.base S seg.seqNum seg.payload

/-- The block of the sender. -/
structure Sender (S : List UInt8) (tcb : TcpControlBlock) : Prop where
  localPort : tcb.localPort = link.srcPort
  remotePort : tcb.remotePort = link.dstPort
  remoteIp : tcb.remoteIp = link.dstIp
  passive : tcb.state ≠ .synReceived ∧ tcb.state ≠ .listen
  opening : tcb.state = .synSent → tcb.seqNum = link.isn ∧ S = []
  window : tcb.state = .established ∨ tcb.state = .closeWait →
    Window link.base S tcb.sndUna tcb.seqNum tcb.txBuf tcb.txStart.toNat

/-- The block of the receiver, when the application has got `returned`. -/
structure Receiver (S returned : List UInt8) (tcb : TcpControlBlock) : Prop where
  tuple : tcb.state ≠ .closed → tcb.localPort = link.dstPort ∧ tcb.remotePort = link.srcPort ∧
    tcb.remoteIp = link.srcIp
  states : tcb.state = .closed ∨ tcb.state = .synReceived ∨ tcb.state = .established ∨
    tcb.state = .closeWait
  idle : tcb.state = .closed ∨ tcb.state = .synReceived → tcb.rxBuf = [] ∧ returned = []
  opening : tcb.state = .synReceived → tcb.ackNum = link.base ∧ tcb.oooValid = false
  silent : tcb.state = .established ∨ tcb.state = .closeWait → tcb.seqNum = tcb.sndUna
  inOrder : tcb.state = .established → InOrder link.base S tcb.ackNum (returned ++ tcb.rxBuf)
  outOfOrder : tcb.state = .established → tcb.oooValid = true →
    Frag link.base S tcb.oooSeq tcb.oooBuf
  ended : tcb.state = .closeWait → returned ++ tcb.rxBuf <+: S

/-! ## The sender -/

open TcpControlBlock

variable {link} {S S' : List UInt8} {env : TcpEnv} {tcb tcb' : TcpControlBlock}
  {seg : TcpSegment}

theorem Genuine.mono (h : link.Genuine S seg) (hS : S <+: S') : link.Genuine S' seg :=
  { h with data := h.data.imp_right fun hf => hf.mono hS }

theorem Sender.genuine (h : link.Sender S tcb) {flags : UInt8} {payload : List UInt8}
    {seq : UInt32} (hs : Sends tcb flags payload seq seg)
    (hrst : hasFlag flags tcpFlagRst = false)
    (hsyn : hasFlag flags tcpFlagSyn = true → seq = link.isn)
    (hdata : payload = [] ∨ Frag link.base S' seq payload) : link.Genuine S' seg where
  srcPort := hs.srcPort.trans h.localPort
  dstPort := hs.dstPort.trans h.remotePort
  rst := by rw [hs.flags, hrst]
  syn := by rw [hs.flags, hs.seqNum]; exact hsyn
  data := by rw [hs.seqNum, hs.payload]; exact hdata

/-- A segment without payload, SYN and RST is genuine. -/
theorem Sender.genuine_ack (h : link.Sender S tcb) {flags : UInt8} {seq : UInt32}
    (hs : Sends tcb flags [] seq seg) (hrst : hasFlag flags tcpFlagRst = false)
    (hsyn : hasFlag flags tcpFlagSyn = false) : link.Genuine S' seg :=
  h.genuine hs hrst (fun h' => by rw [hsyn] at h'; cases h') (Or.inl rfl)

/-- `tcb'` has the ports and the send window of `tcb`. -/
structure SameTx (tcb tcb' : TcpControlBlock) : Prop where
  localPort : tcb'.localPort = tcb.localPort
  remotePort : tcb'.remotePort = tcb.remotePort
  remoteIp : tcb'.remoteIp = tcb.remoteIp
  seqNum : tcb'.seqNum = tcb.seqNum
  sndUna : tcb'.sndUna = tcb.sndUna
  txBuf : tcb'.txBuf = tcb.txBuf
  txStart : tcb'.txStart = tcb.txStart

theorem SameTx.of_quiet (h : Quiet tcb tcb') : SameTx tcb tcb' :=
  { h with }

theorem Sender.sameTx (h : link.Sender S tcb) (hq : SameTx tcb tcb')
    (hs : tcb'.state = tcb.state ∨ tcb.state = .established ∧ tcb'.state = .closeWait) :
    link.Sender S tcb' where
  localPort := hq.localPort.trans h.localPort
  remotePort := hq.remotePort.trans h.remotePort
  remoteIp := hq.remoteIp.trans h.remoteIp
  passive := by
    rcases hs with hs | ⟨-, hs⟩
    · rw [hs]; exact h.passive
    · rw [hs]; decide
  opening hsyn := by
    rcases hs with hs | ⟨-, hs⟩
    · rw [hq.seqNum]; exact h.opening (hs.symm.trans hsyn)
    · rw [hs] at hsyn; cases hsyn
  window hest := by
    rw [hq.sndUna, hq.seqNum, hq.txBuf, hq.txStart]
    refine h.window ?_
    rcases hs with hs | ⟨hs, -⟩
    · rwa [hs] at hest
    · exact Or.inl hs

/-- The state is one in which nothing is sent again. -/
def Torn (s : TcpState) : Prop :=
  s ≠ .synReceived ∧ s ≠ .listen ∧ s ≠ .synSent ∧ s ≠ .established ∧ s ≠ .closeWait

instance (s : TcpState) : Decidable (Torn s) :=
  inferInstanceAs (Decidable (_ ∧ _))

theorem Sender.torn (h : link.Sender S tcb) (hl : tcb'.localPort = tcb.localPort)
    (hr : tcb'.remotePort = tcb.remotePort) (hip : tcb'.remoteIp = tcb.remoteIp)
    (hs : Torn tcb'.state) : link.Sender S tcb' where
  localPort := hl.trans h.localPort
  remotePort := hr.trans h.remotePort
  remoteIp := hip.trans h.remoteIp
  passive := ⟨hs.1, hs.2.1⟩
  opening hsyn := absurd hsyn hs.2.2.1
  window hest := absurd hest (not_or.mpr hs.2.2.2)

theorem Sender.setState (h : link.Sender S tcb) {s : TcpState} (hs : Torn s) :
    link.Sender S (tcb.setState s) :=
  h.torn rfl rfl rfl hs

/-- The block after a call and the segments it sent, when the stream is `S`. -/
def SenderStep (link : TcpLink) (S : List UInt8) (r : TcpControlBlock × List TcpSegment) : Prop :=
  link.Sender S r.1 ∧ ∀ seg ∈ r.2, link.Genuine S seg

theorem Sender.step_nil (h : link.Sender S tcb) : link.SenderStep S (tcb, []) :=
  ⟨h, fun _ hm => by cases hm⟩

/-- An ACK is sent. -/
theorem Sender.step_ack (h : link.Sender S tcb) (env : TcpEnv) :
    link.SenderStep S (tcpSendAck env tcb) := by
  refine ⟨h.sameTx (.of_quiet (quiet_tcpSendAck env tcb)) (Or.inl ?_), fun seg hm => ?_⟩
  · exact (quiet_tcpSendAck env tcb).state
  · exact h.genuine_ack (sends_of_mem hm) (by decide) (by decide)

theorem Sender.tcpSend (h : link.Sender S tcb) (buf : List UInt8) :
    link.SenderStep (S ++ buf.take (tcpSend env tcb buf).1.toNat) (tcpSend env tcb buf).2 := by
  rcases tcpSend_cases env tcb buf with ⟨hn, hr⟩ | ⟨n, hn, hs, hle, hseg, hroom, hq, hsends⟩
  · rw [hr, Int.toNat_of_nonpos hn, List.take_zero, List.append_nil]
    exact h.step_nil
  rw [hn, Int.toNat_natCast]
  have hw := h.window hs
  have hin : tcb.inflight.toNat ≤ 2048 := hw.inflight_le (by decide)
  rw [Bytes.cInt_of_lt (by omega)] at hroom
  have hlen : (buf.take n).length = n := by rw [List.length_take]; omega
  refine ⟨⟨hq.localPort.trans h.localPort, hq.remotePort.trans h.remotePort,
    hq.remoteIp.trans h.remoteIp, ?_, ?_, ?_⟩, fun seg hm => ?_⟩
  · rw [hq.state]
    exact h.passive
  · intro hsyn
    rw [hq.state] at hsyn
    have hsyn' : tcb.state = .synSent := hsyn
    rw [hsyn'] at hs
    rcases hs with hs | hs <;> cases hs
  · intro _
    rw [hq.sndUna, hq.seqNum, hq.txBuf, hq.txStart]
    have := hw.send (by decide) (buf.take n) (by rw [hlen]; change tcb.inflight.toNat + n ≤ _; omega)
    rw [hlen] at this
    refine Eq.subst (motive := fun b => Window _ _ _ _ b _) ?_ this
    exact Ring.put_congr _ (Ring.pos_mod _).symm _
  · exact h.genuine (hsends seg hm) (by decide) (fun hsyn => absurd hsyn (by decide))
      (Or.inr (hw.frag_send _))

theorem Sender.tcpTick (h : link.Sender S tcb) : link.SenderStep S (tcpTick env tcb) := by
  obtain ⟨hq, hsends⟩ := ticked_tcpTick env tcb
  refine ⟨?_, fun seg hm => ?_⟩
  · rcases hq with hq | hq
    · exact h.sameTx (.of_quiet hq) (Or.inl hq.state)
    · rw [hq]
      exact h.setState (by decide)
  · rcases hsends seg hm with ⟨hs, hseg⟩ | ⟨hs, -⟩ | ⟨hs, -, hseg⟩
    · exact h.genuine hseg (by decide) (fun _ => (h.opening hs).1) (Or.inl rfl)
    · exact absurd hs h.passive.1
    · refine h.genuine hseg (by decide) (fun hsyn => absurd hsyn (by decide)) (Or.inr ?_)
      refine (h.window hs).head (by decide) ?_
      change _ ≤ tcb.inflight.toNat
      split <;> omega

theorem Sender.tcpClose (h : link.Sender S tcb) : link.SenderStep S (tcpClose env tcb) := by
  rcases tcpClose_cases env tcb with hr | ⟨s, hs, hq, hsends⟩
  · rw [hr]
    exact (h.setState (by decide)).step_nil
  · refine ⟨h.torn hq.localPort hq.remotePort hq.remoteIp ?_, fun seg hm => ?_⟩
    · rw [hq.state]
      change Torn s
      rcases hs with ⟨-, rfl⟩ | ⟨-, rfl⟩ <;> decide
    · exact h.genuine_ack (hsends seg hm) (by decide) (by decide)

/-- An incoming ACK slides the window or leaves it. -/
theorem Sender.tcpAckAdvance (h : link.Sender S tcb) (ack : UInt32) (wnd : UInt16)
    (hs : tcb.state = .established ∨ tcb.state = .closeWait) :
    link.Sender S (tcpAckAdvance env tcb ack wnd) := by
  unfold TcpControlBlock.tcpAckAdvance
  dsimp only
  split
  · next hcond =>
    refine ⟨h.localPort, h.remotePort, h.remoteIp, h.passive, ?_, fun _ => ?_⟩
    · intro hsyn
      have hsyn' : tcb.state = .synSent := hsyn
      rw [hsyn'] at hs
      rcases hs with hs | hs <;> cases hs
    · have hw := (h.window hs).ack (by decide) ack (UInt32.le_iff_toNat_le.mp hcond.2)
      have hstart : (tcb.slide ack env.now).txStart.toNat =
          (tcb.txStart.toNat + (ack - tcb.sndUna).toNat) % tcpTxBufSize := by
        refine UInt16.toNat_ofNat_of_lt' (lt_trans (Nat.mod_lt _ (by decide)) ?_)
        decide
      obtain ⟨u, hu, hfit, hack, hnext, hbuf⟩ := hw
      refine ⟨u, hu, hfit, hack, hnext, ?_⟩
      change Ring.Holds tcb.txBuf (tcb.slide ack env.now).txStart.toNat _
      rw [hstart]
      exact Ring.holds_mod.mpr hbuf
  · exact h.sameTx ⟨rfl, rfl, rfl, rfl, rfl, rfl, rfl⟩ (Or.inl rfl)

theorem sameTx_receiveData (tcb : TcpControlBlock) (seq : UInt32) (data : List UInt8) :
    SameTx tcb (tcb.receiveData seq data) := by
  unfold receiveData
  dsimp only
  split
  · split <;> exact ⟨rfl, rfl, rfl, rfl, rfl, rfl, rfl⟩
  · split <;> exact ⟨rfl, rfl, rfl, rfl, rfl, rfl, rfl⟩

theorem Sender.handleEstablished (h : link.Sender S tcb) (hs : tcb.state = .established)
    (seg : TcpSegment) : link.SenderStep S (handleEstablished env tcb seg) := by
  unfold TcpControlBlock.handleEstablished
  dsimp only
  set t₁ := if hasFlag seg.flags tcpFlagAck then
    TcpControlBlock.tcpAckAdvance env tcb seg.ackNum seg.window else tcb with ht₁
  have h₁ : link.Sender S t₁ ∧ t₁.state = .established := by
    rw [ht₁]
    split
    · exact ⟨h.tcpAckAdvance _ _ (Or.inl hs), (tcpAckAdvance_rx _ _ _ _).1.trans hs⟩
    · exact ⟨h, hs⟩
  set r := if 0 < seg.payload.length then
    tcpSendAck env (t₁.receiveData seg.seqNum seg.payload) else (t₁, []) with hr
  have h₂ : link.SenderStep S r ∧ r.1.state = .established := by
    rw [hr]
    split
    · obtain ⟨n, -, -, hstate⟩ := receiveData_count t₁ seg.seqNum seg.payload
      have hrd := h₁.1.sameTx (sameTx_receiveData t₁ seg.seqNum seg.payload) (Or.inl hstate)
      exact ⟨hrd.step_ack env, ((quiet_tcpSendAck env _).state.trans hstate).trans h₁.2⟩
    · exact ⟨h₁.1.step_nil, h₁.2⟩
  split
  · have hfin : link.Sender S (r.1.setAck (r.1.ackNum + 1)) :=
      h₂.1.1.sameTx ⟨rfl, rfl, rfl, rfl, rfl, rfl, rfl⟩ (Or.inl rfl)
    have hack := hfin.step_ack env
    refine ⟨?_, fun s hm => ?_⟩
    · refine hack.1.sameTx ⟨rfl, rfl, rfl, rfl, rfl, rfl, rfl⟩ (Or.inr ⟨?_, rfl⟩)
      exact (quiet_tcpSendAck env _).state.trans h₂.2
    · rcases List.mem_append.mp hm with hm | hm
      · exact h₂.1.2 s hm
      · exact hack.2 s hm
  · exact h₂.1

/-- An ACK is sent and a closing state entered. -/
theorem Sender.step_torn (h : link.Sender S tcb) (env : TcpEnv) (t : TcpControlBlock) (s : TcpState)
    (hl : t.localPort = tcb.localPort) (hr : t.remotePort = tcb.remotePort)
    (hip : t.remoteIp = tcb.remoteIp) (ht : Torn t.state) (hs : Torn s) :
    link.SenderStep S ((tcpSendAck env t).1.setState s, (tcpSendAck env t).2) := by
  have hack := (h.torn hl hr hip ht).step_ack env
  exact ⟨hack.1.setState hs, hack.2⟩

/-- The handshake opens an empty window at the first byte. -/
theorem Sender.establish (h : link.Sender [] tcb) (hseq : tcb.seqNum = link.isn) (wnd : UInt16)
    (now ack : UInt32) :
    link.Sender [] ((((tcb.setSeq (tcb.seqNum + 1)).setAck ack).openSendWindow wnd now).setState
      .established) := by
  refine ⟨h.localPort, h.remotePort, h.remoteIp, ?_, ?_, fun _ => ?_⟩
  · exact (show TcpState.established ≠ .synReceived ∧ TcpState.established ≠ .listen by decide)
  · exact fun hsyn => absurd (show TcpState.established = .synSent from hsyn) (by decide)
  · have hbase : tcb.seqNum + 1 = link.base := by rw [hseq, base]
    change Window link.base [] (tcb.seqNum + 1) (tcb.seqNum + 1) tcb.txBuf 0
    rw [hbase]
    exact window_nil _ _ _

theorem Sender.tcpHandleSegment (h : link.Sender S tcb) (seg : TcpSegment) :
    link.SenderStep S (tcpHandleSegment env tcb seg) := by
  unfold TcpControlBlock.tcpHandleSegment
  split
  · exact (h.setState (by decide)).step_nil
  split
  · next hs =>
    split
    · obtain ⟨hseq, rfl⟩ := h.opening hs
      exact (h.establish hseq seg.window env.now (seg.seqNum + 1)).step_ack env
    · exact h.step_nil
  · next hs => exact absurd hs h.passive.1
  · next hs => exact h.handleEstablished hs seg
  · next hs =>
    split
    · exact (h.tcpAckAdvance _ _ (Or.inr hs)).step_nil
    · exact h.step_nil
  · next hs =>
    dsimp only
    set t := if hasFlag seg.flags tcpFlagAck ∧ seg.ackNum = tcb.seqNum + 1 then
      (tcb.setSeq (tcb.seqNum + 1)).setState .finWait2 else tcb with ht
    have htt : link.Sender S t ∧ Torn t.state := by
      rw [ht]
      split
      · have hfin : Torn .finWait2 := by decide
        exact ⟨h.torn rfl rfl rfl hfin, hfin⟩
      · exact ⟨h, by rw [hs]; decide⟩
    split
    · have hack := htt.1.step_torn env (t.setAck (seg.seqNum + 1)) .closed rfl rfl rfl
        htt.2 (by decide)
      refine ⟨hack.1.torn rfl rfl rfl ?_, hack.2⟩
      change Torn (if _ then _ else _)
      split <;> decide
    · exact htt.1.step_nil
  · next hs =>
    split
    · exact h.step_torn env (tcb.setAck (seg.seqNum + 1)) .closed rfl rfl rfl
        (by change Torn tcb.state; rw [hs]; decide) (by decide)
    · exact h.step_nil
  · split
    · exact (h.setState (by decide)).step_nil
    · exact h.step_nil
  · split
    · exact (h.setState (by decide)).step_nil
    · exact h.step_nil
  · exact h.step_nil

/-! ## The receiver -/

variable {returned : List UInt8}

theorem Receiver.mono (h : link.Receiver S returned tcb) (hS : S <+: S') :
    link.Receiver S' returned tcb :=
  { h with
    inOrder := fun hs => (h.inOrder hs).mono hS
    outOfOrder := fun hs ho => (h.outOfOrder hs ho).mono hS
    ended := fun hs => (h.ended hs).trans hS }

/-- In every state what was received is an initial part of the stream. -/
theorem Receiver.isPrefix (h : link.Receiver S returned tcb) : returned ++ tcb.rxBuf <+: S := by
  rcases h.states with hs | hs | hs | hs
  · obtain ⟨hrx, hret⟩ := h.idle (Or.inl hs)
    simp [hrx, hret]
  · obtain ⟨hrx, hret⟩ := h.idle (Or.inr hs)
    simp [hrx, hret]
  · exact (h.inOrder hs).isPrefix
  · exact h.ended hs

theorem Receiver.quiet (h : link.Receiver S returned tcb) (hq : Quiet tcb tcb') :
    link.Receiver S returned tcb' := by
  refine ⟨?_, ?_, ?_, ?_, ?_, ?_, ?_, ?_⟩
  · rw [hq.state, hq.localPort, hq.remotePort, hq.remoteIp]
    exact h.tuple
  · rw [hq.state]
    exact h.states
  · rw [hq.state, hq.rxBuf]
    exact h.idle
  · rw [hq.state, hq.ackNum, hq.oooValid]
    exact h.opening
  · rw [hq.state, hq.seqNum, hq.sndUna]
    exact h.silent
  · rw [hq.state, hq.ackNum, hq.rxBuf]
    exact h.inOrder
  · rw [hq.state, hq.oooValid, hq.oooSeq, hq.oooBuf]
    exact h.outOfOrder
  · rw [hq.state, hq.rxBuf]
    exact h.ended

/-- The connection never came up. -/
theorem receiver_closed (link : TcpLink) (S : List UInt8) (hs : tcb.state = .closed)
    (hrx : tcb.rxBuf = []) : link.Receiver S [] tcb where
  tuple hne := absurd hs hne
  states := Or.inl hs
  idle _ := ⟨hrx, rfl⟩
  opening h := by rw [hs] at h; cases h
  silent h := by rw [hs] at h; rcases h with h | h <;> cases h
  inOrder h := by rw [hs] at h; cases h
  outOfOrder h := by rw [hs] at h; cases h
  ended h := by rw [hs] at h; cases h

/-- A listening socket takes the SYN of the sender. -/
theorem receiver_passiveTcb (link : TcpLink) (S : List UInt8) (listener : TcpControlBlock)
    (isn : UInt32) (hg : link.Genuine S seg) (hsyn : hasFlag seg.flags tcpFlagSyn = true) :
    link.Receiver S [] (passiveTcb listener link.srcIp seg isn) where
  tuple _ := ⟨hg.dstPort, hg.srcPort, rfl⟩
  states := Or.inr (Or.inl rfl)
  idle _ := ⟨rfl, rfl⟩
  opening _ := ⟨by rw [base, ← hg.syn hsyn]; rfl, rfl⟩
  silent h := by rcases h with h | h <;> cases h
  inOrder h := by cases h
  outOfOrder h := by cases h
  ended h := by cases h

/-- An established connection. -/
theorem receiver_established (hs : tcb.state = .established)
    (htuple : tcb.localPort = link.dstPort ∧ tcb.remotePort = link.srcPort ∧
      tcb.remoteIp = link.srcIp) (hsilent : tcb.seqNum = tcb.sndUna)
    (hin : InOrder link.base S tcb.ackNum (returned ++ tcb.rxBuf))
    (hooo : tcb.oooValid = true → Frag link.base S tcb.oooSeq tcb.oooBuf) :
    link.Receiver S returned tcb where
  tuple _ := htuple
  states := Or.inr (Or.inr (Or.inl hs))
  idle h := by rw [hs] at h; rcases h with h | h <;> cases h
  opening h := by rw [hs] at h; cases h
  silent _ := hsilent
  inOrder _ := hin
  outOfOrder _ := hooo
  ended h := by rw [hs] at h; cases h

/-- A connection whose peer has closed. -/
theorem receiver_closeWait (hs : tcb.state = .closeWait)
    (htuple : tcb.localPort = link.dstPort ∧ tcb.remotePort = link.srcPort ∧
      tcb.remoteIp = link.srcIp) (hsilent : tcb.seqNum = tcb.sndUna)
    (hended : returned ++ tcb.rxBuf <+: S) : link.Receiver S returned tcb where
  tuple _ := htuple
  states := Or.inr (Or.inr (Or.inr hs))
  idle h := by rw [hs] at h; rcases h with h | h <;> cases h
  opening h := by rw [hs] at h; cases h
  silent _ := hsilent
  inOrder h := by rw [hs] at h; cases h
  outOfOrder h := by rw [hs] at h; cases h
  ended _ := hended

/-- Nothing is in flight, so a tick does nothing. -/
theorem tcpTick_silent (hs : tcb.state = .established ∨ tcb.state = .closeWait)
    (h : tcb.seqNum = tcb.sndUna) : tcpTick env tcb = (tcb, []) := by
  have hin : ¬ 0 < tcb.inflight := by
    rw [inflight, h, UInt32.sub_self]
    decide
  unfold tcpTick
  rcases hs with hs | hs
  · simp only [hs, if_neg hin]
  · simp only [hs, if_neg hin]

theorem Receiver.tcpTick (h : link.Receiver S returned tcb) :
    link.Receiver S returned (tcpTick env tcb).1 := by
  by_cases hs : tcb.state = .established ∨ tcb.state = .closeWait
  · rw [tcpTick_silent hs (h.silent hs)]
    exact h
  · obtain ⟨hrx, rfl⟩ := h.idle (by
      rcases h.states with hs' | hs' | hs' | hs'
      · exact Or.inl hs'
      · exact Or.inr hs'
      · exact absurd (Or.inl hs') hs
      · exact absurd (Or.inr hs') hs)
    rcases (ticked_tcpTick env tcb).1 with hq | hq
    · exact h.quiet hq
    · rw [hq]
      exact receiver_closed link S rfl hrx

theorem Receiver.tcpRecv (h : link.Receiver S returned tcb) (maxlen : Int) :
    link.Receiver S (returned ++ (tcpRecv env tcb maxlen).2.1) (tcpRecv env tcb maxlen).2.2.1 := by
  obtain ⟨n, hbytes, hq, -⟩ := tcpRecv_cases env tcb maxlen
  rw [hbytes]
  have hall : returned ++ tcb.rxBuf.take n ++ tcb.rxBuf.drop n = returned ++ tcb.rxBuf := by
    rw [List.append_assoc, List.take_append_drop]
  have hdrop : link.Receiver S (returned ++ tcb.rxBuf.take n) (tcb.dropRx n) := by
    refine ⟨h.tuple, h.states, fun hs => ?_, h.opening, h.silent, fun hs => ?_, h.outOfOrder,
      fun hs => ?_⟩
    · obtain ⟨hrx, hret⟩ := h.idle hs
      simp [dropRx, hrx, hret]
    · change InOrder link.base S tcb.ackNum (_ ++ tcb.rxBuf.drop n)
      rw [hall]
      exact h.inOrder hs
    · change _ ++ tcb.rxBuf.drop n <+: S
      rw [hall]
      exact h.ended hs
  exact hdrop.quiet hq

/-- What fits of the bytes at `ack_num` is stored. -/
theorem inOrder_storeRx (hS : S.length < 2 ^ 32) {data : List UInt8}
    (h : InOrder link.base S tcb.ackNum (returned ++ tcb.rxBuf))
    (hf : Frag link.base S tcb.ackNum data) :
    InOrder link.base S (tcb.storeRx data).ackNum (returned ++ (tcb.storeRx data).rxBuf) := by
  have := h.append hS (hf.shorten ( List.take_prefix (tcpRxBufSize - tcb.rxBuf.length) data))
  rwa [List.append_assoc] at this

/-- Data that stands in the stream keeps what was received in order. -/
theorem Receiver.receiveData (h : link.Receiver S returned tcb) (hS : S.length < 2 ^ 32)
    (hs : tcb.state = .established) {seq : UInt32} {data : List UInt8}
    (hf : Frag link.base S seq data) : link.Receiver S returned (tcb.receiveData seq data) := by
  have htuple := h.tuple (by rw [hs]; decide)
  have hsilent := h.silent (Or.inl hs)
  have hooo := h.outOfOrder hs
  unfold TcpControlBlock.receiveData
  dsimp only
  split
  · next hseq =>
    have hin := inOrder_storeRx hS (h.inOrder hs) (hseq ▸ hf)
    split
    · next hflush =>
      have hfo : Frag link.base S (tcb.storeRx data).ackNum tcb.oooBuf := by
        rw [← hflush.2]
        exact hooo hflush.1
      exact receiver_established hs htuple hsilent (inOrder_storeRx hS hin hfo)
        (fun h' => by cases h')
    · exact receiver_established hs htuple hsilent hin hooo
  · split
    · exact receiver_established hs htuple hsilent (h.inOrder hs)
        (fun _ => hf.shorten ( List.take_prefix _ _))
    · exact h

/-- With nothing in flight an ACK changes the peer's window only. -/
theorem Receiver.tcpAckAdvance (h : link.Receiver S returned tcb) (ack : UInt32) (wnd : UInt16)
    (hs : tcb.state = .established ∨ tcb.state = .closeWait) :
    link.Receiver S returned (tcpAckAdvance env tcb ack wnd) := by
  have hin : ¬ (0 < ack - tcb.sndUna ∧ ack - tcb.sndUna ≤ tcb.inflight) := by
    rw [inflight, h.silent hs, UInt32.sub_self]
    exact fun ⟨hpos, hle⟩ => absurd (UInt32.lt_of_lt_of_le hpos hle) (by decide)
  unfold TcpControlBlock.tcpAckAdvance
  dsimp only
  rw [if_neg hin]
  exact { h with }

theorem Receiver.handleEstablished (h : link.Receiver S returned tcb) (hS : S.length < 2 ^ 32)
    (hs : tcb.state = .established) (hg : link.Genuine S seg) :
    link.Receiver S returned (handleEstablished env tcb seg).1 := by
  unfold TcpControlBlock.handleEstablished
  dsimp only
  set t₁ := if hasFlag seg.flags tcpFlagAck then
    TcpControlBlock.tcpAckAdvance env tcb seg.ackNum seg.window else tcb with ht₁
  have h₁ : link.Receiver S returned t₁ ∧ t₁.state = .established := by
    rw [ht₁]
    split
    · exact ⟨h.tcpAckAdvance _ _ (Or.inl hs), (tcpAckAdvance_rx _ _ _ _).1.trans hs⟩
    · exact ⟨h, hs⟩
  set r := if 0 < seg.payload.length then
    tcpSendAck env (t₁.receiveData seg.seqNum seg.payload) else (t₁, []) with hr
  have h₂ : link.Receiver S returned r.1 ∧ r.1.state = .established := by
    rw [hr]
    split
    · next hlen =>
      have hf := hg.data.resolve_left (List.ne_nil_of_length_pos hlen)
      obtain ⟨n, -, -, hstate⟩ := receiveData_count t₁ seg.seqNum seg.payload
      have hq := quiet_tcpSendAck env (t₁.receiveData seg.seqNum seg.payload)
      exact ⟨(h₁.1.receiveData hS h₁.2 hf).quiet hq, (hq.state.trans hstate).trans h₁.2⟩
    · exact h₁
  split
  · have hq := quiet_tcpSendAck env (r.1.setAck (r.1.ackNum + 1))
    have htuple := h₂.1.tuple (by rw [h₂.2]; decide)
    refine receiver_closeWait rfl ?_ ?_ ?_
    · exact ⟨hq.localPort.trans htuple.1, hq.remotePort.trans htuple.2.1,
        hq.remoteIp.trans htuple.2.2⟩
    · exact (hq.seqNum.trans (h₂.1.silent (Or.inl h₂.2))).trans hq.sndUna.symm
    · change returned ++ (tcpSendAck env (r.1.setAck (r.1.ackNum + 1))).1.rxBuf <+: S
      rw [hq.rxBuf]
      exact h₂.1.isPrefix
  · exact h₂.1

theorem Receiver.tcpHandleSegment (h : link.Receiver S returned tcb) (hS : S.length < 2 ^ 32)
    (hg : link.Genuine S seg) : link.Receiver S returned (tcpHandleSegment env tcb seg).1 := by
  unfold TcpControlBlock.tcpHandleSegment
  rw [if_neg (by rw [hg.rst]; decide)]
  rcases h.states with hs | hs | hs | hs
  · simp only [hs]
    exact h
  · simp only [hs]
    split
    · obtain ⟨hrx, rfl⟩ := h.idle (Or.inr hs)
      obtain ⟨hack, hooo⟩ := h.opening hs
      refine receiver_established rfl (h.tuple (by rw [hs]; decide)) rfl ?_ ?_
      · change InOrder link.base S tcb.ackNum ([] ++ tcb.rxBuf)
        rw [hack, hrx]
        exact inOrder_nil _ _
      · intro hval
        have hval' : tcb.oooValid = true := hval
        rw [hooo] at hval'
        cases hval'
    · exact h
  · simp only [hs]
    exact h.handleEstablished hS hs hg
  · simp only [hs]
    split
    · exact h.tcpAckAdvance _ _ (Or.inr hs)
    · exact h

end TcpLink

end VernisOS
