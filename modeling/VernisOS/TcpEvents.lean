import VernisOS.TcpOps

/-!
# What an event does to the sending side of a connection

The state, the addresses, `seq_num`, `snd_una` and the window of the peer, after a segment :
one case for each thing that `tcp_handle_segment` does with them.
-/

namespace VernisOS

namespace TcpControlBlock

variable {env : TcpEnv} {tcb tcb' : TcpControlBlock} {seg : TcpSegment}

/-- The two ends of the connection are the same. -/
structure SameEnds (tcb tcb' : TcpControlBlock) : Prop where
  localPort : tcb'.localPort = tcb.localPort
  remoteIp : tcb'.remoteIp = tcb.remoteIp
  remotePort : tcb'.remotePort = tcb.remotePort

theorem SameEnds.trans {tcb'' : TcpControlBlock} (h : SameEnds tcb tcb')
    (h' : SameEnds tcb' tcb'') : SameEnds tcb tcb'' :=
  ⟨h'.1.trans h.1, h'.2.trans h.2, h'.3.trans h.3⟩

/-- Nothing changes that decides what may be sent. -/
structure SameSend (tcb tcb' : TcpControlBlock) : Prop extends SameEnds tcb tcb' where
  seqNum : tcb'.seqNum = tcb.seqNum
  sndUna : tcb'.sndUna = tcb.sndUna
  remoteWindow : tcb'.remoteWindow = tcb.remoteWindow

theorem SameSend.refl (tcb : TcpControlBlock) : SameSend tcb tcb :=
  ⟨⟨rfl, rfl, rfl⟩, rfl, rfl, rfl⟩

theorem SameSend.trans {tcb'' : TcpControlBlock} (h : SameSend tcb tcb')
    (h' : SameSend tcb' tcb'') : SameSend tcb tcb'' :=
  ⟨h.toSameEnds.trans h'.toSameEnds, h'.2.trans h.2, h'.3.trans h.3, h'.4.trans h.4⟩

theorem sameSend_tcpOutputSeq (env : TcpEnv) (tcb : TcpControlBlock) (flags : UInt8)
    (payload : List UInt8) (seq : UInt32) :
    SameSend tcb (tcpOutputSeq env tcb flags payload seq).1 := by
  obtain ⟨w, hw⟩ := tcpOutputSeq_fst env tcb flags payload seq
  rw [hw]
  exact ⟨⟨rfl, rfl, rfl⟩, rfl, rfl, rfl⟩

theorem sameSend_receiveData (tcb : TcpControlBlock) (seq : UInt32) (data : List UInt8) :
    SameSend tcb (tcb.receiveData seq data) ∧ (tcb.receiveData seq data).state = tcb.state := by
  unfold receiveData
  dsimp only
  split
  · split <;> exact ⟨⟨⟨rfl, rfl, rfl⟩, rfl, rfl, rfl⟩, rfl⟩
  · split <;> exact ⟨⟨⟨rfl, rfl, rfl⟩, rfl, rfl, rfl⟩, rfl⟩

/-- `snd_una` after an ACK with the number `ack`. -/
def ackedUna (tcb : TcpControlBlock) (ack : UInt32) : UInt32 :=
  if 0 < ack - tcb.sndUna ∧ ack - tcb.sndUna ≤ tcb.inflight then ack else tcb.sndUna

/-- What a segment does to the sending side. -/
inductive Handled (tcb : TcpControlBlock) (seg : TcpSegment) (tcb' : TcpControlBlock) : Prop
  | reset (hrst : hasFlag seg.flags tcpFlagRst = true) (hstate : tcb'.state = .closed)
      (h : SameSend tcb tcb')
  | openConn (hrst : hasFlag seg.flags tcpFlagRst = false)
      (hs : tcb.state = .synSent ∨ tcb.state = .synReceived)
      (hflag : hasFlag seg.flags tcpFlagAck = true) (hack : seg.ackNum = tcb.seqNum + 1)
      (hstate : tcb'.state = .established) (hends : SameEnds tcb tcb')
      (hseq : tcb'.seqNum = tcb.seqNum + 1) (huna : tcb'.sndUna = tcb.seqNum + 1)
      (hwindow : tcb'.remoteWindow = seg.window)
  | ackData (hrst : hasFlag seg.flags tcpFlagRst = false)
      (hs : tcb.state = .established ∨ tcb.state = .closeWait)
      (hflag : hasFlag seg.flags tcpFlagAck = true)
      (hstate : tcb'.state = tcb.state ∨ tcb.state = .established ∧ tcb'.state = .closeWait)
      (hends : SameEnds tcb tcb') (hseq : tcb'.seqNum = tcb.seqNum)
      (huna : tcb'.sndUna = tcb.ackedUna seg.ackNum) (hwindow : tcb'.remoteWindow = seg.window)
  | ackFin (hrst : hasFlag seg.flags tcpFlagRst = false) (hs : tcb.state = .finWait1)
      (hflag : hasFlag seg.flags tcpFlagAck = true) (hack : seg.ackNum = tcb.seqNum + 1)
      (hstate : tcb'.state = .finWait2 ∨ tcb'.state = .closed) (hends : SameEnds tcb tcb')
      (hseq : tcb'.seqNum = tcb.seqNum + 1)
  | ackLast (hrst : hasFlag seg.flags tcpFlagRst = false)
      (hs : tcb.state = .closing ∨ tcb.state = .lastAck)
      (hflag : hasFlag seg.flags tcpFlagAck = true) (hstate : tcb'.state = .closed)
      (h : SameSend tcb tcb')
  | takeFin (hrst : hasFlag seg.flags tcpFlagRst = false)
      (hstate : tcb.state = .established ∧ tcb'.state = .closeWait ∨
        tcb.state = .finWait1 ∧ tcb'.state = .closing ∨
        tcb.state = .finWait2 ∧ tcb'.state = .closed)
      (h : SameSend tcb tcb')
  | idle (hrst : hasFlag seg.flags tcpFlagRst = false) (hstate : tcb'.state = tcb.state)
      (h : SameSend tcb tcb')

theorem tcpAckAdvance_send (env : TcpEnv) (tcb : TcpControlBlock) (ack : UInt32) (wnd : UInt16) :
    (tcpAckAdvance env tcb ack wnd).state = tcb.state ∧
      SameEnds tcb (tcpAckAdvance env tcb ack wnd) ∧
      (tcpAckAdvance env tcb ack wnd).seqNum = tcb.seqNum ∧
      (tcpAckAdvance env tcb ack wnd).sndUna = tcb.ackedUna ack ∧
      (tcpAckAdvance env tcb ack wnd).remoteWindow = wnd := by
  unfold tcpAckAdvance ackedUna
  dsimp only
  split <;> exact ⟨rfl, ⟨rfl, rfl, rfl⟩, rfl, rfl, rfl⟩

/-- On an established connection the ACK is taken first; data and FIN do not touch the sending
side. -/
theorem handleEstablished_send (env : TcpEnv) (tcb : TcpControlBlock) (seg : TcpSegment) :
    ∃ t, t = (if hasFlag seg.flags tcpFlagAck = true then
        tcpAckAdvance env tcb seg.ackNum seg.window else tcb) ∧
      SameSend t (handleEstablished env tcb seg).1 ∧
      ((handleEstablished env tcb seg).1.state = t.state ∨
        (handleEstablished env tcb seg).1.state = .closeWait) := by
  refine ⟨_, rfl, ?_⟩
  unfold handleEstablished
  dsimp only
  set t := if hasFlag seg.flags tcpFlagAck = true then
    tcpAckAdvance env tcb seg.ackNum seg.window else tcb with ht
  set r := if 0 < seg.payload.length then
    tcpSendAck env (t.receiveData seg.seqNum seg.payload) else (t, []) with hr
  have hdata : SameSend t r.1 ∧ r.1.state = t.state := by
    rw [hr]
    split
    · obtain ⟨hsend, hstate⟩ := sameSend_receiveData t seg.seqNum seg.payload
      exact ⟨hsend.trans (sameSend_tcpOutputSeq _ _ _ _ _),
        (quiet_tcpSendAck env _).state.trans hstate⟩
    · exact ⟨SameSend.refl t, rfl⟩
  split
  · refine ⟨hdata.1.trans ?_, Or.inr rfl⟩
    have hack := sameSend_tcpOutputSeq env (r.1.setAck (r.1.ackNum + 1)) tcpFlagAck []
      (r.1.setAck (r.1.ackNum + 1)).seqNum
    exact ⟨⟨hack.localPort, hack.remoteIp, hack.remotePort⟩, hack.seqNum, hack.sndUna,
      hack.remoteWindow⟩
  · exact ⟨hdata.1, Or.inl hdata.2⟩

theorem hasFlag_ack_of_synack {flags : UInt8}
    (h : flags &&& (tcpFlagSyn ||| tcpFlagAck) = tcpFlagSyn ||| tcpFlagAck) :
    hasFlag flags tcpFlagAck = true := by
  have hmask : flags &&& tcpFlagAck = (flags &&& (tcpFlagSyn ||| tcpFlagAck)) &&& tcpFlagAck := by
    rw [UInt8.and_assoc]
    rfl
  rw [hasFlag, hmask, h]
  rfl

theorem sameSend_takeFin (env : TcpEnv) (tcb : TcpControlBlock) (seg : TcpSegment) :
    SameSend tcb (takeFin env tcb seg).1 ∧ (takeFin env tcb seg).1.state = tcb.state := by
  have hack := sameSend_tcpOutputSeq env (tcb.setAck (seg.seqNum + 1)) tcpFlagAck []
    (tcb.setAck (seg.seqNum + 1)).seqNum
  refine ⟨⟨⟨hack.localPort, hack.remoteIp, hack.remotePort⟩, hack.seqNum, hack.sndUna,
    hack.remoteWindow⟩, ?_⟩
  exact (quiet_tcpSendAck env (tcb.setAck (seg.seqNum + 1))).state

theorem handled_tcpHandleSegment (env : TcpEnv) (tcb : TcpControlBlock) (seg : TcpSegment) :
    Handled tcb seg (tcpHandleSegment env tcb seg).1 := by
  unfold tcpHandleSegment
  by_cases hrst : hasFlag seg.flags tcpFlagRst = true
  · rw [if_pos hrst]
    exact .reset hrst rfl ⟨⟨rfl, rfl, rfl⟩, rfl, rfl, rfl⟩
  rw [if_neg hrst]
  rw [Bool.not_eq_true] at hrst
  have hidle : ∀ t : TcpControlBlock, t = tcb → Handled tcb seg t := by
    rintro t rfl
    exact .idle hrst rfl (SameSend.refl _)
  split
  · next hs =>
    split
    · next hopen =>
      set t := (((tcb.setSeq (tcb.seqNum + 1)).setAck (seg.seqNum + 1)).openSendWindow
        seg.window env.now).setState .established
      have hack := sameSend_tcpOutputSeq env t tcpFlagAck [] t.seqNum
      exact .openConn hrst (Or.inl hs) (hasFlag_ack_of_synack hopen.1) hopen.2
        (quiet_tcpSendAck env t).state ⟨hack.localPort, hack.remoteIp, hack.remotePort⟩
        hack.seqNum hack.sndUna hack.remoteWindow
    · exact hidle _ rfl
  · next hs =>
    split
    · next hopen =>
      exact .openConn hrst (Or.inr hs) hopen.1 hopen.2 rfl ⟨rfl, rfl, rfl⟩ rfl rfl rfl
    · exact hidle _ rfl
  · next hs =>
    obtain ⟨t, ht, hsend, hstate⟩ := handleEstablished_send env tcb seg
    by_cases hflag : hasFlag seg.flags tcpFlagAck = true
    · rw [if_pos hflag] at ht
      obtain ⟨hst, hends, hseq, huna, hwin⟩ := tcpAckAdvance_send env tcb seg.ackNum seg.window
      rw [← ht] at hst hends hseq huna hwin
      refine .ackData hrst (Or.inl hs) hflag ?_ (hends.trans hsend.toSameEnds)
        (hsend.seqNum.trans hseq) (hsend.sndUna.trans huna) (hsend.remoteWindow.trans hwin)
      rcases hstate with h | h
      · exact Or.inl (h.trans hst)
      · exact Or.inr ⟨hs, h⟩
    · rw [if_neg hflag] at ht
      rw [ht] at hsend hstate
      rcases hstate with h | h
      · exact .idle hrst h hsend
      · exact .takeFin hrst (Or.inl ⟨hs, h⟩) hsend
  · next hs =>
    split
    · next hflag =>
      obtain ⟨hst, hends, hseq, huna, hwin⟩ := tcpAckAdvance_send env tcb seg.ackNum seg.window
      exact .ackData hrst (Or.inr hs) hflag (Or.inl hst) hends hseq huna hwin
    · exact hidle _ rfl
  · next hs =>
    dsimp only
    by_cases hacked : hasFlag seg.flags tcpFlagAck = true ∧ seg.ackNum = tcb.seqNum + 1
    · rw [if_pos hacked]
      split
      · set t := (tcb.setSeq (tcb.seqNum + 1)).setState .finWait2
        obtain ⟨hsend, hst⟩ := sameSend_takeFin env t seg
        refine .ackFin hrst hs hacked.1 hacked.2 (Or.inr ?_)
          ⟨hsend.localPort, hsend.remoteIp, hsend.remotePort⟩ hsend.seqNum
        exact if_pos hst
      · exact .ackFin hrst hs hacked.1 hacked.2 (Or.inl rfl) ⟨rfl, rfl, rfl⟩ rfl
    · rw [if_neg hacked]
      split
      · obtain ⟨hsend, hst⟩ := sameSend_takeFin env tcb seg
        refine .takeFin hrst (Or.inr (Or.inl ⟨hs, if_neg ?_⟩))
          ⟨⟨hsend.localPort, hsend.remoteIp, hsend.remotePort⟩, hsend.seqNum, hsend.sndUna,
            hsend.remoteWindow⟩
        rw [hst, hs]
        decide
      · exact hidle _ rfl
  · next hs =>
    split
    · obtain ⟨hsend, hst⟩ := sameSend_takeFin env tcb seg
      exact .takeFin hrst (Or.inr (Or.inr ⟨hs, rfl⟩))
        ⟨⟨hsend.localPort, hsend.remoteIp, hsend.remotePort⟩, hsend.seqNum, hsend.sndUna,
          hsend.remoteWindow⟩
    · exact hidle _ rfl
  · next hs =>
    split
    · next hflag =>
      exact .ackLast hrst (Or.inl hs) hflag rfl ⟨⟨rfl, rfl, rfl⟩, rfl, rfl, rfl⟩
    · exact hidle _ rfl
  · next hs =>
    split
    · next hflag =>
      exact .ackLast hrst (Or.inr hs) hflag rfl ⟨⟨rfl, rfl, rfl⟩, rfl, rfl, rfl⟩
    · exact hidle _ rfl
  · exact hidle _ rfl

theorem Handled.ends (h : Handled tcb seg tcb') : SameEnds tcb tcb' := by
  cases h with
  | reset _ _ h => exact h.toSameEnds
  | openConn _ _ _ _ _ h _ _ _ => exact h
  | ackData _ _ _ _ h _ _ _ => exact h
  | ackFin _ _ _ _ _ h _ => exact h
  | ackLast _ _ _ _ h => exact h.toSameEnds
  | takeFin _ _ h => exact h.toSameEnds
  | idle _ _ h => exact h.toSameEnds

end TcpControlBlock

end VernisOS
