import VernisOS.TcpAck
import VernisOS.TcpStream

/-!
# The send ring

One connection against an arbitrary peer, with a log of the bytes that `tcp_send` has
accepted under their sequence numbers. The ring holds the byte of every number in flight,
and every segment with data carries the bytes of its numbers (`tcp_send_ring`), whatever
the peer acknowledges and however far the numbers wrap around.
-/

open SeqStream Run

namespace VernisOS

/-- The bytes that an event makes `tcp_send` accept, with their sequence numbers. -/
def sendLog (c : Conn) (i : ConnInput) : List (UInt32 × UInt8) :=
  match i.op with
  | .send buf => numbered c.tcb.seqNum (buf.take (c.tcb.tcpSend i.env buf).1.toNat)
  | _ => []

/-- The connection after an event, with the bytes accepted so far. -/
def ringNext (s : Conn × List (UInt32 × UInt8)) (i : ConnInput) :
    Option (Conn × List (UInt32 × UInt8)) :=
  some ((connStep s.1 i).1, s.2 ++ sendLog s.1 i)

/-- What is in flight fits into the ring, and stands in it. -/
structure RingOk (tcb : TcpControlBlock) (log : List (UInt32 × UInt8)) : Prop where
  fits : tcb.inflight.toNat ≤ tcpTxBufSize
  bytes : ∀ k < tcb.inflight.toNat, byteFor log (tcb.sndUna + UInt32.ofNat k)
    = some (tcb.txBuf (Ring.pos tcpTxBufSize (tcb.txStart.toNat + k)))

/-- A segment carries the byte that was accepted for each of its sequence numbers. -/
def Carries (log : List (UInt32 × UInt8)) (seg : TcpSegment) : Prop :=
  ∀ k (h : k < seg.payload.length),
    byteFor log (seg.seqNum + UInt32.ofNat k) = some seg.payload[k]

/-- The block waits for the end of a handshake that the peer began. -/
structure TcpLink.Passive (link : TcpLink) (tcb : TcpControlBlock) : Prop where
  state : tcb.state = .synReceived
  seqNum : tcb.seqNum = link.isn
  localPort : tcb.localPort = link.srcPort
  remotePort : tcb.remotePort = link.dstPort
  remoteIp : tcb.remoteIp = link.dstIp

/-- The invariant : the log is a stream, and the block is that of its sender, or on its way
there. -/
def RingInv (s : Conn × List (UInt32 × UInt8)) : Prop :=
  ∃ (link : TcpLink) (S : List UInt8), s.2 = numbered link.base S ∧
    (link.Sender S s.1.tcb ∨ S = [] ∧ link.Passive s.1.tcb)

open TcpControlBlock

variable {link : TcpLink} {S : List UInt8} {tcb tcb' : TcpControlBlock} {env : TcpEnv}
  {seg : TcpSegment}

/-! ## Segments -/

theorem carries_nil {log : List (UInt32 × UInt8)} (h : seg.payload = []) : Carries log seg := by
  intro k hk
  simp [h] at hk

/-- Nothing but a call of `tcp_send` and a tick sends data. -/
theorem payload_tcpHandleSegment {seg' : TcpSegment}
    (h : seg' ∈ (tcpHandleSegment env tcb seg).2) : seg'.payload = [] := by
  have hack : ∀ t : TcpControlBlock, seg' ∈ (tcpSendAck env t).2 → seg'.payload = [] :=
    fun t ht => (sends_of_mem ht).payload
  unfold tcpHandleSegment handleEstablished takeFin at h
  dsimp only at h
  repeat' split at h
  all_goals first
    | cases h
    | exact hack _ h
    | exact (List.mem_append.mp h).elim (hack _) (hack _)

/-- A segment from the head of the ring. -/
theorem carries_head {log : List (UInt32 × UInt8)} (h : RingOk tcb log)
    (hseq : seg.seqNum = tcb.sndUna) (hpayload : seg.payload = tcb.headBytes) :
    Carries log seg := by
  intro k hk
  have hlen : k < tcb.inflight.toNat := by
    simp only [hpayload, headBytes, Ring.get, List.length_map, List.length_range] at hk
    split at hk <;> omega
  rw [hseq, h.bytes k hlen]
  simp [hpayload, headBytes, Ring.get]

/-- A segment with the bytes that were just accepted. -/
theorem carries_send {bytes : List UInt8} (hseq : seg.seqNum = link.base + UInt32.ofNat S.length)
    (hpayload : seg.payload = bytes) (hlen : bytes.length ≤ tcpMaxSeg) :
    Carries (numbered link.base (S ++ bytes)) seg := by
  subst hpayload
  intro k hk
  have hmax : tcpMaxSeg = 1024 := rfl
  rw [hseq, UInt32.add_assoc, ← UInt32.ofNat_add, byteFor_numbered]
  · rw [List.getElem_append_right (by omega)]
    simp
  · rw [List.length_append]
    omega
  · rw [List.length_append]
    omega

/-- The ring of a sender. -/
theorem ringOk_of_sender (h : link.Sender S tcb)
    (hs : tcb.state = .established ∨ tcb.state = .closeWait) :
    RingOk tcb (numbered link.base S) := by
  have hw := h.window hs
  exact ⟨hw.inflight_le (by decide), fun k hk => hw.byteFor (by decide) hk⟩

/-! ## One event -/

/-- What an event has to do with the stream `S'` that is accepted after it. -/
def RingStep (link : TcpLink) (S' : List UInt8) (r : TcpControlBlock × List TcpSegment) : Prop :=
  (link.Sender S' r.1 ∨ S' = [] ∧ link.Passive r.1) ∧
    ∀ seg ∈ r.2, Carries (numbered link.base S') seg

theorem ringStep_send (h : link.Sender S tcb) (env : TcpEnv) (buf : List UInt8) :
    RingStep link (S ++ buf.take (tcpSend env tcb buf).1.toNat) (tcpSend env tcb buf).2 ∧
      numbered link.base (S ++ buf.take (tcpSend env tcb buf).1.toNat)
        = numbered link.base S ++ numbered tcb.seqNum (buf.take (tcpSend env tcb buf).1.toNat) := by
  have hstep : link.SenderStep (S ++ buf.take (tcpSend env tcb buf).1.toNat)
      (tcpSend env tcb buf).2 := h.tcpSend buf
  rcases tcpSend_cases env tcb buf with ⟨hn, hr⟩ | ⟨n, hn, hs, hle, hseg, hroom, hq, hsends⟩
  · rw [hr] at hstep ⊢
    rw [Int.toNat_of_nonpos hn, List.take_zero, List.append_nil] at hstep ⊢
    exact ⟨⟨Or.inl hstep.1, fun _ hm => by cases hm⟩, by simp [numbered]⟩
  · rw [hn, Int.toNat_natCast] at hstep ⊢
    obtain ⟨u, hu, hfit, huna, hnext, hbuf⟩ := h.window hs
    refine ⟨⟨Or.inl hstep.1, fun seg hm => ?_⟩, ?_⟩
    · have hsend := hsends seg hm
      refine carries_send (hsend.seqNum.trans hnext) hsend.payload ?_
      rw [List.length_take]
      omega
    · rw [numbered_append, ← hnext]

theorem ringStep_tick (h : link.Sender S tcb) (env : TcpEnv) :
    RingStep link S (tcpTick env tcb) := by
  refine ⟨Or.inl h.tcpTick.1, fun seg hm => ?_⟩
  rcases (ticked_tcpTick env tcb).2 seg hm with ⟨_, hs⟩ | ⟨_, hs⟩ | ⟨hstate, _, hs⟩
  · exact carries_nil hs.payload
  · exact carries_nil hs.payload
  · exact carries_head (ringOk_of_sender h hstate) hs.seqNum hs.payload

theorem ringStep_recv (h : link.Sender S tcb) (env : TcpEnv) (maxlen : Int) :
    RingStep link S (tcpRecv env tcb maxlen).2.2 := by
  obtain ⟨n, _, hq, hsends⟩ := tcpRecv_cases env tcb maxlen
  refine ⟨Or.inl (h.sameTx ?_ (Or.inl hq.state)), fun seg hm => carries_nil (hsends seg hm).2.payload⟩
  exact ⟨hq.localPort, hq.remotePort, hq.remoteIp, hq.seqNum, hq.sndUna, hq.txBuf, hq.txStart⟩

theorem ringStep_close (h : link.Sender S tcb) (env : TcpEnv) :
    RingStep link S (tcpClose env tcb) := by
  refine ⟨Or.inl h.tcpClose.1, fun seg hm => ?_⟩
  rcases tcpClose_cases env tcb with hr | ⟨s, _, _, hsends⟩
  · rw [hr] at hm
    cases hm
  · exact carries_nil (hsends seg hm).payload

theorem ringStep_segment (h : link.Sender S tcb) (env : TcpEnv) (seg : TcpSegment) :
    RingStep link S (tcpHandleSegment env tcb seg) :=
  ⟨Or.inl (h.tcpHandleSegment seg).1, fun _ hm => carries_nil (payload_tcpHandleSegment hm)⟩

/-! ## The handshake of a listener's connection -/

namespace TcpLink.Passive

theorem quiet (h : link.Passive tcb) (hq : Quiet tcb tcb') : link.Passive tcb' :=
  ⟨hq.state.trans h.state, hq.seqNum.trans h.seqNum, hq.localPort.trans h.localPort,
    hq.remotePort.trans h.remotePort, hq.remoteIp.trans h.remoteIp⟩

/-- The block leaves the handshake for one of the states that send nothing again. -/
theorem torn (h : link.Passive tcb) (hl : tcb'.localPort = tcb.localPort)
    (hr : tcb'.remotePort = tcb.remotePort) (hip : tcb'.remoteIp = tcb.remoteIp)
    (hs : TcpLink.Torn tcb'.state) : link.Sender [] tcb' where
  localPort := hl.trans h.localPort
  remotePort := hr.trans h.remotePort
  remoteIp := hip.trans h.remoteIp
  passive := ⟨hs.1, hs.2.1⟩
  opening hsyn := absurd hsyn hs.2.2.1
  window hest := absurd hest (not_or.mpr hs.2.2.2)

theorem ring_send (h : link.Passive tcb) (env : TcpEnv) (buf : List UInt8) :
    tcpSend env tcb buf = (-1, tcb, []) := by
  unfold TcpControlBlock.tcpSend
  rw [if_pos (by rw [h.state]; decide)]

theorem ring_tick (h : link.Passive tcb) (env : TcpEnv) : RingStep link [] (tcpTick env tcb) := by
  obtain ⟨hq, hsends⟩ := ticked_tcpTick env tcb
  refine ⟨?_, fun seg hm => ?_⟩
  · rcases hq with hq | hq
    · exact Or.inr ⟨rfl, h.quiet hq⟩
    · rw [hq]
      exact Or.inl (h.torn rfl rfl rfl (by change TcpLink.Torn .closed; decide))
  · rcases hsends seg hm with ⟨_, hs⟩ | ⟨_, hs⟩ | ⟨hstate, _, _⟩
    · exact carries_nil hs.payload
    · exact carries_nil hs.payload
    · rw [h.state] at hstate
      rcases hstate with hstate | hstate <;> cases hstate

theorem ring_recv (h : link.Passive tcb) (env : TcpEnv) (maxlen : Int) :
    RingStep link [] (tcpRecv env tcb maxlen).2.2 := by
  obtain ⟨n, _, hq, hsends⟩ := tcpRecv_cases env tcb maxlen
  refine ⟨Or.inr ⟨rfl, ?_⟩, fun seg hm => carries_nil (hsends seg hm).2.payload⟩
  have hdrop : link.Passive (tcb.dropRx n) :=
    ⟨h.state, h.seqNum, h.localPort, h.remotePort, h.remoteIp⟩
  exact hdrop.quiet hq

theorem ring_close (h : link.Passive tcb) (env : TcpEnv) : RingStep link [] (tcpClose env tcb) := by
  rcases tcpClose_cases env tcb with hr | ⟨s, hs, hq, hsends⟩
  · rw [hr]
    exact ⟨Or.inl (h.torn rfl rfl rfl (by change TcpLink.Torn .closed; decide)),
      fun _ hm => by cases hm⟩
  · refine ⟨Or.inl (h.torn hq.localPort hq.remotePort hq.remoteIp ?_),
      fun seg hm => carries_nil (hsends seg hm).payload⟩
    rw [hq.state]
    change TcpLink.Torn s
    rcases hs with ⟨_, rfl⟩ | ⟨_, rfl⟩ <;> decide

theorem ring_segment (h : link.Passive tcb) (env : TcpEnv) (seg : TcpSegment) :
    RingStep link [] (tcpHandleSegment env tcb seg) := by
  refine ⟨?_, fun _ hm => carries_nil (payload_tcpHandleSegment hm)⟩
  unfold TcpControlBlock.tcpHandleSegment
  split
  · exact Or.inl (h.torn rfl rfl rfl (by change TcpLink.Torn .closed; decide))
  · simp only [h.state]
    split
    · have hbase : tcb.seqNum + 1 = link.base := by
        rw [h.seqNum]
        rfl
      refine Or.inl ⟨h.localPort, h.remotePort, h.remoteIp, ?_, ?_, fun _ => ?_⟩
      · exact (show TcpState.established ≠ .synReceived ∧ TcpState.established ≠ .listen by decide)
      · exact fun hsyn => absurd (show TcpState.established = .synSent from hsyn) (by decide)
      · change Window link.base [] (tcb.seqNum + 1) (tcb.seqNum + 1) tcb.txBuf 0
        rw [hbase]
        exact window_nil _ _ _
    · exact Or.inr ⟨trivial, h⟩

end TcpLink.Passive

/-! ## Runs -/

/-- Every event keeps the invariant, and what it sends carries accepted bytes. -/
theorem RingInv.step {s : Conn × List (UInt32 × UInt8)} (h : RingInv s) (i : ConnInput) :
    RingInv ((connStep s.1 i).1, s.2 ++ sendLog s.1 i) ∧
      ∀ seg ∈ (connStep s.1 i).2, Carries (s.2 ++ sendLog s.1 i) seg := by
  obtain ⟨c, log⟩ := s
  obtain ⟨now, op⟩ := i
  obtain ⟨link, S, hlog, hinv⟩ := h
  dsimp only at hlog hinv
  subst hlog
  -- an event that accepts nothing leaves the log as it is
  have hsame : ∀ (c' : Conn) (out : List TcpSegment), RingStep link S (c'.tcb, out) →
      RingInv (c', numbered link.base S ++ []) ∧
        ∀ seg ∈ out, Carries (numbered link.base S ++ []) seg := by
    intro c' out hr
    rw [List.append_nil]
    exact ⟨⟨link, S, rfl, hr.1⟩, hr.2⟩
  cases op with
  | send buf =>
    rcases hinv with hsender | ⟨rfl, hpassive⟩
    · obtain ⟨⟨hnext, hsent⟩, hlog⟩ := ringStep_send hsender ⟨true, now⟩ buf
      rw [hlog] at hsent
      exact ⟨⟨link, _, hlog.symm, hnext⟩, hsent⟩
    · have hsend := hpassive.ring_send ⟨true, now⟩ buf
      have hlog : sendLog c ⟨now, .send buf⟩ = [] := by
        simp [sendLog, ConnInput.env, hsend, numbered]
      have hout : (connStep c ⟨now, .send buf⟩) = (c, []) := by
        simp [connStep, ConnInput.env, hsend]
      rw [hlog, hout]
      exact hsame c [] ⟨Or.inr ⟨rfl, hpassive⟩, fun _ hm => by cases hm⟩
  | segment seg =>
    refine hsame _ _ ?_
    rcases hinv with hsender | ⟨rfl, hpassive⟩
    · exact ringStep_segment hsender _ seg
    · exact hpassive.ring_segment _ seg
  | recv maxlen =>
    refine hsame _ _ ?_
    rcases hinv with hsender | ⟨rfl, hpassive⟩
    · exact ringStep_recv hsender ⟨true, now⟩ maxlen
    · exact hpassive.ring_recv ⟨true, now⟩ maxlen
  | close =>
    refine hsame _ _ ?_
    rcases hinv with hsender | ⟨rfl, hpassive⟩
    · exact ringStep_close hsender ⟨true, now⟩
    · exact hpassive.ring_close ⟨true, now⟩
  | tick =>
    refine hsame _ _ ?_
    rcases hinv with hsender | ⟨rfl, hpassive⟩
    · exact ringStep_tick hsender ⟨true, now⟩
    · exact hpassive.ring_tick ⟨true, now⟩

theorem ringInv_of_opened {c : Conn} (h : ConnOpened c) : RingInv (c, []) := by
  cases h with
  | connect env localIp ip irs localPort port isn =>
    have hq := quiet_tcpSendSyn env (activeTcb localIp localPort ip port isn)
    have hopen : TcpLink.Sender ⟨localIp, localPort, ip, port, isn⟩ []
        (activeTcb localIp localPort ip port isn) := by
      refine ⟨rfl, rfl, rfl, ?_, fun _ => ⟨rfl, rfl⟩, fun h => ?_⟩
      · change TcpState.synSent ≠ .synReceived ∧ TcpState.synSent ≠ .listen
        decide
      · rcases h with h | h <;> cases h
    exact ⟨_, [], rfl, Or.inl (hopen.sameTx (.of_quiet hq) (Or.inl hq.state))⟩
  | listen env listener srcIp syn isn =>
    have hq := quiet_tcpSendSynack env (passiveTcb listener srcIp syn isn)
    have hopen : TcpLink.Passive ⟨listener.localIp, syn.dstPort, srcIp, syn.srcPort, isn⟩
        (passiveTcb listener srcIp syn isn) := ⟨rfl, rfl, rfl, rfl, rfl⟩
    exact ⟨_, [], rfl, Or.inr ⟨rfl, hopen.quiet hq⟩⟩

/-- Over every run of a connection the ring holds the byte accepted for every sequence
number in flight, and every segment carries the bytes accepted for its numbers. -/
theorem tcp_send_ring (c : Conn) (hc : ConnOpened c) (is : List ConnInput) :
    After ringNext (fun s => s.1.tcb.state = .established ∨ s.1.tcb.state = .closeWait →
        RingOk s.1.tcb s.2) (c, []) is ∧
      Along ringNext (fun s i => ∀ seg ∈ (connStep s.1 i).2, Carries (s.2 ++ sendLog s.1 i) seg)
        (c, []) is := by
  have hinv := ringInv_of_opened hc
  have hstep : ∀ s i s', RingInv s → True → ringNext s i = some s' → RingInv s' := by
    intro s i s' h _ hs
    obtain rfl := Option.some.inj hs
    exact (h.step i).1
  have htrue : Along ringNext (fun _ _ => True) (c, []) is := along_true is (c, [])
  refine ⟨After.mono ?_ is _ (After.of_along hstep is _ hinv htrue),
    Along.mono_inv hstep (fun s i h _ => (h.step i).2) is _ hinv htrue⟩
  rintro ⟨c, log⟩ ⟨link, S, hlog, hsender⟩ hs
  dsimp only at hlog hs hsender ⊢
  subst hlog
  rcases hsender with hsender | ⟨_, hpassive⟩
  · exact ringOk_of_sender hsender hs
  · rw [hpassive.state] at hs
    rcases hs with hs | hs <;> cases hs

/-- The handshake ends, three bytes are sent, one is acknowledged, and the rest is sent
again. -/
theorem tcp_send_ring_retransmit :
    ConnOpened openedConn ∧
      After ringNext (fun s => s.1.tcb.state = .established ∨ s.1.tcb.state = .closeWait →
        RingOk s.1.tcb s.2) (openedConn, []) [⟨0, .segment (peerSegment 1001 2 tcpFlagAck)⟩,
          ⟨0, .send [65, 66, 67]⟩, ⟨1, .segment (peerSegment 1001 3 tcpFlagAck)⟩, ⟨500, .tick⟩] :=
  ⟨opened_openedConn, (tcp_send_ring openedConn opened_openedConn _).1⟩

end VernisOS
