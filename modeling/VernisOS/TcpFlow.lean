import VernisOS.TcpAck
import VernisOS.TcpEvents

/-!
# Flow control

One connection against an arbitrary peer, with two counts that do not wrap around : the
position of `snd_una` in the stream, and the right edge, the largest position of an ACK number
plus its window among the ACKs taken so far. `tcp_send` stays below the right edge as long as
`snd_una` plus the window does. An ACK in order keeps it so; one from before `snd_una` leaves
`snd_una` and stores its window all the same. Every byte is sent below the right edge if no
such ACK has a window that reaches beyond it (`tcp_flow_control`, `not_tcp_flow_control`).
-/

open Run Bytes

namespace VernisOS

/-- A connection, with the position of `snd_una` and the right edge. -/
structure Flow where
  conn : Conn
  una : Int
  edge : Int

/-- The ACK of the segment is taken on an open connection. -/
def Flow.TakesAck (s : Flow) (seg : TcpSegment) : Prop :=
  hasFlag seg.flags tcpFlagRst = false ∧ hasFlag seg.flags tcpFlagAck = true ∧
    (s.conn.tcb.state = .established ∨ s.conn.tcb.state = .closeWait)

instance (s : Flow) (seg : TcpSegment) : Decidable (s.TakesAck seg) :=
  inferInstanceAs (Decidable (_ ∧ _ ∧ _))

/-- The segment ends the handshake. -/
def Flow.Opens (s : Flow) (tcb' : TcpControlBlock) : Prop :=
  (s.conn.tcb.state = .synSent ∨ s.conn.tcb.state = .synReceived) ∧ tcb'.state = .established

instance (s : Flow) (tcb' : TcpControlBlock) : Decidable (s.Opens tcb') :=
  inferInstanceAs (Decidable (_ ∧ _))

/-- The position of an ACK number, in modular order around `snd_una`. -/
def Flow.position (s : Flow) (ack : UInt32) : Int :=
  s.una + cInt (ack - s.conn.tcb.sndUna)

/-- One event, with the counts. -/
def Flow.step (s : Flow) (i : ConnInput) : Flow :=
  let conn := (connStep s.conn i).1
  match i.op with
  | .segment seg =>
    if s.Opens conn.tcb then ⟨conn, 0, seg.window.toNat⟩
    else if s.TakesAck seg then
      ⟨conn, s.una + (conn.tcb.sndUna - s.conn.tcb.sndUna).toNat,
        max s.edge (s.position seg.ackNum + seg.window.toNat)⟩
    else ⟨conn, s.una, s.edge⟩
  | _ => ⟨conn, s.una, s.edge⟩

/-- Every event returns. -/
def Flow.next (s : Flow) (i : ConnInput) : Option Flow :=
  some (s.step i)

/-- The bytes that `tcp_send` sends stand below the right edge. -/
def Flow.Below (s : Flow) (i : ConnInput) : Prop :=
  ∀ buf, i.op = .send buf → ∀ k : ℕ, (k : Int) < (s.conn.tcb.tcpSend i.env buf).1 →
    s.una + s.conn.tcb.inflight.toNat + k < s.edge

/-- An ACK from before `snd_una` has a window that stays below the right edge. -/
def Flow.StaleBelow (s : Flow) (i : ConnInput) : Prop :=
  ∀ seg, i.op = .segment seg → s.TakesAck seg → cInt (seg.ackNum - s.conn.tcb.sndUna) < 0 →
    s.una + seg.window.toNat ≤ s.edge

/-- The window of the peer stays below the right edge, and what is in flight fits. -/
def Flow.Inv (s : Flow) : Prop :=
  s.conn.tcb.state = .established ∨ s.conn.tcb.state = .closeWait →
    s.conn.tcb.inflight.toNat ≤ 2048 ∧ s.una + s.conn.tcb.remoteWindow.toNat ≤ s.edge

open TcpControlBlock

namespace Flow

variable {s : Flow} {i : ConnInput}

/-! ## One event -/

/-- Nothing changes that decides what may be sent, but perhaps the state. -/
theorem Inv.keep (h : s.Inv) {s' : Flow} (hsend : SameSend s.conn.tcb s'.conn.tcb)
    (hs : s'.conn.tcb.state = .established ∨ s'.conn.tcb.state = .closeWait →
      s.conn.tcb.state = .established ∨ s.conn.tcb.state = .closeWait)
    (huna : s'.una = s.una) (hedge : s.edge ≤ s'.edge) : s'.Inv := by
  intro hs'
  obtain ⟨hfit, hwin⟩ := h (hs hs')
  have hin : s'.conn.tcb.inflight = s.conn.tcb.inflight := by
    rw [inflight, inflight, hsend.seqNum, hsend.sndUna]
  rw [hin, huna, hsend.remoteWindow]
  exact ⟨hfit, hwin.trans hedge⟩

/-- A connection that is neither established nor waits for a close has no window to keep. -/
theorem inv_of_state {st : TcpState} (hst : s.conn.tcb.state = st)
    (hno : ¬ (st = .established ∨ st = .closeWait)) : s.Inv := by
  intro h
  rw [hst] at h
  exact absurd h hno

theorem sameSend_of_quiet {tcb tcb' : TcpControlBlock} (h : Quiet tcb tcb') : SameSend tcb tcb' :=
  ⟨⟨h.localPort, h.remoteIp, h.remotePort⟩, h.seqNum, h.sndUna, h.remoteWindow⟩

/-- An ACK in order, or ahead of what was sent, brings its own edge. -/
theorem Inv.ackData (h : s.Inv) {seg : TcpSegment} (htakes : s.TakesAck seg)
    (hstale : cInt (seg.ackNum - s.conn.tcb.sndUna) < 0 → s.una + seg.window.toNat ≤ s.edge)
    {s' : Flow} (hseq : s'.conn.tcb.seqNum = s.conn.tcb.seqNum)
    (hsnd : s'.conn.tcb.sndUna = s.conn.tcb.ackedUna seg.ackNum)
    (hwindow : s'.conn.tcb.remoteWindow = seg.window)
    (huna : s'.una = s.una + (s'.conn.tcb.sndUna - s.conn.tcb.sndUna).toNat)
    (hedge : s'.edge = max s.edge (s.position seg.ackNum + seg.window.toNat)) : s'.Inv := by
  intro _
  obtain ⟨hfit, -⟩ := h htakes.2.2
  rw [huna, hedge, hwindow, inflight, hseq, hsnd]
  unfold position
  unfold ackedUna
  split
  · next hslide =>
    -- the window slides by as much as the ACK number is ahead
    have hnew := UInt32.le_iff_toNat_le.mp hslide.2
    have hpos : cInt (seg.ackNum - s.conn.tcb.sndUna) =
        (seg.ackNum - s.conn.tcb.sndUna).toNat := cInt_of_lt (by omega)
    have hrest : (s.conn.tcb.seqNum - seg.ackNum).toNat ≤ s.conn.tcb.inflight.toNat := by
      have hsub : s.conn.tcb.seqNum - seg.ackNum =
          s.conn.tcb.inflight - (seg.ackNum - s.conn.tcb.sndUna) := by
        rw [inflight]
        grind
      rw [hsub, UInt32.toNat_sub_of_le _ _ hslide.2]
      omega
    refine ⟨hrest.trans hfit, ?_⟩
    rw [hpos]
    exact le_max_right _ _
  · refine ⟨hfit, ?_⟩
    rw [UInt32.sub_self]
    change s.una + ((0 : ℕ) : Int) + _ ≤ _
    by_cases hneg : cInt (seg.ackNum - s.conn.tcb.sndUna) < 0
    · have hle := hstale hneg
      exact le_max_of_le_left (by omega)
    · exact le_max_of_le_right (by omega)

theorem step_segment_conn (s : Flow) (now : UInt32) (seg : TcpSegment) :
    (s.step ⟨now, .segment seg⟩).conn.tcb = (s.conn.tcb.tcpHandleSegment ⟨true, now⟩ seg).1 := by
  unfold step
  dsimp only
  split
  · rfl
  · split <;> rfl

/-- A segment that leaves the sending side alone. -/
theorem Inv.segment_same (h : s.Inv) {now : UInt32} {seg : TcpSegment}
    (hsend : SameSend s.conn.tcb (s.conn.tcb.tcpHandleSegment ⟨true, now⟩ seg).1)
    (hopens : ¬ s.Opens (s.conn.tcb.tcpHandleSegment ⟨true, now⟩ seg).1)
    (hs : (s.conn.tcb.tcpHandleSegment ⟨true, now⟩ seg).1.state = .established ∨
        (s.conn.tcb.tcpHandleSegment ⟨true, now⟩ seg).1.state = .closeWait →
      s.conn.tcb.state = .established ∨ s.conn.tcb.state = .closeWait) :
    (s.step ⟨now, .segment seg⟩).Inv := by
  rw [← step_segment_conn] at hsend hs
  have hcounts : (s.step ⟨now, .segment seg⟩).una = s.una ∧
      s.edge ≤ (s.step ⟨now, .segment seg⟩).edge := by
    have hsnd := hsend.sndUna
    rw [step_segment_conn] at hsnd
    have hopens' : ¬ s.Opens (connStep s.conn ⟨now, .segment seg⟩).1.tcb := hopens
    unfold step
    dsimp only
    rw [if_neg hopens']
    split
    · refine ⟨?_, le_max_left _ _⟩
      change s.una + (((s.conn.tcb.tcpHandleSegment ⟨true, now⟩ seg).1.sndUna -
        s.conn.tcb.sndUna).toNat : Int) = s.una
      rw [hsnd, UInt32.sub_self]
      exact Int.add_zero s.una
    · exact ⟨rfl, le_refl _⟩
  exact h.keep hsend hs hcounts.1 hcounts.2

theorem Inv.segment (h : s.Inv) (now : UInt32) (seg : TcpSegment)
    (hstale : s.StaleBelow ⟨now, .segment seg⟩) : (s.step ⟨now, .segment seg⟩).Inv := by
  have hconn := s.step_segment_conn now seg
  have hleft : ∀ st, (s.conn.tcb.tcpHandleSegment ⟨true, now⟩ seg).1.state = st →
      ¬ (st = .established ∨ st = .closeWait) → (s.step ⟨now, .segment seg⟩).Inv := by
    intro st hst hno
    exact inv_of_state ((congrArg TcpControlBlock.state hconn).trans hst) hno
  cases handled_tcpHandleSegment ⟨true, now⟩ s.conn.tcb seg with
  | reset _ hstate _ => exact hleft _ hstate (by decide)
  | openConn _ hs _ _ hstate _ hseq huna hwindow =>
    have hopens : s.Opens (s.conn.tcb.tcpHandleSegment ⟨true, now⟩ seg).1 := ⟨hs, hstate⟩
    have hstep : s.step ⟨now, .segment seg⟩ =
        ⟨(connStep s.conn ⟨now, .segment seg⟩).1, 0, seg.window.toNat⟩ := if_pos hopens
    rw [hstep] at hconn ⊢
    intro _
    dsimp only at hconn ⊢
    rw [hconn, inflight, hseq, huna, hwindow, UInt32.sub_self]
    exact ⟨Nat.zero_le _, (Int.zero_add _).le⟩
  | ackData hrst hs hflag hstate _ hseq huna hwindow =>
    have htakes : s.TakesAck seg := ⟨hrst, hflag, hs⟩
    have hopens : ¬ s.Opens (s.conn.tcb.tcpHandleSegment ⟨true, now⟩ seg).1 := by
      rintro ⟨h' | h', -⟩ <;> rcases hs with hs | hs <;> rw [hs] at h' <;> cases h'
    have hstep : s.step ⟨now, .segment seg⟩ = ⟨(connStep s.conn ⟨now, .segment seg⟩).1,
        s.una + ((s.conn.tcb.tcpHandleSegment ⟨true, now⟩ seg).1.sndUna -
          s.conn.tcb.sndUna).toNat,
        max s.edge (s.position seg.ackNum + seg.window.toNat)⟩ :=
      (if_neg hopens).trans (if_pos htakes)
    rw [hstep]
    exact h.ackData htakes (hstale seg rfl htakes) hseq huna hwindow rfl rfl
  | ackFin _ _ _ _ hstate _ _ =>
    rcases hstate with hst | hst <;> exact hleft _ hst (by decide)
  | ackLast _ _ _ hstate _ => exact hleft _ hstate (by decide)
  | takeFin _ hstate hsend =>
    refine h.segment_same hsend ?_ fun hs' => ?_
    · rintro ⟨-, hst⟩
      rcases hstate with ⟨-, h'⟩ | ⟨-, h'⟩ | ⟨-, h'⟩ <;> rw [hst] at h' <;> cases h'
    · rcases hstate with ⟨h', -⟩ | ⟨-, h'⟩ | ⟨-, h'⟩
      · exact Or.inl h'
      · rw [h'] at hs'
        exact absurd hs' (by decide)
      · rw [h'] at hs'
        exact absurd hs' (by decide)
  | idle _ hstate hsend =>
    refine h.segment_same hsend ?_ fun hs' => ?_
    · rintro ⟨h' | h', hst⟩ <;> rw [hstate, h'] at hst <;> cases hst
    · rwa [hstate] at hs'

theorem Inv.step (h : s.Inv) (hstale : s.StaleBelow i) : (s.step i).Inv := by
  obtain ⟨now, op⟩ := i
  cases op with
  | segment seg => exact h.segment now seg hstale
  | send buf =>
    rcases tcpSend_cases ⟨true, now⟩ s.conn.tcb buf with
      ⟨-, he⟩ | ⟨n, -, hs, -, hseg, hroom, hq, -⟩
    · have hsame : (s.step ⟨now, .send buf⟩).conn.tcb = s.conn.tcb :=
        congrArg Prod.fst he
      refine h.keep ?_ ?_ rfl (le_refl _)
      · rw [hsame]
        exact SameSend.refl _
      · rw [hsame]
        exact id
    · intro _
      obtain ⟨hfit, hwin⟩ := h hs
      change ((s.conn.tcb.tcpSend ⟨true, now⟩ buf).2.1.inflight).toNat ≤ 2048 ∧
        s.una + (s.conn.tcb.tcpSend ⟨true, now⟩ buf).2.1.remoteWindow.toNat ≤ s.edge
      have hin : (s.conn.tcb.tcpSend ⟨true, now⟩ buf).2.1.inflight =
          s.conn.tcb.inflight + UInt32.ofNat n := by
        rw [inflight, hq.seqNum, hq.sndUna]
        change s.conn.tcb.seqNum + UInt32.ofNat n - s.conn.tcb.sndUna = _
        rw [inflight]
        grind
      rw [cInt_of_lt (by omega)] at hroom
      have hbuf : tcpTxBufSize = 2048 := rfl
      have hmax : tcpMaxSeg = 1024 := rfl
      have hn : (UInt32.ofNat n).toNat = n :=
        UInt32.toNat_ofNat_of_lt' (by change n < 4294967296; omega)
      refine ⟨?_, ?_⟩
      · rw [hin, UInt32.toNat_add, hn]
        omega
      · rw [hq.remoteWindow]
        exact hwin
  | recv maxlen =>
    obtain ⟨n, -, hq, -⟩ := tcpRecv_cases ⟨true, now⟩ s.conn.tcb maxlen
    have hst : (s.step ⟨now, .recv maxlen⟩).conn.tcb.state = s.conn.tcb.state := hq.state
    refine h.keep ?_ (fun hs => ?_) rfl (le_refl _)
    · exact ⟨⟨hq.localPort, hq.remoteIp, hq.remotePort⟩, hq.seqNum, hq.sndUna, hq.remoteWindow⟩
    · rwa [hst] at hs
  | close =>
    rcases tcpClose_cases ⟨true, now⟩ s.conn.tcb with he | ⟨st, hst, hq, -⟩
    · have hclosed : (s.step ⟨now, .close⟩).conn.tcb.state = .closed :=
        congrArg (fun r => r.1.state) he
      exact inv_of_state hclosed (by decide)
    · have hstate : (s.step ⟨now, .close⟩).conn.tcb.state = st := hq.state
      rcases hst with ⟨-, rfl⟩ | ⟨-, rfl⟩ <;> exact inv_of_state hstate (by decide)
  | tick =>
    rcases (ticked_tcpTick ⟨true, now⟩ s.conn.tcb).1 with hq | he
    · have hst : (s.step ⟨now, .tick⟩).conn.tcb.state = s.conn.tcb.state := hq.state
      refine h.keep (sameSend_of_quiet hq) (fun hs => ?_) rfl (le_refl _)
      rwa [hst] at hs
    · have hclosed : (s.step ⟨now, .tick⟩).conn.tcb.state = .closed :=
        congrArg TcpControlBlock.state he
      exact inv_of_state hclosed (by decide)

/-- What the window allows stands below the right edge. -/
theorem Inv.below (h : s.Inv) : s.Below i := by
  intro buf _ k hk
  have hpos : 0 < (s.conn.tcb.tcpSend i.env buf).1 := by omega
  have hallow := tcpSend_allow i.env s.conn.tcb buf hpos
  rcases tcpSend_cases i.env s.conn.tcb buf with ⟨hno, -⟩ | ⟨n, -, hs, -⟩
  · omega
  · obtain ⟨hfit, hwin⟩ := h hs
    rw [cInt_of_lt (by omega)] at hallow
    omega

end Flow

/-! ## Runs -/

/-- Over every run of a connection in which no ACK from before `snd_una` has a window beyond
the right edge, every new byte is sent below the right edge. -/
theorem tcp_flow_control (c : Conn) (hc : ConnOpened c) (is : List ConnInput)
    (hstale : Along Flow.next Flow.StaleBelow ⟨c, 0, 0⟩ is) :
    Along Flow.next Flow.Below ⟨c, 0, 0⟩ is := by
  refine Along.mono_inv (I := Flow.Inv) ?_ (fun s i h _ => h.below) is _ ?_ hstale
  · rintro s i s' h hi hs'
    cases hs'
    exact h.step hi
  · cases hc with
    | connect env localIp ip irs localPort port isn =>
      exact Flow.inv_of_state (quiet_tcpSendSyn env _).state
        (show ¬ (TcpState.synSent = .established ∨ TcpState.synSent = .closeWait) by decide)
    | listen env listener srcIp syn isn =>
      exact Flow.inv_of_state (quiet_tcpSendSynack env _).state
        (show ¬ (TcpState.synReceived = .established ∨ TcpState.synReceived = .closeWait) by
          decide)

/-- The right edge of the second segment is not to the left of that of the first. -/
def NoShrink (a b : TcpSegment) : Prop :=
  0 ≤ cInt (b.ackNum + b.window.toUInt32 - (a.ackNum + a.window.toUInt32))

/-- An ACK of the peer. -/
def peerAck (ack : UInt32) (window : UInt16) : TcpSegment :=
  ⟨5000, 80, 1001, ack, tcpFlagAck, window, []⟩

/-- The handshake ends with a window of 4 bytes, 3 are sent and acknowledged, and one more is
sent. -/
def flowRun : List ConnInput :=
  [⟨0, .segment (peerAck 2 4)⟩, ⟨0, .send [7, 7, 7]⟩, ⟨0, .segment (peerAck 5 1)⟩,
    ⟨0, .send [7]⟩]

theorem tcp_flow_control_flowRun :
    Along Flow.next Flow.StaleBelow ⟨openedConn, 0, 0⟩ flowRun ∧
      Along Flow.next Flow.Below ⟨openedConn, 0, 0⟩ flowRun := by
  have hstale : Along Flow.next Flow.StaleBelow ⟨openedConn, 0, 0⟩ flowRun := by
    refine ⟨fun seg hop htakes => ?_, fun s hs => ?_⟩
    · cases hop
      exact absurd htakes (by decide)
    cases hs
    refine ⟨fun seg hop => (by cases hop), fun s hs => ?_⟩
    cases hs
    refine ⟨fun seg hop _ hneg => ?_, fun s hs => ?_⟩
    · cases hop
      exact absurd hneg (by decide)
    cases hs
    exact ⟨fun seg hop => (by cases hop), fun _ _ => trivial⟩
  exact ⟨hstale, tcp_flow_control openedConn opened_openedConn flowRun hstale⟩

/-- The first ACK arrives again after the 3 bytes were acknowledged : its window of 4 bytes is
counted from there, and one byte goes beyond the edge that the peer never moved. -/
theorem not_tcp_flow_control :
    [peerAck 2 4, peerAck 5 1].Pairwise NoShrink ∧
      ¬ Along Flow.next Flow.Below ⟨openedConn, 0, 0⟩
        [⟨0, .segment (peerAck 2 4)⟩, ⟨0, .send [7, 7, 7]⟩, ⟨0, .segment (peerAck 5 1)⟩,
          ⟨0, .segment (peerAck 2 4)⟩, ⟨0, .send [7, 7]⟩] := by
  refine ⟨by unfold NoShrink; decide, fun h => ?_⟩
  have hsend := ((((h.2 _ rfl).2 _ rfl).2 _ rfl).2 _ rfl).1
  exact absurd (hsend [7, 7] rfl 1 (by decide)) (by decide)

end VernisOS
