import VernisOS.Lib.Run
import VernisOS.TcpReorder

/-!
# When TCP gives up

`tcp_tick` counts the handshake and the data it sends again in one counter. `Tries` is a
connection with the two counts apart : `handshake` since it was opened, `retries` since it became
ESTABLISHED, and an ACK that advances `snd_una` ends both. Their sum is `retransmit_count`, so a
connection is given up after eight retransmissions of its head exactly if none of the handshake
is still counted then (`gives_up_iff`).
-/

open Run

namespace VernisOS

namespace TcpControlBlock

variable {tcb tcb' : TcpControlBlock}

instance : DecidablePred Opening :=
  fun _ => inferInstanceAs (Decidable (_ ∨ _))

/-- A state in which data is sent again. -/
def Transfer (s : TcpState) : Prop :=
  s = .established ∨ s = .closeWait

instance : DecidablePred Transfer :=
  fun _ => inferInstanceAs (Decidable (_ ∨ _))

/-- `tcb'` has the state, the count and the window's start of `tcb`. -/
structure SameTries (tcb tcb' : TcpControlBlock) : Prop where
  state : tcb'.state = tcb.state
  retransmitCount : tcb'.retransmitCount = tcb.retransmitCount
  sndUna : tcb'.sndUna = tcb.sndUna

theorem SameTries.refl (tcb : TcpControlBlock) : SameTries tcb tcb :=
  ⟨rfl, rfl, rfl⟩

theorem SameTries.trans {tcb'' : TcpControlBlock} (h : SameTries tcb tcb')
    (h' : SameTries tcb' tcb'') : SameTries tcb tcb'' :=
  ⟨h'.state.trans h.state, h'.retransmitCount.trans h.retransmitCount, h'.sndUna.trans h.sndUna⟩

theorem sameTries_tcpOutputSeq (env : TcpEnv) (tcb : TcpControlBlock) (flags : UInt8)
    (payload : List UInt8) (seq : UInt32) :
    SameTries tcb (tcpOutputSeq env tcb flags payload seq).1 := by
  obtain ⟨w, hw⟩ := tcpOutputSeq_fst env tcb flags payload seq
  rw [hw]
  exact ⟨rfl, rfl, rfl⟩

theorem sameTries_tcpSend (env : TcpEnv) (tcb : TcpControlBlock) (buf : List UInt8) :
    SameTries tcb (tcpSend env tcb buf).2.1 := by
  unfold tcpSend
  split
  · exact SameTries.refl tcb
  · split
    · exact SameTries.refl tcb
    · dsimp only
      split
      · exact SameTries.refl tcb
      · have hsent := fun t payload => sameTries_tcpOutputSeq env t (tcpFlagPsh ||| tcpFlagAck)
          payload t.seqNum
        have hqueued := fun bytes => hsent (tcb.queue bytes) bytes
        exact ⟨(hqueued _).state, (hqueued _).retransmitCount, (hqueued _).sndUna⟩

theorem sameTries_tcpRecv (env : TcpEnv) (tcb : TcpControlBlock) (maxlen : Int) :
    SameTries tcb (tcpRecv env tcb maxlen).2.2.1 := by
  unfold tcpRecv
  split
  · exact SameTries.refl tcb
  · split
    · exact SameTries.refl tcb
    · dsimp only
      split
      · have hsent := sameTries_tcpOutputSeq env (tcb.dropRx (min tcb.rxBuf.length maxlen.toNat))
          tcpFlagAck [] tcb.seqNum
        exact ⟨hsent.state, hsent.retransmitCount, hsent.sndUna⟩
      · exact ⟨rfl, rfl, rfl⟩

/-- A close leaves the states in which anything is sent again. -/
theorem state_tcpClose (env : TcpEnv) (tcb : TcpControlBlock) :
    ¬ Opening (tcpClose env tcb).1.state ∧ ¬ Transfer (tcpClose env tcb).1.state := by
  rcases tcpClose_cases env tcb with he | ⟨s, hs, hq, -⟩
  · have hstate : (tcpClose env tcb).1.state = .closed := by
      rw [he]
      rfl
    rw [hstate]
    decide
  · have hstate : (tcpClose env tcb).1.state = s := hq.state
    rw [hstate]
    rcases hs with ⟨-, rfl⟩ | ⟨-, rfl⟩ <;> decide

/-! ## A tick -/

/-- The time after which the head is sent again. -/
def rto (tcb : TcpControlBlock) : UInt32 :=
  (120 : UInt32) <<< (if tcb.retransmitCount < 4 then tcb.retransmitCount else 4).toUInt32

/-- A tick at `now` finds data in flight, its time over and the count at its maximum. -/
def TimedOut (tcb : TcpControlBlock) (now : UInt32) : Prop :=
  Transfer tcb.state ∧ 0 < tcb.inflight ∧ tcb.rto < now - tcb.rtoTick ∧
    ¬ tcb.retransmitCount < 8

/-- One segment is sent again and counted, below `n`. -/
structure SentAgain (n : UInt8) (tcb : TcpControlBlock)
    (r : TcpControlBlock × List TcpSegment) : Prop where
  below : tcb.retransmitCount < n
  state : r.1.state = tcb.state
  retransmitCount : r.1.retransmitCount = tcb.retransmitCount + 1
  sndUna : r.1.sndUna = tcb.sndUna
  sent : r.2.length = 1

theorem sentAgain_tcpOutputSeq {env : TcpEnv} (henv : env.ipOutput = true) {n : UInt8}
    (h : tcb.retransmitCount < n) (flags : UInt8) {payload : List UInt8}
    (hlen : payload.length ≤ tcpMaxSeg) (seq : UInt32) (f : TcpControlBlock → TcpControlBlock)
    (hf : ∀ t, (f t).state = t.state ∧ (f t).retransmitCount = t.retransmitCount + 1 ∧
      (f t).sndUna = t.sndUna) :
    SentAgain n tcb (f (tcpOutputSeq env tcb flags payload seq).1,
      (tcpOutputSeq env tcb flags payload seq).2) := by
  have hsame := sameTries_tcpOutputSeq env tcb flags payload seq
  obtain ⟨seg, hseg⟩ := tcpOutputSeq_snd env henv tcb flags seq hlen
  obtain ⟨hstate, hcount, huna⟩ := hf (tcpOutputSeq env tcb flags payload seq).1
  refine ⟨h, hstate.trans hsame.state, ?_, huna.trans hsame.sndUna, ?_⟩
  · rw [hcount, hsame.retransmitCount]
  · rw [hseg]
    rfl

/-- A tick during the handshake is idle, sends again, or gives up. -/
theorem tick_opening (env : TcpEnv) (henv : env.ipOutput = true) (h : Opening tcb.state) :
    tcpTick env tcb = (tcb, []) ∨ SentAgain 5 tcb (tcpTick env tcb) ∨
      (tcpTick env tcb).1.state = .closed ∧ (tcpTick env tcb).2 = [] := by
  have hcount : ∀ t : TcpControlBlock,
      ((t.setActivity env.now).countRetransmit.setActivity env.now).state = t.state ∧
        ((t.setActivity env.now).countRetransmit.setActivity env.now).retransmitCount =
          t.retransmitCount + 1 ∧
        ((t.setActivity env.now).countRetransmit.setActivity env.now).sndUna = t.sndUna :=
    fun _ => ⟨rfl, rfl, rfl⟩
  unfold tcpTick
  rcases h with hs | hs <;> rw [hs] <;> dsimp only
  · split
    · split
      · next hbelow =>
        exact Or.inr (Or.inl (sentAgain_tcpOutputSeq henv hbelow tcpFlagSyn (by decide) tcb.seqNum
          (fun t => (t.setActivity env.now).countRetransmit.setActivity env.now) hcount))
      · exact Or.inr (Or.inr ⟨rfl, rfl⟩)
    · exact Or.inl rfl
  · split
    · split
      · next hbelow =>
        exact Or.inr (Or.inl (sentAgain_tcpOutputSeq henv hbelow (tcpFlagSyn ||| tcpFlagAck)
          (by decide) tcb.seqNum
          (fun t => (t.setActivity env.now).countRetransmit.setActivity env.now) hcount))
      · exact Or.inr (Or.inr ⟨rfl, rfl⟩)
    · exact Or.inl rfl

theorem length_headBytes_le (tcb : TcpControlBlock) : tcb.headBytes.length ≤ tcpMaxSeg := by
  rw [headBytes, Ring.get, List.length_map, List.length_range]
  split
  · next hlt => exact Nat.le_of_lt hlt
  · exact Nat.le_refl _

/-- A tick of an open connection is idle, sends the head again, or gives up when it has timed
out. -/
theorem tick_transfer (env : TcpEnv) (henv : env.ipOutput = true) (h : Transfer tcb.state) :
    ¬ TimedOut tcb env.now ∧ (tcpTick env tcb = (tcb, []) ∨ SentAgain 8 tcb (tcpTick env tcb)) ∨
      TimedOut tcb env.now ∧ (tcpTick env tcb).1.state = .closed ∧ (tcpTick env tcb).2 = [] := by
  have htick : tcpTick env tcb =
      if 0 < tcb.inflight then
        if tcb.rto < env.now - tcb.rtoTick then
          if tcb.retransmitCount < 8 then
            ((tcpRetransmitHead env tcb).1.countRetransmit.setRto env.now,
              (tcpRetransmitHead env tcb).2)
          else (tcb.setState .closed, [])
        else (tcb, [])
      else (tcb, []) := by
    unfold tcpTick
    rcases h with hs | hs <;> rw [hs] <;> rfl
  rw [htick]
  by_cases hflight : 0 < tcb.inflight
  · rw [if_pos hflight]
    by_cases hover : tcb.rto < env.now - tcb.rtoTick
    · rw [if_pos hover]
      by_cases hbelow : tcb.retransmitCount < 8
      · rw [if_pos hbelow]
        refine Or.inl ⟨fun hout => hout.2.2.2 hbelow, Or.inr ?_⟩
        exact sentAgain_tcpOutputSeq henv hbelow (tcpFlagPsh ||| tcpFlagAck)
          (length_headBytes_le tcb) tcb.sndUna (fun t => t.countRetransmit.setRto env.now)
          fun _ => ⟨rfl, rfl, rfl⟩
      · rw [if_neg hbelow]
        exact Or.inr ⟨⟨h, hflight, hover, hbelow⟩, rfl, rfl⟩
    · rw [if_neg hover]
      exact Or.inl ⟨fun hout => hover hout.2.2.1, Or.inl rfl⟩
  · rw [if_neg hflight]
    exact Or.inl ⟨fun hout => hflight hout.2.1, Or.inl rfl⟩

/-! ## A segment -/

/-- An ACK advances `snd_una` and ends the count, or keeps both. -/
theorem tcpAckAdvance_tries (env : TcpEnv) (tcb : TcpControlBlock) (ack : UInt32) (wnd : UInt16) :
    (tcpAckAdvance env tcb ack wnd).state = tcb.state ∧
      ((tcpAckAdvance env tcb ack wnd).retransmitCount = tcb.retransmitCount ∧
          (tcpAckAdvance env tcb ack wnd).sndUna = tcb.sndUna ∨
        (tcpAckAdvance env tcb ack wnd).retransmitCount = 0 ∧
          (tcpAckAdvance env tcb ack wnd).sndUna ≠ tcb.sndUna) := by
  unfold tcpAckAdvance
  dsimp only
  split
  · next hnew =>
    refine ⟨rfl, Or.inr ⟨rfl, ?_⟩⟩
    intro heq
    have hack : ack = tcb.sndUna := heq
    rw [hack, UInt32.sub_self] at hnew
    exact absurd hnew.1 (UInt32.lt_irrefl 0)
  · exact ⟨rfl, Or.inl ⟨rfl, rfl⟩⟩

theorem sameTries_receiveData (tcb : TcpControlBlock) (seq : UInt32) (data : List UInt8) :
    SameTries tcb (tcb.receiveData seq data) := by
  unfold receiveData
  dsimp only
  split
  · split <;> exact ⟨rfl, rfl, rfl⟩
  · split <;> exact ⟨rfl, rfl, rfl⟩

/-- From `tcb` to `tcb'` an ACK has ended the count, or it is kept. -/
def Advanced (tcb tcb' : TcpControlBlock) : Prop :=
  tcb'.retransmitCount = tcb.retransmitCount ∧ tcb'.sndUna = tcb.sndUna ∨
    tcb'.retransmitCount = 0 ∧ tcb'.sndUna ≠ tcb.sndUna

theorem Advanced.same {tcb'' : TcpControlBlock} (h : Advanced tcb tcb')
    (hcount : tcb''.retransmitCount = tcb'.retransmitCount) (huna : tcb''.sndUna = tcb'.sndUna) :
    Advanced tcb tcb'' := by
  rw [Advanced, hcount, huna]
  exact h

theorem advanced_ack (env : TcpEnv) (tcb : TcpControlBlock) (seg : TcpSegment) :
    (if hasFlag seg.flags tcpFlagAck then tcpAckAdvance env tcb seg.ackNum seg.window
        else tcb).state = tcb.state ∧
      Advanced tcb (if hasFlag seg.flags tcpFlagAck then
        tcpAckAdvance env tcb seg.ackNum seg.window else tcb) := by
  split
  · exact tcpAckAdvance_tries env tcb seg.ackNum seg.window
  · exact ⟨rfl, Or.inl ⟨rfl, rfl⟩⟩

theorem handleEstablished_tries (env : TcpEnv) (tcb : TcpControlBlock) (seg : TcpSegment)
    (hs : tcb.state = .established) :
    ((handleEstablished env tcb seg).1.state = .established ∨
        (handleEstablished env tcb seg).1.state = .closeWait) ∧
      Advanced tcb (handleEstablished env tcb seg).1 := by
  constructor
  · rw [(handleEstablished_rx env tcb seg).2]
    split
    · exact Or.inr rfl
    · exact Or.inl hs
  · have hacked := (advanced_ack env tcb seg).2
    unfold handleEstablished
    dsimp only
    set t := if hasFlag seg.flags tcpFlagAck then tcpAckAdvance env tcb seg.ackNum seg.window
      else tcb
    set r := if 0 < seg.payload.length then
      tcpSendAck env (t.receiveData seg.seqNum seg.payload) else (t, []) with hr
    have hdata : Advanced tcb r.1 := by
      rw [hr]
      split
      · have hreceived := sameTries_receiveData t seg.seqNum seg.payload
        have hsent := hreceived.trans (sameTries_tcpOutputSeq env _ tcpFlagAck []
          (t.receiveData seg.seqNum seg.payload).seqNum)
        exact hacked.same hsent.retransmitCount hsent.sndUna
      · exact hacked
    split
    · have hsent := sameTries_tcpOutputSeq env (r.1.setAck (r.1.ackNum + 1)) tcpFlagAck []
        (r.1.setAck (r.1.ackNum + 1)).seqNum
      exact hdata.same hsent.retransmitCount hsent.sndUna
    · exact hdata

theorem not_transfer_ending (p : Prop) [Decidable p] :
    ¬ Transfer (if p then .closed else .closing) := by
  split <;> decide

/-- What a segment does to the count : nothing in the handshake, what its ACK says afterwards. -/
theorem handle_tries (env : TcpEnv) (tcb : TcpControlBlock) (seg : TcpSegment) :
    (¬ Opening (tcpHandleSegment env tcb seg).1.state ∧
        ¬ Transfer (tcpHandleSegment env tcb seg).1.state) ∨
      (Opening tcb.state ∧
        (tcpHandleSegment env tcb seg).1.retransmitCount = tcb.retransmitCount ∧
        ((tcpHandleSegment env tcb seg).1.state = tcb.state ∨
          (tcpHandleSegment env tcb seg).1.state = .established)) ∨
      (Transfer tcb.state ∧
        ((tcpHandleSegment env tcb seg).1.state = tcb.state ∨
          (tcpHandleSegment env tcb seg).1.state = .closeWait) ∧
        Advanced tcb (tcpHandleSegment env tcb seg).1) := by
  unfold tcpHandleSegment
  split
  · refine Or.inl ?_
    change ¬ Opening .closed ∧ ¬ Transfer .closed
    decide
  cases hs : tcb.state with
  | synSent =>
    refine Or.inr (Or.inl ⟨Or.inl rfl, ?_⟩)
    dsimp only
    split
    · have hsent := sameTries_tcpOutputSeq env ((((tcb.setSeq (tcb.seqNum + 1)).setAck
        (seg.seqNum + 1)).openSendWindow seg.window env.now).setState .established) tcpFlagAck []
        (tcb.seqNum + 1)
      exact ⟨hsent.retransmitCount, Or.inr hsent.state⟩
    · exact ⟨rfl, Or.inl hs⟩
  | synReceived =>
    refine Or.inr (Or.inl ⟨Or.inr rfl, ?_⟩)
    dsimp only
    split
    · exact ⟨rfl, Or.inr rfl⟩
    · exact ⟨rfl, Or.inl hs⟩
  | established =>
    exact Or.inr (Or.inr ⟨Or.inl rfl, handleEstablished_tries env tcb seg hs⟩)
  | closeWait =>
    obtain ⟨hstate, hadvanced⟩ := advanced_ack env tcb seg
    exact Or.inr (Or.inr ⟨Or.inr rfl, Or.inl (hstate.trans hs), hadvanced⟩)
  | finWait1 =>
    refine Or.inl ?_
    dsimp only
    set t := if hasFlag seg.flags tcpFlagAck = true ∧ seg.ackNum = tcb.seqNum + 1 then
      (tcb.setSeq (tcb.seqNum + 1)).setState .finWait2 else tcb with ht
    split
    · exact ⟨not_opening_ending _, not_transfer_ending _⟩
    · rw [ht]
      split
      · change ¬ Opening .finWait2 ∧ ¬ Transfer .finWait2
        decide
      · dsimp only
        rw [hs]
        decide
  | finWait2 =>
    refine Or.inl ?_
    dsimp only
    split
    · change ¬ Opening .closed ∧ ¬ Transfer .closed
      decide
    · dsimp only
      rw [hs]
      decide
  | closing | lastAck =>
    refine Or.inl ?_
    dsimp only
    split
    · change ¬ Opening .closed ∧ ¬ Transfer .closed
      decide
    · dsimp only
      rw [hs]
      decide
  | closed | listen | timeWait =>
    refine Or.inl ?_
    dsimp only
    rw [hs]
    decide

end TcpControlBlock

/-! ## The two counts apart -/

/-- A connection, with what was sent again on it. -/
structure Tries where
  conn : Conn
  /-- Retransmissions of the handshake, since no ACK has advanced `snd_una`. -/
  handshake : ℕ
  /-- Retransmissions of the head, since the connection became ESTABLISHED or an ACK has advanced
  `snd_una`. -/
  retries : ℕ

namespace Tries

open TcpControlBlock

variable {g : Tries} {i : ConnInput}

/-- One event. What a tick sends is a retransmission. -/
def step (g : Tries) (i : ConnInput) : Tries :=
  let (conn, out) := connStep g.conn i
  match i.op with
  | .tick =>
    if Opening g.conn.tcb.state then ⟨conn, g.handshake + out.length, g.retries⟩
    else ⟨conn, g.handshake, g.retries + out.length⟩
  | .segment _ =>
    if Transfer g.conn.tcb.state ∧ conn.tcb.sndUna ≠ g.conn.tcb.sndUna then ⟨conn, 0, 0⟩
    else if g.conn.tcb.state ≠ .established ∧ conn.tcb.state = .established then
      ⟨conn, g.handshake, 0⟩
    else ⟨conn, g.handshake, g.retries⟩
  | _ => ⟨conn, g.handshake, g.retries⟩

/-- The connection after an event. -/
def next (g : Tries) (i : ConnInput) : Option Tries :=
  some (g.step i)

/-- A tick gives an open connection up only after eight retransmissions of its head. -/
def GivesUpLate (g : Tries) (i : ConnInput) : Prop :=
  i.op = .tick → Transfer g.conn.tcb.state → (g.step i).conn.tcb.state = .closed → g.retries = 8

/-- When a tick finds the connection timed out, no retransmission of the handshake is counted. -/
def CountsOwn (g : Tries) (i : ConnInput) : Prop :=
  i.op = .tick → g.conn.tcb.TimedOut i.now → g.handshake = 0

/-- The counter is the sum of the two counts, at most eight. -/
structure Counted (g : Tries) : Prop where
  sum : Opening g.conn.tcb.state ∨ Transfer g.conn.tcb.state →
    g.conn.tcb.retransmitCount.toNat = g.handshake + g.retries ∧ g.handshake + g.retries ≤ 8
  opening : Opening g.conn.tcb.state → g.retries = 0

theorem conn_step (g : Tries) (i : ConnInput) : (g.step i).conn = (connStep g.conn i).1 := by
  unfold step
  dsimp only
  split
  · split <;> rfl
  · split
    · rfl
    · split <;> rfl
  · rfl

/-- In other states the counter does not matter. -/
theorem counted_ended (h : ¬ Opening g.conn.tcb.state ∧ ¬ Transfer g.conn.tcb.state) :
    Counted g :=
  ⟨fun hs => absurd hs (not_or.mpr h), fun hs => absurd hs h.1⟩

/-- An event that sends nothing again and acknowledges nothing. -/
theorem Counted.same {g' : Tries} (h : Counted g)
    (hsame : SameTries g.conn.tcb g'.conn.tcb) (hhand : g'.handshake = g.handshake)
    (hretries : g'.retries = g.retries) : Counted g' := by
  constructor
  · rw [hsame.state, hsame.retransmitCount, hhand, hretries]
    exact h.sum
  · rw [hsame.state, hretries]
    exact h.opening

/-- A counted retransmission. -/
theorem toNat_count_succ {n m : UInt8} (h : n < m) : (n + 1).toNat = n.toNat + 1 := by
  have hlt : n.toNat < m.toNat := UInt8.lt_iff_toNat_lt.mp h
  have hm := m.toNat_lt
  rw [UInt8.toNat_add]
  change (n.toNat + 1) % 256 = _
  omega

theorem counted_tick (h : Counted g) (now : UInt32) : Counted (g.step ⟨now, .tick⟩) := by
  have hconn : (connStep g.conn ⟨now, .tick⟩).1.tcb = (tcpTick ⟨true, now⟩ g.conn.tcb).1 := rfl
  have hout : (connStep g.conn ⟨now, .tick⟩).2 = (tcpTick ⟨true, now⟩ g.conn.tcb).2 := rfl
  by_cases hopen : Opening g.conn.tcb.state
  · have hstep : g.step ⟨now, .tick⟩ = ⟨(connStep g.conn ⟨now, .tick⟩).1,
        g.handshake + (tcpTick ⟨true, now⟩ g.conn.tcb).2.length, g.retries⟩ := if_pos hopen
    rw [hstep]
    rcases tick_opening ⟨true, now⟩ rfl hopen with hidle | hsent | ⟨hclosed, -⟩
    · refine h.same ?_ ?_ rfl
      · rw [hconn, hidle]
        exact SameTries.refl _
      · rw [hidle]
        rfl
    · obtain ⟨hsum, -⟩ := h.sum (Or.inl hopen)
      have hzero := h.opening hopen
      have hbelow : g.conn.tcb.retransmitCount.toNat < 5 := UInt8.lt_iff_toNat_lt.mp hsent.below
      refine ⟨fun _ => ?_, fun _ => hzero⟩
      rw [hconn, hsent.retransmitCount, toNat_count_succ hsent.below, hsent.sent]
      dsimp only
      omega
    · refine counted_ended ?_
      rw [hconn, hclosed]
      decide
  · have hstep : g.step ⟨now, .tick⟩ = ⟨(connStep g.conn ⟨now, .tick⟩).1, g.handshake,
        g.retries + (tcpTick ⟨true, now⟩ g.conn.tcb).2.length⟩ := if_neg hopen
    rw [hstep]
    by_cases htransfer : Transfer g.conn.tcb.state
    · rcases tick_transfer ⟨true, now⟩ rfl htransfer with
        ⟨-, hidle | hsent⟩ | ⟨-, hclosed, -⟩
      · refine h.same ?_ rfl ?_
        · rw [hconn, hidle]
          exact SameTries.refl _
        · rw [hidle]
          rfl
      · obtain ⟨hsum, -⟩ := h.sum (Or.inr htransfer)
        have hbelow : g.conn.tcb.retransmitCount.toNat < 8 := UInt8.lt_iff_toNat_lt.mp hsent.below
        refine ⟨fun _ => ?_, fun hs => ?_⟩
        · rw [hconn, hsent.retransmitCount, toNat_count_succ hsent.below, hsent.sent]
          dsimp only
          omega
        · rw [hconn, hsent.state] at hs
          exact absurd hs hopen
      · refine counted_ended ?_
        rw [hconn, hclosed]
        decide
    · refine counted_ended ?_
      rw [hconn]
      rcases (ticked_tcpTick ⟨true, now⟩ g.conn.tcb).1 with hq | he
      · rw [hq.state]
        exact ⟨hopen, htransfer⟩
      · rw [he]
        change ¬ Opening .closed ∧ ¬ Transfer .closed
        decide

theorem counted_segment (h : Counted g) (now : UInt32) (seg : TcpSegment) :
    Counted (g.step ⟨now, .segment seg⟩) := by
  set conn := (connStep g.conn ⟨now, .segment seg⟩).1 with hconn
  have htcb : conn.tcb = (tcpHandleSegment ⟨true, now⟩ g.conn.tcb seg).1 := rfl
  have hstep : g.step ⟨now, .segment seg⟩ =
      if Transfer g.conn.tcb.state ∧ conn.tcb.sndUna ≠ g.conn.tcb.sndUna then ⟨conn, 0, 0⟩
      else if g.conn.tcb.state ≠ .established ∧ conn.tcb.state = .established then
        ⟨conn, g.handshake, 0⟩
      else ⟨conn, g.handshake, g.retries⟩ := rfl
  rcases handle_tries ⟨true, now⟩ g.conn.tcb seg with hended | ⟨hopen, hcount, hstate⟩ |
    ⟨htransfer, hstate, hadvanced⟩
  · refine counted_ended ?_
    rw [conn_step, ← hconn, htcb]
    exact hended
  · have hnot : ¬ Transfer g.conn.tcb.state := by
      rcases hopen with hs | hs <;> rw [hs] <;> decide
    rw [hstep, if_neg fun hand => hnot hand.1]
    have hzero := h.opening hopen
    have hsum := h.sum (Or.inl hopen)
    rw [← hcount, ← htcb] at hsum
    split
    · next hbecomes =>
      rw [hzero] at hsum
      refine ⟨fun _ => hsum, fun _ => rfl⟩
    · exact ⟨fun _ => hsum, fun _ => hzero⟩
  · have hnot : ¬ Opening conn.tcb.state := by
      rw [htcb]
      rcases hstate with hs | hs <;> rw [hs]
      · rcases htransfer with hs | hs <;> rw [hs] <;> decide
      · decide
    have hagain : ¬ (g.conn.tcb.state ≠ .established ∧ conn.tcb.state = .established) := by
      rintro ⟨hne, hbecomes⟩
      rw [htcb] at hbecomes
      rcases hstate with hs | hs
      · exact hne (hs.symm.trans hbecomes)
      · rw [hs] at hbecomes
        exact absurd hbecomes (by decide)
    have hsum := h.sum (Or.inr htransfer)
    rcases hadvanced with ⟨hcount, huna⟩ | ⟨hcount, huna⟩
    · rw [hstep, if_neg fun hand => hand.2 huna, if_neg hagain]
      rw [← hcount, ← htcb] at hsum
      exact ⟨fun _ => hsum, fun hs => absurd hs hnot⟩
    · rw [hstep, if_pos ⟨htransfer, huna⟩]
      refine ⟨fun _ => ?_, fun _ => rfl⟩
      dsimp only
      rw [htcb, hcount]
      exact ⟨rfl, Nat.zero_le _⟩

/-- Every event keeps the counter the sum of the two counts. -/
theorem counted_step (h : Counted g) (i : ConnInput) : Counted (g.step i) := by
  obtain ⟨now, op⟩ := i
  cases op with
  | segment seg => exact counted_segment h now seg
  | tick => exact counted_tick h now
  | send buf => exact h.same (sameTries_tcpSend ⟨true, now⟩ g.conn.tcb buf) rfl rfl
  | recv maxlen => exact h.same (sameTries_tcpRecv ⟨true, now⟩ g.conn.tcb maxlen) rfl rfl
  | close => exact counted_ended (state_tcpClose ⟨true, now⟩ g.conn.tcb)

/-- A tick gives the connection up after eight retransmissions of its own if none of the
handshake is counted. -/
theorem givesUpLate_iff (h : Counted g) (i : ConnInput) : GivesUpLate g i ↔ CountsOwn g i := by
  obtain ⟨now, op⟩ := i
  by_cases hop : op = .tick
  swap
  · exact iff_of_true (fun htick => absurd htick hop) fun htick => absurd htick hop
  obtain rfl := hop
  have hclosed : Transfer g.conn.tcb.state →
      ((g.step ⟨now, .tick⟩).conn.tcb.state = .closed ↔ g.conn.tcb.TimedOut now) := by
    intro htransfer
    have htcb : (g.step ⟨now, .tick⟩).conn.tcb = (tcpTick ⟨true, now⟩ g.conn.tcb).1 := by
      rw [conn_step]
      rfl
    have hopen : g.conn.tcb.state ≠ .closed := by
      rcases htransfer with hs | hs <;> rw [hs] <;> decide
    rw [htcb]
    rcases tick_transfer ⟨true, now⟩ rfl htransfer with
      ⟨hnot, hidle | hsent⟩ | ⟨hout, hclosed, -⟩
    · rw [hidle]
      exact iff_of_false hopen hnot
    · rw [hsent.state]
      exact iff_of_false hopen hnot
    · exact iff_of_true hclosed hout
  have hcount : g.conn.tcb.TimedOut now → (g.retries = 8 ↔ g.handshake = 0) := by
    intro hout
    obtain ⟨hsum, hle⟩ := h.sum (Or.inr hout.1)
    have hfull : 8 ≤ g.conn.tcb.retransmitCount.toNat :=
      Nat.le_of_not_lt fun hlt => hout.2.2.2 (UInt8.lt_iff_toNat_lt.mpr hlt)
    omega
  constructor
  · intro hlate _ hout
    exact (hcount hout).mp (hlate rfl hout.1 ((hclosed hout.1).mpr hout))
  · intro hown _ htransfer hend
    have hout := (hclosed htransfer).mp hend
    exact (hcount hout).mpr (hown rfl hout)

theorem counted_of_opened {c : Conn} (h : ConnOpened c) : Counted ⟨c, 0, 0⟩ := by
  have hzero : c.tcb.retransmitCount = 0 := by
    cases h with
    | connect env localIp ip irs localPort port isn =>
      exact (sameTries_tcpOutputSeq env (activeTcb localIp localPort ip port isn) tcpFlagSyn []
        isn).retransmitCount
    | listen env listener srcIp syn isn =>
      exact (sameTries_tcpOutputSeq env (passiveTcb listener srcIp syn isn)
        (tcpFlagSyn ||| tcpFlagAck) [] isn).retransmitCount
  refine ⟨fun _ => ⟨?_, Nat.zero_le _⟩, fun _ => rfl⟩
  dsimp only
  rw [hzero]
  rfl

end Tries

/-- Over every run of a connection each tick gives up only after eight retransmissions of the
head, exactly if no tick gives up with a retransmission of the handshake in the count. -/
theorem gives_up_iff (c : Conn) (hc : ConnOpened c) (is : List ConnInput) :
    Along Tries.next Tries.GivesUpLate ⟨c, 0, 0⟩ is ↔
      Along Tries.next Tries.CountsOwn ⟨c, 0, 0⟩ is := by
  refine Along.iff_of_inv (I := Tries.Counted) (fun g i h => Tries.givesUpLate_iff h i) ?_ is _
    (Tries.counted_of_opened hc)
  intro g i g' h _ hstep
  obtain rfl := Option.some.inj hstep
  exact Tries.counted_step h i

/-- The handshake is answered after `n` retransmissions, one byte is sent, and nothing of it is
acknowledged in `m` ticks. -/
def silentRun (n m : ℕ) : List ConnInput :=
  (List.range n).map (fun k => ⟨UInt32.ofNat (121 * (k + 1)), .tick⟩) ++
    [⟨700, .segment (peerSegment 1001 2 tcpFlagAck)⟩, ⟨700, .send [7]⟩] ++
    (List.range m).map fun k => ⟨UInt32.ofNat (700 + 1921 * (k + 1)), .tick⟩

theorem gives_up_silentRun :
    ConnOpened openedConn ∧
      (Along Tries.next Tries.GivesUpLate ⟨openedConn, 0, 0⟩ (silentRun 0 9) ↔
        Along Tries.next Tries.CountsOwn ⟨openedConn, 0, 0⟩ (silentRun 0 9)) :=
  ⟨opened_openedConn, gives_up_iff openedConn opened_openedConn (silentRun 0 9)⟩

/-- Five retransmissions of the handshake leave three for the data. -/
theorem not_gives_up :
    ConnOpened openedConn ∧
      ¬ Along Tries.next Tries.GivesUpLate ⟨openedConn, 0, 0⟩ (silentRun 5 4) := by
  refine ⟨opened_openedConn, fun h => ?_⟩
  have hrun : silentRun 5 4 = silentRun 5 3 ++ [⟨700 + 1921 * 4, .tick⟩] := rfl
  rw [hrun] at h
  have hlast := (Along.append_iff (f := Tries.step).mp h).2.1 rfl
  have height := hlast (by decide) (by decide)
  exact absurd height (by decide)

end VernisOS
