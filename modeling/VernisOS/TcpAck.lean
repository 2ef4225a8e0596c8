import Mathlib.Logic.Basic
import VernisOS.Lib.Run
import VernisOS.TcpOps

/-!
# What TCP acknowledges

One connection against an arbitrary peer. `Conn` is its control block with what the peer
can count : the initial sequence number it sent, the bytes handed to the application, and
whether its FIN was taken. Outside FIN_WAIT_1 and FIN_WAIT_2 every ACK number is that
count; there, a FIN sets `ack_num` to whatever the segment says, so the runs in which every
ACK is honest are those whose FINs arrive in these states in order and without payload
(`tcp_ack_honest`, `tcp_ack_dishonest`).
-/

open Run

namespace VernisOS

/-- A call on the connection, or a segment of the peer. -/
inductive ConnOp where
  | segment (seg : TcpSegment)
  | send (buf : List UInt8)
  | recv (maxlen : Int)
  | close
  | tick

/-- An event on the connection, and the clock it happens at. -/
structure ConnInput where
  now : UInt32
  op : ConnOp

/-- A connection, with what was received on it. -/
structure Conn where
  tcb : TcpControlBlock
  /-- Initial sequence number of the peer, once it is known. -/
  irs : UInt32
  /-- Bytes returned by `tcp_recv`. -/
  returned : ℕ
  /-- The peer's FIN was taken. -/
  fin : Bool

/-- The clock and the registered output. -/
def ConnInput.env (i : ConnInput) : TcpEnv :=
  ⟨true, i.now⟩

/-- From `tcb` to `tcb'` the connection has taken the FIN of `seg` : it has left a state
that waits for one, and `ack_num` stands right behind it. -/
def finTaken (tcb tcb' : TcpControlBlock) (seg : TcpSegment) : Bool :=
  hasFlag seg.flags tcpFlagFin && !hasFlag seg.flags tcpFlagRst &&
    (decide (tcb.state = .established ∧ tcb'.state = .closeWait) ||
      decide ((tcb.state = .finWait1 ∨ tcb.state = .finWait2) ∧
        seg.seqNum + UInt32.ofNat seg.payload.length + 1 = tcb'.ackNum))

/-- One event : the connection after it, and the segments sent. -/
def connStep (c : Conn) (i : ConnInput) : Conn × List TcpSegment :=
  match i.op with
  | .segment seg =>
    let (tcb, out) := c.tcb.tcpHandleSegment i.env seg
    let irs := if c.tcb.state = .synSent ∧ tcb.state = .established then seg.seqNum else c.irs
    (⟨tcb, irs, c.returned, c.fin || finTaken c.tcb tcb seg⟩, out)
  | .send buf =>
    let (_, tcb, out) := c.tcb.tcpSend i.env buf
    ({ c with tcb := tcb }, out)
  | .recv maxlen =>
    let (_, bytes, tcb, out) := c.tcb.tcpRecv i.env maxlen
    ({ c with tcb := tcb, returned := c.returned + bytes.length }, out)
  | .close =>
    let (tcb, out) := c.tcb.tcpClose i.env
    ({ c with tcb := tcb }, out)
  | .tick =>
    let (tcb, out) := c.tcb.tcpTick i.env
    ({ c with tcb := tcb }, out)

/-- The peer's bytes received so far, in the buffer or with the application. -/
def Conn.received (c : Conn) : ℕ :=
  c.returned + c.tcb.rxBuf.length

/-- The ACK number that counts what was received, with or without the FIN. -/
def Conn.honestAck (c : Conn) (fin : Bool) : UInt32 :=
  c.irs + 1 + UInt32.ofNat c.received + if fin then 1 else 0

/-- Every ACK number sent counts what was received. Data is stored before the first segment
of an event is sent; a FIN is taken before the last one. -/
def Honest (c : Conn) (i : ConnInput) : Prop :=
  (∀ seg ∈ (connStep c i).2.dropLast, hasFlag seg.flags tcpFlagAck = true →
      seg.ackNum = (connStep c i).1.honestAck c.fin) ∧
    ∀ seg ∈ (connStep c i).2.getLast?, hasFlag seg.flags tcpFlagAck = true →
      seg.ackNum = (connStep c i).1.honestAck (connStep c i).1.fin

/-- A FIN in FIN_WAIT_1 or FIN_WAIT_2 is the next expected byte and carries no payload. -/
def FinInOrder (c : Conn) (i : ConnInput) : Prop :=
  ∀ seg, i.op = .segment seg → hasFlag seg.flags tcpFlagRst = false →
    hasFlag seg.flags tcpFlagFin = true →
    c.tcb.state = .finWait1 ∨ c.tcb.state = .finWait2 →
    seg.payload = [] ∧ seg.seqNum = c.tcb.ackNum

/-- The invariant : `ack_num` counts what was received wherever it can still be sent. -/
def AckInv (c : Conn) : Prop :=
  match c.tcb.state with
  | .synSent => c.received = 0 ∧ c.fin = false
  | .synReceived | .established | .finWait1 | .finWait2 =>
    c.fin = false ∧ c.tcb.ackNum = c.honestAck false
  | .closeWait | .lastAck => c.fin = true ∧ c.tcb.ackNum = c.honestAck true
  | _ => True

/-! ## One event -/

namespace Conn

variable {c c' : Conn} {i : ConnInput}

theorem honestAck_congr (c c' : Conn) (hirs : c'.irs = c.irs) (hrec : c'.received = c.received)
    (fin : Bool) : c'.honestAck fin = c.honestAck fin := by
  rw [honestAck, honestAck, hirs, hrec]

/-- The invariant depends on the state, `ack_num` and the counts only. -/
theorem ackInv_congr (h : AckInv c) (hs : c'.tcb.state = c.tcb.state)
    (hack : c'.tcb.ackNum = c.tcb.ackNum) (hirs : c'.irs = c.irs)
    (hrec : c'.received = c.received) (hfin : c'.fin = c.fin) : AckInv c' := by
  have hh := honestAck_congr c c' hirs hrec
  unfold AckInv at h ⊢
  rw [hs]
  cases hstate : c.tcb.state <;> simp only [hstate] at h ⊢ <;>
    first | trivial | (rw [hack, hh, hfin]; exact h) | (rw [hrec, hfin]; exact h)

theorem ackInv_closed (hs : c.tcb.state = .closed) : AckInv c := by
  unfold AckInv
  rw [hs]
  trivial

theorem honest_of_silent (h : (connStep c i).2 = []) : Honest c i := by
  unfold Honest
  rw [h]
  simp

/-- If the event takes no FIN, every segment has to count the same. -/
theorem honest_of_all (hfin : (connStep c i).1.fin = c.fin)
    (h : ∀ seg ∈ (connStep c i).2, hasFlag seg.flags tcpFlagAck = true →
      seg.ackNum = (connStep c i).1.honestAck c.fin) : Honest c i := by
  refine ⟨fun seg hs => h seg (List.dropLast_subset _ hs), fun seg hs => ?_⟩
  rw [hfin]
  exact h seg (List.mem_of_mem_getLast? hs)

/-- A single segment after the FIN, or several before it and one after. -/
theorem honest_of_append {l : List TcpSegment} {s : TcpSegment}
    (hout : (connStep c i).2 = l ++ [s])
    (hl : ∀ seg ∈ l, seg.ackNum = (connStep c i).1.honestAck c.fin)
    (hs : s.ackNum = (connStep c i).1.honestAck (connStep c i).1.fin) : Honest c i := by
  unfold Honest
  rw [hout]
  refine ⟨fun seg hseg _ => hl seg ?_, fun seg hseg _ => ?_⟩
  · rwa [List.dropLast_concat] at hseg
  · rw [List.getLast?_concat] at hseg
    obtain rfl := Option.mem_some.mp hseg
    exact hs

/-- The invariant in a state whose segments carry `ack_num`, before the FIN. -/
theorem ackNum_open (h : AckInv c) (hs : c.tcb.state = .synReceived ∨
    c.tcb.state = .established ∨ c.tcb.state = .finWait1 ∨ c.tcb.state = .finWait2) :
    c.fin = false ∧ c.tcb.ackNum = c.honestAck false := by
  unfold AckInv at h
  rcases hs with hs | hs | hs | hs <;> · rw [hs] at h; exact h

/-- The invariant in a state that has taken the FIN. -/
theorem ackNum_fin (h : AckInv c) (hs : c.tcb.state = .closeWait ∨ c.tcb.state = .lastAck) :
    c.fin = true ∧ c.tcb.ackNum = c.honestAck true := by
  unfold AckInv at h
  rcases hs with hs | hs <;> · rw [hs] at h; exact h

theorem ackInv_of_open (hs : c.tcb.state = .synReceived ∨ c.tcb.state = .established ∨
    c.tcb.state = .finWait1 ∨ c.tcb.state = .finWait2)
    (h : c.fin = false ∧ c.tcb.ackNum = c.honestAck false) : AckInv c := by
  unfold AckInv
  rcases hs with hs | hs | hs | hs <;> · rw [hs]; exact h

theorem ackInv_of_fin (hs : c.tcb.state = .closeWait ∨ c.tcb.state = .lastAck)
    (h : c.fin = true ∧ c.tcb.ackNum = c.honestAck true) : AckInv c := by
  unfold AckInv
  rcases hs with hs | hs <;> · rw [hs]; exact h

/-- More bytes counted : the honest number moves as far. -/
theorem honestAck_add {n : ℕ} (hirs : c'.irs = c.irs) (hrec : c'.received = c.received + n)
    (fin : Bool) : c'.honestAck fin = c.honestAck fin + UInt32.ofNat n := by
  rw [honestAck, honestAck, hirs, hrec, UInt32.ofNat_add]
  ac_rfl

theorem honestAck_true (c : Conn) : c.honestAck true = c.honestAck false + 1 := by
  simp [honestAck]

/-! ### Calls -/

/-- A block sends `ack_num` only in states where the invariant counts it. -/
theorem ackNum_sent (h : AckInv c) (hs : (c.tcb.state = .synReceived ∨
    c.tcb.state = .established ∨ c.tcb.state = .finWait1 ∨ c.tcb.state = .finWait2) ∨
    c.tcb.state = .closeWait) : c.tcb.ackNum = c.honestAck c.fin := by
  rcases hs with hs | hs
  · obtain ⟨hfin, hack⟩ := ackNum_open h hs
    rw [hfin, hack]
  · obtain ⟨hfin, hack⟩ := ackNum_fin h (Or.inl hs)
    rw [hfin, hack]

/-- A call that receives nothing and takes no FIN is honest if its segments carry the
`ack_num` it started with. -/
theorem honest_of_sent (h : AckInv c) (hirs : (connStep c i).1.irs = c.irs)
    (hrec : (connStep c i).1.received = c.received) (hfin : (connStep c i).1.fin = c.fin)
    (hsegs : ∀ seg ∈ (connStep c i).2, hasFlag seg.flags tcpFlagAck = true →
      seg.ackNum = c.tcb.ackNum ∧ ((c.tcb.state = .synReceived ∨ c.tcb.state = .established ∨
        c.tcb.state = .finWait1 ∨ c.tcb.state = .finWait2) ∨ c.tcb.state = .closeWait)) :
    Honest c i := by
  refine honest_of_all hfin fun seg hseg hflag => ?_
  obtain ⟨hack, hs⟩ := hsegs seg hseg hflag
  rw [honestAck_congr c _ hirs hrec, hack]
  exact ackNum_sent h hs

theorem ackNum_of_sends {tcb : TcpControlBlock} {flags : UInt8} {payload : List UInt8}
    {seq : UInt32} {seg : TcpSegment} (h : TcpControlBlock.Sends tcb flags payload seq seg)
    (hflag : hasFlag seg.flags tcpFlagAck = true) : seg.ackNum = tcb.ackNum := by
  rw [h.flags] at hflag
  rw [h.ackNum, if_pos hflag]

theorem step_send (h : AckInv c) (now : UInt32) (buf : List UInt8) :
    AckInv (connStep c ⟨now, .send buf⟩).1 ∧ Honest c ⟨now, .send buf⟩ := by
  rcases TcpControlBlock.tcpSend_cases ⟨true, now⟩ c.tcb buf with
    ⟨-, he⟩ | ⟨n, -, hs, -, -, -, hq, hsegs⟩
  · have hstep : connStep c ⟨now, .send buf⟩ = (c, []) := by
      simp only [connStep, ConnInput.env, he]
    refine ⟨by rw [hstep]; exact h, honest_of_silent (by rw [hstep])⟩
  · have hrec : (connStep c ⟨now, .send buf⟩).1.received = c.received := by
      rw [received, received]
      exact congrArg (c.returned + List.length ·) hq.rxBuf
    refine ⟨ackInv_congr h hq.state hq.ackNum rfl hrec rfl,
      honest_of_sent h rfl hrec rfl fun seg hseg hflag => ?_⟩
    refine ⟨ackNum_of_sends (hsegs seg hseg) hflag, ?_⟩
    rcases hs with hs | hs
    · exact Or.inl (Or.inr (Or.inl hs))
    · exact Or.inr hs

theorem step_recv (h : AckInv c) (now : UInt32) (maxlen : Int) :
    AckInv (connStep c ⟨now, .recv maxlen⟩).1 ∧ Honest c ⟨now, .recv maxlen⟩ := by
  obtain ⟨n, hbytes, hq, hsegs⟩ := TcpControlBlock.tcpRecv_cases ⟨true, now⟩ c.tcb maxlen
  have hrec : (connStep c ⟨now, .recv maxlen⟩).1.received = c.received := by
    have hrx : (connStep c ⟨now, .recv maxlen⟩).1.tcb.rxBuf = c.tcb.rxBuf.drop n := hq.rxBuf
    have hret : (connStep c ⟨now, .recv maxlen⟩).1.returned =
        c.returned + (c.tcb.rxBuf.take n).length := congrArg (c.returned + List.length ·) hbytes
    rw [received, received, hrx, hret, List.length_take, List.length_drop]
    omega
  refine ⟨ackInv_congr h hq.state hq.ackNum rfl hrec rfl,
    honest_of_sent h rfl hrec rfl fun seg hseg hflag => ?_⟩
  obtain ⟨hcan, hsend⟩ := hsegs seg hseg
  refine ⟨ackNum_of_sends hsend hflag, Or.inl (Or.inr ?_)⟩
  simp only [TcpControlBlock.canReceive, Bool.or_eq_true, decide_eq_true_eq, or_assoc] at hcan
  exact hcan

theorem step_close (h : AckInv c) (now : UInt32) :
    AckInv (connStep c ⟨now, .close⟩).1 ∧ Honest c ⟨now, .close⟩ := by
  rcases TcpControlBlock.tcpClose_cases ⟨true, now⟩ c.tcb with he | ⟨s, hs, hq, hsegs⟩
  · have hstep : connStep c ⟨now, .close⟩ = ({ c with tcb := c.tcb.setState .closed }, []) := by
      simp only [connStep, ConnInput.env, he]
    refine ⟨by rw [hstep]; exact ackInv_closed rfl, honest_of_silent (by rw [hstep])⟩
  · have hrec : (connStep c ⟨now, .close⟩).1.received = c.received := by
      rw [received, received]
      exact congrArg (c.returned + List.length ·) hq.rxBuf
    have hhonest := honestAck_congr c (connStep c ⟨now, .close⟩).1 rfl hrec
    constructor
    · rcases hs with ⟨hopen, rfl⟩ | ⟨hwait, rfl⟩
      · have hs' : c.tcb.state = .synReceived ∨ c.tcb.state = .established ∨
            c.tcb.state = .finWait1 ∨ c.tcb.state = .finWait2 := by
          rcases hopen with hopen | hopen
          · exact Or.inr (Or.inl hopen)
          · exact Or.inl hopen
        obtain ⟨hfin, hack⟩ := ackNum_open h hs'
        refine ackInv_of_open (Or.inr (Or.inr (Or.inl hq.state))) ⟨hfin, ?_⟩
        rw [hhonest]
        exact hq.ackNum.trans hack
      · obtain ⟨hfin, hack⟩ := ackNum_fin h (Or.inl hwait)
        refine ackInv_of_fin (Or.inr hq.state) ⟨hfin, ?_⟩
        rw [hhonest]
        exact hq.ackNum.trans hack
    · refine honest_of_sent h rfl hrec rfl fun seg hseg hflag => ?_
      refine ⟨ackNum_of_sends (hsegs seg hseg) hflag, ?_⟩
      rcases hs with ⟨hopen | hopen, -⟩ | ⟨hwait, -⟩
      · exact Or.inl (Or.inr (Or.inl hopen))
      · exact Or.inl (Or.inl hopen)
      · exact Or.inr hwait

theorem step_tick (h : AckInv c) (now : UInt32) :
    AckInv (connStep c ⟨now, .tick⟩).1 ∧ Honest c ⟨now, .tick⟩ := by
  obtain ⟨htcb, hsegs⟩ := TcpControlBlock.ticked_tcpTick ⟨true, now⟩ c.tcb
  have hrx : (connStep c ⟨now, .tick⟩).1.tcb.rxBuf = c.tcb.rxBuf := by
    rcases htcb with hq | he
    · exact hq.rxBuf
    · have hrx := congrArg TcpControlBlock.rxBuf he
      exact hrx
  have hrec : (connStep c ⟨now, .tick⟩).1.received = c.received := by
    rw [received, received, hrx]
    rfl
  constructor
  · rcases htcb with hq | he
    · exact ackInv_congr h hq.state hq.ackNum rfl hrec rfl
    · exact ackInv_closed (congrArg TcpControlBlock.state he)
  · refine honest_of_sent h rfl hrec rfl fun seg hseg hflag => ?_
    rcases hsegs seg hseg with ⟨-, hsend⟩ | ⟨hs, hsend⟩ | ⟨hs, -, hsend⟩
    · rw [hsend.flags] at hflag
      exact absurd hflag (by decide)
    · exact ⟨ackNum_of_sends hsend hflag, Or.inl (Or.inl hs)⟩
    · refine ⟨ackNum_of_sends hsend hflag, ?_⟩
      rcases hs with hs | hs
      · exact Or.inl (Or.inr (Or.inl hs))
      · exact Or.inr hs

/-! ### Segments -/

/-- A segment as an event. -/
theorem connStep_segment (c : Conn) (now : UInt32) (seg : TcpSegment) :
    connStep c ⟨now, .segment seg⟩ =
      (⟨(c.tcb.tcpHandleSegment ⟨true, now⟩ seg).1,
        if c.tcb.state = .synSent ∧
            (c.tcb.tcpHandleSegment ⟨true, now⟩ seg).1.state = .established then seg.seqNum
          else c.irs, c.returned,
        c.fin || finTaken c.tcb (c.tcb.tcpHandleSegment ⟨true, now⟩ seg).1 seg⟩,
        (c.tcb.tcpHandleSegment ⟨true, now⟩ seg).2) := rfl

theorem finTaken_eq_false (tcb tcb' : TcpControlBlock) (seg : TcpSegment)
    (h : tcb.state ≠ .established ∨ tcb'.state ≠ .closeWait)
    (h' : tcb.state ≠ .finWait1 ∧ tcb.state ≠ .finWait2) : finTaken tcb tcb' seg = false := by
  have hest : ¬ (tcb.state = .established ∧ tcb'.state = .closeWait) := by
    rintro ⟨h₁, h₂⟩
    rcases h with h | h
    · exact h h₁
    · exact h h₂
  have hwait : ¬ ((tcb.state = .finWait1 ∨ tcb.state = .finWait2) ∧
      seg.seqNum + UInt32.ofNat seg.payload.length + 1 = tcb'.ackNum) := by
    rintro ⟨h₁ | h₁, -⟩
    · exact h'.1 h₁
    · exact h'.2 h₁
  simp [finTaken, hest, hwait]

/-- A segment that changes neither buffer nor `ack_num` and sends nothing. -/
theorem step_segment_idle (h : AckInv c) {now : UInt32} {seg : TcpSegment}
    (tcb : TcpControlBlock) (hr : c.tcb.tcpHandleSegment ⟨true, now⟩ seg = (tcb, []))
    (hsyn : c.tcb.state ≠ .synSent ∨ tcb.state ≠ .established)
    (hfin : finTaken c.tcb tcb seg = false) (hack : tcb.ackNum = c.tcb.ackNum)
    (hrx : tcb.rxBuf = c.tcb.rxBuf)
    (hs : tcb.state = c.tcb.state ∨ tcb.state = .closed ∨
      (c.tcb.state = .synReceived ∨ c.tcb.state = .finWait1) ∧
        (tcb.state = .established ∨ tcb.state = .finWait2)) :
    AckInv (connStep c ⟨now, .segment seg⟩).1 ∧ Honest c ⟨now, .segment seg⟩ := by
  have hirs : ¬ (c.tcb.state = .synSent ∧ tcb.state = .established) := by
    rintro ⟨h₁, h₂⟩
    rcases hsyn with hsyn | hsyn
    · exact hsyn h₁
    · exact hsyn h₂
  have hstep : connStep c ⟨now, .segment seg⟩ = (⟨tcb, c.irs, c.returned, c.fin⟩, []) := by
    rw [connStep_segment, hr, if_neg hirs, hfin, Bool.or_false]
  have hrec : (⟨tcb, c.irs, c.returned, c.fin⟩ : Conn).received = c.received := by
    rw [received, received, hrx]
  refine ⟨?_, honest_of_silent (by rw [hstep])⟩
  rw [hstep]
  rcases hs with hs | hs | ⟨hold, hnew⟩
  · exact ackInv_congr h hs hack rfl hrec rfl
  · exact ackInv_closed hs
  · have hopen : c.tcb.state = .synReceived ∨ c.tcb.state = .established ∨
        c.tcb.state = .finWait1 ∨ c.tcb.state = .finWait2 := by
      rcases hold with hold | hold
      · exact Or.inl hold
      · exact Or.inr (Or.inr (Or.inl hold))
    obtain ⟨hf, ha⟩ := ackNum_open h hopen
    refine ackInv_of_open ?_ ⟨hf, ?_⟩
    · rcases hnew with hnew | hnew
      · exact Or.inr (Or.inl hnew)
      · exact Or.inr (Or.inr (Or.inr hnew))
    · rw [honestAck_congr c ⟨tcb, c.irs, c.returned, c.fin⟩ rfl hrec]
      exact hack.trans ha

theorem step_synSent (h : AckInv c) (hs : c.tcb.state = .synSent) {now : UInt32}
    {seg : TcpSegment} (hrst : hasFlag seg.flags tcpFlagRst = false) :
    AckInv (connStep c ⟨now, .segment seg⟩).1 ∧ Honest c ⟨now, .segment seg⟩ := by
  have hfinish := fun tcb' => finTaken_eq_false c.tcb tcb' seg
    (Or.inl (by rw [hs]; decide)) (by rw [hs]; decide)
  by_cases hack : seg.flags &&& (tcpFlagSyn ||| tcpFlagAck) = tcpFlagSyn ||| tcpFlagAck ∧
      seg.ackNum = c.tcb.seqNum + 1
  · set t := (((c.tcb.setSeq (c.tcb.seqNum + 1)).setAck (seg.seqNum + 1)).openSendWindow
      seg.window now).setState .established with ht
    have hr : c.tcb.tcpHandleSegment ⟨true, now⟩ seg =
        TcpControlBlock.tcpSendAck ⟨true, now⟩ t := by
      simp only [TcpControlBlock.tcpHandleSegment, hrst, hs, Bool.false_eq_true, if_false]
      rw [if_pos hack]
    have hq := TcpControlBlock.quiet_tcpOutputSeq ⟨true, now⟩ t tcpFlagAck [] t.seqNum
    have hstate : (TcpControlBlock.tcpSendAck ⟨true, now⟩ t).1.state = .established := hq.state
    have hstep : connStep c ⟨now, .segment seg⟩ =
        (⟨(TcpControlBlock.tcpSendAck ⟨true, now⟩ t).1, seg.seqNum, c.returned, c.fin⟩,
          (TcpControlBlock.tcpSendAck ⟨true, now⟩ t).2) := by
      rw [connStep_segment, hr, if_pos ⟨hs, hstate⟩, hfinish, Bool.or_false]
    have hinv : c.received = 0 ∧ c.fin = false := by
      unfold AckInv at h
      rw [hs] at h
      exact h
    have hrec : (connStep c ⟨now, .segment seg⟩).1.received = 0 := by
      rw [hstep, ← hinv.1]
      exact congrArg (c.returned + List.length ·) hq.rxBuf
    have hhonest : (connStep c ⟨now, .segment seg⟩).1.honestAck false = seg.seqNum + 1 := by
      rw [honestAck, hrec, hstep]
      simp
    have hnew : t.ackNum = seg.seqNum + 1 := rfl
    constructor
    · refine ackInv_of_open ?_ ⟨?_, ?_⟩
      · rw [hstep]
        exact Or.inr (Or.inl hstate)
      · rw [hstep]
        exact hinv.2
      · rw [hhonest, hstep]
        exact hq.ackNum
    · refine honest_of_all (by rw [hstep]) fun s hsg hflag => ?_
      rw [hinv.2, hhonest]
      rw [hstep] at hsg
      exact (ackNum_of_sends (TcpControlBlock.sends_of_mem hsg) hflag).trans hnew
  · refine step_segment_idle h c.tcb ?_ ?_ (hfinish _) rfl rfl (Or.inl rfl)
    · simp only [TcpControlBlock.tcpHandleSegment, hrst, hs, Bool.false_eq_true, if_false]
      rw [if_neg hack]
    · exact Or.inr (by rw [hs]; decide)

theorem step_established (h : AckInv c) (hs : c.tcb.state = .established) {now : UInt32}
    {seg : TcpSegment} (hrst : hasFlag seg.flags tcpFlagRst = false) :
    AckInv (connStep c ⟨now, .segment seg⟩).1 ∧ Honest c ⟨now, .segment seg⟩ := by
  have hr : c.tcb.tcpHandleSegment ⟨true, now⟩ seg =
      TcpControlBlock.handleEstablished ⟨true, now⟩ c.tcb seg := by
    simp only [TcpControlBlock.tcpHandleSegment, hrst, hs, Bool.false_eq_true, if_false]
  have hnosyn : ¬ (c.tcb.state = .synSent ∧ (TcpControlBlock.handleEstablished ⟨true, now⟩ c.tcb
      seg).1.state = .established) := fun hc => by rw [hs] at hc; exact absurd hc.1 (by decide)
  obtain ⟨hopen, hackNum⟩ := ackNum_open h (Or.inr (Or.inl hs))
  obtain ⟨n, hlen, hcase⟩ :=
    TcpControlBlock.handleEstablished_count ⟨true, now⟩ rfl c.tcb seg
  have hirs : (connStep c ⟨now, .segment seg⟩).1.irs = c.irs := by
    rw [connStep_segment, hr, if_neg hnosyn]
  have hrec : (connStep c ⟨now, .segment seg⟩).1.received = c.received + n := by
    have hsum : (connStep c ⟨now, .segment seg⟩).1.received = c.returned +
        (TcpControlBlock.handleEstablished ⟨true, now⟩ c.tcb seg).1.rxBuf.length := by
      rw [connStep_segment, hr]
      rfl
    rw [hsum, hlen, received, Nat.add_assoc]
  have hhonest := honestAck_add hirs hrec
  rcases hcase with ⟨hstate, hack, hsegs⟩ | ⟨hflag, hstate, hack, l, s, hout, hl, hsack⟩
  · have hnofin : (connStep c ⟨now, .segment seg⟩).1.fin = c.fin := by
      rw [connStep_segment, hr]
      dsimp only
      rw [finTaken_eq_false _ _ _ (Or.inr (by rw [hstate, hs]; decide)) (by rw [hs]; decide),
        Bool.or_false]
    have hnew : (connStep c ⟨now, .segment seg⟩).1.tcb.ackNum =
        (connStep c ⟨now, .segment seg⟩).1.honestAck false := by
      rw [hhonest, ← hackNum, ← hack, connStep_segment, hr]
    constructor
    · refine ackInv_of_open ?_ ⟨hnofin.trans hopen, hnew⟩
      rw [connStep_segment, hr]
      exact Or.inr (Or.inl (hstate.trans hs))
    · refine honest_of_all hnofin fun sg hsg _ => ?_
      rw [connStep_segment, hr] at hsg
      rw [hopen, hhonest, hsegs sg hsg, hackNum]
  · have hfin : (connStep c ⟨now, .segment seg⟩).1.fin = true := by
      rw [connStep_segment, hr]
      simp [finTaken, hflag, hrst, hs, hstate]
    have hnew : (connStep c ⟨now, .segment seg⟩).1.honestAck true =
        c.tcb.ackNum + UInt32.ofNat n + 1 := by
      rw [honestAck_true, hhonest, hackNum]
    constructor
    · refine ackInv_of_fin ?_ ⟨hfin, ?_⟩
      · rw [connStep_segment, hr]
        exact Or.inl hstate
      · rw [hnew, ← hack, connStep_segment, hr]
    · refine honest_of_append (l := l) (s := s) ?_ (fun sg hsg => ?_) ?_
      · rw [connStep_segment, hr]
        exact hout
      · rw [hopen, hhonest, hl sg hsg, hackNum]
      · rw [hfin, hnew, hsack]

/-- A FIN in one of the two states that wait for it, in order. -/
theorem step_takeFin (h : AckInv c) (hs : c.tcb.state = .finWait1 ∨ c.tcb.state = .finWait2)
    {now : UInt32} {seg : TcpSegment} {t : TcpControlBlock} {f : TcpControlBlock → TcpControlBlock}
    (hrst : hasFlag seg.flags tcpFlagRst = false) (hflag : hasFlag seg.flags tcpFlagFin = true)
    (hpay : seg.payload = []) (hseq : seg.seqNum = c.tcb.ackNum) (hrx : t.rxBuf = c.tcb.rxBuf)
    (hr : c.tcb.tcpHandleSegment ⟨true, now⟩ seg =
      (f (t.takeFin ⟨true, now⟩ seg).1, (t.takeFin ⟨true, now⟩ seg).2))
    (hack : ∀ t, (f t).ackNum = t.ackNum) (hbuf : ∀ t, (f t).rxBuf = t.rxBuf)
    (hdone : (f (t.takeFin ⟨true, now⟩ seg).1).state = .closed ∨
      (f (t.takeFin ⟨true, now⟩ seg).1).state = .closing) :
    AckInv (connStep c ⟨now, .segment seg⟩).1 ∧ Honest c ⟨now, .segment seg⟩ := by
  have hopen : c.tcb.state = .synReceived ∨ c.tcb.state = .established ∨
      c.tcb.state = .finWait1 ∨ c.tcb.state = .finWait2 := Or.inr (Or.inr hs)
  obtain ⟨-, hackNum⟩ := ackNum_open h hopen
  have hnosyn : ¬ (c.tcb.state = .synSent ∧
      (f (t.takeFin ⟨true, now⟩ seg).1).state = .established) := by
    rintro ⟨h₁, -⟩
    rcases hs with hs | hs <;> · rw [hs] at h₁; exact absurd h₁ (by decide)
  have hq := TcpControlBlock.quiet_tcpOutputSeq ⟨true, now⟩ (t.setAck (seg.seqNum + 1)) tcpFlagAck
    [] (t.setAck (seg.seqNum + 1)).seqNum
  have hnil : ([] : List UInt8).length ≤ tcpMaxSeg := by simp
  obtain ⟨s, hout⟩ := TcpControlBlock.tcpOutputSeq_snd ⟨true, now⟩ rfl
    (t.setAck (seg.seqNum + 1)) tcpFlagAck (t.setAck (seg.seqNum + 1)).seqNum hnil
  have hmem : s ∈ (t.takeFin ⟨true, now⟩ seg).2 := by
    rw [TcpControlBlock.takeFin, TcpControlBlock.tcpSendAck, TcpControlBlock.tcpOutput, hout]
    exact List.mem_singleton.mpr rfl
  have hsack : s.ackNum = seg.seqNum + 1 := (TcpControlBlock.sends_of_mem hmem).ackNum
  have hnew : (f (t.takeFin ⟨true, now⟩ seg).1).ackNum = seg.seqNum + 1 :=
    (hack _).trans hq.ackNum
  have hfin : (connStep c ⟨now, .segment seg⟩).1.fin = true := by
    rw [connStep_segment, hr]
    simp [finTaken, hflag, hrst, hs, hpay, hnew]
  have hrec : (connStep c ⟨now, .segment seg⟩).1.received = c.received := by
    rw [connStep_segment, hr]
    change c.returned + (f (t.takeFin ⟨true, now⟩ seg).1).rxBuf.length = c.received
    rw [received, hbuf, ← hrx]
    exact congrArg (c.returned + List.length ·) hq.rxBuf
  have hirs : (connStep c ⟨now, .segment seg⟩).1.irs = c.irs := by
    rw [connStep_segment, hr, if_neg hnosyn]
  constructor
  · unfold AckInv
    rw [connStep_segment, hr]
    dsimp only
    rcases hdone with hdone | hdone <;> · rw [hdone]; trivial
  · refine honest_of_append (l := []) (s := s) ?_ (fun _ hsg => by cases hsg) ?_
    · rw [connStep_segment, hr]
      exact hout
    · rw [hfin, honestAck_congr c _ hirs hrec, honestAck_true, ← hackNum, hsack, hseq]

theorem step_finWait1 (h : AckInv c) (hs : c.tcb.state = .finWait1) {now : UInt32}
    {seg : TcpSegment} (hrst : hasFlag seg.flags tcpFlagRst = false)
    (hord : FinInOrder c ⟨now, .segment seg⟩) :
    AckInv (connStep c ⟨now, .segment seg⟩).1 ∧ Honest c ⟨now, .segment seg⟩ := by
  set t := if hasFlag seg.flags tcpFlagAck ∧ seg.ackNum = c.tcb.seqNum + 1 then
    (c.tcb.setSeq (c.tcb.seqNum + 1)).setState .finWait2 else c.tcb with ht
  have hstate : t.state = .finWait1 ∨ t.state = .finWait2 := by
    rw [ht]
    split
    · exact Or.inr rfl
    · exact Or.inl hs
  have hsame : t.ackNum = c.tcb.ackNum ∧ t.rxBuf = c.tcb.rxBuf := by
    rw [ht]
    split <;> exact ⟨rfl, rfl⟩
  by_cases hfin : hasFlag seg.flags tcpFlagFin = true
  · obtain ⟨hpay, hseq⟩ := hord seg rfl hrst hfin (Or.inl hs)
    refine step_takeFin (t := t) (f := fun t => (t.setState
      (if t.state = .finWait2 then .closed else .closing)).setActivity now)
      h (Or.inl hs) hrst hfin hpay hseq hsame.2 ?_ (fun _ => rfl) (fun _ => rfl) ?_
    · simp only [TcpControlBlock.tcpHandleSegment, hrst, hs, Bool.false_eq_true, if_false, hfin,
        if_true]
      rfl
    · change (if _ then TcpState.closed else TcpState.closing) = _ ∨
        (if _ then TcpState.closed else TcpState.closing) = _
      split
      · exact Or.inl rfl
      · exact Or.inr rfl
  · refine step_segment_idle h t ?_ (Or.inl (by rw [hs]; decide)) ?_ hsame.1 hsame.2 ?_
    · simp only [TcpControlBlock.tcpHandleSegment, hrst, hs, Bool.false_eq_true, if_false, hfin]
      rfl
    · simp [finTaken, hfin]
    · rcases hstate with hst | hst
      · exact Or.inl (hst.trans hs.symm)
      · exact Or.inr (Or.inr ⟨Or.inr hs, Or.inr hst⟩)

theorem step_finWait2 (h : AckInv c) (hs : c.tcb.state = .finWait2) {now : UInt32}
    {seg : TcpSegment} (hrst : hasFlag seg.flags tcpFlagRst = false)
    (hord : FinInOrder c ⟨now, .segment seg⟩) :
    AckInv (connStep c ⟨now, .segment seg⟩).1 ∧ Honest c ⟨now, .segment seg⟩ := by
  by_cases hfin : hasFlag seg.flags tcpFlagFin = true
  · obtain ⟨hpay, hseq⟩ := hord seg rfl hrst hfin (Or.inr hs)
    refine step_takeFin (t := c.tcb) (f := fun t => t.setState .closed)
      h (Or.inr hs) hrst hfin hpay hseq rfl ?_ (fun _ => rfl) (fun _ => rfl) (Or.inl rfl)
    simp only [TcpControlBlock.tcpHandleSegment, hrst, hs, Bool.false_eq_true, if_false, hfin,
      if_true]
  · refine step_segment_idle h c.tcb ?_ (Or.inl (by rw [hs]; decide)) ?_ rfl rfl (Or.inl rfl)
    · simp only [TcpControlBlock.tcpHandleSegment, hrst, hs, Bool.false_eq_true, if_false, hfin]
    · simp [finTaken, hfin]

/-- A segment in a state in which it is not answered. -/
theorem step_unanswered (h : AckInv c) {now : UInt32} {seg : TcpSegment}
    (hrst : hasFlag seg.flags tcpFlagRst = false)
    (hs : c.tcb.state ≠ .synSent ∧ c.tcb.state ≠ .established ∧ c.tcb.state ≠ .finWait1 ∧
      c.tcb.state ≠ .finWait2) :
    AckInv (connStep c ⟨now, .segment seg⟩).1 ∧ Honest c ⟨now, .segment seg⟩ := by
  have hfin := fun tcb' => finTaken_eq_false c.tcb tcb' seg (Or.inl hs.2.1) hs.2.2
  have hidle : c.tcb.tcpHandleSegment ⟨true, now⟩ seg = (c.tcb, []) →
      AckInv (connStep c ⟨now, .segment seg⟩).1 ∧ Honest c ⟨now, .segment seg⟩ := fun hr =>
    step_segment_idle h c.tcb hr (Or.inl hs.1) (hfin _) rfl rfl (Or.inl rfl)
  have hclose : c.tcb.tcpHandleSegment ⟨true, now⟩ seg = (c.tcb.setState .closed, []) →
      AckInv (connStep c ⟨now, .segment seg⟩).1 ∧ Honest c ⟨now, .segment seg⟩ := fun hr =>
    step_segment_idle h _ hr (Or.inl hs.1) (hfin _) rfl rfl (Or.inr (Or.inl rfl))
  cases hst : c.tcb.state with
  | synSent => exact absurd hst hs.1
  | established => exact absurd hst hs.2.1
  | finWait1 => exact absurd hst hs.2.2.1
  | finWait2 => exact absurd hst hs.2.2.2
  | closed => exact hidle (by simp [TcpControlBlock.tcpHandleSegment, hrst, hst])
  | listen => exact hidle (by simp [TcpControlBlock.tcpHandleSegment, hrst, hst])
  | timeWait => exact hidle (by simp [TcpControlBlock.tcpHandleSegment, hrst, hst])
  | synReceived =>
    by_cases hack : hasFlag seg.flags tcpFlagAck ∧ seg.ackNum = c.tcb.seqNum + 1
    · refine step_segment_idle h (((c.tcb.setSeq (c.tcb.seqNum + 1)).openSendWindow seg.window
        now).setState .established) ?_ (Or.inl hs.1) (hfin _) rfl rfl
        (Or.inr (Or.inr ⟨Or.inl hst, Or.inl rfl⟩))
      simp [TcpControlBlock.tcpHandleSegment, hrst, hst, hack]
    · exact hidle (by simp [TcpControlBlock.tcpHandleSegment, hrst, hst, hack])
  | closeWait =>
    by_cases hack : hasFlag seg.flags tcpFlagAck = true
    · obtain ⟨hst', hack', hrx⟩ := TcpControlBlock.tcpAckAdvance_rx ⟨true, now⟩ c.tcb seg.ackNum
        seg.window
      exact step_segment_idle h _ (by simp [TcpControlBlock.tcpHandleSegment, hrst, hst, hack])
        (Or.inl hs.1) (hfin _) hack' hrx (Or.inl hst')
    · exact hidle (by simp [TcpControlBlock.tcpHandleSegment, hrst, hst, hack])
  | closing =>
    by_cases hack : hasFlag seg.flags tcpFlagAck = true
    · exact hclose (by simp [TcpControlBlock.tcpHandleSegment, hrst, hst, hack])
    · exact hidle (by simp [TcpControlBlock.tcpHandleSegment, hrst, hst, hack])
  | lastAck =>
    by_cases hack : hasFlag seg.flags tcpFlagAck = true
    · exact hclose (by simp [TcpControlBlock.tcpHandleSegment, hrst, hst, hack])
    · exact hidle (by simp [TcpControlBlock.tcpHandleSegment, hrst, hst, hack])

/-- Every event that meets the condition keeps the invariant and is honest. -/
theorem step (h : AckInv c) (hord : FinInOrder c i) : AckInv (connStep c i).1 ∧ Honest c i := by
  obtain ⟨now, op⟩ := i
  cases op with
  | send buf => exact step_send h now buf
  | recv maxlen => exact step_recv h now maxlen
  | close => exact step_close h now
  | tick => exact step_tick h now
  | segment seg =>
    cases hrst : hasFlag seg.flags tcpFlagRst with
    | true =>
      have hr : c.tcb.tcpHandleSegment ⟨true, now⟩ seg = (c.tcb.setState .closed, []) := by
        simp only [TcpControlBlock.tcpHandleSegment, hrst, if_true]
      refine ⟨?_, honest_of_silent (by rw [connStep_segment, hr])⟩
      rw [connStep_segment, hr]
      exact ackInv_closed rfl
    | false =>
      by_cases h₁ : c.tcb.state = .synSent
      · exact step_synSent h h₁ hrst
      by_cases h₂ : c.tcb.state = .established
      · exact step_established h h₂ hrst
      by_cases h₃ : c.tcb.state = .finWait1
      · exact step_finWait1 h h₃ hrst hord
      by_cases h₄ : c.tcb.state = .finWait2
      · exact step_finWait2 h h₄ hrst hord
      · exact step_unanswered h hrst ⟨h₁, h₂, h₃, h₄⟩

end Conn

/-! ## Runs -/

/-- The connection after an event. -/
def connNext (c : Conn) (i : ConnInput) : Option Conn :=
  some (connStep c i).1

/-- A connection as it is opened : by `tcp_connect`, or by a SYN at a listening socket. -/
inductive ConnOpened : Conn → Prop
  | connect (env : TcpEnv) (localIp ip irs : UInt32) (localPort port : UInt16) (isn : UInt32) :
    ConnOpened ⟨(TcpControlBlock.tcpSendSyn env
      (TcpControlBlock.activeTcb localIp localPort ip port isn)).1, irs, 0, false⟩
  | listen (env : TcpEnv) (listener : TcpControlBlock) (srcIp : UInt32) (syn : TcpSegment)
    (isn : UInt32) :
    ConnOpened ⟨(TcpControlBlock.tcpSendSynack env
      (TcpControlBlock.passiveTcb listener srcIp syn isn)).1, syn.seqNum, 0, false⟩

theorem ackInv_of_opened {c : Conn} (h : ConnOpened c) : AckInv c := by
  cases h with
  | connect env localIp ip irs localPort port isn =>
    have hq := TcpControlBlock.quiet_tcpSendSyn env
      (TcpControlBlock.activeTcb localIp localPort ip port isn)
    unfold AckInv
    dsimp only
    rw [hq.state]
    refine ⟨?_, rfl⟩
    rw [Conn.received, hq.rxBuf]
    rfl
  | listen env listener srcIp syn isn =>
    have hq := TcpControlBlock.quiet_tcpSendSynack env
      (TcpControlBlock.passiveTcb listener srcIp syn isn)
    refine Conn.ackInv_of_open (Or.inl hq.state) ⟨rfl, hq.ackNum.trans ?_⟩
    rw [Conn.honestAck, Conn.received, hq.rxBuf]
    simp [TcpControlBlock.passiveTcb, TcpControlBlock.zero]

/-- Over every run of a connection whose FINs arrive in order in FIN_WAIT_1 and FIN_WAIT_2,
every ACK number sent counts the peer's bytes received, and its FIN once it is taken. -/
theorem tcp_ack_honest (c : Conn) (hc : ConnOpened c) (is : List ConnInput)
    (hord : Along connNext FinInOrder c is) : Along connNext Honest c is := by
  refine Along.mono_inv (I := AckInv) ?_ ?_ is c (ackInv_of_opened hc) hord
  · intro c i c' h ho hstep
    obtain rfl := Option.some.inj hstep
    exact (Conn.step h ho).1
  · exact fun c i h ho => (Conn.step h ho).2

/-- A segment of the peer without payload, from port 5000 to port 80. -/
def peerSegment (seq ack : UInt32) (flags : UInt8) : TcpSegment :=
  ⟨5000, 80, seq, ack, flags, 1024, []⟩

/-- A connection opened by a SYN with sequence number 1000, at initial number 1. -/
def openedConn : Conn :=
  ⟨(TcpControlBlock.tcpSendSynack ⟨true, 0⟩ (TcpControlBlock.passiveTcb .zero 7
    (peerSegment 1000 0 tcpFlagSyn) 1)).1, 1000, 0, false⟩

theorem opened_openedConn : ConnOpened openedConn :=
  ConnOpened.listen ⟨true, 0⟩ .zero 7 (peerSegment 1000 0 tcpFlagSyn) 1

/-- The handshake ends, the connection is closed, and the peer's FIN arrives. -/
def closingRun (seq : UInt32) : List ConnInput :=
  [⟨0, .segment (peerSegment 1001 2 tcpFlagAck)⟩, ⟨0, .close⟩,
    ⟨0, .segment (peerSegment seq 2 (tcpFlagFin ||| tcpFlagAck))⟩]

/-- The FIN is the next byte : it is acknowledged. -/
theorem tcp_ack_honest_closingRun :
    ConnOpened openedConn ∧ Along connNext FinInOrder openedConn (closingRun 1001) ∧
      Along connNext Honest openedConn (closingRun 1001) := by
  have hord : Along connNext FinInOrder openedConn (closingRun 1001) := by
    refine ⟨fun seg _ _ _ hs => absurd hs (by decide), fun c hc => ?_⟩
    obtain rfl := Option.some.inj hc
    refine ⟨fun seg hop => (by cases hop), fun c hc => ?_⟩
    obtain rfl := Option.some.inj hc
    refine ⟨fun seg hop _ _ _ => ?_, fun _ _ => trivial⟩
    cases hop
    exact ⟨rfl, by decide⟩
  exact ⟨opened_openedConn, hord, tcp_ack_honest _ opened_openedConn _ hord⟩

/-- The FIN is 100 bytes ahead : all of them are acknowledged, and none was received. -/
theorem tcp_ack_dishonest :
    ConnOpened openedConn ∧ ¬ Along connNext Honest openedConn (closingRun 1101) := by
  refine ⟨opened_openedConn, ?_⟩
  rintro ⟨-, h⟩
  obtain ⟨-, h⟩ := h _ rfl
  obtain ⟨h, -⟩ := h _ rfl
  have hack := h.2 ⟨80, 5000, 2, 1102, tcpFlagAck, 1024, []⟩ rfl (by decide)
  exact absurd hack (by decide)

end VernisOS
