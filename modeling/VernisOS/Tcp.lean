import VernisOS.Lib.Bytes
import VernisOS.Lib.Ring

/-!
# TCP control blocks

`kernel/net/tcp.c`, the part that works on one control block : the state machine, the
send ring with its retransmission, the receive buffer with its single out-of-order slot.
A function that sends returns, beside the block, the segments it hands to `tcp_output_seq`,
in order. The global state a block is handled in is a `TcpEnv`; the clock does not move
within one call. The sockets of the stack are `TcpStack`.
-/

open Bytes

namespace VernisOS

/-- `TCP_RX_BUF_SIZE`. -/
abbrev tcpRxBufSize : ℕ := 1024

/-- `TCP_TX_BUF_SIZE`. -/
abbrev tcpTxBufSize : ℕ := 2048

instance : NeZero tcpTxBufSize :=
  ⟨by decide⟩

/-- `TCP_MAX_SEG`. -/
abbrev tcpMaxSeg : ℕ := 1024

/-- `TCP_FLAG_FIN`. -/
def tcpFlagFin : UInt8 := 0x01

/-- `TCP_FLAG_SYN`. -/
def tcpFlagSyn : UInt8 := 0x02

/-- `TCP_FLAG_RST`. -/
def tcpFlagRst : UInt8 := 0x04

/-- `TCP_FLAG_PSH`. -/
def tcpFlagPsh : UInt8 := 0x08

/-- `TCP_FLAG_ACK`. -/
def tcpFlagAck : UInt8 := 0x10

/-- Whether a flag is set (`flags & f`). -/
def hasFlag (flags f : UInt8) : Bool :=
  flags &&& f != 0

/-- Connection states. -/
inductive TcpState where
  | closed
  | listen
  | synSent
  | synReceived
  | established
  | finWait1
  | finWait2
  | closeWait
  | closing
  | lastAck
  | timeWait
  deriving DecidableEq

/-- A segment : the header fields that are read, and the payload. -/
structure TcpSegment where
  srcPort : UInt16
  dstPort : UInt16
  seqNum : UInt32
  ackNum : UInt32
  flags : UInt8
  window : UInt16
  payload : List UInt8

/-- A connection. `rxBuf` is `rx_buf[0..rx_len)` and `oooBuf` is `ooo_buf[0..ooo_len)`. -/
structure TcpControlBlock where
  state : TcpState
  localIp : UInt32
  localPort : UInt16
  remoteIp : UInt32
  remotePort : UInt16
  seqNum : UInt32
  ackNum : UInt32
  window : UInt16
  remoteWindow : UInt16
  retransmitCount : UInt8
  lastActivityTick : UInt32
  fromListener : Bool
  accepted : Bool
  rxBuf : List UInt8
  rxFits : rxBuf.length ≤ tcpRxBufSize
  sndUna : UInt32
  txStart : UInt16
  rtoTick : UInt32
  txBuf : Fin tcpTxBufSize → UInt8
  oooValid : Bool
  oooSeq : UInt32
  oooBuf : List UInt8

/-- What a control block is handled in : whether an output function is registered, and the
clock. -/
structure TcpEnv where
  ipOutput : Bool
  now : UInt32

namespace TcpControlBlock

/-- A block filled with zeros. -/
def zero : TcpControlBlock where
  state := .closed
  localIp := 0
  localPort := 0
  remoteIp := 0
  remotePort := 0
  seqNum := 0
  ackNum := 0
  window := 0
  remoteWindow := 0
  retransmitCount := 0
  lastActivityTick := 0
  fromListener := false
  accepted := false
  rxBuf := []
  rxFits := by simp
  sndUna := 0
  txStart := 0
  rtoTick := 0
  txBuf := fun _ => 0
  oooValid := false
  oooSeq := 0
  oooBuf := []

/-! ## Updates -/

/-- Set the state. -/
def setState (tcb : TcpControlBlock) (s : TcpState) : TcpControlBlock :=
  { tcb with state := s }

/-- Set the advertised window. -/
def setWindow (tcb : TcpControlBlock) (w : UInt16) : TcpControlBlock :=
  { tcb with window := w }

/-- Set `last_activity_tick`. -/
def setActivity (tcb : TcpControlBlock) (now : UInt32) : TcpControlBlock :=
  { tcb with lastActivityTick := now }

/-- Set `ack_num`. -/
def setAck (tcb : TcpControlBlock) (ack : UInt32) : TcpControlBlock :=
  { tcb with ackNum := ack }

/-- Set `seq_num`. -/
def setSeq (tcb : TcpControlBlock) (seq : UInt32) : TcpControlBlock :=
  { tcb with seqNum := seq }

/-- Count one more retransmission, at `now`. -/
def countRetransmit (tcb : TcpControlBlock) : TcpControlBlock :=
  { tcb with retransmitCount := tcb.retransmitCount + 1 }

/-- Set `rto_tick`. -/
def setRto (tcb : TcpControlBlock) (now : UInt32) : TcpControlBlock :=
  { tcb with rtoTick := now }

/-- The send window starts empty, with the peer's window. -/
def openSendWindow (tcb : TcpControlBlock) (window : UInt16) (now : UInt32) : TcpControlBlock :=
  { tcb with remoteWindow := window, sndUna := tcb.seqNum, txStart := 0, rtoTick := now }

/-! ## Output -/

/-- Build one segment and hand it to the IP layer. -/
def tcpOutputSeq (env : TcpEnv) (tcb : TcpControlBlock) (flags : UInt8) (payload : List UInt8)
    (seq : UInt32) : TcpControlBlock × List TcpSegment :=
  if !env.ipOutput || decide (tcpMaxSeg < payload.length) then (tcb, [])
  else
    let tcb := tcb.setWindow (UInt16.ofNat (tcpRxBufSize - tcb.rxBuf.length))
    (tcb, [⟨tcb.localPort, tcb.remotePort, seq,
      if hasFlag flags tcpFlagAck then tcb.ackNum else 0, flags, tcb.window, payload⟩])

/-- Send a segment at `seq_num`. -/
def tcpOutput (env : TcpEnv) (tcb : TcpControlBlock) (flags : UInt8) (payload : List UInt8) :
    TcpControlBlock × List TcpSegment :=
  tcpOutputSeq env tcb flags payload tcb.seqNum

/-- `seq_num - snd_una`. -/
def inflight (tcb : TcpControlBlock) : UInt32 :=
  tcb.seqNum - tcb.sndUna

/-- Retransmit the first unacked segment from the ring. -/
def tcpRetransmitHead (env : TcpEnv) (tcb : TcpControlBlock) :
    TcpControlBlock × List TcpSegment :=
  let n := if tcb.inflight.toNat < tcpMaxSeg then tcb.inflight.toNat else tcpMaxSeg
  tcpOutputSeq env tcb (tcpFlagPsh ||| tcpFlagAck) (Ring.get tcb.txBuf tcb.txStart.toNat n)
    tcb.sndUna

/-- The part of `tcp_ack_advance` that slides the window. -/
def slide (tcb : TcpControlBlock) (ack now : UInt32) : TcpControlBlock :=
  { tcb with
    sndUna := ack
    txStart := UInt16.ofNat ((tcb.txStart.toNat + (ack - tcb.sndUna).toNat) % tcpTxBufSize)
    retransmitCount := 0
    rtoTick := now }

/-- Process an incoming ACK. -/
def tcpAckAdvance (env : TcpEnv) (tcb : TcpControlBlock) (ack : UInt32) (wnd : UInt16) :
    TcpControlBlock :=
  let newly := ack - tcb.sndUna
  let tcb := if 0 < newly ∧ newly ≤ tcb.inflight then tcb.slide ack env.now else tcb
  { tcb with remoteWindow := wnd }

/-- Send a SYN. -/
def tcpSendSyn (env : TcpEnv) (tcb : TcpControlBlock) : TcpControlBlock × List TcpSegment :=
  let (tcb, out) := tcpOutput env tcb tcpFlagSyn []
  (tcb.setActivity env.now, out)

/-- Send a SYN and ACK. -/
def tcpSendSynack (env : TcpEnv) (tcb : TcpControlBlock) : TcpControlBlock × List TcpSegment :=
  let (tcb, out) := tcpOutput env tcb (tcpFlagSyn ||| tcpFlagAck) []
  (tcb.setActivity env.now, out)

/-- Send an ACK. -/
def tcpSendAck (env : TcpEnv) (tcb : TcpControlBlock) : TcpControlBlock × List TcpSegment :=
  tcpOutput env tcb tcpFlagAck []

/-! ## Opening -/

/-- The block `tcp_listen` fills in. -/
def listenTcb (localIp : UInt32) (port : UInt16) : TcpControlBlock :=
  { zero with
    state := .listen
    localIp := localIp
    localPort := port
    window := UInt16.ofNat tcpRxBufSize }

/-- The block `tcp_connect` fills in. -/
def activeTcb (localIp : UInt32) (localPort : UInt16) (ip : UInt32) (port : UInt16)
    (isn : UInt32) : TcpControlBlock :=
  { zero with
    state := .synSent
    localIp := localIp
    localPort := localPort
    remoteIp := ip
    remotePort := port
    seqNum := isn
    window := UInt16.ofNat tcpRxBufSize }

/-- The block a listening socket spawns for a SYN. -/
def passiveTcb (listener : TcpControlBlock) (srcIp : UInt32) (seg : TcpSegment)
    (isn : UInt32) : TcpControlBlock :=
  { zero with
    state := .synReceived
    localIp := listener.localIp
    localPort := seg.dstPort
    remoteIp := srcIp
    remotePort := seg.srcPort
    seqNum := isn
    ackNum := seg.seqNum + 1
    remoteWindow := seg.window
    window := UInt16.ofNat tcpRxBufSize
    fromListener := true }

/-! ## Calls on a connection -/

/-- Queue the bytes behind those in flight. -/
def queue (tcb : TcpControlBlock) (bytes : List UInt8) : TcpControlBlock :=
  { tcb with
    txBuf := Ring.put tcb.txBuf ((tcb.txStart.toNat + tcb.inflight.toNat) % tcpTxBufSize) bytes }

/-- Send at most what the peer's window and the ring have room for : the number of bytes
accepted, -1 if the connection cannot send. -/
def tcpSend (env : TcpEnv) (tcb : TcpControlBlock) (buf : List UInt8) :
    Int × TcpControlBlock × List TcpSegment :=
  if tcb.state ≠ .established ∧ tcb.state ≠ .closeWait then (-1, tcb, [])
  else if buf.length = 0 then (0, tcb, [])
  else
    let space : Int := tcpTxBufSize - cInt tcb.inflight
    let allow : Int := tcb.remoteWindow.toNat - cInt tcb.inflight
    if allow ≤ 0 ∨ space ≤ 0 then (0, tcb, [])
    else
      let len := min (min (min buf.length allow.toNat) space.toNat) tcpMaxSeg
      let bytes := buf.take len
      let (tcb, out) := tcpOutput env (tcb.queue bytes) (tcpFlagPsh ||| tcpFlagAck) bytes
      (len, (tcb.setSeq (tcb.seqNum + UInt32.ofNat len)).setRto env.now, out)

/-- The peer can still send. -/
def canReceive (tcb : TcpControlBlock) : Bool :=
  tcb.state = .established || tcb.state = .finWait1 || tcb.state = .finWait2

/-- Take the first `n` bytes out of the receive buffer. -/
def dropRx (tcb : TcpControlBlock) (n : ℕ) : TcpControlBlock :=
  { tcb with
    rxBuf := tcb.rxBuf.drop n
    rxFits := by rw [List.length_drop]; exact (Nat.sub_le _ _).trans tcb.rxFits }

/-- Receive : the return value and the bytes put into the caller's buffer. -/
def tcpRecv (env : TcpEnv) (tcb : TcpControlBlock) (maxlen : Int) :
    Int × List UInt8 × TcpControlBlock × List TcpSegment :=
  if maxlen < 0 then (-1, [], tcb, [])
  else if tcb.rxBuf.length = 0 then (if tcb.canReceive then 0 else -1, [], tcb, [])
  else
    let n := min tcb.rxBuf.length maxlen.toNat
    let wasFull := decide (tcpRxBufSize - tcb.rxBuf.length < tcpMaxSeg)
    let bytes := tcb.rxBuf.take n
    let tcb := tcb.dropRx n
    if wasFull ∧ 0 < n ∧ tcb.canReceive then
      let (tcb, out) := tcpSendAck env tcb
      (n, bytes, tcb, out)
    else (n, bytes, tcb, [])

/-- Close. -/
def tcpClose (env : TcpEnv) (tcb : TcpControlBlock) : TcpControlBlock × List TcpSegment :=
  match tcb.state with
  | .established | .synReceived =>
    let (tcb, out) := tcpOutput env tcb (tcpFlagFin ||| tcpFlagAck) []
    ((tcb.setState .finWait1).setActivity env.now, out)
  | .closeWait =>
    let (tcb, out) := tcpOutput env tcb (tcpFlagFin ||| tcpFlagAck) []
    ((tcb.setState .lastAck).setActivity env.now, out)
  | _ => (tcb.setState .closed, [])

/-- One socket of `tcp_tick`. -/
def tcpTick (env : TcpEnv) (tcb : TcpControlBlock) : TcpControlBlock × List TcpSegment :=
  match tcb.state with
  | .synSent | .synReceived =>
    if 120 < env.now - tcb.lastActivityTick then
      if tcb.retransmitCount < 5 then
        let (tcb, out) := if tcb.state = .synSent then tcpSendSyn env tcb else tcpSendSynack env tcb
        (tcb.countRetransmit.setActivity env.now, out)
      else (tcb.setState .closed, [])
    else (tcb, [])
  | .established | .closeWait =>
    if 0 < tcb.inflight then
      let shift := if tcb.retransmitCount < 4 then tcb.retransmitCount else 4
      if (120 : UInt32) <<< shift.toUInt32 < env.now - tcb.rtoTick then
        if tcb.retransmitCount < 8 then
          let (tcb, out) := tcpRetransmitHead env tcb
          (tcb.countRetransmit.setRto env.now, out)
        else (tcb.setState .closed, [])
      else (tcb, [])
    else (tcb, [])
  | .finWait1 | .finWait2 | .lastAck | .closing | .timeWait =>
    if 1200 < env.now - tcb.lastActivityTick then (tcb.setState .closed, []) else (tcb, [])
  | _ => (tcb, [])

/-! ## Incoming segments -/

/-- Store what fits of in-order data. -/
def storeRx (tcb : TcpControlBlock) (data : List UInt8) : TcpControlBlock :=
  { tcb with
    rxBuf := tcb.rxBuf ++ data.take (tcpRxBufSize - tcb.rxBuf.length)
    ackNum := tcb.ackNum +
      UInt32.ofNat (data.take (tcpRxBufSize - tcb.rxBuf.length)).length
    rxFits := by
      have := tcb.rxFits
      rw [List.length_append, List.length_take]
      omega }

/-- Drop the out-of-order segment. -/
def clearOoo (tcb : TcpControlBlock) : TcpControlBlock :=
  { tcb with oooValid := false }

/-- Keep a segment that is ahead of the expected byte. -/
def keepOoo (tcb : TcpControlBlock) (seq : UInt32) (data : List UInt8) : TcpControlBlock :=
  { tcb with oooBuf := data.take tcpMaxSeg, oooSeq := seq, oooValid := true }

/-- Data that arrives on an established connection. -/
def receiveData (tcb : TcpControlBlock) (seq : UInt32) (data : List UInt8) : TcpControlBlock :=
  if seq = tcb.ackNum then
    let tcb := tcb.storeRx data
    if tcb.oooValid ∧ tcb.oooSeq = tcb.ackNum then (tcb.storeRx tcb.oooBuf).clearOoo else tcb
  else if tcb.ackNum < seq ∧ !tcb.oooValid then tcb.keepOoo seq data
  else tcb

/-- A segment on an established connection. -/
def handleEstablished (env : TcpEnv) (tcb : TcpControlBlock) (seg : TcpSegment) :
    TcpControlBlock × List TcpSegment :=
  let tcb := if hasFlag seg.flags tcpFlagAck then
    tcpAckAdvance env tcb seg.ackNum seg.window else tcb
  let (tcb, out) := if 0 < seg.payload.length then
    tcpSendAck env (tcb.receiveData seg.seqNum seg.payload) else (tcb, [])
  if hasFlag seg.flags tcpFlagFin ∧
      seg.seqNum + UInt32.ofNat seg.payload.length = tcb.ackNum then
    let (tcb, out') := tcpSendAck env (tcb.setAck (tcb.ackNum + 1))
    (tcb.setState .closeWait, out ++ out')
  else (tcb, out)

/-- A FIN in one of the two states that wait for it. `ack_num` is set from the segment's
sequence number alone, with no regard to `ack_num` or to the payload. -/
def takeFin (env : TcpEnv) (tcb : TcpControlBlock) (seg : TcpSegment) :
    TcpControlBlock × List TcpSegment :=
  tcpSendAck env (tcb.setAck (seg.seqNum + 1))

/-- A segment for a connection. -/
def tcpHandleSegment (env : TcpEnv) (tcb : TcpControlBlock) (seg : TcpSegment) :
    TcpControlBlock × List TcpSegment :=
  if hasFlag seg.flags tcpFlagRst then (tcb.setState .closed, [])
  else
    match tcb.state with
    | .synSent =>
      if seg.flags &&& (tcpFlagSyn ||| tcpFlagAck) = tcpFlagSyn ||| tcpFlagAck ∧
          seg.ackNum = tcb.seqNum + 1 then
        tcpSendAck env ((((tcb.setSeq (tcb.seqNum + 1)).setAck (seg.seqNum + 1)).openSendWindow
          seg.window env.now).setState .established)
      else (tcb, [])
    | .synReceived =>
      if hasFlag seg.flags tcpFlagAck ∧ seg.ackNum = tcb.seqNum + 1 then
        (((tcb.setSeq (tcb.seqNum + 1)).openSendWindow seg.window env.now).setState
          .established, [])
      else (tcb, [])
    | .established => handleEstablished env tcb seg
    | .closeWait =>
      (if hasFlag seg.flags tcpFlagAck then tcpAckAdvance env tcb seg.ackNum seg.window else tcb,
        [])
    | .finWait1 =>
      let tcb := if hasFlag seg.flags tcpFlagAck ∧ seg.ackNum = tcb.seqNum + 1 then
        (tcb.setSeq (tcb.seqNum + 1)).setState .finWait2 else tcb
      if hasFlag seg.flags tcpFlagFin then
        let (tcb, out) := takeFin env tcb seg
        ((tcb.setState (if tcb.state = .finWait2 then .closed else .closing)).setActivity env.now,
          out)
      else (tcb, [])
    | .finWait2 =>
      if hasFlag seg.flags tcpFlagFin then
        let (tcb, out) := takeFin env tcb seg
        (tcb.setState .closed, out)
      else (tcb, [])
    | .closing => if hasFlag seg.flags tcpFlagAck then (tcb.setState .closed, []) else (tcb, [])
    | .lastAck => if hasFlag seg.flags tcpFlagAck then (tcb.setState .closed, []) else (tcb, [])
    | _ => (tcb, [])

end TcpControlBlock

end VernisOS
