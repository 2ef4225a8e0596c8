import VernisOS.Lib.Slots
import VernisOS.Tcp

/-!
# The TCP stack

`kernel/net/tcp.c`, the part that works on the table of sockets : the calls of the
application, which pass a socket number, the demultiplexing of incoming packets, and the
bytes of a segment. A segment handed to the IP layer is kept in `sent` with its
destination.
-/

open Bytes Slots

namespace VernisOS

/-- `TCP_MAX_SOCKETS`. -/
abbrev tcpMaxSockets : ℕ := 16

/-! ## Segments as bytes -/

/-- Swap the bytes of a `uint16_t`. -/
def tHtons (h : UInt16) : UInt16 :=
  (h >>> 8) ||| (h <<< 8)

/-- The sum over the 16-bit words of a packet. -/
def checksumWords : List UInt8 → UInt32 → UInt32
  | a :: b :: rest, sum => checksumWords rest (sum + (a.toUInt32 <<< 8 ||| b.toUInt32))
  | [a], sum => sum + a.toUInt32 <<< 8
  | [], sum => sum

/-- Add the carries until there are none. Two passes are enough for a sum of 32 bits. -/
def foldCarries : ℕ → UInt32 → UInt32
  | 0, sum => sum
  | fuel + 1, sum =>
    if sum >>> 16 = 0 then sum else foldCarries fuel ((sum &&& (0xFFFF : UInt32)) + (sum >>> 16))

/-- The checksum over pseudo-header and segment, in network byte order. -/
def tcpCalcChecksum (packet : List UInt8) (srcIp dstIp : UInt32) : UInt16 :=
  let low : UInt32 := 0xFFFF
  let sum := ((srcIp >>> 16) &&& low) + (srcIp &&& low) + ((dstIp >>> 16) &&& low) +
    (dstIp &&& low) + 6 + UInt32.ofNat packet.length
  tHtons (~~~ (foldCarries 2 (checksumWords packet sum)).toUInt16)

namespace TcpSegment

/-- Header and payload with the given checksum field. -/
def toBytes (seg : TcpSegment) (checksum : UInt16) : List UInt8 :=
  be16 seg.srcPort ++ be16 seg.dstPort ++ be32 seg.seqNum ++ be32 seg.ackNum ++
    [(5 : UInt8) <<< 4, seg.flags] ++ be16 seg.window ++ le16 checksum ++ [0, 0] ++ seg.payload

/-- The bytes `tcp_output_seq` hands to the IP layer. -/
def encode (localIp remoteIp : UInt32) (seg : TcpSegment) : List UInt8 :=
  seg.toBytes (tcpCalcChecksum (seg.toBytes 0) localIp remoteIp)

/-- The header `tcp_receive_packet` reads; `none` if the packet is too short for it. -/
def parse (packet : List UInt8) : Option TcpSegment :=
  match packet with
  | s₀ :: s₁ :: d₀ :: d₁ :: q₀ :: q₁ :: q₂ :: q₃ :: a₀ :: a₁ :: a₂ :: a₃ :: off :: flags :: w₀ ::
      w₁ :: _ :: _ :: _ :: _ :: _ =>
    let hlen := (off >>> 4).toNat * 4
    if hlen < 20 ∨ packet.length < hlen then none
    else some ⟨ofBe16 s₀ s₁, ofBe16 d₀ d₁, ofBe32 q₀ q₁ q₂ q₃, ofBe32 a₀ a₁ a₂ a₃, flags,
      ofBe16 w₀ w₁, packet.drop hlen⟩
  | _ => none

/-- What was sent is what is read. -/
theorem parse_encode (localIp remoteIp : UInt32) (seg : TcpSegment) :
    parse (seg.encode localIp remoteIp) = some seg := by
  have hoff : (((5 : UInt8) <<< 4) >>> 4).toNat * 4 = 20 := by decide
  simp only [encode, toBytes, be16, be32, le16, List.cons_append, List.nil_append, parse, hoff]
  rw [if_neg (by simp)]
  simp only [ofBe16_be16, ofBe32_be32, List.drop_succ_cons, List.drop_zero]

end TcpSegment

/-! ## Sockets -/

/-- The state of `tcp.c`, with the segments handed to the IP layer, the latest first. -/
structure TcpStack where
  tcbs : Fin tcpMaxSockets → TcpControlBlock
  ipOutput : Bool
  localIp : UInt32
  nextEphemeral : UInt16
  sent : List (UInt32 × List UInt8)

namespace TcpStack

/-- The environment of a call at clock `now`. -/
def env (st : TcpStack) (now : UInt32) : TcpEnv :=
  ⟨st.ipOutput, now⟩

/-- The block of a socket after a call, with what the call sent. -/
def commit (st : TcpStack) (i : Fin tcpMaxSockets)
    (r : TcpControlBlock × List TcpSegment) : TcpStack :=
  { st with
    tcbs := Function.update st.tcbs i r.1
    sent := (r.2.map fun seg =>
      (r.1.remoteIp, seg.encode st.localIp r.1.remoteIp)).reverse ++ st.sent }

theorem commit_tcbs_self (st : TcpStack) (i : Fin tcpMaxSockets)
    (r : TcpControlBlock × List TcpSegment) : (st.commit i r).tcbs i = r.1 :=
  Function.update_self ..

theorem commit_tcbs_of_ne (st : TcpStack) {i j : Fin tcpMaxSockets} (h : j ≠ i)
    (r : TcpControlBlock × List TcpSegment) : (st.commit i r).tcbs j = st.tcbs j :=
  Function.update_of_ne h ..

theorem mem_commit_sent {st : TcpStack} {i : Fin tcpMaxSockets}
    {r : TcpControlBlock × List TcpSegment} {e : UInt32 × List UInt8} :
    e ∈ (st.commit i r).sent ↔
      (∃ seg ∈ r.2, (r.1.remoteIp, seg.encode st.localIp r.1.remoteIp) = e) ∨ e ∈ st.sent := by
  rw [commit, List.mem_append, List.mem_reverse, List.mem_map]

/-- The socket with a number, if it is in range. -/
def socket (sock : Int) : Option (Fin tcpMaxSockets) :=
  if h : 0 ≤ sock ∧ sock < tcpMaxSockets then some ⟨sock.toNat, by omega⟩ else none

/-- Initial sequence number. -/
def tcpPickIsn (now : UInt32) (sock : Fin tcpMaxSockets) : UInt32 :=
  (now <<< 6) + UInt32.ofNat sock.val * 64 + 1

/-- All sockets closed, no output registered. -/
def tcpInit : TcpStack :=
  ⟨fun _ => .zero, false, 0, 49152, []⟩

/-- Register the output function. -/
def tcpSetOutput (st : TcpStack) (localIp : UInt32) : TcpStack :=
  { st with ipOutput := true, localIp := localIp }

/-- The first closed socket. -/
def freeSocket (st : TcpStack) : Option (Fin tcpMaxSockets) :=
  first fun i => (st.tcbs i).state == .closed

/-- Listen on a port. -/
def tcpListen (st : TcpStack) (port : UInt16) : Option (Fin tcpMaxSockets) × TcpStack :=
  match st.freeSocket with
  | none => (none, st)
  | some i => (some i, st.commit i (TcpControlBlock.listenTcb st.localIp port, []))

/-- Connect to a peer. -/
def tcpConnect (st : TcpStack) (now ip : UInt32) (port : UInt16) :
    Option (Fin tcpMaxSockets) × TcpStack :=
  match st.freeSocket with
  | none => (none, st)
  | some i =>
    let localPort := st.nextEphemeral
    let next := if localPort + 1 < 49152 then 49152 else localPort + 1
    let st := { st with nextEphemeral := next }
    (some i, st.commit i (TcpControlBlock.tcpSendSyn (st.env now)
      (TcpControlBlock.activeTcb st.localIp localPort ip port (tcpPickIsn now i))))

/-- Send on a socket : the number of bytes accepted. -/
def tcpSend (st : TcpStack) (now : UInt32) (sock : Int) (buf : List UInt8) : Int × TcpStack :=
  match socket sock with
  | none => (-1, st)
  | some i =>
    let (n, r) := (st.tcbs i).tcpSend (st.env now) buf
    (n, st.commit i r)

/-- Receive on a socket : the return value and the bytes received. -/
def tcpRecv (st : TcpStack) (now : UInt32) (sock maxlen : Int) : Int × List UInt8 × TcpStack :=
  match socket sock with
  | none => (-1, [], st)
  | some i =>
    let (n, bytes, r) := (st.tcbs i).tcpRecv (st.env now) maxlen
    (n, bytes, st.commit i r)

/-- Close a socket. -/
def tcpClose (st : TcpStack) (now : UInt32) (sock : Int) : Int × TcpStack :=
  match socket sock with
  | none => (-1, st)
  | some i => (0, st.commit i ((st.tcbs i).tcpClose (st.env now)))

/-- Timer tick over the sockets in order. -/
def tcpTick (st : TcpStack) (now : UInt32) : TcpStack :=
  (slots tcpMaxSockets).foldl (fun st i => st.commit i ((st.tcbs i).tcpTick (st.env now))) st

/-- The connection a segment belongs to. -/
def connection (st : TcpStack) (srcIp : UInt32) (seg : TcpSegment) :
    Option (Fin tcpMaxSockets) :=
  first fun i => (st.tcbs i).state != .closed && (st.tcbs i).state != .listen &&
    (st.tcbs i).localPort == seg.dstPort && (st.tcbs i).remotePort == seg.srcPort &&
    (st.tcbs i).remoteIp == srcIp

/-- The listening socket a SYN is for. -/
def listener (st : TcpStack) (seg : TcpSegment) : Option (Fin tcpMaxSockets) :=
  first fun i => (st.tcbs i).state == .listen && (st.tcbs i).localPort == seg.dstPort &&
    hasFlag seg.flags tcpFlagSyn && !hasFlag seg.flags tcpFlagAck

/-- A segment from `srcIp`. -/
def receiveSegment (st : TcpStack) (now srcIp : UInt32) (seg : TcpSegment) : TcpStack :=
  match st.connection srcIp seg with
  | some i => st.commit i ((st.tcbs i).tcpHandleSegment (st.env now) seg)
  | none =>
    match st.listener seg with
    | none => st
    | some i =>
      match st.freeSocket with
      | none => st
      | some c => st.commit c (TcpControlBlock.tcpSendSynack (st.env now)
          (TcpControlBlock.passiveTcb (st.tcbs i) srcIp seg (tcpPickIsn now c)))

/-- A packet from `srcIp`. -/
def tcpReceivePacket (st : TcpStack) (now srcIp : UInt32) (packet : List UInt8) : TcpStack :=
  match TcpSegment.parse packet with
  | none => st
  | some seg => st.receiveSegment now srcIp seg

/-- Mark a connection as returned by `tcp_accept`. -/
def markAccepted (st : TcpStack) (i : Fin tcpMaxSockets) : TcpStack :=
  st.commit i ({ st.tcbs i with accepted := true }, [])

/-- An established connection spawned by a listening socket. -/
def tcpAccept (st : TcpStack) (listenSock : Int) : Option (Fin tcpMaxSockets) × TcpStack :=
  match socket listenSock with
  | none => (none, st)
  | some l =>
    if (st.tcbs l).state ≠ .listen then (none, st)
    else
      match first fun i => (st.tcbs i).fromListener && !(st.tcbs i).accepted &&
          (st.tcbs i).localPort == (st.tcbs l).localPort &&
          ((st.tcbs i).state == .established || (st.tcbs i).state == .closeWait) with
      | none => (none, st)
      | some i => (some i, st.markAccepted i)

end TcpStack

end VernisOS
