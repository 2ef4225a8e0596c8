import VernisOS.Lib.Bytes
import VernisOS.Lib.Ring
import VernisOS.Lib.Slots

/-!
# UDP sockets

`kernel/net/udp.c`, the sockets with their receive rings : `udp_bind`, `udp_close`,
`udp_recvfrom` and `udp_receive_packet`. A datagram in a ring is its source and the bytes
`data[0..len)`.
-/

open Bytes Slots

namespace VernisOS

/-- `UDP_MAX_SOCKETS`. -/
abbrev udpMaxSockets : ℕ := 8

/-- `UDP_RX_QUEUE`. -/
abbrev udpRxQueue : ℕ := 4

/-- `UDP_MAX_PAYLOAD`. -/
abbrev udpMaxPayload : ℕ := 1472

instance neZeroRxQueue : NeZero udpRxQueue :=
  ⟨by decide⟩

/-- `UdpDatagram`. -/
structure UdpDatagram where
  srcIp : UInt32
  srcPort : UInt16
  data : List UInt8
  deriving DecidableEq

/-- `UdpSocket`, with its ring. -/
structure UdpRing where
  inUse : Bool
  port : UInt16
  rxHead : UInt8
  rxCount : UInt8
  rx : Fin udpRxQueue → UdpDatagram

/-- A socket filled with zeros. -/
def UdpRing.zero : UdpRing :=
  ⟨false, 0, 0, 0, fun _ => ⟨0, 0, []⟩⟩

/-- Store a datagram behind those of the ring. -/
def UdpRing.push (s : UdpRing) (d : UdpDatagram) : UdpRing :=
  { s with
    rx := Function.update s.rx (Ring.pos udpRxQueue (s.rxHead.toNat + s.rxCount.toNat)) d
    rxCount := s.rxCount + 1 }

/-- Take the oldest datagram out of the ring. -/
def UdpRing.pop (s : UdpRing) : UdpRing :=
  { s with rxHead := (s.rxHead + 1) % UInt8.ofNat udpRxQueue, rxCount := s.rxCount - 1 }

/-- What `udp_receive_packet` reads of a segment : the ports and the length of the header, and
the bytes behind it. -/
structure UdpSegment where
  srcPort : UInt16
  dstPort : UInt16
  length : UInt16
  payload : List UInt8

/-- The header of a segment; `none` if it is too short for one. -/
def UdpSegment.parse : List UInt8 → Option UdpSegment
  | s₀ :: s₁ :: d₀ :: d₁ :: l₀ :: l₁ :: _ :: _ :: payload =>
    some ⟨ofBe16 s₀ s₁, ofBe16 d₀ d₁, ofBe16 l₀ l₁, payload⟩
  | _ => none

/-- The number of bytes that are taken of the payload : as many as the length field says, all
of them if it says more than there are or less than a header. -/
def UdpSegment.plen (seg : UdpSegment) : ℕ :=
  let plen : Int := seg.length.toNat - 8
  let plen := if plen < 0 ∨ plen > seg.payload.length then (seg.payload.length : Int) else plen
  (if plen > udpMaxPayload then (udpMaxPayload : Int) else plen).toNat

/-- The datagram that is stored for a segment. -/
def UdpSegment.datagram (seg : UdpSegment) (srcIp : UInt32) : UdpDatagram :=
  ⟨srcIp, seg.srcPort, seg.payload.take seg.plen⟩

/-- The sockets, and `g_next_ephemeral`. -/
structure UdpStack where
  socks : Fin udpMaxSockets → UdpRing
  nextEphemeral : UInt16

namespace UdpStack

/-- `udp_init`. -/
def udpInit : UdpStack :=
  ⟨fun _ => .zero, 50000⟩

/-- Store a socket. -/
def setSock (s : UdpStack) (i : Fin udpMaxSockets) (sock : UdpRing) : UdpStack :=
  { s with socks := Function.update s.socks i sock }

/-- The socket with a number, if it is in range. -/
@[irreducible] def socket (sock : Int) : Option (Fin udpMaxSockets) :=
  if h : 0 ≤ sock ∧ sock < udpMaxSockets then some ⟨sock.toNat, (Int.toNat_lt h.1).mpr h.2⟩
  else none

/-- The port that `udp_bind` takes, for 0 the next one of its own. -/
def choosePort (s : UdpStack) (port : UInt16) : UInt16 × UdpStack :=
  if port = 0 then
    (s.nextEphemeral, { s with
      nextEphemeral := if s.nextEphemeral + 1 < 50000 then 50000 else s.nextEphemeral + 1 })
  else (port, s)

/-- The socket in use with a port. -/
def onPort (s : UdpStack) (port : UInt16) : Option (Fin udpMaxSockets) :=
  first fun i => (s.socks i).inUse && (s.socks i).port == port

/-- `udp_bind`. -/
def udpBind (s : UdpStack) (port : UInt16) : Option (Fin udpMaxSockets) × UdpStack :=
  let (port, s) := s.choosePort port
  match s.onPort port with
  | some _ => (none, s)
  | none =>
    match first fun i => !(s.socks i).inUse with
    | none => (none, s)
    | some i => (some i, s.setSock i { UdpRing.zero with inUse := true, port := port })

/-- `udp_close`. The ring keeps what is in it. -/
def udpClose (s : UdpStack) (sock : Int) : Int × UdpStack :=
  match socket sock with
  | none => (-1, s)
  | some i => (0, s.setSock i { s.socks i with inUse := false })

/-- `udp_recvfrom`, with the datagram as it is put into the caller's buffers, `none` if there
is none. -/
def udpRecvfrom (s : UdpStack) (sock : Int) (maxlen : ℕ) :
    Int × Option UdpDatagram × UdpStack :=
  match socket sock with
  | none => (-1, none, s)
  | some i =>
    if !(s.socks i).inUse then (-1, none, s)
    else if (s.socks i).rxCount = 0 then (0, none, s)
    else
      let d := (s.socks i).rx (Ring.pos udpRxQueue (s.socks i).rxHead.toNat)
      let n := if d.data.length < maxlen then d.data.length else maxlen
      (n, some { d with data := d.data.take n }, s.setSock i (s.socks i).pop)

/-- `udp_receive_packet`. -/
def udpReceivePacket (s : UdpStack) (srcIp : UInt32) (packet : List UInt8) : UdpStack :=
  match UdpSegment.parse packet with
  | none => s
  | some seg =>
    match s.onPort seg.dstPort with
    | none => s
    | some i =>
      if UInt8.ofNat udpRxQueue ≤ (s.socks i).rxCount then s
      else s.setSock i ((s.socks i).push (seg.datagram srcIp))

end UdpStack

end VernisOS
