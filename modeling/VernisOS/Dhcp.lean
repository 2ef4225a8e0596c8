import VernisOS.Udp

/-!
# The DHCP client

`kernel/net/udp.c` : `dhcp_build`, `dhcp_parse` and `dhcp_run`. The client is a machine that
makes one step for each reading of the kernel's tick. The segments that arrived since the last
reading are in the UDP sockets by then, and in a waiting loop the step takes one datagram.
-/

open Bytes

namespace VernisOS

/-- The variables that every call of `dhcp_parse` fills. -/
@[ext] structure DhcpLease where
  ip : UInt32
  mask : UInt32
  gw : UInt32
  dns : UInt32
  server : UInt32
  deriving DecidableEq

/-- `DHCP_MAGIC`. -/
def dhcpMagic : UInt32 := 0x63825363

/-- `rd_be32` at an offset of a message. -/
def rdBe32 (pkt : List UInt8) (o : ℕ) : UInt32 :=
  ofBe32 (pkt.getD o 0) (pkt.getD (o + 1) 0) (pkt.getD (o + 2) 0) (pkt.getD (o + 3) 0)

/-- An option with a 32-bit value. -/
def dhcpOption32 (code : UInt8) (value : UInt32) : List UInt8 :=
  [code, 4] ++ be32 value

/-- The fixed fields of a message of the client. -/
def dhcpHeader (xid : UInt32) (mac : Fin 6 → UInt8) : List UInt8 :=
  [1, 1, 6, 0] ++ be32 xid ++ [0, 0, 0x80, 0] ++ List.replicate 16 0 ++ List.ofFn mac ++
    List.replicate 202 0 ++ be32 dhcpMagic

/-- `dhcp_build`. -/
def dhcpBuild (xid : UInt32) (mac : Fin 6 → UInt8) (msgType : UInt8) (reqIp serverIp : UInt32) :
    List UInt8 :=
  let opts := [53, 1, msgType] ++ (if reqIp ≠ 0 then dhcpOption32 50 reqIp else []) ++
    (if serverIp ≠ 0 then dhcpOption32 54 serverIp else []) ++ [55, 3, 1, 3, 6, 255]
  dhcpHeader xid mac ++ opts.rightpad 60 0

/-- The message type and the variables, while the options of a message are read. -/
@[ext] structure DhcpReply where
  msgType : UInt8
  lease : DhcpLease

/-- One option of `dhcp_parse`. -/
def DhcpReply.option (r : DhcpReply) (opt : UInt8) (v : List UInt8) : DhcpReply :=
  if opt = 53 then
    if 1 ≤ v.length then { r with msgType := v.getD 0 0 } else r
  else if opt = 1 then
    if 4 ≤ v.length then { r with lease := { r.lease with mask := rdBe32 v 0 } } else r
  else if opt = 3 then
    if 4 ≤ v.length then { r with lease := { r.lease with gw := rdBe32 v 0 } } else r
  else if opt = 6 then
    if 4 ≤ v.length then { r with lease := { r.lease with dns := rdBe32 v 0 } } else r
  else if opt = 54 then
    if 4 ≤ v.length then { r with lease := { r.lease with server := rdBe32 v 0 } } else r
  else r

/-- The loop of `dhcp_parse` over the bytes from an option on, with the number of bytes left
of the option before it. -/
def dhcpOptions : ℕ → List UInt8 → DhcpReply → DhcpReply
  | skip + 1, _ :: rest, r => dhcpOptions skip rest r
  | 0, opt :: olen :: rest, r =>
    if opt = 255 then r
    else if opt = 0 then dhcpOptions 0 (olen :: rest) r
    else if rest.length < olen.toNat then r
    else dhcpOptions olen.toNat rest (r.option opt (rest.take olen.toNat))
  | _, _, r => r

/-- The checks of `dhcp_parse` before it fills anything. -/
def dhcpAccepts (pkt : List UInt8) (xid : UInt32) : Bool :=
  244 ≤ pkt.length && pkt.getD 0 0 == 2 && rdBe32 pkt 4 == xid && rdBe32 pkt 236 == dhcpMagic

/-- `dhcp_parse` : the message type, 0 if the message has none, and the variables. -/
def dhcpParse (pkt : List UInt8) (xid : UInt32) (lease : DhcpLease) : UInt8 × DhcpLease :=
  if dhcpAccepts pkt xid then
    let r := dhcpOptions 0 (pkt.drop 240) ⟨0, { lease with ip := rdBe32 pkt 16 }⟩
    (r.msgType, r.lease)
  else (0, lease)

/-- Where `dhcp_run` is : before it reads the time of a DISCOVER or REQUEST, in the loop that
waits for the answer since `start`, or at its end. -/
inductive DhcpPhase where
  | discover (attempt : ℕ)
  | offer (attempt : ℕ) (start : UInt32)
  | request (attempt : ℕ)
  | ack (attempt : ℕ) (start : UInt32)
  | done (rc : Int)
  deriving DecidableEq

/-- The client, with the messages it has sent. -/
structure DhcpClient where
  udp : UdpStack
  sock : Fin udpMaxSockets
  mac : Fin 6 → UInt8
  hz : UInt32
  xid : UInt32
  phase : DhcpPhase
  lease : DhcpLease
  sent : List (List UInt8)

/-- A reading of the kernel's tick, and the segments that arrived since the one before. -/
structure DhcpTick where
  tick : UInt32
  packets : List (UInt32 × List UInt8)

namespace DhcpClient

/-- Enter the loop over the attempts : broadcast a DISCOVER, or give up after the third. -/
def startAttempt (d : DhcpClient) (attempt : ℕ) : DhcpClient :=
  if attempt < 3 then
    { d with phase := .discover attempt, sent := d.sent ++ [dhcpBuild d.xid d.mac 1 0 0] }
  else { d with phase := .done (-1), udp := (d.udp.udpClose d.sock).2 }

/-- The start of `dhcp_run`, at a tick; `none` if port 68 cannot be bound. -/
def start (udp : UdpStack) (mac : Fin 6 → UInt8) (hz tick : UInt32) : Option DhcpClient :=
  match udp.udpBind 68 with
  | (none, _) => none
  | (some sock, udp) =>
    let xid := tick <<< 8 ^^^ (mac 5).toUInt32 <<< 4 ^^^ (mac 4).toUInt32
    some (startAttempt ⟨udp, sock, mac, if hz = 0 then 240 else hz, xid, .discover 0,
      ⟨0, 0, 0, 0, 0⟩, []⟩ 0)

/-- The datagram at the head of the socket, `[]` if `udp_recvfrom` does not return more
than 0. -/
def recv (d : DhcpClient) : List UInt8 × DhcpClient :=
  let (_, datagram, udp) := d.udp.udpRecvfrom d.sock udpMaxPayload
  ((datagram.map UdpDatagram.data).getD [], { d with udp })

/-- Broadcast a REQUEST for the address and the server of the variables. -/
def sendRequest (d : DhcpClient) (attempt : ℕ) : DhcpClient :=
  { d with
    phase := .request attempt
    sent := d.sent ++ [dhcpBuild d.xid d.mac 3 d.lease.ip d.lease.server] }

/-- One turn of the loop that waits for an OFFER. -/
def pollOffer (d : DhcpClient) (attempt : ℕ) : DhcpClient :=
  let (pkt, d) := d.recv
  if pkt = [] then d
  else
    let (t, lease) := dhcpParse pkt d.xid d.lease
    if t = 2 then { d with lease }.sendRequest attempt else { d with lease }

/-- One turn of the loop that waits for an ACK. -/
def pollAck (d : DhcpClient) (attempt : ℕ) : DhcpClient :=
  let (pkt, d) := d.recv
  if pkt = [] then d
  else
    let (t, lease) := dhcpParse pkt d.xid d.lease
    if t = 5 then { d with lease, phase := .done 0, udp := (d.udp.udpClose d.sock).2 }
    else if t = 6 then { d with lease }.startAttempt (attempt + 1)
    else { d with lease }

/-- `udp_receive_packet` for every segment that has arrived. -/
def receive (d : DhcpClient) (packets : List (UInt32 × List UInt8)) : DhcpClient :=
  { d with udp := packets.foldl (fun udp p => udp.udpReceivePacket p.1 p.2) d.udp }

/-- `dhcp_run` up to its next reading of the tick. -/
def step (d : DhcpClient) (i : DhcpTick) : DhcpClient :=
  let d := d.receive i.packets
  match d.phase with
  | .discover attempt => { d with phase := .offer attempt i.tick }
  | .offer attempt start =>
    if i.tick - start < d.hz * 2 then d.pollOffer attempt else d.startAttempt (attempt + 1)
  | .request attempt => { d with phase := .ack attempt i.tick }
  | .ack attempt start =>
    if i.tick - start < d.hz * 2 then d.pollAck attempt else d.startAttempt (attempt + 1)
  | .done _ => d

end DhcpClient

end VernisOS
