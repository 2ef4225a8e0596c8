import Mathlib.Data.List.Forall2
import VernisOS.Lib.Run
import VernisOS.Udp

/-!
# UDP sockets are queues

A run of the calls on the sockets and of arriving packets. `arrived` lists, for a socket in
use, the segments that came for its port since `udp_bind` while fewer than `UDP_RX_QUEUE` were
waiting, and `returned` what `udp_recvfrom` has returned on it since. What was returned are
the first of those that arrived, in order and once, each cut to what its length field
announces, to what there is of it, to `UDP_MAX_PAYLOAD` and to `maxlen` (`udp_fifo`). A length
field that is less than a header announces all there is.
-/

open Run Slots

namespace VernisOS

/-- The calls on sockets, and the packets that arrive. -/
inductive UdpOp where
  | bind (port : UInt16)
  | close (sock : Int)
  | recvfrom (sock : Int) (maxlen : ℕ)
  | receivePacket (srcIp : UInt32) (packet : List UInt8)

/-- What `udp_recvfrom` returned for a buffer of `maxlen` bytes. -/
structure UdpReturn where
  maxlen : ℕ
  n : Int
  datagram : UdpDatagram
  deriving DecidableEq

/-- A segment that arrived, with its source. -/
structure UdpArrival where
  srcIp : UInt32
  seg : UdpSegment

/-- A run so far. -/
structure UdpLog where
  udp : UdpStack
  arrived : Fin udpMaxSockets → List UdpArrival
  returned : Fin udpMaxSockets → List UdpReturn

namespace UdpLog

/-- After `udp_init`. -/
def start : UdpLog :=
  ⟨.udpInit, fun _ => [], fun _ => []⟩

/-- The segment of a packet joins those of a socket in use with its port, if fewer than
`UDP_RX_QUEUE` of them are waiting. -/
def arrivals (log : UdpLog) (srcIp : UInt32) (packet : List UInt8) (i : Fin udpMaxSockets) :
    List UdpArrival :=
  match UdpSegment.parse packet with
  | none => []
  | some seg =>
    if (log.udp.socks i).inUse = true ∧ (log.udp.socks i).port = seg.dstPort ∧
        (log.arrived i).length < (log.returned i).length + udpRxQueue then [⟨srcIp, seg⟩] else []

/-- What a call of `udp_recvfrom` returned on a socket. -/
def returns (log : UdpLog) (sock : Int) (maxlen : ℕ) (i : Fin udpMaxSockets) : List UdpReturn :=
  let (n, d, _) := log.udp.udpRecvfrom sock maxlen
  match d with
  | none => []
  | some d => if UdpStack.socket sock = some i then [⟨maxlen, n, d⟩] else []

/-- One call or packet. -/
def step (log : UdpLog) : UdpOp → UdpLog
  | .bind port =>
    let (sock, udp) := log.udp.udpBind port
    ⟨udp, fun i => if sock = some i then [] else log.arrived i,
      fun i => if sock = some i then [] else log.returned i⟩
  | .close sock => { log with udp := (log.udp.udpClose sock).2 }
  | .recvfrom sock maxlen =>
    { log with
      udp := (log.udp.udpRecvfrom sock maxlen).2.2
      returned := fun i => log.returned i ++ log.returns sock maxlen i }
  | .receivePacket srcIp packet =>
    { log with
      udp := log.udp.udpReceivePacket srcIp packet
      arrived := fun i => log.arrived i ++ log.arrivals srcIp packet i }

/-- Every call returns. -/
def next (log : UdpLog) (op : UdpOp) : Option UdpLog :=
  some (log.step op)

end UdpLog

/-- What the length field leaves of the payload. -/
def UdpSegment.claimed (seg : UdpSegment) : ℕ :=
  seg.length.toNat - 8

/-- The same, with all there is for a length field that is less than a header. -/
def UdpSegment.announced (seg : UdpSegment) : ℕ :=
  if seg.length.toNat < 8 then seg.payload.length else seg.length.toNat - 8

/-- A datagram is returned with its own source, and cut. -/
def Delivers (size : UdpSegment → ℕ) (r : UdpReturn) (a : UdpArrival) : Prop :=
  r.datagram = ⟨a.srcIp, a.seg.srcPort,
      a.seg.payload.take (min (min (size a.seg) a.seg.payload.length) (min udpMaxPayload r.maxlen))⟩ ∧
    r.n = r.datagram.data.length

/-- Every socket in use has returned the first of the segments that arrived for it, and holds
the others. -/
def UdpLog.FifoBy (size : UdpSegment → ℕ) (log : UdpLog) : Prop :=
  ∀ i, (log.udp.socks i).inUse = true → ∃ taken pending, log.arrived i = taken ++ pending ∧
    List.Forall₂ (Delivers size) (log.returned i) taken ∧
    pending.length = (log.udp.socks i).rxCount.toNat

/-! ## One socket -/

theorem UdpSegment.plen_eq (seg : UdpSegment) :
    seg.plen = min (min seg.announced seg.payload.length) udpMaxPayload := by
  unfold plen announced
  dsimp only
  split_ifs <;> omega

namespace UdpRing

/-- The ring holds the datagrams of `pending`. -/
structure Holds (s : UdpRing) (pending : List UdpArrival) : Prop where
  head : s.rxHead.toNat < 4
  fifo : Ring.Fifo s.rx s.rxHead.toNat s.rxCount.toNat
    (pending.map fun a => a.seg.datagram a.srcIp)

theorem Holds.length {s : UdpRing} {pending : List UdpArrival} (h : s.Holds pending) :
    pending.length = s.rxCount.toNat := by
  have hlen := h.fifo.length
  rwa [List.length_map] at hlen

theorem holds_new (port : UInt16) :
    Holds { UdpRing.zero with inUse := true, port := port } [] :=
  ⟨show 0 < 4 by decide, Ring.fifo_empty _ _⟩

theorem Holds.push {s : UdpRing} {pending : List UdpArrival} (h : s.Holds pending)
    (hroom : s.rxCount.toNat < 4) (a : UdpArrival) :
    (s.push (a.seg.datagram a.srcIp)).Holds (pending ++ [a]) := by
  have hcount : (s.rxCount + 1).toNat = s.rxCount.toNat + 1 := by
    rw [UInt8.toNat_add]
    exact Nat.mod_eq_of_lt (by change s.rxCount.toNat + 1 < 256; omega)
  refine ⟨h.head, ?_⟩
  change Ring.Fifo (Function.update s.rx _ _) s.rxHead.toNat (s.rxCount + 1).toNat _
  rw [hcount, List.map_append]
  exact h.fifo.push hroom _

theorem Holds.pop {s : UdpRing} {pending : List UdpArrival} (h : s.Holds pending)
    (hc : s.rxCount ≠ 0) :
    ∃ a rest, pending = a :: rest ∧
      s.rx (Ring.pos udpRxQueue s.rxHead.toNat) = a.seg.datagram a.srcIp ∧ s.pop.Holds rest := by
  have hpos : 0 < s.rxCount.toNat := by
    refine Nat.pos_of_ne_zero fun h0 => hc ?_
    rw [← UInt8.toNat_inj, h0]
    rfl
  have hcount : (s.rxCount - 1).toNat + 1 = s.rxCount.toNat := by
    have hle : (1 : UInt8) ≤ s.rxCount := UInt8.le_iff_toNat_le.mpr hpos
    rw [UInt8.toNat_sub_of_le _ _ hle]
    exact Nat.sub_add_cancel hpos
  have hnext : ((s.rxHead + 1) % UInt8.ofNat udpRxQueue).toNat =
      (s.rxHead.toNat + 1) % udpRxQueue := by
    have hhead := h.head
    rw [UInt8.toNat_mod, UInt8.toNat_add]
    change (s.rxHead.toNat + 1) % 256 % 4 = _
    rw [Nat.mod_eq_of_lt (by omega : s.rxHead.toNat + 1 < 256)]
  have hfifo := h.fifo
  rw [← hcount] at hfifo
  obtain ⟨rest, hl, hrest⟩ := hfifo.pop
  cases pending with
  | nil => cases hl
  | cons a pending =>
    rw [List.map_cons, List.cons.injEq] at hl
    refine ⟨a, pending, rfl, hl.1.symm, ?_, ?_⟩
    · change ((s.rxHead + 1) % UInt8.ofNat udpRxQueue).toNat < 4
      rw [hnext]
      exact Nat.mod_lt _ (by decide)
    · change Ring.Fifo s.rx ((s.rxHead + 1) % UInt8.ofNat udpRxQueue).toNat
        (s.rxCount - 1).toNat _
      rw [hnext, hl.2]
      exact hrest

end UdpRing

/-! ## The table -/

namespace UdpStack

/-- No two sockets in use have the same port. -/
def OnePort (s : UdpStack) : Prop :=
  ∀ i j, (s.socks i).inUse = true → (s.socks j).inUse = true →
    (s.socks i).port = (s.socks j).port → i = j

theorem onPort_some {s : UdpStack} {port : UInt16} {i : Fin udpMaxSockets}
    (h : s.onPort port = some i) : (s.socks i).inUse = true ∧ (s.socks i).port = port := by
  have hi := first_some h
  rwa [Bool.and_eq_true, beq_iff_eq] at hi

theorem onPort_none {s : UdpStack} {port : UInt16} (h : s.onPort port = none)
    (i : Fin udpMaxSockets) (hi : (s.socks i).inUse = true) : (s.socks i).port ≠ port := by
  intro hp
  have hno := first_none.mp h i
  rw [hi, hp] at hno
  simp at hno

theorem choosePort_socks (s : UdpStack) (port : UInt16) :
    (s.choosePort port).2.socks = s.socks := by
  unfold choosePort
  split <;> rfl

/-- `udp_bind` fails, or takes a free socket for a port that no other socket has. -/
theorem udpBind_cases (s : UdpStack) (port : UInt16) :
    ((s.udpBind port).1 = none ∧ (s.udpBind port).2.socks = s.socks) ∨
      ∃ i p, (s.udpBind port).1 = some i ∧ (s.socks i).inUse = false ∧
        (∀ j, (s.socks j).inUse = true → (s.socks j).port ≠ p) ∧
        (s.udpBind port).2.socks =
          Function.update s.socks i { UdpRing.zero with inUse := true, port := p } := by
  have hsocks := s.choosePort_socks port
  unfold udpBind
  generalize s.choosePort port = r at hsocks ⊢
  obtain ⟨p, s'⟩ := r
  dsimp only at hsocks ⊢
  cases hp : s'.onPort p with
  | some k => exact Or.inl ⟨rfl, hsocks⟩
  | none =>
    dsimp only
    cases hfree : first fun i => !(s'.socks i).inUse with
    | none => exact Or.inl ⟨rfl, hsocks⟩
    | some i =>
      have hi := first_some hfree
      rw [Bool.not_eq_true', hsocks] at hi
      refine Or.inr ⟨i, p, rfl, hi, fun j hj => ?_, ?_⟩
      · rw [← hsocks] at hj ⊢
        exact onPort_none hp j hj
      · change Function.update s'.socks i _ = _
        rw [hsocks]

/-- `udp_recvfrom` returns nothing, or the oldest datagram of a socket in use. -/
theorem udpRecvfrom_cases (s : UdpStack) (sock : Int) (maxlen : ℕ) :
    ((s.udpRecvfrom sock maxlen).2.1 = none ∧ (s.udpRecvfrom sock maxlen).2.2 = s) ∨
      ∃ i d, socket sock = some i ∧ (s.socks i).inUse = true ∧ (s.socks i).rxCount ≠ 0 ∧
        (s.socks i).rx (Ring.pos udpRxQueue (s.socks i).rxHead.toNat) = d ∧
        s.udpRecvfrom sock maxlen = (((min d.data.length maxlen : ℕ) : Int),
          some { d with data := d.data.take (min d.data.length maxlen) },
          s.setSock i (s.socks i).pop) := by
  unfold udpRecvfrom
  rcases Option.eq_none_or_eq_some (socket sock) with hi | ⟨i, hi⟩
  · rw [hi]
    exact Or.inl ⟨rfl, rfl⟩
  rw [hi]
  dsimp only
  by_cases huse : (s.socks i).inUse = true
  · rw [if_neg (by rw [huse]; decide)]
    by_cases hc : (s.socks i).rxCount = 0
    · rw [if_pos hc]
      exact Or.inl ⟨rfl, rfl⟩
    · rw [if_neg hc]
      refine Or.inr ⟨i, _, rfl, huse, hc, rfl, ?_⟩
      generalize (s.socks i).rx (Ring.pos udpRxQueue (s.socks i).rxHead.toNat) = d
      have hn : (if d.data.length < maxlen then d.data.length else maxlen) =
          min d.data.length maxlen := by
        split <;> omega
      rw [hn]
  · rw [if_pos (by simpa using huse)]
    exact Or.inl ⟨rfl, rfl⟩

/-- `udp_receive_packet` drops a packet, or stores its datagram with the socket of its port. -/
theorem udpReceivePacket_cases (s : UdpStack) (srcIp : UInt32) (packet : List UInt8) :
    (s.udpReceivePacket srcIp packet = s ∧ ∀ seg, UdpSegment.parse packet = some seg →
        ∀ i, s.onPort seg.dstPort = some i → 4 ≤ (s.socks i).rxCount.toNat) ∨
      ∃ seg i, UdpSegment.parse packet = some seg ∧ s.onPort seg.dstPort = some i ∧
        (s.socks i).rxCount.toNat < 4 ∧ s.udpReceivePacket srcIp packet =
          s.setSock i ((s.socks i).push (seg.datagram srcIp)) := by
  unfold udpReceivePacket
  cases hparse : UdpSegment.parse packet with
  | none => exact Or.inl ⟨rfl, fun seg hseg => by cases hseg⟩
  | some seg =>
    dsimp only
    cases hport : s.onPort seg.dstPort with
    | none =>
      refine Or.inl ⟨rfl, fun seg' hseg i hi => ?_⟩
      cases hseg
      rw [hport] at hi
      cases hi
    | some i =>
      dsimp only
      by_cases hfull : UInt8.ofNat udpRxQueue ≤ (s.socks i).rxCount
      · rw [if_pos hfull]
        refine Or.inl ⟨rfl, fun seg' hseg j hj => ?_⟩
        cases hseg
        rw [hport] at hj
        cases hj
        exact UInt8.le_iff_toNat_le.mp hfull
      · rw [if_neg hfull]
        exact Or.inr ⟨seg, i, rfl, hport,
          UInt8.lt_iff_toNat_lt.mp (UInt8.not_le.mp hfull), rfl⟩

end UdpStack

/-! ## Runs -/

namespace UdpLog

/-- A socket in use, with what came for it. -/
def SockOk (sock : UdpRing) (arrived : List UdpArrival) (returned : List UdpReturn) : Prop :=
  ∃ taken pending, arrived = taken ++ pending ∧
    List.Forall₂ (Delivers UdpSegment.announced) returned taken ∧ sock.Holds pending

/-- The invariant of a run. -/
structure Inv (log : UdpLog) : Prop where
  ports : log.udp.OnePort
  socks : ∀ i, (log.udp.socks i).inUse = true →
    SockOk (log.udp.socks i) (log.arrived i) (log.returned i)

theorem Inv.fifo {log : UdpLog} (h : log.Inv) : log.FifoBy UdpSegment.announced := by
  intro i hi
  obtain ⟨taken, pending, harr, hret, hholds⟩ := h.socks i hi
  exact ⟨taken, pending, harr, hret, hholds.length⟩

theorem inv_start : start.Inv :=
  ⟨fun _ _ h => (by cases h), fun _ h => (by cases h)⟩

/-- What is waiting is what arrived and was not returned. -/
theorem SockOk.waiting {sock : UdpRing} {arrived : List UdpArrival} {returned : List UdpReturn}
    (h : SockOk sock arrived returned) :
    arrived.length = returned.length + sock.rxCount.toNat := by
  obtain ⟨taken, pending, rfl, hret, hholds⟩ := h
  rw [List.length_append, ← hholds.length, hret.length_eq]

theorem SockOk.push {sock : UdpRing} {arrived : List UdpArrival} {returned : List UdpReturn}
    (h : SockOk sock arrived returned) (hroom : sock.rxCount.toNat < 4) (a : UdpArrival) :
    SockOk (sock.push (a.seg.datagram a.srcIp)) (arrived ++ [a]) returned := by
  obtain ⟨taken, pending, rfl, hret, hholds⟩ := h
  exact ⟨taken, pending ++ [a], List.append_assoc .., hret, hholds.push hroom a⟩

/-- The oldest datagram is returned as it arrived, but cut. -/
theorem SockOk.pop {sock : UdpRing} {arrived : List UdpArrival} {returned : List UdpReturn}
    (h : SockOk sock arrived returned) (hc : sock.rxCount ≠ 0) (maxlen : ℕ) {d : UdpDatagram}
    (hd : sock.rx (Ring.pos udpRxQueue sock.rxHead.toNat) = d) :
    SockOk sock.pop arrived (returned ++ [⟨maxlen, (min d.data.length maxlen : ℕ),
      { d with data := d.data.take (min d.data.length maxlen) }⟩]) := by
  obtain ⟨taken, pending, rfl, hret, hholds⟩ := h
  obtain ⟨a, rest, rfl, ha, hrest⟩ := hholds.pop hc
  refine ⟨taken ++ [a], rest, by simp, List.rel_append hret (.cons ⟨?_, ?_⟩ .nil), hrest⟩
  · rw [← hd, ha]
    simp only [UdpSegment.datagram, UdpDatagram.mk.injEq, true_and, List.take_take,
      List.length_take, a.seg.plen_eq]
    congr 1
    omega
  · simp

/-- One socket changes, and the others do not. -/
theorem Inv.update {log : UdpLog} (h : log.Inv) {op : UdpOp} {i : Fin udpMaxSockets}
    {sock : UdpRing} (hsocks : (log.step op).udp.socks = Function.update log.udp.socks i sock)
    (hport : ∀ j, j ≠ i → (log.udp.socks j).inUse = true → sock.inUse = true →
      (log.udp.socks j).port ≠ sock.port)
    (hother : ∀ j, j ≠ i → (log.udp.socks j).inUse = true →
      (log.step op).arrived j = log.arrived j ∧ (log.step op).returned j = log.returned j)
    (hself : sock.inUse = true → SockOk sock ((log.step op).arrived i) ((log.step op).returned i)) :
    (log.step op).Inv := by
  have hi : (log.step op).udp.socks i = sock := by rw [hsocks, Function.update_self]
  have hj : ∀ j, j ≠ i → (log.step op).udp.socks j = log.udp.socks j := by
    intro j hne
    rw [hsocks, Function.update_of_ne hne]
  refine ⟨fun j k huj huk hp => ?_, fun j huj => ?_⟩
  · by_cases hji : j = i
    · by_cases hki : k = i
      · rw [hji, hki]
      · rw [hji, hi] at huj hp
        rw [hj k hki] at huk hp
        exact absurd hp.symm (hport k hki huk huj)
    · rw [hj j hji] at huj hp
      by_cases hki : k = i
      · rw [hki, hi] at huk hp
        exact absurd hp (hport j hji huj huk)
      · rw [hj k hki] at huk hp
        exact h.ports j k huj huk hp
  · by_cases hji : j = i
    · subst hji
      rw [hi] at huj ⊢
      exact hself huj
    · rw [hj j hji] at huj ⊢
      obtain ⟨harr, hret⟩ := hother j hji huj
      rw [harr, hret]
      exact h.socks j huj

/-- Nothing changes for the sockets in use. -/
theorem Inv.same {log : UdpLog} (h : log.Inv) {op : UdpOp}
    (hsocks : (log.step op).udp.socks = log.udp.socks)
    (hlists : ∀ j, (log.udp.socks j).inUse = true →
      (log.step op).arrived j = log.arrived j ∧ (log.step op).returned j = log.returned j) :
    (log.step op).Inv := by
  refine ⟨fun j k => ?_, fun j huj => ?_⟩
  · rw [hsocks]
    exact h.ports j k
  · rw [hsocks] at huj ⊢
    obtain ⟨harr, hret⟩ := hlists j huj
    rw [harr, hret]
    exact h.socks j huj

theorem Inv.bind {log : UdpLog} (h : log.Inv) (port : UInt16) : (log.step (.bind port)).Inv := by
  rcases log.udp.udpBind_cases port with ⟨hnone, hsocks⟩ | ⟨i, p, hsome, hfree, hport, hsocks⟩
  · refine h.same hsocks fun j _ => ?_
    simp [step, hnone]
  · refine h.update hsocks (fun j _ hj _ => hport j hj) (fun j hj huse => ?_) fun _ => ?_
    · have hne : ¬ (log.udp.udpBind port).1 = some j := by
        rw [hsome]
        exact fun he => hj (Option.some.inj he).symm
      exact ⟨if_neg hne, if_neg hne⟩
    · have harr : (log.step (.bind port)).arrived i = [] := if_pos hsome
      have hret : (log.step (.bind port)).returned i = [] := if_pos hsome
      rw [harr, hret]
      exact ⟨[], [], rfl, .nil, UdpRing.holds_new p⟩

theorem Inv.close {log : UdpLog} (h : log.Inv) (sock : Int) : (log.step (.close sock)).Inv := by
  rcases Option.eq_none_or_eq_some (UdpStack.socket sock) with hi | ⟨i, hi⟩
  · refine h.same ?_ fun j _ => ⟨rfl, rfl⟩
    simp only [step, UdpStack.udpClose, hi]
  · have hsocks : (log.step (.close sock)).udp.socks =
        Function.update log.udp.socks i { log.udp.socks i with inUse := false } := by
      simp only [step, UdpStack.udpClose, hi, UdpStack.setSock]
    exact h.update hsocks (fun j _ _ hno => (by cases hno)) (fun j _ _ => ⟨rfl, rfl⟩)
      fun hno => by cases hno

theorem Inv.recvfrom {log : UdpLog} (h : log.Inv) (sock : Int) (maxlen : ℕ) :
    (log.step (.recvfrom sock maxlen)).Inv := by
  rcases log.udp.udpRecvfrom_cases sock maxlen with ⟨hnone, hsame⟩ | ⟨i, d, hi, huse, hc, hd, hr⟩
  · refine h.same (by simp only [step, hsame]) fun j _ => ⟨rfl, ?_⟩
    simp only [step, returns, hnone, List.append_nil]
  · have hsocks : (log.step (.recvfrom sock maxlen)).udp.socks =
        Function.update log.udp.socks i (log.udp.socks i).pop := by
      simp only [step, hr, UdpStack.setSock]
    refine h.update hsocks (fun j hj huj _ hp => hj (h.ports j i huj huse hp))
      (fun j hj _ => ⟨rfl, ?_⟩) fun _ => ?_
    · have hne : ¬ UdpStack.socket sock = some j := by
        rw [hi]
        exact fun he => hj (Option.some.inj he).symm
      simp only [step, returns, hr, if_neg hne, List.append_nil]
    · have hret : (log.step (.recvfrom sock maxlen)).returned i = log.returned i ++
          [⟨maxlen, (min d.data.length maxlen : ℕ),
            { d with data := d.data.take (min d.data.length maxlen) }⟩] := by
        simp only [step, returns, hr, if_pos hi]
      rw [hret]
      exact (h.socks i huse).pop hc maxlen hd

theorem Inv.receivePacket {log : UdpLog} (h : log.Inv) (srcIp : UInt32) (packet : List UInt8) :
    (log.step (.receivePacket srcIp packet)).Inv := by
  rcases log.udp.udpReceivePacket_cases srcIp packet with ⟨hsame, hfull⟩ | ⟨seg, i, hseg, hi, hroom, hr⟩
  · refine h.same (by simp only [step, hsame]) fun j huj => ⟨?_, rfl⟩
    have hnone : log.arrivals srcIp packet j = [] := by
      unfold arrivals
      cases hparse : UdpSegment.parse packet with
      | none => rfl
      | some seg =>
        refine if_neg ?_
        rintro ⟨-, hp, hlt⟩
        rcases Option.eq_none_or_eq_some (log.udp.onPort seg.dstPort) with hno | ⟨k, hk⟩
        · exact UdpStack.onPort_none hno j huj hp
        · obtain ⟨huk, hpk⟩ := UdpStack.onPort_some hk
          obtain rfl := h.ports j k huj huk (hp.trans hpk.symm)
          have hcount := hfull seg hparse j hk
          have hwait := (h.socks j huj).waiting
          have hqueue : udpRxQueue = 4 := rfl
          omega
    simp only [step, hnone, List.append_nil]
  · obtain ⟨huse, hp⟩ := UdpStack.onPort_some hi
    have hsocks : (log.step (.receivePacket srcIp packet)).udp.socks =
        Function.update log.udp.socks i ((log.udp.socks i).push (seg.datagram srcIp)) := by
      simp only [step, hr, UdpStack.setSock]
    refine h.update hsocks (fun j hj huj _ hpj => hj (h.ports j i huj huse hpj))
      (fun j hj huj => ⟨?_, rfl⟩) fun _ => ?_
    · have hnone : log.arrivals srcIp packet j = [] := by
        rw [arrivals, hseg]
        exact if_neg fun hc => hj (h.ports j i huj huse (hc.2.1.trans hp.symm))
      simp only [step, hnone, List.append_nil]
    · have hone : log.arrivals srcIp packet i = [⟨srcIp, seg⟩] := by
        rw [arrivals, hseg]
        refine if_pos ⟨huse, hp, ?_⟩
        have hwait := (h.socks i huse).waiting
        have hqueue : udpRxQueue = 4 := rfl
        omega
      have harr : (log.step (.receivePacket srcIp packet)).arrived i =
          log.arrived i ++ [⟨srcIp, seg⟩] := by
        simp only [step, hone]
      rw [harr]
      exact (h.socks i huse).push hroom ⟨srcIp, seg⟩

theorem Inv.step {log : UdpLog} (h : log.Inv) (op : UdpOp) : (log.step op).Inv := by
  cases op with
  | bind port => exact h.bind port
  | close sock => exact h.close sock
  | recvfrom sock maxlen => exact h.recvfrom sock maxlen
  | receivePacket srcIp packet => exact h.receivePacket srcIp packet

end UdpLog

/-- In every run after `udp_init` every socket in use is a queue of the segments for its
port, at every moment. -/
theorem udp_fifo (ops : List UdpOp) :
    After UdpLog.next (UdpLog.FifoBy UdpSegment.announced) .start ops := by
  have hinv : After UdpLog.next UdpLog.Inv .start ops :=
    After.of_inv (f := UdpLog.step) (fun _ op h => h.step op) ops .start UdpLog.inv_start
  exact After.mono (fun _ h => UdpLog.Inv.fifo h) ops _ hinv

/-- A run that returns a datagram whose length field is 0. -/
def shortRun : UdpLog :=
  ((UdpLog.start.step (.bind 7)).step (.receivePacket 1 [0, 5, 0, 7, 0, 0, 0, 0, 65])).step
    (.recvfrom 0 10)

/-- A length field of 0 claims no payload, and the byte behind the header is returned. -/
theorem not_udp_fifo_claimed :
    ¬ After UdpLog.next (UdpLog.FifoBy UdpSegment.claimed) .start
      [.bind 7, .receivePacket 1 [0, 5, 0, 7, 0, 0, 0, 0, 65], .recvfrom 0 10] := by
  intro h
  have hfifo : shortRun.FifoBy UdpSegment.claimed := ((h.2 _ rfl).2 _ rfl).2 _ rfl
  obtain ⟨taken, pending, harr, hret, -⟩ := hfifo 0 (by decide +kernel)
  have hclaimed : (shortRun.arrived 0).all (fun a => a.seg.claimed == 0) = true := by
    decide +kernel
  have hreturned : shortRun.returned 0 = [⟨10, 1, ⟨1, 5, [65]⟩⟩] := by decide +kernel
  rw [hreturned] at hret
  obtain ⟨a, rest, hdel, -, rfl⟩ := List.forall₂_cons_left_iff.mp hret
  rw [harr, List.all_eq_true] at hclaimed
  have hzero : a.seg.claimed = 0 := beq_iff_eq.mp (hclaimed a (by simp))
  have hdata := congrArg UdpDatagram.data hdel.1
  rw [hzero] at hdata
  simp at hdata

end VernisOS
