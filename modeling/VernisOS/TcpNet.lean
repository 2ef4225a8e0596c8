import VernisOS.TcpStack
import VernisOS.TcpStream

/-!
# Two TCP stacks and the network between them

`a` connects to `b`, once. Everything either of them hands to the IP layer stays in its
`sent`, and the network may deliver any of it, any number of times and in any order, or
never. Whatever the order of calls, ticks and deliveries, what `b` has received is an
initial part of what `a` has accepted (`tcp_stream_prefix`).
-/

open Slots SeqStream

namespace VernisOS

/-- Both stacks, the bytes `tcp_send` accepted at `a` and those `tcp_recv` returned at `b`. -/
structure TcpNet where
  a : TcpStack
  b : TcpStack
  accepted : List UInt8
  returned : List UInt8

/-- A call at one of the stacks, or the delivery of the packet at an index of `sent`. -/
inductive TcpNetOp where
  | send (now : UInt32) (sock : Int) (buf : List UInt8)
  | close (now : UInt32) (sock : Int)
  | recv (now : UInt32) (sock maxlen : Int)
  | accept (sock : Int)
  | tickA (now : UInt32)
  | tickB (now : UInt32)
  | toA (now : UInt32) (k : ℕ)
  | toB (now : UInt32) (k : ℕ)

/-- Deliver packet `k` of `src` to `dst`, if it is addressed to it. -/
def TcpStack.deliver (src dst : TcpStack) (now : UInt32) (k : ℕ) : TcpStack :=
  match src.sent[k]? with
  | none => dst
  | some (ip, packet) => if ip = dst.localIp then dst.tcpReceivePacket now src.localIp packet else dst

namespace TcpNet

/-- `b` listens on the port and `a` has called `tcp_connect`. -/
def connected (ipA ipB : UInt32) (port : UInt16) (now : UInt32) : TcpNet where
  a := (TcpStack.tcpConnect (TcpStack.tcpInit.tcpSetOutput ipA) now ipB port).2
  b := (TcpStack.tcpListen (TcpStack.tcpInit.tcpSetOutput ipB) port).2
  accepted := []
  returned := []

/-- One event. -/
def step (net : TcpNet) : TcpNetOp → TcpNet
  | .send now sock buf =>
    let (n, a) := net.a.tcpSend now sock buf
    { net with a := a, accepted := net.accepted ++ buf.take n.toNat }
  | .close now sock => { net with a := (net.a.tcpClose now sock).2 }
  | .recv now sock maxlen =>
    let (_, bytes, b) := net.b.tcpRecv now sock maxlen
    { net with b := b, returned := net.returned ++ bytes }
  | .accept sock => { net with b := (net.b.tcpAccept sock).2 }
  | .tickA now => { net with a := net.a.tcpTick now }
  | .tickB now => { net with b := net.b.tcpTick now }
  | .toA now k => { net with a := net.b.deliver net.a now k }
  | .toB now k => { net with b := net.a.deliver net.b now k }

/-- A sequence of events. -/
def run (net : TcpNet) (ops : List TcpNetOp) : TcpNet :=
  ops.foldl step net

end TcpNet

/-! ## The stack that connects -/

namespace TcpLink

variable {link : TcpLink} {S S' returned : List UInt8} {st : TcpStack}

/-- Socket 0 is the sender, the others are unused, and all that was sent is genuine. -/
structure SenderStack (link : TcpLink) (S : List UInt8) (st : TcpStack) : Prop where
  localIp : st.localIp = link.srcIp
  sender : link.Sender S (st.tcbs 0)
  unused : ∀ i, i ≠ 0 → (st.tcbs i).state = .closed
  sent : ∀ e ∈ st.sent, ∃ seg, e.2 = TcpSegment.encode link.srcIp link.dstIp seg ∧
    link.Genuine S seg

theorem SenderStack.commit (h : link.SenderStack S st) (hS : S <+: S')
    {r : TcpControlBlock × List TcpSegment} (hr : link.SenderStep S' r) :
    link.SenderStack S' (st.commit 0 r) where
  localIp := h.localIp
  sender := by
    rw [TcpStack.commit_tcbs_self]
    exact hr.1
  unused i hi := by
    rw [TcpStack.commit_tcbs_of_ne _ hi]
    exact h.unused i hi
  sent e he := by
    rcases TcpStack.mem_commit_sent.mp he with ⟨seg, hseg, rfl⟩ | he
    · exact ⟨seg, by rw [h.localIp, hr.1.remoteIp], hr.2 seg hseg⟩
    · obtain ⟨seg, heq, hg⟩ := h.sent e he
      exact ⟨seg, heq, hg.mono hS⟩

/-- A call on an unused socket changes nothing that matters. -/
theorem SenderStack.commit_unused (h : link.SenderStack S st) {i : Fin tcpMaxSockets} (hi : i ≠ 0)
    {tcb : TcpControlBlock} (hs : tcb.state = .closed) :
    link.SenderStack S (st.commit i (tcb, [])) where
  localIp := h.localIp
  sender := by
    rw [TcpStack.commit_tcbs_of_ne _ hi.symm]
    exact h.sender
  unused j hj := by
    by_cases hij : j = i
    · rw [hij, TcpStack.commit_tcbs_self]
      exact hs
    · rw [TcpStack.commit_tcbs_of_ne _ hij]
      exact h.unused j hj
  sent := h.sent

theorem SenderStack.tcpSend (h : link.SenderStack S st) (now : UInt32) (sock : Int)
    (buf : List UInt8) :
    link.SenderStack (S ++ buf.take (st.tcpSend now sock buf).1.toNat)
      (st.tcpSend now sock buf).2 := by
  unfold TcpStack.tcpSend
  split
  · dsimp only
    rw [Int.toNat_of_nonpos (by decide), List.take_zero, List.append_nil]
    exact h
  · next i _ =>
    by_cases hi : i = 0
    · subst hi
      exact h.commit (List.prefix_append _ _) (h.sender.tcpSend buf)
    · have hs := h.unused i hi
      have hr : (st.tcbs i).tcpSend (st.env now) buf = (-1, st.tcbs i, []) := by
        unfold TcpControlBlock.tcpSend
        rw [if_pos (by rw [hs]; decide)]
      rw [hr]
      dsimp only
      rw [Int.toNat_of_nonpos (by decide), List.take_zero, List.append_nil]
      exact h.commit_unused hi hs

theorem SenderStack.tcpClose (h : link.SenderStack S st) (now : UInt32) (sock : Int) :
    link.SenderStack S (st.tcpClose now sock).2 := by
  unfold TcpStack.tcpClose
  split
  · exact h
  · next i _ =>
    by_cases hi : i = 0
    · subst hi
      exact h.commit (List.prefix_refl S) h.sender.tcpClose
    · have hr : (st.tcbs i).tcpClose (st.env now) = ((st.tcbs i).setState .closed, []) := by
        unfold TcpControlBlock.tcpClose
        rw [h.unused i hi]
      rw [hr]
      exact h.commit_unused hi rfl

/-- A closed or listening socket does nothing in a tick. -/
theorem tcpTick_unused {env : TcpEnv} {tcb : TcpControlBlock}
    (hs : tcb.state = .closed ∨ tcb.state = .listen) : tcb.tcpTick env = (tcb, []) := by
  unfold TcpControlBlock.tcpTick
  rcases hs with hs | hs
  · rw [hs]
  · rw [hs]

theorem SenderStack.tcpTick (h : link.SenderStack S st) (now : UInt32) :
    link.SenderStack S (st.tcpTick now) := by
  refine List.foldlRecOn (slots tcpMaxSockets) _ h fun st' hst' i _ => ?_
  by_cases hi : i = 0
  · subst hi
    exact hst'.commit (List.prefix_refl S) hst'.sender.tcpTick
  · rw [tcpTick_unused (Or.inl (hst'.unused i hi))]
    exact hst'.commit_unused hi (hst'.unused i hi)

/-- The sender holds against any packet. -/
theorem SenderStack.tcpReceivePacket (h : link.SenderStack S st) (now srcIp : UInt32)
    (packet : List UInt8) : link.SenderStack S (st.tcpReceivePacket now srcIp packet) := by
  unfold TcpStack.tcpReceivePacket
  split
  · exact h
  unfold TcpStack.receiveSegment
  split
  · next i hi =>
    have hp := first_some hi
    simp only [Bool.and_eq_true, bne_iff_ne] at hp
    obtain rfl : i = 0 := by
      by_contra hne
      exact hp.1.1.1.1 (h.unused i hne)
    exact h.commit (List.prefix_refl S) (h.sender.tcpHandleSegment _)
  · split
    · exact h
    · next i hi =>
      have hp := first_some hi
      simp only [Bool.and_eq_true, beq_iff_eq] at hp
      have hl := hp.1.1.1
      by_cases hi0 : i = 0
      · rw [hi0] at hl
        exact absurd hl h.sender.passive.2
      · rw [h.unused i hi0] at hl
        cases hl

/-! ## The stack that listens -/

/-- Socket 0 listens, socket 1 is the receiver and the others are unused. -/
structure ReceiverStack (link : TcpLink) (S returned : List UInt8) (st : TcpStack) : Prop where
  listening : (st.tcbs 0).state = .listen
  receiver : link.Receiver S returned (st.tcbs 1)
  unused : ∀ i, i ≠ 0 → i ≠ 1 → (st.tcbs i).state = .closed
  empty : ∀ i, i ≠ 1 → (st.tcbs i).rxBuf = []

theorem ReceiverStack.mono (h : link.ReceiverStack S returned st) (hS : S <+: S') :
    link.ReceiverStack S' returned st :=
  { h with receiver := h.receiver.mono hS }

theorem ReceiverStack.commit {returned' : List UInt8} (h : link.ReceiverStack S returned st)
    {r : TcpControlBlock × List TcpSegment} (hr : link.Receiver S returned' r.1) :
    link.ReceiverStack S returned' (st.commit 1 r) where
  listening := by
    rw [TcpStack.commit_tcbs_of_ne _ (by decide)]
    exact h.listening
  receiver := by
    rw [TcpStack.commit_tcbs_self]
    exact hr
  unused i h0 h1 := by
    rw [TcpStack.commit_tcbs_of_ne _ h1]
    exact h.unused i h0 h1
  empty i h1 := by
    rw [TcpStack.commit_tcbs_of_ne _ h1]
    exact h.empty i h1

/-- A call on another socket that keeps its state and leaves its buffer empty. -/
theorem ReceiverStack.commit_unused (h : link.ReceiverStack S returned st)
    {i : Fin tcpMaxSockets} (hi : i ≠ 1) {r : TcpControlBlock × List TcpSegment}
    (hs : r.1.state = (st.tcbs i).state) (hrx : r.1.rxBuf = []) :
    link.ReceiverStack S returned (st.commit i r) where
  listening := by
    by_cases h0 : 0 = i
    · subst h0
      rw [TcpStack.commit_tcbs_self, hs]
      exact h.listening
    · rw [TcpStack.commit_tcbs_of_ne _ h0]
      exact h.listening
  receiver := by
    rw [TcpStack.commit_tcbs_of_ne _ hi.symm]
    exact h.receiver
  unused j h0 h1 := by
    by_cases hij : j = i
    · subst hij
      rw [TcpStack.commit_tcbs_self, hs]
      exact h.unused j h0 h1
    · rw [TcpStack.commit_tcbs_of_ne _ hij]
      exact h.unused j h0 h1
  empty j h1 := by
    by_cases hij : j = i
    · subst hij
      rw [TcpStack.commit_tcbs_self]
      exact hrx
    · rw [TcpStack.commit_tcbs_of_ne _ hij]
      exact h.empty j h1

theorem ReceiverStack.tcpRecv (h : link.ReceiverStack S returned st) (now : UInt32)
    (sock maxlen : Int) :
    link.ReceiverStack S (returned ++ (st.tcpRecv now sock maxlen).2.1)
      (st.tcpRecv now sock maxlen).2.2 := by
  unfold TcpStack.tcpRecv
  split
  · rw [List.append_nil]
    exact h
  · next i _ =>
    by_cases hi : i = 1
    · subst hi
      exact h.commit (h.receiver.tcpRecv maxlen)
    · obtain ⟨n, hbytes, hq, -⟩ := TcpControlBlock.tcpRecv_cases (st.env now) (st.tcbs i) maxlen
      rw [h.empty i hi, List.take_nil] at hbytes
      dsimp only
      rw [hbytes, List.append_nil]
      refine h.commit_unused hi hq.state ?_
      rw [hq.rxBuf]
      change (st.tcbs i).rxBuf.drop n = []
      rw [h.empty i hi, List.drop_nil]

theorem ReceiverStack.tcpAccept (h : link.ReceiverStack S returned st) (sock : Int) :
    link.ReceiverStack S returned (st.tcpAccept sock).2 := by
  unfold TcpStack.tcpAccept
  split
  · exact h
  split
  · exact h
  split
  · exact h
  · next i _ =>
    by_cases hi : i = 1
    · subst hi
      exact h.commit (r := ({ st.tcbs 1 with accepted := true }, [])) { h.receiver with }
    · exact h.commit_unused (r := ({ st.tcbs i with accepted := true }, [])) hi rfl (h.empty i hi)

theorem ReceiverStack.tcpTick (h : link.ReceiverStack S returned st) (now : UInt32) :
    link.ReceiverStack S returned (st.tcpTick now) := by
  refine List.foldlRecOn (slots tcpMaxSockets) _ h fun st' hst' i _ => ?_
  by_cases hi : i = 1
  · subst hi
    exact hst'.commit hst'.receiver.tcpTick
  · have hidle : (st'.tcbs i).state = .closed ∨ (st'.tcbs i).state = .listen := by
      by_cases h0 : i = 0
      · rw [h0]
        exact Or.inr hst'.listening
      · exact Or.inl (hst'.unused i h0 hi)
    rw [tcpTick_unused hidle]
    exact hst'.commit_unused hi rfl (hst'.empty i hi)

/-- The segment of a connection is handled by socket 1. -/
theorem ReceiverStack.connection (h : link.ReceiverStack S returned st) {srcIp : UInt32}
    {seg : TcpSegment} {i : Fin tcpMaxSockets} (hi : st.connection srcIp seg = some i) : i = 1 := by
  have hp := first_some hi
  simp only [Bool.and_eq_true, bne_iff_ne] at hp
  obtain ⟨hclosed, hlisten⟩ := hp.1.1.1
  by_contra h1
  by_cases h0 : i = 0
  · rw [h0] at hlisten
    exact hlisten h.listening
  · exact hclosed (h.unused i h0 h1)

/-- A genuine segment that belongs to no connection finds socket 1 closed. -/
theorem ReceiverStack.no_connection (h : link.ReceiverStack S returned st) {seg : TcpSegment}
    (hg : link.Genuine S seg) (hnone : st.connection link.srcIp seg = none) :
    (st.tcbs 1).state = .closed := by
  by_contra hs
  obtain ⟨hl, hr, hip⟩ := h.receiver.tuple hs
  have hp := first_none.mp hnone 1
  have hlisten : (st.tcbs 1).state ≠ .listen := by
    rcases h.receiver.states with h' | h' | h' | h' <;> rw [h'] <;> decide
  simp [hs, hlisten, hl, hr, hip, hg.srcPort, hg.dstPort] at hp

/-- A new connection is made in socket 1. -/
theorem ReceiverStack.freeSocket (h : link.ReceiverStack S returned st)
    (hs : (st.tcbs 1).state = .closed) {c : Fin tcpMaxSockets} (hc : st.freeSocket = some c) :
    c = 1 := by
  have hp := first_some hc
  rw [beq_iff_eq] at hp
  have hle := first_min hc (j := 1) (by rw [hs]; rfl)
  have h0 : c ≠ 0 := by
    rintro rfl
    rw [h.listening] at hp
    cases hp
  have hval : c.val ≤ 1 := hle
  have hne : c.val ≠ 0 := fun hv => h0 (Fin.ext hv)
  exact Fin.ext (by change c.val = 1; omega)

theorem ReceiverStack.receiveSegment (h : link.ReceiverStack S returned st)
    (hS : S.length < 2 ^ 32) (now : UInt32) {seg : TcpSegment} (hg : link.Genuine S seg) :
    link.ReceiverStack S returned (st.receiveSegment now link.srcIp seg) := by
  unfold TcpStack.receiveSegment
  split
  · next i hi =>
    obtain rfl := h.connection hi
    exact h.commit (h.receiver.tcpHandleSegment hS hg)
  · next hnone =>
    split
    · exact h
    · next l hl =>
      split
      · exact h
      · next c hc =>
        have hs := h.no_connection hg hnone
        obtain rfl := h.freeSocket hs hc
        obtain ⟨-, rfl⟩ := h.receiver.idle (Or.inl hs)
        have hp := first_some hl
        simp only [Bool.and_eq_true] at hp
        refine h.commit (Receiver.quiet ?_ (TcpControlBlock.quiet_tcpSendSynack _ _))
        exact receiver_passiveTcb link S _ _ hg hp.1.2

end TcpLink

/-! ## The network -/

namespace TcpNet

/-- The connection `a` has opened. -/
def link (ipA ipB : UInt32) (port : UInt16) (now : UInt32) : TcpLink :=
  ⟨ipA, 49152, ipB, port, TcpStack.tcpPickIsn now 0⟩

/-- Both ends are in order for what was accepted and returned. -/
structure Linked (link : TcpLink) (net : TcpNet) : Prop where
  sender : link.SenderStack net.accepted net.a
  receiver : link.ReceiverStack net.accepted net.returned net.b

/-- The first socket of a fresh stack is free. -/
theorem freeSocket_tcpInit (ip : UInt32) :
    (TcpStack.tcpInit.tcpSetOutput ip).freeSocket = some 0 :=
  first_eq_some.mpr ⟨rfl, fun j _ => Fin.zero_le j⟩

/-- The block `tcp_connect` fills in is that of a sender. -/
theorem sender_activeTcb (ipA ipB : UInt32) (port : UInt16) (now : UInt32) :
    (link ipA ipB port now).Sender []
      (TcpControlBlock.activeTcb ipA 49152 ipB port (TcpStack.tcpPickIsn now 0)) where
  localPort := rfl
  remotePort := rfl
  remoteIp := rfl
  passive := by
    change TcpState.synSent ≠ .synReceived ∧ TcpState.synSent ≠ .listen
    decide
  opening _ := ⟨rfl, rfl⟩
  window h := by rcases h with h | h <;> cases h

theorem senderStack_connected (ipA ipB : UInt32) (port : UInt16) (now : UInt32) :
    (link ipA ipB port now).SenderStack [] (connected ipA ipB port now).a := by
  have hs := sender_activeTcb ipA ipB port now
  change (link ipA ipB port now).SenderStack [] (TcpStack.tcpConnect _ now ipB port).2
  unfold TcpStack.tcpConnect
  rw [freeSocket_tcpInit]
  set tcb := TcpControlBlock.activeTcb ipA 49152 ipB port (TcpStack.tcpPickIsn now 0)
  have hq := TcpControlBlock.quiet_tcpSendSyn ⟨true, now⟩ tcb
  have hs' := hs.sameTx (.of_quiet hq) (Or.inl hq.state)
  refine ⟨rfl, ?_, fun i hi => ?_, fun e he => ?_⟩
  · rw [TcpStack.commit_tcbs_self]
    exact hs'
  · rw [TcpStack.commit_tcbs_of_ne _ hi]
    rfl
  · rcases TcpStack.mem_commit_sent.mp he with ⟨seg, hseg, rfl⟩ | he
    · refine ⟨seg, congrArg (TcpSegment.encode ipA · seg) hs'.remoteIp, ?_⟩
      have hmem : seg ∈ (TcpControlBlock.tcpOutputSeq ⟨true, now⟩ tcb tcpFlagSyn []
        tcb.seqNum).2 := hseg
      exact hs.genuine (TcpControlBlock.sends_of_mem hmem) (by decide) (fun _ => rfl) (Or.inl rfl)
    · cases he

theorem receiverStack_connected (ipA ipB : UInt32) (port : UInt16) (now : UInt32) :
    (link ipA ipB port now).ReceiverStack [] [] (connected ipA ipB port now).b := by
  change (link ipA ipB port now).ReceiverStack [] [] (TcpStack.tcpListen _ port).2
  unfold TcpStack.tcpListen
  rw [freeSocket_tcpInit]
  refine ⟨?_, ?_, fun i h0 _ => ?_, fun i _ => ?_⟩
  · rw [TcpStack.commit_tcbs_self]
    rfl
  · rw [TcpStack.commit_tcbs_of_ne _ (by decide)]
    exact TcpLink.receiver_closed _ _ rfl rfl
  · rw [TcpStack.commit_tcbs_of_ne _ h0]
    rfl
  · by_cases h0 : i = 0
    · rw [h0, TcpStack.commit_tcbs_self]
      rfl
    · rw [TcpStack.commit_tcbs_of_ne _ h0]
      rfl

theorem linked_connected (ipA ipB : UInt32) (port : UInt16) (now : UInt32) :
    Linked (link ipA ipB port now) (connected ipA ipB port now) :=
  ⟨senderStack_connected ipA ipB port now, receiverStack_connected ipA ipB port now⟩

/-- Bytes that were accepted stay accepted. -/
theorem accepted_step (net : TcpNet) (op : TcpNetOp) : net.accepted <+: (net.step op).accepted := by
  cases op with
  | send now sock buf => exact List.prefix_append _ _
  | _ => exact List.prefix_refl _

theorem Linked.step {link : TcpLink} {net : TcpNet} (h : Linked link net) (op : TcpNetOp)
    (hlen : (net.step op).accepted.length < 2 ^ 32) : Linked link (net.step op) := by
  have hlen' := (accepted_step net op).length_le.trans_lt hlen
  cases op with
  | send now sock buf =>
    exact ⟨h.sender.tcpSend now sock buf, h.receiver.mono (List.prefix_append _ _)⟩
  | close now sock => exact ⟨h.sender.tcpClose now sock, h.receiver⟩
  | recv now sock maxlen => exact ⟨h.sender, h.receiver.tcpRecv now sock maxlen⟩
  | accept sock => exact ⟨h.sender, h.receiver.tcpAccept sock⟩
  | tickA now => exact ⟨h.sender.tcpTick now, h.receiver⟩
  | tickB now => exact ⟨h.sender, h.receiver.tcpTick now⟩
  | toA now k =>
    refine ⟨?_, h.receiver⟩
    change link.SenderStack net.accepted (net.b.deliver net.a now k)
    unfold TcpStack.deliver
    split
    · exact h.sender
    · split
      · exact h.sender.tcpReceivePacket _ _ _
      · exact h.sender
  | toB now k =>
    refine ⟨h.sender, ?_⟩
    change link.ReceiverStack net.accepted net.returned (net.a.deliver net.b now k)
    unfold TcpStack.deliver
    split
    · exact h.receiver
    · next ip packet hk =>
      split
      · obtain ⟨seg, hp, hg⟩ := h.sender.sent _ (List.mem_of_getElem? hk)
        dsimp only at hp
        rw [hp, TcpStack.tcpReceivePacket, TcpSegment.parse_encode, h.sender.localIp]
        exact h.receiver.receiveSegment hlen' now hg
      · exact h.receiver

/-- As long as the numbers do not wrap around, both ends stay in order in every run. -/
theorem linked_run {link : TcpLink} {net : TcpNet} (h : Linked link net) (ops : List TcpNetOp)
    (hlen : (net.run ops).accepted.length < 2 ^ 32) : Linked link (net.run ops) := by
  refine List.foldlRecOn (motive := fun net => net.accepted.length < 2 ^ 32 → Linked link net)
    ops step (fun _ => h) (fun net' hnet' op _ hlen' => ?_) hlen
  exact (hnet' ((accepted_step net' op).length_le.trans_lt hlen')).step op hlen'

end TcpNet

/-- However the network behaves, and whatever the order of the calls, the bytes `tcp_recv`
has returned at `b`, followed by those in the receive buffer of any of its sockets, are an
initial part of the bytes `tcp_send` has accepted at `a`. -/
theorem tcp_stream_prefix (ipA ipB : UInt32) (port : UInt16) (now : UInt32)
    (ops : List TcpNetOp)
    (hlen : ((TcpNet.connected ipA ipB port now).run ops).accepted.length < 2 ^ 31)
    (i : Fin tcpMaxSockets) :
    ((TcpNet.connected ipA ipB port now).run ops).returned ++
        (((TcpNet.connected ipA ipB port now).run ops).b.tcbs i).rxBuf <+:
      ((TcpNet.connected ipA ipB port now).run ops).accepted := by
  have h := TcpNet.linked_run (TcpNet.linked_connected ipA ipB port now) ops (by omega)
  have hpre := h.receiver.receiver.isPrefix
  by_cases hi : i = 1
  · rw [hi]
    exact hpre
  · rw [h.receiver.empty i hi, List.append_nil]
    exact (List.prefix_append _ _).trans hpre

/-- Three bytes are lost, sent again and received, two of them by the application. -/
theorem tcp_stream_prefix_retransmitted :
    let ops : List TcpNetOp := [.toB 0 0, .toA 1 0, .toB 2 0, .accept 0, .send 3 0 [7, 8, 9],
      .tickA 400, .toB 401 0, .recv 402 1 2]
    let net := (TcpNet.connected 1 2 80 0).run ops
    net.accepted = [7, 8, 9] ∧ net.returned = [7, 8] ∧ (net.b.tcbs 1).rxBuf = [9] ∧
      net.returned ++ (net.b.tcbs 1).rxBuf <+: net.accepted := by
  refine ⟨by decide +kernel, by decide +kernel, by decide +kernel, ?_⟩
  exact tcp_stream_prefix 1 2 80 0 _ (by decide +kernel) 1

end VernisOS
