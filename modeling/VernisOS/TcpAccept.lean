import VernisOS.Lib.Run
import VernisOS.TcpIdentity

/-!
# What tcp_accept returns

A socket is filled again and again. `Served` gives everything that fills one a number of its own
and notes the segment that spawned it, if one did, and the numbers that `tcp_accept` has returned.
Over every run each connection returned was spawned by a SYN to the port of the listening socket,
and is returned for the first time (`accept_once`) : `from_listener` is set for spawned blocks
only, and `accepted` with the return.
-/

open Run Slots

namespace VernisOS

namespace TcpControlBlock

variable {tcb tcb' : TcpControlBlock}

/-- `tcb'` has the port and the flags of `tcb`. -/
structure SameOrigin (tcb tcb' : TcpControlBlock) : Prop where
  localPort : tcb'.localPort = tcb.localPort
  fromListener : tcb'.fromListener = tcb.fromListener
  accepted : tcb'.accepted = tcb.accepted

theorem SameOrigin.refl (tcb : TcpControlBlock) : SameOrigin tcb tcb :=
  ⟨rfl, rfl, rfl⟩

theorem SameOrigin.trans {tcb'' : TcpControlBlock} (h : SameOrigin tcb tcb')
    (h' : SameOrigin tcb' tcb'') : SameOrigin tcb tcb'' :=
  ⟨h'.localPort.trans h.localPort, h'.fromListener.trans h.fromListener,
    h'.accepted.trans h.accepted⟩

theorem sameOrigin_tcpOutputSeq (env : TcpEnv) (tcb : TcpControlBlock) (flags : UInt8)
    (payload : List UInt8) (seq : UInt32) :
    SameOrigin tcb (tcpOutputSeq env tcb flags payload seq).1 := by
  obtain ⟨w, hw⟩ := tcpOutputSeq_fst env tcb flags payload seq
  rw [hw]
  exact ⟨rfl, rfl, rfl⟩

theorem SameOrigin.ite {p : Prop} [Decidable p] {a b : TcpControlBlock × List TcpSegment}
    (ha : SameOrigin tcb a.1) (hb : SameOrigin tcb b.1) :
    SameOrigin tcb (if p then a else b).1 := by
  split
  · exact ha
  · exact hb

theorem sameOrigin_tcpSend (env : TcpEnv) (tcb : TcpControlBlock) (buf : List UInt8) :
    SameOrigin tcb (tcpSend env tcb buf).2.1 := by
  unfold tcpSend
  split
  · exact SameOrigin.refl tcb
  · split
    · exact SameOrigin.refl tcb
    · dsimp only
      split
      · exact SameOrigin.refl tcb
      · have hqueued := fun bytes => sameOrigin_tcpOutputSeq env (tcb.queue bytes)
          (tcpFlagPsh ||| tcpFlagAck) bytes tcb.seqNum
        exact ⟨(hqueued _).localPort, (hqueued _).fromListener, (hqueued _).accepted⟩

theorem sameOrigin_tcpRecv (env : TcpEnv) (tcb : TcpControlBlock) (maxlen : Int) :
    SameOrigin tcb (tcpRecv env tcb maxlen).2.2.1 := by
  unfold tcpRecv
  split
  · exact SameOrigin.refl tcb
  · split
    · exact SameOrigin.refl tcb
    · dsimp only
      split
      · have hsent := sameOrigin_tcpOutputSeq env (tcb.dropRx (min tcb.rxBuf.length maxlen.toNat))
          tcpFlagAck [] tcb.seqNum
        exact ⟨hsent.localPort, hsent.fromListener, hsent.accepted⟩
      · exact ⟨rfl, rfl, rfl⟩

theorem sameOrigin_tcpClose (env : TcpEnv) (tcb : TcpControlBlock) :
    SameOrigin tcb (tcpClose env tcb).1 := by
  have hsent := sameOrigin_tcpOutputSeq env tcb (tcpFlagFin ||| tcpFlagAck) [] tcb.seqNum
  unfold tcpClose
  split
  · exact ⟨hsent.localPort, hsent.fromListener, hsent.accepted⟩
  · exact ⟨hsent.localPort, hsent.fromListener, hsent.accepted⟩
  · exact ⟨hsent.localPort, hsent.fromListener, hsent.accepted⟩
  · exact ⟨rfl, rfl, rfl⟩

theorem sameOrigin_tcpTick (env : TcpEnv) (tcb : TcpControlBlock) :
    SameOrigin tcb (tcpTick env tcb).1 := by
  have hidle := SameOrigin.refl tcb
  have hclosed : SameOrigin tcb (tcb.setState .closed) := ⟨rfl, rfl, rfl⟩
  have hsent := fun flags payload seq => sameOrigin_tcpOutputSeq env tcb flags payload seq
  have hcounted : ∀ t now, SameOrigin tcb t → SameOrigin tcb (t.countRetransmit.setActivity now) :=
    fun _ _ h => ⟨h.localPort, h.fromListener, h.accepted⟩
  have hretried : ∀ t now, SameOrigin tcb t → SameOrigin tcb (t.countRetransmit.setRto now) :=
    fun _ _ h => ⟨h.localPort, h.fromListener, h.accepted⟩
  have hagain : ∀ (p : Prop) [Decidable p],
      SameOrigin tcb (if p then tcpSendSyn env tcb else tcpSendSynack env tcb).1 := fun _ _ =>
    .ite ⟨(hsent _ _ _).localPort, (hsent _ _ _).fromListener, (hsent _ _ _).accepted⟩
      ⟨(hsent _ _ _).localPort, (hsent _ _ _).fromListener, (hsent _ _ _).accepted⟩
  unfold tcpTick
  cases tcb.state with
  | synSent | synReceived => exact .ite (.ite (hcounted _ _ (hagain _)) hclosed) hidle
  | established | closeWait =>
    exact .ite (.ite (.ite (hretried _ _ (hsent _ _ _)) hclosed) hidle) hidle
  | finWait1 | finWait2 | lastAck | closing | timeWait => exact .ite hclosed hidle
  | closed | listen => exact hidle

theorem sameOrigin_receiveData (tcb : TcpControlBlock) (seq : UInt32) (data : List UInt8) :
    SameOrigin tcb (tcb.receiveData seq data) := by
  unfold receiveData
  dsimp only
  split
  · split <;> exact ⟨rfl, rfl, rfl⟩
  · split <;> exact ⟨rfl, rfl, rfl⟩

theorem sameOrigin_tcpAckAdvance (env : TcpEnv) (tcb : TcpControlBlock) (ack : UInt32)
    (wnd : UInt16) : SameOrigin tcb (tcpAckAdvance env tcb ack wnd) := by
  unfold tcpAckAdvance
  dsimp only
  split <;> exact ⟨rfl, rfl, rfl⟩

theorem sameOrigin_acked (env : TcpEnv) (tcb : TcpControlBlock) (seg : TcpSegment) :
    SameOrigin tcb (if hasFlag seg.flags tcpFlagAck then
      tcpAckAdvance env tcb seg.ackNum seg.window else tcb) := by
  split
  · exact sameOrigin_tcpAckAdvance env tcb _ _
  · exact SameOrigin.refl tcb

theorem sameOrigin_handleEstablished (env : TcpEnv) (tcb : TcpControlBlock) (seg : TcpSegment) :
    SameOrigin tcb (handleEstablished env tcb seg).1 := by
  have hacked := sameOrigin_acked env tcb seg
  unfold handleEstablished
  dsimp only
  set t := if hasFlag seg.flags tcpFlagAck then tcpAckAdvance env tcb seg.ackNum seg.window
    else tcb
  have hdata : SameOrigin tcb (if 0 < seg.payload.length then
      tcpSendAck env (t.receiveData seg.seqNum seg.payload) else (t, [])).1 :=
    .ite ((hacked.trans (sameOrigin_receiveData t _ _)).trans (sameOrigin_tcpOutputSeq _ _ _ _ _))
      hacked
  set r := if 0 < seg.payload.length then
    tcpSendAck env (t.receiveData seg.seqNum seg.payload) else (t, [])
  have htaken : SameOrigin tcb (r.1.setAck (r.1.ackNum + 1)) :=
    ⟨hdata.localPort, hdata.fromListener, hdata.accepted⟩
  have hsent := htaken.trans (sameOrigin_tcpOutputSeq env _ tcpFlagAck []
    (r.1.setAck (r.1.ackNum + 1)).seqNum)
  exact .ite ⟨hsent.localPort, hsent.fromListener, hsent.accepted⟩ hdata

theorem sameOrigin_takeFin (env : TcpEnv) (tcb : TcpControlBlock) (seg : TcpSegment) :
    SameOrigin tcb (takeFin env tcb seg).1 := by
  have hsent := sameOrigin_tcpOutputSeq env (tcb.setAck (seg.seqNum + 1)) tcpFlagAck []
    (tcb.setAck (seg.seqNum + 1)).seqNum
  exact ⟨hsent.localPort, hsent.fromListener, hsent.accepted⟩

/-- A segment keeps the port and the flags of the connection it belongs to. -/
theorem sameOrigin_tcpHandleSegment (env : TcpEnv) (tcb : TcpControlBlock) (seg : TcpSegment) :
    SameOrigin tcb (tcpHandleSegment env tcb seg).1 := by
  have hidle := SameOrigin.refl tcb
  have hclosed : SameOrigin tcb (tcb.setState .closed) := ⟨rfl, rfl, rfl⟩
  unfold tcpHandleSegment
  refine .ite hclosed ?_
  cases tcb.state with
  | synSent =>
    have hsent := sameOrigin_tcpOutputSeq env ((((tcb.setSeq (tcb.seqNum + 1)).setAck
      (seg.seqNum + 1)).openSendWindow seg.window env.now).setState .established) tcpFlagAck []
      (tcb.seqNum + 1)
    exact .ite ⟨hsent.localPort, hsent.fromListener, hsent.accepted⟩ hidle
  | synReceived => exact .ite ⟨rfl, rfl, rfl⟩ hidle
  | established => exact sameOrigin_handleEstablished env tcb seg
  | closeWait => exact sameOrigin_acked env tcb seg
  | finWait1 =>
    dsimp only
    set t := if hasFlag seg.flags tcpFlagAck = true ∧ seg.ackNum = tcb.seqNum + 1 then
      (tcb.setSeq (tcb.seqNum + 1)).setState .finWait2 else tcb with ht
    have hacked : SameOrigin tcb t := by
      rw [ht]
      split <;> exact ⟨rfl, rfl, rfl⟩
    have htaken := hacked.trans (sameOrigin_takeFin env t seg)
    exact .ite ⟨htaken.localPort, htaken.fromListener, htaken.accepted⟩ hacked
  | finWait2 =>
    have htaken := sameOrigin_takeFin env tcb seg
    exact .ite ⟨htaken.localPort, htaken.fromListener, htaken.accepted⟩ hidle
  | closing | lastAck => exact .ite hclosed hidle
  | closed | listen | timeWait => exact hidle

end TcpControlBlock

/-! ## Numbers for what fills a socket -/

/-- The stack, with a number for what is in each socket. -/
structure Served where
  stack : TcpStack
  serial : Fin tcpMaxSockets → ℕ
  /-- The next number. -/
  fresh : ℕ
  /-- The segment that spawned the connection with a number. -/
  spawnedBy : ℕ → Option TcpSegment
  /-- The numbers of the connections that `tcp_accept` has returned. -/
  returned : List ℕ

namespace Served

variable {g : Served} {stack : TcpStack}

/-- After `tcp_init` every socket has its own number. -/
def start : Served :=
  ⟨.tcpInit, Fin.val, tcpMaxSockets, fun _ => none, []⟩

/-- The socket that is filled for a peer between two states. -/
def filled (st st' : TcpStack) : Option (Fin tcpMaxSockets) :=
  first fun c => (st.tcbs c).state == .closed && (st'.tcbs c).state == .synReceived

/-- A socket is filled. -/
def fill (g : Served) (stack : TcpStack) (k : Fin tcpMaxSockets) (origin : Option TcpSegment) :
    Served :=
  { g with
    stack := stack
    serial := Function.update g.serial k g.fresh
    fresh := g.fresh + 1
    spawnedBy := Function.update g.spawnedBy g.fresh origin }

/-- One event. -/
def step (g : Served) (i : TcpInput) : Served :=
  let stack := g.stack.step i
  match i.op with
  | .connect ip port =>
    match (g.stack.tcpConnect i.now ip port).1 with
    | some k => g.fill stack k none
    | none => { g with stack := stack }
  | .listen port =>
    match (g.stack.tcpListen port).1 with
    | some k => g.fill stack k none
    | none => { g with stack := stack }
  | .packet _ bytes =>
    match filled g.stack stack with
    | some k => g.fill stack k (TcpSegment.parse bytes)
    | none => { g with stack := stack }
  | .accept listenSock =>
    match (g.stack.tcpAccept listenSock).1 with
    | some k => { g with stack := stack, returned := g.serial k :: g.returned }
    | none => { g with stack := stack }
  | _ => { g with stack := stack }

/-- The state after an event. -/
def next (g : Served) (i : TcpInput) : Option Served :=
  some (g.step i)

/-- What is in socket `k` was spawned by a SYN to `port`. -/
def SpawnedTo (g : Served) (k : Fin tcpMaxSockets) (port : UInt16) : Prop :=
  ∃ seg, g.spawnedBy (g.serial k) = some seg ∧ hasFlag seg.flags tcpFlagSyn = true ∧
    seg.dstPort = port

/-- A socket that `tcp_accept` returns has an open connection that was spawned by a SYN to the
port of the listening socket, and has not been returned before. -/
def AcceptsOnce (g : Served) (i : TcpInput) : Prop :=
  ∀ listenSock, i.op = .accept listenSock → ∀ k, (g.stack.tcpAccept listenSock).1 = some k →
    ∃ l, TcpStack.socket listenSock = some l ∧ (g.stack.tcbs l).state = .listen ∧
      g.SpawnedTo k (g.stack.tcbs l).localPort ∧
      ((g.stack.tcbs k).state = .established ∨ (g.stack.tcbs k).state = .closeWait) ∧
      g.serial k ∉ g.returned

/-- The numbers are different, what `from_listener` marks was spawned, and what can still be
returned was not. -/
structure Recorded (g : Served) : Prop where
  below : ∀ k, g.serial k < g.fresh
  distinct : Function.Injective g.serial
  past : ∀ n ∈ g.returned, n < g.fresh
  spawned : ∀ k, (g.stack.tcbs k).fromListener = true → g.SpawnedTo k (g.stack.tcbs k).localPort
  pending : ∀ k, (g.stack.tcbs k).fromListener = true → (g.stack.tcbs k).accepted = false →
    g.serial k ∉ g.returned

/-! ## One event -/

/-- Sockets that keep their port and flags. -/
theorem Recorded.same (h : Recorded g)
    (hk : ∀ k, TcpControlBlock.SameOrigin (g.stack.tcbs k) (stack.tcbs k)) :
    Recorded { g with stack := stack } := by
  refine ⟨h.below, h.distinct, h.past, fun k hfrom => ?_, fun k hfrom hacc => ?_⟩
  · change g.SpawnedTo k (stack.tcbs k).localPort
    rw [(hk k).localPort]
    exact h.spawned k ((hk k).fromListener.symm.trans hfrom)
  · exact h.pending k ((hk k).fromListener.symm.trans hfrom) ((hk k).accepted.symm.trans hacc)

/-- A socket is filled, and the others keep their port and flags. -/
theorem Recorded.fill (h : Recorded g) {k : Fin tcpMaxSockets} {origin : Option TcpSegment}
    (hk : ∀ j, j ≠ k → TcpControlBlock.SameOrigin (g.stack.tcbs j) (stack.tcbs j))
    (hnew : (stack.tcbs k).fromListener = true → ∃ seg, origin = some seg ∧
      hasFlag seg.flags tcpFlagSyn = true ∧ seg.dstPort = (stack.tcbs k).localPort) :
    Recorded (g.fill stack k origin) := by
  have hself : (g.fill stack k origin).serial k = g.fresh := Function.update_self ..
  have hother : ∀ j, j ≠ k → (g.fill stack k origin).serial j = g.serial j :=
    fun j hj => Function.update_of_ne hj ..
  have hkept : ∀ n, n < g.fresh → (g.fill stack k origin).spawnedBy n = g.spawnedBy n :=
    fun n hn => Function.update_of_ne (Nat.ne_of_lt hn) ..
  refine ⟨fun j => ?_, fun i j hij => ?_, fun n hn => Nat.lt_succ_of_lt (h.past n hn),
    fun j hfrom => ?_, fun j hfrom hacc => ?_⟩
  · by_cases hj : j = k
    · rw [hj, hself]
      exact Nat.lt_succ_self _
    · rw [hother j hj]
      exact Nat.lt_succ_of_lt (h.below j)
  · by_cases hi : i = k
    · by_cases hj : j = k
      · rw [hi, hj]
      · rw [hi, hself, hother j hj] at hij
        exact absurd hij.symm (Nat.ne_of_lt (h.below j))
    · by_cases hj : j = k
      · rw [hj, hself, hother i hi] at hij
        exact absurd hij (Nat.ne_of_lt (h.below i))
      · rw [hother i hi, hother j hj] at hij
        exact h.distinct hij
  · by_cases hj : j = k
    · subst hj
      obtain ⟨seg, hby, hsyn, hport⟩ := hnew hfrom
      refine ⟨seg, ?_, hsyn, hport⟩
      rw [hself, ← hby]
      exact Function.update_self ..
    · obtain ⟨seg, hby, hsyn, hport⟩ := h.spawned j ((hk j hj).fromListener.symm.trans hfrom)
      refine ⟨seg, ?_, hsyn, hport.trans (hk j hj).localPort.symm⟩
      rw [hother j hj, hkept _ (h.below j)]
      exact hby
  · by_cases hj : j = k
    · rw [hj, hself]
      exact fun hmem => Nat.lt_irrefl _ (h.past _ hmem)
    · rw [hother j hj]
      exact h.pending j ((hk j hj).fromListener.symm.trans hfrom)
        ((hk j hj).accepted.symm.trans hacc)

theorem sameOrigin_commit (st : TcpStack) (i : Fin tcpMaxSockets)
    {r : TcpControlBlock × List TcpSegment}
    (h : TcpControlBlock.SameOrigin (st.tcbs i) r.1) (j : Fin tcpMaxSockets) :
    TcpControlBlock.SameOrigin (st.tcbs j) ((st.commit i r).tcbs j) := by
  by_cases hj : j = i
  · subst hj
    rw [TcpStack.commit_tcbs_self]
    exact h
  · rw [TcpStack.commit_tcbs_of_ne st hj]
    exact TcpControlBlock.SameOrigin.refl _

theorem sameOrigin_commit_of_ne (st : TcpStack) {i j : Fin tcpMaxSockets} (hj : j ≠ i)
    (r : TcpControlBlock × List TcpSegment) :
    TcpControlBlock.SameOrigin (st.tcbs j) ((st.commit i r).tcbs j) := by
  rw [TcpStack.commit_tcbs_of_ne st hj]
  exact TcpControlBlock.SameOrigin.refl _

theorem sameOrigin_stackTick (st : TcpStack) (now : UInt32) (j : Fin tcpMaxSockets) :
    TcpControlBlock.SameOrigin (st.tcbs j) ((st.tcpTick now).tcbs j) := by
  refine List.foldlRecOn (motive := fun (st' : TcpStack) =>
    TcpControlBlock.SameOrigin (st.tcbs j) (st'.tcbs j)) (slots tcpMaxSockets) _
    (TcpControlBlock.SameOrigin.refl _) fun st' hst' i _ => ?_
  exact hst'.trans (sameOrigin_commit st' i (TcpControlBlock.sameOrigin_tcpTick _ _) j)

/-- A packet is handled by the sockets there are, or spawns a connection in a free one. -/
theorem packet_cases (st : TcpStack) (now srcIp : UInt32) (bytes : List UInt8) :
    (∀ j, TcpControlBlock.SameOrigin (st.tcbs j) ((st.tcpReceivePacket now srcIp bytes).tcbs j)) ∧
        filled st (st.tcpReceivePacket now srcIp bytes) = none ∨
      ∃ k seg, TcpSegment.parse bytes = some seg ∧ hasFlag seg.flags tcpFlagSyn = true ∧
        filled st (st.tcpReceivePacket now srcIp bytes) = some k ∧
        (∀ j, j ≠ k → TcpControlBlock.SameOrigin (st.tcbs j)
          ((st.tcpReceivePacket now srcIp bytes).tcbs j)) ∧
        ((st.tcpReceivePacket now srcIp bytes).tcbs k).localPort = seg.dstPort := by
  have hidle : ∀ st : TcpStack, filled st st = none := by
    intro st
    refine first_none.mpr fun c => ?_
    cases (st.tcbs c).state <;> rfl
  unfold TcpStack.tcpReceivePacket
  cases hparse : TcpSegment.parse bytes with
  | none => exact Or.inl ⟨fun _ => TcpControlBlock.SameOrigin.refl _, hidle st⟩
  | some seg =>
    dsimp only
    unfold TcpStack.receiveSegment
    cases hconn : st.connection srcIp seg with
    | some i =>
      -- a socket that has a connection is not free
      refine Or.inl ⟨sameOrigin_commit st i
        (TcpControlBlock.sameOrigin_tcpHandleSegment _ _ _), first_none.mpr fun c => ?_⟩
      dsimp only
      by_cases hc : c = i
      · have hopen := (TcpStack.connection_some hconn).1.1
        rw [hc, beq_false_of_ne hopen, Bool.false_and]
      · rw [TcpStack.commit_tcbs_of_ne st hc]
        cases (st.tcbs c).state <;> rfl
    | none =>
      dsimp only
      cases hlistener : st.listener seg with
      | none => exact Or.inl ⟨fun _ => TcpControlBlock.SameOrigin.refl _, hidle st⟩
      | some l =>
        dsimp only
        cases hfree : st.freeSocket with
        | none => exact Or.inl ⟨fun _ => TcpControlBlock.SameOrigin.refl _, hidle st⟩
        | some k =>
          dsimp only
          set tcb := TcpControlBlock.passiveTcb (st.tcbs l) srcIp seg
            (TcpStack.tcpPickIsn now k) with htcb
          have hq := TcpControlBlock.quiet_tcpSendSynack (st.env now) tcb
          have hlisten := first_some hlistener
          simp only [Bool.and_eq_true] at hlisten
          refine Or.inr ⟨k, seg, rfl, hlisten.1.2, ?_, fun j hj =>
            sameOrigin_commit_of_ne st hj _, ?_⟩
          · refine first_eq_some.mpr ⟨?_, fun j hj => ?_⟩
            · rw [TcpStack.commit_tcbs_self, hq.state, TcpStack.freeSocket_closed hfree]
              rfl
            · by_cases hjk : j = k
              · exact le_of_eq hjk.symm
              · rw [TcpStack.commit_tcbs_of_ne st hjk] at hj
                cases hstate : (st.tcbs j).state <;> rw [hstate] at hj <;> cases hj
          · rw [TcpStack.commit_tcbs_self, hq.localPort]
            rfl

theorem Recorded.packet (h : Recorded g) (now srcIp : UInt32) (bytes : List UInt8) :
    Recorded (g.step ⟨now, .packet srcIp bytes⟩) := by
  have hstep : g.step ⟨now, .packet srcIp bytes⟩ =
      match filled g.stack (g.stack.tcpReceivePacket now srcIp bytes) with
      | some k => g.fill (g.stack.tcpReceivePacket now srcIp bytes) k (TcpSegment.parse bytes)
      | none => { g with stack := g.stack.tcpReceivePacket now srcIp bytes } := rfl
  rw [hstep]
  rcases packet_cases g.stack now srcIp bytes with ⟨hsame, hnone⟩ |
    ⟨k, seg, hparse, hsyn, hsome, hsame, hport⟩
  · rw [hnone]
    exact h.same hsame
  · rw [hsome]
    exact h.fill hsame fun _ => ⟨seg, hparse, hsyn, hport.symm⟩

/-- A socket is filled by `tcp_connect` or `tcp_listen`. -/
theorem Recorded.opened (h : Recorded g) {r : Option (Fin tcpMaxSockets) × TcpStack}
    (hr : r.1 = none ∧ r.2 = g.stack ∨ ∃ k, r.1 = some k ∧
      (∀ j, j ≠ k → TcpControlBlock.SameOrigin (g.stack.tcbs j) (r.2.tcbs j)) ∧
      (r.2.tcbs k).fromListener = false) :
    Recorded (match r.1 with
      | some k => g.fill r.2 k none
      | none => { g with stack := r.2 }) := by
  rcases hr with ⟨hnone, hstack⟩ | ⟨k, hsome, hsame, hown⟩
  · rw [hnone, hstack]
    exact h
  · rw [hsome]
    refine h.fill hsame fun hfrom => ?_
    rw [hown] at hfrom
    exact absurd hfrom Bool.false_ne_true

theorem connect_cases (st : TcpStack) (now ip : UInt32) (port : UInt16) :
    (st.tcpConnect now ip port).1 = none ∧ (st.tcpConnect now ip port).2 = st ∨
      ∃ k, (st.tcpConnect now ip port).1 = some k ∧
        (∀ j, j ≠ k → TcpControlBlock.SameOrigin (st.tcbs j)
          ((st.tcpConnect now ip port).2.tcbs j)) ∧
        ((st.tcpConnect now ip port).2.tcbs k).fromListener = false := by
  unfold TcpStack.tcpConnect
  cases st.freeSocket with
  | none => exact Or.inl ⟨rfl, rfl⟩
  | some k =>
    refine Or.inr ⟨k, rfl, fun j hj => ?_, ?_⟩
    · dsimp only
      exact sameOrigin_commit_of_ne _ hj _
    · dsimp only
      rw [TcpStack.commit_tcbs_self]
      exact (TcpControlBlock.sameOrigin_tcpOutputSeq _ (TcpControlBlock.activeTcb st.localIp
        st.nextEphemeral ip port (TcpStack.tcpPickIsn now k)) _ _ _).fromListener

theorem listen_cases (st : TcpStack) (port : UInt16) :
    (st.tcpListen port).1 = none ∧ (st.tcpListen port).2 = st ∨
      ∃ k, (st.tcpListen port).1 = some k ∧
        (∀ j, j ≠ k → TcpControlBlock.SameOrigin (st.tcbs j) ((st.tcpListen port).2.tcbs j)) ∧
        ((st.tcpListen port).2.tcbs k).fromListener = false := by
  unfold TcpStack.tcpListen
  cases st.freeSocket with
  | none => exact Or.inl ⟨rfl, rfl⟩
  | some k =>
    refine Or.inr ⟨k, rfl, fun j hj => sameOrigin_commit_of_ne _ hj _, ?_⟩
    dsimp only
    rw [TcpStack.commit_tcbs_self]
    rfl

/-- What `tcp_accept` returns was waiting on the port of the listening socket, and is marked. -/
theorem accept_cases (st : TcpStack) (listenSock : Int) :
    (st.tcpAccept listenSock).1 = none ∧ (st.tcpAccept listenSock).2 = st ∨
      ∃ l k, (st.tcpAccept listenSock).1 = some k ∧
        (st.tcpAccept listenSock).2 = st.markAccepted k ∧
        TcpStack.socket listenSock = some l ∧ (st.tcbs l).state = .listen ∧
        (st.tcbs k).fromListener = true ∧ (st.tcbs k).accepted = false ∧
        (st.tcbs k).localPort = (st.tcbs l).localPort ∧
        ((st.tcbs k).state = .established ∨ (st.tcbs k).state = .closeWait) := by
  unfold TcpStack.tcpAccept
  cases hsocket : TcpStack.socket listenSock with
  | none => exact Or.inl ⟨rfl, rfl⟩
  | some l =>
    dsimp only
    by_cases hlisten : (st.tcbs l).state = .listen
    swap
    · rw [if_pos hlisten]
      exact Or.inl ⟨rfl, rfl⟩
    rw [if_neg (not_not.mpr hlisten)]
    cases hfirst : first fun i => (st.tcbs i).fromListener && !(st.tcbs i).accepted &&
        (st.tcbs i).localPort == (st.tcbs l).localPort &&
        ((st.tcbs i).state == .established || (st.tcbs i).state == .closeWait) with
    | none => exact Or.inl ⟨rfl, rfl⟩
    | some k =>
      have hk := first_some hfirst
      simp only [Bool.and_eq_true, Bool.or_eq_true, Bool.not_eq_true', beq_iff_eq] at hk
      obtain ⟨⟨⟨hfrom, hacc⟩, hport⟩, hstate⟩ := hk
      exact Or.inr ⟨l, k, rfl, rfl, rfl, hlisten, hfrom, hacc, hport, hstate⟩

theorem Recorded.accept (h : Recorded g) (now : UInt32) (listenSock : Int) :
    Recorded (g.step ⟨now, .accept listenSock⟩) := by
  have hstep : g.step ⟨now, .accept listenSock⟩ =
      match (g.stack.tcpAccept listenSock).1 with
      | some k => { g with
          stack := (g.stack.tcpAccept listenSock).2, returned := g.serial k :: g.returned }
      | none => { g with stack := (g.stack.tcpAccept listenSock).2 } := rfl
  rw [hstep]
  rcases accept_cases g.stack listenSock with ⟨hnone, hstack⟩ |
    ⟨l, k, hsome, hstack, -, -, hfrom, -, -, -⟩
  · rw [hnone, hstack]
    exact h
  rw [hsome, hstack]
  have hself : (g.stack.markAccepted k).tcbs k = { g.stack.tcbs k with accepted := true } :=
    TcpStack.commit_tcbs_self ..
  have hother : ∀ j, j ≠ k → (g.stack.markAccepted k).tcbs j = g.stack.tcbs j :=
    fun j hj => TcpStack.commit_tcbs_of_ne _ hj _
  refine ⟨h.below, h.distinct, fun n hn => ?_, fun j hj => ?_, fun j hj hacc => ?_⟩
  · rcases List.mem_cons.mp hn with rfl | hn
    · exact h.below k
    · exact h.past n hn
  · change g.SpawnedTo j ((g.stack.markAccepted k).tcbs j).localPort
    by_cases hjk : j = k
    · rw [hjk, hself]
      exact h.spawned k hfrom
    · rw [hother j hjk]
      rw [hother j hjk] at hj
      exact h.spawned j hj
  · by_cases hjk : j = k
    · rw [hjk, hself] at hacc
      exact absurd hacc (by simp)
    · rw [hother j hjk] at hj hacc
      rintro hmem
      rcases List.mem_cons.mp hmem with heq | hmem
      · exact hjk (h.distinct heq)
      · exact h.pending j hj hacc hmem

/-- Every event keeps the record. -/
theorem Recorded.step (h : Recorded g) (i : TcpInput) : Recorded (g.step i) := by
  obtain ⟨now, op⟩ := i
  cases op with
  | setOutput localIp => exact h.same fun _ => TcpControlBlock.SameOrigin.refl _
  | connect ip port => exact h.opened (connect_cases g.stack now ip port)
  | listen port => exact h.opened (listen_cases g.stack port)
  | accept listenSock => exact h.accept now listenSock
  | send sock buf =>
    refine h.same fun j => ?_
    change TcpControlBlock.SameOrigin _ ((g.stack.tcpSend now sock buf).2.tcbs j)
    unfold TcpStack.tcpSend
    split
    · exact TcpControlBlock.SameOrigin.refl _
    · exact sameOrigin_commit _ _ (TcpControlBlock.sameOrigin_tcpSend _ _ _) j
  | recv sock maxlen =>
    refine h.same fun j => ?_
    change TcpControlBlock.SameOrigin _ ((g.stack.tcpRecv now sock maxlen).2.2.tcbs j)
    unfold TcpStack.tcpRecv
    split
    · exact TcpControlBlock.SameOrigin.refl _
    · exact sameOrigin_commit _ _ (TcpControlBlock.sameOrigin_tcpRecv _ _ _) j
  | close sock =>
    refine h.same fun j => ?_
    change TcpControlBlock.SameOrigin _ ((g.stack.tcpClose now sock).2.tcbs j)
    unfold TcpStack.tcpClose
    split
    · exact TcpControlBlock.SameOrigin.refl _
    · exact sameOrigin_commit _ _ (TcpControlBlock.sameOrigin_tcpClose _ _) j
  | tick => exact h.same (sameOrigin_stackTick g.stack now)
  | packet srcIp bytes => exact h.packet now srcIp bytes

theorem Recorded.acceptsOnce (h : Recorded g) (i : TcpInput) : AcceptsOnce g i := by
  intro listenSock _ k hk
  rcases accept_cases g.stack listenSock with ⟨hnone, -⟩ |
    ⟨l, k', hsome, -, hsocket, hlisten, hfrom, hacc, hport, hstate⟩
  · rw [hnone] at hk
    cases hk
  · rw [hsome] at hk
    cases hk
    refine ⟨l, hsocket, hlisten, ?_, hstate, h.pending k hfrom hacc⟩
    rw [← hport]
    exact h.spawned k hfrom

theorem recorded_start : Recorded start := by
  have hzero : ∀ k, (start.stack.tcbs k).fromListener = false := fun _ => rfl
  refine ⟨fun k => k.isLt, Fin.val_injective, fun n hn => (by cases hn), fun k hfrom => ?_,
    fun _ _ _ hn => (by cases hn)⟩
  rw [hzero k] at hfrom
  exact absurd hfrom Bool.false_ne_true

end Served

/-- In every run after `tcp_init`, each connection that `tcp_accept` returns was spawned by a SYN
to the port of the listening socket, is open, and is returned for the first time. -/
theorem accept_once (ops : List TcpInput) : Along Served.next Served.AcceptsOnce Served.start ops := by
  refine Along.mono_inv (I := Served.Recorded) (G := fun _ _ => True) ?_ ?_ ops Served.start
    Served.recorded_start (along_true ops Served.start)
  · intro g i g' h _ hstep
    obtain rfl := Option.some.inj hstep
    exact h.step i
  · exact fun g i h _ => h.acceptsOnce i

end VernisOS
