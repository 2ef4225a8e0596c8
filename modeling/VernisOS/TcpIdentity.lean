import VernisOS.Lib.Run
import VernisOS.TcpEvents
import VernisOS.TcpStack

/-!
# Which connection a segment belongs to

A segment is handled by the first socket with its ports and its source address. Two paths
fill a socket : a SYN for a listening socket, after no connection was found for it, and
`tcp_connect`, which takes the next ephemeral port whether or not it is in use. The ends of
the connections are pairwise different in every state of a run exactly if no `tcp_connect`
takes a port that a connection to the same peer has (`tcp_identity`).
-/

open Run Slots

namespace VernisOS

/-- The calls of an application, the timer, and the packets that arrive. -/
inductive TcpOp where
  | setOutput (localIp : UInt32)
  | connect (ip : UInt32) (port : UInt16)
  | listen (port : UInt16)
  | accept (listenSock : Int)
  | send (sock : Int) (buf : List UInt8)
  | recv (sock maxlen : Int)
  | close (sock : Int)
  | tick
  | packet (srcIp : UInt32) (bytes : List UInt8)

/-- An event, and the clock it happens at. -/
structure TcpInput where
  now : UInt32
  op : TcpOp

/-- The socket is neither free nor listening. -/
def TcpControlBlock.Connected (tcb : TcpControlBlock) : Prop :=
  tcb.state ≠ .closed ∧ tcb.state ≠ .listen

instance (tcb : TcpControlBlock) : Decidable tcb.Connected :=
  inferInstanceAs (Decidable (_ ∧ _))

/-- The ends of a connection, but for the local address. -/
def TcpControlBlock.ends (tcb : TcpControlBlock) : UInt16 × UInt32 × UInt16 :=
  (tcb.localPort, tcb.remoteIp, tcb.remotePort)

namespace TcpStack

/-- One event. -/
def step (st : TcpStack) (i : TcpInput) : TcpStack :=
  match i.op with
  | .setOutput localIp => st.tcpSetOutput localIp
  | .connect ip port => (st.tcpConnect i.now ip port).2
  | .listen port => (st.tcpListen port).2
  | .accept listenSock => (st.tcpAccept listenSock).2
  | .send sock buf => (st.tcpSend i.now sock buf).2
  | .recv sock maxlen => (st.tcpRecv i.now sock maxlen).2.2
  | .close sock => (st.tcpClose i.now sock).2
  | .tick => st.tcpTick i.now
  | .packet srcIp bytes => st.tcpReceivePacket i.now srcIp bytes

/-- Every event returns. -/
def next (st : TcpStack) (i : TcpInput) : Option TcpStack :=
  some (st.step i)

/-- No two connections have the same ends. -/
def OneEach (st : TcpStack) : Prop :=
  ∀ i j, (st.tcbs i).Connected → (st.tcbs j).Connected → (st.tcbs i).ends = (st.tcbs j).ends →
    i = j

/-- The ends of the connections are different, and every segment is handled by the connection
it belongs to. -/
structure Identified (st : TcpStack) : Prop where
  oneEach : st.OneEach
  handled : ∀ srcIp seg i, (st.tcbs i).Connected →
    (st.tcbs i).ends = (seg.dstPort, srcIp, seg.srcPort) → st.connection srcIp seg = some i

/-- The port that `tcp_connect` takes is not that of a connection to the same peer. -/
def PortFree (st : TcpStack) (i : TcpInput) : Prop :=
  match i.op with
  | .connect ip port => st.freeSocket = none ∨
      ∀ k, (st.tcbs k).Connected → (st.tcbs k).ends ≠ (st.nextEphemeral, ip, port)
  | _ => True

/-! ## One event -/

theorem connection_some {st : TcpStack} {srcIp : UInt32} {seg : TcpSegment}
    {i : Fin tcpMaxSockets} (h : st.connection srcIp seg = some i) :
    (st.tcbs i).Connected ∧ (st.tcbs i).ends = (seg.dstPort, srcIp, seg.srcPort) := by
  have hi := first_some h
  simp only [Bool.and_eq_true, bne_iff_ne, beq_iff_eq] at hi
  obtain ⟨⟨⟨hs, hl⟩, hr⟩, hip⟩ := hi
  exact ⟨hs, by rw [TcpControlBlock.ends, hl, hr, hip]⟩

theorem connection_none {st : TcpStack} {srcIp : UInt32} {seg : TcpSegment}
    (h : st.connection srcIp seg = none) {i : Fin tcpMaxSockets} (hi : (st.tcbs i).Connected) :
    (st.tcbs i).ends ≠ (seg.dstPort, srcIp, seg.srcPort) := by
  intro he
  simp only [TcpControlBlock.ends, Prod.mk.injEq] at he
  have hno := first_none.mp h i
  simp [hi.1, hi.2, he.1, he.2.1, he.2.2] at hno

theorem OneEach.identified {st : TcpStack} (h : st.OneEach) : st.Identified := by
  refine ⟨h, fun srcIp seg i hi he => ?_⟩
  rcases Option.eq_none_or_eq_some (st.connection srcIp seg) with hno | ⟨j, hj⟩
  · exact absurd he (connection_none hno hi)
  · obtain ⟨hcj, hej⟩ := connection_some hj
    rw [hj, h j i hcj hi (hej.trans he.symm)]

/-- A connection after the event was one before it, with the same ends. -/
def Keeps (tcb tcb' : TcpControlBlock) : Prop :=
  tcb'.Connected → tcb.Connected ∧ tcb'.ends = tcb.ends

theorem keeps_refl (tcb : TcpControlBlock) : Keeps tcb tcb :=
  fun h => ⟨h, rfl⟩

theorem Keeps.trans {a b c : TcpControlBlock} (h : Keeps a b) (h' : Keeps b c) : Keeps a c :=
  fun hc => ⟨(h (h' hc).1).1, (h' hc).2.trans (h (h' hc).1).2⟩

theorem keeps_of_state {tcb tcb' : TcpControlBlock} (hends : TcpControlBlock.SameEnds tcb tcb')
    (hs : tcb'.state = tcb.state) : Keeps tcb tcb' := by
  intro h
  unfold TcpControlBlock.Connected at h ⊢
  rw [hs] at h
  exact ⟨h, by rw [TcpControlBlock.ends, hends.1, hends.2, hends.3]; rfl⟩

theorem keeps_of_connected {tcb tcb' : TcpControlBlock}
    (hends : TcpControlBlock.SameEnds tcb tcb') (hs : tcb.Connected) : Keeps tcb tcb' :=
  fun _ => ⟨hs, by rw [TcpControlBlock.ends, hends.1, hends.2, hends.3]; rfl⟩

theorem keeps_closed {tcb tcb' : TcpControlBlock}
    (hs : tcb'.state = .closed ∨ tcb'.state = .listen) : Keeps tcb tcb' := by
  rintro ⟨h₁, h₂⟩
  rcases hs with hs | hs
  · exact absurd hs h₁
  · exact absurd hs h₂

theorem keeps_quiet {tcb tcb' : TcpControlBlock} (h : TcpControlBlock.Quiet tcb tcb') :
    Keeps tcb tcb' :=
  keeps_of_state ⟨h.localPort, h.remoteIp, h.remotePort⟩ h.state

theorem OneEach.keeps {st st' : TcpStack} (h : st.OneEach)
    (hk : ∀ i, Keeps (st.tcbs i) (st'.tcbs i)) : st'.OneEach := by
  intro i j hi hj he
  obtain ⟨hi', hei⟩ := hk i hi
  obtain ⟨hj', hej⟩ := hk j hj
  exact h i j hi' hj' (by rw [← hei, ← hej, he])

theorem keeps_commit (st : TcpStack) (i : Fin tcpMaxSockets)
    {r : TcpControlBlock × List TcpSegment} (h : Keeps (st.tcbs i) r.1) (j : Fin tcpMaxSockets) :
    Keeps (st.tcbs j) ((st.commit i r).tcbs j) := by
  by_cases hj : j = i
  · subst hj
    rw [commit_tcbs_self]
    exact h
  · rw [commit_tcbs_of_ne st hj]
    exact keeps_refl _

theorem keeps_tick (env : TcpEnv) (tcb : TcpControlBlock) : Keeps tcb (tcb.tcpTick env).1 := by
  rcases (TcpControlBlock.ticked_tcpTick env tcb).1 with hq | hc
  · exact keeps_quiet hq
  · rw [hc]
    exact keeps_closed (Or.inl rfl)

theorem keeps_tcpTick (st : TcpStack) (now : UInt32) (j : Fin tcpMaxSockets) :
    Keeps (st.tcbs j) ((st.tcpTick now).tcbs j) := by
  refine List.foldlRecOn (motive := fun (st' : TcpStack) => Keeps (st.tcbs j) (st'.tcbs j))
    (slots tcpMaxSockets) _ (keeps_refl _) fun st' hst' i _ => ?_
  exact hst'.trans (keeps_commit st' i (keeps_tick _ _) j)

theorem keeps_send (env : TcpEnv) (tcb : TcpControlBlock) (buf : List UInt8) :
    Keeps tcb (tcb.tcpSend env buf).2.1 := by
  rcases TcpControlBlock.tcpSend_cases env tcb buf with ⟨-, he⟩ | ⟨n, -, -, -, -, -, hq, -⟩
  · rw [he]
    exact keeps_refl _
  · exact keeps_of_state ⟨hq.localPort, hq.remoteIp, hq.remotePort⟩ hq.state

theorem keeps_recv (env : TcpEnv) (tcb : TcpControlBlock) (maxlen : Int) :
    Keeps tcb (tcb.tcpRecv env maxlen).2.2.1 := by
  obtain ⟨n, -, hq, -⟩ := TcpControlBlock.tcpRecv_cases env tcb maxlen
  exact keeps_of_state ⟨hq.localPort, hq.remoteIp, hq.remotePort⟩ hq.state

theorem keeps_close (env : TcpEnv) (tcb : TcpControlBlock) : Keeps tcb (tcb.tcpClose env).1 := by
  rcases TcpControlBlock.tcpClose_cases env tcb with he | ⟨s, hs, hq, -⟩
  · rw [he]
    exact keeps_closed (Or.inl rfl)
  · refine keeps_of_connected ⟨hq.localPort, hq.remoteIp, hq.remotePort⟩ ?_
    unfold TcpControlBlock.Connected
    rcases hs with ⟨h | h, -⟩ | ⟨h, -⟩ <;> rw [h] <;> decide

/-- A new connection has ends that no other has, or it breaks the identity. -/
theorem OneEach.new_iff {st : TcpStack} (h : st.OneEach) {i : Fin tcpMaxSockets}
    (hfree : (st.tcbs i).state = .closed) {r : TcpControlBlock × List TcpSegment}
    (hr : r.1.Connected) :
    (st.commit i r).OneEach ↔ ∀ k, (st.tcbs k).Connected → (st.tcbs k).ends ≠ r.1.ends := by
  have hne : ∀ k, (st.tcbs k).Connected → k ≠ i := by
    rintro k hk rfl
    exact hk.1 hfree
  constructor
  · intro h' k hk he
    refine hne k hk (h' k i ?_ ?_ ?_)
    · rw [commit_tcbs_of_ne st (hne k hk)]
      exact hk
    · rw [commit_tcbs_self]
      exact hr
    · rw [commit_tcbs_of_ne st (hne k hk), commit_tcbs_self]
      exact he
  · intro hno k l hk hl he
    by_cases hki : k = i
    · by_cases hli : l = i
      · rw [hki, hli]
      · rw [commit_tcbs_of_ne st hli] at hl he
        rw [hki, commit_tcbs_self] at he
        exact absurd he.symm (hno l hl)
    · rw [commit_tcbs_of_ne st hki] at hk he
      by_cases hli : l = i
      · rw [hli, commit_tcbs_self] at he
        exact absurd he (hno k hk)
      · rw [commit_tcbs_of_ne st hli] at hl he
        exact h k l hk hl he

theorem freeSocket_closed {st : TcpStack} {i : Fin tcpMaxSockets} (h : st.freeSocket = some i) :
    (st.tcbs i).state = .closed :=
  beq_iff_eq.mp (first_some (p := fun i => (st.tcbs i).state == .closed) h)

theorem OneEach.connect_iff {st : TcpStack} (h : st.OneEach) (now ip : UInt32) (port : UInt16) :
    (st.tcpConnect now ip port).2.OneEach ↔ st.freeSocket = none ∨
      ∀ k, (st.tcbs k).Connected → (st.tcbs k).ends ≠ (st.nextEphemeral, ip, port) := by
  unfold tcpConnect
  cases hfree : st.freeSocket with
  | none => exact iff_of_true h (Or.inl rfl)
  | some i =>
    dsimp only
    set st' : TcpStack := { st with nextEphemeral :=
      if st.nextEphemeral + 1 < 49152 then 49152 else st.nextEphemeral + 1 }
    set tcb := TcpControlBlock.activeTcb st'.localIp st.nextEphemeral ip port (tcpPickIsn now i)
    have hq := TcpControlBlock.quiet_tcpSendSyn (st'.env now) tcb
    have hconn : (TcpControlBlock.tcpSendSyn (st'.env now) tcb).1.Connected := by
      unfold TcpControlBlock.Connected
      rw [hq.state]
      exact ⟨by simp [tcb, TcpControlBlock.activeTcb], by simp [tcb, TcpControlBlock.activeTcb]⟩
    have hends : (TcpControlBlock.tcpSendSyn (st'.env now) tcb).1.ends =
        (st.nextEphemeral, ip, port) := by
      rw [TcpControlBlock.ends, hq.localPort, hq.remoteIp, hq.remotePort]
      rfl
    rw [OneEach.new_iff (show st'.OneEach from h) (freeSocket_closed hfree) hconn, hends]
    simp only [reduceCtorEq, false_or]
    rfl

theorem OneEach.packet {st : TcpStack} (h : st.OneEach) (now srcIp : UInt32)
    (bytes : List UInt8) : (st.tcpReceivePacket now srcIp bytes).OneEach := by
  unfold tcpReceivePacket
  split
  · exact h
  · next seg _ =>
    unfold receiveSegment
    split
    · next i hi =>
      refine h.keeps fun j => keeps_commit st i (keeps_of_connected ?_ ?_) j
      · exact (TcpControlBlock.handled_tcpHandleSegment _ _ seg).ends
      · exact (connection_some hi).1
    · next hno =>
      split
      · exact h
      · next l _ =>
        split
        · exact h
        · next c hfree =>
          set tcb := TcpControlBlock.passiveTcb (st.tcbs l) srcIp seg (tcpPickIsn now c)
          have hq := TcpControlBlock.quiet_tcpSendSynack (st.env now) tcb
          have hconn : (TcpControlBlock.tcpSendSynack (st.env now) tcb).1.Connected := by
            unfold TcpControlBlock.Connected
            rw [hq.state]
            exact ⟨by simp [tcb, TcpControlBlock.passiveTcb],
              by simp [tcb, TcpControlBlock.passiveTcb]⟩
          refine (h.new_iff (freeSocket_closed hfree) hconn).mpr fun k hk => ?_
          have hends : (TcpControlBlock.tcpSendSynack (st.env now) tcb).1.ends =
              (seg.dstPort, srcIp, seg.srcPort) := by
            rw [TcpControlBlock.ends, hq.localPort, hq.remoteIp, hq.remotePort]
            rfl
          rw [hends]
          exact connection_none hno hk

/-- An event keeps the ends different exactly if it is no `tcp_connect` to a peer that the
next port already has a connection to. -/
theorem OneEach.step_iff {st : TcpStack} (h : st.OneEach) (i : TcpInput) :
    (st.step i).OneEach ↔ st.PortFree i := by
  obtain ⟨now, op⟩ := i
  cases op with
  | setOutput localIp => exact iff_of_true h trivial
  | connect ip port => exact h.connect_iff now ip port
  | listen port =>
    refine iff_of_true ?_ trivial
    change (st.tcpListen port).2.OneEach
    unfold tcpListen
    split
    · exact h
    · exact h.keeps fun j => keeps_commit st _ (keeps_closed (Or.inr rfl)) j
  | accept listenSock =>
    refine iff_of_true ?_ trivial
    change (st.tcpAccept listenSock).2.OneEach
    unfold tcpAccept
    split
    · exact h
    · split
      · exact h
      · split
        · exact h
        · exact h.keeps fun j => keeps_commit st _ (keeps_of_state ⟨rfl, rfl, rfl⟩ rfl) j
  | send sock buf =>
    refine iff_of_true ?_ trivial
    change (st.tcpSend now sock buf).2.OneEach
    unfold tcpSend
    split
    · exact h
    · exact h.keeps fun j => keeps_commit st _ (keeps_send _ _ buf) j
  | recv sock maxlen =>
    refine iff_of_true ?_ trivial
    change (st.tcpRecv now sock maxlen).2.2.OneEach
    unfold tcpRecv
    split
    · exact h
    · exact h.keeps fun j => keeps_commit st _ (keeps_recv _ _ maxlen) j
  | close sock =>
    refine iff_of_true ?_ trivial
    change (st.tcpClose now sock).2.OneEach
    unfold tcpClose
    split
    · exact h
    · exact h.keeps fun j => keeps_commit st _ (keeps_close _ _) j
  | tick => exact iff_of_true (h.keeps fun j => keeps_tcpTick st now j) trivial
  | packet srcIp bytes => exact iff_of_true (h.packet now srcIp bytes) trivial

end TcpStack

/-! ## Runs -/

/-- In every run after `tcp_init` every segment is handled by the one connection it belongs to
in every state reached, exactly if no `tcp_connect` takes a port with a connection to its
peer. -/
theorem tcp_identity (ops : List TcpInput) :
    After TcpStack.next TcpStack.Identified .tcpInit ops ↔
      Along TcpStack.next TcpStack.PortFree .tcpInit ops := by
  refine after_iff_along (f := TcpStack.step) (fun st i h => ?_) ops .tcpInit ?_
  · rw [← h.oneEach.step_iff i]
    exact ⟨fun h' => h'.oneEach, fun h' => h'.identified⟩
  · exact TcpStack.OneEach.identified fun i _ hi => absurd rfl hi.1

/-- The sockets listen on port 49152, a peer has a connection to it, and `tcp_connect` to that
peer takes the same port. -/
theorem not_tcp_identity_listen :
    ¬ After TcpStack.next TcpStack.Identified .tcpInit
      [⟨0, .listen 49152⟩,
        ⟨0, .packet 1 [0, 80, 0xC0, 0, 0, 0, 0, 0, 0, 0, 0, 0, 0x50, 2, 4, 0, 0, 0, 0, 0]⟩,
        ⟨0, .connect 1 80⟩] := by
  intro h
  have hone := (((h.2 _ rfl).2 _ rfl).2 _ rfl).oneEach
  exact absurd (hone 1 2 (by decide +kernel) (by decide +kernel) (by decide +kernel)) (by decide)

end VernisOS
