import Mathlib.Data.List.Nodup
import VernisOS.TcpAck
import VernisOS.TcpEvents

/-!
# The end of a connection

One connection against an arbitrary peer, with the sequence numbers that its SYN, the bytes
that `tcp_send` has accepted and its FIN have taken. FIN_WAIT_1 is left only by an ACK of the
FIN. CLOSING and LAST_ACK are left by any ACK, and `tcp_close` in SYN_RECEIVED gives the FIN
the number of the SYN. The runs in which every such step waits for the ACK of the FIN, and no
number is taken twice, are those without these steps and of at most 2³² numbers
(`tcp_teardown`).
-/

open Run

namespace VernisOS

/-- A connection, with the sequence numbers taken so far and that of its FIN. -/
structure Teardown where
  conn : Conn
  numbers : List UInt32
  fin : Option UInt32

/-- A connection whose SYN has the number `seq_num`. -/
def Teardown.start (c : Conn) : Teardown :=
  ⟨c, [c.tcb.seqNum], none⟩

/-- `tcp_close` sends a FIN in this state. -/
def sendsFin : TcpState → Bool
  | .established => true
  | .synReceived => true
  | .closeWait => true
  | _ => false

namespace Teardown

/-- The numbers of the bytes that a call of `tcp_send` accepts. -/
def newNumbers (s : Teardown) (i : ConnInput) : List UInt32 :=
  match i.op with
  | .send buf => (List.range (s.conn.tcb.tcpSend i.env buf).1.toNat).map fun k =>
      s.conn.tcb.seqNum + UInt32.ofNat k
  | .close => if sendsFin s.conn.tcb.state then [s.conn.tcb.seqNum] else []
  | _ => []

/-- One event, with the numbers it takes. -/
def step (s : Teardown) (i : ConnInput) : Teardown where
  conn := (connStep s.conn i).1
  numbers := s.numbers ++ s.newNumbers i
  fin := match i.op with
    | .close => if sendsFin s.conn.tcb.state then some s.conn.tcb.seqNum else s.fin
    | _ => s.fin

/-- Every event returns. -/
def next (s : Teardown) (i : ConnInput) : Option Teardown :=
  some (s.step i)

/-- From one state to the other the FIN has to be acknowledged. -/
def needsAck : TcpState → TcpState → Bool
  | .finWait1, .finWait2 => true
  | .finWait1, .closed => true
  | .closing, .closed => true
  | .lastAck, .closed => true
  | _, _ => false

/-- A segment other than a RST ends the sending side only with the ACK of the FIN, and no
sequence number is taken twice. -/
structure Orderly (s : Teardown) (i : ConnInput) : Prop where
  acked : ∀ seg, i.op = .segment seg → hasFlag seg.flags tcpFlagRst = false →
    needsAck s.conn.tcb.state (s.step i).conn.tcb.state = true →
    hasFlag seg.flags tcpFlagAck = true ∧ ∃ fin, s.fin = some fin ∧ seg.ackNum = fin + 1
  distinct : (s.step i).numbers.Nodup

/-- No `tcp_close` in SYN_RECEIVED, no ACK in CLOSING or LAST_ACK but of the next number, and
no more than 2³² numbers. -/
structure InTime (s : Teardown) (i : ConnInput) : Prop where
  opened : i.op = .close → s.conn.tcb.state ≠ .synReceived
  last : ∀ seg, i.op = .segment seg → hasFlag seg.flags tcpFlagRst = false →
    hasFlag seg.flags tcpFlagAck = true →
    s.conn.tcb.state = .closing ∨ s.conn.tcb.state = .lastAck →
    seg.ackNum = s.conn.tcb.seqNum + 1
  count : s.numbers.length + (s.newNumbers i).length ≤ 2 ^ 32

/-- The numbers taken so far are those from `isn` on, and `seq_num` is the next of them, but
for a SYN or FIN that is not acknowledged. -/
structure Counted (s : Teardown) (isn : UInt32) : Prop where
  numbers : s.numbers = (List.range s.numbers.length).map fun k => isn + UInt32.ofNat k
  small : s.numbers.length ≤ 2 ^ 32
  syn : s.conn.tcb.state = .synSent ∨ s.conn.tcb.state = .synReceived →
    s.numbers.length = 1 ∧ s.conn.tcb.seqNum = isn
  data : s.conn.tcb.state = .established ∨ s.conn.tcb.state = .closeWait →
    s.conn.tcb.seqNum = isn + UInt32.ofNat s.numbers.length
  closing : s.conn.tcb.state = .finWait1 ∨ s.conn.tcb.state = .closing ∨
    s.conn.tcb.state = .lastAck → s.fin = some s.conn.tcb.seqNum

/-! ## Numbers -/

theorem nodup_numbers_iff (isn : UInt32) (n : ℕ) :
    ((List.range n).map fun k => isn + UInt32.ofNat k).Nodup ↔ n ≤ 2 ^ 32 := by
  constructor
  · intro h
    by_contra hlt
    have hne := List.inj_on_of_nodup_map h (x := 0) (List.mem_range.mpr (by omega))
      (y := 2 ^ 32) (List.mem_range.mpr (by omega))
    exact absurd (hne rfl) (by decide)
  · intro h
    refine List.Nodup.map_on ?_ List.nodup_range
    intro a ha b hb he
    have ha' := List.mem_range.mp ha
    have hb' := List.mem_range.mp hb
    have hof : UInt32.ofNat a = UInt32.ofNat b := by grind
    have hval := congrArg UInt32.toNat hof
    rwa [UInt32.toNat_ofNat_of_lt' (by change a < 4294967296; omega),
      UInt32.toNat_ofNat_of_lt' (by change b < 4294967296; omega)] at hval

/-- The numbers from `isn + n` on continue those from `isn` on. -/
theorem numbers_append (isn : UInt32) (n m : ℕ) :
    ((List.range n).map fun k => isn + UInt32.ofNat k) ++
        ((List.range m).map fun k => isn + UInt32.ofNat n + UInt32.ofNat k) =
      (List.range (n + m)).map fun k => isn + UInt32.ofNat k := by
  rw [List.range_add, List.map_append, List.map_map]
  congr 1
  refine List.map_congr_left fun k _ => ?_
  simp only [Function.comp_apply, UInt32.ofNat_add, UInt32.add_assoc]

open TcpControlBlock

variable {s s' : Teardown} {i : ConnInput} {isn : UInt32}

/-- The numbers of an event continue those before it, where they start at `seq_num`. -/
theorem Counted.numbers_step (h : Counted s isn) {m : ℕ}
    (hseq : s.conn.tcb.seqNum = isn + UInt32.ofNat s.numbers.length)
    (hnew : s.newNumbers i = (List.range m).map fun k => s.conn.tcb.seqNum + UInt32.ofNat k) :
    (s.step i).numbers = (List.range (s.numbers.length + m)).map fun k =>
      isn + UInt32.ofNat k := by
  rw [← numbers_append, ← h.numbers, ← hseq, ← hnew]
  rfl

theorem Counted.nodup_iff (h : Counted s isn) {m : ℕ}
    (hseq : s.conn.tcb.seqNum = isn + UInt32.ofNat s.numbers.length)
    (hnew : s.newNumbers i = (List.range m).map fun k => s.conn.tcb.seqNum + UInt32.ofNat k) :
    (s.step i).numbers.Nodup ↔ s.numbers.length + (s.newNumbers i).length ≤ 2 ^ 32 := by
  rw [h.numbers_step hseq hnew, nodup_numbers_iff, hnew, List.length_map, List.length_range]

/-- Nothing is counted, and the state stays or moves to one with less to keep. -/
theorem Counted.keep (h : Counted s isn) (hnum : s'.numbers = s.numbers) (hfin : s'.fin = s.fin)
    (hseq : s'.conn.tcb.seqNum = s.conn.tcb.seqNum)
    (hs : s'.conn.tcb.state = s.conn.tcb.state ∨
      s.conn.tcb.state = .established ∧ s'.conn.tcb.state = .closeWait ∨
      s.conn.tcb.state = .finWait1 ∧ s'.conn.tcb.state = .closing ∨
      s'.conn.tcb.state = .closed) : Counted s' isn := by
  refine ⟨by rw [hnum]; exact h.numbers, by rw [hnum]; exact h.small, ?_, ?_, ?_⟩
  · intro hst
    rw [hnum, hseq]
    refine h.syn ?_
    rcases hs with hs | ⟨-, hs⟩ | ⟨-, hs⟩ | hs
    · rwa [hs] at hst
    all_goals
      rw [hs] at hst
      exact absurd hst (by decide)
  · intro hst
    rw [hnum, hseq]
    refine h.data ?_
    rcases hs with hs | ⟨hs, -⟩ | ⟨-, hs⟩ | hs
    · rwa [hs] at hst
    · exact Or.inl hs
    all_goals
      rw [hs] at hst
      exact absurd hst (by decide)
  · intro hst
    rw [hfin, hseq]
    refine h.closing ?_
    rcases hs with hs | ⟨-, hs⟩ | ⟨hs, -⟩ | hs
    · rwa [hs] at hst
    · rw [hs] at hst
      exact absurd hst (by decide)
    · exact Or.inl hs
    · rw [hs] at hst
      exact absurd hst (by decide)

/-! ## Incoming segments -/

theorem step_segment (s : Teardown) (now : UInt32) (seg : TcpSegment) :
    (s.step ⟨now, .segment seg⟩).numbers = s.numbers ∧
      (s.step ⟨now, .segment seg⟩).fin = s.fin ∧
      (s.step ⟨now, .segment seg⟩).conn.tcb = (s.conn.tcb.tcpHandleSegment ⟨true, now⟩ seg).1 :=
  ⟨List.append_nil _, rfl, rfl⟩

theorem Counted.segment (h : Counted s isn) (now : UInt32) (seg : TcpSegment) :
    Counted (s.step ⟨now, .segment seg⟩) isn := by
  obtain ⟨hnum, hfin, hconn⟩ := s.step_segment now seg
  have hkeep : SameSend s.conn.tcb (s.conn.tcb.tcpHandleSegment ⟨true, now⟩ seg).1 → _ :=
    fun hsend => h.keep hnum hfin hsend.seqNum
  cases handled_tcpHandleSegment ⟨true, now⟩ s.conn.tcb seg with
  | reset _ hstate hsend => exact hkeep hsend (Or.inr (Or.inr (Or.inr hstate)))
  | openConn _ hs _ _ hstate _ hseq _ _ =>
    obtain ⟨hlen, hisn⟩ := h.syn hs
    refine ⟨by rw [hnum]; exact h.numbers, by rw [hnum]; exact h.small, ?_, ?_, ?_⟩
    · rw [hconn, hstate]
      exact fun hst => absurd hst (by decide)
    · intro _
      rw [hconn, hseq, hnum, hlen, hisn]
      rfl
    · rw [hconn, hstate]
      exact fun hst => absurd hst (by decide)
  | ackData _ _ _ hstate _ hseq _ _ =>
    refine h.keep hnum hfin hseq ?_
    rcases hstate with hst | hst
    · exact Or.inl hst
    · exact Or.inr (Or.inl hst)
  | ackFin _ _ _ _ hstate _ _ =>
    refine ⟨by rw [hnum]; exact h.numbers, by rw [hnum]; exact h.small, ?_, ?_, ?_⟩ <;>
      rw [hconn] <;> rcases hstate with hst | hst <;> rw [hst] <;>
      exact fun hst => absurd hst (by decide)
  | ackLast _ _ _ hstate hsend => exact hkeep hsend (Or.inr (Or.inr (Or.inr hstate)))
  | takeFin _ hstate hsend =>
    refine hkeep hsend ?_
    rcases hstate with hst | hst | ⟨-, hst⟩
    · exact Or.inr (Or.inl hst)
    · exact Or.inr (Or.inr (Or.inl hst))
    · exact Or.inr (Or.inr (Or.inr hst))
  | idle _ hstate hsend => exact hkeep hsend (Or.inl hstate)

/-- The states that need the ACK of the FIN are left by one, but for CLOSING and LAST_ACK. -/
theorem Counted.acked_iff (h : Counted s isn) {now : UInt32} {seg : TcpSegment}
    (hrst : hasFlag seg.flags tcpFlagRst = false) :
    (needsAck s.conn.tcb.state (s.step ⟨now, .segment seg⟩).conn.tcb.state = true →
      hasFlag seg.flags tcpFlagAck = true ∧ ∃ fin, s.fin = some fin ∧ seg.ackNum = fin + 1) ↔
    (hasFlag seg.flags tcpFlagAck = true →
      s.conn.tcb.state = .closing ∨ s.conn.tcb.state = .lastAck →
      seg.ackNum = s.conn.tcb.seqNum + 1) := by
  obtain ⟨-, -, hconn⟩ := s.step_segment now seg
  rw [hconn]
  constructor
  · intro hacked hflag hs
    have hclosed : (s.conn.tcb.tcpHandleSegment ⟨true, now⟩ seg).1.state = .closed := by
      rcases hs with hs | hs <;> simp [tcpHandleSegment, hrst, hs, hflag, setState]
    obtain ⟨-, fin, hfin, hack⟩ := hacked (by
      rcases hs with hs | hs <;> rw [hclosed, hs] <;> rfl)
    rw [h.closing (Or.inr hs)] at hfin
    cases hfin
    exact hack
  · intro hlast hneeds
    cases handled_tcpHandleSegment ⟨true, now⟩ s.conn.tcb seg with
    | reset hrst' _ _ => exact absurd hrst' (by simp [hrst])
    | openConn _ hs _ _ hstate _ _ _ _ =>
      rw [hstate] at hneeds
      rcases hs with hs | hs <;> rw [hs] at hneeds <;> cases hneeds
    | ackData _ hs _ hstate _ _ _ _ =>
      rcases hs with hs | hs <;> rw [hs] at hneeds <;> cases hneeds
    | ackFin _ hs hflag hack _ _ _ =>
      exact ⟨hflag, _, h.closing (Or.inl hs), hack⟩
    | ackLast _ hs hflag _ _ =>
      exact ⟨hflag, _, h.closing (Or.inr hs), hlast hflag hs⟩
    | takeFin _ hstate _ =>
      rcases hstate with ⟨hs, hs'⟩ | ⟨hs, hs'⟩ | ⟨hs, hs'⟩ <;> rw [hs, hs'] at hneeds <;>
        cases hneeds
    | idle _ hstate _ =>
      rw [hstate] at hneeds
      cases hst : s.conn.tcb.state <;> rw [hst] at hneeds <;> cases hneeds

/-! ## One event -/

theorem Counted.nodup (h : Counted s isn) : s.numbers.Nodup := by
  rw [h.numbers]
  exact (nodup_numbers_iff isn _).mpr h.small

theorem newNumbers_send (s : Teardown) (now : UInt32) (buf : List UInt8) :
    s.newNumbers ⟨now, .send buf⟩ =
      (List.range (s.conn.tcb.tcpSend ⟨true, now⟩ buf).1.toNat).map fun k =>
        s.conn.tcb.seqNum + UInt32.ofNat k :=
  rfl

theorem newNumbers_close (s : Teardown) (now : UInt32)
    (hs : sendsFin s.conn.tcb.state = true) : s.newNumbers ⟨now, .close⟩ =
      (List.range 1).map fun k => s.conn.tcb.seqNum + UInt32.ofNat k := by
  change (if sendsFin s.conn.tcb.state then [s.conn.tcb.seqNum] else []) = _
  rw [if_pos hs]
  simp

theorem data_of_sendsFin {st : TcpState} (h : sendsFin st = true) (hsyn : st ≠ .synReceived) :
    st = .established ∨ st = .closeWait := by
  cases st with
  | established => exact Or.inl rfl
  | closeWait => exact Or.inr rfl
  | synReceived => exact absurd rfl hsyn
  | _ => cases h

/-- Calls and ticks are orderly where their numbers are new. -/
theorem orderly_iff_nodup (hop : ∀ seg, i.op ≠ .segment seg) :
    s.Orderly i ↔ (s.step i).numbers.Nodup :=
  ⟨fun h => h.distinct, fun h => ⟨fun seg hseg => absurd hseg (hop seg), h⟩⟩

theorem inTime_iff_count (hop : ∀ seg, i.op ≠ .segment seg)
    (hclose : i.op = .close → s.conn.tcb.state ≠ .synReceived) :
    s.InTime i ↔ s.numbers.length + (s.newNumbers i).length ≤ 2 ^ 32 :=
  ⟨fun h => h.count, fun h => ⟨hclose, fun seg hseg => absurd hseg (hop seg), h⟩⟩

/-- A call that takes no number. -/
theorem Counted.iff_of_silent (h : Counted s isn) (hop : ∀ seg, i.op ≠ .segment seg)
    (hclose : i.op = .close → s.conn.tcb.state ≠ .synReceived) (hnew : s.newNumbers i = []) :
    s.Orderly i ↔ s.InTime i := by
  have hnum : (s.step i).numbers = s.numbers := by
    change s.numbers ++ s.newNumbers i = _
    rw [hnew, List.append_nil]
  rw [orderly_iff_nodup hop, inTime_iff_count hop hclose, hnum, hnew]
  exact iff_of_true h.nodup h.small

theorem Counted.orderly_iff (h : Counted s isn) (i : ConnInput) :
    s.Orderly i ↔ s.InTime i := by
  obtain ⟨now, op⟩ := i
  cases op with
  | segment seg =>
    obtain ⟨hnum, -, -⟩ := s.step_segment now seg
    constructor
    · intro ho
      refine ⟨fun hop => (by cases hop), ?_, h.small⟩
      rintro seg' ⟨⟩ hrst
      exact (h.acked_iff hrst).mp (ho.acked seg rfl hrst)
    · intro ht
      refine ⟨?_, by rw [hnum]; exact h.nodup⟩
      rintro seg' ⟨⟩ hrst
      exact (h.acked_iff hrst).mpr (ht.last seg rfl hrst)
  | send buf =>
    have hop : ∀ seg, ConnOp.send buf ≠ .segment seg := fun seg hop => (by cases hop)
    have hclose : ConnOp.send buf = .close → s.conn.tcb.state ≠ .synReceived :=
      fun hop => (by cases hop)
    rcases tcpSend_cases ⟨true, now⟩ s.conn.tcb buf with ⟨hno, -⟩ | ⟨n, hn, hs, -⟩
    · refine h.iff_of_silent hop hclose ?_
      rw [newNumbers_send, Int.toNat_of_nonpos hno]
      rfl
    · rw [orderly_iff_nodup hop, inTime_iff_count hop hclose]
      exact h.nodup_iff (h.data hs) (newNumbers_send s now buf)
  | close =>
    have hop : ∀ seg, ConnOp.close ≠ .segment seg := fun seg hop => (by cases hop)
    by_cases hsyn : s.conn.tcb.state = .synReceived
    · -- the FIN takes the number of the SYN
      refine iff_of_false (fun ho => ?_) (fun ht => ht.opened rfl hsyn)
      obtain ⟨hlen, hisn⟩ := h.syn (Or.inr hsyn)
      have hnum : s.numbers = [isn] := by
        rw [h.numbers, hlen]
        simp
      have hdist := ho.distinct
      change (s.numbers ++ s.newNumbers ⟨now, .close⟩).Nodup at hdist
      rw [newNumbers_close s now (by rw [hsyn]; rfl), hnum, hisn] at hdist
      simp at hdist
    · by_cases hfin : sendsFin s.conn.tcb.state = true
      · have hdata := data_of_sendsFin hfin hsyn
        rw [orderly_iff_nodup hop, inTime_iff_count hop fun _ => hsyn]
        exact h.nodup_iff (h.data hdata) (newNumbers_close s now hfin)
      · exact h.iff_of_silent hop (fun _ => hsyn) (if_neg hfin)
  | recv maxlen =>
    exact h.iff_of_silent (fun seg hop => (by cases hop)) (fun hop => (by cases hop)) rfl
  | tick =>
    exact h.iff_of_silent (fun seg hop => (by cases hop)) (fun hop => (by cases hop)) rfl

/-- A FIN takes the number after those of the data. -/
theorem Counted.close (h : Counted s isn) {now : UInt32}
    (hsyn : s.conn.tcb.state ≠ .synReceived)
    (hcount : s.numbers.length + (s.newNumbers ⟨now, .close⟩).length ≤ 2 ^ 32) :
    Counted (s.step ⟨now, .close⟩) isn := by
  have hconn : (s.step ⟨now, .close⟩).conn.tcb = (s.conn.tcb.tcpClose ⟨true, now⟩).1 := rfl
  have hcases : (s.step ⟨now, .close⟩).conn.tcb.seqNum = s.conn.tcb.seqNum ∧
      ((s.step ⟨now, .close⟩).conn.tcb.state = .closed ∨
        sendsFin s.conn.tcb.state = true ∧
          ((s.step ⟨now, .close⟩).conn.tcb.state = .finWait1 ∨
            (s.step ⟨now, .close⟩).conn.tcb.state = .lastAck)) := by
    rw [hconn]
    rcases tcpClose_cases ⟨true, now⟩ s.conn.tcb with he | ⟨st, hst, hq, -⟩
    · rw [he]
      exact ⟨rfl, Or.inl rfl⟩
    · refine ⟨hq.seqNum, Or.inr ?_⟩
      rw [hq.state]
      rcases hst with ⟨hs | hs, rfl⟩ | ⟨hs, rfl⟩ <;> rw [hs]
      · exact ⟨rfl, Or.inl rfl⟩
      · exact ⟨rfl, Or.inl rfl⟩
      · exact ⟨rfl, Or.inr rfl⟩
  obtain ⟨hseq, hstate⟩ := hcases
  by_cases hfin : sendsFin s.conn.tcb.state = true
  · have hnew := newNumbers_close s now hfin
    have hnum := h.numbers_step (h.data (data_of_sendsFin hfin hsyn)) hnew
    have hlen : (s.step ⟨now, .close⟩).numbers.length = s.numbers.length + 1 := by
      rw [hnum, List.length_map, List.length_range]
    rw [hnew, List.length_map, List.length_range] at hcount
    refine ⟨by rw [hlen]; exact hnum, by rw [hlen]; exact hcount, ?_, ?_, ?_⟩
    · rcases hstate with hst | ⟨-, hst | hst⟩ <;> rw [hst] <;>
        exact fun hst => absurd hst (by decide)
    · rcases hstate with hst | ⟨-, hst | hst⟩ <;> rw [hst] <;>
        exact fun hst => absurd hst (by decide)
    · intro _
      rw [hseq]
      exact if_pos hfin
  · have hclosed : (s.step ⟨now, .close⟩).conn.tcb.state = .closed := by
      rcases hstate with hst | ⟨hsends, -⟩
      · exact hst
      · exact absurd hsends hfin
    have hnew : s.newNumbers ⟨now, .close⟩ = [] := if_neg hfin
    refine h.keep ?_ (if_neg hfin) hseq (Or.inr (Or.inr (Or.inr hclosed)))
    change s.numbers ++ s.newNumbers ⟨now, .close⟩ = _
    rw [hnew, List.append_nil]

/-- An event in time keeps the count. -/
theorem Counted.step (h : Counted s isn) (ht : s.InTime i) : Counted (s.step i) isn := by
  obtain ⟨now, op⟩ := i
  cases op with
  | segment seg => exact h.segment now seg
  | send buf =>
    rcases tcpSend_cases ⟨true, now⟩ s.conn.tcb buf with ⟨hno, he⟩ | ⟨n, hn, hs, -, -, -, hq, -⟩
    · have hsame : (s.step ⟨now, .send buf⟩).conn.tcb = s.conn.tcb := congrArg Prod.fst he
      refine h.keep ?_ rfl (congrArg _ hsame) (Or.inl (congrArg _ hsame))
      change s.numbers ++ s.newNumbers ⟨now, .send buf⟩ = _
      rw [newNumbers_send, Int.toNat_of_nonpos hno]
      exact List.append_nil _
    · have hnew := newNumbers_send s now buf
      rw [hn, Int.toNat_natCast] at hnew
      have hnum := h.numbers_step (h.data hs) hnew
      have hlen : (s.step ⟨now, .send buf⟩).numbers.length = s.numbers.length + n := by
        rw [hnum, List.length_map, List.length_range]
      have hstate : (s.step ⟨now, .send buf⟩).conn.tcb.state = s.conn.tcb.state := hq.state
      have hcount := ht.count
      rw [hnew, List.length_map, List.length_range] at hcount
      refine ⟨by rw [hlen]; exact hnum, by rw [hlen]; exact hcount, ?_, ?_, ?_⟩
      · rw [hstate]
        rcases hs with hs | hs <;> rw [hs] <;> exact fun hst => absurd hst (by decide)
      · intro _
        have hseq : (s.step ⟨now, .send buf⟩).conn.tcb.seqNum =
            s.conn.tcb.seqNum + UInt32.ofNat n := hq.seqNum
        rw [hseq, hlen, h.data hs, UInt32.ofNat_add, UInt32.add_assoc]
      · rw [hstate]
        rcases hs with hs | hs <;> rw [hs] <;> exact fun hst => absurd hst (by decide)
  | close =>
    exact h.close (ht.opened rfl) ht.count
  | recv maxlen =>
    obtain ⟨n, -, hq, -⟩ := tcpRecv_cases ⟨true, now⟩ s.conn.tcb maxlen
    exact h.keep (List.append_nil _) rfl hq.seqNum (Or.inl hq.state)
  | tick =>
    rcases (ticked_tcpTick ⟨true, now⟩ s.conn.tcb).1 with hq | he
    · exact h.keep (List.append_nil _) rfl hq.seqNum (Or.inl hq.state)
    · have hconn : (s.step ⟨now, .tick⟩).conn.tcb = s.conn.tcb.setState .closed := he
      refine h.keep (List.append_nil _) rfl ?_ (Or.inr (Or.inr (Or.inr ?_))) <;> rw [hconn] <;> rfl

end Teardown

/-! ## Runs -/

theorem counted_of_opened {c : Conn} (hc : ConnOpened c) :
    (Teardown.start c).Counted c.tcb.seqNum := by
  have hsyn : c.tcb.state = .synSent ∨ c.tcb.state = .synReceived := by
    cases hc with
    | connect env localIp ip irs localPort port isn =>
      exact Or.inl (TcpControlBlock.quiet_tcpSendSyn env _).state
    | listen env listener srcIp syn isn =>
      exact Or.inr (TcpControlBlock.quiet_tcpSendSynack env _).state
  have hno : ∀ st, c.tcb.state = st → ¬ (st = .synSent ∨ st = .synReceived) → False := by
    rintro st rfl hno
    exact hno hsyn
  refine ⟨?_, ?_, fun _ => ⟨rfl, rfl⟩, ?_, ?_⟩
  · simp [Teardown.start]
  · simp [Teardown.start]
  · rintro (hst | hst)
    · exact (hno _ hst (by decide)).elim
    · exact (hno _ hst (by decide)).elim
  · rintro (hst | hst | hst)
    · exact (hno _ hst (by decide)).elim
    · exact (hno _ hst (by decide)).elim
    · exact (hno _ hst (by decide)).elim

/-- Over every run of a connection, a segment ends its sending side only with the ACK of the
FIN, and no sequence number is taken twice, exactly if the run has no `tcp_close` in
SYN_RECEIVED, no ACK in CLOSING or LAST_ACK but of the next number, and at most 2³² numbers. -/
theorem tcp_teardown (c : Conn) (hc : ConnOpened c) (is : List ConnInput) :
    Along Teardown.next Teardown.Orderly (Teardown.start c) is ↔
      Along Teardown.next Teardown.InTime (Teardown.start c) is := by
  refine Along.iff_of_inv (I := fun s => s.Counted c.tcb.seqNum)
    (fun s i h => h.orderly_iff i) ?_ is _ (counted_of_opened hc)
  rintro s i s' h ho hs'
  cases hs'
  exact h.step ((h.orderly_iff i).mp ho)

/-- The handshake ends, a byte is sent, and the connection is closed before the peer has
acknowledged any of it; the peer's FIN and an ACK arrive. -/
def teardownRun (ack : UInt32) : List ConnInput :=
  [⟨0, .segment (peerSegment 1001 2 tcpFlagAck)⟩, ⟨0, .send [7]⟩, ⟨0, .close⟩,
    ⟨0, .segment (peerSegment 1001 2 (tcpFlagFin ||| tcpFlagAck))⟩,
    ⟨0, .segment (peerSegment 1002 ack tcpFlagAck)⟩]

/-- The last ACK is that of the FIN, which has the number 3. -/
theorem tcp_teardown_teardownRun :
    ConnOpened openedConn ∧
      Along Teardown.next Teardown.Orderly (Teardown.start openedConn) (teardownRun 4) := by
  refine ⟨opened_openedConn, (tcp_teardown _ opened_openedConn _).mpr ?_⟩
  have hsegment : ∀ {s : Teardown} {now : UInt32} {seg : TcpSegment},
      (s.conn.tcb.state = .closing ∨ s.conn.tcb.state = .lastAck →
        seg.ackNum = s.conn.tcb.seqNum + 1) → s.numbers.length ≤ 2 ^ 32 →
      s.InTime ⟨now, .segment seg⟩ := by
    intro s now seg hlast hcount
    refine ⟨fun hop => (by cases hop), ?_, hcount⟩
    rintro seg' ⟨⟩ - -
    exact hlast
  refine ⟨hsegment (by decide) (by decide), fun s hs => ?_⟩
  cases hs
  refine ⟨⟨fun hop => (by cases hop), fun seg hop => (by cases hop), by decide⟩,
    fun s hs => ?_⟩
  cases hs
  refine ⟨⟨fun _ => by decide, fun seg hop => (by cases hop), by decide⟩,
    fun s hs => ?_⟩
  cases hs
  refine ⟨hsegment (by decide) (by decide), fun s hs => ?_⟩
  cases hs
  exact ⟨hsegment (by decide) (by decide), fun _ _ => trivial⟩

/-- The last ACK is that of the SYN alone : the byte and the FIN are lost. -/
theorem not_tcp_teardown :
    ConnOpened openedConn ∧
      ¬ Along Teardown.next Teardown.Orderly (Teardown.start openedConn) (teardownRun 2) := by
  refine ⟨opened_openedConn, ?_⟩
  rintro ⟨-, h⟩
  obtain ⟨-, h⟩ := h _ rfl
  obtain ⟨-, h⟩ := h _ rfl
  obtain ⟨-, h⟩ := h _ rfl
  obtain ⟨h, -⟩ := h _ rfl
  obtain ⟨-, fin, hfin, hack⟩ := h.acked _ rfl (by decide) (by decide)
  have hthree : some (3 : UInt32) = some fin := hfin
  cases hthree
  exact absurd hack (by decide)

end VernisOS
