import VernisOS.Ipc
import VernisOS.Lib.Run

/-!
# Message queues are reliable

A run of the four calls, with what they accepted and returned. `sent` and `received` list,
for a queue that belongs to a process, the messages for which `ipc_send` returned `IPC_OK`
and those that `ipc_recv` returned since the queue was given to it. At every moment what was
sent is what was received followed by what stands in the ring (`ipc_reliable`).
-/

open Run Slots

namespace VernisOS

/-- The calls on message queues. -/
inductive IpcOp where
  | queueCreate (pid : UInt32)
  | queueDestroy (qid : UInt32)
  | send (srcPid dstPid type : UInt32) (data : Option (ℕ → UInt8)) (len : UInt32)
  | recv (qid : UInt32) (out : Bool)

/-- What a call did : the message it accepted for a process, and the one it returned from a
queue. -/
structure IpcOutcome where
  ipc : Ipc
  accepted : Option (UInt32 × IpcMessage)
  returned : Option (Fin ipcMaxQueues × IpcMessage)

namespace Ipc

/-- One call. -/
def call (s : Ipc) : IpcOp → IpcOutcome
  | .queueCreate pid => ⟨(s.ipcQueueCreate pid).2, none, none⟩
  | .queueDestroy qid => ⟨s.ipcQueueDestroy qid, none, none⟩
  | .send srcPid dstPid type data len =>
    ⟨(s.ipcSend srcPid dstPid type data len).2,
      if (s.ipcSend srcPid dstPid type data len).1 = ipcOk then
        data.map fun bytes => (dstPid, message srcPid dstPid type bytes len) else none,
      none⟩
  | .recv qid out =>
    ⟨(s.ipcRecv qid out).2.2, none,
      if (s.ipcRecv qid out).1 = ipcOk then
        (queueAt qid.toNat).bind fun i => (s.ipcRecv qid out).2.1.map fun m => (i, m) else none⟩

/-- What stands in a queue, the oldest message first. -/
def pending (s : Ipc) (q : Fin ipcMaxQueues) : List IpcMessage :=
  Ring.get (s.queues q).msgs (s.queues q).head.toNat (s.queues q).count.toNat

/-- No two queues belong to the same process. -/
def OneQueue (s : Ipc) : Prop :=
  ∀ i j, (s.queues i).ownerPid ≠ 0 → (s.queues i).ownerPid = (s.queues j).ownerPid → i = j

end Ipc

/-- A run so far. -/
structure IpcLog where
  ipc : Ipc
  sent : Fin ipcMaxQueues → List IpcMessage
  received : Fin ipcMaxQueues → List IpcMessage

namespace IpcLog

/-- After `ipc_init`. -/
def start : IpcLog :=
  ⟨.ipcInit, fun _ => [], fun _ => []⟩

/-- The lists of a queue that belongs to nobody start again. -/
def kept (log : IpcLog) (lists : Fin ipcMaxQueues → List IpcMessage) (q : Fin ipcMaxQueues) :
    List IpcMessage :=
  if (log.ipc.queues q).ownerPid = 0 then [] else lists q

/-- The message that a call accepted for the owner of a queue. -/
def acceptedFor (r : IpcOutcome) (q : Fin ipcMaxQueues) : List IpcMessage :=
  match r.accepted with
  | none => []
  | some (pid, m) => if (r.ipc.queues q).ownerPid = pid then [m] else []

/-- The message that a call returned from a queue. -/
def returnedFrom (r : IpcOutcome) (q : Fin ipcMaxQueues) : List IpcMessage :=
  match r.returned with
  | none => []
  | some (i, m) => if i = q then [m] else []

/-- One call, with what it did. -/
def step (log : IpcLog) (op : IpcOp) : IpcLog :=
  let r := log.ipc.call op
  ⟨r.ipc, fun q => log.kept log.sent q ++ acceptedFor r q,
    fun q => log.kept log.received q ++ returnedFrom r q⟩

/-- Every call returns. -/
def next (log : IpcLog) (op : IpcOp) : Option IpcLog :=
  some (log.step op)

/-- Every queue that belongs to a process is the only one that does, has returned what was
sent to it, in order and once, but for what it still holds, and is found by its owner's PID,
with the cache as without. -/
structure Reliable (log : IpcLog) : Prop where
  unique : log.ipc.OneQueue
  fifo : ∀ q, (log.ipc.queues q).ownerPid ≠ 0 → log.sent q = log.received q ++ log.ipc.pending q
  find : ∀ pid, pid ≠ 0 → (log.ipc.queueFindByPid pid).1 = log.ipc.scan pid

end IpcLog

namespace Ipc

/-! ## The queues after a call -/

@[simp] theorem setCache_queues (s : Ipc) (pid : UInt32) (qid : Int) :
    (s.setCache pid qid).queues = s.queues := by
  unfold setCache
  split <;> rfl

theorem queueAt_val (i : Fin ipcMaxQueues) : queueAt i.val = some i := by
  have h : 0 ≤ (i.val : Int) ∧ (i.val : Int) < ipcMaxQueues := by omega
  rw [queueAt, dif_pos h]
  rfl

theorem queueFindByPid_queues (s : Ipc) (pid : UInt32) :
    (s.queueFindByPid pid).2.queues = s.queues := by
  unfold queueFindByPid
  split
  · rfl
  · split
    · rfl
    · exact setCache_queues ..

theorem cached_some {s : Ipc} {pid : UInt32} {i : Fin ipcMaxQueues} (h : s.cached pid = some i) :
    (s.queues i).ownerPid = pid := by
  unfold cached at h
  split at h
  · split at h
    · cases h
    · obtain ⟨ho, hi⟩ := Option.ite_none_right_eq_some.mp h
      cases hi
      exact ho
  · cases h

theorem scan_some {s : Ipc} {pid : UInt32} {i : Fin ipcMaxQueues} (h : s.scan pid = some i) :
    (s.queues i).ownerPid = pid :=
  beq_iff_eq.mp (first_some h)

theorem scan_none {s : Ipc} {pid : UInt32} (h : s.scan pid = none) (i : Fin ipcMaxQueues) :
    (s.queues i).ownerPid ≠ pid := by
  have hi := first_none.mp h i
  exact beq_eq_false_iff_ne.mp hi

/-- The cache is never ahead of the table. -/
theorem OneQueue.find {s : Ipc} (h : s.OneQueue) {pid : UInt32} (hpid : pid ≠ 0) :
    (s.queueFindByPid pid).1 = s.scan pid := by
  unfold queueFindByPid
  cases hc : s.cached pid with
  | none => cases hs : s.scan pid <;> rfl
  | some i =>
    have hi := cached_some hc
    cases hs : s.scan pid with
    | none => exact absurd hi (scan_none hs i)
    | some j =>
      have hj := scan_some hs
      rw [h i j (by rw [hi]; exact hpid) (by rw [hi, hj])]

/-- A queue is given to a process that has none. -/
def Given (s : Ipc) (pid : UInt32) (i : Fin ipcMaxQueues) : Prop :=
  pid ≠ 0 ∧ (∀ j, (s.queues j).ownerPid ≠ pid) ∧ (s.queues i).ownerPid = 0

/-- What `queue_find_by_pid` finds, with the queues it leaves alone. -/
theorem queueFindByPid_cases (s : Ipc) (pid : UInt32) :
    ∃ s', s'.queues = s.queues ∧
      ((∃ i, s.queueFindByPid pid = (some i, s') ∧ (s.queues i).ownerPid = pid) ∨
        s.queueFindByPid pid = (none, s') ∧ ∀ j, (s.queues j).ownerPid ≠ pid) := by
  refine ⟨(s.queueFindByPid pid).2, s.queueFindByPid_queues pid, ?_⟩
  unfold queueFindByPid
  cases hc : s.cached pid with
  | some i => exact Or.inl ⟨i, rfl, cached_some hc⟩
  | none =>
    cases hs : s.scan pid with
    | some i => exact Or.inl ⟨i, rfl, scan_some hs⟩
    | none => exact Or.inr ⟨rfl, scan_none hs⟩

theorem ipcQueueCreate_cases (s : Ipc) (pid : UInt32) :
    (∃ i, (s.ipcQueueCreate pid).1 = i.val ∧ (s.queues i).ownerPid = pid ∧
        (s.ipcQueueCreate pid).2.queues = s.queues) ∨
      (∃ i, (s.ipcQueueCreate pid).1 = i.val ∧ s.Given pid i ∧
        (s.ipcQueueCreate pid).2.queues =
          Function.update s.queues i { IpcQueue.zero with ownerPid := pid }) ∨
      (s.ipcQueueCreate pid).1 < 0 ∧ (s.ipcQueueCreate pid).2.queues = s.queues := by
  unfold ipcQueueCreate
  by_cases hpid : pid = 0
  · rw [if_pos hpid]
    exact Or.inr (Or.inr ⟨show ipcErrInval < 0 by decide, rfl⟩)
  rw [if_neg hpid]
  obtain ⟨s', hq, ⟨i, hfind, hi⟩ | ⟨hfind, hnone⟩⟩ := s.queueFindByPid_cases pid
  · rw [hfind]
    exact Or.inl ⟨i, rfl, hi, hq⟩
  · rw [hfind]
    dsimp only
    cases hfree : first fun i => (s'.queues i).ownerPid == 0 with
    | none => exact Or.inr (Or.inr ⟨show ipcErrNoslot < 0 by decide, hq⟩)
    | some i =>
      have hi := first_some hfree
      rw [beq_iff_eq, hq] at hi
      refine Or.inr (Or.inl ⟨i, rfl, ⟨hpid, hnone, hi⟩, ?_⟩)
      rw [setCache_queues, setQueue, hq]

theorem queueAt_neg {qid : Int} (h : qid < 0) : queueAt qid = none := by
  rw [queueAt, dif_neg (by omega)]

/-- The queue that `ipc_send` stores the message in. -/
theorem findOrCreate_cases (s : Ipc) (pid : UInt32) :
    ∃ s', (∃ i, s.findOrCreate pid = (some i, s') ∧ (s.queues i).ownerPid = pid ∧
        s'.queues = s.queues) ∨
      (∃ i, s.findOrCreate pid = (some i, s') ∧ s.Given pid i ∧
        s'.queues = Function.update s.queues i { IpcQueue.zero with ownerPid := pid }) ∨
      s.findOrCreate pid = (none, s') ∧ s'.queues = s.queues := by
  refine ⟨(s.findOrCreate pid).2, ?_⟩
  unfold findOrCreate
  obtain ⟨s', hq, ⟨i, hfind, hi⟩ | ⟨hfind, hnone⟩⟩ := s.queueFindByPid_cases pid
  · rw [hfind]
    exact Or.inl ⟨i, rfl, hi, hq⟩
  · rw [hfind]
    dsimp only
    rcases s'.ipcQueueCreate_cases pid with ⟨i, hr, hi, hq'⟩ | ⟨i, hr, hgiven, hq'⟩ | ⟨hr, hq'⟩
    · rw [hr, queueAt_val]
      rw [hq] at hi hq'
      exact Or.inl ⟨i, rfl, hi, hq'⟩
    · rw [hr, queueAt_val]
      unfold Given at hgiven
      rw [hq] at hgiven hq'
      exact Or.inr (Or.inl ⟨i, rfl, hgiven, hq'⟩)
    · rw [queueAt_neg hr]
      exact Or.inr (Or.inr ⟨rfl, hq'.trans hq⟩)

/-- What a call does to the queues. -/
inductive Change (s : Ipc) (r : IpcOutcome) : Prop
  | quiet (hq : r.ipc.queues = s.queues) (ha : r.accepted = none) (hr : r.returned = none)
  | give (i : Fin ipcMaxQueues) (pid : UInt32) (hgiven : s.Given pid i)
      (hq : r.ipc.queues = Function.update s.queues i { IpcQueue.zero with ownerPid := pid })
      (ha : r.accepted = none) (hr : r.returned = none)
  | destroy (i : Fin ipcMaxQueues) (hq : r.ipc.queues = Function.update s.queues i .zero)
      (ha : r.accepted = none) (hr : r.returned = none)
  | accept (i : Fin ipcMaxQueues) (m : IpcMessage) (ho : (s.queues i).ownerPid ≠ 0)
      (hroom : (s.queues i).count < UInt32.ofNat ipcQueueDepth)
      (hq : r.ipc.queues = Function.update s.queues i ((s.queues i).push m))
      (ha : r.accepted = some ((s.queues i).ownerPid, m)) (hr : r.returned = none)
  | giveAccept (i : Fin ipcMaxQueues) (pid : UInt32) (m : IpcMessage) (hgiven : s.Given pid i)
      (hq : r.ipc.queues =
        Function.update s.queues i (IpcQueue.push { IpcQueue.zero with ownerPid := pid } m))
      (ha : r.accepted = some (pid, m)) (hr : r.returned = none)
  | take (i : Fin ipcMaxQueues) (ho : (s.queues i).ownerPid ≠ 0) (hc : (s.queues i).count ≠ 0)
      (hq : r.ipc.queues = Function.update s.queues i (s.queues i).pop) (ha : r.accepted = none)
      (hr : r.returned = some
        (i, (s.queues i).msgs (Ring.pos ipcQueueDepth (s.queues i).head.toNat)))

theorem change_destroy (s : Ipc) (qid : UInt32) : s.Change (s.call (.queueDestroy qid)) := by
  cases hi : queueAt qid.toNat with
  | none =>
    refine .quiet ?_ rfl rfl
    simp only [call, ipcQueueDestroy, hi]
  | some i =>
    by_cases hpid : (s.queues i).ownerPid = 0
    · refine .quiet ?_ rfl rfl
      simp only [call, ipcQueueDestroy, hi, if_pos hpid]
    · refine .destroy i ?_ rfl rfl
      simp only [call, ipcQueueDestroy, hi, if_neg hpid]
      split <;> simp [setQueue]

theorem change_send (s : Ipc) (srcPid dstPid type : UInt32) (data : Option (ℕ → UInt8))
    (len : UInt32) : s.Change (s.call (.send srcPid dstPid type data len)) := by
  -- a send that is refused changes no message
  have hquiet : ∀ code s', code ≠ ipcOk → s'.queues = s.queues →
      s.ipcSend srcPid dstPid type data len = (code, s') →
      s.Change (s.call (.send srcPid dstPid type data len)) := by
    intro code s' hcode hq h
    refine .quiet ?_ ?_ rfl <;> simp only [call, h]
    · exact hq
    · exact if_neg hcode
  cases data with
  | none => exact hquiet ipcErrInval s (by decide) rfl rfl
  | some bytes =>
    by_cases hdst : dstPid = 0
    · refine hquiet ipcErrInval s (by decide) rfl ?_
      simp only [ipcSend, if_pos hdst]
    · obtain ⟨s', ⟨i, hf, ho, hq⟩ | ⟨i, hf, hgiven, hq⟩ | ⟨hf, hq⟩⟩ :=
        s.findOrCreate_cases dstPid
      · by_cases hfull : UInt32.ofNat ipcQueueDepth ≤ (s'.queues i).count
        · refine hquiet ipcErrFull s'.countDropped (by decide) hq ?_
          simp only [ipcSend, if_neg hdst, hf, if_pos hfull]
        · have hsend : s.ipcSend srcPid dstPid type (some bytes) len = (ipcOk, (s'.setQueue i
              ((s'.queues i).push (message srcPid dstPid type bytes len))).countSent) := by
            simp only [ipcSend, if_neg hdst, hf, if_neg hfull]
          rw [hq] at hfull
          refine .accept i (message srcPid dstPid type bytes len) (by rw [ho]; exact hdst)
            (UInt32.not_le.mp hfull) ?_ ?_ rfl <;> simp only [call, hsend]
          · simp only [countSent, setQueue, hq]
          · rw [if_true, ho]
            rfl
      · by_cases hfull : UInt32.ofNat ipcQueueDepth ≤ (s'.queues i).count
        · rw [hq, Function.update_self] at hfull
          exact absurd hfull (show ¬ UInt32.ofNat ipcQueueDepth ≤ 0 by decide)
        · have hsend : s.ipcSend srcPid dstPid type (some bytes) len = (ipcOk, (s'.setQueue i
              ((s'.queues i).push (message srcPid dstPid type bytes len))).countSent) := by
            simp only [ipcSend, if_neg hdst, hf, if_neg hfull]
          refine .giveAccept i dstPid (message srcPid dstPid type bytes len) hgiven ?_ ?_ rfl <;>
            simp only [call, hsend]
          · simp only [countSent, setQueue, hq, Function.update_self, Function.update_idem]
          · rw [if_true]
            rfl
      · refine hquiet ipcErrNoslot s'.countDropped (by decide) hq ?_
        simp only [ipcSend, if_neg hdst, hf]

theorem change_recv (s : Ipc) (qid : UInt32) (out : Bool) :
    s.Change (s.call (.recv qid out)) := by
  have hquiet : ∀ code, code ≠ ipcOk → s.ipcRecv qid out = (code, none, s) →
      s.Change (s.call (.recv qid out)) := by
    intro code hcode h
    refine .quiet ?_ rfl ?_ <;> simp only [call, h]
    exact if_neg hcode
  rcases Option.eq_none_or_eq_some (queueAt qid.toNat) with hi | ⟨i, hi⟩
  · refine hquiet ipcErrInval (by decide) ?_
    simp only [ipcRecv, hi]
  · by_cases hout : !out
    · refine hquiet ipcErrInval (by decide) ?_
      simp only [ipcRecv, hi, if_pos hout]
    by_cases ho : (s.queues i).ownerPid = 0
    · refine hquiet ipcErrInval (by decide) ?_
      simp only [ipcRecv, hi, if_neg hout, if_pos ho]
    by_cases hc : (s.queues i).count = 0
    · refine hquiet ipcErrEmpty (by decide) ?_
      simp only [ipcRecv, hi, if_neg hout, if_neg ho, if_pos hc]
    have hrecv : s.ipcRecv qid out =
        (ipcOk, some ((s.queues i).msgs (Ring.pos ipcQueueDepth (s.queues i).head.toNat)),
          s.setQueue i (s.queues i).pop) := by
      simp only [ipcRecv, hi, if_neg hout, if_neg ho, if_neg hc]
    refine .take i ho hc ?_ rfl ?_ <;> simp only [call, hrecv]
    · rfl
    · rw [if_true, hi]
      rfl

theorem change (s : Ipc) (op : IpcOp) : s.Change (s.call op) := by
  cases op with
  | queueCreate pid =>
    rcases s.ipcQueueCreate_cases pid with ⟨-, -, -, hq⟩ | ⟨i, -, hgiven, hq⟩ | ⟨-, hq⟩
    · exact .quiet hq rfl rfl
    · exact .give i pid hgiven hq rfl rfl
    · exact .quiet hq rfl rfl
  | queueDestroy qid => exact s.change_destroy qid
  | send srcPid dstPid type data len => exact s.change_send srcPid dstPid type data len
  | recv qid out => exact s.change_recv qid out

end Ipc

/-! ## One queue -/

namespace IpcQueue

/-- The queue holds the messages `l`. -/
structure Holds (q : IpcQueue) (l : List IpcMessage) : Prop where
  head : q.head.toNat < 16
  tail : q.tail.toNat = (q.head.toNat + q.count.toNat) % ipcQueueDepth
  fifo : Ring.Fifo q.msgs q.head.toNat q.count.toNat l

theorem holds_new (pid : UInt32) : Holds { IpcQueue.zero with ownerPid := pid } [] :=
  ⟨show 0 < 16 by decide, rfl, Ring.fifo_empty _ _⟩

theorem Holds.push {q : IpcQueue} {l : List IpcMessage} (h : q.Holds l)
    (hroom : q.count < UInt32.ofNat ipcQueueDepth) (m : IpcMessage) :
    (q.push m).Holds (l ++ [m]) := by
  have hlt : q.count.toNat < 16 := UInt32.lt_iff_toNat_lt.mp hroom
  have hcount : (q.count + 1).toNat = q.count.toNat + 1 := by
    rw [UInt32.toNat_add]
    exact Nat.mod_eq_of_lt (by change q.count.toNat + 1 < _; omega)
  have htail : q.tail.toNat < 16 := by
    rw [h.tail]
    exact Nat.mod_lt _ (by decide)
  refine ⟨h.head, ?_, ?_⟩
  · change ((q.tail + 1) % UInt32.ofNat ipcQueueDepth).toNat = (_ + (q.count + 1).toNat) % _
    have hnext : (q.tail + 1).toNat = q.tail.toNat + 1 := by
      rw [UInt32.toNat_add]
      exact Nat.mod_eq_of_lt (by change q.tail.toNat + 1 < _; omega)
    rw [UInt32.toNat_mod, hnext, hcount, h.tail]
    exact (Nat.mod_add_mod _ _ _).trans (by rw [Nat.add_assoc]; rfl)
  · change Ring.Fifo (Function.update q.msgs (Ring.pos ipcQueueDepth q.tail.toNat) m)
      q.head.toNat (q.count + 1).toNat (l ++ [m])
    rw [hcount, h.tail, Ring.pos_mod]
    exact h.fifo.push hlt m

theorem Holds.pop {q : IpcQueue} {l : List IpcMessage} (h : q.Holds l) (hc : q.count ≠ 0) :
    ∃ rest, l = q.msgs (Ring.pos ipcQueueDepth q.head.toNat) :: rest ∧ q.pop.Holds rest := by
  have hpos : 0 < q.count.toNat := by
    refine Nat.pos_of_ne_zero fun h0 => hc ?_
    rw [← UInt32.toNat_inj, h0]
    rfl
  have hcount : (q.count - 1).toNat + 1 = q.count.toNat := by
    have hle : (1 : UInt32) ≤ q.count := UInt32.le_iff_toNat_le.mpr hpos
    rw [UInt32.toNat_sub_of_le _ _ hle]
    exact Nat.sub_add_cancel hpos
  have hnext : ((q.head + 1) % UInt32.ofNat ipcQueueDepth).toNat =
      (q.head.toNat + 1) % ipcQueueDepth := by
    have hhead := h.head
    rw [UInt32.toNat_mod, UInt32.toNat_add]
    change (q.head.toNat + 1) % 4294967296 % 16 = _
    rw [Nat.mod_eq_of_lt (by omega : q.head.toNat + 1 < 4294967296)]
    rfl
  have hfifo := h.fifo
  rw [← hcount] at hfifo
  obtain ⟨rest, hl, hrest⟩ := hfifo.pop
  refine ⟨rest, hl, ?_, ?_, ?_⟩
  · change ((q.head + 1) % UInt32.ofNat ipcQueueDepth).toNat < 16
    rw [hnext]
    exact Nat.mod_lt _ (by decide)
  · change q.tail.toNat = (((q.head + 1) % UInt32.ofNat ipcQueueDepth).toNat +
      (q.count - 1).toNat) % ipcQueueDepth
    rw [hnext, Nat.mod_add_mod, h.tail, ← hcount]
    congr 1
    omega
  · change Ring.Fifo q.msgs ((q.head + 1) % UInt32.ofNat ipcQueueDepth).toNat
      (q.count - 1).toNat rest
    rw [hnext]
    exact hrest

end IpcQueue

/-! ## Runs -/

namespace IpcLog

/-- Every queue of a process holds what was sent to it and not yet received. -/
structure Inv (log : IpcLog) : Prop where
  unique : log.ipc.OneQueue
  holds : ∀ q, (log.ipc.queues q).ownerPid ≠ 0 →
    ∃ l, (log.ipc.queues q).Holds l ∧ log.sent q = log.received q ++ l

theorem Inv.reliable {log : IpcLog} (h : log.Inv) : log.Reliable where
  unique := h.unique
  fifo q hq := by
    obtain ⟨l, hl, hsent⟩ := h.holds q hq
    rw [hsent, Ipc.pending, hl.fifo.get]
  find _ hpid := h.unique.find hpid

theorem inv_start : start.Inv :=
  ⟨fun _ _ h => absurd rfl h, fun _ h => absurd rfl h⟩

theorem kept_of_owned {log : IpcLog} {q : Fin ipcMaxQueues}
    (h : (log.ipc.queues q).ownerPid ≠ 0) (lists : Fin ipcMaxQueues → List IpcMessage) :
    log.kept lists q = lists q :=
  if_neg h

theorem kept_of_free {log : IpcLog} {q : Fin ipcMaxQueues}
    (h : (log.ipc.queues q).ownerPid = 0) (lists : Fin ipcMaxQueues → List IpcMessage) :
    log.kept lists q = [] :=
  if_pos h

theorem acceptedFor_none {r : IpcOutcome} (h : r.accepted = none) (q : Fin ipcMaxQueues) :
    acceptedFor r q = [] := by
  rw [acceptedFor, h]

theorem acceptedFor_owner {r : IpcOutcome} {pid : UInt32} {m : IpcMessage}
    (h : r.accepted = some (pid, m)) {q : Fin ipcMaxQueues}
    (ho : (r.ipc.queues q).ownerPid = pid) : acceptedFor r q = [m] := by
  rw [acceptedFor, h]
  exact if_pos ho

theorem returnedFrom_none {r : IpcOutcome} (h : r.returned = none) (q : Fin ipcMaxQueues) :
    returnedFrom r q = [] := by
  rw [returnedFrom, h]

theorem returnedFrom_self {r : IpcOutcome} {m : IpcMessage} {q : Fin ipcMaxQueues}
    (h : r.returned = some (q, m)) : returnedFrom r q = [m] := by
  rw [returnedFrom, h]
  exact if_pos rfl

/-- A call that changes one queue, which holds what it should after it, keeps the invariant. -/
theorem Inv.update {log : IpcLog} (h : log.Inv) {op : IpcOp} {i : Fin ipcMaxQueues}
    {q' : IpcQueue}
    (hq : (log.ipc.call op).ipc.queues = Function.update log.ipc.queues i q')
    (howner : ∀ j, j ≠ i → q'.ownerPid ≠ 0 → (log.ipc.queues j).ownerPid ≠ q'.ownerPid)
    (hholds : q'.ownerPid ≠ 0 → ∃ l, q'.Holds l ∧
      log.kept log.sent i ++ acceptedFor (log.ipc.call op) i =
        log.kept log.received i ++ returnedFrom (log.ipc.call op) i ++ l)
    (haccepted : ∀ m, (log.ipc.call op).accepted = some m → m.1 = q'.ownerPid ∧ m.1 ≠ 0)
    (hreturned : ∀ m, (log.ipc.call op).returned = some m → m.1 = i) :
    (log.step op).Inv := by
  have hself : ((log.step op).ipc.queues i) = q' := by
    change (log.ipc.call op).ipc.queues i = q'
    rw [hq, Function.update_self]
  have hother : ∀ j, j ≠ i → (log.step op).ipc.queues j = log.ipc.queues j := by
    intro j hj
    change (log.ipc.call op).ipc.queues j = _
    rw [hq, Function.update_of_ne hj]
  refine ⟨fun j k hj hjk => ?_, fun j hj => ?_⟩
  · by_cases hji : j = i
    · subst hji
      by_contra hne
      rw [hself] at hj
      rw [hself, hother k (Ne.symm hne)] at hjk
      exact howner k (Ne.symm hne) hj hjk.symm
    · rw [hother j hji] at hj hjk
      by_cases hki : k = i
      · subst hki
        rw [hself] at hjk
        exact absurd hjk (howner j hji (hjk ▸ hj))
      · rw [hother k hki] at hjk
        exact h.unique j k hj hjk
  · by_cases hji : j = i
    · subst hji
      rw [hself] at hj ⊢
      exact hholds hj
    · rw [hother j hji] at hj ⊢
      obtain ⟨l, hl, hsent⟩ := h.holds j hj
      refine ⟨l, hl, ?_⟩
      have hacc : acceptedFor (log.ipc.call op) j = [] := by
        unfold acceptedFor
        split
        · rfl
        · next pid m hm =>
          obtain ⟨he, hne⟩ := haccepted _ hm
          refine if_neg fun ho => ?_
          rw [show (log.ipc.call op).ipc.queues j = _ from hother j hji] at ho
          exact howner j hji (he ▸ hne) (ho.trans he)
      have hret : returnedFrom (log.ipc.call op) j = [] := by
        unfold returnedFrom
        split
        · rfl
        · next k m hm =>
          refine if_neg fun hk => hji ?_
          rw [← hk]
          exact hreturned _ hm
      change log.kept log.sent j ++ acceptedFor _ j =
        log.kept log.received j ++ returnedFrom _ j ++ l
      rw [hacc, hret, kept_of_owned hj, kept_of_owned hj, List.append_nil, List.append_nil, hsent]

theorem Inv.step {log : IpcLog} (h : log.Inv) (op : IpcOp) : (log.step op).Inv := by
  rcases log.ipc.change op with ⟨hq, ha, hr⟩ | ⟨i, pid, hg, hq, ha, hr⟩ | ⟨i, hq, ha, hr⟩ |
    ⟨i, m, ho, hroom, hq, ha, hr⟩ | ⟨i, pid, m, hg, hq, ha, hr⟩ | ⟨i, ho, hc, hq, ha, hr⟩
  · have hqueues : (log.step op).ipc.queues = log.ipc.queues := hq
    refine ⟨fun j k => ?_, fun j hj => ?_⟩
    · rw [hqueues]
      exact h.unique j k
    · rw [hqueues] at hj ⊢
      obtain ⟨l, hl, hsent⟩ := h.holds j hj
      refine ⟨l, hl, ?_⟩
      change log.kept log.sent j ++ acceptedFor _ j =
        log.kept log.received j ++ returnedFrom _ j ++ l
      rw [acceptedFor_none ha, returnedFrom_none hr, kept_of_owned hj, kept_of_owned hj,
        List.append_nil, List.append_nil, hsent]
  · refine h.update hq (fun j _ _ => hg.2.1 j) (fun _ => ⟨[], IpcQueue.holds_new pid, ?_⟩)
      (fun m hm => ?_) (fun m hm => ?_)
    · rw [acceptedFor_none ha, returnedFrom_none hr, kept_of_free hg.2.2, kept_of_free hg.2.2]
      rfl
    · rw [ha] at hm
      cases hm
    · rw [hr] at hm
      cases hm
  · refine h.update hq (fun j _ hne => absurd rfl hne) (fun hne => absurd rfl hne)
      (fun m hm => ?_) (fun m hm => ?_)
    · rw [ha] at hm
      cases hm
    · rw [hr] at hm
      cases hm
  · obtain ⟨l, hl, hsent⟩ := h.holds i ho
    refine h.update hq (fun j hj _ he => hj (h.unique i j ho he.symm).symm)
      (fun _ => ⟨l ++ [m], hl.push hroom m, ?_⟩) (fun m' hm => ?_) (fun m' hm => ?_)
    · have howner : ((log.ipc.call op).ipc.queues i).ownerPid = (log.ipc.queues i).ownerPid := by
        rw [hq, Function.update_self]
        rfl
      rw [acceptedFor_owner ha howner, returnedFrom_none hr, kept_of_owned ho, kept_of_owned ho,
        hsent, List.append_nil, List.append_assoc]
    · rw [ha] at hm
      cases hm
      exact ⟨rfl, ho⟩
    · rw [hr] at hm
      cases hm
  · refine h.update hq (fun j _ _ => hg.2.1 j)
      (fun _ => ⟨[] ++ [m], (IpcQueue.holds_new pid).push (show (0 : UInt32) < 16 by decide) m,
        ?_⟩) (fun m' hm => ?_)
      (fun m' hm => ?_)
    · have howner : ((log.ipc.call op).ipc.queues i).ownerPid = pid := by
        rw [hq, Function.update_self]
        rfl
      rw [acceptedFor_owner ha howner, returnedFrom_none hr, kept_of_free hg.2.2,
        kept_of_free hg.2.2]
      rfl
    · rw [ha] at hm
      cases hm
      exact ⟨rfl, hg.1⟩
    · rw [hr] at hm
      cases hm
  · obtain ⟨l, hl, hsent⟩ := h.holds i ho
    obtain ⟨rest, hrest, hpop⟩ := hl.pop hc
    refine h.update hq (fun j hj _ he => hj (h.unique i j ho he.symm).symm)
      (fun _ => ⟨rest, hpop, ?_⟩) (fun m' hm => ?_) (fun m' hm => ?_)
    · rw [acceptedFor_none ha, returnedFrom_self hr, kept_of_owned ho, kept_of_owned ho, hsent,
        hrest, List.append_nil, List.append_assoc]
      rfl
    · rw [ha] at hm
      cases hm
    · rw [hr] at hm
      cases hm
      rfl

end IpcLog

end VernisOS
