import VernisOS.Lib.Ring
import VernisOS.Lib.Slots

/-!
# Message queues

`kernel/ipc/ipc.c`, the message queues : a table of rings with an owner each, and the cache
from PIDs to queues that `queue_find_by_pid` tries before it scans the table. A pointer is
`none` if it is NULL; behind `data` stand the bytes that `ipc_memcpy` may read.
-/

open Slots

namespace VernisOS

/-- `IPC_MAX_QUEUES`. -/
abbrev ipcMaxQueues : ℕ := 16

/-- `IPC_QUEUE_DEPTH`. -/
def ipcQueueDepth : ℕ := 16

/-- `IPC_MSG_PAYLOAD`. -/
abbrev ipcMsgPayload : ℕ := 48

/-- `IPC_PID_CACHE_SIZE`. -/
abbrev ipcPidCacheSize : ℕ := 256

instance neZeroDepth : NeZero ipcQueueDepth :=
  ⟨by decide⟩

/-- `IPC_OK`. -/
def ipcOk : Int := 0

/-- `IPC_ERR_FULL`. -/
def ipcErrFull : Int := -1

/-- `IPC_ERR_EMPTY`. -/
def ipcErrEmpty : Int := -2

/-- `IPC_ERR_INVAL`. -/
def ipcErrInval : Int := -3

/-- `IPC_ERR_NOSLOT`. -/
def ipcErrNoslot : Int := -4

/-- `IpcMessage`. -/
structure IpcMessage where
  srcPid : UInt32
  dstPid : UInt32
  type : UInt32
  len : UInt32
  data : Fin ipcMsgPayload → UInt8

/-- `IpcQueue`. The slot is free if `ownerPid` is 0. -/
structure IpcQueue where
  ownerPid : UInt32
  head : UInt32
  tail : UInt32
  count : UInt32
  msgs : Fin ipcQueueDepth → IpcMessage

/-- A queue filled with zeros. -/
def IpcQueue.zero : IpcQueue :=
  ⟨0, 0, 0, 0, fun _ => ⟨0, 0, 0, 0, fun _ => 0⟩⟩

/-- Store a message behind those of the queue. -/
def IpcQueue.push (q : IpcQueue) (m : IpcMessage) : IpcQueue :=
  { q with
    msgs := Function.update q.msgs (Ring.pos ipcQueueDepth q.tail.toNat) m
    tail := (q.tail + 1) % UInt32.ofNat ipcQueueDepth
    count := q.count + 1 }

/-- Take the oldest message off the queue. -/
def IpcQueue.pop (q : IpcQueue) : IpcQueue :=
  { q with head := (q.head + 1) % UInt32.ofNat ipcQueueDepth, count := q.count - 1 }

/-- What `IpcStats` counts of queues and messages. -/
structure IpcStats where
  queuesActive : UInt32
  messagesSent : UInt32
  messagesDropped : UInt32

/-- The state of `ipc.c`. An entry of the cache is -1 or the number of a queue. -/
structure Ipc where
  queues : Fin ipcMaxQueues → IpcQueue
  pidToQid : Fin ipcPidCacheSize → Int
  stats : IpcStats

namespace Ipc

/-- `ipc_init`. -/
def ipcInit : Ipc :=
  ⟨fun _ => .zero, fun _ => -1, ⟨0, 0, 0⟩⟩

/-- Store a queue. -/
def setQueue (s : Ipc) (i : Fin ipcMaxQueues) (q : IpcQueue) : Ipc :=
  { s with queues := Function.update s.queues i q }

/-- Store an entry of the cache, for the PIDs that have one. -/
def setCache (s : Ipc) (pid : UInt32) (qid : Int) : Ipc :=
  if h : pid.toNat < ipcPidCacheSize then
    { s with pidToQid := Function.update s.pidToQid ⟨pid.toNat, h⟩ qid }
  else s

/-- Count a message that was dropped. -/
def countDropped (s : Ipc) : Ipc :=
  { s with stats := { s.stats with messagesDropped := s.stats.messagesDropped + 1 } }

/-- Count a message that was sent. -/
def countSent (s : Ipc) : Ipc :=
  { s with stats := { s.stats with messagesSent := s.stats.messagesSent + 1 } }

/-- The queue with a number, if it is in range. -/
@[irreducible] def queueAt (qid : Int) : Option (Fin ipcMaxQueues) :=
  if h : 0 ≤ qid ∧ qid < ipcMaxQueues then some ⟨qid.toNat, (Int.toNat_lt h.1).mpr h.2⟩ else none

/-- The queue that the cache names, if it is still that of the process. -/
def cached (s : Ipc) (pid : UInt32) : Option (Fin ipcMaxQueues) :=
  if h : pid.toNat < ipcPidCacheSize then
    match queueAt (s.pidToQid ⟨pid.toNat, h⟩) with
    | none => none
    | some i => if (s.queues i).ownerPid = pid then some i else none
  else none

/-- The first queue of a process, by a plain scan. -/
def scan (s : Ipc) (pid : UInt32) : Option (Fin ipcMaxQueues) :=
  first fun i => (s.queues i).ownerPid == pid

/-- `queue_find_by_pid`. -/
def queueFindByPid (s : Ipc) (pid : UInt32) : Option (Fin ipcMaxQueues) × Ipc :=
  match s.cached pid with
  | some i => (some i, s)
  | none =>
    match s.scan pid with
    | none => (none, s)
    | some i => (some i, s.setCache pid i.val)

/-- `ipc_queue_create`. -/
def ipcQueueCreate (s : Ipc) (pid : UInt32) : Int × Ipc :=
  if pid = 0 then (ipcErrInval, s)
  else
    match s.queueFindByPid pid with
    | (some i, s) => (i.val, s)
    | (none, s) =>
      match first fun i => (s.queues i).ownerPid == 0 with
      | none => (ipcErrNoslot, s)
      | some i =>
        let s := (s.setQueue i { IpcQueue.zero with ownerPid := pid }).setCache pid i.val
        (i.val, { s with stats := { s.stats with queuesActive := s.stats.queuesActive + 1 } })

/-- `ipc_queue_destroy`. -/
def ipcQueueDestroy (s : Ipc) (qid : UInt32) : Ipc :=
  match queueAt qid.toNat with
  | none => s
  | some i =>
    let pid := (s.queues i).ownerPid
    if pid = 0 then s
    else
      let s := (s.setCache pid (-1)).setQueue i .zero
      if s.stats.queuesActive = 0 then s
      else { s with stats := { s.stats with queuesActive := s.stats.queuesActive - 1 } }

/-- The message that `ipc_send` stores : `len` is cut to the payload, and the bytes behind it
are 0. -/
def message (srcPid dstPid type : UInt32) (data : ℕ → UInt8) (len : UInt32) : IpcMessage where
  srcPid := srcPid
  dstPid := dstPid
  type := type
  len := if UInt32.ofNat ipcMsgPayload < len then UInt32.ofNat ipcMsgPayload else len
  data k := if k.val < min len.toNat ipcMsgPayload then data k else 0

/-- The part of `ipc_send` that finds or creates the queue. -/
def findOrCreate (s : Ipc) (pid : UInt32) : Option (Fin ipcMaxQueues) × Ipc :=
  match s.queueFindByPid pid with
  | (some i, s) => (some i, s)
  | (none, s) =>
    let (qid, s) := s.ipcQueueCreate pid
    (queueAt qid, s)

/-- `ipc_send`. -/
def ipcSend (s : Ipc) (srcPid dstPid type : UInt32) (data : Option (ℕ → UInt8)) (len : UInt32) :
    Int × Ipc :=
  match data with
  | none => (ipcErrInval, s)
  | some bytes =>
    if dstPid = 0 then (ipcErrInval, s)
    else
      match s.findOrCreate dstPid with
      | (none, s) => (ipcErrNoslot, s.countDropped)
      | (some i, s) =>
        if UInt32.ofNat ipcQueueDepth ≤ (s.queues i).count then (ipcErrFull, s.countDropped)
        else
          (ipcOk, (s.setQueue i
            ((s.queues i).push (message srcPid dstPid type bytes len))).countSent)

/-- `ipc_recv`, with the message it copies to `out`. -/
def ipcRecv (s : Ipc) (qid : UInt32) (out : Bool) : Int × Option IpcMessage × Ipc :=
  match queueAt qid.toNat with
  | none => (ipcErrInval, none, s)
  | some i =>
    if !out then (ipcErrInval, none, s)
    else if (s.queues i).ownerPid = 0 then (ipcErrInval, none, s)
    else if (s.queues i).count = 0 then (ipcErrEmpty, none, s)
    else
      (ipcOk, some ((s.queues i).msgs (Ring.pos ipcQueueDepth (s.queues i).head.toNat)),
        s.setQueue i (s.queues i).pop)

end Ipc

end VernisOS
