import VernisOS.IpcChannels
import VernisOS.Lib.Run
import VernisOS.Syscall

/-!
# Byte streams

A channel and a pipe are rings of bytes that are filled at one end and drained at the other.
In every run of reads and writes the bytes that were returned, followed by those in the ring,
are those that were accepted (`byte_streams`).
-/

open Ring Run Slots

namespace VernisOS

/-! ## Pipes as rings -/

/-- The size of the buffer of a pipe. -/
def pipeRingSize : ℕ := pipeBufSize

instance neZeroPipeRingSize : NeZero pipeRingSize :=
  ⟨by decide⟩

/-- `KernelPipe`, with the ring in its buffer. -/
structure PipeRing where
  ring : Cyclic UInt8 pipeRingSize
  active : Bool
  readOpen : Bool
  writeOpen : Bool

namespace PipeRing

/-- What `sys_pipe` makes of a free pipe. -/
def opened (p : PipeRing) : PipeRing :=
  ⟨⟨p.ring.buf, 0, 0, 0⟩, true, true, true⟩

/-- The pipe as the handlers of the other descriptors see it. -/
def kernelPipe (p : PipeRing) : KernelPipe :=
  ⟨p.ring.content, p.active, p.readOpen, p.writeOpen⟩

end PipeRing

/-- The active pipe with an index. -/
def activeRing (pipes : Fin maxPipes → PipeRing) (idx : UInt8) : Option (Fin maxPipes) :=
  if h : idx.toNat < maxPipes then
    if (pipes ⟨idx.toNat, h⟩).active then some ⟨idx.toNat, h⟩ else none
  else none

/-- The count of a call, cut to `SYS_IO_BUF_MAX`. -/
def ioCount (count : UInt64) : UInt64 :=
  if UInt64.ofNat sysIoBufMax < count then UInt64.ofNat sysIoBufMax else count

/-- `sys_read_fd` of a read end `e`, with the bytes it stores at `bufPtr`. -/
def sysReadEnd (pipes : Fin maxPipes → PipeRing) (e : FdEntry) (bufPtr count : UInt64) :
    Int × List UInt8 × (Fin maxPipes → PipeRing) :=
  if count = 0 then (0, [], pipes)
  else if !userPtrRangeValid64 bufPtr (ioCount count) then (-1, [], pipes)
  else
    match activeRing pipes e.pipeIdx with
    | none => (-1, [], pipes)
    | some p =>
      let r := Cyclic.drain (ioCount count).toNat (pipes p).ring
      (r.1.length, r.1, Function.update pipes p { pipes p with ring := r.2 })

/-- `sys_write_fd` of a write end `e`, with the memory of the caller. -/
def sysWriteEnd (pipes : Fin maxPipes → PipeRing) (user : UInt64 → UInt8) (e : FdEntry)
    (bufPtr count : UInt64) : Int × (Fin maxPipes → PipeRing) :=
  if count = 0 then (0, pipes)
  else if !userPtrRangeValid64 bufPtr (ioCount count) then (-1, pipes)
  else
    match activeRing pipes e.pipeIdx with
    | none => (-1, pipes)
    | some p =>
      let bytes := (List.range (ioCount count).toNat).map fun k => user (bufPtr + UInt64.ofNat k)
      let r := Cyclic.fill bytes (pipes p).ring
      (r.1, Function.update pipes p { pipes p with ring := r.2 })

/-! ## Runs on a channel -/

/-- A call on a channel. -/
inductive ChannelOp
  | write (buf : Option (ℕ → UInt8)) (len : UInt32)
  | read (buf : Bool) (maxLen : UInt32)

/-- A run so far : the bytes that were accepted and those that were returned. -/
structure ChannelLog where
  state : IpcChannels
  accepted : List UInt8
  returned : List UInt8

namespace ChannelLog

/-- The first `n` bytes of a buffer. -/
def bytesOf (buf : Option (ℕ → UInt8)) (n : ℕ) : List UInt8 :=
  buf.elim [] fun bytes => (List.range n).map bytes

/-- One call on the channel `cid`. A write accepted as many bytes as it says. -/
def step (cid : UInt32) (log : ChannelLog) : ChannelOp → ChannelLog
  | .write buf len =>
    let r := log.state.ipcChannelWrite cid buf len
    ⟨r.2, log.accepted ++ bytesOf buf r.1.toNat, log.returned⟩
  | .read buf maxLen =>
    let r := log.state.ipcChannelRead cid buf maxLen
    ⟨r.2.2, log.accepted, log.returned ++ r.2.1⟩

/-- What is in the channel. -/
def content (cid : UInt32) (log : ChannelLog) : List UInt8 :=
  (IpcChannels.channelAt cid).elim [] fun i => (log.state.channels i).ring.content

/-- Nothing is lost, duplicated or reordered. -/
def Intact (cid : UInt32) (log : ChannelLog) : Prop :=
  log.returned ++ log.content cid = log.accepted

/-- A write takes what fits, and a read gives what is there and asked for. -/
def Full (cid : UInt32) (log : ChannelLog) : ChannelOp → Prop
  | .write buf len => buf.isSome = true → len ≠ 0 →
    (log.state.ipcChannelWrite cid buf len).1.toNat =
      min len.toNat (ipcChanBufSize - (log.content cid).length)
  | .read buf maxLen => buf = true → maxLen ≠ 0 →
    (log.state.ipcChannelRead cid buf maxLen).2.1 = (log.content cid).take maxLen.toNat ∧
      (log.state.ipcChannelRead cid buf maxLen).1.toNat =
        min maxLen.toNat (log.content cid).length

/-- The channel is open, with counters that agree. -/
structure Inv (i : Fin ipcMaxChannels) (cid : UInt32) (log : ChannelLog) : Prop where
  channel : IpcChannels.channelAt cid = some i
  owner : (log.state.channels i).ownerPid ≠ 0
  opened : (log.state.channels i).closed = false
  wf : (log.state.channels i).ring.Wf
  intact : log.returned ++ (log.state.channels i).ring.content = log.accepted

variable {i : Fin ipcMaxChannels} {cid : UInt32} {log : ChannelLog}

theorem Inv.content (h : log.Inv i cid) :
    log.content cid = (log.state.channels i).ring.content := by
  rw [ChannelLog.content, h.channel, Option.elim_some]

/-- What a write does to an open channel. -/
theorem Inv.write_eq (h : log.Inv i cid) {bytes : ℕ → UInt8} {len : UInt32} (hlen : len ≠ 0) :
    log.state.ipcChannelWrite cid (some bytes) len =
      (let r := Cyclic.fill ((List.range len.toNat).map bytes) (log.state.channels i).ring
       (if r.1 = 0 then ipcErrFull else r.1,
        log.state.setChannel i { log.state.channels i with ring := r.2 })) := by
  unfold IpcChannels.ipcChannelWrite
  rw [h.channel]
  dsimp only
  rw [if_neg hlen, if_neg (by rw [h.opened]; simp [h.owner])]

theorem toNat_written (n : ℕ) : (if n = 0 then ipcErrFull else (n : Int)).toNat = n := by
  by_cases hn : n = 0
  · rw [if_pos hn, hn]
    rfl
  · rw [if_neg hn, Int.toNat_natCast]

theorem Inv.full (h : log.Inv i cid) (op : ChannelOp) : log.Full cid op := by
  cases op with
  | write buf len =>
    intro hbuf hlen
    obtain ⟨bytes, rfl⟩ := Option.isSome_iff_exists.mp hbuf
    rw [h.content, h.write_eq hlen, Cyclic.length_content]
    dsimp only
    rw [toNat_written, (h.wf.fill _).2.1, List.length_map, List.length_range]
  | read buf maxLen =>
    intro hbuf hmax
    rw [h.content]
    unfold IpcChannels.ipcChannelRead
    rw [h.channel]
    dsimp only
    rw [if_neg (by simp [hbuf, hmax]), if_neg h.owner]
    obtain ⟨-, htake, -⟩ := h.wf.drain maxLen.toNat
    by_cases hempty : (log.state.channels i).ring.count = 0
    · have hnil : (log.state.channels i).ring.content = [] :=
        List.length_eq_zero_iff.mp (by rw [Cyclic.length_content, hempty])
      rw [if_pos hempty, hnil]
      simp [ipcErrEmpty]
    · rw [if_neg hempty]
      dsimp only
      rw [htake, Int.toNat_natCast, List.length_take]
      exact ⟨rfl, rfl⟩

/-- A channel whose ring was replaced is still open. -/
theorem Inv.setRing (h : log.Inv i cid) {ring : Cyclic UInt8 ipcChanBufSize} (hwf : ring.Wf)
    {accepted returned : List UInt8} (hintact : returned ++ ring.content = accepted) :
    Inv i cid ⟨log.state.setChannel i { log.state.channels i with ring := ring }, accepted,
      returned⟩ := by
  refine ⟨h.channel, ?_, ?_, ?_, ?_⟩ <;>
    simp only [IpcChannels.setChannel, Function.update_self]
  · exact h.owner
  · exact h.opened
  · exact hwf
  · exact hintact

theorem Inv.step (h : log.Inv i cid) (op : ChannelOp) : (log.step cid op).Inv i cid := by
  cases op with
  | write buf len =>
    unfold ChannelLog.step
    dsimp only
    cases buf with
    | none =>
      have hfail : log.state.ipcChannelWrite cid none len = (ipcErrInval, log.state) := by
        unfold IpcChannels.ipcChannelWrite
        rw [h.channel]
      rw [hfail, bytesOf, Option.elim_none, List.append_nil]
      exact h
    | some bytes =>
      by_cases hlen : len = 0
      · have hfail : log.state.ipcChannelWrite cid (some bytes) len = (ipcErrInval, log.state) := by
          unfold IpcChannels.ipcChannelWrite
          rw [h.channel]
          dsimp only
          rw [if_pos hlen]
        rw [hfail, show ipcErrInval.toNat = 0 from rfl, bytesOf, Option.elim_some, List.range_zero,
          List.map_nil, List.append_nil]
        exact h
      · obtain ⟨hwf, hcount, hcontent⟩ := h.wf.fill ((List.range len.toNat).map bytes)
        rw [h.write_eq hlen]
        dsimp only
        rw [toNat_written]
        refine h.setRing hwf ?_
        rw [hcontent, ← List.append_assoc, h.intact, bytesOf, Option.elim_some, ← List.map_take,
          List.take_range, Nat.min_eq_left]
        rw [hcount, List.length_map, List.length_range]
        exact Nat.min_le_left _ _
  | read buf maxLen =>
    unfold ChannelLog.step
    dsimp only
    unfold IpcChannels.ipcChannelRead
    rw [h.channel]
    dsimp only
    split
    · rw [List.append_nil]
      exact h
    · rw [if_neg h.owner]
      split
      · rw [List.append_nil]
        exact h
      · obtain ⟨hwf, htake, hdrop⟩ := h.wf.drain maxLen.toNat
        refine h.setRing hwf ?_
        rw [htake, hdrop, List.append_assoc, List.take_append_drop, h.intact]

/-- A channel that was just created is open and empty. -/
theorem inv_create {s s' : IpcChannels} {ownerPid peerPid : UInt32} {i : Fin ipcMaxChannels}
    (h : s.ipcChannelCreate ownerPid peerPid = ((i.val : Int), s')) :
    Inv i (UInt32.ofNat i.val) ⟨s', [], []⟩ := by
  unfold IpcChannels.ipcChannelCreate at h
  split at h
  · exact absurd (congrArg Prod.fst h) (by simp only [ipcErrInval]; omega)
  · next howner =>
    split at h
    · exact absurd (congrArg Prod.fst h) (by simp only [ipcErrNoslot]; omega)
    · next j _ =>
      obtain ⟨hj, rfl⟩ := Prod.mk.inj h
      have hji : j = i := Fin.ext (by exact_mod_cast hj)
      subst hji
      refine ⟨IpcChannels.channelAt_ofNat j, ?_, ?_, ?_, ?_⟩ <;>
        simp only [IpcChannels.setChannel, Function.update_self]
      · exact howner
      · rfl
      · exact Cyclic.wf_empty _ 0
      · rfl

end ChannelLog

/-! ## Runs on a pipe -/

/-- A call on an end of a pipe. The memory of the caller is that at the time of the call. -/
inductive PipeOp
  | write (user : UInt64 → UInt8) (bufPtr count : UInt64)
  | read (bufPtr count : UInt64)

/-- A run so far : the bytes that were accepted and those that were returned. -/
structure PipeLog where
  pipes : Fin maxPipes → PipeRing
  accepted : List UInt8
  returned : List UInt8

namespace PipeLog

/-- The first `n` bytes of a user buffer. -/
def bytesOf (user : UInt64 → UInt8) (bufPtr : UInt64) (n : ℕ) : List UInt8 :=
  (List.range n).map fun k => user (bufPtr + UInt64.ofNat k)

/-- One call on the read end `r` or the write end `w`. A write accepted as many bytes as it
says. -/
def step (r w : FdEntry) (log : PipeLog) : PipeOp → PipeLog
  | .write user bufPtr count =>
    let res := sysWriteEnd log.pipes user w bufPtr count
    ⟨res.2, log.accepted ++ bytesOf user bufPtr res.1.toNat, log.returned⟩
  | .read bufPtr count =>
    let res := sysReadEnd log.pipes r bufPtr count
    ⟨res.2.2, log.accepted, log.returned ++ res.2.1⟩

/-- Nothing is lost, duplicated or reordered. -/
def Intact (p : Fin maxPipes) (log : PipeLog) : Prop :=
  log.returned ++ (log.pipes p).ring.content = log.accepted

/-- A write from a valid buffer takes what fits, and a read into one gives what is there and
asked for. -/
def Full (p : Fin maxPipes) (r w : FdEntry) (log : PipeLog) : PipeOp → Prop
  | .write user bufPtr count => userPtrRangeValid64 bufPtr (ioCount count) = true →
    (sysWriteEnd log.pipes user w bufPtr count).1 =
      (min count.toNat (pipeBufSize - (log.pipes p).ring.content.length) : ℕ)
  | .read bufPtr count => userPtrRangeValid64 bufPtr (ioCount count) = true →
    (sysReadEnd log.pipes r bufPtr count).2.1 = (log.pipes p).ring.content.take count.toNat ∧
      (sysReadEnd log.pipes r bufPtr count).1 =
        (min count.toNat (log.pipes p).ring.content.length : ℕ)

/-- The pipe is active, with counters that agree. -/
structure Inv (p : Fin maxPipes) (log : PipeLog) : Prop where
  active : (log.pipes p).active = true
  wf : (log.pipes p).ring.Wf
  intact : log.Intact p

variable {p : Fin maxPipes} {log : PipeLog} {r w : FdEntry}

theorem toNat_ioCount (count : UInt64) : (ioCount count).toNat = min count.toNat pipeRingSize := by
  have hmax : (UInt64.ofNat sysIoBufMax).toNat = 4096 := rfl
  have hsize : pipeRingSize = 4096 := rfl
  unfold ioCount
  rw [hsize]
  split
  · next h =>
    rw [UInt64.lt_iff_toNat_lt, hmax] at h
    omega
  · next h =>
    rw [UInt64.lt_iff_toNat_lt, hmax] at h
    omega

theorem activeRing_val {pipes : Fin maxPipes → PipeRing} (h : (pipes p).active = true) :
    activeRing pipes (UInt8.ofNat p.val) = some p := by
  have hlt : p.val < 8 := p.isLt
  have hval : (UInt8.ofNat p.val).toNat = p.val :=
    UInt8.toNat_ofNat_of_lt' (by change p.val < 256; omega)
  have hfin : (⟨(UInt8.ofNat p.val).toNat, by rw [hval]; exact p.isLt⟩ : Fin maxPipes) = p :=
    Fin.ext hval
  unfold activeRing
  rw [dif_pos (by rw [hval]; exact p.isLt), hfin, if_pos h]

/-- A pipe whose ring was replaced is still active. -/
theorem Inv.setRing (h : log.Inv p) {ring : Cyclic UInt8 pipeRingSize} (hwf : ring.Wf)
    {accepted returned : List UInt8} (hintact : returned ++ ring.content = accepted) :
    Inv p ⟨Function.update log.pipes p { log.pipes p with ring := ring }, accepted,
      returned⟩ := by
  refine ⟨?_, ?_, ?_⟩ <;> simp only [Intact, Function.update_self]
  · exact h.active
  · exact hwf
  · exact hintact

/-- The bytes that a write stores in an active pipe. -/
theorem Inv.write_eq (h : log.Inv p) (hw : w.pipeIdx = UInt8.ofNat p.val)
    {user : UInt64 → UInt8} {bufPtr count : UInt64} (hcount : count ≠ 0)
    (hvalid : userPtrRangeValid64 bufPtr (ioCount count) = true) :
    sysWriteEnd log.pipes user w bufPtr count =
      (let res := Cyclic.fill (bytesOf user bufPtr (ioCount count).toNat) (log.pipes p).ring
       ((res.1 : Int), Function.update log.pipes p { log.pipes p with ring := res.2 })) := by
  unfold sysWriteEnd
  rw [if_neg hcount, hvalid, if_neg (by decide), hw, activeRing_val h.active]
  rfl

/-- The bytes that a read takes from an active pipe. -/
theorem Inv.read_eq (h : log.Inv p) (hr : r.pipeIdx = UInt8.ofNat p.val)
    {bufPtr count : UInt64} (hcount : count ≠ 0)
    (hvalid : userPtrRangeValid64 bufPtr (ioCount count) = true) :
    sysReadEnd log.pipes r bufPtr count =
      (let res := Cyclic.drain (ioCount count).toNat (log.pipes p).ring
       ((res.1.length : Int), res.1,
        Function.update log.pipes p { log.pipes p with ring := res.2 })) := by
  unfold sysReadEnd
  rw [if_neg hcount, hvalid, if_neg (by decide), hr, activeRing_val h.active]

theorem Inv.full (h : log.Inv p) (hr : r.pipeIdx = UInt8.ofNat p.val)
    (hw : w.pipeIdx = UInt8.ofNat p.val) (op : PipeOp) : log.Full p r w op := by
  have hle := h.wf.count_le
  cases op with
  | write user bufPtr count =>
    intro hvalid
    by_cases hcount : count = 0
    · subst hcount
      rw [show (0 : UInt64).toNat = 0 from rfl, Nat.zero_min]
      rfl
    · rw [h.write_eq hw hcount hvalid, Cyclic.length_content]
      dsimp only
      rw [(h.wf.fill _).2.1, bytesOf, List.length_map, List.length_range, toNat_ioCount]
      have hsize : pipeBufSize = pipeRingSize := rfl
      rw [hsize]
      congr 1
      omega
  | read bufPtr count =>
    intro hvalid
    by_cases hcount : count = 0
    · subst hcount
      rw [show (0 : UInt64).toNat = 0 from rfl, Nat.zero_min, List.take_zero]
      exact ⟨rfl, rfl⟩
    · obtain ⟨-, htake, -⟩ := h.wf.drain (ioCount count).toNat
      have hcut : (log.pipes p).ring.content.take (ioCount count).toNat =
          (log.pipes p).ring.content.take count.toNat := by
        rw [toNat_ioCount, ← List.take_take, List.take_of_length_le (i := pipeRingSize)]
        rw [Cyclic.length_content]
        exact hle
      rw [h.read_eq hr hcount hvalid]
      dsimp only
      rw [htake, hcut, List.length_take]
      exact ⟨rfl, rfl⟩

theorem Inv.step (h : log.Inv p) (hr : r.pipeIdx = UInt8.ofNat p.val)
    (hw : w.pipeIdx = UInt8.ofNat p.val) (op : PipeOp) : (log.step r w op).Inv p := by
  cases op with
  | write user bufPtr count =>
    unfold PipeLog.step
    dsimp only
    by_cases hcount : count = 0
    · have hnone : sysWriteEnd log.pipes user w bufPtr count = (0, log.pipes) := if_pos hcount
      rw [hnone, Int.toNat_zero, bytesOf, List.range_zero, List.map_nil, List.append_nil]
      exact h
    · by_cases hvalid : userPtrRangeValid64 bufPtr (ioCount count) = true
      · obtain ⟨hwf, hnum, hcontent⟩ := h.wf.fill (bytesOf user bufPtr (ioCount count).toNat)
        rw [h.write_eq hw hcount hvalid]
        dsimp only
        refine h.setRing hwf ?_
        rw [hcontent, ← List.append_assoc, h.intact, Int.toNat_natCast]
        congr 1
        rw [bytesOf, bytesOf, ← List.map_take, List.take_range, Nat.min_eq_left]
        unfold bytesOf at hnum
        rw [hnum, List.length_map, List.length_range]
        exact Nat.min_le_left _ _
      · have hfail : sysWriteEnd log.pipes user w bufPtr count = (-1, log.pipes) := by
          unfold sysWriteEnd
          rw [if_neg hcount, if_pos (by simpa using hvalid)]
        rw [hfail, show (-1 : Int).toNat = 0 from rfl, bytesOf, List.range_zero, List.map_nil,
          List.append_nil]
        exact h
  | read bufPtr count =>
    unfold PipeLog.step
    dsimp only
    by_cases hcount : count = 0
    · have hnone : sysReadEnd log.pipes r bufPtr count = (0, [], log.pipes) := if_pos hcount
      rw [hnone, List.append_nil]
      exact h
    · by_cases hvalid : userPtrRangeValid64 bufPtr (ioCount count) = true
      · obtain ⟨hwf, htake, hdrop⟩ := h.wf.drain (ioCount count).toNat
        rw [h.read_eq hr hcount hvalid]
        dsimp only
        refine h.setRing hwf ?_
        rw [htake, hdrop, List.append_assoc, List.take_append_drop, h.intact]
      · have hfail : sysReadEnd log.pipes r bufPtr count = (-1, [], log.pipes) := by
          unfold sysReadEnd
          rw [if_neg hcount, if_pos (by simpa using hvalid)]
        rw [hfail, List.append_nil]
        exact h

theorem inv_opened (pipes : Fin maxPipes → PipeRing) (p : Fin maxPipes) :
    Inv p ⟨Function.update pipes p (pipes p).opened, [], []⟩ := by
  refine ⟨?_, ?_, ?_⟩ <;> simp only [Intact, Function.update_self]
  · rfl
  · exact Cyclic.wf_empty _ 0
  · rfl

end PipeLog

/-- The pipe that the handlers see holds the list that the ring holds : what a write appends to
it and what a read takes off. -/
theorem kernelPipe_fill {p : PipeRing} (h : p.ring.Wf) (l : List UInt8) :
    PipeRing.kernelPipe { p with ring := (Cyclic.fill l p.ring).2 } =
      { p.kernelPipe with
        data := p.kernelPipe.data ++ l.take (pipeBufSize - p.kernelPipe.data.length) } := by
  obtain ⟨-, hcount, hcontent⟩ := h.fill l
  have hdata : p.kernelPipe.data.length = p.ring.count := p.ring.length_content
  simp only [PipeRing.kernelPipe] at hdata ⊢
  rw [hcontent, hcount, hdata, List.take_eq_take_iff.mpr]
  rw [show pipeBufSize = pipeRingSize from rfl]
  omega

theorem kernelPipe_drain {p : PipeRing} (h : p.ring.Wf) (k : ℕ) :
    PipeRing.kernelPipe { p with ring := (Cyclic.drain k p.ring).2 } =
      { p.kernelPipe with data := p.kernelPipe.data.drop k } := by
  simp only [PipeRing.kernelPipe]
  rw [(h.drain k).2.2]

/-- On a channel that was created and on the two ends of a pipe that was opened, every run of
writes and reads keeps the stream, and every call does all it can. -/
theorem byte_streams :
    (∀ (s s' : IpcChannels) (ownerPid peerPid : UInt32) (i : Fin ipcMaxChannels),
      s.ipcChannelCreate ownerPid peerPid = ((i.val : Int), s') → ∀ ops : List ChannelOp,
        let cid := UInt32.ofNat i.val
        let next := fun log op => some (ChannelLog.step cid log op)
        After next (ChannelLog.Intact cid) ⟨s', [], []⟩ ops ∧
          Along next (ChannelLog.Full cid) ⟨s', [], []⟩ ops) ∧
    ∀ (pipes : Fin maxPipes → PipeRing) (p : Fin maxPipes) (r w : FdEntry),
      r.pipeIdx = UInt8.ofNat p.val → w.pipeIdx = UInt8.ofNat p.val → ∀ ops : List PipeOp,
        let start : PipeLog := ⟨Function.update pipes p (pipes p).opened, [], []⟩
        let next := fun log op => some (PipeLog.step r w log op)
        After next (PipeLog.Intact p) start ops ∧ Along next (PipeLog.Full p r w) start ops := by
  constructor
  · intro s s' ownerPid peerPid i hcreate ops
    have hstart := ChannelLog.inv_create hcreate
    constructor
    · refine After.mono ?_ ops _ (After.of_inv (fun log op h => h.step op) ops _ hstart)
      intro log h
      rw [ChannelLog.Intact, h.content]
      exact h.intact
    · refine Along.mono_inv (I := ChannelLog.Inv i _) (G := fun _ _ => True) ?_ ?_ ops _ hstart
        (along_true ops _)
      · rintro log op s' h - ⟨⟩
        exact h.step op
      · intro log op h _
        exact h.full op
  · intro pipes p r w hr hw ops
    have hstart := PipeLog.inv_opened pipes p
    constructor
    · refine After.mono ?_ ops _ (After.of_inv (fun log op h => h.step hr hw op) ops _ hstart)
      intro log h
      exact h.intact
    · refine Along.mono_inv (I := PipeLog.Inv p) (G := fun _ _ => True) ?_ ?_ ops _ hstart
        (along_true ops _)
      · rintro log op s' h - ⟨⟩
        exact h.step hr hw op
      · intro log op h _
        exact h.full hr hw op

/-- No channel is in use after `ipc_init`. -/
theorem first_ipcInit :
    first (fun i => (IpcChannels.ipcInit.channels i).ownerPid == 0) = some 0 := by
  decide +kernel

/-- A descriptor of the first pipe. -/
def firstPipeEnd (type : FdType) : FdEntry :=
  ⟨type, 0, emptyPath, 0, 0, 0, 0⟩

theorem byte_streams_first :
    (∃ s' : IpcChannels, IpcChannels.ipcInit.ipcChannelCreate 1 2 = (0, s') ∧
      After (fun log op => some (ChannelLog.step 0 log op)) (ChannelLog.Intact 0) ⟨s', [], []⟩
        [.write (some fun _ => 7) 600, .read true 10]) ∧
    After (fun log op => some (PipeLog.step (firstPipeEnd .pipeR) (firstPipeEnd .pipeW) log op))
      (PipeLog.Intact 0)
      ⟨Function.update (fun _ => ⟨⟨fun _ => 0, 5, 5, 0⟩, false, false, false⟩) 0
        ⟨⟨fun _ => 0, 0, 0, 0⟩, true, true, true⟩, [], []⟩
      [.write (fun _ => 7) userVaddrMin64 600, .read userVaddrMin64 10] := by
  have hcreate : IpcChannels.ipcInit.ipcChannelCreate 1 2 =
      (((0 : Fin ipcMaxChannels).val : Int), (IpcChannels.ipcInit.ipcChannelCreate 1 2).2) := by
    unfold IpcChannels.ipcChannelCreate
    rw [if_neg (by decide), first_ipcInit]
  exact ⟨⟨_, hcreate, (byte_streams.1 _ _ _ _ _ hcreate _).1⟩,
    (byte_streams.2 (fun _ => ⟨⟨fun _ => 0, 5, 5, 0⟩, false, false, false⟩) 0
      (firstPipeEnd .pipeR) (firstPipeEnd .pipeW) rfl rfl _).1⟩

end VernisOS
