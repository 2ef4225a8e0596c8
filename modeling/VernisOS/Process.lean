import Mathlib.Tactic.Simps.Basic
import VernisOS.Loader
import VernisOS.Scheduler
import VernisOS.Syscall

/-!
# Task slots and interrupts

The task slots of `kernel/arch/x86_64/kernel_x64.c` and the parts of `interrupt_dispatch`
that create, switch, change and end tasks : the timer, the system calls of processes and
memory, and the exceptions of user code. A `Machine` is the running kernel after boot, so
that `current_task_idx` is a slot and context switches are enabled. What is left out of a
slot (descriptors, `cwd`, `file_umask`, `ppid_slot`) none of these functions reads. Every
function runs to its end : interrupts are off in a handler, and the kernel task that calls
`elf_exec` is taken not to be preempted in it.
-/

namespace VernisOS

/-! ## The machine -/

instance neZeroSlots : NeZero 8 :=
  ⟨by decide⟩

/-- `TaskSlot`. A kernel task has the PML4 of the kernel, a slot without an address space
0. -/
structure TaskSlot where
  rsp : UInt64
  pid : UInt32
  active : Bool
  ticksRemaining : UInt16
  ticksTotal : UInt16
  brk : UInt64
  vmaList : Fin vmaMaxPerTask → VmaEntry
  mmapNext : UInt64
  pml4 : UInt64
  uid : UInt16
  gid : UInt16

/-- The slot of a task that has died. -/
def TaskSlot.dead (t : TaskSlot) : TaskSlot :=
  { t with active := false, pml4 := 0 }

/-- A tick of the time slice. -/
def TaskSlot.countDown (t : TaskSlot) : TaskSlot :=
  if t.ticksRemaining > 0 then { t with ticksRemaining := t.ticksRemaining - 1 } else t

/-- The machine. `stack` are the addresses of the kernel stacks of the slots, `tssRsp0` is
`kernel_tss.rsp[0]`. -/
structure Machine where
  paging : PagingState
  sched : Scheduler
  tasks : Fin 8 → TaskSlot
  current : Fin 8
  cr3 : UInt64
  tssRsp0 : UInt64
  stack : Fin 8 → UInt64
  kernelTick : UInt64

/-- `TASK_STACK_SIZE`. -/
def taskStackSize : UInt64 := 0x4000

/-- `TIMER_HZ`. -/
def timerHz : ℕ := 240

/-- `vma_find`. -/
def vmaFind (vmas : Fin vmaMaxPerTask → VmaEntry) (addr : UInt64) : Option VmaEntry :=
  ((List.finRange vmaMaxPerTask).find? fun i =>
    (vmas i).type ≠ .none ∧ addr ≥ (vmas i).start ∧ addr < (vmas i).start + (vmas i).length).map vmas

/-- `vma_init`. -/
def vmaInit (vmas : Fin vmaMaxPerTask → VmaEntry) : Fin vmaMaxPerTask → VmaEntry :=
  fun i => { vmas i with type := .none }

namespace Machine

/-- The slot of the running task. -/
def cur (m : Machine) : TaskSlot :=
  m.tasks m.current

/-- Change a slot. -/
@[simps]
def setTask (m : Machine) (i : Fin 8) (t : TaskSlot) : Machine :=
  { m with tasks := Function.update m.tasks i t }

/-- Change the slot of the running task. -/
@[simps]
def setCur (m : Machine) (t : TaskSlot) : Machine :=
  { m with tasks := Function.update m.tasks m.current t }

/-- Change the state of paging. -/
@[simps]
def setPaging (m : Machine) (paging : PagingState) : Machine :=
  { m with paging := paging }

/-- Change the process table. -/
@[simps]
def setSched (m : Machine) (sched : Scheduler) : Machine :=
  { m with sched := sched }

/-- The first slot that is not active. -/
def freeSlot (m : Machine) : Option (Fin 8) :=
  (List.finRange 8).find? fun i => !(m.tasks i).active

/-- The first active slot after `current`, in the order of the slots, `current` last. -/
def nextTask (m : Machine) : Option (Fin 8) :=
  ((List.finRange 8).map fun i => m.current + 1 + i).find? fun i => (m.tasks i).active

/-- The top of the kernel stack of a slot. -/
def stackTop (m : Machine) (i : Fin 8) : UInt64 :=
  m.stack i + taskStackSize

/-- The address space that `task_switch_cr3` loads for a slot. -/
def root (m : Machine) (i : Fin 8) : UInt64 :=
  if (m.tasks i).pml4 = 0 then m.paging.kernelPml4 else (m.tasks i).pml4

/-- `task_switch_cr3`. -/
@[simps]
def taskSwitchCr3 (m : Machine) (i : Fin 8) : Machine :=
  { m with cr3 := m.root i }

/-- The switch to another task : `current_task_idx`, `kernel_tss.rsp[0]` and, with
`task_switch_cr3`, CR3. -/
@[simps]
def switchTo (m : Machine) (i : Fin 8) : Machine :=
  { m with current := i, tssRsp0 := m.stackTop i, cr3 := m.root i }

/-- The slot has an address space of its own : the task runs user code. -/
def IsUser (m : Machine) (i : Fin 8) : Prop :=
  (m.tasks i).active = true ∧ (m.tasks i).pml4 ≠ 0 ∧ (m.tasks i).pml4 ≠ m.paging.kernelPml4

instance (m : Machine) (i : Fin 8) : Decidable (m.IsUser i) :=
  inferInstanceAs (Decidable (_ ∧ _))

/-- Release an address space that is not the kernel's. -/
@[simps]
def release (m : Machine) (pml4 : UInt64) : Machine :=
  { m with
    paging :=
      if pml4 ≠ 0 ∧ pml4 ≠ m.paging.kernelPml4 then pagingFreeUserSpace m.paging pml4
      else m.paging }

/-- What `kernel_get_ticks` returns. -/
def ticks (m : Machine) : ℕ :=
  m.kernelTick.toUInt32.toNat

/-! ## Creating tasks -/

/-- The slot that `elf_exec` fills in before it loads the image, not active yet. -/
def newSlot (old : TaskSlot) (pid : UInt32) (ticks : UInt16) : TaskSlot where
  rsp := old.rsp
  pid := pid
  active := false
  ticksRemaining := ticks
  ticksTotal := ticks
  brk := 0
  vmaList := vmaInit old.vmaList
  mmapNext := 0
  pml4 := old.pml4
  uid := 0
  gid := 0

/-- `elf_exec`, from the file on, with the slot first. -/
def elfExec (m : Machine) (file : ElfFile) (ticks : UInt16) : Option (Fin 8) × Machine :=
  if file.ExecValid then
    match m.freeSlot with
    | none => (none, m)
    | some slot =>
      let proc := m.sched.createProcess 5
      let task := newSlot (m.tasks slot) (UInt32.ofNat proc.1) ticks
      let m := (m.setSched proc.2).setTask slot task
      let r := pagingCreateAddressSpace m.paging m.paging.kernelPml4
      if r.1 = 0 then (none, m.setPaging r.2)
      else
        let image := loadImage file r.1 r.2 0
        let m := m.setPaging image.2.1
        if image.1 then
          -- five words for `iretq`, the error code and the vector, fifteen registers
          (some slot, m.setTask slot
            { task with active := true, pml4 := r.1, rsp := m.stackTop slot - 22 * 8 })
        else (none, m)
  else (none, m)

/-- `kernel_elf_exec`, with `true` for 0. -/
def kernelElfExec (m : Machine) (file : ElfFile) : Bool × Machine :=
  let r := m.elfExec file 24
  match r.1 with
  | some slot => (true, { r.2 with tssRsp0 := r.2.stackTop slot })
  | none => (false, r.2)

/-- The slot that `sys_fork` fills in before it clones the pages, not active yet. -/
def childSlot (old parent : TaskSlot) (pid : UInt32) (pml4 : UInt64) : TaskSlot :=
  { old with
    pid := pid
    active := false
    ticksRemaining := parent.ticksTotal
    ticksTotal := parent.ticksTotal
    brk := parent.brk
    pml4 := pml4 }

/-- `sys_fork`, with the PID of the child first, `none` for -1. `frame` is the address of
the interrupt frame on the kernel stack of the parent. -/
def sysFork (m : Machine) (frame : UInt64) : Option UInt32 × Machine :=
  match m.freeSlot with
  | none => (none, m)
  | some slot =>
    let parent := m.cur
    let proc := m.sched.createProcess 5
    let r := pagingCreateAddressSpace m.paging m.paging.kernelPml4
    let child := childSlot (m.tasks slot) parent (UInt32.ofNat proc.1) r.1
    let m := m.setSched proc.2
    if r.1 = 0 then (none, (m.setPaging r.2).setTask slot child)
    else
      (some child.pid, (m.setPaging (pagingCloneUserPages r.2 r.1 parent.pml4)).setTask slot
        { child with
          active := true
          uid := parent.uid
          gid := parent.gid
          vmaList := parent.vmaList
          mmapNext := parent.mmapNext
          rsp := m.stack slot + (frame - m.stack m.current) })

/-- `sys_execve`, from the file on, with `true` for 0. -/
def sysExecve (m : Machine) (file : ElfFile) : Bool × Machine :=
  if file.ExecveValid then
    let r := pagingCreateAddressSpace m.paging m.paging.kernelPml4
    if r.1 = 0 then (false, m.setPaging r.2)
    else
      let image := loadImage file r.1 r.2 m.cur.brk
      if image.1 then
        let t := { m.cur with brk := image.2.2, pml4 := r.1 }
        (true, (((m.setPaging image.2.1).setCur t).taskSwitchCr3 m.current).release m.cur.pml4)
      else (false, (m.setPaging image.2.1).setCur { m.cur with brk := image.2.2 })
  else (false, m)

/-! ## The memory of a task -/

/-- The break before the call, which starts at 0x10100000. -/
def oldBrk (m : Machine) : UInt64 :=
  if m.cur.brk = 0 then 0x10100000 else m.cur.brk

/-- Round up to a page. -/
def pageUp (va : UInt64) : UInt64 :=
  (va + 0xFFF) &&& ~~~0xFFF

/-- The pages that `sys_sbrk` maps for a positive increment. -/
def sbrkPages (m : Machine) (increment : UInt64) : List (UInt64 × (Page → Page)) :=
  (pageRange (pageUp m.oldBrk) (pageUp (m.oldBrk + increment))).map fun va => (va, id)

/-- `sys_sbrk`, with the old break first, `none` for -1. The increment is signed. -/
def sysSbrk (m : Machine) (increment : UInt64) : Option UInt64 × Machine :=
  let old := m.oldBrk
  let task := { m.cur with brk := old }
  if increment = 0 then (some old, m.setCur task)
  else if increment < 0x8000000000000000 then
    let r := loadPages (m.root m.current) (m.sbrkPages increment) m.paging
    let m := m.setPaging r.2
    if r.1 then (some old, m.setCur { task with brk := old + increment })
    else (none, m.setCur task)
  else (some old, m.setCur { task with brk := old + increment })

/-- `sys_mmap`, with the address first, `none` for -1. `path` is what
`copy_user_path_64` finds at `pathPtr`. -/
def sysMmap (m : Machine) (length protFlags pathPtr : UInt64)
    (path : Option (CString sysIoPathMax)) : Option UInt64 × Machine :=
  let length := pageUp length
  if length = 0 ∨ 0x1000000 < length then (none, m)
  else
    let prot := (protFlags &&& 0xFF).toUInt8
    let flags := ((protFlags >>> 8) &&& 0xFF).toUInt8
    match (List.finRange vmaMaxPerTask).find? fun i => (m.cur.vmaList i).type = .none with
    | none => (none, m)
    | some slot =>
      let va := if m.cur.mmapNext = 0 then mmapBase64 else m.cur.mmapNext
      let add := fun (v : VmaEntry) => m.setCur
        { m.cur with
          mmapNext := va + length
          vmaList := Function.update m.cur.vmaList slot v }
      if pathPtr = 0 ∨ flags &&& mapAnonymous ≠ 0 then
        (some va, add ⟨va, length, .anon, prot, flags, emptyPath⟩)
      else
        match path with
        | none => (none, add ⟨va, length, .none, prot, flags, emptyPath⟩)
        | some path => (some va, add ⟨va, length, .file, prot, flags, path⟩)

/-- `sys_munmap`, with `true` for 0. The length is not looked at, and the pages stay
mapped. -/
def sysMunmap (m : Machine) (addr : UInt64) : Bool × Machine :=
  match (List.finRange vmaMaxPerTask).find? fun i =>
      (m.cur.vmaList i).type ≠ .none ∧ (m.cur.vmaList i).start = addr with
  | none => (false, m)
  | some i =>
    (true, m.setCur { m.cur with
      vmaList := Function.update m.cur.vmaList i { m.cur.vmaList i with type := .none } })

/-! ## Switching and ending tasks -/

/-- The end of a time slice : the next task, if there is another one. -/
def preempt (m : Machine) : UInt64 × Machine :=
  match m.nextTask with
  | none => (0, m)
  | some next => if next ≠ m.current then ((m.tasks next).rsp, m.switchTo next) else (0, m)

/-- The timer interrupt, with the stack pointer to switch to first, 0 for none. -/
def timer (m : Machine) (frame : UInt64) : UInt64 × Machine :=
  let m := { m with kernelTick := m.kernelTick + 1 }
  let t := m.cur.countDown
  if t.ticksRemaining = 0 then
    (m.setCur { t with rsp := frame, ticksRemaining := t.ticksTotal }).preempt
  else (0, m.setCur t)

/-- `SYS_EXIT`. With no task left the machine halts. -/
def sysExit (m : Machine) (exitCode : Int) : Option (UInt64 × Machine) :=
  let dead := m.cur.pml4
  let m := (m.setSched (m.sched.terminatePid m.cur.pid.toNat exitCode)).setCur m.cur.dead
  match m.nextTask with
  | none => none
  | some next => some ((m.tasks next).rsp, (m.switchTo next).release dead)

/-- The slot that `SYS_KILL` ends. The caller is not killed. -/
def victim (m : Machine) (dstPid : UInt64) : Option (Fin 8) :=
  (List.finRange 8).find? fun i =>
    (m.tasks i).active ∧ (m.tasks i).pid.toUInt64 = dstPid ∧ i ≠ m.current

/-- `SYS_KILL`. -/
def sysKill (m : Machine) (dstPid : UInt64) (sig : UInt8) : Machine :=
  let m := m.setSched (m.sched.signalSend dstPid.toNat sig)
  if sig = 9 ∨ sig = 15 then
    match m.victim dstPid with
    | none => m
    | some i =>
      let sched := m.sched.killProcess dstPid.toUInt32.toNat
      ((m.setSched sched).setTask i (m.tasks i).dead).release (m.tasks i).pml4
  else m

/-- `SYS_GETPID`. -/
def sysGetpid (m : Machine) : UInt32 :=
  m.sched.getCurrentPid

/-- `SYS_YIELD`. -/
def sysYield (m : Machine) : Machine :=
  m.setCur { m.cur with ticksRemaining := 1 }

/-- `SYS_SETUID`, with `true` for 0. -/
def sysSetuid (m : Machine) (rbx : UInt64) : Bool × Machine :=
  let v := rbx.toUInt16
  if m.cur.uid = 0 ∨ v = m.cur.uid then (true, m.setCur { m.cur with uid := v }) else (false, m)

/-- `SYS_SETGID`, with `true` for 0. -/
def sysSetgid (m : Machine) (rbx : UInt64) : Bool × Machine :=
  let v := rbx.toUInt16
  if m.cur.uid = 0 ∨ v = m.cur.gid then (true, m.setCur { m.cur with gid := v }) else (false, m)

/-! ## Exceptions of user code -/

/-- The end of a user fault that nothing resolves : the process under the cursor of the
scheduler is killed, and another task goes on. With no task left the machine halts. -/
def userFault (m : Machine) : Option (UInt64 × Machine) :=
  let pid := m.sched.getCurrentPid
  let m :=
    if pid ≠ 0 then m.setSched ((m.sched.killProcess pid.toNat).schedule timerHz m.ticks) else m
  let m := m.setCur { m.cur with active := false }
  match m.nextTask with
  | none => none
  | some next => some ((m.tasks next).rsp, { m with current := next })

/-- The page of an address. -/
def pageDown (va : UInt64) : UInt64 :=
  va &&& ~~~0xFFF

/-- The flags of a page of a region. -/
def regionFlags (v : VmaEntry) : UInt64 :=
  if v.prot &&& 0x02 ≠ 0 then userFlags else pagePresent ||| pageUser

/-- What demand paging copies into the frame for the page at `va` : the bytes of the file,
of which `kfs_read_file` put `tmp` into `mmap_file_tmp`. -/
def regionFill (v : VmaEntry) (tmp : Option (List UInt8)) (va : UInt64) (frame : Page) : Page :=
  if v.type = .file ∧ v.path.val ≠ [] then
    let pageOff := (pageDown va - v.start).toUInt32
    let need := min (pageOff + 4096).toNat 65536
    let total := (tmp.getD []).take need
    if Bytes.cInt pageOff < total.length then
      (List.finRange 4096).foldl (fun p b =>
        if pageOff.toNat + b.val < total.length then
          p.setByte b (total.getD (pageOff.toNat + b.val) 0)
        else p) frame
    else frame
  else frame

/-- Demand paging, with `true` if the task resumes. -/
def demandPage (m : Machine) (va : UInt64) (tmp : Option (List UInt8)) : Bool × Machine :=
  match vmaFind m.cur.vmaList va with
  | none => (false, m)
  | some v =>
    let r := loadPage (m.root m.current) (pageDown va) (regionFlags v) (regionFill v tmp va) m.paging
    (r.1, m.setPaging r.2)

/-- A page fault of user code at `va` : copy-on-write, then demand paging, then the end of
the task. -/
def pageFault (m : Machine) (va : UInt64) (write : Bool) (tmp : Option (List UInt8)) :
    Option (UInt64 × Machine) :=
  let cow := if write then pagingHandleCowFault m.paging m.cur.pml4 va else (false, m.paging)
  let m := m.setPaging cow.2
  if cow.1 then some (0, m)
  else
    let r := m.demandPage va tmp
    if r.1 then some (0, r.2) else r.2.userFault

/-- Write a byte of the frame that a store has reached. -/
def storeByte (m : Machine) (frame va : UInt64) (b : UInt8) : Machine :=
  m.setPaging (m.paging.writePage frame ((m.paging.mem frame).setByte (pageOffset va) b))

end Machine

/-! ## Runs -/

/-- What happens to the machine : calls of the kernel's own tasks, the timer, and what the
running user task does. A store is one that the processor lets through; otherwise it is the
page fault that it raises. -/
inductive ProcOp where
  | elfExec (file : ElfFile) (ticks : UInt16)
  | kernelElfExec (file : ElfFile)
  | schedule
  | setPriority (pid : ℕ) (priority : UInt8)
  | setQuantum (quantumMs : UInt32)
  | timer (frame : UInt64)
  | store (va : UInt64) (b : UInt8)
  | pageFault (va : UInt64) (write : Bool) (tmp : Option (List UInt8))
  | exception
  | exit (exitCode : Int)
  | kill (dstPid : UInt64) (sig : UInt8)
  | fork (frame : UInt64)
  | execve (file : ElfFile)
  | sbrk (increment : UInt64)
  | mmap (length protFlags pathPtr : UInt64) (path : Option (CString sysIoPathMax))
  | munmap (addr : UInt64)
  | getpid
  | yield
  | setuid (rbx : UInt64)
  | setgid (rbx : UInt64)

namespace Machine

/-- What the running user task does, with the stack pointer that `interrupt_dispatch`
returns first. `none` if the machine halts, or if the event cannot happen. -/
def userStep (m : Machine) : ProcOp → Option (UInt64 × Machine)
  | .store va b => (mmuTranslate m.paging m.cr3 va true).map fun f => (0, m.storeByte f va b)
  | .pageFault va write tmp =>
    if mmuTranslate m.paging m.cr3 va write = none then m.pageFault va write tmp else none
  | .exception => m.userFault
  | .exit exitCode => m.sysExit exitCode
  | .kill dstPid sig => some (0, m.sysKill dstPid sig)
  | .fork frame => some (0, (m.sysFork frame).2)
  | .execve file => some (0, (m.sysExecve file).2)
  | .sbrk increment => some (0, (m.sysSbrk increment).2)
  | .mmap length protFlags pathPtr path => some (0, (m.sysMmap length protFlags pathPtr path).2)
  | .munmap addr => some (0, (m.sysMunmap addr).2)
  | .getpid => some (0, m)
  | .yield => some (0, m.sysYield)
  | .setuid rbx => some (0, (m.sysSetuid rbx).2)
  | .setgid rbx => some (0, (m.sysSetgid rbx).2)
  | _ => none

/-- One event. -/
def dispatch (m : Machine) : ProcOp → Option (UInt64 × Machine)
  | .elfExec file ticks => some (0, (m.elfExec file ticks).2)
  | .kernelElfExec file => some (0, (m.kernelElfExec file).2)
  | .schedule => some (0, m.setSched (m.sched.schedule timerHz m.ticks))
  | .setPriority pid priority => some (0, m.setSched (m.sched.setPriority pid priority))
  | .setQuantum quantumMs => some (0, m.setSched (m.sched.setQuantum quantumMs))
  | .timer frame => some (m.timer frame)
  | op => if m.IsUser m.current then m.userStep op else none

/-- One step. -/
def step (m : Machine) (op : ProcOp) : Option Machine :=
  (m.dispatch op).map Prod.snd

theorem step_elfExec (m : Machine) (file : ElfFile) (ticks : UInt16) :
    m.step (.elfExec file ticks) = some (m.elfExec file ticks).2 :=
  rfl

theorem step_timer (m : Machine) (frame : UInt64) :
    m.step (.timer frame) = some (m.timer frame).2 :=
  rfl

end Machine

end VernisOS
