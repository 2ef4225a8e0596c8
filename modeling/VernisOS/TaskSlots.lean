import VernisOS.PagingOps
import VernisOS.Process

/-!
# What an event does to a slot

Every change that an event of the machine makes to a task slot (`SlotChange`), said once
(`step_slot`) : the invariants of the slots are case distinctions over it. What it does to
paging is a sequence of primitive changes (`step_paging`).
-/

namespace VernisOS

namespace Machine

/-! ## Faults -/

/-- The machine after the attempt of `paging_handle_cow_fault` at a page fault. -/
def cowAttempt (m : Machine) (va : UInt64) (write : Bool) : Bool × Machine :=
  let cow := if write then pagingHandleCowFault m.paging m.cur.pml4 va else (false, m.paging)
  (cow.1, m.setPaging cow.2)

/-- The event is a fault of the running user task that nothing resolves. -/
def Unresolved (m : Machine) : ProcOp → Prop
  | .exception => m.IsUser m.current
  | .pageFault va write tmp =>
    m.IsUser m.current ∧ mmuTranslate m.paging m.cr3 va write = none ∧
      (m.cowAttempt va write).1 = false ∧ ((m.cowAttempt va write).2.demandPage va tmp).1 = false
  | _ => False

theorem pageFault_eq (m : Machine) (va : UInt64) (write : Bool) (tmp : Option (List UInt8)) :
    m.pageFault va write tmp =
      if (m.cowAttempt va write).1 then some (0, (m.cowAttempt va write).2)
      else if ((m.cowAttempt va write).2.demandPage va tmp).1 then
        some (0, ((m.cowAttempt va write).2.demandPage va tmp).2)
      else ((m.cowAttempt va write).2.demandPage va tmp).2.userFault :=
  rfl

/-- What a page fault leaves of the machine besides the paging. -/
theorem demandPage_eq (m : Machine) (va : UInt64) (tmp : Option (List UInt8)) :
    ∃ paging, (m.demandPage va tmp).2 = m.setPaging paging := by
  unfold demandPage
  split
  · exact ⟨m.paging, rfl⟩
  · exact ⟨_, rfl⟩

theorem cowAttempt_demandPage (m : Machine) (va : UInt64) (write : Bool)
    (tmp : Option (List UInt8)) :
    ∃ paging, ((m.cowAttempt va write).2.demandPage va tmp).2 = m.setPaging paging := by
  obtain ⟨paging, he⟩ := (m.cowAttempt va write).2.demandPage_eq va tmp
  exact ⟨paging, he⟩

/-! ## Changes -/

/-- The event is one of the calls that load a program into a new task. -/
def IsLoad : ProcOp → Prop
  | .elfExec _ _ => True
  | .kernelElfExec _ => True
  | _ => False

/-- The address space that `paging_create_address_space` returns. -/
def newSpace (m : Machine) : UInt64 :=
  (pagingCreateAddressSpace m.paging m.paging.kernelPml4).1

/-- The ways in which an event may change a slot. -/
inductive SlotChange (m : Machine) (op : ProcOp) (j : Fin 8) : TaskSlot → Prop
  | same : SlotChange m op j (m.tasks j)
  | update {t : TaskSlot} (hj : j = m.current) (hactive : t.active = m.cur.active)
      (hpid : t.pid = m.cur.pid) (hpml4 : t.pml4 = m.cur.pml4) (huid : t.uid = m.cur.uid)
      (hgid : t.gid = m.cur.gid) : SlotChange m op j t
  | execve {t : TaskSlot} (file : ElfFile) (hop : op = .execve file) (hj : j = m.current)
      (hactive : t.active = m.cur.active) (hpid : t.pid = m.cur.pid) (huid : t.uid = m.cur.uid)
      (hgid : t.gid = m.cur.gid) (hpml4 : t.pml4 = m.newSpace) (huser : m.IsUser m.current) :
      SlotChange m op j t
  | setuid (rbx : UInt64) (hop : op = .setuid rbx) (hj : j = m.current)
      (hv : m.cur.uid = 0 ∨ rbx.toUInt16 = m.cur.uid) :
      SlotChange m op j { m.cur with uid := rbx.toUInt16 }
  | setgid (rbx : UInt64) (hop : op = .setgid rbx) (hj : j = m.current)
      (hv : m.cur.uid = 0 ∨ rbx.toUInt16 = m.cur.gid) :
      SlotChange m op j { m.cur with gid := rbx.toUInt16 }
  | exit (exitCode : Int) (hop : op = .exit exitCode) (hj : j = m.current) :
      SlotChange m op j m.cur.dead
  | kill (dstPid : UInt64) (sig : UInt8) (hop : op = .kill dstPid sig)
      (hj : m.victim dstPid = some j) : SlotChange m op j (m.tasks j).dead
  | fault (hop : m.Unresolved op) (hj : j = m.current) :
      SlotChange m op j { m.cur with active := false }
  | load {t : TaskSlot} (hop : IsLoad op) (hslot : m.freeSlot = some j)
      (hpid : t.pid = UInt32.ofNat m.sched.nextPid)
      (hpml4 : t.active = false → t.pml4 = (m.tasks j).pml4)
      (hnew : t.active = true → t.pml4 = m.newSpace) : SlotChange m op j t
  | fork {t : TaskSlot} (frame : UInt64) (hop : op = .fork frame) (hslot : m.freeSlot = some j)
      (hpid : t.pid = UInt32.ofNat m.sched.nextPid)
      (hactive : t.active = (m.sysFork frame).1.isSome) (hpml4 : t.active = false → t.pml4 = 0)
      (hnew : t.active = true → t.pml4 = m.newSpace)
      (huid : t.active = true → t.uid = m.cur.uid) (hgid : t.active = true → t.gid = m.cur.gid) :
      SlotChange m op j t

/-- An event that changes one slot. -/
theorem SlotChange.update_at {m : Machine} {op : ProcOp} {i : Fin 8} {t : TaskSlot}
    (h : SlotChange m op i t) (j : Fin 8) : SlotChange m op j (Function.update m.tasks i t j) := by
  by_cases hj : j = i
  · subst hj
    rw [Function.update_self]
    exact h
  · rw [Function.update_of_ne hj]
    exact .same

/-- A slot that is changed twice. -/
theorem setTask_tasks_of_update {m n : Machine} {i : Fin 8} {t : TaskSlot}
    (h : n.tasks = Function.update m.tasks i t) (t' : TaskSlot) :
    (n.setTask i t').tasks = Function.update m.tasks i t' := by
  change Function.update n.tasks i t' = _
  rw [h, Function.update_idem]

theorem preempt_tasks (m : Machine) : m.preempt.2.tasks = m.tasks := by
  unfold preempt
  split
  · rfl
  · split <;> rfl

theorem countDown_eq (t : TaskSlot) : ∃ ticks, t.countDown = { t with ticksRemaining := ticks } := by
  unfold TaskSlot.countDown
  split
  · exact ⟨_, rfl⟩
  · exact ⟨t.ticksRemaining, rfl⟩

theorem slot_timer (m : Machine) (frame : UInt64) (op : ProcOp) (j : Fin 8) :
    SlotChange m op j ((m.timer frame).2.tasks j) := by
  obtain ⟨ticks, he⟩ := countDown_eq m.cur
  unfold timer
  dsimp only
  rw [show ({ m with kernelTick := m.kernelTick + 1 } : Machine).cur = m.cur from rfl, he]
  split
  · rw [preempt_tasks, setCur_tasks]
    refine SlotChange.update_at ?_ j
    exact .update rfl rfl rfl rfl rfl rfl
  · rw [setCur_tasks]
    refine SlotChange.update_at ?_ j
    exact .update rfl rfl rfl rfl rfl rfl

theorem slot_sysExit {m : Machine} {exitCode : Int} {r : UInt64 × Machine}
    (h : m.sysExit exitCode = some r) (j : Fin 8) :
    SlotChange m (.exit exitCode) j (r.2.tasks j) := by
  unfold sysExit at h
  dsimp only at h
  split at h
  · cases h
  · cases h
    exact SlotChange.update_at (.exit exitCode rfl rfl) j

theorem slot_sysKill (m : Machine) (dstPid : UInt64) (sig : UInt8) (j : Fin 8) :
    SlotChange m (.kill dstPid sig) j ((m.sysKill dstPid sig).tasks j) := by
  unfold sysKill
  dsimp only
  split
  · split
    · exact .same
    · rename_i i hi
      refine SlotChange.update_at (m := m) ?_ j
      exact .kill dstPid sig rfl hi
  · exact .same

/-- The machine after `scheduler_kill_process` and `scheduler_schedule` in a user fault. -/
def faultSched (m : Machine) : Scheduler :=
  if m.sched.getCurrentPid ≠ 0 then
    (m.sched.killProcess m.sched.getCurrentPid.toNat).schedule timerHz m.ticks
  else m.sched

theorem userFault_eq (m : Machine) :
    m.userFault =
      match ((m.setSched m.faultSched).setCur { m.cur with active := false }).nextTask with
      | none => none
      | some next =>
        some ((Function.update m.tasks m.current { m.cur with active := false } next).rsp,
          { (m.setSched m.faultSched).setCur { m.cur with active := false } with
            current := next }) := by
  unfold userFault faultSched
  by_cases h : m.sched.getCurrentPid ≠ 0
  · simp only [if_pos h]
    rfl
  · simp only [if_neg h]
    rfl

theorem slot_userFault {m : Machine} {op : ProcOp} {r : UInt64 × Machine} (hop : m.Unresolved op)
    {paging : PagingState} (h : (m.setPaging paging).userFault = some r) (j : Fin 8) :
    SlotChange m op j (r.2.tasks j) := by
  rw [userFault_eq] at h
  split at h
  · cases h
  · cases h
    exact SlotChange.update_at (.fault hop rfl) j

theorem slot_sysExecve {m : Machine} (huser : m.IsUser m.current) (file : ElfFile) (j : Fin 8) :
    SlotChange m (.execve file) j ((m.sysExecve file).2.tasks j) := by
  unfold sysExecve
  split
  · dsimp only
    split
    · exact .same
    · split
      · refine SlotChange.update_at ?_ j
        exact .execve file rfl rfl rfl rfl rfl rfl rfl huser
      · refine SlotChange.update_at ?_ j
        exact .update rfl rfl rfl rfl rfl rfl
  · exact .same

theorem slot_sysSbrk (m : Machine) (increment : UInt64) (op : ProcOp) (j : Fin 8) :
    SlotChange m op j ((m.sysSbrk increment).2.tasks j) := by
  have hbrk : ∀ brk, SlotChange m op j
      (Function.update m.tasks m.current { m.cur with brk := brk } j) := by
    intro brk
    refine SlotChange.update_at ?_ j
    exact .update rfl rfl rfl rfl rfl rfl
  unfold sysSbrk
  dsimp only
  split
  · exact hbrk _
  · split
    · split
      · exact hbrk _
      · exact hbrk _
    · exact hbrk _

theorem slot_sysMmap (m : Machine) (length protFlags pathPtr : UInt64)
    (path : Option (CString sysIoPathMax)) (op : ProcOp) (j : Fin 8) :
    SlotChange m op j ((m.sysMmap length protFlags pathPtr path).2.tasks j) := by
  have hadd : ∀ next vmas, SlotChange m op j (Function.update m.tasks m.current
      { m.cur with mmapNext := next, vmaList := vmas } j) := by
    intro next vmas
    refine SlotChange.update_at ?_ j
    exact .update rfl rfl rfl rfl rfl rfl
  unfold sysMmap
  dsimp only
  split
  · exact .same
  · split
    · exact .same
    · split
      · exact hadd _ _
      · split
        · exact hadd _ _
        · exact hadd _ _

theorem slot_sysMunmap (m : Machine) (addr : UInt64) (op : ProcOp) (j : Fin 8) :
    SlotChange m op j ((m.sysMunmap addr).2.tasks j) := by
  unfold sysMunmap
  split
  · exact .same
  · refine SlotChange.update_at ?_ j
    exact .update rfl rfl rfl rfl rfl rfl

theorem slot_sysSetuid (m : Machine) (rbx : UInt64) (j : Fin 8) :
    SlotChange m (.setuid rbx) j ((m.sysSetuid rbx).2.tasks j) := by
  unfold sysSetuid
  dsimp only
  split
  · rename_i hv
    exact SlotChange.update_at (.setuid rbx rfl rfl hv) j
  · exact .same

theorem slot_sysSetgid (m : Machine) (rbx : UInt64) (j : Fin 8) :
    SlotChange m (.setgid rbx) j ((m.sysSetgid rbx).2.tasks j) := by
  unfold sysSetgid
  dsimp only
  split
  · rename_i hv
    exact SlotChange.update_at (.setgid rbx rfl rfl hv) j
  · exact .same

theorem slot_elfExec (m : Machine) (file : ElfFile) (ticks : UInt16) {op : ProcOp}
    (hop : IsLoad op) (j : Fin 8) : SlotChange m op j ((m.elfExec file ticks).2.tasks j) := by
  unfold elfExec
  split
  · split
    · exact .same
    · rename_i slot hslot
      have hnew : SlotChange m op j (Function.update m.tasks slot
          (newSlot (m.tasks slot) (UInt32.ofNat (m.sched.createProcess 5).1) ticks) j) := by
        refine SlotChange.update_at ?_ j
        exact .load hop hslot rfl (fun _ => rfl) fun h => by cases h
      dsimp only
      split
      · exact hnew
      · split
        · rw [setTask_tasks_of_update (m := m) (t := newSlot (m.tasks slot)
            (UInt32.ofNat (m.sched.createProcess 5).1) ticks) rfl]
          refine SlotChange.update_at ?_ j
          exact .load hop hslot rfl (fun h => by cases h) fun _ => rfl
        · exact hnew
  · exact .same

theorem slot_kernelElfExec (m : Machine) (file : ElfFile) {op : ProcOp} (hop : IsLoad op)
    (j : Fin 8) : SlotChange m op j ((m.kernelElfExec file).2.tasks j) := by
  have h := m.slot_elfExec file 24 hop j
  unfold kernelElfExec
  generalize m.elfExec file 24 = r at h ⊢
  dsimp only
  split
  · exact h
  · exact h

theorem freeSlot_inactive {m : Machine} {slot : Fin 8} (h : m.freeSlot = some slot) :
    (m.tasks slot).active = false := by
  simpa using List.find?_some h

/-- The slot of the child of a fork that succeeds. -/
def forkedSlot (m : Machine) (slot : Fin 8) (frame : UInt64) : TaskSlot :=
  { childSlot (m.tasks slot) m.cur (UInt32.ofNat m.sched.nextPid) m.newSpace with
    active := true
    uid := m.cur.uid
    gid := m.cur.gid
    vmaList := m.cur.vmaList
    mmapNext := m.cur.mmapNext
    rsp := m.stack slot + (frame - m.stack m.current) }

/-- The ways in which `sys_fork` ends : without a slot, without an address space, with a child. -/
theorem sysFork_cases (m : Machine) (frame : UInt64) :
    m.freeSlot = none ∧ m.sysFork frame = (none, m) ∨
    (∃ slot paging, m.freeSlot = some slot ∧ m.newSpace = 0 ∧ PagingSteps m.paging paging ∧
      m.sysFork frame = (none,
        ((m.setSched (m.sched.createProcess 5).2).setPaging paging).setTask slot
          (childSlot (m.tasks slot) m.cur (UInt32.ofNat m.sched.nextPid) 0))) ∨
    ∃ slot paging, m.freeSlot = some slot ∧ m.newSpace ≠ 0 ∧ PagingSteps m.paging paging ∧
      m.sysFork frame = (some (UInt32.ofNat m.sched.nextPid),
        ((m.setSched (m.sched.createProcess 5).2).setPaging paging).setTask slot
          (m.forkedSlot slot frame)) := by
  have hsteps := (PagingSteps.refl m.paging).createAddressSpace m.paging.kernelPml4
  cases hslot : m.freeSlot with
  | none =>
    refine Or.inl ⟨rfl, ?_⟩
    simp only [sysFork, hslot]
  | some slot =>
    right
    by_cases hspace : (pagingCreateAddressSpace m.paging m.paging.kernelPml4).1 = 0
    · refine Or.inl ⟨slot, (pagingCreateAddressSpace m.paging m.paging.kernelPml4).2, rfl,
        hspace, hsteps, ?_⟩
      unfold sysFork
      rw [hslot]
      dsimp only
      rw [if_pos hspace, hspace]
      rfl
    · refine Or.inr ⟨slot, pagingCloneUserPages
        (pagingCreateAddressSpace m.paging m.paging.kernelPml4).2
        (pagingCreateAddressSpace m.paging m.paging.kernelPml4).1 m.cur.pml4, rfl, hspace,
        hsteps.cloneUserPages _ _, ?_⟩
      unfold sysFork
      rw [hslot]
      dsimp only
      rw [if_neg hspace]
      rfl

theorem slot_sysFork (m : Machine) (frame : UInt64) (j : Fin 8) :
    SlotChange m (.fork frame) j ((m.sysFork frame).2.tasks j) := by
  rcases m.sysFork_cases frame with ⟨-, he⟩ | ⟨slot, paging, hslot, -, -, he⟩ |
    ⟨slot, paging, hslot, -, -, he⟩
  · rw [he]
    exact .same
  · have hpid : (m.sysFork frame).1.isSome = false := by rw [he]; rfl
    rw [he]
    refine SlotChange.update_at (m := m) ?_ j
    exact .fork frame rfl hslot rfl hpid.symm (fun _ => rfl) (fun h => by cases h)
      (fun h => by cases h) (fun h => by cases h)
  · have hpid : (m.sysFork frame).1.isSome = true := by rw [he]; rfl
    rw [he]
    refine SlotChange.update_at (m := m) ?_ j
    exact .fork frame rfl hslot rfl hpid.symm (fun h => by cases h) (fun _ => rfl) (fun _ => rfl)
      (fun _ => rfl)

/-- Every change of a slot in an event is one of `SlotChange`. -/
theorem step_slot {m m' : Machine} {op : ProcOp} (h : m.step op = some m') (j : Fin 8) :
    SlotChange m op j (m'.tasks j) := by
  obtain ⟨r, hr, rfl⟩ := Option.map_eq_some_iff.mp h
  cases op with
  | elfExec file ticks =>
    obtain rfl := Option.some.inj hr
    refine m.slot_elfExec file ticks ?_ j
    trivial
  | kernelElfExec file =>
    obtain rfl := Option.some.inj hr
    refine m.slot_kernelElfExec file ?_ j
    trivial
  | schedule =>
    obtain rfl := Option.some.inj hr
    exact .same
  | setPriority pid priority =>
    obtain rfl := Option.some.inj hr
    exact .same
  | setQuantum quantumMs =>
    obtain rfl := Option.some.inj hr
    exact .same
  | timer frame =>
    obtain rfl := Option.some.inj hr
    exact m.slot_timer frame _ j
  | store va b =>
    obtain ⟨-, hr⟩ := Option.ite_none_right_eq_some.mp hr
    obtain ⟨f, -, rfl⟩ := Option.map_eq_some_iff.mp hr
    exact .same
  | pageFault va write tmp =>
    obtain ⟨huser, hr⟩ := Option.ite_none_right_eq_some.mp hr
    obtain ⟨hmmu, hr⟩ := Option.ite_none_right_eq_some.mp hr
    obtain ⟨paging, he⟩ := m.cowAttempt_demandPage va write tmp
    rw [pageFault_eq, he] at hr
    split at hr
    · obtain rfl := Option.some.inj hr
      exact .same
    · rename_i hcow
      split at hr
      · obtain rfl := Option.some.inj hr
        exact .same
      · rename_i hdemand
        have hop : m.Unresolved (.pageFault va write tmp) :=
          ⟨huser, hmmu, by simpa using hcow, by simpa using hdemand⟩
        exact slot_userFault hop hr j
  | exception =>
    obtain ⟨huser, hr⟩ := Option.ite_none_right_eq_some.mp hr
    have hop : m.Unresolved .exception := huser
    have he : (m.setPaging m.paging).userFault = some r := hr
    exact slot_userFault hop he j
  | exit exitCode =>
    obtain ⟨-, hr⟩ := Option.ite_none_right_eq_some.mp hr
    exact slot_sysExit hr j
  | kill dstPid sig =>
    obtain ⟨-, hr⟩ := Option.ite_none_right_eq_some.mp hr
    obtain rfl := Option.some.inj hr
    exact m.slot_sysKill dstPid sig j
  | fork frame =>
    obtain ⟨-, hr⟩ := Option.ite_none_right_eq_some.mp hr
    obtain rfl := Option.some.inj hr
    exact m.slot_sysFork frame j
  | execve file =>
    obtain ⟨huser, hr⟩ := Option.ite_none_right_eq_some.mp hr
    obtain rfl := Option.some.inj hr
    exact slot_sysExecve huser file j
  | sbrk increment =>
    obtain ⟨-, hr⟩ := Option.ite_none_right_eq_some.mp hr
    obtain rfl := Option.some.inj hr
    exact m.slot_sysSbrk increment _ j
  | mmap length protFlags pathPtr path =>
    obtain ⟨-, hr⟩ := Option.ite_none_right_eq_some.mp hr
    obtain rfl := Option.some.inj hr
    exact m.slot_sysMmap length protFlags pathPtr path _ j
  | munmap addr =>
    obtain ⟨-, hr⟩ := Option.ite_none_right_eq_some.mp hr
    obtain rfl := Option.some.inj hr
    exact m.slot_sysMunmap addr _ j
  | getpid =>
    obtain ⟨-, hr⟩ := Option.ite_none_right_eq_some.mp hr
    obtain rfl := Option.some.inj hr
    exact .same
  | yield =>
    obtain ⟨-, hr⟩ := Option.ite_none_right_eq_some.mp hr
    obtain rfl := Option.some.inj hr
    refine SlotChange.update_at ?_ j
    exact .update rfl rfl rfl rfl rfl rfl
  | setuid rbx =>
    obtain ⟨-, hr⟩ := Option.ite_none_right_eq_some.mp hr
    obtain rfl := Option.some.inj hr
    exact m.slot_sysSetuid rbx j
  | setgid rbx =>
    obtain ⟨-, hr⟩ := Option.ite_none_right_eq_some.mp hr
    obtain rfl := Option.some.inj hr
    exact m.slot_sysSetgid rbx j

/-! ## Paging -/

theorem paging_release {p : PagingState} {n : Machine} (h : PagingSteps p n.paging)
    (pml4 : UInt64) : PagingSteps p (n.release pml4).paging := by
  rw [release_paging]
  split
  · exact h.freeUserSpace pml4
  · exact h

theorem paging_elfExec (m : Machine) (file : ElfFile) (ticks : UInt16) :
    PagingSteps m.paging (m.elfExec file ticks).2.paging := by
  have hsteps := (PagingSteps.refl m.paging).createAddressSpace m.paging.kernelPml4
  unfold elfExec
  split
  · split
    · exact .refl m.paging
    · dsimp only
      split
      · exact hsteps
      · split
        · exact hsteps.loadImage file _ _
        · exact hsteps.loadImage file _ _
  · exact .refl m.paging

theorem paging_sysExecve (m : Machine) (file : ElfFile) :
    PagingSteps m.paging (m.sysExecve file).2.paging := by
  have hsteps := (PagingSteps.refl m.paging).createAddressSpace m.paging.kernelPml4
  unfold sysExecve
  split
  · dsimp only
    split
    · exact hsteps
    · split
      · refine paging_release ?_ _
        exact hsteps.loadImage file _ _
      · exact hsteps.loadImage file _ _
  · exact .refl m.paging

theorem paging_sysSbrk (m : Machine) (increment : UInt64) :
    PagingSteps m.paging (m.sysSbrk increment).2.paging := by
  have hsteps := PagingSteps.loadPages (m.root m.current) (m.sbrkPages increment) (.refl m.paging)
  unfold sysSbrk
  dsimp only
  split
  · exact .refl m.paging
  · split
    · split
      · exact hsteps
      · exact hsteps
    · exact .refl m.paging

theorem paging_timer (m : Machine) (frame : UInt64) : (m.timer frame).2.paging = m.paging := by
  have hpreempt : ∀ n : Machine, n.preempt.2.paging = n.paging := by
    intro n
    unfold preempt
    split
    · rfl
    · split <;> rfl
  unfold timer
  dsimp only
  split
  · rw [hpreempt]
    rfl
  · rfl

theorem paging_cowAttempt (m : Machine) (va : UInt64) (write : Bool) :
    PagingSteps m.paging (m.cowAttempt va write).2.paging := by
  unfold cowAttempt
  cases write with
  | true => exact (PagingSteps.refl m.paging).handleCowFault _ _
  | false => exact .refl m.paging

theorem paging_demandPage {m n : Machine} (h : PagingSteps m.paging n.paging) (va : UInt64)
    (tmp : Option (List UInt8)) : PagingSteps m.paging (n.demandPage va tmp).2.paging := by
  unfold demandPage
  split
  · exact h
  · exact h.loadPage _ _ _ _

theorem paging_userFault {m : Machine} {r : UInt64 × Machine} (h : m.userFault = some r) :
    r.2.paging = m.paging := by
  rw [userFault_eq] at h
  split at h
  · cases h
  · cases h
    rfl

/-- What an event does to paging is a sequence of primitive changes. -/
theorem step_paging {m m' : Machine} {op : ProcOp} (h : m.step op = some m') :
    PagingSteps m.paging m'.paging := by
  obtain ⟨r, hr, rfl⟩ := Option.map_eq_some_iff.mp h
  have hrefl := PagingSteps.refl m.paging
  cases op with
  | elfExec file ticks =>
    obtain rfl := Option.some.inj hr
    exact m.paging_elfExec file ticks
  | kernelElfExec file =>
    obtain rfl := Option.some.inj hr
    have hload := m.paging_elfExec file 24
    unfold kernelElfExec
    generalize m.elfExec file 24 = r at hload ⊢
    dsimp only
    split
    · exact hload
    · exact hload
  | timer frame =>
    obtain rfl := Option.some.inj hr
    rw [m.paging_timer frame]
  | store va b =>
    obtain ⟨-, hr⟩ := Option.ite_none_right_eq_some.mp hr
    obtain ⟨f, -, rfl⟩ := Option.map_eq_some_iff.mp hr
    exact hrefl.writePage _ _
  | pageFault va write tmp =>
    obtain ⟨-, hr⟩ := Option.ite_none_right_eq_some.mp hr
    obtain ⟨-, hr⟩ := Option.ite_none_right_eq_some.mp hr
    have hcow := m.paging_cowAttempt va write
    rw [pageFault_eq] at hr
    split at hr
    · obtain rfl := Option.some.inj hr
      exact hcow
    · split at hr
      · obtain rfl := Option.some.inj hr
        exact paging_demandPage hcow va tmp
      · rw [paging_userFault hr]
        exact paging_demandPage hcow va tmp
  | exception =>
    obtain ⟨-, hr⟩ := Option.ite_none_right_eq_some.mp hr
    rw [paging_userFault hr]
  | exit exitCode =>
    obtain ⟨-, hr⟩ := Option.ite_none_right_eq_some.mp hr
    dsimp only [userStep, sysExit] at hr
    split at hr
    · cases hr
    · cases hr
      refine paging_release ?_ _
      exact hrefl
  | kill dstPid sig =>
    obtain ⟨-, hr⟩ := Option.ite_none_right_eq_some.mp hr
    obtain rfl := Option.some.inj hr
    dsimp only [sysKill]
    split
    · split
      · exact hrefl
      · refine paging_release ?_ _
        exact hrefl
    · exact hrefl
  | fork frame =>
    obtain ⟨-, hr⟩ := Option.ite_none_right_eq_some.mp hr
    obtain rfl := Option.some.inj hr
    rcases m.sysFork_cases frame with ⟨-, he⟩ | ⟨slot, paging, -, -, hsteps, he⟩ |
      ⟨slot, paging, -, -, hsteps, he⟩
    · rw [he]
    · rw [he]
      exact hsteps
    · rw [he]
      exact hsteps
  | execve file =>
    obtain ⟨-, hr⟩ := Option.ite_none_right_eq_some.mp hr
    obtain rfl := Option.some.inj hr
    exact m.paging_sysExecve file
  | sbrk increment =>
    obtain ⟨-, hr⟩ := Option.ite_none_right_eq_some.mp hr
    obtain rfl := Option.some.inj hr
    exact m.paging_sysSbrk increment
  | mmap length protFlags pathPtr path =>
    obtain ⟨-, hr⟩ := Option.ite_none_right_eq_some.mp hr
    obtain rfl := Option.some.inj hr
    dsimp only [sysMmap]
    split
    · exact hrefl
    · split
      · exact hrefl
      · split
        · exact hrefl
        · split <;> exact hrefl
  | munmap addr =>
    obtain ⟨-, hr⟩ := Option.ite_none_right_eq_some.mp hr
    obtain rfl := Option.some.inj hr
    dsimp only [sysMunmap]
    split <;> exact hrefl
  | schedule =>
    obtain rfl := Option.some.inj hr
    exact hrefl
  | setPriority pid priority =>
    obtain rfl := Option.some.inj hr
    exact hrefl
  | setQuantum quantumMs =>
    obtain rfl := Option.some.inj hr
    exact hrefl
  | getpid =>
    obtain ⟨-, hr⟩ := Option.ite_none_right_eq_some.mp hr
    obtain rfl := Option.some.inj hr
    exact hrefl
  | yield =>
    obtain ⟨-, hr⟩ := Option.ite_none_right_eq_some.mp hr
    obtain rfl := Option.some.inj hr
    exact hrefl
  | setuid rbx =>
    obtain ⟨-, hr⟩ := Option.ite_none_right_eq_some.mp hr
    obtain rfl := Option.some.inj hr
    dsimp only [sysSetuid]
    split <;> exact hrefl
  | setgid rbx =>
    obtain ⟨-, hr⟩ := Option.ite_none_right_eq_some.mp hr
    obtain rfl := Option.some.inj hr
    dsimp only [sysSetgid]
    split <;> exact hrefl

end Machine

end VernisOS
