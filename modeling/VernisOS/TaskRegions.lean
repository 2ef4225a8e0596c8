import VernisOS.Boot
import VernisOS.Lib.Regions
import VernisOS.Lib.Run
import VernisOS.LoadersAgree
import VernisOS.TaskSlots

/-!
# The regions of a task

`sys_mmap` takes the addresses behind those of its last call, `sys_munmap` gives none back, and
`sys_sbrk` sets the break of the heap wherever it is told to. As long as no call asks for a region
that ends above the user range or lies in the heap, and no break is set above the start of a
region, the regions of every task stay packed between `MMAP_BASE_64` and the next address, above
its heap (`regions_confined`).
-/

open Regions Run

namespace VernisOS

/-! ## Regions -/

/-- The addresses of a region that is in use. -/
def VmaEntry.region (v : VmaEntry) : Option Region :=
  if v.type = .none then none else some ⟨v.start.toNat, v.start.toNat + v.length.toNat⟩

/-- What the calls on the memory of a task work with : the break, the regions, and where the next
one starts. -/
@[ext]
structure Space where
  brk : UInt64
  vmaList : Fin vmaMaxPerTask → VmaEntry
  mmapNext : UInt64

/-- That of a task. -/
def TaskSlot.space (t : TaskSlot) : Space :=
  ⟨t.brk, t.vmaList, t.mmapNext⟩

namespace Space

/-- The regions that are in use. -/
def regions (s : Space) (i : Fin vmaMaxPerTask) : Option Region :=
  (s.vmaList i).region

/-- Where the next region starts. -/
def cursor (s : Space) : UInt64 :=
  if s.mmapNext = 0 then mmapBase64 else s.mmapNext

/-- The heap. -/
def heap (s : Space) : Region :=
  ⟨heapStart.toNat, s.brk.toNat⟩

/-- The regions lie in the area for them, and overlap neither one another nor the heap. -/
structure Confined (s : Space) : Prop where
  inside : ∀ i r, s.regions i = some r →
    mmapBase64.toNat ≤ r.start ∧ r.stop ≤ userVaddrMax64.toNat
  apart : ∀ i j r r', i ≠ j → s.regions i = some r → s.regions j = some r' → r.Apart r'
  heap : ∀ i r, s.regions i = some r → r.Apart s.heap

/-- A region of this length fits between those in use. -/
def HasRoom (s : Space) (length : ℕ) : Prop :=
  ∃ start, mmapBase64.toNat ≤ start ∧ start + length ≤ userVaddrMax64.toNat ∧
    ∀ i r, s.regions i = some r → r.Apart ⟨start, start + length⟩

/-- A region is entered, and the next one starts behind it. -/
def enter (s : Space) (slot : Fin vmaMaxPerTask) (v : VmaEntry) : Space :=
  ⟨s.brk, Function.update s.vmaList slot v, v.start + v.length⟩

/-- A region is given up. -/
def leave (s : Space) (slot : Fin vmaMaxPerTask) : Space :=
  ⟨s.brk, Function.update s.vmaList slot { s.vmaList slot with type := .none }, s.mmapNext⟩

/-- The break is set. -/
def setBrk (s : Space) (brk : UInt64) : Space :=
  ⟨brk, s.vmaList, s.mmapNext⟩

/-- No region, and the next one is the first. -/
def NoRegions (s : Space) : Prop :=
  (∀ i, (s.vmaList i).type = .none) ∧ s.mmapNext = 0

theorem regions_update (s : Space) (slot : Fin vmaMaxPerTask) (v : VmaEntry) (next : UInt64) :
    regions ⟨s.brk, Function.update s.vmaList slot v, next⟩ =
      Function.update s.regions slot v.region := by
  funext i
  unfold regions
  dsimp only
  by_cases hi : i = slot
  · rw [hi, Function.update_self, Function.update_self]
  · rw [Function.update_of_ne hi, Function.update_of_ne hi]

/-! ## Packed regions -/

/-- What keeps the regions confined : they are packed below the next address, and above the
break. -/
structure Stacked (s : Space) : Prop where
  packed : Packed mmapBase64.toNat s.cursor.toNat s.regions
  low : mmapBase64 ≤ s.cursor
  high : s.cursor ≤ userVaddrMax64
  brk : ∀ i r, s.regions i = some r → s.brk.toNat ≤ r.start

theorem NoRegions.stacked {s : Space} (h : s.NoRegions) : s.Stacked := by
  have hnone : ∀ i, s.regions i = none := fun i => if_pos (h.1 i)
  have hcursor : s.cursor = mmapBase64 := if_pos h.2
  refine ⟨Packed.empty hnone, by rw [hcursor]; decide, by rw [hcursor]; decide, fun i r hr => ?_⟩
  rw [hnone i] at hr
  cases hr

namespace Stacked

variable {s : Space}

theorem confined (h : s.Stacked) : s.Confined := by
  have hhigh := UInt64.le_iff_toNat_le.mp h.high
  refine ⟨fun i r hr => ?_, h.packed.apart, fun i r hr => Or.inr (h.brk i r hr)⟩
  obtain ⟨hstart, hstop⟩ := h.packed.within i r hr
  exact ⟨hstart, hstop.trans hhigh⟩

/-- A region is entered at the cursor. -/
theorem enter (h : s.Stacked) {slot : Fin vmaMaxPerTask} {v : VmaEntry} (hstart : v.start = s.cursor)
    (hhigh : s.cursor.toNat + v.length.toNat ≤ userVaddrMax64.toNat) (hbrk : s.brk ≤ s.cursor) :
    (s.enter slot v).Stacked := by
  have hmax : userVaddrMax64.toNat = 0x40000000 := rfl
  have hbase : mmapBase64.toNat = 0x20000000 := rfl
  have hlow := UInt64.le_iff_toNat_le.mp h.low
  have hnext : (v.start + v.length).toNat = s.cursor.toNat + v.length.toNat := by
    rw [UInt64.toNat_add, hstart]
    omega
  have hne : v.start + v.length ≠ 0 := by
    intro h0
    have h0' := congrArg UInt64.toNat h0
    rw [hnext] at h0'
    change s.cursor.toNat + v.length.toNat = 0 at h0'
    omega
  have hcursor : (s.enter slot v).cursor = v.start + v.length := if_neg hne
  have hregions : (s.enter slot v).regions = Function.update s.regions slot v.region :=
    regions_update s slot v _
  have hpacked : Packed mmapBase64.toNat (s.cursor.toNat + v.length.toNat)
      (Function.update s.regions slot v.region) := by
    unfold VmaEntry.region
    split
    · exact (h.packed.free slot).mono (Nat.le_add_right _ _)
    · rw [hstart]
      exact h.packed.push hlow slot v.length.toNat
  refine ⟨?_, ?_, ?_, fun i r hr => ?_⟩
  · rw [hcursor, hnext, hregions]
    exact hpacked
  · rw [hcursor, UInt64.le_iff_toNat_le, hnext]
    omega
  · rw [hcursor, UInt64.le_iff_toNat_le, hnext]
    exact hhigh
  · rw [hregions] at hr
    by_cases hi : i = slot
    · rw [hi, Function.update_self, VmaEntry.region] at hr
      split at hr
      · cases hr
      · obtain rfl := Option.some.inj hr
        rw [hstart]
        exact UInt64.le_iff_toNat_le.mp hbrk
    · rw [Function.update_of_ne hi] at hr
      exact h.brk i r hr

theorem leave (h : s.Stacked) (slot : Fin vmaMaxPerTask) : (s.leave slot).Stacked := by
  have hregions : (s.leave slot).regions = Function.update s.regions slot none :=
    regions_update s slot _ _
  refine ⟨by rw [hregions]; exact h.packed.free slot, h.low, h.high, fun i r hr => ?_⟩
  rw [hregions] at hr
  by_cases hi : i = slot
  · rw [hi, Function.update_self] at hr
    cases hr
  · rw [Function.update_of_ne hi] at hr
    exact h.brk i r hr

/-- A break that no region starts below. -/
theorem setBrk (h : s.Stacked) {brk : UInt64}
    (hbrk : ∀ i r, s.regions i = some r → brk.toNat ≤ r.start) : (s.setBrk brk).Stacked :=
  ⟨h.packed, h.low, h.high, hbrk⟩

end Stacked

end Space

/-! ## What a step does to the regions -/

namespace Machine

open Space

variable {m m' : Machine}

/-- `sys_mmap` does not turn the length down. -/
def MmapLength (length : UInt64) : Prop :=
  pageUp length ≠ 0 ∧ pageUp length ≤ 0x1000000

/-- What a step can do to the memory of a task that is active after it : nothing, a new task, a
copy of the running task, or a call of the running task. -/
inductive SpaceStep (m : Machine) (op : ProcOp) (i : Fin 8) (s : Space) : Prop where
  | kept (active : (m.tasks i).active = true) (space : s = (m.tasks i).space)
  | fresh (none : s.NoRegions)
  | copied (active : m.cur.active = true) (space : s = m.cur.space)
  | mapped (length protFlags pathPtr : UInt64) (path : Option (CString sysIoPathMax))
      (slot : Fin vmaMaxPerTask) (v : VmaEntry)
      (call : op = .mmap length protFlags pathPtr path) (active : m.cur.active = true)
      (accepted : MmapLength length) (free : (m.cur.vmaList slot).type = .none)
      (start : v.start = m.cur.space.cursor) (len : v.length = pageUp length)
      (space : s = m.cur.space.enter slot v)
  | unmapped (addr : UInt64) (slot : Fin vmaMaxPerTask) (call : op = .munmap addr)
      (active : m.cur.active = true) (space : s = m.cur.space.leave slot)
  | moved (increment brk : UInt64) (call : op = .sbrk increment) (active : m.cur.active = true)
      (le : brk = m.oldBrk ∨ brk = m.oldBrk + increment) (space : s = m.cur.space.setBrk brk)
  | loaded (file : ElfFile) (pml4 : UInt64) (paging : PagingState) (call : op = .execve file)
      (active : m.cur.active = true) (valid : file.ExecveValid)
      (space : s = m.cur.space.setBrk (loadImage file pml4 paging m.cur.brk).2.2)

/-- One slot is changed. -/
theorem spaceStep_update {op : ProcOp} {i j : Fin 8} {t : TaskSlot}
    (hself : t.active = true → SpaceStep m op j t.space)
    (ha : (Function.update m.tasks j t i).active = true) :
    SpaceStep m op i (Function.update m.tasks j t i).space := by
  by_cases hi : i = j
  · rw [hi, Function.update_self] at ha ⊢
    exact hself ha
  · rw [Function.update_of_ne hi] at ha ⊢
    exact .kept ha rfl

/-- A slot that is not active is left behind. -/
theorem spaceStep_dead {op : ProcOp} {i j : Fin 8} {t : TaskSlot} (hdead : t.active = false)
    (ha : (Function.update m.tasks j t i).active = true) :
    SpaceStep m op i (Function.update m.tasks j t i).space :=
  spaceStep_update (fun h => Bool.noConfusion (hdead.symm.trans h)) ha

theorem timer_spaceStep {frame : UInt64} {i : Fin 8}
    (ha : ((m.timer frame).2.tasks i).active = true) :
    SpaceStep m (.timer frame) i ((m.timer frame).2.tasks i).space := by
  have hspace : m.cur.countDown.space = m.cur.space := by
    unfold TaskSlot.countDown
    split <;> rfl
  have hactive : m.cur.countDown.active = m.cur.active := by
    unfold TaskSlot.countDown
    split <;> rfl
  unfold timer at ha ⊢
  dsimp only at ha ⊢
  split at ha
  · next hzero =>
    rw [if_pos hzero, preempt_tasks] at *
    exact spaceStep_update (fun h => .copied (hactive ▸ h) hspace) ha
  · next hmore =>
    rw [if_neg hmore]
    exact spaceStep_update (fun h => .copied (hactive ▸ h) hspace) ha

theorem userFault_tasks {rsp : UInt64} (hs : m.userFault = some (rsp, m')) :
    m'.tasks = Function.update m.tasks m.current { m.cur with active := false } := by
  unfold userFault at hs
  dsimp only at hs
  split at hs
  · cases hs
  · cases hs
    dsimp only
    split <;> rfl

theorem demandPage_tasks (m : Machine) (va : UInt64) (tmp : Option (List UInt8)) :
    (m.demandPage va tmp).2.current = m.current ∧ (m.demandPage va tmp).2.tasks = m.tasks := by
  unfold demandPage
  split <;> exact ⟨rfl, rfl⟩

theorem pageFault_spaceStep {va : UInt64} {write : Bool} {tmp : Option (List UInt8)} {i : Fin 8}
    {rsp : UInt64} (hs : m.pageFault va write tmp = some (rsp, m'))
    (ha : (m'.tasks i).active = true) :
    SpaceStep m (.pageFault va write tmp) i (m'.tasks i).space := by
  unfold pageFault at hs
  generalize (if write then pagingHandleCowFault m.paging m.cur.pml4 va
    else (false, m.paging)) = cow at hs
  dsimp only at hs
  split at hs
  · cases hs
    exact .kept ha rfl
  · obtain ⟨hcurrent, htasks⟩ := (m.setPaging cow.2).demandPage_tasks va tmp
    split at hs
    · cases hs
      rw [htasks] at ha ⊢
      exact .kept ha rfl
    · rw [userFault_tasks hs, htasks, hcurrent] at ha ⊢
      exact spaceStep_dead (m := m) rfl ha

theorem exit_spaceStep {exitCode : Int} {i : Fin 8} {rsp : UInt64}
    (hs : m.sysExit exitCode = some (rsp, m')) (ha : (m'.tasks i).active = true) :
    SpaceStep m (.exit exitCode) i (m'.tasks i).space := by
  have htasks : m'.tasks = Function.update m.tasks m.current m.cur.dead := by
    unfold sysExit at hs
    dsimp only at hs
    split at hs
    · cases hs
    · cases hs
      rfl
  rw [htasks] at ha ⊢
  exact spaceStep_dead rfl ha

theorem kill_spaceStep {dstPid : UInt64} {sig : UInt8} {i : Fin 8}
    (ha : ((m.sysKill dstPid sig).tasks i).active = true) :
    SpaceStep m (.kill dstPid sig) i ((m.sysKill dstPid sig).tasks i).space := by
  unfold sysKill at ha ⊢
  dsimp only at ha ⊢
  by_cases hsig : sig = 9 ∨ sig = 15
  · rw [if_pos hsig] at ha ⊢
    cases hv : (m.setSched (m.sched.signalSend dstPid.toNat sig)).victim dstPid with
    | none =>
      rw [hv] at ha
      exact .kept ha rfl
    | some j =>
      rw [hv] at ha
      exact spaceStep_dead (m := m) rfl ha
  · rw [if_neg hsig] at ha ⊢
    exact .kept ha rfl

theorem elfExec_spaceStep {op : ProcOp} {file : ElfFile} {ticks : UInt16} {i : Fin 8}
    (ha : ((m.elfExec file ticks).2.tasks i).active = true) :
    SpaceStep m op i ((m.elfExec file ticks).2.tasks i).space := by
  unfold elfExec at ha ⊢
  by_cases hvalid : file.ExecValid
  · rw [if_pos hvalid] at ha ⊢
    cases hslot : m.freeSlot with
    | none =>
      rw [hslot] at ha
      exact .kept ha rfl
    | some slot =>
      rw [hslot] at ha
      dsimp only at ha ⊢
      split at ha
      · next hnone =>
        rw [if_pos hnone]
        exact spaceStep_dead rfl ha
      · next hspace =>
        rw [if_neg hspace]
        split at ha
        · next hdone =>
          rw [if_pos hdone]
          rw [setTask_tasks] at ha ⊢
          by_cases hi : i = slot
          · rw [hi, Function.update_self]
            exact .fresh ⟨fun _ => rfl, rfl⟩
          · rw [Function.update_of_ne hi] at ha ⊢
            exact spaceStep_dead rfl ha
        · next hfail =>
          rw [if_neg hfail]
          exact spaceStep_dead rfl ha
  · rw [if_neg hvalid] at ha ⊢
    exact .kept ha rfl

theorem fork_spaceStep {frame : UInt64} {i : Fin 8} (hactive : m.cur.active = true)
    (ha : ((m.sysFork frame).2.tasks i).active = true) :
    SpaceStep m (.fork frame) i ((m.sysFork frame).2.tasks i).space := by
  unfold sysFork at ha ⊢
  cases hslot : m.freeSlot with
  | none =>
    rw [hslot] at ha
    exact .kept ha rfl
  | some slot =>
    rw [hslot] at ha
    dsimp only at ha ⊢
    by_cases hnone : (pagingCreateAddressSpace m.paging m.paging.kernelPml4).1 = 0
    · rw [if_pos hnone, setTask_tasks] at ha ⊢
      by_cases hi : i = slot
      · rw [hi, Function.update_self] at ha
        cases ha
      · rw [Function.update_of_ne hi, setPaging_tasks, setSched_tasks] at ha ⊢
        exact .kept ha rfl
    · rw [if_neg hnone, setTask_tasks] at ha ⊢
      by_cases hi : i = slot
      · rw [hi, Function.update_self]
        exact .copied hactive rfl
      · rw [Function.update_of_ne hi, setPaging_tasks, setSched_tasks] at ha ⊢
        exact .kept ha rfl

/-- A call that changes no slot but that of its task. -/
theorem spaceStep_call {op : ProcOp} {i : Fin 8} {t : TaskSlot} {pg : PagingState}
    (hself : SpaceStep m op m.current t.space)
    (ha : (((m.setPaging pg).setCur t).tasks i).active = true) :
    SpaceStep m op i (((m.setPaging pg).setCur t).tasks i).space :=
  spaceStep_update (fun _ => hself) ha

theorem mmap_spaceStep {length protFlags pathPtr : UInt64} {path : Option (CString sysIoPathMax)}
    {i : Fin 8} (hactive : m.cur.active = true)
    (ha : ((m.sysMmap length protFlags pathPtr path).2.tasks i).active = true) :
    SpaceStep m (.mmap length protFlags pathPtr path) i
      ((m.sysMmap length protFlags pathPtr path).2.tasks i).space := by
  unfold sysMmap at ha ⊢
  dsimp only at ha ⊢
  by_cases hlength : pageUp length = 0 ∨ 0x1000000 < pageUp length
  · rw [if_pos hlength] at ha ⊢
    exact .kept ha rfl
  · rw [if_neg hlength] at ha ⊢
    have haccepted : MmapLength length :=
      ⟨(not_or.mp hlength).1, UInt64.not_lt.mp (not_or.mp hlength).2⟩
    cases hslot : (List.finRange vmaMaxPerTask).find? fun i => (m.cur.vmaList i).type = .none with
    | none =>
      rw [hslot] at ha
      exact .kept ha rfl
    | some slot =>
      rw [hslot] at ha
      have hfree : (m.cur.vmaList slot).type = .none := by
        simpa using List.find?_some hslot
      have henter : ∀ v : VmaEntry, v.start = m.cur.space.cursor → v.length = pageUp length →
          ∀ {t : TaskSlot}, t.space = m.cur.space.enter slot v →
          SpaceStep m (.mmap length protFlags pathPtr path) m.current t.space :=
        fun v hstart hlen _ hspace => .mapped length protFlags pathPtr path slot v rfl hactive
          haccepted hfree hstart hlen hspace
      dsimp only at ha ⊢
      split at ha
      · next hanon =>
        rw [if_pos hanon]
        exact spaceStep_call (henter _ rfl rfl rfl) ha
      · next hfile =>
        rw [if_neg hfile]
        cases path with
        | none => exact spaceStep_call (henter _ rfl rfl rfl) ha
        | some path => exact spaceStep_call (henter _ rfl rfl rfl) ha

theorem munmap_spaceStep {addr : UInt64} {i : Fin 8} (hactive : m.cur.active = true)
    (ha : ((m.sysMunmap addr).2.tasks i).active = true) :
    SpaceStep m (.munmap addr) i ((m.sysMunmap addr).2.tasks i).space := by
  unfold sysMunmap at ha ⊢
  split at ha
  · exact .kept ha rfl
  · next slot _ => exact spaceStep_call (.unmapped addr slot rfl hactive rfl) ha

theorem sbrk_spaceStep {increment : UInt64} {i : Fin 8} (hactive : m.cur.active = true)
    (ha : ((m.sysSbrk increment).2.tasks i).active = true) :
    SpaceStep m (.sbrk increment) i ((m.sysSbrk increment).2.tasks i).space := by
  have hold : ∀ {t : TaskSlot}, t.space = m.cur.space.setBrk m.oldBrk →
      SpaceStep m (.sbrk increment) m.current t.space :=
    fun h => .moved increment _ rfl hactive (Or.inl rfl) h
  have hnew : ∀ {t : TaskSlot}, t.space = m.cur.space.setBrk (m.oldBrk + increment) →
      SpaceStep m (.sbrk increment) m.current t.space :=
    fun h => .moved increment _ rfl hactive (Or.inr rfl) h
  unfold sysSbrk at ha ⊢
  dsimp only at ha ⊢
  by_cases hzero : increment = 0
  · rw [if_pos hzero] at ha ⊢
    exact spaceStep_call (hold rfl) ha
  · rw [if_neg hzero] at ha ⊢
    by_cases hpos : increment < 0x8000000000000000
    · rw [if_pos hpos] at ha ⊢
      split at ha
      · next hdone =>
        rw [if_pos hdone]
        exact spaceStep_call (hnew rfl) ha
      · next hfail =>
        rw [if_neg hfail]
        exact spaceStep_call (hold rfl) ha
    · rw [if_neg hpos] at ha ⊢
      exact spaceStep_call (hnew rfl) ha

theorem execve_spaceStep {file : ElfFile} {i : Fin 8} (hactive : m.cur.active = true)
    (ha : ((m.sysExecve file).2.tasks i).active = true) :
    SpaceStep m (.execve file) i ((m.sysExecve file).2.tasks i).space := by
  unfold sysExecve at ha ⊢
  by_cases hvalid : file.ExecveValid
  · rw [if_pos hvalid] at ha ⊢
    dsimp only at ha ⊢
    split at ha
    · next hnone =>
      rw [if_pos hnone]
      exact .kept ha rfl
    · next hspace =>
      rw [if_neg hspace]
      split at ha
      · next hdone =>
        rw [if_pos hdone]
        exact spaceStep_call (.loaded file _ _ rfl hactive hvalid rfl) ha
      · next hfail =>
        rw [if_neg hfail]
        exact spaceStep_call (.loaded file _ _ rfl hactive hvalid rfl) ha
  · rw [if_neg hvalid] at ha ⊢
    exact .kept ha rfl

/-- What a step does to the memory of the tasks that are active after it. -/
theorem step_spaceStep {op : ProcOp} (hs : m.step op = some m') {i : Fin 8}
    (ha : (m'.tasks i).active = true) : SpaceStep m op i (m'.tasks i).space := by
  obtain ⟨⟨rsp, m''⟩, hd, rfl⟩ := Option.map_eq_some_iff.mp hs
  dsimp only at ha ⊢
  have hkept : m''.tasks = m.tasks → SpaceStep m op i (m''.tasks i).space := by
    intro htasks
    rw [htasks] at ha ⊢
    exact .kept ha rfl
  have huser : m.IsUser m.current → m.cur.active = true := fun hu => hu.1
  cases op with
  | elfExec file ticks =>
    cases hd
    exact elfExec_spaceStep ha
  | kernelElfExec file =>
    cases hd
    have htasks : (m.kernelElfExec file).2.tasks = (m.elfExec file 24).2.tasks := by
      unfold kernelElfExec
      dsimp only
      split <;> rfl
    rw [htasks] at ha ⊢
    exact elfExec_spaceStep ha
  | schedule =>
    cases hd
    exact hkept rfl
  | setPriority pid priority =>
    cases hd
    exact hkept rfl
  | setQuantum quantumMs =>
    cases hd
    exact hkept rfl
  | timer frame =>
    obtain rfl := congrArg Prod.snd (Option.some.inj hd)
    exact timer_spaceStep ha
  | store va b =>
    obtain ⟨-, hd⟩ := Option.ite_none_right_eq_some.mp hd
    obtain ⟨f, -, he⟩ := Option.map_eq_some_iff.mp hd
    cases he
    exact hkept rfl
  | pageFault va write tmp =>
    obtain ⟨-, hd⟩ := Option.ite_none_right_eq_some.mp hd
    obtain ⟨-, hd⟩ := Option.ite_none_right_eq_some.mp hd
    exact pageFault_spaceStep hd ha
  | exception =>
    obtain ⟨-, hd⟩ := Option.ite_none_right_eq_some.mp hd
    rw [userFault_tasks hd] at ha ⊢
    exact spaceStep_dead rfl ha
  | exit exitCode =>
    obtain ⟨-, hd⟩ := Option.ite_none_right_eq_some.mp hd
    exact exit_spaceStep hd ha
  | kill dstPid sig =>
    obtain ⟨-, hd⟩ := Option.ite_none_right_eq_some.mp hd
    cases hd
    exact kill_spaceStep ha
  | fork frame =>
    obtain ⟨hu, hd⟩ := Option.ite_none_right_eq_some.mp hd
    cases hd
    exact fork_spaceStep hu.1 ha
  | execve file =>
    obtain ⟨hu, hd⟩ := Option.ite_none_right_eq_some.mp hd
    cases hd
    exact execve_spaceStep hu.1 ha
  | sbrk increment =>
    obtain ⟨hu, hd⟩ := Option.ite_none_right_eq_some.mp hd
    cases hd
    exact sbrk_spaceStep hu.1 ha
  | mmap length protFlags pathPtr path =>
    obtain ⟨hu, hd⟩ := Option.ite_none_right_eq_some.mp hd
    cases hd
    exact mmap_spaceStep hu.1 ha
  | munmap addr =>
    obtain ⟨hu, hd⟩ := Option.ite_none_right_eq_some.mp hd
    cases hd
    exact munmap_spaceStep hu.1 ha
  | getpid =>
    obtain ⟨-, hd⟩ := Option.ite_none_right_eq_some.mp hd
    cases hd
    exact hkept rfl
  | yield =>
    obtain ⟨hu, hd⟩ := Option.ite_none_right_eq_some.mp hd
    cases hd
    exact spaceStep_update (fun _ => .copied hu.1 rfl) ha
  | setuid rbx =>
    obtain ⟨hu, hd⟩ := Option.ite_none_right_eq_some.mp hd
    cases hd
    unfold sysSetuid at ha ⊢
    dsimp only at ha ⊢
    split at ha
    · next h =>
      rw [if_pos h]
      exact spaceStep_update (fun _ => .copied hu.1 rfl) ha
    · next h =>
      rw [if_neg h]
      exact .kept ha rfl
  | setgid rbx =>
    obtain ⟨hu, hd⟩ := Option.ite_none_right_eq_some.mp hd
    cases hd
    unfold sysSetgid at ha ⊢
    dsimp only at ha ⊢
    split at ha
    · next h =>
      rw [if_pos h]
      exact spaceStep_update (fun _ => .copied hu.1 rfl) ha
    · next h =>
      rw [if_neg h]
      exact .kept ha rfl

/-! ## Calls that keep the regions confined -/

/-- The step sets no address too high : a region that is asked for ends in the user range and
starts above the break, and no break is set above the start of a region. -/
def StepConfined (m : Machine) : ProcOp → Prop
  | .mmap length _ _ _ =>
    MmapLength length → (∃ i, (m.cur.vmaList i).type = .none) →
      m.cur.space.cursor.toNat + (pageUp length).toNat ≤ userVaddrMax64.toNat ∧
        m.cur.brk ≤ m.cur.space.cursor
  | .sbrk increment => ∀ i r, m.cur.space.regions i = some r →
      (m.oldBrk + increment).toNat ≤ r.start
  | .execve file => file.ExecveValid → ∀ ph ∈ file.segments, ∀ i r,
      m.cur.space.regions i = some r → ph.vend.toNat ≤ r.start
  | _ => True

/-- A call of `sys_mmap` with a good length and path succeeds while there are a free slot and
room in the area, and what it returns is a region of the area. -/
def MmapServed (m : Machine) : ProcOp → Prop
  | .mmap length protFlags pathPtr path =>
    m.IsUser m.current → MmapLength length →
      (pathPtr = 0 ∨ ((protFlags >>> 8) &&& 0xFF).toUInt8 &&& mapAnonymous ≠ 0 ∨
        path.isSome = true) →
      (∃ i, (m.cur.vmaList i).type = .none) → m.cur.space.HasRoom (pageUp length).toNat →
      ∃ va, (m.sysMmap length protFlags pathPtr path).1 = some va ∧
        mmapBase64.toNat ≤ va.toNat ∧ va.toNat + (pageUp length).toNat ≤ userVaddrMax64.toNat
  | _ => True

/-- The regions of every task are confined. -/
def RegionsConfined (m : Machine) : Prop :=
  ∀ i, (m.tasks i).active = true → (m.tasks i).space.Confined

/-- They are packed. -/
def RegionsStacked (m : Machine) : Prop :=
  ∀ i, (m.tasks i).active = true → (m.tasks i).space.Stacked

/-- The old break is not above a region either. -/
theorem oldBrk_le (h : m.cur.space.Stacked) (i : Fin vmaMaxPerTask) (r : Region)
    (hr : m.cur.space.regions i = some r) : m.oldBrk.toNat ≤ r.start := by
  unfold oldBrk
  split
  · have hbase : mmapBase64.toNat = 0x20000000 := rfl
    have hstart : (0x10100000 : UInt64).toNat = 0x10100000 := rfl
    have hlow := (h.packed.within i r hr).1
    omega
  · exact h.brk i r hr

/-- The loaders set no break above the ends of the segments and the old one. -/
theorem loadSegments_brk_le {file : ElfFile} {pml4 : UInt64} {phs : List Elf64Phdr} {top : ℕ}
    (hends : ∀ ph ∈ phs, ph.vend.toNat ≤ top) {pg : PagingState} {brk : UInt64}
    (hbrk : brk.toNat ≤ top) : (loadSegments file pml4 phs pg brk).2.2.toNat ≤ top := by
  induction phs generalizing pg brk with
  | nil => exact hbrk
  | cons ph rest ih =>
    unfold loadSegments
    dsimp only
    split
    · refine ih (fun ph' hph' => hends ph' (List.mem_cons_of_mem ph hph')) ?_
      split
      · exact hends ph List.mem_cons_self
      · exact hbrk
    · exact hbrk

theorem loadImage_brk_le {file : ElfFile} {pml4 : UInt64} {top : ℕ}
    (hends : ∀ ph ∈ file.segments, ph.vend.toNat ≤ top) {pg : PagingState} {brk : UInt64}
    (hbrk : brk.toNat ≤ top) : (loadImage file pml4 pg brk).2.2.toNat ≤ top := by
  have hsegments : (loadSegments file pml4 file.segments pg brk).2.2.toNat ≤ top :=
    loadSegments_brk_le hends hbrk
  unfold loadImage
  dsimp only
  split
  · exact hsegments
  · exact hsegments

/-- A step that sets no address too high keeps the regions of every task packed. -/
theorem step_stacked (h : m.RegionsStacked) {op : ProcOp} (hstep : m.StepConfined op)
    (hs : m.step op = some m') : m'.RegionsStacked := by
  intro i ha
  cases step_spaceStep hs ha with
  | kept active space => exact space ▸ h i active
  | fresh none => exact none.stacked
  | copied active space => exact space ▸ h m.current active
  | mapped length protFlags pathPtr path slot v call active accepted free start len space =>
    obtain rfl := call
    obtain ⟨hhigh, hbrk⟩ := hstep accepted ⟨slot, free⟩
    rw [← len] at hhigh
    exact space ▸ (h m.current active).enter start hhigh hbrk
  | unmapped addr slot call active space => exact space ▸ (h m.current active).leave slot
  | moved increment brk call active le space =>
    obtain rfl := call
    refine space ▸ (h m.current active).setBrk ?_
    rcases le with rfl | rfl
    · exact oldBrk_le (h m.current active)
    · exact hstep
  | loaded file pml4 paging call active valid space =>
    obtain rfl := call
    refine space ▸ (h m.current active).setBrk fun i r hr => ?_
    exact loadImage_brk_le (fun ph hph => hstep valid ph hph i r hr)
      ((h m.current active).brk i r hr)

/-- A call that asks for a region of the area gets it. -/
theorem sysMmap_served {length protFlags pathPtr : UInt64} {path : Option (CString sysIoPathMax)}
    (h : m.RegionsStacked) (hstep : m.StepConfined (.mmap length protFlags pathPtr path)) :
    m.MmapServed (.mmap length protFlags pathPtr path) := by
  intro hu hlength hpath hfree _
  obtain ⟨hhigh, -⟩ := hstep hlength hfree
  have hslot : ((List.finRange vmaMaxPerTask).find? fun i =>
      (m.cur.vmaList i).type = .none).isSome = true := by
    simpa [List.find?_isSome] using hfree
  obtain ⟨slot, hslot⟩ := Option.isSome_iff_exists.mp hslot
  have hrefused : ¬ (pageUp length = 0 ∨ 0x1000000 < pageUp length) :=
    not_or.mpr ⟨hlength.1, UInt64.not_lt.mpr hlength.2⟩
  refine ⟨m.cur.space.cursor, ?_, UInt64.le_iff_toNat_le.mp (h m.current hu.1).low, hhigh⟩
  unfold sysMmap
  dsimp only
  rw [if_neg hrefused, hslot]
  dsimp only
  by_cases hanon : pathPtr = 0 ∨ ((protFlags >>> 8) &&& 0xFF).toUInt8 &&& mapAnonymous ≠ 0
  · rw [if_pos hanon]
    rfl
  · rw [if_neg hanon]
    obtain ⟨hptr, hflags⟩ := not_or.mp hanon
    obtain ⟨p, rfl⟩ := Option.isSome_iff_exists.mp ((hpath.resolve_left hptr).resolve_left hflags)
    rfl

/-- In a run from a machine without regions whose steps set no address too high, the regions of
every task are confined in every state, and `sys_mmap` serves what there is room for. -/
theorem regions_confined (m : Machine)
    (hm : ∀ i, (m.tasks i).active = true → (m.tasks i).space.NoRegions) (ops : List ProcOp)
    (hops : Along step StepConfined m ops) :
    After step RegionsConfined m ops ∧ Along step MmapServed m ops := by
  have hstacked : m.RegionsStacked := fun i ha => (hm i ha).stacked
  constructor
  · refine (After.of_along (fun _ _ _ h hop hs => step_stacked h hop hs) ops m hstacked hops).mono
      ?_
    exact fun m h i ha => (h i ha).confined
  · refine Along.mono_inv (fun _ _ _ h hop hs => step_stacked h hop hs) (fun m op h hop => ?_) ops
      m hstacked hops
    cases op with
    | mmap length protFlags pathPtr path => exact sysMmap_served h hop
    | _ => trivial

theorem noRegions_userMachine :
    ∀ i, (userMachine.tasks i).active = true → (userMachine.tasks i).space.NoRegions := by
  have hnone : ∀ i, (∀ j, ((userMachine.tasks i).vmaList j).type = .none) ∧
      (userMachine.tasks i).mmapNext = 0 := by
    decide
  exact fun i _ => hnone i

/-- A page is mapped and unmapped. -/
theorem regions_confined_page :
    After step RegionsConfined userMachine [.mmap 0x1000 3 0 none, .munmap 0x20000000] ∧
      Along step MmapServed userMachine [.mmap 0x1000 3 0 none, .munmap 0x20000000] :=
  regions_confined userMachine noRegions_userMachine _
    ⟨fun _ _ => by decide, fun _ _ => ⟨trivial, fun _ _ => trivial⟩⟩

/-- 16 MB are mapped and unmapped again and again, as often as the area has room, and then mapped
once more. -/
def mapAgain : List ProcOp :=
  (List.range 32).flatMap (fun k =>
    [.mmap 0x1000000 3 0 none, .munmap (0x20000000 + UInt64.ofNat k * 0x1000000)]) ++
  [.mmap 0x1000000 3 0 none]

/-- A run that ends with a region above the user range or in the heap. -/
theorem not_after_regionsConfined {ops : List ProcOp}
    (h : ((ops.foldlM step userMachine).map fun m => m.cur.active && (m.cur.space.regions 0).any fun r =>
      userVaddrMax64.toNat < r.stop ||
        (heapStart.toNat < r.stop && r.start < m.cur.brk.toNat)) = some true) :
    ¬ After step RegionsConfined userMachine ops := by
  intro hafter
  obtain ⟨m, hm, hbad⟩ := Option.map_eq_some_iff.mp h
  have hconfined := After.last hafter hm
  obtain ⟨ha, hany⟩ := Bool.and_eq_true_iff.mp hbad
  obtain ⟨r, hr, hesc⟩ := (Option.any_eq_true ..).mp hany
  have hcur := hconfined m.current ha
  obtain ⟨-, hstop⟩ := hcur.inside 0 r hr
  have hheap := hcur.heap 0 r hr
  simp only [Bool.or_eq_true, Bool.and_eq_true, decide_eq_true_eq] at hesc
  rcases hesc with habove | ⟨hbelow, hbreak⟩
  · exact Nat.not_le_of_lt habove hstop
  · rcases hheap with h | h
    · exact Nat.not_le_of_lt hbelow h
    · exact Nat.not_le_of_lt hbreak h

/-- After `mapAgain` the only region lies above the user range, and a negative increment sets the
break above all regions. -/
theorem not_regions_confined :
    (∀ i, (userMachine.tasks i).active = true → (userMachine.tasks i).space.NoRegions) ∧
      ¬ After step RegionsConfined userMachine mapAgain ∧
      ¬ After step RegionsConfined userMachine
        [.mmap 0x1000 3 0 none, .sbrk 0xFFFFFFFFE0000000] :=
  ⟨noRegions_userMachine, not_after_regionsConfined (by decide +kernel),
    not_after_regionsConfined (by decide +kernel)⟩

end Machine

end VernisOS
