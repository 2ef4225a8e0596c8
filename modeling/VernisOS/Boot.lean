import VernisOS.ProcessSteps

/-!
# The machine after boot

After boot the kernel has its page tables and its own tasks, and no user task is there yet
(`Machine.Booted`). Such a machine has the empty memories (`Booted.ok`). `bootMachine` is
one with the tasks that `kernel_main` creates, while the task that starts the shell runs.
-/

namespace VernisOS

open Holder

/-! ## The machine after boot -/

/-- The kernel has its page tables, the frames it took are counted once, and every task runs
in its address space. -/
structure Machine.Booted (m : Machine) : Prop where
  pool : PoolOk m.paging
  freelist : m.paging.freelist = []
  counts : ∀ f, Known m.paging f → refs m.paging f = 1
  tables : KernelTables m.paging
  slots : ∀ i, (m.tasks i).pml4 = 0 ∨ (m.tasks i).active = true ∧
    (m.tasks i).pml4 = m.paging.kernelPml4
  running : m.cur.active = true
  cr3 : m.cr3 = m.paging.kernelPml4

/-- The holders after boot : the kernel has the frames that have been handed out. -/
def bootGhost (b : PagingState) : Ghost
  | boot k =>
    if b.physPoolBase.toNat + 4096 * k.val < b.physNextFree.toNat then
      some ⟨UInt64.ofNat (b.physPoolBase.toNat + 4096 * k.val), .writable⟩
    else none
  | _ => none

theorem PoolOk.isNth_ofNat {b : PagingState} (h : PoolOk b) (k : Fin 1024) :
    IsNth b.physPoolBase (UInt64.ofNat (b.physPoolBase.toNat + 4096 * k.val)) k := by
  have h1 := h.end_eq
  have h2 := h.end_lt
  have h3 := k.isLt
  rw [IsNth, UInt64.toNat_ofNat', Nat.mod_eq_of_lt (by omega)]

theorem bootGhost_iff {b : PagingState} (h : PoolOk b) {w : Holder} {f : UInt64} :
    (bootGhost b).frames w = some f ↔ ∃ k, w = boot k ∧ IsNth b.physPoolBase f k ∧
      f < b.physNextFree := by
  constructor
  · intro hw
    obtain ⟨r, hr, rfl⟩ := Ghost.of_frames hw
    cases w with
    | boot k =>
      have hk := h.isNth_ofNat k
      simp only [bootGhost, Option.ite_none_right_eq_some, Option.some.injEq] at hr
      obtain ⟨hlt, rfl⟩ := hr
      refine ⟨k, rfl, hk, ?_⟩
      rw [UInt64.lt_iff_toNat_lt, hk]
      exact hlt
    | hand l => simp [bootGhost] at hr
    | node s n => simp [bootGhost] at hr
  · rintro ⟨k, rfl, hk, hlt⟩
    have heq := (h.isNth_ofNat k).unique hk
    rw [UInt64.lt_iff_toNat_lt, hk] at hlt
    simp only [Ghost.frames, Function.comp_apply, bootGhost, if_pos hlt, Option.map_some, heq]

theorem bootGhost_known {b : PagingState} (h : PoolOk b) {f : UInt64} :
    (∃ w, (bootGhost b).frames w = some f) ↔ Known b f := by
  constructor
  · rintro ⟨w, hw⟩
    obtain ⟨k, _, hk, hlt⟩ := (bootGhost_iff h).mp hw
    exact ⟨⟨k, hk⟩, hlt⟩
  · rintro ⟨⟨k, hk⟩, hlt⟩
    exact ⟨boot k, (bootGhost_iff h).mpr ⟨k, rfl, hk, hlt⟩⟩

/-- Every frame has one holder after boot. -/
theorem bootGhost_unique {b : PagingState} (h : PoolOk b) {w w' : Holder} {f : UInt64}
    (hw : (bootGhost b).frames w = some f) (hw' : (bootGhost b).frames w' = some f) : w = w' := by
  obtain ⟨k, rfl, hk, _⟩ := (bootGhost_iff h).mp hw
  obtain ⟨k', rfl, hk', _⟩ := (bootGhost_iff h).mp hw'
  unfold IsNth at hk hk'
  congr 1
  omega

theorem uses_bootGhost {b : PagingState} (h : PoolOk b) {f : UInt64} (hf : Known b f) :
    Ledger.uses (bootGhost b).frames f = 1 := by
  obtain ⟨w, hw⟩ := (bootGhost_known h).mpr hf
  refine Finset.card_eq_one.mpr ⟨w, ?_⟩
  ext w'
  simp only [Finset.mem_filter, Finset.mem_univ, true_and, Finset.mem_singleton]
  exact ⟨fun hw' => bootGhost_unique h hw' hw, fun he => he ▸ hw⟩

theorem Machine.Booted.inv {m : Machine} (h : m.Booted) :
    Inv m.paging m.paging (bootGhost m.paging) := by
  have hnode : ∀ s n, bootGhost m.paging (node s n) = none := fun s n => rfl
  refine ⟨⟨h.pool, rfl, rfl, ?_⟩, ⟨?_, ?_⟩, ⟨?_, ?_, ?_, ?_⟩, fun _ _ _ => rfl, fun f => ?_⟩
  · refine ⟨fun w f hw => (bootGhost_known h.pool).mp ⟨w, hw⟩, fun f hf => ?_, ?_, ?_, ?_, ?_⟩
    · rw [h.counts f hf, uses_bootGhost h.pool hf]
    · simp [h.freelist]
    · simp [h.freelist]
    · simp [h.freelist]
    · exact fun f hf => Or.inr ((bootGhost_known h.pool).mpr hf)
  · intro w r hw hread
    cases w with
    | boot k =>
      simp only [bootGhost, Option.ite_none_right_eq_some, Option.some.injEq] at hw
      obtain ⟨_, rfl⟩ := hw
      exact absurd hread Bool.noConfusion
    | hand l => simp [bootGhost] at hw
    | node s n => simp [bootGhost] at hw
  · intro w w' r r' hw hw' he hne
    exact absurd (bootGhost_unique h.pool (Ghost.frames_eq hw) (he ▸ Ghost.frames_eq hw')) hne
  · intro s c n k r _ hn
    simp [hnode] at hn
  · intro s c r hc
    simp [hnode] at hc
  · intro s r hr
    simp [hnode] at hr
  · intro s n k r hn
    simp [hnode] at hn
  · rw [← bootGhost_known h.pool]
    constructor
    · rintro ⟨k, r, hk, rfl⟩
      exact ⟨boot k, Ghost.frames_eq hk⟩
    · rintro ⟨w, hw⟩
      obtain ⟨k, rfl, _⟩ := (bootGhost_iff h.pool).mp hw
      obtain ⟨r, hr, rfl⟩ := Ghost.of_frames hw
      exact ⟨k, r, hr, rfl⟩

/-- After boot no task has a memory. -/
theorem Machine.Booted.ok {m : Machine} (h : m.Booted) : m.Ok m.paging fun _ => Pages.empty := by
  have hroot : ∀ i, (m.tasks i).userRoot m.paging.kernelPml4 = none := by
    intro i
    refine if_neg ?_
    rintro ⟨_, hne, hne'⟩
    rcases h.slots i with h0 | ⟨_, hk⟩
    · exact hne h0
    · exact hne' hk
  refine ⟨⟨bootGhost m.paging, h.inv, fun l => rfl, fun s => ?_, fun s i j => ?_⟩, ?_, ?_, h.running⟩
  · cases s with
    | none => rfl
    | some i => exact (hroot i).symm
  · cases s with
    | none => rfl
    | some i => rfl
  · intro i hi
    rcases h.slots i with h0 | ⟨hact, _⟩
    · exact h0
    · rw [hi] at hact
      exact absurd hact Bool.noConfusion
  · rw [h.cr3]
    rcases h.slots m.current with h0 | ⟨_, hk⟩
    · exact (if_pos h0).symm
    · split
      · rfl
      · exact hk.symm

/-! ## The tasks of the kernel -/

/-- The process table after boot : `init`, which the cursor is on, `ai_engine`, `worker` and
`kinit`. -/
def bootScheduler : Scheduler :=
  let s := (((Scheduler.new.createProcess 10).2.createProcess 8).2.schedule timerHz 0)
  ((s.createProcess 9).2.createProcess 9).2

/-- The page tables of a kernel that ends at 0x400000 : 128 MB in huge pages, in three
frames. -/
def bootPaging : PagingState where
  mem f i :=
    if f = 0x400000 ∧ i = 0 then 0x401003
    else if f = 0x401000 ∧ i = 0 then 0x402003
    else if f = 0x402000 ∧ i < 64 then (i.val.toUInt64 <<< 21) ||| 0x83
    else 0
  freelist := []
  refcount k := if k < 3 then 1 else 0
  physPoolBase := 0x400000
  physNextFree := 0x403000
  physAllocEnd := 0x800000
  kernelPml4 := 0x400000
  outOfFrames := false

/-- A slot that has not been used. -/
def emptySlot : TaskSlot where
  rsp := 0
  pid := 0
  active := false
  ticksRemaining := 0
  ticksTotal := 0
  brk := 0
  vmaList _ := ⟨0, 0, .none, 0, 0, emptyPath⟩
  mmapNext := 0
  pml4 := 0
  uid := 0
  gid := 0

/-- A task of the kernel. -/
def kernelSlot (pid : UInt32) (ticks : UInt16) : TaskSlot :=
  { emptySlot with
    pid := pid, active := true, ticksRemaining := ticks, ticksTotal := ticks, pml4 := 0x400000 }

/-- The machine after boot, with `kinit` running. -/
def bootMachine : Machine where
  paging := bootPaging
  sched := bootScheduler
  tasks i :=
    if i = 0 then kernelSlot 1 24
    else if i = 1 then kernelSlot 3 1
    else if i = 2 then kernelSlot 4 1
    else emptySlot
  current := 2
  cr3 := 0x400000
  tssRsp0 := 0x304000
  stack i := 0x300000 + i.val.toUInt64 * 0x4000
  kernelTick := 0

/-- The machine while a task of user 1000 and group 100 runs. -/
def userMachine : Machine :=
  { bootMachine.setTask 3
      { emptySlot with pid := 5, active := true, pml4 := 0x403000, uid := 1000, gid := 100 } with
    current := 3
    cr3 := 0x403000
    tssRsp0 := 0x310000 }

theorem known_bootPaging {f : UInt64} :
    Known bootPaging f ↔ f = 0x400000 ∨ f = 0x401000 ∨ f = 0x402000 := by
  have h0 : (0x400000 : UInt64).toNat = 0x400000 := rfl
  have h1 : (0x401000 : UInt64).toNat = 0x401000 := rfl
  have h2 : (0x402000 : UInt64).toNat = 0x402000 := rfl
  have h3 : (0x403000 : UInt64).toNat = 0x403000 := rfl
  simp only [Known, IsNth, bootPaging, UInt64.lt_iff_toNat_lt, ← UInt64.toNat_inj, h0, h1, h2, h3]
  constructor
  · rintro ⟨⟨k, hk⟩, hlt⟩
    omega
  · rintro (h | h | h)
    · exact ⟨⟨0, by rw [h]; rfl⟩, by omega⟩
    · exact ⟨⟨1, by rw [h]; rfl⟩, by omega⟩
    · exact ⟨⟨2, by rw [h]; rfl⟩, by omega⟩

theorem bootMachine_booted : bootMachine.Booted := by
  refine ⟨⟨by decide, by decide, by decide, by decide, 3, by decide, by decide⟩, rfl, ?_, ?_, ?_,
    by decide, rfl⟩
  · intro f hf
    rcases known_bootPaging.mp hf with rfl | rfl | rfl <;> decide
  · refine ⟨known_bootPaging.mpr (by decide), known_bootPaging.mpr (by decide),
      known_bootPaging.mpr (by decide), fun k => ?_, fun k => ?_, fun k => ?_⟩
    · have h : bootPaging.mem 0x400000 k = if k = 0 then 0x401003 else 0 := by
        simp [bootPaging]
      exact h ▸ by split <;> decide
    · have h : bootPaging.mem 0x401000 k = if k = 0 then 0x402003 else 0 := by
        simp [bootPaging]
      exact h ▸ by split <;> decide
    · revert k
      decide +kernel
  · intro i
    fin_cases i <;> simp [bootMachine, kernelSlot, emptySlot, bootPaging]

/-! ## Two programs -/

/-- The header of an executable with one program header. -/
def elfHeader : List UInt8 :=
  [0x7F, 0x45, 0x4C, 0x46, 2, 1, 1, 0] ++ List.replicate 8 0 ++ [2, 0, 0x3E, 0] ++
    List.replicate 12 0 ++ [64, 0, 0, 0, 0, 0, 0, 0] ++ List.replicate 16 0 ++ [1, 0] ++
    List.replicate 6 0

/-- An executable of 120 bytes with the given program header. -/
def elfOf (phdr : List UInt8) : ElfFile where
  fileSize := 120
  buf off := (elfHeader ++ phdr).getD off.toNat 0

/-- A program without segments : only its stack is loaded. -/
def stackImage : ElfFile :=
  elfOf []

/-- A program with one segment, of one byte at the start of the page `va`. -/
def segmentImage (va : List UInt8) : ElfFile :=
  elfOf ([1, 0, 0, 0, 5, 0, 0, 0] ++ List.replicate 8 0 ++ va ++ List.replicate 16 0 ++
    [1, 0, 0, 0, 0, 0, 0, 0])

/-- A program whose segment is the last page of the stack. -/
def overImage : ElfFile :=
  segmentImage [0, 0xF0, 0x7F, 0x10, 0, 0, 0, 0]

theorem inUser_of_all {l : List (UInt64 × (Page → Page))}
    (h : (l.all fun q => decide (InUser q.1)) = true) : ∀ q ∈ l, InUser q.1 := by
  intro q hq
  exact of_decide_eq_true (List.all_eq_true.mp h q hq)

theorem stackImage_pagesOk : stackImage.PagesOk :=
  ⟨inUser_of_all (by decide), by decide⟩

end VernisOS
