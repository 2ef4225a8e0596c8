import VernisOS.ElfImages

/-!
# The two program loaders

`elf_exec` starts a process from a cleared slot. `sys_execve` keeps the slot of the caller : it
raises the break to the end of the last segment and leaves the regions and the cursor of `mmap`
as they are. The processes that the two start agree on their memory, and on the rest exactly if
the caller has a slot like a cleared one and the image happens to end at the start of the heap
(`loaders_agree`).
-/

namespace VernisOS

/-! ## Where a program starts -/

/-- `InterruptFrame`. -/
structure InterruptFrame where
  r15 : UInt64
  r14 : UInt64
  r13 : UInt64
  r12 : UInt64
  r11 : UInt64
  r10 : UInt64
  r9 : UInt64
  r8 : UInt64
  rdi : UInt64
  rsi : UInt64
  rbp : UInt64
  rbx : UInt64
  rdx : UInt64
  rcx : UInt64
  rax : UInt64
  intNo : UInt64
  errorCode : UInt64
  rip : UInt64
  cs : UInt64
  rflags : UInt64
  rsp : UInt64
  ss : UInt64

/-- The entry point. -/
def ElfFile.eEntry (file : ElfFile) : UInt64 :=
  file.field 24 8

/-- The frame that `elf_exec` builds on the kernel stack of the new task. -/
def ElfFile.newFrame (file : ElfFile) : InterruptFrame where
  r15 := 0
  r14 := 0
  r13 := 0
  r12 := 0
  r11 := 0
  r10 := 0
  r9 := 0
  r8 := 0
  rdi := 0
  rsi := 0
  rbp := 0
  rbx := 0
  rdx := 0
  rcx := 0
  rax := 0
  intNo := 0
  errorCode := 0
  rip := file.eEntry
  cs := 0x18 ||| 3
  rflags := 0x202
  rsp := userStackTop
  ss := 0x20 ||| 3

/-- The frame of the caller as `sys_execve` leaves it. `r8` to `r15` keep their values. -/
def InterruptFrame.execve (frame : InterruptFrame) (file : ElfFile) : InterruptFrame :=
  { frame with
    rip := file.eEntry
    rsp := userStackTop
    rax := 0
    rbx := 0
    rcx := 0
    rdx := 0
    rsi := 0
    rdi := 0
    rbp := 0 }

/-! ## The state of a process -/

/-- The start of the heap, for a task whose break is 0. -/
def heapStart : UInt64 := 0x10100000

/-- The state of a process : the bytes of its user pages, its break, the regions in use, where
`mmap` goes on, and where it runs. -/
@[ext]
structure ProcessImage where
  memory : UInt64 → Option UInt8
  brk : UInt64
  vmas : Fin vmaMaxPerTask → Option VmaEntry
  mmapNext : UInt64
  rip : UInt64
  rsp : UInt64

/-- The regions in use. -/
def vmasInUse (vmas : Fin vmaMaxPerTask → VmaEntry) (i : Fin vmaMaxPerTask) : Option VmaEntry :=
  if (vmas i).type = .none then none else some (vmas i)

/-- The state of the process in a slot. A break and a cursor of 0 stand for the places where
`sys_sbrk` and `sys_mmap` begin. -/
def Machine.processImage (m : Machine) (i : Fin 8) (frame : InterruptFrame) : ProcessImage where
  memory va := if InUser va then m.userByte i va else none
  brk := if (m.tasks i).brk = 0 then heapStart else (m.tasks i).brk
  vmas := vmasInUse (m.tasks i).vmaList
  mmapNext := if (m.tasks i).mmapNext = 0 then mmapBase64 else (m.tasks i).mmapNext
  rip := frame.rip
  rsp := frame.rsp

/-- The break of the caller and the ends of the segments. -/
def ElfFile.breaks (file : ElfFile) (brk : UInt64) : List UInt64 :=
  brk :: file.segments.map Elf64Phdr.vend

/-- The slot of the caller is like a cleared one : no break, or the image ends at the start of
the heap, no region, and `mmap` has not been used. -/
structure ElfFile.StartsClean (file : ElfFile) (t : TaskSlot) : Prop where
  brk : (∀ x ∈ file.breaks t.brk, x = 0) ∨
    heapStart ∈ file.breaks t.brk ∧ ∀ x ∈ file.breaks t.brk, x ≤ heapStart
  vmas : ∀ i, (t.vmaList i).type = .none
  mmapNext : t.mmapNext = 0 ∨ t.mmapNext = mmapBase64

/-! ## The break -/

/-- `sys_execve` leaves the greatest of the break and the ends of the segments. -/
theorem loadSegments_brk (file : ElfFile) (pml4 : UInt64) (phs : List Elf64Phdr) :
    ∀ m brk, (loadSegments file pml4 phs m brk).1 = true →
      (loadSegments file pml4 phs m brk).2.2 ∈ brk :: phs.map Elf64Phdr.vend ∧
        ∀ x ∈ brk :: phs.map Elf64Phdr.vend, x ≤ (loadSegments file pml4 phs m brk).2.2 := by
  induction phs with
  | nil =>
    intro m brk _
    simp [loadSegments]
  | cons ph rest ih =>
    intro m brk hdone
    unfold loadSegments at hdone ⊢
    by_cases hph : (loadPages pml4 (ph.pages file) m).1 = true
    · simp only [if_pos hph] at hdone ⊢
      obtain ⟨hmem, hle⟩ := ih _ _ hdone
      generalize (loadSegments file pml4 rest _ _).2.2 = top at hmem hle ⊢
      simp only [List.map_cons, List.mem_cons] at hmem hle ⊢
      by_cases hgt : ph.vend > brk
      · rw [if_pos hgt] at hmem hle
        refine ⟨Or.inr hmem, fun x hx => ?_⟩
        rcases hx with rfl | hx
        · exact UInt64.le_trans (UInt64.le_of_lt hgt) (hle ph.vend (Or.inl rfl))
        · exact hle x hx
      · rw [if_neg hgt] at hmem hle
        refine ⟨hmem.imp_right Or.inr, fun x hx => ?_⟩
        rcases hx with rfl | rfl | hx
        · exact hle x (Or.inl rfl)
        · exact UInt64.le_trans (UInt64.not_lt.mp hgt) (hle brk (Or.inl rfl))
        · exact hle x (Or.inr hx)
    · simp [hph] at hdone

theorem loadImage_brk {file : ElfFile} {pml4 brk : UInt64} {m : PagingState}
    (hdone : (loadImage file pml4 m brk).1 = true) :
    (loadImage file pml4 m brk).2.2 ∈ file.breaks brk ∧
      ∀ x ∈ file.breaks brk, x ≤ (loadImage file pml4 m brk).2.2 := by
  unfold loadImage at hdone ⊢
  by_cases hsegs : (loadSegments file pml4 file.segments m brk).1 = true
  · simp only [if_pos hsegs]
    exact loadSegments_brk file pml4 file.segments m brk hsegs
  · simp [hsegs] at hdone

/-- The greatest of some breaks stands for the start of the heap. -/
theorem top_iff {l : List UInt64} {top : UInt64} (hmem : top ∈ l) (hle : ∀ x ∈ l, x ≤ top) :
    (if top = 0 then heapStart else top) = heapStart ↔
      (∀ x ∈ l, x = 0) ∨ heapStart ∈ l ∧ ∀ x ∈ l, x ≤ heapStart := by
  have hne : heapStart ≠ 0 := by decide
  constructor
  · intro h
    by_cases hzero : top = 0
    · exact Or.inl fun x hx => UInt64.le_zero_iff.mp (hzero ▸ hle x hx)
    · rw [if_neg hzero] at h
      exact Or.inr ⟨h ▸ hmem, h ▸ hle⟩
  · rintro (hall | ⟨hin, hall⟩)
    · rw [if_pos (hall top hmem)]
    · have htop : top = heapStart := UInt64.le_antisymm (hall top hmem) (hle _ hin)
      rw [htop, if_neg hne]

/-! ## Agreement -/

theorem vmasInUse_eq_none {vmas : Fin vmaMaxPerTask → VmaEntry} :
    vmasInUse vmas = (fun _ => none) ↔ ∀ i, (vmas i).type = .none := by
  rw [funext_iff]
  refine forall_congr' fun i => ?_
  unfold vmasInUse
  split
  · next h => simp [h]
  · next h => simp [h]

theorem vmasInUse_vmaInit (vmas : Fin vmaMaxPerTask → VmaEntry) :
    vmasInUse (vmaInit vmas) = fun _ => none :=
  vmasInUse_eq_none.mpr fun _ => rfl

/-- A process that has just been started : its image, and nothing else. -/
def ElfFile.newProcess (file : ElfFile) : ProcessImage where
  memory va := if InUser va then (Pages.empty.load file.imagePages).read va else none
  brk := heapStart
  vmas _ := none
  mmapNext := mmapBase64
  rip := file.eEntry
  rsp := userStackTop

namespace Machine

variable {m : Machine} {file : ElfFile}

/-- `elf_exec` starts a new process. -/
theorem elfExec_image (h : FreeOk m.paging) (hin : ∀ q ∈ file.imagePages, InUser q.1)
    {ticks : UInt16} {slot : Fin 8} (hexec : (m.elfExec file ticks).1 = some slot) :
    (m.elfExec file ticks).2.processImage slot file.newFrame = file.newProcess := by
  obtain ⟨hbrk, hvmas, hnext, hmem⟩ := elfExec_loaded h hin hexec
  refine ProcessImage.ext (funext fun va => ?_) ?_ ?_ ?_ rfl rfl
  · by_cases hva : InUser va
    · simp only [processImage, ElfFile.newProcess, if_pos hva, hmem va hva]
    · simp only [processImage, ElfFile.newProcess, if_neg hva]
  · exact if_pos hbrk
  · rw [processImage, hvmas, vmasInUse_vmaInit]
    rfl
  · exact if_pos hnext

/-- What goes on after `sys_execve` is a new process exactly if the slot of the caller is like a
cleared one. -/
theorem sysExecve_image (h : FreeOk m.paging) (hin : ∀ q ∈ file.imagePages, InUser q.1)
    (hexecve : (m.sysExecve file).1 = true) (frame : InterruptFrame) :
    (m.sysExecve file).2.processImage m.current (frame.execve file) = file.newProcess ↔
      file.StartsClean m.cur := by
  obtain ⟨⟨pml4, pg, htask, hdone⟩, hmem⟩ := sysExecve_loaded h hin hexecve
  obtain ⟨htop, hle⟩ := loadImage_brk hdone
  have hmemory : ∀ va, (if InUser va then (m.sysExecve file).2.userByte m.current va else none)
      = if InUser va then (Pages.empty.load file.imagePages).read va else none := by
    intro va
    by_cases hva : InUser va
    · rw [if_pos hva, if_pos hva, hmem va hva]
    · rw [if_neg hva, if_neg hva]
  rw [ProcessImage.ext_iff]
  simp only [processImage, ElfFile.newProcess, htask, InterruptFrame.execve, and_true]
  rw [top_iff htop hle, vmasInUse_eq_none]
  constructor
  · rintro ⟨_, hbrk, hvmas, hnext⟩
    refine ⟨hbrk, hvmas, ?_⟩
    by_cases hzero : m.cur.mmapNext = 0
    · exact Or.inl hzero
    · rw [if_neg hzero] at hnext
      exact Or.inr hnext
  · rintro ⟨hbrk, hvmas, hnext⟩
    refine ⟨funext hmemory, hbrk, hvmas, ?_⟩
    rcases hnext with hnext | hnext
    · rw [if_pos hnext]
    · rw [hnext]
      exact if_neg (by decide)

end Machine

/-- Whenever both loaders load an image in the user area, the process that goes on after
`sys_execve` is like the one that `elf_exec` starts exactly if the slot of the caller is like a
cleared one. -/
theorem loaders_agree (m m' : Machine) (h : FreeOk m.paging) (h' : FreeOk m'.paging)
    {file : ElfFile} (hin : ∀ q ∈ file.imagePages, InUser q.1) (frame : InterruptFrame)
    {ticks : UInt16} {slot : Fin 8} (hexecve : (m.sysExecve file).1 = true)
    (hexec : (m'.elfExec file ticks).1 = some slot) :
    (m.sysExecve file).2.processImage m.current (frame.execve file)
      = (m'.elfExec file ticks).2.processImage slot file.newFrame ↔ file.StartsClean m.cur := by
  rw [Machine.elfExec_image h' hin hexec]
  exact Machine.sysExecve_image h hin hexecve frame

/-! ## A program that calls `execve` -/

/-- The machine after boot with a program without segments running. -/
def firstProgram : Machine :=
  ((bootMachine.elfExec stackImage 4).2.timer 0).2

theorem stackImage_inUser : ∀ q ∈ stackImage.imagePages, InUser q.1 :=
  stackImage_pagesOk.1

theorem firstProgram_free : FreeOk firstProgram.paging := by
  have hok := bootMachine_booted.ok.elfExec bootMachine_booted.tables
    (fun _ => stackImage_pagesOk) bootMachine_elfExec_left.1
  unfold firstProgram
  exact (hok.timer 0).freeOk

/-- Its slot is still as `elf_exec` has cleared it. -/
theorem firstProgram_cur : firstProgram.cur.brk = 0 ∧
    (∀ i, (firstProgram.cur.vmaList i).type = .none) ∧ firstProgram.cur.mmapNext = 0 := by
  obtain ⟨hcurrent, htask, _⟩ := bootMachine_switch
  have hdone := Machine.elfExec_done bootMachine_free (by decide) stackImage_inUser
    bootMachine_freeSlot rfl 4 (by decide)
  obtain ⟨hbrk, hvmas, hnext, _⟩ :=
    Machine.elfExec_loaded bootMachine_free stackImage_inUser hdone
  have hcur : firstProgram.cur = (bootMachine.elfExec stackImage 4).2.tasks 3 := by
    unfold Machine.cur firstProgram
    rw [hcurrent, htask]
  rw [hcur]
  exact ⟨hbrk, fun i => by rw [hvmas]; rfl, hnext⟩

/-- `execve` in it succeeds, as long as the image is not larger than what is left. -/
theorem firstProgram_execve {file : ElfFile} (hvalid : file.ExecveValid)
    (hin : ∀ q ∈ file.imagePages, InUser q.1) (hlen : 3 + 4 * file.imagePages.length ≤ 1002) :
    (firstProgram.sysExecve file).1 = true := by
  have hpaging : firstProgram.paging = (bootMachine.elfExec stackImage 4).2.paging := by
    rw [firstProgram, Machine.timer_paging]
  obtain ⟨hout, hleft⟩ := bootMachine_elfExec_left
  refine Machine.sysExecve_done firstProgram_free hvalid hin ?_ ?_
  · rw [hpaging, hout]
  · rw [hpaging]
    exact Nat.le_trans hlen hleft

/-- The program calls `execve` on itself, and is like new. -/
theorem loaders_agree_stack :
    (firstProgram.sysExecve stackImage).2.processImage firstProgram.current
        (stackImage.newFrame.execve stackImage)
      = (bootMachine.elfExec stackImage 4).2.processImage 3 stackImage.newFrame := by
  obtain ⟨hbrk, hvmas, hnext⟩ := firstProgram_cur
  have hexec := Machine.elfExec_done bootMachine_free (by decide) stackImage_inUser
    bootMachine_freeSlot rfl 4 (by decide)
  refine (loaders_agree firstProgram bootMachine firstProgram_free bootMachine_free
    stackImage_inUser _ (firstProgram_execve (by decide) stackImage_inUser (by decide))
    hexec).mpr ⟨Or.inl fun x hx => ?_, hvmas, Or.inl hnext⟩
  have hbreaks : stackImage.breaks firstProgram.cur.brk = [firstProgram.cur.brk] := rfl
  rw [hbreaks, List.mem_singleton] at hx
  rw [hx, hbrk]

/-- The program calls `execve` with an image of one page, and starts with another break than a
new process. -/
theorem not_loaders_agree :
    (firstProgram.sysExecve (ElfFile.ofBytes textBytes)).1 = true ∧
      (bootMachine.elfExec (ElfFile.ofBytes textBytes) 4).1 = some 3 ∧
      (firstProgram.sysExecve (ElfFile.ofBytes textBytes)).2.processImage firstProgram.current
          (stackImage.newFrame.execve (ElfFile.ofBytes textBytes))
        ≠ (bootMachine.elfExec (ElfFile.ofBytes textBytes) 4).2.processImage 3
          (ElfFile.ofBytes textBytes).newFrame := by
  have hprog := textBytes_executable
  have hin : ∀ q ∈ (ElfFile.ofBytes textBytes).imagePages, InUser q.1 :=
    hprog.inUser rfl
  have hexec := Machine.elfExec_done bootMachine_free hprog.header hin
    bootMachine_freeSlot rfl 4 (by decide)
  have hexecve := firstProgram_execve (show (ElfFile.ofBytes textBytes).ExecveValid by
    decide +kernel) hin (by decide +kernel)
  refine ⟨hexecve, hexec, fun heq => ?_⟩
  rw [Machine.elfExec_image bootMachine_free hin hexec] at heq
  obtain ⟨hbrk, _, _⟩ :=
    (Machine.sysExecve_image firstProgram_free hin hexecve _).mp heq
  have hbreaks : (ElfFile.ofBytes textBytes).breaks firstProgram.cur.brk = [0, 0x10001000] := by
    rw [ElfFile.breaks, textBytes_segments, firstProgram_cur.1]
    decide
  rw [hbreaks] at hbrk
  rcases hbrk with hall | ⟨hmem, _⟩
  · exact absurd (hall 0x10001000 (by simp)) (by decide)
  · exact absurd hmem (by decide)

end VernisOS
