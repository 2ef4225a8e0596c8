import Mathlib.Data.List.Nodup
import Mathlib.Data.Nat.Notation
import VernisOS.Paging

/-!
# Loading pages

The loops of `kernel/arch/x86_64/kernel_x64.c` that allocate a frame for each page of a
range, fill it and map it, and the ELF images that `elf_exec` and `sys_execve` load with
them.
-/

namespace VernisOS

/-! ## Page loops -/

/-- Clearing the low `k` bits rounds down to a multiple of `2 ^ k`. -/
theorem toNat_and_clear (va : UInt64) {mask : UInt64} {k : ℕ} (hk : k ≤ 64)
    (hmask : mask.toNat = (2 ^ (64 - k) - 1) <<< k) :
    (va &&& mask).toNat = va.toNat / 2 ^ k * 2 ^ k := by
  have hshift : va.toNat / 2 ^ k * 2 ^ k = (va.toNat >>> k) <<< k := by
    rw [Nat.shiftLeft_eq, Nat.shiftRight_eq_div_pow]
  rw [UInt64.toNat_and, hmask, hshift]
  refine Nat.eq_of_testBit_eq fun i => ?_
  rw [Nat.testBit_and, Nat.testBit_shiftLeft, Nat.testBit_shiftLeft, Nat.testBit_shiftRight,
    Nat.testBit_two_pow_sub_one]
  by_cases hi : k ≤ i
  · rw [Nat.add_sub_cancel' hi]
    by_cases h64 : i - k < 64 - k
    · simp [hi, h64]
    · have hlt : va.toNat < 2 ^ i :=
        Nat.lt_of_lt_of_le va.toNat_lt (Nat.pow_le_pow_right (by omega) (by omega))
      simp [Nat.testBit_lt_two_pow hlt]
  · simp [hi]

/-- Clearing the low twelve bits rounds down to a page. -/
theorem toNat_and_not_low (va : UInt64) : (va &&& ~~~0xFFF).toNat = va.toNat / 4096 * 4096 :=
  toNat_and_clear va (k := 12) (by decide) (by decide)

/-- The addresses that `for (va = start; va < stop; va += 0x1000)` visits. Both bounds are
page addresses, so the loop meets `stop` exactly. -/
def pageRange (start stop : UInt64) : List UInt64 :=
  if start < stop then
    (List.range ((stop - start) >>> 12).toNat).map fun k => start + k.toUInt64 * 4096
  else []

/-- The addresses of a page loop do not wrap around. -/
theorem toNat_pageRange {start stop : UInt64} (h : start < stop) {k : ℕ}
    (hk : k < ((stop - start) >>> 12).toNat) :
    (start + k.toUInt64 * 4096).toNat = start.toNat + k * 4096 ∧
      start.toNat + k * 4096 < stop.toNat := by
  have h12 : (12 : UInt64).toNat % 64 = 12 := rfl
  have h4096 : (4096 : UInt64).toNat = 4096 := rfl
  have hstop := stop.toNat_lt
  rw [UInt64.lt_iff_toNat_lt] at h
  rw [UInt64.toNat_shiftRight, h12, Nat.shiftRight_eq_div_pow,
    UInt64.toNat_sub_of_le _ _ (UInt64.le_iff_toNat_le.mpr (Nat.le_of_lt h))] at hk
  have hk' : (k.toUInt64).toNat = k := by
    rw [Nat.toUInt64_eq, UInt64.toNat_ofNat']
    omega
  rw [UInt64.toNat_add, UInt64.toNat_mul, hk', h4096]
  omega

theorem mem_pageRange {start stop va : UInt64} (h : va ∈ pageRange start stop) :
    start ≤ va ∧ va < stop := by
  unfold pageRange at h
  split at h
  · next hlt =>
    obtain ⟨k, hk, rfl⟩ := List.mem_map.mp h
    obtain ⟨heq, hstop⟩ := toNat_pageRange hlt (List.mem_range.mp hk)
    rw [UInt64.le_iff_toNat_le, UInt64.lt_iff_toNat_lt, heq]
    omega
  · simp at h

/-- A page loop meets no page twice. -/
theorem nodup_pageRange (start stop : UInt64) :
    ((pageRange start stop).map pageNumber).Nodup := by
  unfold pageRange
  split
  · next hlt =>
    rw [List.map_map]
    refine List.Nodup.map_on ?_ List.nodup_range
    intro k hk k' hk' he
    have h12 : (12 : UInt64).toNat % 64 = 12 := rfl
    have heq := congrArg UInt64.toNat he
    simp only [Function.comp_apply, pageNumber, UInt64.toNat_shiftRight, h12,
      (toNat_pageRange hlt (List.mem_range.mp hk)).1,
      (toNat_pageRange hlt (List.mem_range.mp hk')).1, Nat.shiftRight_eq_div_pow] at heq
    omega
  · exact List.nodup_nil

/-- One page of a loop : a frame is allocated, filled and mapped. `false` if there is no
frame. -/
def loadPage (pml4 va flags : UInt64) (fill : Page → Page) (m : PagingState) :
    Bool × PagingState :=
  let frame := frameAlloc m
  if frame.1 = 0 then (false, frame.2)
  else
    let m := frame.2.writePage frame.1 (fill (frame.2.mem frame.1))
    (true, pagingMap4k m pml4 va frame.1 flags)

/-- A page loop, up to the first failure. -/
def loadPages (pml4 : UInt64) : List (UInt64 × (Page → Page)) → PagingState → Bool × PagingState
  | [], m => (true, m)
  | page :: rest, m =>
    let r := loadPage pml4 page.1 userFlags page.2 m
    if r.1 then loadPages pml4 rest r.2 else r

/-! ## ELF images -/

/-- A file as a loader sees it : what `kfs_read_file` returned, and the bytes that then
stand in memory from `elf_load_buf` on. -/
structure ElfFile where
  fileSize : ℤ
  buf : UInt64 → UInt8

namespace ElfFile

/-- `n` bytes at `off`, little-endian. -/
def field (file : ElfFile) (off : UInt64) : ℕ → UInt64
  | 0 => 0
  | n + 1 => (file.buf off).toUInt64 ||| (file.field (off + 1) n <<< 8)

def eMagic (file : ElfFile) : UInt64 := file.field 0 4
def eClass (file : ElfFile) : UInt64 := file.field 4 1
def eData (file : ElfFile) : UInt64 := file.field 5 1
def eType (file : ElfFile) : UInt64 := file.field 16 2
def eMachine (file : ElfFile) : UInt64 := file.field 18 2
def ePhoff (file : ElfFile) : UInt64 := file.field 32 8
def ePhnum (file : ElfFile) : UInt64 := file.field 56 2

end ElfFile

/-- The fields of an `Elf64_Phdr` that the loaders read. -/
structure Elf64Phdr where
  pType : UInt64
  pOffset : UInt64
  pVaddr : UInt64
  pFilesz : UInt64
  pMemsz : UInt64

namespace ElfFile

/-- `phdr[i]`, 56 bytes each. -/
def phdr (file : ElfFile) (i : ℕ) : Elf64Phdr :=
  let off := file.ePhoff + 56 * i.toUInt64
  { pType := file.field off 4
    pOffset := file.field (off + 8) 8
    pVaddr := file.field (off + 16) 8
    pFilesz := file.field (off + 32) 8
    pMemsz := file.field (off + 40) 8 }

/-- The program headers that the loaders do not skip. -/
def segments (file : ElfFile) : List Elf64Phdr :=
  ((List.range file.ePhnum.toNat).map file.phdr).filter fun ph => ph.pType = 1 ∧ ph.pMemsz ≠ 0

/-- The header checks of `sys_execve`. -/
def ExecveValid (file : ElfFile) : Prop :=
  64 ≤ file.fileSize ∧ file.eMagic = 0x464C457F ∧ file.eClass = 2 ∧ file.eMachine = 0x3E ∧
    file.eType = 2

/-- The header checks of `elf_exec`. -/
def ExecValid (file : ElfFile) : Prop :=
  64 ≤ file.fileSize ∧ file.eMagic = 0x464C457F ∧ file.eClass = 2 ∧ file.eData = 1 ∧
    file.eMachine = 0x3E ∧ file.eType = 2 ∧ file.ePhoff ≠ 0 ∧ file.ePhnum ≠ 0

instance (file : ElfFile) : Decidable file.ExecveValid :=
  inferInstanceAs (Decidable (_ ∧ _))

instance (file : ElfFile) : Decidable file.ExecValid :=
  inferInstanceAs (Decidable (_ ∧ _))

end ElfFile

namespace Elf64Phdr

/-- The page after the last one of the segment, which is also its `seg_end`. -/
def vend (ph : Elf64Phdr) : UInt64 :=
  (ph.pVaddr + ph.pMemsz + 0xFFF) &&& ~~~0xFFF

/-- The addresses of the pages of a segment. -/
def pageVas (ph : Elf64Phdr) : List UInt64 :=
  pageRange (ph.pVaddr &&& ~~~0xFFF) ph.vend

/-- The byte loop of the loaders, over the frame for the page at `va`. -/
def fill (ph : Elf64Phdr) (file : ElfFile) (va : UInt64) (frame : Page) : Page :=
  (List.finRange 4096).foldl (fun p b =>
    let absVa := va + b.val.toUInt64
    if absVa < ph.pVaddr ∨ absVa ≥ ph.pVaddr + ph.pMemsz then p
    else
      let segOff := absVa - ph.pVaddr
      let foff := ph.pOffset + segOff
      if segOff < ph.pFilesz ∧ foff < file.fileSize.toNat.toUInt64 then p.setByte b (file.buf foff)
      else p) frame

/-- The pages of a segment, with what the loader does to the frame of each. -/
def pages (ph : Elf64Phdr) (file : ElfFile) : List (UInt64 × (Page → Page)) :=
  ph.pageVas.map fun va => (va, ph.fill file va)

end Elf64Phdr

/-- `USER_STACK_TOP`. -/
def userStackTop : UInt64 := 0x10800000

/-- The four pages of the user stack, which stay as `frame_alloc` left them. -/
def stackPages : List (UInt64 × (Page → Page)) :=
  [0, 0x1000, 0x2000, 0x3000].map fun i => (userStackTop - 0x4000 + i, id)

/-- All pages of an image, in the order in which they are loaded. -/
def ElfFile.imagePages (file : ElfFile) : List (UInt64 × (Page → Page)) :=
  file.segments.flatMap (fun ph => ph.pages file) ++ stackPages

/-- The segment loop of a loader. `brk` is raised as in `sys_execve`; `elf_exec` has no
such statement and ignores it. -/
def loadSegments (file : ElfFile) (pml4 : UInt64) :
    List Elf64Phdr → PagingState → UInt64 → Bool × PagingState × UInt64
  | [], m, brk => (true, m, brk)
  | ph :: rest, m, brk =>
    let r := loadPages pml4 (ph.pages file) m
    if r.1 then loadSegments file pml4 rest r.2 (if ph.vend > brk then ph.vend else brk)
    else (false, r.2, brk)

/-- Segments and stack. -/
def loadImage (file : ElfFile) (pml4 : UInt64) (m : PagingState) (brk : UInt64) :
    Bool × PagingState × UInt64 :=
  let r := loadSegments file pml4 file.segments m brk
  if r.1 then
    let stack := loadPages pml4 stackPages r.2.1
    (stack.1, stack.2, r.2.2)
  else r

end VernisOS
