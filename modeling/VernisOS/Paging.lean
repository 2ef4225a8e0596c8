import Mathlib.Algebra.Ring.Nat
import Mathlib.Data.Fin.Basic
import Mathlib.Data.List.FinRange
import Mathlib.Logic.Function.Basic

/-!
# Page frames and page tables

The frame allocator and the four-level page tables of `kernel/arch/x86_64/kernel_x64.c` :
`frame_alloc`, `frame_free`, `paging_map_4k`, the address spaces of the user processes,
their copy-on-write clones, and the walk of the tables that the processor makes for an
access of user code. Physical memory is a function from the address of a frame to its 512
words. A null pointer is the frame address 0. The accessed and dirty bits that the
processor sets are not modelled : no function reads them.
-/

namespace VernisOS

/-! ## Frames -/

/-- The 4096 bytes of a frame, as 512 words. -/
abbrev Page := Fin 512 → UInt64

instance neZeroWords : NeZero 512 :=
  ⟨by decide⟩

namespace Page

/-- The word that holds the byte `b` of a page. -/
def wordOf (b : Fin 4096) : Fin 512 :=
  ⟨b / 8, by omega⟩

/-- How far the byte `b` is shifted in its word. -/
def shiftOf (b : Fin 4096) : UInt64 :=
  (8 * (b.val % 8)).toUInt64

/-- The byte `b` of a page, little-endian. -/
def byte (p : Page) (b : Fin 4096) : UInt8 :=
  (p (wordOf b) >>> shiftOf b).toUInt8

/-- Write the byte `b` of a page. -/
def setByte (p : Page) (b : Fin 4096) (v : UInt8) : Page :=
  Function.update p (wordOf b)
    ((p (wordOf b) &&& ~~~(0xFF <<< shiftOf b)) ||| (v.toUInt64 <<< shiftOf b))

end Page

/-- The state of the frame allocator and physical memory. The free list is kept with the
frame that `frame_alloc` takes next at its head. `outOfFrames` says that `frame_alloc`
has failed. -/
structure PagingState where
  mem : UInt64 → Page
  freelist : List UInt64
  refcount : Fin 1024 → UInt8
  physPoolBase : UInt64
  physNextFree : UInt64
  physAllocEnd : UInt64
  kernelPml4 : UInt64
  outOfFrames : Bool

/-- `FRAME_FREELIST_MAX`. -/
def frameFreelistMax : ℕ := 2048

/-- `frame_ref_idx`, with `none` for -1. -/
def frameRefIdx (m : PagingState) (frame : UInt64) : Option (Fin 1024) :=
  if frame < m.physPoolBase then none
  else if h : ((frame - m.physPoolBase) >>> 12).toNat < 1024 then some ⟨_, h⟩
  else none

namespace PagingState

/-- Set the reference count of a frame, if it has one. -/
def setRef (m : PagingState) (frame : UInt64) (n : UInt8) : PagingState :=
  match frameRefIdx m frame with
  | some i => { m with refcount := Function.update m.refcount i n }
  | none => m

/-- Write a whole frame. -/
def writePage (m : PagingState) (frame : UInt64) (p : Page) : PagingState :=
  { m with mem := Function.update m.mem frame p }

/-- Write one entry of a table. -/
def writeEntry (m : PagingState) (table : UInt64) (i : Fin 512) (e : UInt64) : PagingState :=
  m.writePage table (Function.update (m.mem table) i e)

/-- Put a frame on the free list, unless the list is full. -/
def pushFree (m : PagingState) (frame : UInt64) : PagingState :=
  if m.freelist.length < frameFreelistMax then { m with freelist := frame :: m.freelist } else m

end PagingState

/-- `frame_ref_inc`. -/
def frameRefInc (m : PagingState) (frame : UInt64) : PagingState :=
  match frameRefIdx m frame with
  | some i => if m.refcount i < 255 then m.setRef frame (m.refcount i + 1) else m
  | none => m

/-- `frame_ref_get`. -/
def frameRefGet (m : PagingState) (frame : UInt64) : UInt8 :=
  match frameRefIdx m frame with
  | some i => m.refcount i
  | none => 1

/-- `frame_free`. -/
def frameFree (m : PagingState) (frame : UInt64) : PagingState :=
  if frame = 0 then m
  else
    match frameRefIdx m frame with
    | some i =>
      if m.refcount i > 1 then m.setRef frame (m.refcount i - 1)
      else (m.setRef frame 0).pushFree frame
    | none => m.pushFree frame

/-- The end of `frame_alloc` : the frame has one reference and is zeroed. -/
def handOut (m : PagingState) (frame : UInt64) : PagingState :=
  (m.setRef frame 1).writePage frame fun _ => 0

/-- `frame_alloc`, with the frame first. -/
def frameAlloc (m : PagingState) : UInt64 × PagingState :=
  match m.freelist with
  | frame :: rest => (frame, handOut { m with freelist := rest } frame)
  | [] =>
    if m.physNextFree ≥ m.physAllocEnd then (0, { m with outOfFrames := true })
    else (m.physNextFree, handOut { m with physNextFree := m.physNextFree + 4096 } m.physNextFree)

/-! ## Page tables -/

/-- `PAGE_PRESENT`. -/
def pagePresent : UInt64 := 0x01

/-- `PAGE_WRITABLE`. -/
def pageWritable : UInt64 := 0x02

/-- `PAGE_USER`. -/
def pageUser : UInt64 := 0x04

/-- `PAGE_PS`. -/
def pagePs : UInt64 := 0x80

/-- `PAGE_COW`. -/
def pageCow : UInt64 := 0x200

/-- `PAGE_ADDR_MASK`. -/
def pageAddrMask : UInt64 := 0xFFFFFFFFF000

/-- The mask of `paging_next_level`. -/
def nextLevelMask : UInt64 := 0x000FFFFFFFFFF000

/-- The flags of a page that user code may write. -/
def userFlags : UInt64 := pagePresent ||| pageWritable ||| pageUser

/-- The index into the table of one level : the nine bits of `virt` from `shift` on. -/
def levelIndex (virt shift : UInt64) : Fin 512 :=
  Fin.ofNat 512 ((virt >>> shift) &&& 0x1FF).toNat

/-- `paging_next_level`, with the table first. -/
def pagingNextLevel (m : PagingState) (table : UInt64) (index : Fin 512) (flags : UInt64) :
    UInt64 × PagingState :=
  if m.mem table index &&& pagePresent = 0 then
    let frame := frameAlloc m
    if frame.1 = 0 then (0, frame.2)
    else
      let m := frame.2.writeEntry table index
        (frame.1 ||| pagePresent ||| pageWritable ||| (flags &&& pageUser))
      (m.mem table index &&& nextLevelMask, m)
  else
    let m := m.writeEntry table index (m.mem table index ||| (flags &&& pageUser))
    (m.mem table index &&& nextLevelMask, m)

/-- `paging_map_4k`. -/
def pagingMap4k (m : PagingState) (pml4 virt phys flags : UInt64) : PagingState :=
  let pdpt := pagingNextLevel m pml4 (levelIndex virt 39) flags
  if pdpt.1 = 0 then pdpt.2
  else
    let pd := pagingNextLevel pdpt.2 pdpt.1 (levelIndex virt 30) flags
    if pd.1 = 0 then pd.2
    else
      let pt := pagingNextLevel pd.2 pd.1 (levelIndex virt 21) flags
      if pt.1 = 0 then pt.2
      else pt.2.writeEntry pt.1 (levelIndex virt 12) ((phys &&& pageAddrMask) ||| flags)

/-! ## Address spaces -/

/-- The third part of `paging_create_address_space` : the PD. -/
def createPd (m : PagingState) (newPml4 newPdpt srcPdpt : UInt64) : UInt64 × PagingState :=
  let srcPd := m.mem srcPdpt 0 &&& pageAddrMask
  let newPd := frameAlloc m
  if newPd.1 = 0 then (0, frameFree (frameFree newPd.2 newPdpt) newPml4)
  else
    let m := newPd.2.writePage newPd.1 fun i => if i < 64 then newPd.2.mem srcPd i else 0
    (newPml4, m.writeEntry newPdpt 0 (newPd.1 ||| userFlags))

/-- The second part of `paging_create_address_space` : the PDPT. -/
def createPdpt (m : PagingState) (newPml4 srcPml4 : UInt64) : UInt64 × PagingState :=
  let srcPdpt := m.mem srcPml4 0 &&& pageAddrMask
  let newPdpt := frameAlloc m
  if newPdpt.1 = 0 then (0, frameFree newPdpt.2 newPml4)
  else
    let m := newPdpt.2.writePage newPdpt.1 (newPdpt.2.mem srcPdpt)
    createPd (m.writeEntry newPml4 0 (newPdpt.1 ||| userFlags)) newPml4 newPdpt.1 srcPdpt

/-- `paging_create_address_space`, with the new PML4 first. -/
def pagingCreateAddressSpace (m : PagingState) (srcPml4 : UInt64) : UInt64 × PagingState :=
  let newPml4 := frameAlloc m
  if newPml4.1 = 0 then (0, newPml4.2)
  else createPdpt (newPml4.2.writePage newPml4.1 (newPml4.2.mem srcPml4)) newPml4.1 srcPml4

/-- The entries of the user area in the PD of the first gigabyte, 64 to 511. -/
def userPds : List (Fin 512) :=
  (List.finRange 512).drop 64

/-- The entry of a PD leads to a table of 4 KB pages. -/
def HasTable (e : UInt64) : Prop :=
  ¬ (e &&& pagePresent = 0 ∨ e &&& pagePs ≠ 0)

instance (e : UInt64) : Decidable (HasTable e) :=
  inferInstanceAs (Decidable (¬ _))

/-- One page of the inner loop of `paging_free_user_space`. -/
def freeUserPage (pt : UInt64) (m : PagingState) (j : Fin 512) : PagingState :=
  if m.mem pt j &&& pagePresent ≠ 0 then frameFree m (m.mem pt j &&& pageAddrMask) else m

/-- One table of the outer loop of `paging_free_user_space`. -/
def freeUserTable (pd : UInt64) (m : PagingState) (i : Fin 512) : PagingState :=
  if HasTable (m.mem pd i) then
    let pt := m.mem pd i &&& pageAddrMask
    frameFree ((List.finRange 512).foldl (freeUserPage pt) m) pt
  else m

/-- `paging_free_user_space`. -/
def pagingFreeUserSpace (m : PagingState) (pml4 : UInt64) : PagingState :=
  if pml4 = 0 ∨ pml4 = m.kernelPml4 then m
  else
    let pdpt := m.mem pml4 0 &&& pageAddrMask
    let pd := m.mem pdpt 0 &&& pageAddrMask
    let m := userPds.foldl (freeUserTable pd) m
    frameFree (frameFree (frameFree m pd) pdpt) pml4

/-- The address of the page `j` of the table `i` of the user area. -/
def pageAddr (i j : Fin 512) : UInt64 :=
  (i.val.toUInt64 <<< 21) ||| (j.val.toUInt64 <<< 12)

/-- One page of the inner loop of `paging_clone_user_pages`. -/
def cloneUserPage (dstPml4 pt : UInt64) (i : Fin 512) (m : PagingState) (j : Fin 512) :
    PagingState :=
  if m.mem pt j &&& pagePresent = 0 then m
  else
    let m :=
      if m.mem pt j &&& pageWritable ≠ 0 then
        m.writeEntry pt j ((m.mem pt j &&& ~~~pageWritable) ||| pageCow)
      else m
    let frame := m.mem pt j &&& pageAddrMask
    let flags := m.mem pt j &&& 0xFFF
    frameRefInc (pagingMap4k m dstPml4 (pageAddr i j) frame flags) frame

/-- One table of the outer loop of `paging_clone_user_pages`. -/
def cloneUserTable (dstPml4 pd : UInt64) (m : PagingState) (i : Fin 512) : PagingState :=
  if HasTable (m.mem pd i) then
    (List.finRange 512).foldl (cloneUserPage dstPml4 (m.mem pd i &&& pageAddrMask) i) m
  else m

/-- `paging_clone_user_pages`. It always returns 0. -/
def pagingCloneUserPages (m : PagingState) (dstPml4 srcPml4 : UInt64) : PagingState :=
  let pdpt := m.mem srcPml4 0 &&& pageAddrMask
  let pd := m.mem pdpt 0 &&& pageAddrMask
  userPds.foldl (cloneUserTable dstPml4 pd) m

/-- `paging_get_pte` : the table and the index of the entry for `va`. -/
def pagingGetPte (m : PagingState) (pml4 va : UInt64) : Option (UInt64 × Fin 512) :=
  if pml4 = 0 then none
  else
    let e4 := m.mem pml4 (levelIndex va 39)
    if e4 &&& pagePresent = 0 then none
    else
      let e3 := m.mem (e4 &&& pageAddrMask) (levelIndex va 30)
      if e3 &&& pagePresent = 0 ∨ e3 &&& pagePs ≠ 0 then none
      else
        let e2 := m.mem (e3 &&& pageAddrMask) (levelIndex va 21)
        if e2 &&& pagePresent = 0 ∨ e2 &&& pagePs ≠ 0 then none
        else some (e2 &&& pageAddrMask, levelIndex va 12)

/-- The entry for `va` is present and copy-on-write. -/
def cowPage (m : PagingState) (pml4 va : UInt64) : Bool :=
  match pagingGetPte m pml4 va with
  | none => false
  | some (pt, j) => m.mem pt j &&& pagePresent ≠ 0 && m.mem pt j &&& pageCow ≠ 0

/-- `paging_handle_cow_fault`, with `true` for 0 (handled). -/
def pagingHandleCowFault (m : PagingState) (pml4 faultAddr : UInt64) : Bool × PagingState :=
  match pagingGetPte m (if pml4 = 0 then m.kernelPml4 else pml4) faultAddr with
  | none => (false, m)
  | some (pt, j) =>
    let pte := m.mem pt j
    if pte &&& pagePresent = 0 ∨ pte &&& pageCow = 0 then (false, m)
    else
      let oldFrame := pte &&& pageAddrMask
      if frameRefGet m oldFrame = 1 then
        (true, m.writeEntry pt j ((pte ||| pageWritable) &&& ~~~pageCow))
      else
        let nf := frameAlloc m
        if nf.1 = 0 then (false, nf.2)
        else
          let m := nf.2.writePage nf.1 (nf.2.mem oldFrame)
          let pte := m.mem pt j
          let m := m.writeEntry pt j (nf.1 ||| (((pte &&& 0xFFF) ||| pageWritable) &&& ~~~pageCow))
          (true, frameFree m oldFrame)

/-! ## The processor's walk -/

/-- What the entry of one level needs for a user access : it is present, open to user code,
and writable if the access is a store. -/
def accessFlags (write : Bool) : UInt64 :=
  pagePresent ||| pageUser ||| if write then pageWritable else 0

/-- The entry of one level lets a user access through. -/
def Permits (write : Bool) (e : UInt64) : Prop :=
  e &&& accessFlags write = accessFlags write

instance (write : Bool) (e : UInt64) : Decidable (Permits write e) :=
  inferInstanceAs (Decidable (_ = _))

/-- The processor walks the tables for this address. -/
def Canonical (va : UInt64) : Prop :=
  va < 0x800000000000 ∨ va ≥ 0xFFFF800000000000

instance (va : UInt64) : Decidable (Canonical va) :=
  inferInstanceAs (Decidable (_ ∨ _))

/-- The mask of the address in the entry of a 2 MB page. -/
def hugeMask : UInt64 := 0xFFFFFFE00000

/-- The frame that a user access to `va` reaches, `none` if it faults. The kernel makes no
1 GB pages, so the walk takes none. -/
def mmuTranslate (m : PagingState) (cr3 va : UInt64) (write : Bool) : Option UInt64 :=
  let e4 := m.mem cr3 (levelIndex va 39)
  let e3 := m.mem (e4 &&& pageAddrMask) (levelIndex va 30)
  let e2 := m.mem (e3 &&& pageAddrMask) (levelIndex va 21)
  let e1 := m.mem (e2 &&& pageAddrMask) (levelIndex va 12)
  if Canonical va ∧ Permits write e4 ∧ Permits write e3 ∧ e3 &&& pagePs = 0 ∧
      Permits write e2 then
    if e2 &&& pagePs ≠ 0 then some ((e2 &&& hugeMask) ||| (va &&& 0x1FF000))
    else if Permits write e1 then some (e1 &&& pageAddrMask)
    else none
  else none

/-- The user area of an address space : what the PD entries 64 to 511 cover. -/
def InUser (va : UInt64) : Prop :=
  0x08000000 ≤ va ∧ va < 0x40000000

instance (va : UInt64) : Decidable (InUser va) :=
  inferInstanceAs (Decidable (_ ∧ _))

/-- The number of the page of `va`. -/
def pageNumber (va : UInt64) : UInt64 :=
  va >>> 12

/-- The offset of `va` in its page. -/
def pageOffset (va : UInt64) : Fin 4096 :=
  Fin.ofNat 4096 va.toNat

end VernisOS
