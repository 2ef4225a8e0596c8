import VernisOS.ForkRefinement
import VernisOS.PagingFresh

/-!
# What a loader leaves in memory

`elf_exec` and `sys_execve` fill a new frame for every page of every segment, so that a page
which two segments share holds the bytes of the later one only. Which bytes of an executable
stand in memory after a load that succeeds follows from the program headers alone.
-/

namespace VernisOS

/-! ## Bytes of a page -/

namespace Page

theorem toNat_shiftOf (b : Fin 4096) : (shiftOf b).toNat = 8 * (b.val % 8) := by
  unfold shiftOf
  rw [Nat.toUInt64_eq, UInt64.toNat_ofNat']
  omega

/-- The bits of a byte of a page. -/
theorem testBit_byte (p : Page) (b : Fin 4096) (i : ℕ) :
    (p.byte b).toNat.testBit i
      = (decide (i < 8) && (p (wordOf b)).toNat.testBit (8 * (b.val % 8) + i)) := by
  have hmod : 8 * (b.val % 8) % 64 = 8 * (b.val % 8) := by omega
  unfold byte
  rw [UInt64.toNat_toUInt8, UInt64.toNat_shiftRight, toNat_shiftOf, hmod, Nat.testBit_mod_two_pow,
    Nat.testBit_shiftRight]

/-- The bits of the word that `setByte` writes. -/
theorem testBit_setByte (p : Page) (b : Fin 4096) (v : UInt8) {i : ℕ} (hi : i < 64) :
    (p.setByte b v (wordOf b)).toNat.testBit i =
      if 8 * (b.val % 8) ≤ i ∧ i < 8 * (b.val % 8) + 8 then
        v.toNat.testBit (i - 8 * (b.val % 8))
      else (p (wordOf b)).toNat.testBit i := by
  have hmod : 8 * (b.val % 8) % 64 = 8 * (b.val % 8) := by omega
  have hff : (0xFF : UInt64).toNat = 2 ^ 8 - 1 := rfl
  have hv : ∀ j, 8 ≤ j → v.toNat.testBit j = false := fun j hj =>
    Nat.testBit_lt_two_pow (Nat.lt_of_lt_of_le v.toNat_lt (Nat.pow_le_pow_right (by omega) hj))
  unfold setByte
  rw [Function.update_self, UInt64.toNat_or, UInt64.toNat_and, UInt64.toNat_not,
    UInt64.toNat_shiftLeft, UInt64.toNat_shiftLeft, toNat_shiftOf, hmod, hff, Nat.testBit_or,
    Nat.testBit_and]
  have hmask : UInt64.size - 1 - (2 ^ 8 - 1) <<< (8 * (b.val % 8)) % 2 ^ 64
      = 2 ^ 64 - ((2 ^ 8 - 1) <<< (8 * (b.val % 8)) % 2 ^ 64 + 1) := by
    have hsize : UInt64.size = 2 ^ 64 := rfl
    omega
  rw [hmask, Nat.testBit_two_pow_sub_succ (Nat.mod_lt _ (by omega)), Nat.testBit_mod_two_pow,
    Nat.testBit_mod_two_pow, Nat.testBit_shiftLeft, Nat.testBit_shiftLeft,
    Nat.testBit_two_pow_sub_one]
  by_cases hlo : 8 * (b.val % 8) ≤ i
  · by_cases hhi : i < 8 * (b.val % 8) + 8
    · have hlt : i - 8 * (b.val % 8) < 8 := by omega
      simp [hi, hlo, hhi, hlt]
    · have hge : 8 ≤ i - 8 * (b.val % 8) := by omega
      have hnlt : ¬ i - 8 * (b.val % 8) < 8 := by omega
      simp [hi, hlo, hhi, hnlt, hv _ hge]
  · simp [hi, hlo]

/-- What `setByte` writes is read back. -/
theorem byte_setByte (p : Page) (b : Fin 4096) (v : UInt8) : (p.setByte b v).byte b = v := by
  refine UInt8.toNat_inj.mp (Nat.eq_of_testBit_eq fun i => ?_)
  rw [testBit_byte]
  by_cases hi : i < 8
  · rw [testBit_setByte p b v (by omega), if_pos (by omega)]
    simp [hi]
  · have hlt : v.toNat < 2 ^ i :=
      Nat.lt_of_lt_of_le v.toNat_lt (Nat.pow_le_pow_right (by omega) (Nat.not_lt.mp hi))
    simp [hi, Nat.testBit_lt_two_pow hlt]

/-- The other bytes stay. -/
theorem byte_setByte_ne (p : Page) {b b' : Fin 4096} (h : b' ≠ b) (v : UInt8) :
    (p.setByte b v).byte b' = p.byte b' := by
  refine UInt8.toNat_inj.mp (Nat.eq_of_testBit_eq fun i => ?_)
  rw [testBit_byte, testBit_byte]
  by_cases hi : i < 8
  · by_cases hw : wordOf b' = wordOf b
    · have hne : b'.val ≠ b.val := fun he => h (Fin.ext he)
      have hword : b'.val / 8 = b.val / 8 := congrArg Fin.val hw
      rw [hw, testBit_setByte p b v (by omega), if_neg (by omega)]
    · have hsame : p.setByte b v (wordOf b') = p (wordOf b') := Function.update_of_ne hw _ _
      rw [hsame]
  · simp [hi]
end Page

/-! ## Bytes of a segment -/

theorem toNat_pageOffset (va : UInt64) : (pageOffset va).val = va.toNat % 4096 :=
  rfl

theorem pageDown_add_offset (va : UInt64) :
    Machine.pageDown va + (pageOffset va).val.toUInt64 = va := by
  have hva := va.toNat_lt
  rw [← UInt64.toNat_inj, UInt64.toNat_add, Machine.pageDown, toNat_and_not_low, Nat.toUInt64_eq,
    UInt64.toNat_ofNat', toNat_pageOffset]
  omega

/-- A loop over bytes that writes those of `C`. -/
theorem byte_foldl (C : Fin 4096 → Prop) [DecidablePred C] (g : Fin 4096 → UInt8) (b : Fin 4096)
    (l : List (Fin 4096)) :
    ∀ p : Page, (l.foldl (fun p b => if C b then p.setByte b (g b) else p) p).byte b
      = if b ∈ l ∧ C b then g b else p.byte b := by
  induction l with
  | nil => simp
  | cons b' rest ih =>
    intro p
    rw [List.foldl_cons, ih]
    by_cases hb : b = b'
    · subst hb
      by_cases hC : C b
      · simp [hC, Page.byte_setByte]
      · simp [hC]
    · by_cases hC : C b'
      · simp [hC, hb, Page.byte_setByte_ne p hb]
      · simp [hC, hb]

namespace ElfFile

/-- A byte of the file as far as `kfs_read_file` has read it, 0 beyond. -/
def readByte (file : ElfFile) (off : UInt64) : UInt8 :=
  if off < file.fileSize.toNat.toUInt64 then file.buf off else 0

end ElfFile

namespace Elf64Phdr

/-- The address belongs to the segment. -/
def Covers (ph : Elf64Phdr) (va : UInt64) : Prop :=
  ph.pVaddr ≤ va ∧ va < ph.pVaddr + ph.pMemsz

instance (ph : Elf64Phdr) (va : UInt64) : Decidable (ph.Covers va) :=
  inferInstanceAs (Decidable (_ ∧ _))

/-- The loader maps the page of the address for the segment. -/
def Touches (ph : Elf64Phdr) (va : UInt64) : Prop :=
  Machine.pageDown va ∈ ph.pageVas

instance (ph : Elf64Phdr) (va : UInt64) : Decidable (ph.Touches va) :=
  inferInstanceAs (Decidable (_ ∈ _))

/-- The byte that the segment has at an address : from the file, then 0. -/
def byteAt (ph : Elf64Phdr) (file : ElfFile) (va : UInt64) : UInt8 :=
  if ph.Covers va ∧ va - ph.pVaddr < ph.pFilesz then file.readByte (ph.pOffset + (va - ph.pVaddr))
  else 0

/-- The loader copies a byte of the file to the address. -/
def Copies (ph : Elf64Phdr) (file : ElfFile) (va : UInt64) : Prop :=
  ph.Covers va ∧ va - ph.pVaddr < ph.pFilesz ∧
    ph.pOffset + (va - ph.pVaddr) < file.fileSize.toNat.toUInt64

instance (ph : Elf64Phdr) (file : ElfFile) (va : UInt64) : Decidable (ph.Copies file va) :=
  inferInstanceAs (Decidable (_ ∧ _))

theorem not_covers {ph : Elf64Phdr} {va : UInt64} :
    ¬ ph.Covers va ↔ va < ph.pVaddr ∨ va ≥ ph.pVaddr + ph.pMemsz := by
  rw [Covers, not_and_or, UInt64.not_le, UInt64.not_lt]

theorem fill_eq (ph : Elf64Phdr) (file : ElfFile) (va : UInt64) (frame : Page) :
    ph.fill file va frame = (List.finRange 4096).foldl (fun (p : Page) b =>
      if ph.Copies file (va + b.val.toUInt64) then
        p.setByte b (file.buf (ph.pOffset + (va + b.val.toUInt64 - ph.pVaddr)))
      else p) frame := by
  unfold fill
  refine congrArg (fun f => List.foldl f _ _) (funext fun p => funext fun b => ?_)
  by_cases hcover : ph.Covers (va + b.val.toUInt64)
  · rw [if_neg (mt not_covers.mpr (not_not.mpr hcover))]
    by_cases hcopy : ph.Copies file (va + b.val.toUInt64)
    · rw [if_pos hcopy, if_pos hcopy.2]
    · rw [if_neg hcopy, if_neg fun h => hcopy ⟨hcover, h⟩]
  · have hcopy : ¬ ph.Copies file (va + b.val.toUInt64) := fun h => hcover h.1
    rw [if_pos (not_covers.mp hcover), if_neg hcopy]

/-- The byte loop of the loaders leaves the bytes of the segment. -/
theorem byte_fill (ph : Elf64Phdr) (file : ElfFile) (va : UInt64) :
    (ph.fill file (Machine.pageDown va) fun _ => 0).byte (pageOffset va) = ph.byteAt file va := by
  have hzero : Page.byte (fun _ => 0) (pageOffset va) = 0 := by
    unfold Page.byte
    rw [UInt64.zero_shiftRight]
    rfl
  rw [fill_eq, byte_foldl, hzero]
  simp only [List.mem_finRange, true_and, pageDown_add_offset]
  unfold byteAt ElfFile.readByte
  by_cases hcopy : ph.Copies file va
  · rw [if_pos hcopy, if_pos ⟨hcopy.1, hcopy.2.1⟩, if_pos hcopy.2.2]
  · rw [if_neg hcopy]
    by_cases hfile : ph.Covers va ∧ va - ph.pVaddr < ph.pFilesz
    · rw [if_pos hfile, if_neg fun h => hcopy ⟨hfile.1, hfile.2, h⟩]
    · rw [if_neg hfile]

end Elf64Phdr

/-! ## The last segment of a page -/

namespace Pages

theorem pageAt_set_self (P : Pages) {va va' : UInt64} (h : pageNumber va = pageNumber va')
    (p : Page) : (P.set va p).pageAt va' = some p := by
  obtain ⟨h21, h12⟩ := levelIndex_of_pageNumber h
  unfold pageAt set
  rw [h21, h12, if_pos rfl]

theorem pageAt_set_ne (P : Pages) {va va' : UInt64} (hva : InUser va) (hva' : InUser va')
    (h : pageNumber va ≠ pageNumber va') (p : Page) : (P.set va p).pageAt va' = P.pageAt va' := by
  unfold pageAt set
  refine if_neg fun he => h ?_
  rw [Prod.mk.injEq] at he
  exact hva.pageNumber_eq hva' he.1.symm he.2.symm

/-- Pages that are loaded elsewhere. -/
theorem pageAt_load_other {pages : List (UInt64 × (Page → Page))} {va : UInt64} (hva : InUser va)
    (hin : ∀ q ∈ pages, InUser q.1) (h : ∀ q ∈ pages, pageNumber q.1 ≠ pageNumber va) :
    ∀ P : Pages, (P.load pages).pageAt va = P.pageAt va := by
  induction pages with
  | nil => exact fun P => rfl
  | cons q rest ih =>
    intro P
    have hrest := ih (fun q' hq' => hin q' (List.mem_cons_of_mem q hq'))
      (fun q' hq' => h q' (List.mem_cons_of_mem q hq')) (P.set q.1 (q.2 fun _ => 0))
    exact hrest.trans (P.pageAt_set_ne (hin q List.mem_cons_self) hva (h q List.mem_cons_self) _)

/-- The page that is loaded last at an address stays. -/
theorem pageAt_load_last (init : List (UInt64 × (Page → Page)))
    {rest : List (UInt64 × (Page → Page))} {q : UInt64 × (Page → Page)} {va : UInt64} (hva : InUser va)
    (hin : ∀ q' ∈ rest, InUser q'.1) (hq : pageNumber q.1 = pageNumber va)
    (h : ∀ q' ∈ rest, pageNumber q'.1 ≠ pageNumber va) (P : Pages) :
    (P.load (init ++ q :: rest)).pageAt va = some (q.2 fun _ => 0) := by
  have hsplit : P.load (init ++ q :: rest)
      = Pages.load ((P.load init).set q.1 (q.2 fun _ => 0)) rest := by
    unfold Pages.load
    rw [List.foldl_append]
    rfl
  rw [hsplit, pageAt_load_other hva hin h, pageAt_set_self _ hq]

end Pages

theorem toNat_pageNumber (va : UInt64) : (pageNumber va).toNat = va.toNat / 4096 := by
  have h12 : (12 : UInt64).toNat % 64 = 12 := rfl
  rw [pageNumber, UInt64.toNat_shiftRight, h12, Nat.shiftRight_eq_div_pow]

theorem pageNumber_pageDown (va : UInt64) : pageNumber (Machine.pageDown va) = pageNumber va := by
  rw [← UInt64.toNat_inj, toNat_pageNumber, toNat_pageNumber, Machine.pageDown, toNat_and_not_low]
  omega

/-- The pages of a range, by their numbers. -/
theorem mem_pageRange_iff {start stop va : UInt64} (hstart : start.toNat % 4096 = 0)
    (hstop : stop.toNat % 4096 = 0) :
    Machine.pageDown va ∈ pageRange start stop ↔ start ≤ va ∧ va < stop := by
  have hdown : (Machine.pageDown va).toNat = va.toNat / 4096 * 4096 := by
    rw [Machine.pageDown, toNat_and_not_low]
  constructor
  · intro h
    obtain ⟨hlo, hhi⟩ := mem_pageRange h
    rw [UInt64.le_iff_toNat_le] at hlo ⊢
    rw [UInt64.lt_iff_toNat_lt] at hhi ⊢
    omega
  · rintro ⟨hlo, hhi⟩
    have hlt : start < stop := UInt64.lt_of_le_of_lt hlo hhi
    have h12 : (12 : UInt64).toNat % 64 = 12 := rfl
    rw [UInt64.le_iff_toNat_le] at hlo
    rw [UInt64.lt_iff_toNat_lt] at hhi
    have hk : (va.toNat - start.toNat) / 4096 < ((stop - start) >>> 12).toNat := by
      rw [UInt64.toNat_shiftRight, h12, Nat.shiftRight_eq_div_pow,
        UInt64.toNat_sub_of_le _ _ (UInt64.le_of_lt hlt)]
      omega
    unfold pageRange
    rw [if_pos hlt]
    refine List.mem_map.mpr ⟨_, List.mem_range.mpr hk, ?_⟩
    rw [← UInt64.toNat_inj, (toNat_pageRange hlt hk).1, hdown]
    omega

theorem pageDown_of_mem {start stop va : UInt64} (hstart : start.toNat % 4096 = 0)
    (h : va ∈ pageRange start stop) : Machine.pageDown va = va := by
  unfold pageRange at h
  split at h
  · next hlt =>
    obtain ⟨k, hk, rfl⟩ := List.mem_map.mp h
    rw [← UInt64.toNat_inj, Machine.pageDown, toNat_and_not_low,
      (toNat_pageRange hlt (List.mem_range.mp hk)).1]
    omega
  · exact absurd h List.not_mem_nil

namespace Elf64Phdr

variable {ph : Elf64Phdr} {va : UInt64}

theorem start_aligned (ph : Elf64Phdr) : (ph.pVaddr &&& ~~~0xFFF).toNat % 4096 = 0 := by
  rw [toNat_and_not_low]
  omega

theorem vend_aligned (ph : Elf64Phdr) : ph.vend.toNat % 4096 = 0 := by
  rw [vend, toNat_and_not_low]
  omega

/-- The pages of a segment that does not touch the page of an address are others. -/
theorem pageNumber_ne (h : ¬ ph.Touches va) {va' : UInt64} (hva' : va' ∈ ph.pageVas) :
    pageNumber va' ≠ pageNumber va := by
  intro he
  refine h ?_
  have hdown : Machine.pageDown va = va' := by
    have he' := congrArg UInt64.toNat he
    rw [toNat_pageNumber, toNat_pageNumber] at he'
    rw [← pageDown_of_mem ph.start_aligned hva', ← UInt64.toNat_inj, Machine.pageDown,
      Machine.pageDown, toNat_and_not_low, toNat_and_not_low, he']
  unfold Touches
  rw [hdown]
  exact hva'

end Elf64Phdr

/-- The stack begins above an address. -/
def BelowStack (va : UInt64) : Prop :=
  va.toNat < 0x107FC000

theorem BelowStack.pageNumber_ne {va : UInt64} (h : BelowStack va) {q : UInt64 × (Page → Page)}
    (hq : q ∈ stackPages) : pageNumber q.1 ≠ pageNumber va := by
  have hall : ∀ q ∈ stackPages, 0x107FC <= (pageNumber q.1).toNat := by
    intro q hq
    simp only [stackPages, List.map_cons, List.map_nil, List.mem_cons, List.not_mem_nil,
      or_false] at hq
    rcases hq with rfl | rfl | rfl | rfl <;> decide
  intro he
  have hlo := hall q hq
  rw [he, toNat_pageNumber] at hlo
  unfold BelowStack at h
  omega

/-- The byte of an image at an address is that of the last segment that touches its page. -/
theorem ElfFile.read_load {file : ElfFile} {l r : List Elf64Phdr} {t : Elf64Phdr} {va : UInt64}
    (hsegs : file.segments = l ++ t :: r) (hin : ∀ q ∈ file.imagePages, InUser q.1)
    (hva : InUser va) (hstack : BelowStack va) (ht : t.Touches va)
    (hr : ∀ ph ∈ r, ¬ ph.Touches va) :
    (Pages.empty.load file.imagePages).read va = some (t.byteAt file va) := by
  obtain ⟨x, y, hxy⟩ := List.append_of_mem ht
  have himage : file.imagePages = (l.flatMap (fun ph => ph.pages file) ++
      x.map fun va => (va, t.fill file va)) ++
      (Machine.pageDown va, t.fill file (Machine.pageDown va)) ::
        ((y.map fun va => (va, t.fill file va)) ++
          (r.flatMap (fun ph => ph.pages file) ++ stackPages)) := by
    unfold ElfFile.imagePages
    rw [hsegs, List.flatMap_append, List.flatMap_cons, Elf64Phdr.pages, hxy]
    simp only [List.append_assoc, List.map_append, List.map_cons, List.cons_append]
  have hnodup := nodup_pageRange (t.pVaddr &&& ~~~0xFFF) t.vend
  change (t.pageVas.map pageNumber).Nodup at hnodup
  rw [hxy, List.map_append, List.map_cons] at hnodup
  have hother : ∀ q ∈ (y.map fun va => (va, t.fill file va)) ++
      (r.flatMap (fun ph => ph.pages file) ++ stackPages), pageNumber q.1 ≠ pageNumber va := by
    intro q hq
    rcases List.mem_append.mp hq with hq | hq
    · obtain ⟨va', hva', rfl⟩ := List.mem_map.mp hq
      intro he
      have hcons := (List.nodup_append.mp hnodup).2.1
      rw [List.nodup_cons, pageNumber_pageDown, ← he] at hcons
      exact hcons.1 (List.mem_map_of_mem hva')
    · rcases List.mem_append.mp hq with hq | hq
      · obtain ⟨ph, hph, hq⟩ := List.mem_flatMap.mp hq
        obtain ⟨va', hva', rfl⟩ := List.mem_map.mp hq
        exact Elf64Phdr.pageNumber_ne (hr ph hph) hva'
      · exact hstack.pageNumber_ne hq
  rw [himage] at hin ⊢
  generalize (y.map fun va => (va, t.fill file va)) ++
    (r.flatMap (fun ph => ph.pages file) ++ stackPages) = rest at hin hother ⊢
  generalize l.flatMap (fun ph => ph.pages file) ++ x.map (fun va => (va, t.fill file va)) = init
    at hin ⊢
  have hpage := Pages.pageAt_load_last init
    (q := (Machine.pageDown va, t.fill file (Machine.pageDown va))) hva
    (fun q hq => hin q (List.mem_append_right _ (List.mem_cons_of_mem _ hq)))
    (pageNumber_pageDown va) hother Pages.empty
  unfold Pages.read
  rw [if_pos hva, hpage]
  simp only [Option.map_some, t.byte_fill]

/-! ## Executables -/

/-- A segment of an executable : it has no more bytes in the file than in memory, and lies in
the user area below the stack. -/
structure Elf64Phdr.Ok (ph : Elf64Phdr) : Prop where
  sizes : ph.pFilesz.toNat ≤ ph.pMemsz.toNat
  low : 0x08000000 ≤ ph.pVaddr.toNat
  high : ph.pVaddr.toNat + ph.pMemsz.toNat ≤ 0x107FC000

/-- Two segments have no address in common. -/
def Elf64Phdr.Apart (ph ph' : Elf64Phdr) : Prop :=
  ∀ va, ph.Covers va → ¬ ph'.Covers va

/-- The ELF file with the given bytes. -/
def ElfFile.ofBytes (bytes : List UInt8) : ElfFile where
  fileSize := bytes.length
  buf off := bytes.getD off.toNat 0

/-- The bytes of a valid executable. Its segments may share pages. -/
structure Executable (bytes : List UInt8) : Prop where
  header : (ElfFile.ofBytes bytes).ExecValid
  table : (ElfFile.ofBytes bytes).ePhoff.toNat + 56 * (ElfFile.ofBytes bytes).ePhnum.toNat
    ≤ bytes.length
  size : bytes.length < 2 ^ 63
  segment : ∀ ph ∈ (ElfFile.ofBytes bytes).segments, ph.Ok
  offset : ∀ ph ∈ (ElfFile.ofBytes bytes).segments,
    ph.pOffset.toNat + ph.pFilesz.toNat ≤ bytes.length
  apart : (ElfFile.ofBytes bytes).segments.Pairwise Elf64Phdr.Apart

/-- The byte `k` of a segment, as the file has it. -/
def Elf64Phdr.fileByte (ph : Elf64Phdr) (bytes : List UInt8) (k : ℕ) : UInt8 :=
  bytes.getD (ph.pOffset.toNat + k) 0

/-- The address of the byte `k` of a segment. -/
def Elf64Phdr.addr (ph : Elf64Phdr) (k : ℕ) : UInt64 :=
  ph.pVaddr + UInt64.ofNat k

/-- When the loaders bring an executable into memory : a byte in a page of a later segment is
0, and any other one has been read into the buffer. -/
structure ElfFile.Fits (file : ElfFile) (bytes : List UInt8) : Prop where
  shared : ∀ l ph r, file.segments = l ++ ph :: r → ∀ k < ph.pFilesz.toNat,
    (∃ t ∈ r, t.Touches (ph.addr k)) → ph.fileByte bytes k = 0
  read : ∀ l ph r, file.segments = l ++ ph :: r → ∀ k < ph.pFilesz.toNat,
    (∀ t ∈ r, ¬ t.Touches (ph.addr k)) →
      file.readByte (ph.pOffset + UInt64.ofNat k) = ph.fileByte bytes k

namespace Elf64Phdr

variable {ph : Elf64Phdr} {va : UInt64} {k : ℕ}

theorem Ok.toNat_addr (h : ph.Ok) (hk : k < ph.pMemsz.toNat) :
    (ph.addr k).toNat = ph.pVaddr.toNat + k := by
  have hhigh := h.high
  rw [addr, UInt64.toNat_add, UInt64.toNat_ofNat']
  omega

theorem Ok.toNat_end (h : ph.Ok) :
    (ph.pVaddr + ph.pMemsz).toNat = ph.pVaddr.toNat + ph.pMemsz.toNat := by
  have hhigh := h.high
  rw [UInt64.toNat_add]
  omega

theorem Ok.toNat_vend (h : ph.Ok) :
    ph.vend.toNat = (ph.pVaddr.toNat + ph.pMemsz.toNat + 4095) / 4096 * 4096 := by
  have hhigh := h.high
  have hfff : (0xFFF : UInt64).toNat = 4095 := rfl
  rw [vend, toNat_and_not_low, UInt64.toNat_add, h.toNat_end, hfff]
  omega

theorem Ok.covers_addr (h : ph.Ok) (hk : k < ph.pMemsz.toNat) : ph.Covers (ph.addr k) := by
  unfold Covers
  rw [UInt64.le_iff_toNat_le, UInt64.lt_iff_toNat_lt, h.toNat_addr hk, h.toNat_end]
  omega

/-- A segment touches the pages of its own addresses. -/
theorem Ok.touches (h : ph.Ok) (hva : ph.Covers va) : ph.Touches va := by
  obtain ⟨hlo, hhi⟩ := hva
  rw [UInt64.le_iff_toNat_le] at hlo
  rw [UInt64.lt_iff_toNat_lt, h.toNat_end] at hhi
  refine (mem_pageRange_iff ph.start_aligned ph.vend_aligned).mpr ?_
  rw [UInt64.le_iff_toNat_le, UInt64.lt_iff_toNat_lt, toNat_and_not_low, h.toNat_vend]
  omega

/-- The pages of a segment are in the user area. -/
theorem Ok.inUser (h : ph.Ok) (hva : va ∈ ph.pageVas) : InUser va := by
  obtain ⟨hlo, hhi⟩ := mem_pageRange hva
  have hlow := h.low
  have hhigh := h.high
  have h1 : (0x08000000 : UInt64).toNat = 0x08000000 := rfl
  have h2 : (0x40000000 : UInt64).toNat = 0x40000000 := rfl
  rw [UInt64.le_iff_toNat_le, toNat_and_not_low] at hlo
  rw [UInt64.lt_iff_toNat_lt, h.toNat_vend] at hhi
  unfold InUser
  rw [UInt64.le_iff_toNat_le, UInt64.lt_iff_toNat_lt, h1, h2]
  omega

/-- The addresses of a segment are in the user area, below the stack. -/
theorem Ok.below (h : ph.Ok) (hk : k < ph.pMemsz.toNat) :
    InUser (ph.addr k) ∧ BelowStack (ph.addr k) := by
  have hlow := h.low
  have hhigh := h.high
  have h1 : (0x08000000 : UInt64).toNat = 0x08000000 := rfl
  have h2 : (0x40000000 : UInt64).toNat = 0x40000000 := rfl
  unfold InUser BelowStack
  rw [UInt64.le_iff_toNat_le, UInt64.lt_iff_toNat_lt, h.toNat_addr hk, h1, h2]
  omega

/-- The byte that a segment has at one of its addresses. -/
theorem Ok.byteAt_addr (h : ph.Ok) (file : ElfFile) (hk : k < ph.pMemsz.toNat) :
    ph.byteAt file (ph.addr k) =
      if k < ph.pFilesz.toNat then file.readByte (ph.pOffset + UInt64.ofNat k) else 0 := by
  have hoff : ph.addr k - ph.pVaddr = UInt64.ofNat k := by
    unfold addr
    rw [UInt64.add_comm, UInt64.add_sub_cancel]
  have hlt : k < 2 ^ 64 := Nat.lt_trans hk ph.pMemsz.toNat_lt
  have hiff : UInt64.ofNat k < ph.pFilesz ↔ k < ph.pFilesz.toNat := by
    rw [UInt64.lt_iff_toNat_lt, UInt64.toNat_ofNat', Nat.mod_eq_of_lt hlt]
  unfold byteAt
  rw [hoff]
  by_cases hfile : k < ph.pFilesz.toNat
  · rw [if_pos ⟨h.covers_addr hk, hiff.mpr hfile⟩, if_pos hfile]
  · rw [if_neg fun hall => hfile (hiff.mp hall.2), if_neg hfile]

end Elf64Phdr

/-- The last segment of a list that touches the page of an address. -/
theorem exists_last_touches {r : List Elf64Phdr} {va : UInt64} (h : ∃ t ∈ r, t.Touches va) :
    ∃ l t r', r = l ++ t :: r' ∧ t.Touches va ∧ ∀ ph ∈ r', ¬ ph.Touches va := by
  induction r with
  | nil => simp at h
  | cons ph rest ih =>
    by_cases hrest : ∃ t ∈ rest, t.Touches va
    · obtain ⟨l, t, r', rfl, ht, hr'⟩ := ih hrest
      exact ⟨ph :: l, t, r', rfl, ht, hr'⟩
    · obtain ⟨t, ht, htouch⟩ := h
      rcases List.mem_cons.mp ht with rfl | ht
      · exact ⟨[], t, rest, rfl, htouch, fun ph hph hp => hrest ⟨ph, hph, hp⟩⟩
      · exact absurd ⟨t, ht, htouch⟩ hrest

section Loaded

variable {file : ElfFile} {bytes : List UInt8}

theorem Executable.inUser (h : Executable bytes)
    (hsegs : file.segments = (ElfFile.ofBytes bytes).segments) :
    ∀ q ∈ file.imagePages, InUser q.1 := by
  intro q hq
  rcases List.mem_append.mp hq with hq | hq
  · obtain ⟨ph, hph, hq⟩ := List.mem_flatMap.mp hq
    obtain ⟨va, hva, rfl⟩ := List.mem_map.mp hq
    exact (h.segment ph (hsegs ▸ hph)).inUser hva
  · have hstack : ∀ q ∈ stackPages, InUser q.1 := inUser_of_all (by decide)
    exact hstack q hq

/-- A byte of a segment after the load : 0 if a later segment touches its page, else what was
read from the file, else 0. -/
theorem Executable.read_load (h : Executable bytes)
    (hsegs : file.segments = (ElfFile.ofBytes bytes).segments) {l r : List Elf64Phdr}
    {ph : Elf64Phdr} (hsplit : file.segments = l ++ ph :: r) {k : ℕ} (hk : k < ph.pMemsz.toNat) :
    ((∃ t ∈ r, t.Touches (ph.addr k)) →
      (Pages.empty.load file.imagePages).read (ph.addr k) = some 0) ∧
    ((∀ t ∈ r, ¬ t.Touches (ph.addr k)) →
      (Pages.empty.load file.imagePages).read (ph.addr k) = some
        (if k < ph.pFilesz.toNat then file.readByte (ph.pOffset + UInt64.ofNat k) else 0)) := by
  have hmem : ∀ t ∈ l ++ ph :: r, t.Ok := fun t ht =>
    h.segment t (hsegs ▸ hsplit ▸ ht)
  have hph := hmem ph (by simp)
  obtain ⟨hva, hstack⟩ := hph.below hk
  have hcover := hph.covers_addr hk
  have hin := h.inUser hsegs
  refine ⟨fun htouch => ?_, fun hnone => ?_⟩
  · obtain ⟨r₁, t, r₂, rfl, ht, hlast⟩ := exists_last_touches htouch
    have hsplit' : file.segments = (l ++ ph :: r₁) ++ t :: r₂ := by
      rw [hsplit, List.append_assoc]
      rfl
    have hapart := h.apart
    rw [← hsegs, hsplit', List.pairwise_append] at hapart
    have hnot : ¬ t.Covers (ph.addr k) :=
      hapart.2.2 ph (by simp) t List.mem_cons_self _ hcover
    rw [ElfFile.read_load hsplit' hin hva hstack ht hlast, Elf64Phdr.byteAt,
      if_neg fun hall => hnot hall.1]
  · rw [ElfFile.read_load hsplit hin hva hstack (hph.touches hcover) hnone,
      hph.byteAt_addr file hk]

/-- An image is in memory as the file has it exactly if it fits. -/
theorem Executable.loaded_iff (h : Executable bytes)
    (hsegs : file.segments = (ElfFile.ofBytes bytes).segments) :
    (∀ ph ∈ (ElfFile.ofBytes bytes).segments, ∀ k < ph.pMemsz.toNat,
      (Pages.empty.load file.imagePages).read (ph.addr k) = some
        (if k < ph.pFilesz.toNat then ph.fileByte bytes k else 0)) ↔ file.Fits bytes := by
  rw [← hsegs]
  constructor
  · intro hall
    have hok : ∀ {l ph r}, file.segments = l ++ ph :: r → ph ∈ file.segments ∧ ph.Ok := by
      intro l ph r hsplit
      have hph : ph ∈ file.segments := by
        rw [hsplit]
        simp
      exact ⟨hph, h.segment ph (hsegs ▸ hph)⟩
    refine ⟨fun l ph r hsplit k hk htouch => ?_, fun l ph r hsplit k hk hnone => ?_⟩
    · obtain ⟨hph, hph'⟩ := hok hsplit
      have hk' := Nat.lt_of_lt_of_le hk hph'.sizes
      have heq := hall ph hph k hk'
      rw [(h.read_load hsegs hsplit hk').1 htouch, if_pos hk] at heq
      exact (Option.some.inj heq).symm
    · obtain ⟨hph, hph'⟩ := hok hsplit
      have hk' := Nat.lt_of_lt_of_le hk hph'.sizes
      have heq := hall ph hph k hk'
      rw [(h.read_load hsegs hsplit hk').2 hnone, if_pos hk, if_pos hk] at heq
      exact Option.some.inj heq
  · intro hfits ph hph k hk
    obtain ⟨l, r, hsplit⟩ := List.append_of_mem hph
    by_cases htouch : ∃ t ∈ r, t.Touches (ph.addr k)
    · rw [(h.read_load hsegs hsplit hk).1 htouch]
      by_cases hfile : k < ph.pFilesz.toNat
      · rw [if_pos hfile, hfits.shared l ph r hsplit k hfile htouch]
      · rw [if_neg hfile]
    · have hnone : ∀ t ∈ r, ¬ t.Touches (ph.addr k) := fun t ht htt => htouch ⟨t, ht, htt⟩
      rw [(h.read_load hsegs hsplit hk).2 hnone]
      by_cases hfile : k < ph.pFilesz.toNat
      · rw [if_pos hfile, if_pos hfile, hfits.read l ph r hsplit k hfile hnone]
      · rw [if_neg hfile, if_neg hfile]

end Loaded

/-! ## The two loaders -/

/-- Taking down a space does not write to memory. -/
theorem pagingFreeUserSpace_mem (m : PagingState) (pml4 : UInt64) :
    (pagingFreeUserSpace m pml4).mem = m.mem := by
  have hfold : ∀ {ι : Type} {f : PagingState → ι → PagingState}, (∀ m k, (f m k).mem = m.mem) →
      ∀ (l : List ι) (m : PagingState), (l.foldl f m).mem = m.mem := by
    intro ι f hf l
    induction l with
    | nil => exact fun m => rfl
    | cons k rest ih => exact fun m => (ih (f m k)).trans (hf m k)
  have hpage : ∀ pt m j, (freeUserPage pt m j).mem = m.mem := by
    intro pt m j
    unfold freeUserPage
    split
    · exact frameFree_mem _ _
    · rfl
  have htable : ∀ pd m i, (freeUserTable pd m i).mem = m.mem := by
    intro pd m i
    unfold freeUserTable
    split
    · exact (frameFree_mem _ _).trans (hfold (hpage _) _ m)
    · rfl
  unfold pagingFreeUserSpace
  split
  · rfl
  · simp only [frameFree_mem]
    exact hfold (htable _) _ m

theorem mmuTranslate_congr {m m' : PagingState} (h : m'.mem = m.mem) (cr3 va : UInt64)
    (write : Bool) : mmuTranslate m' cr3 va write = mmuTranslate m cr3 va write := by
  unfold mmuTranslate
  rw [h]

namespace Machine

variable {m : Machine} {file : ElfFile}

/-- The bytes that a task reads are those of the space that was built for it. -/
theorem userByte_of_built {pg : PagingState} {root : UInt64} {P : Pages} {i : Fin 8}
    (h : Built pg root P) (hroot : m.root i = root) (hmem : m.paging.mem = pg.mem) {va : UInt64}
    (hva : InUser va) : m.userByte i va = P.read va := by
  have htr := h.translate hva
  unfold userByte Pages.read
  rw [hroot, mmuTranslate_congr hmem, hmem, if_pos hva, ← htr, Option.map_map]
  rfl

/-- `elf_exec` when it succeeds : the slot, and the memory of the task. -/
theorem elfExec_loaded (h : FreeOk m.paging) (hin : ∀ q ∈ file.imagePages, InUser q.1)
    {ticks : UInt16} {slot : Fin 8} (hdone : (m.elfExec file ticks).1 = some slot) :
    ((m.elfExec file ticks).2.tasks slot).brk = 0 ∧
      ((m.elfExec file ticks).2.tasks slot).vmaList = vmaInit (m.tasks slot).vmaList ∧
      ((m.elfExec file ticks).2.tasks slot).mmapNext = 0 ∧
      ∀ va, InUser va → (m.elfExec file ticks).2.userByte slot va
        = (Pages.empty.load file.imagePages).read va := by
  unfold elfExec at hdone ⊢
  by_cases hvalid : file.ExecValid
  · simp only [if_pos hvalid] at hdone ⊢
    cases hslot : m.freeSlot with
    | none => simp [hslot] at hdone
    | some slot' =>
      simp only [hslot, setTask_paging, setSched_paging] at hdone ⊢
      by_cases hzero : (pagingCreateAddressSpace m.paging m.paging.kernelPml4).1 = 0
      · simp [hzero] at hdone
      · simp only [if_neg hzero] at hdone ⊢
        have hbuilt := h.newSpace hzero
        generalize pagingCreateAddressSpace m.paging m.paging.kernelPml4 = r at *
        by_cases himage : (loadImage file r.1 r.2 0).1 = true
        · simp only [if_pos himage, Option.some.injEq] at hdone ⊢
          subst hdone
          have hload := hbuilt.loadImage hin himage
          refine ⟨by simp [newSlot], by simp [newSlot], by simp [newSlot], fun va hva => ?_⟩
          refine userByte_of_built hload ?_ rfl hva
          unfold root
          simp only [setTask_tasks, Function.update_self]
          exact if_neg hzero
        · simp [himage] at hdone
  · simp [hvalid] at hdone

/-- `sys_execve` when it succeeds : what changes in the slot, and the memory of the task. -/
theorem sysExecve_loaded (h : FreeOk m.paging) (hin : ∀ q ∈ file.imagePages, InUser q.1)
    (hdone : (m.sysExecve file).1 = true) :
    (∃ pml4 pg, ((m.sysExecve file).2.tasks m.current)
      = { m.cur with brk := (loadImage file pml4 pg m.cur.brk).2.2, pml4 := pml4 } ∧
        (loadImage file pml4 pg m.cur.brk).1 = true) ∧
      ∀ va, InUser va → (m.sysExecve file).2.userByte m.current va
        = (Pages.empty.load file.imagePages).read va := by
  unfold sysExecve at hdone ⊢
  by_cases hvalid : file.ExecveValid
  · simp only [if_pos hvalid] at hdone ⊢
    by_cases hzero : (pagingCreateAddressSpace m.paging m.paging.kernelPml4).1 = 0
    · simp [hzero] at hdone
    · simp only [if_neg hzero] at hdone ⊢
      have hbuilt := h.newSpace hzero
      generalize pagingCreateAddressSpace m.paging m.paging.kernelPml4 = r at *
      by_cases himage : (loadImage file r.1 r.2 m.cur.brk).1 = true
      · simp only [if_pos himage] at hdone ⊢
        have hload := hbuilt.loadImage hin himage
        refine ⟨⟨r.1, r.2, by simp, himage⟩, fun va hva => ?_⟩
        refine userByte_of_built hload ?_ ?_ hva
        · unfold root
          simp only [release_tasks, taskSwitchCr3_tasks, setCur_tasks, setPaging_current,
            Function.update_self]
          exact if_neg hzero
        · rw [release_paging]
          split
          · exact pagingFreeUserSpace_mem _ _
          · rfl
      · simp [himage] at hdone
  · simp [hvalid] at hdone

/-- The segments of an executable are in the memory of a task as the file has them. -/
def HoldsImage (m : Machine) (i : Fin 8) (bytes : List UInt8) : Prop :=
  ∀ ph ∈ (ElfFile.ofBytes bytes).segments, ∀ k < ph.pMemsz.toNat,
    m.userByte i (ph.addr k) = some (if k < ph.pFilesz.toNat then ph.fileByte bytes k else 0)

theorem holdsImage_iff {bytes : List UInt8} {i : Fin 8} (h : Executable bytes)
    (hsegs : file.segments = (ElfFile.ofBytes bytes).segments)
    (hload : ∀ va, InUser va → m.userByte i va = (Pages.empty.load file.imagePages).read va) :
    m.HoldsImage i bytes ↔ file.Fits bytes := by
  rw [← h.loaded_iff hsegs]
  refine forall₂_congr fun ph hph => forall₂_congr fun k hk => ?_
  rw [hload _ ((h.segment ph hph).below hk).1]

end Machine

/-- Whenever `elf_exec` or `sys_execve` loads a valid executable whose headers it has read, the
segments are in memory as the file has them exactly if the image fits. -/
theorem elf_image_correct (m : Machine) (h : FreeOk m.paging) {bytes : List UInt8}
    (hbytes : Executable bytes) {file : ElfFile}
    (hsegs : file.segments = (ElfFile.ofBytes bytes).segments) :
    (∀ ticks slot, (m.elfExec file ticks).1 = some slot →
      ((m.elfExec file ticks).2.HoldsImage slot bytes ↔ file.Fits bytes)) ∧
    ((m.sysExecve file).1 = true →
      ((m.sysExecve file).2.HoldsImage m.current bytes ↔ file.Fits bytes)) := by
  have hin := hbytes.inUser hsegs
  refine ⟨fun ticks slot hdone => ?_, fun hdone => ?_⟩
  · exact Machine.holdsImage_iff hbytes hsegs (Machine.elfExec_loaded h hin hdone).2.2.2
  · exact Machine.holdsImage_iff hbytes hsegs (Machine.sysExecve_loaded h hin hdone).2

/-! ## Programs after boot -/

/-- A machine with the invariant of the page tables has a sound free list. -/
theorem Machine.Ok.freeOk {b : PagingState} {m : Machine} {R : Fin 8 → Pages} (h : m.Ok b R) :
    FreeOk m.paging := by
  obtain ⟨G, hinv, _⟩ := h.sim
  exact ⟨hinv.accounts.pool, hinv.accounts.ledger.free_nodup, hinv.accounts.ledger.free_known⟩

/-- `elf_exec` succeeds as long as frames last. -/
theorem Machine.elfExec_done {m : Machine} {file : ElfFile} (h : FreeOk m.paging)
    (hvalid : file.ExecValid) (hin : ∀ q ∈ file.imagePages, InUser q.1) {slot : Fin 8}
    (hslot : m.freeSlot = some slot) (hout : m.paging.outOfFrames = false) (ticks : UInt16)
    (hleft : 3 + 4 * file.imagePages.length ≤ framesLeft m.paging) :
    (m.elfExec file ticks).1 = some slot := by
  have hok := ((m.elfExec_spends file ticks).left h.pool hleft).1.trans hout
  unfold elfExec at hok ⊢
  simp only [if_pos hvalid, hslot, setTask_paging, setSched_paging] at hok ⊢
  by_cases hzero : (pagingCreateAddressSpace m.paging m.paging.kernelPml4).1 = 0
  · simp only [if_pos hzero] at hok
    exact absurd hzero (h.newSpace_done hok)
  · simp only [if_neg hzero] at hok ⊢
    have hbuilt := h.newSpace hzero
    generalize pagingCreateAddressSpace m.paging m.paging.kernelPml4 = r at *
    have hload : (loadImage file r.1 r.2 0).2.1.outOfFrames = false := by
      split at hok <;> exact hok
    rw [if_pos (hbuilt.loadImage_done hin hload)]

/-- `sys_execve` succeeds as long as frames last. -/
theorem Machine.sysExecve_done {m : Machine} {file : ElfFile} (h : FreeOk m.paging)
    (hvalid : file.ExecveValid) (hin : ∀ q ∈ file.imagePages, InUser q.1)
    (hout : m.paging.outOfFrames = false)
    (hleft : 3 + 4 * file.imagePages.length ≤ framesLeft m.paging) :
    (m.sysExecve file).1 = true := by
  have hok := ((m.sysExecve_spends file).left h.pool hleft).1.trans hout
  unfold sysExecve at hok ⊢
  simp only [if_pos hvalid] at hok ⊢
  by_cases hzero : (pagingCreateAddressSpace m.paging m.paging.kernelPml4).1 = 0
  · simp only [if_pos hzero] at hok
    exact absurd hzero (h.newSpace_done hok)
  · simp only [if_neg hzero] at hok ⊢
    have hbuilt := h.newSpace hzero
    generalize pagingCreateAddressSpace m.paging m.paging.kernelPml4 = r at *
    have hload : (loadImage file r.1 r.2 m.cur.brk).2.1.outOfFrames = false := by
      split at hok
      · rwa [release_outOfFrames] at hok
      · exact hok
    rw [if_pos (hbuilt.loadImage_done hin hload)]

/-- The program header of a segment of one byte of text, the first one of the file. -/
def oneByteHeader (va : List UInt8) : List UInt8 :=
  [1, 0, 0, 0, 5, 0, 0, 0] ++ List.replicate 8 0 ++ va ++ List.replicate 8 0 ++
    [1, 0, 0, 0, 0, 0, 0, 0] ++ [1, 0, 0, 0, 0, 0, 0, 0] ++ List.replicate 8 0

/-- A program with one segment. -/
def textBytes : List UInt8 :=
  elfHeader ++ oneByteHeader [0, 0, 0, 0x10, 0, 0, 0, 0]

/-- A program with two segments, of one byte each, next to each other. -/
def sharedBytes : List UInt8 :=
  elfHeader.set 56 2 ++ oneByteHeader [0, 0, 0, 0x10, 0, 0, 0, 0] ++
    oneByteHeader [1, 0, 0, 0x10, 0, 0, 0, 0]

theorem textBytes_segments : (ElfFile.ofBytes textBytes).segments = [⟨1, 0, 0x10000000, 1, 1⟩] :=
  rfl

theorem sharedBytes_segments : (ElfFile.ofBytes sharedBytes).segments
    = [⟨1, 0, 0x10000000, 1, 1⟩, ⟨1, 0, 0x10000001, 1, 1⟩] :=
  rfl

theorem textBytes_executable : Executable textBytes := by
  refine ⟨by decide +kernel, by decide +kernel, by decide +kernel, ?_, ?_, ?_⟩ <;> rw [textBytes_segments]
  · intro ph hph
    obtain rfl := List.mem_singleton.mp hph
    exact ⟨by decide, by decide, by decide⟩
  · intro ph hph
    obtain rfl := List.mem_singleton.mp hph
    decide
  · exact List.pairwise_singleton _ _

theorem sharedBytes_executable : Executable sharedBytes := by
  refine ⟨by decide +kernel, by decide +kernel, by decide +kernel, ?_, ?_, ?_⟩ <;> rw [sharedBytes_segments]
  · intro ph hph
    rcases List.mem_pair.mp hph with rfl | rfl <;> exact ⟨by decide, by decide, by decide⟩
  · intro ph hph
    rcases List.mem_pair.mp hph with rfl | rfl <;> decide +kernel
  · refine List.pairwise_pair.mpr fun va h h' => ?_
    exact absurd (UInt64.lt_of_lt_of_le h.2 h'.1) (UInt64.lt_irrefl _)

theorem bootMachine_freeSlot : bootMachine.freeSlot = some 3 := by
  decide

theorem bootMachine_free : FreeOk bootMachine.paging :=
  bootMachine_booted.ok.freeOk

/-- A program with one segment, started after boot, is in memory as its file has it. -/
theorem elf_image_correct_text :
    (bootMachine.elfExec (ElfFile.ofBytes textBytes) 4).2.HoldsImage 3 textBytes := by
  have hexec := textBytes_executable
  have hdone := Machine.elfExec_done bootMachine_free hexec.header (hexec.inUser rfl)
    bootMachine_freeSlot rfl 4 (by decide)
  have hone : ∀ {l ph r}, (ElfFile.ofBytes textBytes).segments = l ++ ph :: r →
      ph = ⟨1, 0, 0x10000000, 1, 1⟩ ∧ r = [] := by
    intro l ph r hsplit
    rw [textBytes_segments] at hsplit
    cases l with
    | nil =>
      obtain ⟨hph, hr⟩ := List.cons.inj hsplit
      exact ⟨hph.symm, hr.symm⟩
    | cons x l => exact absurd (List.cons.inj hsplit).2 (by simp)
  refine ((elf_image_correct bootMachine bootMachine_free hexec rfl).1 4 3
    hdone).mpr ⟨fun l ph r hsplit k hk htouch => ?_, fun l ph r hsplit k hk _ => ?_⟩
  · obtain ⟨rfl, rfl⟩ := hone hsplit
    obtain ⟨t, ht, _⟩ := htouch
    exact absurd ht List.not_mem_nil
  · obtain ⟨rfl, rfl⟩ := hone hsplit
    obtain rfl : k = 0 := Nat.lt_one_iff.mp hk
    decide +kernel

/-- Of two segments in one page the first is lost. -/
theorem not_elf_image_correct :
    Executable sharedBytes ∧
      (bootMachine.elfExec (ElfFile.ofBytes sharedBytes) 4).1 = some 3 ∧
      ¬ (bootMachine.elfExec (ElfFile.ofBytes sharedBytes) 4).2.HoldsImage 3 sharedBytes := by
  have hexec := sharedBytes_executable
  have hdone := Machine.elfExec_done bootMachine_free hexec.header (hexec.inUser rfl)
    bootMachine_freeSlot rfl 4 (by decide)
  have hload := (Machine.elfExec_loaded bootMachine_free (hexec.inUser rfl) hdone).2.2.2
  refine ⟨hexec, hdone, fun hholds => ?_⟩
  have hfits := (Machine.holdsImage_iff hexec rfl hload).mp hholds
  have hbyte := hfits.shared [] _ _ sharedBytes_segments 0 (by decide)
    ⟨_, List.mem_singleton_self _, by decide⟩
  exact absurd hbyte (by decide)

end VernisOS