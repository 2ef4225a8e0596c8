import Mathlib.Data.List.TakeWhile
import VernisOS.VernisFs

/-!
# What the VernisFS operations do

One lemma per function of `VernisFs` : what a name in the table is, which calls a loop of
writes makes and what it leaves alone, and the case analysis of `vfsWriteFile` and
`vfsAppendFile` that every invariant of the volume is proved from.
-/

open Bytes Slots

namespace VernisOS

/-! ## Strings -/

theorem vfsStrcmp_eq_zero {a b : List UInt8} (ha : 0 ∉ a) (hb : 0 ∉ b) :
    vfsStrcmp a b = 0 ↔ a = b := by
  fun_induction vfsStrcmp a b with
  | case1 => simp
  | case2 b bs =>
    have hb0 : b.toNat ≠ 0 := fun h => hb (List.mem_cons.mpr (Or.inl (UInt8.toNat_inj.mp h).symm))
    simp
    omega
  | case3 a as =>
    have ha0 : a.toNat ≠ 0 := fun h => ha (List.mem_cons.mpr (Or.inl (UInt8.toNat_inj.mp h).symm))
    simp
    omega
  | case4 a as bs ih =>
    rw [ih (fun h => ha (List.mem_cons_of_mem _ h)) fun h => hb (List.mem_cons_of_mem _ h)]
    simp
  | case5 a as b bs hne =>
    have hne' : a.toNat ≠ b.toNat := fun h => hne (UInt8.toNat_inj.mp h)
    simp only [List.cons.injEq, hne, false_and, iff_false]
    omega

theorem takeWhile_vfsStrncpy (n : ℕ) {src : List UInt8} (hsrc : 0 ∉ src) :
    (vfsStrncpy n src).takeWhile (· ≠ 0) = src.take (n - 1) := by
  fun_induction vfsStrncpy n src with
  | case1 => rfl
  | case2 => simp
  | case3 n ih => simp
  | case4 n c cs ih =>
    have hc : c ≠ 0 := fun h => hsrc (List.mem_cons.mpr (Or.inl h.symm))
    have hcs := ih fun h => hsrc (List.mem_cons_of_mem _ h)
    simpa [hc] using hcs

/-- A name in the table is the path it was created with, cut to 31 characters. -/
theorem VfsFilename.str_ofPath (path : CStr) :
    (VfsFilename.ofPath path).str = path.chars.take 31 :=
  takeWhile_vfsStrncpy _ path.noNul

theorem VfsFilename.zero_notMem_str (f : VfsFilename) : 0 ∉ f.str := by
  intro h
  simpa using List.mem_takeWhile_imp h

/-! ## Lookup -/

/-- Entry `i` is in use. -/
def Occupied (t : Fin vfsMaxFiles → VfsFileEntry) (i : Fin vfsMaxFiles) : Prop :=
  (t i).type ≠ vfsTypeEmpty

instance (t : Fin vfsMaxFiles → VfsFileEntry) (i : Fin vfsMaxFiles) : Decidable (Occupied t i) :=
  inferInstanceAs (Decidable (_ ≠ _))

/-- Entry `i` is in use and has the name `path`. -/
def Named (t : Fin vfsMaxFiles → VfsFileEntry) (i : Fin vfsMaxFiles) (path : List UInt8) : Prop :=
  Occupied t i ∧ (t i).filename.str = path

namespace VernisFs

theorem findSlot_eq_some {t : Fin vfsMaxFiles → VfsFileEntry} {p : CStr} {i : Fin vfsMaxFiles} :
    findSlot t p = some i ↔ Named t i p.chars ∧ ∀ j, Named t j p.chars → i ≤ j := by
  have hnamed : ∀ j, ((t j).type != vfsTypeEmpty &&
      vfsStrcmp (t j).filename.str p.chars == 0) = true ↔ Named t j p.chars := by
    intro j
    simp only [Bool.and_eq_true, bne_iff_ne, beq_iff_eq,
      vfsStrcmp_eq_zero (t j).filename.zero_notMem_str p.noNul]
    rfl
  rw [findSlot, first_eq_some]
  simp only [hnamed]

theorem findSlot_eq_none {t : Fin vfsMaxFiles → VfsFileEntry} {p : CStr} :
    findSlot t p = none ↔ ∀ i, ¬ Named t i p.chars := by
  constructor
  · intro h i hi
    rw [findSlot, first_none] at h
    have hf := h i
    rw [(vfsStrcmp_eq_zero (t i).filename.zero_notMem_str p.noNul).mpr hi.2] at hf
    simp only [beq_self_eq_true, Bool.and_true, bne_eq_false_iff_eq] at hf
    exact hi.1 hf
  · intro h
    cases hs : findSlot t p with
    | none => rfl
    | some i => exact absurd (findSlot_eq_some.mp hs).1 (h i)

theorem findSlot_congr {t t' : Fin vfsMaxFiles → VfsFileEntry} {p : CStr}
    (h : ∀ j, Named t' j p.chars ↔ Named t j p.chars) : findSlot t' p = findSlot t p := by
  cases hs : findSlot t p with
  | none => exact findSlot_eq_none.mpr fun i hi => findSlot_eq_none.mp hs i ((h i).mp hi)
  | some i =>
    obtain ⟨hi, hmin⟩ := findSlot_eq_some.mp hs
    exact findSlot_eq_some.mpr ⟨(h i).mpr hi, fun j hj => hmin j ((h j).mp hj)⟩

theorem emptySlot_some {t : Fin vfsMaxFiles → VfsFileEntry} {i : Fin vfsMaxFiles}
    (h : emptySlot t = some i) : ¬ Occupied t i := by
  have := first_some h
  simpa [Occupied] using this

/-! ## Loops of writes -/

/-- Sectors that hold `len` bytes. -/
def sectorCount (len : UInt32) : ℕ :=
  (len.toNat + 511) / 512

theorem sectorsFor_toNat {len : UInt32} (h : len.toNat + 511 < 2 ^ 32) :
    (sectorsFor len).toNat = sectorCount len := by
  have h511 : (511 : UInt32).toNat = 511 := rfl
  have h512 : (512 : UInt32).toNat = 512 := rfl
  rw [sectorsFor, UInt32.toNat_div, UInt32.toNat_add, h511, h512, Nat.mod_eq_of_lt h, sectorCount]

theorem sectorsFor_le (len : UInt32) : (sectorsFor len).toNat ≤ sectorCount len := by
  have h511 : (511 : UInt32).toNat = 511 := rfl
  have h512 : (512 : UInt32).toNat = 512 := rfl
  rw [sectorsFor, UInt32.toNat_div, UInt32.toNat_add, h511, h512, sectorCount]
  exact Nat.div_le_div_right (Nat.mod_le _ _)

theorem readSectors_le (size : UInt32) : readSectors size ≤ sectorCount size :=
  (Nat.min_le_left _ _).trans (sectorsFor_le size)

theorem sectorCount_mono {a b : UInt32} (h : a.toNat ≤ b.toNat) :
    sectorCount a ≤ sectorCount b := by
  unfold sectorCount
  omega

/-- The sectors of a request, the last one padded with zeros. -/
def padded (data : ℕ → UInt8) (len : UInt32) (s : ℕ) : Sector :=
  fun j => if s * 512 + j.val < len.toNat then data (s * 512 + j.val) else 0

theorem writeEach_congr {src src' : ℕ → Sector} (abs : UInt32) (n s : ℕ) (b : Backend)
    (h : ∀ k, s ≤ k → k < s + n → src k = src' k) :
    writeEach abs src s n b = writeEach abs src' s n b := by
  induction n generalizing s b with
  | zero => rfl
  | succ n ih =>
    simp only [writeEach, h s le_rfl (by omega)]
    split
    · rfl
    · exact ih (s + 1) _ fun k hk hk' => h k (by omega) (by omega)

theorem writeEach_succ (abs : UInt32) (src : ℕ → Sector) (n s : ℕ) (b : Backend) :
    writeEach abs src s (n + 1) b =
      if (writeEach abs src s n b).1 = true then
        writeEach abs src (s + n) 1 (writeEach abs src s n b).2
      else writeEach abs src s n b := by
  induction n generalizing s b with
  | zero => rfl
  | succ n ih =>
    rw [writeEach]
    generalize hw : b.write (abs + UInt32.ofNat s) 1 (fun _ => src s) = w
    obtain ⟨rc, b'⟩ := w
    have hstep : writeEach abs src s (n + 1) b =
        if rc < 0 then (false, b') else writeEach abs src (s + 1) n b' := by
      rw [writeEach, hw]
    dsimp only
    rw [hstep]
    split
    · simp
    · rw [ih (s + 1) b', Nat.add_right_comm, Nat.add_assoc s n 1]

/-- The loop over the full sectors and the padded rest are one loop. -/
theorem writeSectors_eq (abs : UInt32) (data : ℕ → UInt8) (len : UInt32) (b : Backend) :
    writeSectors abs data len b = writeEach abs (padded data len) 0 (sectorCount len) b := by
  have hfull : writeEach abs (fun s j => data (s * 512 + j.val)) 0 (len.toNat / 512) b =
      writeEach abs (padded data len) 0 (len.toNat / 512) b := by
    refine writeEach_congr abs _ _ b fun k _ hk => funext fun j => ?_
    have hj := j.isLt
    rw [padded, if_pos (by omega)]
  unfold writeSectors
  dsimp only
  rw [hfull]
  by_cases hr : 0 < len.toNat % 512
  · have hcount : sectorCount len = len.toNat / 512 + 1 := by
      unfold sectorCount
      omega
    rw [hcount, writeEach_succ]
    generalize writeEach abs (padded data len) 0 (len.toNat / 512) b = w
    obtain ⟨ok, b'⟩ := w
    cases ok with
    | false => rfl
    | true =>
      have hpad : (fun _ j => if j.val < len.toNat % 512
          then data (len.toNat / 512 * 512 + j.val) else 0 : ℕ → Sector) =
          fun _ => padded data len (len.toNat / 512) := by
        funext _ j
        have hiff : j.val < len.toNat % 512 ↔
            len.toNat / 512 * 512 + j.val < len.toNat := by omega
        simp only [padded, hiff]
      simp only [Bool.not_true, Bool.false_eq_true, if_false, if_pos hr, if_true, hpad, writeEach,
        Nat.zero_add]
      split
      · next hneg => simp [hneg]
      · next hneg => simp [hneg]
  · have hcount : sectorCount len = len.toNat / 512 := by
      unfold sectorCount
      omega
    rw [hcount]
    generalize writeEach abs (padded data len) 0 (len.toNat / 512) b = w
    obtain ⟨ok, b'⟩ := w
    cases ok with
    | false => rfl
    | true => simp [hr]

/-- The loop ends well exactly when none of its calls fails. -/
theorem writeEach_ok (abs : UInt32) (src : ℕ → Sector) (n s : ℕ) (b : Backend) :
    (writeEach abs src s n b).1 = true ↔ ∀ k < n, b.fault (b.calls + k) = none := by
  induction n generalizing s b with
  | zero => simp [writeEach]
  | succ n ih =>
    cases hf : b.fault b.calls with
    | some f =>
      simp only [writeEach, Backend.write_one_fail hf]
      simp only [Int.reduceNeg, Int.reduceLT, if_true, Bool.false_eq_true, false_iff, not_forall]
      exact ⟨0, by omega, by simp [hf]⟩
    | none =>
      simp only [writeEach, Backend.write_one_ok hf]
      rw [if_neg (by decide), ih]
      have hlog : ∀ d, (b.logged (abs + UInt32.ofNat s) 1 d).calls = b.calls + 1 := fun _ => rfl
      have hlogf : ∀ d, (b.logged (abs + UInt32.ofNat s) 1 d).fault = b.fault := fun _ => rfl
      simp only [hlog, hlogf]
      constructor
      · intro h k hk
        cases k with
        | zero => exact hf
        | succ k =>
          have := h k (by omega)
          rwa [Nat.add_right_comm] at this
      · intro h k hk
        have := h (k + 1) (by omega)
        rwa [Nat.add_right_comm]

/-- The loop writes the sectors of its request only. -/
theorem writeEach_wrote (abs : UInt32) (src : ℕ → Sector) (n s : ℕ) (b : Backend) :
    Backend.Wrote b (writeEach abs src s n b).2
      fun a => ∃ k, k < s + n ∧ a = abs + UInt32.ofNat k := by
  induction n generalizing s b with
  | zero => exact Backend.Wrote.refl _ _
  | succ n ih =>
    have hw : Backend.Wrote b (b.write (abs + UInt32.ofNat s) 1 fun _ => src s).2
        fun a => ∃ k, k < s + (n + 1) ∧ a = abs + UInt32.ofNat k := by
      refine (Backend.wrote_write _ _ _ _).mono ?_
      rintro a ⟨k, hk, rfl⟩
      obtain rfl : k = 0 := by omega
      exact ⟨s, by omega, by simp⟩
    simp only [writeEach]
    split
    · exact hw
    · refine hw.trans ((ih (s + 1) _).mono ?_)
      rintro a ⟨k, hk, rfl⟩
      exact ⟨k, by omega, rfl⟩

/-! ## The metadata flush -/

/-- The sectors of the superblock and of the file table. -/
def MetaSector (a : UInt32) : Prop :=
  5120 ≤ a.toNat ∧ a.toNat < 5125

/-- The first `n` data sectors from `start` on. -/
def DataSector (start : UInt32) (n : ℕ) (a : UInt32) : Prop :=
  ∃ k < n, a = vfsStartSector + vfsDataSector + start + UInt32.ofNat k

@[simp] theorem setDisk_filetable (fs : VernisFs) (d : Backend) :
    (fs.setDisk d).filetable = fs.filetable := rfl
@[simp] theorem setDisk_superblock (fs : VernisFs) (d : Backend) :
    (fs.setDisk d).superblock = fs.superblock := rfl
@[simp] theorem setDisk_ready (fs : VernisFs) (d : Backend) : (fs.setDisk d).ready = fs.ready :=
  rfl
@[simp] theorem setDisk_disk (fs : VernisFs) (d : Backend) : (fs.setDisk d).disk = d := rfl
@[simp] theorem setDisk_setDisk (fs : VernisFs) (d d' : Backend) :
    (fs.setDisk d).setDisk d' = fs.setDisk d' := rfl
theorem setDisk_self (fs : VernisFs) : fs.setDisk fs.disk = fs := rfl

theorem metaSector_of_lt {s k : ℕ} (h : s + k < 5) :
    MetaSector (vfsStartSector + UInt32.ofNat s + UInt32.ofNat k) := by
  have h5120 : vfsStartSector.toNat = 5120 := rfl
  simp only [MetaSector, UInt32.toNat_add, UInt32.toNat_ofNat', h5120]
  omega

theorem vfsFlushMetadata_spec (fs : VernisFs) :
    ∃ d, fs.vfsFlushMetadata.2 = fs.setDisk d ∧ Backend.Wrote fs.disk d MetaSector := by
  have hsb : ∀ buf, Backend.Wrote fs.disk
      (fs.disk.write (vfsStartSector + vfsSuperblockSector) 1 buf).2 MetaSector := by
    intro buf
    refine (Backend.wrote_write _ _ _ _).mono ?_
    rintro a ⟨k, hk, rfl⟩
    exact metaSector_of_lt (s := 0) (by omega)
  have hft : ∀ (b : Backend) buf, Backend.Wrote b
      (b.write (vfsStartSector + vfsFiletableSector) vfsFiletableSectors buf).2 MetaSector := by
    intro b buf
    refine (Backend.wrote_write _ _ _ _).mono ?_
    rintro a ⟨k, hk, rfl⟩
    have hk4 : k < 4 := hk
    exact metaSector_of_lt (s := 1) (by omega)
  unfold vfsFlushMetadata
  dsimp only
  split
  · exact ⟨_, rfl, hsb _⟩
  · exact ⟨_, rfl, (hsb _).trans (hft _ _)⟩

/-! ## Writing a file -/

/-- The data of a write does not get to the disk : it has too many sectors, or a call for
one of them fails. -/
def WriteFails (disk : Backend) (len : UInt32) : Prop :=
  255 < sectorsFor len ∨ ∃ k < sectorCount len, disk.fault (disk.calls + k) ≠ none

/-- The sectors a write of `len` bytes at `start` may touch. -/
def WriteRegion (start len : UInt32) (a : UInt32) : Prop :=
  MetaSector a ∨ sectorsFor len ≤ 255 ∧ DataSector start (sectorCount len) a

theorem writeSlot_cases (fs : VernisFs) (slot : Fin vfsMaxFiles) (data : ℕ → UInt8)
    (len : UInt64) :
    ∃ d, Backend.Wrote fs.disk d (WriteRegion (fs.filetable slot).startSector len.toUInt32) ∧
      (WriteFails fs.disk len.toUInt32 ∧ fs.writeSlot slot data len = (false, fs.setDisk d) ∨
        ¬ WriteFails fs.disk len.toUInt32 ∧ fs.writeSlot slot data len =
          (true, (fs.setDisk d).updateEntry slot len.toUInt32 (sectorsFor len.toUInt32))) := by
  unfold writeSlot
  dsimp only
  by_cases hbig : 255 < sectorsFor len.toUInt32
  · rw [if_pos hbig]
    exact ⟨fs.disk, Backend.Wrote.refl _ _, Or.inl ⟨Or.inl hbig, rfl⟩⟩
  rw [if_neg hbig, writeSectors_eq]
  set abs := vfsStartSector + vfsDataSector + (fs.filetable slot).startSector with habs
  set n := sectorCount len.toUInt32 with hn
  have hwrote := writeEach_wrote abs (padded data len.toUInt32) n 0 fs.disk
  have hok := writeEach_ok abs (padded data len.toUInt32) n 0 fs.disk
  generalize writeEach abs (padded data len.toUInt32) 0 n fs.disk = w at *
  obtain ⟨ok, d⟩ := w
  refine ⟨d, hwrote.mono ?_, ?_⟩
  · rintro a ⟨k, hk, rfl⟩
    exact Or.inr ⟨UInt32.not_lt.mp hbig, k, by omega, rfl⟩
  · cases ok with
    | false =>
      refine Or.inl ⟨Or.inr ?_, rfl⟩
      by_contra hno
      have hall : ∀ k < n, fs.disk.fault (fs.disk.calls + k) = none := by
        intro k hk
        by_contra hne
        exact hno ⟨k, hk, hne⟩
      simpa using hok.mpr hall
    | true =>
      refine Or.inr ⟨?_, rfl⟩
      rintro (hbig' | ⟨k, hk, hne⟩)
      · exact hbig hbig'
      · exact hne (hok.mp rfl k hk)

/-- The slot `vfs_write_file` takes and the table once it has prepared it. -/
def openSlot (fs : VernisFs) (path : CStr) : Option (Fin vfsMaxFiles × VernisFs) :=
  if !fs.ready then none
  else
    match findSlot fs.filetable path with
    | some slot => some (slot, fs)
    | none =>
      match emptySlot fs.filetable with
      | none => none
      | some slot => some (slot, fs.setEntry slot (fs.newEntry slot path))

theorem vfsWriteData_eq (fs : VernisFs) (path : CStr) (data : ℕ → UInt8) (len : UInt64) :
    fs.vfsWriteData path data len =
      match fs.openSlot path with
      | none => (false, fs)
      | some (slot, fs₀) => fs₀.writeSlot slot data len := by
  unfold vfsWriteData openSlot
  split
  · rfl
  · cases findSlot fs.filetable path with
    | some slot => rfl
    | none =>
      cases emptySlot fs.filetable with
      | none => rfl
      | some slot => rfl

theorem openSlot_disk {fs fs₀ : VernisFs} {path : CStr} {slot : Fin vfsMaxFiles}
    (h : fs.openSlot path = some (slot, fs₀)) : fs₀.disk = fs.disk := by
  unfold openSlot at h
  split at h
  · cases h
  · split at h
    · cases h
      rfl
    · split at h
      · cases h
      · cases h
        rfl

theorem setDisk_updateEntry (fs : VernisFs) (d : Backend) (slot : Fin vfsMaxFiles)
    (len n : UInt32) : (fs.setDisk d).updateEntry slot len n =
      (fs.updateEntry slot len n).setDisk d := by
  unfold updateEntry
  dsimp only
  by_cases h : fs.superblock.firstFreeSector < (fs.filetable slot).startSector + n
  · simp [setDisk, setEntry, setFirstFree, setFileCount, h]
  · simp [setDisk, setEntry, setFileCount, h]

/-- What `vfs_write_file` does : nothing without a slot; else it prepares the slot, writes
in its region, and updates the entry unless the data fails. -/
theorem vfsWriteFile_cases (fs : VernisFs) (path : CStr) (data : ℕ → UInt8) (len : UInt64) :
    fs.openSlot path = none ∧ (fs.vfsWriteFile path data len).2 = fs ∨
    ∃ slot fs₀ d, fs.openSlot path = some (slot, fs₀) ∧
      Backend.Wrote fs.disk d (WriteRegion (fs₀.filetable slot).startSector len.toUInt32) ∧
      (WriteFails fs.disk len.toUInt32 ∧
          (fs.vfsWriteFile path data len).2 = fs₀.setDisk d ∨
        ¬ WriteFails fs.disk len.toUInt32 ∧ (fs.vfsWriteFile path data len).2 =
          (fs₀.updateEntry slot len.toUInt32 (sectorsFor len.toUInt32)).setDisk d) := by
  have hdata := vfsWriteData_eq fs path data len
  cases hopen : fs.openSlot path with
  | none =>
    rw [hopen] at hdata
    refine Or.inl ⟨rfl, ?_⟩
    simp [vfsWriteFile, hdata]
  | some so =>
    obtain ⟨slot, fs₀⟩ := so
    rw [hopen] at hdata
    have hdisk := openSlot_disk hopen
    obtain ⟨d, hw, hcase⟩ := writeSlot_cases fs₀ slot data len
    rw [hdisk] at hw hcase
    rcases hcase with ⟨hfail, he⟩ | ⟨hok, he⟩
    · refine Or.inr ⟨slot, fs₀, d, rfl, hw, Or.inl ⟨hfail, ?_⟩⟩
      simp [vfsWriteFile, hdata, he]
    · obtain ⟨d', he', hw'⟩ := vfsFlushMetadata_spec
        ((fs₀.setDisk d).updateEntry slot len.toUInt32 (sectorsFor len.toUInt32))
      rw [setDisk_updateEntry] at he' hw'
      refine Or.inr ⟨slot, fs₀, d', rfl, hw.trans (hw'.mono fun a ha => Or.inl ha),
        Or.inr ⟨hok, ?_⟩⟩
      simp only [vfsWriteFile, hdata, he, setDisk_updateEntry]
      exact he'

/-! ## Reading a file -/

theorem readChunks_wrote (abs : UInt32) (sectors fuel read : ℕ) (b : Backend)
    (buf : ℕ → Sector) (R : UInt32 → Prop) :
    Backend.Wrote b (readChunks abs sectors fuel read b buf).2.2 R := by
  induction fuel generalizing read b buf with
  | zero => exact Backend.Wrote.refl _ _
  | succ fuel ih =>
    simp only [readChunks]
    by_cases hlt : read < sectors
    · rw [if_pos hlt]
      generalize (if 128 < sectors - read then 128 else sectors - read) = chunk
      split
      · exact Backend.wrote_read _ _ _ _ _
      · exact (Backend.wrote_read _ _ _ _ _).trans (ih _ _ _)
    · rw [if_neg hlt]
      exact Backend.Wrote.refl _ _

/-- A loop that ends well has read every sector of its request. -/
theorem readChunks_done (abs : UInt32) (sectors fuel read : ℕ) (b : Backend)
    (buf : ℕ → Sector) (hfuel : sectors ≤ read + fuel)
    (hok : (readChunks abs sectors fuel read b buf).1 = true) :
    (readChunks abs sectors fuel read b buf).2.1 = fun s =>
      if read ≤ s ∧ s < sectors then b.disk (abs + UInt32.ofNat s) else buf s := by
  induction fuel generalizing read b buf with
  | zero =>
    funext s
    rw [if_neg (by omega)]
    rfl
  | succ fuel ih =>
    simp only [readChunks] at hok ⊢
    by_cases hlt : read < sectors
    · rw [if_pos hlt] at hok ⊢
      set chunk := if 128 < sectors - read then 128 else sectors - read with hchunk
      have hpos : 0 < chunk ∧ chunk ≤ sectors - read := by
        rw [hchunk]
        split
        · omega
        · omega
      by_cases hrc : (b.read (abs + UInt32.ofNat read) chunk fun s => buf (read + s)).1 < 0
      · rw [if_pos hrc] at hok
        cases hok
      rw [if_neg hrc] at hok ⊢
      have hfault : b.fault b.calls = none := by
        cases hf : b.fault b.calls with
        | none => rfl
        | some f =>
          simp only [Backend.read, hf] at hrc
          exact absurd (by decide) hrc
      have hgot : ∀ buf s, (b.read (abs + UInt32.ofNat read) chunk buf).2.1 s =
          if s < chunk then b.disk (abs + UInt32.ofNat read + UInt32.ofNat s) else buf s := by
        intro buf s
        simp [Backend.read, hfault]
      rw [ih (read + chunk) _ _ (by omega) hok]
      funext s
      rw [Backend.read_disk, hgot]
      by_cases hs : s < read
      · rw [if_neg (by omega), if_pos hs, if_neg (by omega)]
      · have hadd : abs + UInt32.ofNat read + UInt32.ofNat (s - read) = abs + UInt32.ofNat s := by
          rw [UInt32.add_assoc, ← UInt32.ofNat_add, Nat.add_sub_cancel' (by omega)]
        rw [if_neg hs, hadd, Nat.add_sub_cancel' (not_lt.mp hs)]
        by_cases hc : s < read + chunk
        · rw [if_neg (by omega), if_pos (by omega), if_pos (by omega)]
        · by_cases hsec : s < sectors
          · rw [if_pos (by omega), if_pos (by omega)]
          · rw [if_neg (by omega), if_neg (by omega), if_neg (by omega)]
    · rw [if_neg hlt]
      funext s
      rw [if_neg (by omega)]

theorem readChunks_ok (abs : UInt32) (sectors fuel read : ℕ) (b : Backend)
    (buf : ℕ → Sector) (hb : b.NeverFails) :
    (readChunks abs sectors fuel read b buf).1 = true := by
  induction fuel generalizing read b buf with
  | zero => rfl
  | succ fuel ih =>
    simp only [readChunks]
    split
    · generalize (if 128 < sectors - read then 128 else sectors - read) = chunk
      have hrc : ∀ buf, (b.read (abs + UInt32.ofNat read) chunk buf).1 = chunk := by
        intro buf
        simp [Backend.read, hb b.calls]
      rw [hrc, if_neg (by omega)]
      exact ih _ _ _ ((Backend.wrote_read _ _ _ _ fun _ => False).neverFails hb)
    · rfl

/-- On a disk that never fails the loop reads every sector of its request. -/
theorem readChunks_spec (abs : UInt32) (sectors fuel read : ℕ) (b : Backend)
    (buf : ℕ → Sector) (hb : b.NeverFails) (hfuel : sectors ≤ read + fuel) :
    (readChunks abs sectors fuel read b buf).1 = true ∧
      (readChunks abs sectors fuel read b buf).2.1 = fun s =>
        if read ≤ s ∧ s < sectors then b.disk (abs + UInt32.ofNat s) else buf s :=
  have hok := readChunks_ok abs sectors fuel read b buf hb
  ⟨hok, readChunks_done abs sectors fuel read b buf hfuel hok⟩

/-- What a read of entry `e` with `maxLen` returns on a disk that never fails. -/
theorem vfsReadFile_spec {fs : VernisFs} {path : CStr} {i : Fin vfsMaxFiles}
    (hfind : fs.vfsFindFile path = some i) (hb : fs.disk.NeverFails) (buf : ℕ → Sector)
    (maxLen : UInt64) :
    ∃ size : UInt32, size.toNat ≤ (fs.filetable i).size.toNat ∧
      size = (if maxLen < (fs.filetable i).size.toUInt64 then maxLen.toUInt32
        else (fs.filetable i).size) ∧
      (fs.vfsReadFile path buf maxLen).1 = cInt size ∧
      (fs.vfsReadFile path buf maxLen).2.1 = fun s =>
        if s < readSectors size then
          fs.disk.disk (vfsStartSector + vfsDataSector + (fs.filetable i).startSector +
            UInt32.ofNat s)
        else buf s := by
  refine ⟨_, ?_, rfl, ?_⟩
  · split
    · next h =>
      have h' := UInt64.lt_iff_toNat_lt.mp h
      rw [UInt32.toNat_toUInt64] at h'
      rw [UInt64.toNat_toUInt32]
      omega
    · exact le_rfl
  · simp only [vfsReadFile, hfind]
    obtain ⟨hok, hbuf⟩ := readChunks_spec
      (vfsStartSector + vfsDataSector + (fs.filetable i).startSector)
      (readSectors (if maxLen < (fs.filetable i).size.toUInt64 then maxLen.toUInt32
        else (fs.filetable i).size)) _ 0 fs.disk buf hb (Nat.le_add_left _ _)
    rw [hok, hbuf]
    simp

/-- A read changes nothing but the number of calls made. -/
theorem vfsReadFile_fs (fs : VernisFs) (path : CStr) (buf : ℕ → Sector) (maxLen : UInt64) :
    ∃ d, (fs.vfsReadFile path buf maxLen).2.2 = fs.setDisk d ∧
      Backend.Wrote fs.disk d fun _ => False := by
  unfold vfsReadFile
  split
  · exact ⟨fs.disk, rfl, Backend.Wrote.refl _ _⟩
  · exact ⟨_, rfl, readChunks_wrote _ _ _ _ _ _ _⟩

/-! ## Appending to a file -/

/-- The length `vfs_append_file` passes on for an existing file. -/
def appendTotal (existing len : UInt32) : UInt32 :=
  if 4096 < existing + len then 4096 else existing + len

/-- The call stays inside `tmp` : the file has at most 4096 bytes and its new length does
not wrap, or the call ends before it copies, after a failed read or for a size so large
that the read makes no call and its return value is negative. -/
def AppendDefined (fs : VernisFs) (path : CStr) (len : UInt32) : Prop :=
  ∀ i, fs.vfsFindFile path = some i →
    2 ^ 32 ≤ (fs.filetable i).size.toNat + 511 ∨
      (fs.filetable i).size.toNat ≤ 4096 ∧
        ((fs.filetable i).size.toNat + len.toNat < 2 ^ 32 ∨
          0 < (fs.filetable i).size.toNat ∧ fs.disk.fault fs.disk.calls ≠ none)

theorem readSectors_wrap {size : UInt32} (h : 2 ^ 32 ≤ size.toNat + 511) :
    readSectors size = 0 := by
  have hs := size.toNat_lt
  have h511 : (511 : UInt32).toNat = 511 := rfl
  have h512 : (512 : UInt32).toNat = 512 := rfl
  rw [readSectors, UInt32.toNat_div, UInt32.toNat_add, h511, h512]
  omega

theorem readSectors_eq {size : UInt32} (h : size.toNat + 511 < 2 ^ 32) :
    readSectors size = min (sectorCount size) 255 := by
  rw [← sectorsFor_toNat h]
  rfl

/-- One chunk : the loop fails exactly when its only call does. -/
theorem readChunks_one (abs : UInt32) {sectors : ℕ} (h0 : 0 < sectors) (h : sectors ≤ 128)
    (b : Backend) (buf : ℕ → Sector) :
    (readChunks abs sectors sectors 0 b buf).1 = true ↔ b.fault b.calls = none := by
  obtain ⟨n, rfl⟩ : ∃ n, sectors = n + 1 := ⟨sectors - 1, by omega⟩
  have hdone : ∀ b buf, (readChunks abs (n + 1) n (n + 1) b buf).1 = true := by
    intro b buf
    cases n with
    | zero => rfl
    | succ n => simp [readChunks]
  rw [readChunks, if_pos h0, if_neg (by omega)]
  simp only [Nat.sub_zero, Nat.zero_add]
  cases hf : b.fault b.calls with
  | some f => simp [Backend.read, hf]
  | none =>
    have hrc : ∀ buf : ℕ → Sector,
        (b.read (abs + UInt32.ofNat 0) (n + 1) buf).1 = (n + 1 : ℕ) := by
      intro buf
      simp [Backend.read, hf]
    rw [hrc, if_neg (by omega), hdone]
    simp

/-- The value `vfs_append_file` reads the file with. -/
theorem vfsReadFile_whole {fs : VernisFs} {path : CStr} {i : Fin vfsMaxFiles}
    (hfind : fs.vfsFindFile path = some i) (buf : ℕ → Sector) :
    (fs.vfsReadFile path buf (fs.filetable i).size.toUInt64).1 =
      if (readChunks (vfsStartSector + vfsDataSector + (fs.filetable i).startSector)
          (readSectors (fs.filetable i).size) (readSectors (fs.filetable i).size) 0 fs.disk
          buf).1 = true
        then cInt (fs.filetable i).size else -1 := by
  simp [vfsReadFile, hfind]

/-- The read is negative exactly when its size is, or its call fails. -/
theorem vfsReadFile_neg {fs : VernisFs} {path : CStr} {i : Fin vfsMaxFiles}
    (hfind : fs.vfsFindFile path = some i) (hsmall : readSectors (fs.filetable i).size * 512 ≤ 4096)
    (buf : ℕ → Sector) :
    (fs.vfsReadFile path buf (fs.filetable i).size.toUInt64).1 < 0 ↔
      2 ^ 32 ≤ (fs.filetable i).size.toNat + 511 ∨
        0 < (fs.filetable i).size.toNat ∧ fs.disk.fault fs.disk.calls ≠ none := by
  rw [vfsReadFile_whole hfind]
  generalize (fs.filetable i).size = size at *
  by_cases hwrap : 2 ^ 32 ≤ size.toNat + 511
  · rw [readSectors_wrap hwrap]
    have hneg := (cInt_neg size).mpr (by omega)
    simp only [readChunks, if_true]
    exact ⟨fun _ => Or.inl hwrap, fun _ => hneg⟩
  · rw [readSectors_eq (by omega)] at hsmall ⊢
    have hcount : sectorCount size ≤ 8 := by omega
    have hsize : size.toNat ≤ 4096 := by
      unfold sectorCount at hcount
      omega
    have hpos : ¬ cInt size < 0 := fun h => by
      have := (cInt_neg size).mp h
      omega
    rw [Nat.min_eq_left (by omega)]
    by_cases h0 : size.toNat = 0
    · have hc0 : sectorCount size = 0 := by
        unfold sectorCount
        omega
      rw [hc0]
      simp only [readChunks, if_true]
      constructor
      · exact fun h => absurd h hpos
      · rintro (h | ⟨h, -⟩)
        · omega
        · omega
    · have hc0 : 0 < sectorCount size := by
        unfold sectorCount
        omega
      have hone := readChunks_one (vfsStartSector + vfsDataSector +
        (fs.filetable i).startSector) hc0 (by omega) fs.disk buf
      cases hf : fs.disk.fault fs.disk.calls with
      | none =>
        rw [if_pos (hone.mpr hf)]
        constructor
        · exact fun h => absurd h hpos
        · rintro (h | ⟨-, h⟩)
          · omega
          · exact absurd rfl h
      | some f =>
        rw [if_neg (fun h => by rw [hone.mp h] at hf; cases hf)]
        exact ⟨fun _ => Or.inr ⟨by omega, by simp⟩, fun _ => by decide⟩

theorem readSectors_fits (size : UInt32) :
    readSectors size * 512 ≤ 4096 ↔ size.toNat ≤ 4096 ∨ 2 ^ 32 ≤ size.toNat + 511 := by
  by_cases hwrap : 2 ^ 32 ≤ size.toNat + 511
  · rw [readSectors_wrap hwrap]
    exact ⟨fun _ => Or.inr hwrap, fun _ => by decide⟩
  · rw [readSectors_eq (by omega)]
    unfold sectorCount
    omega

/-- The bytes copied behind the existing ones fit into `tmp` unless the sum wraps. -/
theorem append_copy_fits {existing : UInt32} (len : UInt32) (h : existing.toNat ≤ 4096) :
    existing.toNat + (appendTotal existing len - existing).toNat ≤ 4096 ↔
      existing.toNat + len.toNat < 2 ^ 32 := by
  have hl := len.toNat_lt
  have h4096 : (4096 : UInt32).toNat = 4096 := rfl
  have hadd : (existing + len).toNat = (existing.toNat + len.toNat) % 2 ^ 32 :=
    UInt32.toNat_add _ _
  rw [UInt32.toNat_sub]
  unfold appendTotal
  split
  · next hlt =>
    have := UInt32.lt_iff_toNat_lt.mp hlt
    omega
  · next hlt =>
    have := UInt32.not_lt.mp hlt
    rw [UInt32.le_iff_toNat_le] at this
    omega

/-- The request of an append to a file that is there. -/
theorem appendRequest_found {fs : VernisFs} {path : CStr} {i : Fin vfsMaxFiles}
    (hfind : fs.vfsFindFile path = some i) (data : ℕ → UInt8) (len : UInt64) :
    fs.appendRequest path data len =
      let existing := (fs.filetable i).size
      let r := fs.vfsReadFile path (fun _ _ => 0) existing.toUInt64
      let total := appendTotal existing len.toUInt32
      if 4096 < readSectors existing * 512 then none
      else if r.1 < 0 then some (none, r.2.2)
      else if 4096 < existing.toNat + (total - existing).toNat then none
      else some (some (appended r.2.1 existing.toNat data, total.toUInt64), r.2.2) := by
  simp only [appendRequest, hfind, appendTotal]
  rfl

/-- What `vfs_append_file` does before it calls `vfs_write_file`. -/
theorem appendRequest_cases (fs : VernisFs) (path : CStr) (data : ℕ → UInt8) (len : UInt64) :
    (fs.vfsFindFile path = none ∧ fs.appendRequest path data len = some (some (data, len), fs)) ∨
    ∃ i, fs.vfsFindFile path = some i ∧
      (¬ AppendDefined fs path len.toUInt32 ∧ fs.appendRequest path data len = none ∨
        AppendDefined fs path len.toUInt32 ∧ ∃ d, Backend.Wrote fs.disk d (fun _ => False) ∧
          (fs.appendRequest path data len = some (none, fs.setDisk d) ∨
            (fs.filetable i).size.toNat ≤ 4096 ∧
            (fs.filetable i).size.toNat + len.toUInt32.toNat < 2 ^ 32 ∧
            ∃ data', fs.appendRequest path data len = some (some (data',
              (appendTotal (fs.filetable i).size len.toUInt32).toUInt64), fs.setDisk d))) := by
  cases hfind : fs.vfsFindFile path with
  | none => exact Or.inl ⟨rfl, by simp [appendRequest, hfind]⟩
  | some i =>
    refine Or.inr ⟨i, rfl, ?_⟩
    have hdef : AppendDefined fs path len.toUInt32 ↔
        2 ^ 32 ≤ (fs.filetable i).size.toNat + 511 ∨ (fs.filetable i).size.toNat ≤ 4096 ∧
        ((fs.filetable i).size.toNat + len.toUInt32.toNat < 2 ^ 32 ∨
          0 < (fs.filetable i).size.toNat ∧ fs.disk.fault fs.disk.calls ≠ none) := by
      constructor
      · exact fun h => h i hfind
      · intro h j hj
        obtain rfl := Option.some.inj (hfind.symm.trans hj)
        exact h
    rw [hdef]
    obtain ⟨d, hfs, hw⟩ := vfsReadFile_fs fs path (fun _ _ => 0) (fs.filetable i).size.toUInt64
    have hread := fun h => vfsReadFile_neg hfind h fun _ _ => 0
    have hreq : fs.appendRequest path data len =
        if 4096 < readSectors (fs.filetable i).size * 512 then none
        else if (fs.vfsReadFile path (fun _ _ => 0) (fs.filetable i).size.toUInt64).1 < 0 then
          some (none, fs.setDisk d)
        else if 4096 < (fs.filetable i).size.toNat +
            (appendTotal (fs.filetable i).size len.toUInt32 - (fs.filetable i).size).toNat then none
        else some (some (appended
          (fs.vfsReadFile path (fun _ _ => 0) (fs.filetable i).size.toUInt64).2.1
          (fs.filetable i).size.toNat data,
          (appendTotal (fs.filetable i).size len.toUInt32).toUInt64), fs.setDisk d) := by
      rw [← hfs]
      exact appendRequest_found hfind data len
    rw [hreq]
    have hfits := readSectors_fits (fs.filetable i).size
    by_cases hsmall : readSectors (fs.filetable i).size * 512 ≤ 4096
    · rw [if_neg (not_lt.mpr hsmall)]
      by_cases hneg : (fs.vfsReadFile path (fun _ _ => 0) (fs.filetable i).size.toUInt64).1 < 0
      · rw [if_pos hneg]
        refine Or.inr ⟨?_, d, hw, Or.inl rfl⟩
        rcases (hread hsmall).mp hneg with h | h
        · exact Or.inl h
        · rcases hfits.mp hsmall with h' | h'
          · exact Or.inr ⟨h', Or.inr h⟩
          · exact Or.inl h'
      · rw [if_neg hneg]
        have hno := (not_congr (hread hsmall)).mp hneg
        have hsize : (fs.filetable i).size.toNat ≤ 4096 := by
          rcases hfits.mp hsmall with h' | h'
          · exact h'
          · exact absurd (Or.inl h') hno
        have hcopy := append_copy_fits len.toUInt32 hsize
        by_cases hwrap : (fs.filetable i).size.toNat + len.toUInt32.toNat < 2 ^ 32
        · rw [if_neg (not_lt.mpr (hcopy.mpr hwrap))]
          exact Or.inr ⟨Or.inr ⟨hsize, Or.inl hwrap⟩, d, hw, Or.inr ⟨hsize, hwrap, _, rfl⟩⟩
        · rw [if_pos (not_le.mp fun h => hwrap (hcopy.mp h))]
          refine Or.inl ⟨?_, rfl⟩
          rintro (h | ⟨-, h | h⟩)
          · exact hno (Or.inl h)
          · exact hwrap h
          · exact hno (Or.inr h)
    · rw [if_pos (not_le.mp hsmall)]
      refine Or.inl ⟨?_, rfl⟩
      rintro (h | ⟨h, -⟩)
      · exact hsmall (hfits.mpr (Or.inr h))
      · exact hsmall (hfits.mpr (Or.inl h))

/-- The length `vfs_append_file` hands to `vfs_write_file`. -/
def appendLen (fs : VernisFs) (path : CStr) (len : UInt32) : UInt32 :=
  match fs.vfsFindFile path with
  | none => len
  | some i => appendTotal (fs.filetable i).size len

theorem appendRequest_isSome (fs : VernisFs) (path : CStr) (data : ℕ → UInt8) (len : UInt64) :
    (fs.appendRequest path data len).isSome = true ↔ AppendDefined fs path len.toUInt32 := by
  rcases appendRequest_cases fs path data len with ⟨hfind, he⟩ | ⟨i, hfind, h⟩
  · rw [he]
    refine ⟨fun _ j hj => ?_, fun _ => rfl⟩
    rw [hfind] at hj
    cases hj
  · rcases h with ⟨hdef, he⟩ | ⟨hdef, d, -, he | ⟨-, -, data', he⟩⟩
    · rw [he]
      exact ⟨fun h => absurd h (by simp), fun h => absurd h hdef⟩
    · rw [he]
      exact ⟨fun _ => hdef, fun _ => rfl⟩
    · rw [he]
      exact ⟨fun _ => hdef, fun _ => rfl⟩

/-- A defined append is a read, or a read and then a write of the length `appendLen`. The
read makes no call if there is no file yet. -/
theorem appendRequest_some {fs : VernisFs} {path : CStr} {data : ℕ → UInt8} {len : UInt64}
    {r : Option ((ℕ → UInt8) × UInt64) × VernisFs}
    (h : fs.appendRequest path data len = some r) :
    ∃ d, Backend.Wrote fs.disk d (fun _ => False) ∧ r.2 = fs.setDisk d ∧
      (fs.vfsFindFile path = none → d = fs.disk ∧ r.1 = some (data, len)) ∧
      ∀ data' len', r.1 = some (data', len') →
        len'.toUInt32 = fs.appendLen path len.toUInt32 := by
  rcases appendRequest_cases fs path data len with ⟨hfind, he⟩ | ⟨i, hfind, hc⟩
  · obtain rfl := Option.some.inj (he.symm.trans h)
    refine ⟨fs.disk, Backend.Wrote.refl _ _, rfl, fun _ => ⟨rfl, rfl⟩, fun data' len' hr => ?_⟩
    cases hr
    simp [appendLen, hfind]
  · rcases hc with ⟨-, he⟩ | ⟨-, d, hw, he | ⟨-, -, data', he⟩⟩
    · rw [he] at h
      cases h
    · obtain rfl := Option.some.inj (he.symm.trans h)
      refine ⟨d, hw, rfl, fun hn => ?_, fun data' len' hr => by cases hr⟩
      rw [hfind] at hn
      cases hn
    · obtain rfl := Option.some.inj (he.symm.trans h)
      refine ⟨d, hw, rfl, fun hn => ?_, fun data' len' hr => ?_⟩
      · rw [hfind] at hn
        cases hn
      · cases hr
        simp [appendLen, hfind]

theorem vfsFindFile_setDisk (fs : VernisFs) (d : Backend) (path : CStr) :
    (fs.setDisk d).vfsFindFile path = fs.vfsFindFile path := rfl

/-- What an append leaves, when it is defined. -/
theorem vfsAppendFile_step {fs fs' : VernisFs} {path : CStr} {data : ℕ → UInt8} {len : UInt64}
    (h : vfsStep fs (.append path data len) = some fs') :
    ∃ d, Backend.Wrote fs.disk d (fun _ => False) ∧
      (fs.vfsFindFile path = none → d = fs.disk) ∧
      ((fs.vfsFindFile path).isSome = true ∧ fs' = fs.setDisk d ∨
        ∃ data' len', len'.toUInt32 = fs.appendLen path len.toUInt32 ∧
          fs' = ((fs.setDisk d).vfsWriteFile path data' len').2) := by
  simp only [vfsStep, vfsAppendFile, Option.map_map, Option.map_eq_some_iff] at h
  obtain ⟨⟨o, fs₁⟩, hr, rfl⟩ := h
  obtain ⟨d, hw, hfs, hnone, hlen⟩ := appendRequest_some hr
  obtain rfl : fs₁ = fs.setDisk d := hfs
  refine ⟨d, hw, fun hn => (hnone hn).1, ?_⟩
  cases o with
  | none =>
    refine Or.inl ⟨?_, rfl⟩
    cases hf : fs.vfsFindFile path with
    | none => exact absurd (hnone hf).2 (by simp)
    | some i => rfl
  | some dl => exact Or.inr ⟨dl.1, dl.2, hlen _ _ rfl, rfl⟩

theorem vfsAppendFile_defined (fs : VernisFs) (path : CStr) (data : ℕ → UInt8) (len : UInt64) :
    (∃ fs', vfsStep fs (.append path data len) = some fs') ↔
      AppendDefined fs path len.toUInt32 := by
  rw [← appendRequest_isSome fs path data len, ← Option.isSome_iff_exists]
  simp [vfsStep, vfsAppendFile]

/-! ## The updated entry -/

@[simp] theorem updateEntry_filetable (fs : VernisFs) (slot : Fin vfsMaxFiles) (len n : UInt32) :
    (fs.updateEntry slot len n).filetable =
      Function.update fs.filetable slot { fs.filetable slot with size := len } := by
  unfold updateEntry
  dsimp only
  split <;> rfl

@[simp] theorem updateEntry_ready (fs : VernisFs) (slot : Fin vfsMaxFiles) (len n : UInt32) :
    (fs.updateEntry slot len n).ready = fs.ready := by
  unfold updateEntry
  dsimp only
  split <;> rfl

@[simp] theorem updateEntry_total (fs : VernisFs) (slot : Fin vfsMaxFiles) (len n : UInt32) :
    (fs.updateEntry slot len n).superblock.totalDataSectors = fs.superblock.totalDataSectors := by
  unfold updateEntry
  dsimp only
  split <;> rfl

theorem updateEntry_fileCount (fs : VernisFs) (slot : Fin vfsMaxFiles) (len n : UInt32) :
    (fs.updateEntry slot len n).superblock.fileCount =
      countActive (fs.updateEntry slot len n).filetable := by
  unfold updateEntry
  dsimp only
  split <;> rfl

theorem updateEntry_firstFree (fs : VernisFs) (slot : Fin vfsMaxFiles) (len n : UInt32) :
    (fs.updateEntry slot len n).superblock.firstFreeSector.toNat =
      max fs.superblock.firstFreeSector.toNat ((fs.filetable slot).startSector + n).toNat := by
  have hstart : ((fs.setEntry slot { fs.filetable slot with size := len }).filetable
      slot).startSector = (fs.filetable slot).startSector := by
    simp [setEntry]
  unfold updateEntry
  dsimp only
  rw [hstart]
  split
  · next h =>
    have hlt := UInt32.lt_iff_toNat_lt.mp h
    exact (Nat.max_eq_right hlt.le).symm
  · next h =>
    have hle := UInt32.le_iff_toNat_le.mp (UInt32.not_lt.mp h)
    exact (Nat.max_eq_left hle).symm

/-! ## The other operations -/

theorem vfsFindFile_some {fs : VernisFs} {path : CStr} {i : Fin vfsMaxFiles}
    (h : fs.vfsFindFile path = some i) : fs.ready = true ∧ findSlot fs.filetable path = some i := by
  unfold vfsFindFile at h
  cases hr : fs.ready with
  | false => simp [hr] at h
  | true => exact ⟨rfl, by simpa [hr] using h⟩

theorem openSlot_some {fs fs₀ : VernisFs} {path : CStr} {slot : Fin vfsMaxFiles}
    (h : fs.openSlot path = some (slot, fs₀)) :
    fs.ready = true ∧ (findSlot fs.filetable path = some slot ∧ fs₀ = fs ∨
      findSlot fs.filetable path = none ∧ emptySlot fs.filetable = some slot ∧
        fs₀ = fs.setEntry slot (fs.newEntry slot path)) := by
  unfold openSlot at h
  cases hr : fs.ready with
  | false => simp [hr] at h
  | true =>
    rw [hr, if_neg (by decide)] at h
    refine ⟨rfl, ?_⟩
    cases hfind : findSlot fs.filetable path with
    | some i =>
      rw [hfind] at h
      cases h
      exact Or.inl ⟨rfl, rfl⟩
    | none =>
      rw [hfind] at h
      cases hempty : emptySlot fs.filetable with
      | none =>
        rw [hempty] at h
        cases h
      | some i =>
        rw [hempty] at h
        cases h
        exact Or.inr ⟨rfl, rfl, rfl⟩

theorem openSlot_of_found {fs : VernisFs} {path : CStr} {slot : Fin vfsMaxFiles}
    (hr : fs.ready = true) (hfind : findSlot fs.filetable path = some slot) :
    fs.openSlot path = some (slot, fs) := by
  simp [openSlot, hr, hfind]

theorem openSlot_of_empty {fs : VernisFs} {path : CStr} {slot : Fin vfsMaxFiles}
    (hr : fs.ready = true) (hfind : findSlot fs.filetable path = none)
    (hempty : emptySlot fs.filetable = some slot) :
    fs.openSlot path = some (slot, fs.setEntry slot (fs.newEntry slot path)) := by
  simp [openSlot, hr, hfind, hempty]

/-- A new directory entry and its count, if there is a slot and the path is new. -/
theorem vfsMkdir_cases (fs : VernisFs) (path : CStr) :
    (∀ i, ¬ (fs.ready = true ∧ findSlot fs.filetable path = none ∧
      emptySlot fs.filetable = some i)) ∧ (fs.vfsMkdir path).2 = fs ∨
    ∃ i d, fs.ready = true ∧ findSlot fs.filetable path = none ∧
      emptySlot fs.filetable = some i ∧ Backend.Wrote fs.disk d MetaSector ∧
      (fs.vfsMkdir path).2 = ((fs.setEntry i (fs.newDirectory i path)).setFileCount
        (fs.superblock.fileCount + 1)).setDisk d := by
  unfold vfsMkdir
  cases hr : fs.ready with
  | false => exact Or.inl ⟨fun i h => by simp at h, rfl⟩
  | true =>
    have hv : fs.vfsFindFile path = findSlot fs.filetable path := by simp [vfsFindFile, hr]
    rw [hv]
    cases hfind : findSlot fs.filetable path with
    | some i => exact Or.inl ⟨fun i h => by simp at h, rfl⟩
    | none =>
      cases hempty : emptySlot fs.filetable with
      | none => exact Or.inl ⟨fun i h => by simp at h, rfl⟩
      | some i =>
        obtain ⟨d, he, hw⟩ := vfsFlushMetadata_spec
          ((fs.setEntry i (fs.newDirectory i path)).setFileCount (fs.superblock.fileCount + 1))
        exact Or.inr ⟨i, d, rfl, rfl, rfl, hw, he⟩

/-- The table without entry `i`, and the count `vfs_delete_file` sets. -/
def deleted (fs : VernisFs) (i : Fin vfsMaxFiles) : VernisFs :=
  if 0 < fs.superblock.fileCount then
    (fs.setEntry i VfsFileEntry.zero).setFileCount (fs.superblock.fileCount - 1)
  else fs.setEntry i VfsFileEntry.zero

@[simp] theorem deleted_filetable (fs : VernisFs) (i : Fin vfsMaxFiles) :
    (fs.deleted i).filetable = Function.update fs.filetable i VfsFileEntry.zero := by
  unfold deleted
  split <;> rfl

theorem vfsDeleteFile_cases (fs : VernisFs) (path : CStr) :
    (fs.vfsDeleteFile path).2 = fs ∨
    ∃ i d, fs.ready = true ∧ findSlot fs.filetable path = some i ∧
      Backend.Wrote fs.disk d MetaSector ∧ (fs.vfsDeleteFile path).2 = (fs.deleted i).setDisk d := by
  unfold vfsDeleteFile
  cases hr : fs.ready with
  | false => exact Or.inl rfl
  | true =>
    cases hfind : findSlot fs.filetable path with
    | none => exact Or.inl rfl
    | some i =>
      obtain ⟨d, he, hw⟩ := vfsFlushMetadata_spec (fs.deleted i)
      have hdisk : (fs.deleted i).disk = fs.disk := by
        unfold deleted
        split <;> rfl
      rw [hdisk] at hw
      exact Or.inr ⟨i, d, rfl, rfl, hw, he⟩

/-- The entry with other permission bits and owner. -/
def reowned (e : VfsFileEntry) (mode uid gid : UInt16) : VfsFileEntry :=
  { e with mode := mode, uid := uid, gid := gid }

theorem vfsChmod_cases (fs : VernisFs) (path : CStr) (mode : UInt16) :
    (fs.vfsChmod path mode).2 = fs ∨
    ∃ i d m u g, fs.vfsFindFile path = some i ∧ Backend.Wrote fs.disk d MetaSector ∧
      (fs.vfsChmod path mode).2 =
        (fs.setEntry i (reowned (fs.filetable i) m u g)).setDisk d := by
  unfold vfsChmod
  cases fs.vfsFindFile path with
  | none => exact Or.inl rfl
  | some i =>
    obtain ⟨d, he, hw⟩ := vfsFlushMetadata_spec
      (fs.setEntry i { fs.filetable i with mode := mode &&& 0o777 })
    exact Or.inr ⟨i, d, mode &&& 0o777, (fs.filetable i).uid, (fs.filetable i).gid, rfl, hw, he⟩

theorem vfsChown_cases (fs : VernisFs) (path : CStr) (uid gid : UInt16) :
    (fs.vfsChown path uid gid).2 = fs ∨
    ∃ i d m u g, fs.vfsFindFile path = some i ∧ Backend.Wrote fs.disk d MetaSector ∧
      (fs.vfsChown path uid gid).2 =
        (fs.setEntry i (reowned (fs.filetable i) m u g)).setDisk d := by
  unfold vfsChown
  cases fs.vfsFindFile path with
  | none => exact Or.inl rfl
  | some i =>
    obtain ⟨d, he, hw⟩ := vfsFlushMetadata_spec
      (fs.setEntry i { fs.filetable i with uid := uid, gid := gid })
    exact Or.inr ⟨i, d, (fs.filetable i).mode, uid, gid, rfl, hw, he⟩

end VernisFs

end VernisOS
