import VernisOS.DiskPairs
import VernisOS.VernisFsTable

/-!
# File systems that look the same to a user

Two file systems with the same metadata look the same to a user if every file that the user may
read has the same bytes (`SameToUser`). Reads of such a file, writes, appends and deletions
return the same in both and keep that, unless a file is created whose data does not get to the
disk.
-/

open Bytes Slots

namespace VernisOS

open Backend

/-! ## Files on the disk -/

namespace VfsFileEntry

/-- The path that leads to the entry. -/
def path (e : VfsFileEntry) : CStr :=
  ⟨e.filename.str, e.filename.zero_notMem_str⟩

/-- The sector of the disk with the `k`-th byte of the file. -/
def sectorOf (e : VfsFileEntry) (k : ℕ) : UInt32 :=
  vfsStartSector + vfsDataSector + e.startSector + UInt32.ofNat (k / 512)

/-- The place of the `k`-th byte in its sector. -/
def offsetOf (k : ℕ) : Fin 512 :=
  ⟨k % 512, mod_sector_lt k⟩

/-- The `k`-th byte of the file. -/
def byteOn (e : VfsFileEntry) (disk : UInt32 → Sector) (k : ℕ) : UInt8 :=
  disk (e.sectorOf k) (offsetOf k)

/-- The byte of the disk is one of the file. -/
def HasByte (e : VfsFileEntry) (a : UInt32) (j : Fin 512) : Prop :=
  ∃ k < e.size.toNat, e.sectorOf k = a ∧ offsetOf k = j

/-- `kfs_check_perm` lets the user read the file whose entry this is. -/
def ShownTo (e : VfsFileEntry) (env : KfsEnv) (uid : UInt16) : Prop :=
  uid = 0 ∨ (kfsFindMounted env e.path).isSome = true ∨ kfsPathIsPseudo e.path.chars = true ∨
    e.mode = 0 ∨ e.bitsFor uid &&& 4 ≠ 0

end VfsFileEntry

open VfsFileEntry

theorem path_of_found {fs : VernisFs} {path : CStr} {i : Fin vfsMaxFiles}
    (h : fs.vfsFindFile path = some i) : (fs.filetable i).path = path := by
  have hname := (VernisFs.findSlot_eq_some.mp (VernisFs.vfsFindFile_some h).2).1.2
  cases path
  simp only [VfsFileEntry.path, CStr.mk.injEq]
  exact hname

theorem occupied_of_found {fs : VernisFs} {path : CStr} {i : Fin vfsMaxFiles}
    (h : fs.vfsFindFile path = some i) : Occupied fs.filetable i :=
  (VernisFs.findSlot_eq_some.mp (VernisFs.vfsFindFile_some h).2).1.1

theorem mode_of_mounted {env : KfsEnv} {path : CStr} {e : VfsFileEntry}
    (h : kfsFindMounted env path = some e) : e.mode = 0 := by
  unfold kfsFindMounted at h
  split at h
  · obtain ⟨st, -, rfl⟩ := Option.map_eq_some_iff.mp h
    rfl
  · split at h
    · obtain ⟨st, -, rfl⟩ := Option.map_eq_some_iff.mp h
      rfl
    · cases h

/-- The check of a path that leads to an entry. -/
theorem shownTo_iff {env : KfsEnv} {fs : VernisFs} {path : CStr} {i : Fin vfsMaxFiles}
    (h : fs.vfsFindFile path = some i) (uid : UInt16) :
    kfsCheckPerm env fs path uid 'r' = 0 ↔ (fs.filetable i).ShownTo env uid := by
  unfold kfsCheckPerm ShownTo
  rw [path_of_found h]
  by_cases hu : uid = 0
  · simp [hu]
  simp only [hu, if_false, false_or, kfsFindFile, kfsFindPseudo, h]
  cases hm : kfsFindMounted env path with
  | some e =>
    have hmode : e.mode = 0 := mode_of_mounted hm
    simp [hmode]
  | none =>
    cases hp : kfsPathIsPseudo path.chars with
    | true => simp [kfsNode]
    | false =>
      simp only [Bool.false_eq_true, if_false, Option.map_some, Option.isSome_none, false_or]
      by_cases hmode : (fs.filetable i).mode = 0
      · simp [hmode]
      · simp [hmode]

/-! ## The relation -/

/-- The metadata is the same and the disks fail alike, every byte outside `D` is the same, and
so is every byte of a file that the user may read. -/
structure SameToUser (env : KfsEnv) (uid : UInt16) (D : UInt32 → Fin 512 → Prop)
    (fs fs' : VernisFs) : Prop where
  metadata : fs' = fs.setDisk fs'.disk
  twin : Twin fs.disk fs'.disk
  outside : ∀ a j, ¬ D a j → fs'.disk.disk a j = fs.disk.disk a j
  shown : ∀ i, Occupied fs.filetable i → (fs.filetable i).ShownTo env uid →
    ∀ k < (fs.filetable i).size.toNat,
      (fs.filetable i).byteOn fs'.disk.disk k = (fs.filetable i).byteOn fs.disk.disk k

namespace SameToUser

variable {env : KfsEnv} {uid : UInt16} {D : UInt32 → Fin 512 → Prop} {fs fs' g g' : VernisFs}

/-- A step that levels the disks, after which every entry is an old one or has the same bytes
on both. -/
theorem step (h : SameToUser env uid D fs fs') (hmeta : g' = g.setDisk g'.disk)
    (hl : Levels fs.disk fs'.disk g.disk g'.disk)
    (hshown : ∀ i, Occupied g.filetable i → (g.filetable i).ShownTo env uid →
      g.filetable i = fs.filetable i ∨ ∀ k < (g.filetable i).size.toNat,
        (g.filetable i).byteOn g'.disk.disk k = (g.filetable i).byteOn g.disk.disk k) :
    SameToUser env uid D g g' := by
  refine ⟨hmeta, hl.twin, fun a j hD => hl.same (h.outside a j hD), fun i hocc hsh k hk => ?_⟩
  rcases hshown i hocc hsh with he | hbytes
  · rw [Occupied, he] at hocc
    rw [he] at hsh hk ⊢
    exact hl.same (h.shown i hocc hsh k hk)
  · exact hbytes k hk

end SameToUser

/-! ## Reading -/

namespace VernisFs

/-- The bytes `vfs_read_file` reads. -/
def readSize (e : VfsFileEntry) (maxLen : UInt64) : UInt32 :=
  if maxLen < e.size.toUInt64 then maxLen.toUInt32 else e.size

theorem readSize_toNat (e : VfsFileEntry) (maxLen : UInt64) :
    (readSize e maxLen).toNat = min e.size.toNat maxLen.toNat := by
  have hsize := e.size.toNat_lt
  unfold readSize
  split
  · next hlt =>
    have hlt' := UInt64.lt_iff_toNat_lt.mp hlt
    rw [UInt32.toNat_toUInt64] at hlt'
    rw [UInt64.toNat_toUInt32]
    omega
  · next hge =>
    have hge' := UInt64.le_iff_toNat_le.mp (UInt64.not_lt.mp hge)
    rw [UInt32.toNat_toUInt64] at hge'
    exact (Nat.min_eq_left hge').symm

theorem readSize_le (e : VfsFileEntry) (maxLen : UInt64) :
    (readSize e maxLen).toNat ≤ e.size.toNat := by
  rw [readSize_toNat]
  exact Nat.min_le_left _ _

theorem vfsReadFile_eq {fs : VernisFs} {path : CStr} {i : Fin vfsMaxFiles}
    (hfind : fs.vfsFindFile path = some i) (buf : ℕ → Sector) (maxLen : UInt64) :
    fs.vfsReadFile path buf maxLen =
      let size := readSize (fs.filetable i) maxLen
      let r := readChunks (vfsStartSector + vfsDataSector + (fs.filetable i).startSector)
        (readSectors size) (readSectors size) 0 fs.disk buf
      (if r.1 then cInt size else -1, r.2.1, fs.setDisk r.2.2) := by
  simp only [vfsReadFile, hfind]
  rfl

/-- The bytes that a read that ends well puts into its buffer. -/
theorem vfsReadFile_bytes {fs : VernisFs} {path : CStr} {i : Fin vfsMaxFiles}
    (hfind : fs.vfsFindFile path = some i) (buf : ℕ → Sector) (maxLen : UInt64)
    (hok : 0 ≤ (fs.vfsReadFile path buf maxLen).1) :
    (fs.vfsReadFile path buf maxLen).1 = cInt (readSize (fs.filetable i) maxLen) ∧
      ∀ k, (fs.vfsReadFile path buf maxLen).2.1 (k / 512) (offsetOf k) =
        if k / 512 < readSectors (readSize (fs.filetable i) maxLen) then
          (fs.filetable i).byteOn fs.disk.disk k
        else buf (k / 512) (offsetOf k) := by
  rw [vfsReadFile_eq hfind] at hok ⊢
  dsimp only at hok ⊢
  generalize readSize (fs.filetable i) maxLen = size at *
  have hdone := readChunks_done (vfsStartSector + vfsDataSector + (fs.filetable i).startSector)
    (readSectors size) (readSectors size) 0 fs.disk buf (Nat.le_add_left _ _)
  cases hb : (readChunks (vfsStartSector + vfsDataSector + (fs.filetable i).startSector)
      (readSectors size) (readSectors size) 0 fs.disk buf).1 with
  | false =>
    rw [hb, if_neg (by decide)] at hok
    exact absurd hok (by decide)
  | true =>
    refine ⟨rfl, fun k => ?_⟩
    rw [hdone hb]
    simp only [Nat.zero_le, true_and]
    split
    · rfl
    · rfl

/-- The same read of twin disks returns the same, and leaves what is on them. -/
theorem vfsReadFile_twin (fs : VernisFs) {d : Backend} (h : Twin fs.disk d) (path : CStr)
    (buf : ℕ → Sector) (maxLen : UInt64) :
    ((fs.setDisk d).vfsReadFile path buf maxLen).1 = (fs.vfsReadFile path buf maxLen).1 ∧
    ∃ c c', (fs.vfsReadFile path buf maxLen).2.2 = fs.setDisk c ∧
      ((fs.setDisk d).vfsReadFile path buf maxLen).2.2 = fs.setDisk c' ∧
      c.disk = fs.disk.disk ∧ c'.disk = d.disk ∧ Twin c c' := by
  unfold vfsReadFile
  rw [vfsFindFile_setDisk]
  cases fs.vfsFindFile path with
  | none => exact ⟨rfl, fs.disk, d, rfl, rfl, rfl, rfl, h⟩
  | some i =>
    dsimp only [setDisk_filetable, setDisk_disk]
    generalize (if maxLen < (fs.filetable i).size.toUInt64 then maxLen.toUInt32
      else (fs.filetable i).size) = size
    obtain ⟨hok, ht⟩ := twin_readChunks
      (vfsStartSector + vfsDataSector + (fs.filetable i).startSector) (readSectors size)
      (readSectors size) 0 buf buf h
    refine ⟨by rw [hok], _, _, rfl, rfl, ?_, ?_, ht⟩
    · exact funext fun a => (readChunks_wrote _ _ _ _ _ _ fun _ => False).disk a not_false
    · exact funext fun a => (readChunks_wrote _ _ _ _ _ _ fun _ => False).disk a not_false

end VernisFs

namespace SameToUser

variable {env : KfsEnv} {uid : UInt16} {D : UInt32 → Fin 512 → Prop} {fs fs' : VernisFs}

theorem found (h : SameToUser env uid D fs fs') (path : CStr) :
    fs'.vfsFindFile path = fs.vfsFindFile path := by
  rw [h.metadata]
  rfl

theorem setDisk (h : SameToUser env uid D fs fs') {c c' : Backend}
    (hc : c.disk = fs.disk.disk) (hc' : c'.disk = fs'.disk.disk) (ht : Twin c c') :
    SameToUser env uid D (fs.setDisk c) (fs.setDisk c') := by
  refine h.step rfl ⟨ht, fun a j => Or.inr ?_⟩ fun _ _ _ => Or.inl rfl
  exact ⟨congrFun (congrFun hc a) j, congrFun (congrFun hc' a) j⟩

theorem readFile (h : SameToUser env uid D fs fs') (path : CStr) (buf : ℕ → Sector)
    (maxLen : UInt64) :
    (fs'.vfsReadFile path buf maxLen).1 = (fs.vfsReadFile path buf maxLen).1 ∧
    SameToUser env uid D (fs.vfsReadFile path buf maxLen).2.2
      (fs'.vfsReadFile path buf maxLen).2.2 := by
  obtain ⟨hrc, c, c', hr, hr', hc, hc', ht⟩ := VernisFs.vfsReadFile_twin fs h.twin path buf maxLen
  rw [← h.metadata] at hrc hr'
  rw [hr, hr']
  exact ⟨hrc, h.setDisk hc hc' ht⟩

/-- A file that the user may read is read the same. -/
theorem readBytes (h : SameToUser env uid D fs fs') {path : CStr}
    (hshown : ∀ i, fs.vfsFindFile path = some i → (fs.filetable i).ShownTo env uid)
    (maxLen : ℕ) :
    (vfsReadBytes fs' path maxLen).1 = (vfsReadBytes fs path maxLen).1 ∧
    SameToUser env uid D (vfsReadBytes fs path maxLen).2 (vfsReadBytes fs' path maxLen).2 := by
  obtain ⟨hrc, hsame⟩ := h.readFile path (fun _ _ => 0) (UInt64.ofNat maxLen)
  refine ⟨?_, hsame⟩
  unfold vfsReadBytes
  dsimp only
  rw [hrc]
  split
  · rfl
  · rename_i hneg
    cases hf : fs.vfsFindFile path with
    | none => simp [VernisFs.vfsReadFile, hf] at hneg
    | some i =>
      have hmeta : fs'.filetable = fs.filetable := by
        rw [h.metadata]
        rfl
      obtain ⟨hsize, hbytes⟩ := VernisFs.vfsReadFile_bytes hf (fun _ _ => 0)
        (UInt64.ofNat maxLen) (not_lt.mp hneg)
      obtain ⟨-, hbytes'⟩ := VernisFs.vfsReadFile_bytes ((h.found path).trans hf) (fun _ _ => 0)
        (UInt64.ofNat maxLen) (by rw [hrc]; exact not_lt.mp hneg)
      refine congrArg some (List.map_congr_left fun k hk => ?_)
      rw [show (⟨k % 512, mod_sector_lt k⟩ : Fin 512) = offsetOf k from rfl, hbytes, hbytes', hmeta]
      split
      · refine h.shown i (occupied_of_found hf) (hshown i hf) k ?_
        rw [hsize] at hneg hk
        rw [List.mem_range] at hk
        have hle := VernisFs.readSize_le (fs.filetable i) (UInt64.ofNat maxLen)
        have hsmall := (not_congr (cInt_neg _)).mp hneg
        rw [cInt_of_lt (by omega)] at hk
        omega
      · rfl

end SameToUser

/-! ## Writing -/

/-- The bytes to be written are the same, or the ones that the file has on `b` and `b'`. -/
def LevelBytes (e : VfsFileEntry) (b b' : Backend) (data data' : ℕ → UInt8) : Prop :=
  ∀ k, data' k = data k ∨ data k = e.byteOn b.disk k ∧ data' k = e.byteOn b'.disk k

theorem levelBytes_self (e : VfsFileEntry) (b b' : Backend) (data : ℕ → UInt8) :
    LevelBytes e b b' data data :=
  fun _ => Or.inl rfl

namespace VernisFs

variable {b b' d : Backend} {data data' : ℕ → UInt8}

theorem levelData_padded {e : VfsFileEntry} (h : LevelBytes e b b' data data') (len : UInt32)
    (n : ℕ) : LevelData b b' (vfsStartSector + vfsDataSector + e.startSector) n
      (padded data len) (padded data' len) := by
  intro s _ j
  have hj := j.isLt
  have hsector : (s * 512 + j.val) / 512 = s := by omega
  have hoffset : offsetOf (s * 512 + j.val) = j := Fin.ext (by simp only [offsetOf]; omega)
  unfold padded
  split
  · have hk := h (s * 512 + j.val)
    simp only [byteOn, sectorOf, hsector, hoffset] at hk
    exact hk
  · exact Or.inl rfl

/-- A loop that ends well has put the bytes of its request on the disk. -/
theorem byteOn_written {e : VfsFileEntry} {len : UInt32} {b : Backend}
    (hok : (writeEach (vfsStartSector + vfsDataSector + e.startSector) (padded data len) 0
      (sectorCount len) b).1 = true) {k : ℕ} (hk : k < len.toNat) :
    e.byteOn (writeEach (vfsStartSector + vfsDataSector + e.startSector) (padded data len) 0
      (sectorCount len) b).2.disk k = data k := by
  have hlen := len.toNat_lt
  have hcount : sectorCount len ≤ 4294967296 := by
    unfold sectorCount
    omega
  have hsector : k / 512 < sectorCount len := by
    unfold sectorCount
    omega
  rw [byteOn, disk_writeEach _ hcount b hok, sectorOf, store_of_lt _ _ _ hcount hsector]
  have hpos : k / 512 * 512 + k % 512 = k := by omega
  simp only [padded, offsetOf, hpos, if_pos hk]

/-- The same write to a slot of two disks : both fail or both go through. -/
theorem levels_writeSlot (g : VernisFs) (slot : Fin vfsMaxFiles) (len : UInt64)
    (hdata : LevelBytes (g.filetable slot) b b' data data') (hl : Levels b b' g.disk d) :
    ∃ c c', Levels b b' c c' ∧
      (g.writeSlot slot data len = (false, g.setDisk c) ∧
        (g.setDisk d).writeSlot slot data' len = (false, g.setDisk c') ∨
      g.writeSlot slot data len =
          (true, (g.updateEntry slot len.toUInt32 (sectorsFor len.toUInt32)).setDisk c) ∧
        (g.setDisk d).writeSlot slot data' len =
          (true, (g.updateEntry slot len.toUInt32 (sectorsFor len.toUInt32)).setDisk c') ∧
        ∀ k < len.toUInt32.toNat, (g.filetable slot).byteOn c.disk k = data k ∧
          (g.filetable slot).byteOn c'.disk k = data' k) := by
  unfold writeSlot
  dsimp only [setDisk_filetable, setDisk_disk]
  generalize len.toUInt32 = len
  by_cases hbig : 255 < sectorsFor len
  · rw [if_pos hbig, if_pos hbig]
    exact ⟨g.disk, d, hl, Or.inl ⟨rfl, rfl⟩⟩
  rw [if_neg hbig, if_neg hbig, writeSectors_eq, writeSectors_eq]
  obtain ⟨hok, hlevels⟩ := levels_writeEach (sectorCount len) 0
    (levelData_padded hdata len _) hl
  refine ⟨_, _, hlevels, ?_⟩
  rw [hok]
  cases hb : (writeEach (vfsStartSector + vfsDataSector + (g.filetable slot).startSector)
      (padded data len) 0 (sectorCount len) g.disk).1 with
  | false => exact Or.inl ⟨rfl, rfl⟩
  | true =>
    refine Or.inr ⟨?_, ?_, fun k hk => ⟨byteOn_written hb hk, byteOn_written (hok.trans hb) hk⟩⟩
    · rw [← setDisk_updateEntry]
      rfl
    · rw [← setDisk_updateEntry]
      rfl

/-- The flush of the same metadata. -/
theorem levels_flush (g : VernisFs) {c c' : Backend} (hl : Levels b b' c c') :
    ∃ e e', Levels b b' e e' ∧ (g.setDisk c).vfsFlushMetadata.2 = g.setDisk e ∧
      (g.setDisk c').vfsFlushMetadata = ((g.setDisk c).vfsFlushMetadata.1, g.setDisk e') := by
  unfold vfsFlushMetadata
  dsimp only [setDisk_superblock, setDisk_filetable, setDisk_disk]
  obtain ⟨hrc, hsb⟩ := levels_write hl (vfsStartSector + vfsSuperblockSector) 1
    (levelData_self b b' _ _ (sectorsOf g.superblock.toBytes))
  rw [hrc]
  split
  · exact ⟨_, _, hsb, rfl, rfl⟩
  · obtain ⟨hrc', hft⟩ := levels_write hsb (vfsStartSector + vfsFiletableSector)
      vfsFiletableSectors (levelData_self b b' _ _ _)
    rw [hrc']
    exact ⟨_, _, hft, rfl, rfl⟩

end VernisFs

/-- A file whose creation fails has no byte in `D`. -/
def CreationKeeps (D : UInt32 → Fin 512 → Prop) (fs : VernisFs) (path : CStr) (len : UInt32) :
    Prop :=
  VernisFs.FailedCreation fs path len → ∀ slot, VernisFs.emptySlot fs.filetable = some slot →
    ∀ a j, (fs.newEntry slot path).HasByte a j → ¬ D a j

namespace SameToUser

variable {env : KfsEnv} {uid : UInt16} {D : UInt32 → Fin 512 → Prop} {fs fs' : VernisFs}
  {data data' : ℕ → UInt8}

/-- The flush at the end of a write. -/
theorem flush {g g' : VernisFs} (h : SameToUser env uid D g g') :
    g'.vfsFlushMetadata.1 = g.vfsFlushMetadata.1 ∧
      SameToUser env uid D g.vfsFlushMetadata.2 g'.vfsFlushMetadata.2 := by
  obtain ⟨e, e', hl, hg, hg'⟩ := VernisFs.levels_flush g (Levels.refl h.twin)
  rw [← h.metadata] at hg'
  rw [VernisFs.setDisk_self] at hg hg'
  rw [hg', hg]
  exact ⟨rfl, h.step rfl hl fun _ _ _ => Or.inl rfl⟩

/-- A write to the slot it has opened. -/
theorem writeSlot (h : SameToUser env uid D fs fs') (slot : Fin vfsMaxFiles) (len : UInt64)
    {g : VernisFs} (hg : g.disk = fs.disk)
    (hothers : ∀ i, i ≠ slot → g.filetable i = fs.filetable i)
    (hdata : LevelBytes (g.filetable slot) fs.disk fs'.disk data data')
    (hsame : (g.filetable slot).ShownTo env uid → ∀ k < len.toUInt32.toNat, data' k = data k)
    (hfail : VernisFs.WriteFails g.disk len.toUInt32 → ∀ c c', Levels fs.disk fs'.disk c c' →
      SameToUser env uid D (g.setDisk c) (g.setDisk c')) :
    ((g.setDisk fs'.disk).writeSlot slot data' len).1 = (g.writeSlot slot data len).1 ∧
      SameToUser env uid D (g.writeSlot slot data len).2
        ((g.setDisk fs'.disk).writeSlot slot data' len).2 := by
  obtain ⟨c, c', hl, ⟨hw, hw'⟩ | ⟨hw, hw', hbytes⟩⟩ :=
    VernisFs.levels_writeSlot g slot len hdata (by rw [hg]; exact Levels.refl h.twin)
  · rw [hw, hw']
    refine ⟨rfl, hfail ?_ c c' hl⟩
    obtain ⟨e, -, ⟨hfails, -⟩ | ⟨-, hno⟩⟩ := VernisFs.writeSlot_cases g slot data len
    · exact hfails
    · rw [hw] at hno
      cases hno
  · rw [hw, hw']
    refine ⟨rfl, h.step rfl hl fun i _ hsh => ?_⟩
    simp only [VernisFs.setDisk_filetable, VernisFs.updateEntry_filetable] at hsh ⊢
    by_cases hi : i = slot
    · subst hi
      simp only [Function.update_self] at hsh ⊢
      refine Or.inr fun k hk => ?_
      obtain ⟨hc, hc'⟩ := hbytes k hk
      exact (hc'.trans (hsame hsh k hk)).trans hc.symm
    · rw [Function.update_of_ne hi]
      exact Or.inl (hothers i hi)

theorem openSlot_setDisk (fs : VernisFs) (d : Backend) (path : CStr) :
    (fs.setDisk d).openSlot path = (fs.openSlot path).map fun r => (r.1, r.2.setDisk d) := by
  cases hr : fs.ready with
  | false => simp [VernisFs.openSlot, hr]
  | true =>
    simp only [VernisFs.openSlot, VernisFs.setDisk_ready, VernisFs.setDisk_filetable, hr,
      Bool.not_true, Bool.false_eq_true, if_false]
    cases VernisFs.findSlot fs.filetable path with
    | some slot => rfl
    | none =>
      cases VernisFs.emptySlot fs.filetable with
      | none => rfl
      | some slot => rfl

/-- The same write, of bytes that are the same where the user may read the file. -/
theorem writeFile (h : SameToUser env uid D fs fs') (path : CStr) (len : UInt64)
    (hdata : ∀ i, fs.vfsFindFile path = some i →
      LevelBytes (fs.filetable i) fs.disk fs'.disk data data')
    (hsame : ∀ i, fs.vfsFindFile path = some i → (fs.filetable i).ShownTo env uid →
      ∀ k < len.toUInt32.toNat, data' k = data k)
    (hnew : fs.vfsFindFile path = none → data' = data)
    (hkeeps : CreationKeeps D fs path len.toUInt32) :
    (fs'.vfsWriteFile path data' len).1 = (fs.vfsWriteFile path data len).1 ∧
      SameToUser env uid D (fs.vfsWriteFile path data len).2
        (fs'.vfsWriteFile path data' len).2 := by
  have hwrite : (fs'.vfsWriteData path data' len).1 = (fs.vfsWriteData path data len).1 ∧
      SameToUser env uid D (fs.vfsWriteData path data len).2
        (fs'.vfsWriteData path data' len).2 := by
    have hopen' := openSlot_setDisk fs fs'.disk path
    rw [← h.metadata] at hopen'
    rw [VernisFs.vfsWriteData_eq, VernisFs.vfsWriteData_eq, hopen']
    cases hopen : fs.openSlot path with
    | none => exact ⟨rfl, h⟩
    | some r =>
      obtain ⟨slot, g⟩ := r
      obtain ⟨hready, ⟨hfind, rfl⟩ | ⟨hfind, hempty, rfl⟩⟩ := VernisFs.openSlot_some hopen
      · have hfound : g.vfsFindFile path = some slot := by
          simp [VernisFs.vfsFindFile, hready, hfind]
        refine h.writeSlot slot len rfl (fun _ _ => rfl) (hdata slot hfound) (hsame slot hfound) ?_
        exact fun _ c c' hl => h.step rfl hl fun _ _ _ => Or.inl rfl
      · have hnone : fs.vfsFindFile path = none := by
          simp [VernisFs.vfsFindFile, hready, hfind]
        obtain rfl := hnew hnone
        refine h.writeSlot slot len rfl (fun i hi => ?_) (levelBytes_self _ _ _ _)
          (fun _ _ _ => rfl) fun hfails c c' hl => h.step rfl hl fun i _ _ => ?_
        · exact Function.update_of_ne hi _ _
        · by_cases hi : i = slot
          · subst hi
            have hentry : ((fs.setEntry i (fs.newEntry i path)).setDisk c).filetable i =
                fs.newEntry i path := Function.update_self _ _ _
            rw [hentry]
            refine Or.inr fun k hk => hl.same (h.outside _ _ ?_)
            have hfailed : VernisFs.FailedCreation fs path len.toUInt32 :=
              ⟨hready, hfind, by rw [hempty]; rfl, hfails⟩
            exact hkeeps hfailed i hempty _ _ ⟨k, hk, rfl, rfl⟩
          · exact Or.inl (Function.update_of_ne hi _ _)
  unfold VernisFs.vfsWriteFile
  dsimp only
  rw [hwrite.1]
  split
  · exact ⟨rfl, hwrite.2⟩
  · obtain ⟨hrc, hflush⟩ := hwrite.2.flush
    rw [hrc]
    exact ⟨rfl, hflush⟩

theorem deleted_setDisk (fs : VernisFs) (d : Backend) (i : Fin vfsMaxFiles) :
    (fs.setDisk d).deleted i = (fs.deleted i).setDisk d := by
  unfold VernisFs.deleted
  rw [VernisFs.setDisk_superblock]
  split <;> rfl

/-- A deletion. -/
theorem deleteFile (h : SameToUser env uid D fs fs') (path : CStr) :
    (fs'.vfsDeleteFile path).1 = (fs.vfsDeleteFile path).1 ∧
      SameToUser env uid D (fs.vfsDeleteFile path).2 (fs'.vfsDeleteFile path).2 := by
  have hready : fs'.ready = fs.ready := by
    rw [h.metadata]
    rfl
  have htable : fs'.filetable = fs.filetable := by
    rw [h.metadata]
    rfl
  unfold VernisFs.vfsDeleteFile
  rw [hready, htable]
  cases fs.ready with
  | false => exact ⟨rfl, h⟩
  | true =>
    cases VernisFs.findSlot fs.filetable path with
    | none => exact ⟨rfl, h⟩
    | some i =>
      have hdisk : (fs.deleted i).disk = fs.disk := by
        unfold VernisFs.deleted
        split <;> rfl
      have hdeleted : SameToUser env uid D (fs.deleted i) (fs'.deleted i) := by
        have hmeta := deleted_setDisk fs fs'.disk i
        rw [← h.metadata] at hmeta
        refine h.step (by rw [hmeta]; rfl) ?_ fun j hocc _ => ?_
        · rw [hdisk, hmeta]
          exact Levels.refl h.twin
        · rw [Occupied, VernisFs.deleted_filetable] at hocc
          rw [VernisFs.deleted_filetable]
          by_cases hj : j = i
          · rw [hj, Function.update_self] at hocc
            exact absurd rfl hocc
          · exact Or.inl (Function.update_of_ne hj _ _)
      obtain ⟨hrc, hflush⟩ := hdeleted.flush
      exact ⟨congrArg (fun rc : Int => if rc = 0 then 0 else -1) hrc, hflush⟩

/-- The existing bytes that an append has read are those of the file. -/
theorem appended_eq {path : CStr} {i : Fin vfsMaxFiles} (hfind : fs.vfsFindFile path = some i)
    (hsmall : VernisFs.readSectors (fs.filetable i).size * 512 ≤ 4096)
    (hok : 0 ≤ (fs.vfsReadFile path (fun _ _ => 0) (fs.filetable i).size.toUInt64).1)
    (data : ℕ → UInt8) (k : ℕ) :
    VernisFs.appended (fs.vfsReadFile path (fun _ _ => 0) (fs.filetable i).size.toUInt64).2.1
        (fs.filetable i).size.toNat data k =
      if k < (fs.filetable i).size.toNat then (fs.filetable i).byteOn fs.disk.disk k
      else data (k - (fs.filetable i).size.toNat) := by
  obtain ⟨hsize, hbytes⟩ := VernisFs.vfsReadFile_bytes hfind _ _ hok
  have hwhole : VernisFs.readSize (fs.filetable i) (fs.filetable i).size.toUInt64 =
      (fs.filetable i).size := by
    simp [VernisFs.readSize]
  rw [hwhole] at hsize hbytes
  unfold VernisFs.appended
  split
  · rename_i hk
    refine (hbytes k).trans (if_pos ?_)
    have hpos := (not_congr (cInt_neg _)).mp (not_lt.mpr (hsize ▸ hok))
    have hlen : (fs.filetable i).size.toNat ≤ 4096 := by
      rcases (VernisFs.readSectors_fits _).mp hsmall with hle | hwrap
      · exact hle
      · omega
    rw [VernisFs.readSectors_eq (by omega), VernisFs.sectorCount]
    omega
  · rfl

/-- An append, which reads the file first. -/
theorem appendFile (h : SameToUser env uid D fs fs') (path : CStr) (data : ℕ → UInt8)
    (len : UInt64) (hkeeps : CreationKeeps D fs path len.toUInt32) :
    fs.vfsAppendFile path data len = none ∧ fs'.vfsAppendFile path data len = none ∨
    ∃ r r', fs.vfsAppendFile path data len = some r ∧ fs'.vfsAppendFile path data len = some r' ∧
      r'.1 = r.1 ∧ SameToUser env uid D r.2 r'.2 := by
  have hfound := h.found path
  have htable : fs'.filetable = fs.filetable := by
    rw [h.metadata]
    rfl
  unfold VernisFs.vfsAppendFile
  cases hf : fs.vfsFindFile path with
  | none =>
    have hreq : ∀ g : VernisFs, g.vfsFindFile path = none →
        g.appendRequest path data len = some (some (data, len), g) := by
      intro g hg
      simp [VernisFs.appendRequest, hg]
    rw [hreq fs hf, hreq fs' (hfound.trans hf)]
    refine Or.inr ⟨_, _, rfl, rfl, h.writeFile path len ?_ ?_ (fun _ => rfl) hkeeps⟩
    · intro i hi
      rw [hf] at hi
      cases hi
    · exact fun _ _ _ _ _ => rfl
  | some i =>
    obtain ⟨hrc, hread⟩ := h.readFile path (fun _ _ => 0) (fs.filetable i).size.toUInt64
    obtain ⟨c, hc, hw⟩ :=
      VernisFs.vfsReadFile_fs fs path (fun _ _ => 0) (fs.filetable i).size.toUInt64
    obtain ⟨c', hc', hw'⟩ :=
      VernisFs.vfsReadFile_fs fs' path (fun _ _ => 0) (fs.filetable i).size.toUInt64
    have hdisk : c.disk = fs.disk.disk := funext fun a => hw.disk a not_false
    have hdisk' : c'.disk = fs'.disk.disk := funext fun a => hw'.disk a not_false
    rw [VernisFs.appendRequest_found hf, VernisFs.appendRequest_found (hfound.trans hf), htable]
    dsimp only
    generalize VernisFs.appendTotal (fs.filetable i).size len.toUInt32 = total
    by_cases hsmall : 4096 < VernisFs.readSectors (fs.filetable i).size * 512
    · rw [if_pos hsmall, if_pos hsmall]
      exact Or.inl ⟨rfl, rfl⟩
    rw [if_neg hsmall, if_neg hsmall, hrc]
    by_cases hneg : (fs.vfsReadFile path (fun _ _ => 0) (fs.filetable i).size.toUInt64).1 < 0
    · rw [if_pos hneg, if_pos hneg]
      exact Or.inr ⟨_, _, rfl, rfl, rfl, hread⟩
    rw [if_neg hneg, if_neg hneg]
    by_cases hcopy : 4096 < (fs.filetable i).size.toNat + (total - (fs.filetable i).size).toNat
    · rw [if_pos hcopy, if_pos hcopy]
      exact Or.inl ⟨rfl, rfl⟩
    rw [if_neg hcopy, if_neg hcopy]
    have happ := appended_eq hf (not_lt.mp hsmall) (not_lt.mp hneg) data
    have happ' := appended_eq (hfound.trans hf) (by rw [htable]; exact not_lt.mp hsmall)
      (by rw [htable, hrc]; exact not_lt.mp hneg) data
    rw [htable] at happ'
    have hfind : (fs.setDisk c).vfsFindFile path = some i := hf
    refine Or.inr ⟨_, _, rfl, rfl, hread.writeFile path _ ?_ ?_ ?_ ?_⟩
    · intro j hj k
      rw [hc] at hj ⊢
      obtain rfl := Option.some.inj (hfind.symm.trans hj)
      rw [hc', happ k, happ' k]
      by_cases hk : k < (fs.filetable i).size.toNat
      · rw [if_pos hk, if_pos hk]
        exact Or.inr ⟨by rw [← hdisk]; rfl, by rw [← hdisk']; rfl⟩
      · rw [if_neg hk, if_neg hk]
        exact Or.inl rfl
    · intro j hj hsh k _
      rw [hc] at hj hsh
      obtain rfl := Option.some.inj (hfind.symm.trans hj)
      rw [happ k, happ' k]
      split
      · rename_i hk
        exact h.shown i (occupied_of_found hf) hsh k hk
      · rfl
    · intro hnone
      rw [hc, hfind] at hnone
      cases hnone
    · rintro ⟨-, hnone, -, -⟩
      rw [hc] at hnone
      exact absurd ((VernisFs.vfsFindFile_some hf).2.symm.trans hnone) (by simp)

end SameToUser

/-! ## The file layer -/

/-- The user may read the path, if it leads to a file of VernisFS. -/
def MayRead (env : KfsEnv) (uid : UInt16) (fs : VernisFs) (path : CStr) : Prop :=
  kfsOutside path.chars = false → ∀ i, fs.vfsFindFile path = some i →
    kfsCheckPerm env fs path uid 'r' = 0

namespace SameToUser

variable {env : KfsEnv} {uid : UInt16} {D : UInt32 → Fin 512 → Prop} {fs fs' : VernisFs}

theorem findFile (h : SameToUser env uid D fs fs') (path : CStr) :
    kfsFindFile env fs' path = kfsFindFile env fs path := by
  rw [h.metadata]
  rfl

theorem checkPerm (h : SameToUser env uid D fs fs') (path : CStr) (v : UInt16) (op : Char) :
    kfsCheckPerm env fs' path v op = kfsCheckPerm env fs path v op := by
  unfold kfsCheckPerm
  rw [h.findFile]

/-- `kfs_read_file` of a path that the user may read. -/
theorem kfsRead (h : SameToUser env uid D fs fs') {path : CStr} (hread : MayRead env uid fs path)
    (maxLen : ℕ) :
    (kfsReadFile env fs' path maxLen).1 = (kfsReadFile env fs path maxLen).1 ∧
    SameToUser env uid D (kfsReadFile env fs path maxLen).2 (kfsReadFile env fs' path maxLen).2 := by
  unfold kfsReadFile
  split_ifs
  · exact ⟨rfl, h⟩
  · exact ⟨rfl, h⟩
  · exact ⟨rfl, h⟩
  · exact ⟨rfl, h⟩
  · exact ⟨rfl, h⟩
  · exact ⟨rfl, h⟩
  · cases hfat : kfsMountSubpath path.chars kfsMntFat32 with
    | some sp => exact ⟨rfl, h⟩
    | none =>
      cases hext : kfsMountSubpath path.chars kfsMntExt2 with
      | some sp => exact ⟨rfl, h⟩
      | none =>
        refine h.readBytes (fun i hi => ?_) maxLen
        cases hp : kfsPathIsPseudo path.chars with
        | true =>
          refine Or.inr (Or.inr (Or.inl ?_))
          rw [path_of_found hi]
          exact hp
        | false =>
          refine (shownTo_iff hi uid).mp (hread ?_ i hi)
          simp [kfsOutside, hp, hfat, hext]

/-- `kfs_write_file` of the same bytes. -/
theorem kfsWrite (h : SameToUser env uid D fs fs') (path : CStr) (data : List UInt8)
    (hkeeps : kfsOutside path.chars = false →
      CreationKeeps D fs path (UInt64.ofNat data.length).toUInt32) :
    (kfsWriteFile fs' path data).1 = (kfsWriteFile fs path data).1 ∧
      SameToUser env uid D (kfsWriteFile fs path data).2 (kfsWriteFile fs' path data).2 := by
  unfold kfsWriteFile
  split_ifs with hdev hout
  · exact ⟨rfl, h⟩
  · exact ⟨rfl, h⟩
  · exact h.writeFile path _ (fun _ _ => levelBytes_self _ _ _ _) (fun _ _ _ _ _ => rfl)
      (fun _ => rfl) (hkeeps (by simpa using hout))

/-- `kfs_append_file` of the same bytes. -/
theorem kfsAppend (h : SameToUser env uid D fs fs') (path : CStr) (data : List UInt8)
    (hkeeps : kfsOutside path.chars = false →
      CreationKeeps D fs path (UInt64.ofNat data.length).toUInt32) :
    kfsAppendFile fs path data = none ∧ kfsAppendFile fs' path data = none ∨
    ∃ r r', kfsAppendFile fs path data = some r ∧ kfsAppendFile fs' path data = some r' ∧
      r'.1 = r.1 ∧ SameToUser env uid D r.2 r'.2 := by
  unfold kfsAppendFile
  split_ifs with hdev hout
  · exact Or.inr ⟨_, _, rfl, rfl, rfl, h⟩
  · exact Or.inr ⟨_, _, rfl, rfl, rfl, h⟩
  · exact h.appendFile path _ _ (hkeeps (by simpa using hout))

theorem kfsDelete (h : SameToUser env uid D fs fs') (path : CStr) :
    (kfsDeleteFile fs' path).1 = (kfsDeleteFile fs path).1 ∧
      SameToUser env uid D (kfsDeleteFile fs path).2 (kfsDeleteFile fs' path).2 := by
  unfold kfsDeleteFile
  split_ifs
  · exact ⟨rfl, h⟩
  · exact h.deleteFile path

end SameToUser

/-! ## Hidden files -/

/-- A path leads to the file, and the user may not read it. -/
def HiddenFrom (env : KfsEnv) (uid : UInt16) (fs : VernisFs) (i : Fin vfsMaxFiles) : Prop :=
  ∃ path, fs.vfsFindFile path = some i ∧ kfsCheckPerm env fs path uid 'r' ≠ 0

/-- The byte of the disk is one of a file that the user may not read. -/
def HiddenByte (env : KfsEnv) (uid : UInt16) (fs : VernisFs) (a : UInt32) (j : Fin 512) : Prop :=
  ∃ i, HiddenFrom env uid fs i ∧ (fs.filetable i).HasByte a j

/-- The file systems differ only in bytes of files that the user may not read : not in the
metadata, and in no byte of another file. -/
structure DifferInHidden (env : KfsEnv) (uid : UInt16) (fs fs' : VernisFs) : Prop where
  metadata : fs' = fs.setDisk fs'.disk
  twin : Twin fs.disk fs'.disk
  hidden : ∀ a j, fs'.disk.disk a j ≠ fs.disk.disk a j → HiddenByte env uid fs a j
  others : ∀ i, Occupied fs.filetable i → ¬ HiddenFrom env uid fs i →
    ∀ a j, (fs.filetable i).HasByte a j → fs'.disk.disk a j = fs.disk.disk a j

theorem DifferInHidden.same {env : KfsEnv} {uid : UInt16} {fs fs' : VernisFs}
    (h : DifferInHidden env uid fs fs') : SameToUser env uid (HiddenByte env uid fs) fs fs' := by
  refine ⟨h.metadata, h.twin, fun a j hD => ?_, fun i hocc hsh k hk => ?_⟩
  · by_contra hne
    exact hD (h.hidden a j hne)
  · refine h.others i hocc ?_ _ _ ⟨k, hk, rfl, rfl⟩
    rintro ⟨path, hpath, hperm⟩
    exact hperm ((shownTo_iff hpath uid).mpr hsh)

end VernisOS
