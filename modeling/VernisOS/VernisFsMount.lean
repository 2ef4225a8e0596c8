import VernisOS.Lib.Run
import VernisOS.VernisFsTable

/-!
# Mounting VernisFS

`vfs_init`, which reads the superblock and the file table back from the disk, and
`vfs_list_dir`. Every successful call ends with the flush of both, so that a remount after it
finds the state that is in memory (`vfs_remount`).

A name on the disk that is not NUL-terminated has no `VfsFilename`, and `vfsInit` has no
result for such a table.
-/

open Bytes Slots Run

namespace VernisOS

/-- `VFS_MAGIC`. -/
def vfsMagic : UInt32 := 0x53465600

/-- The bytes of a buffer of sectors. -/
def byteAt (buf : ℕ → Sector) (k : ℕ) : UInt8 :=
  buf (k / 512) ⟨k % 512, mod_sector_lt k⟩

/-- The packed superblock in a buffer. -/
def VfsSuperblock.ofBytes (buf : ℕ → UInt8) : VfsSuperblock where
  magic := leAt32 buf 0
  version := leAt16 buf 4
  fileCount := leAt16 buf 6
  totalDataSectors := leAt32 buf 8
  firstFreeSector := leAt32 buf 12
  reserved := Vector.ofFn fun k => buf (16 + k.val)

/-- The `filename` field of an entry at the start of a buffer. -/
def nameBytes (buf : ℕ → UInt8) : List UInt8 :=
  (List.range vfsMaxFilename).map buf

theorem length_nameBytes (buf : ℕ → UInt8) : (nameBytes buf).length = vfsMaxFilename := by
  simp [nameBytes]

/-- The packed entry at the start of a buffer, whose name is NUL-terminated. -/
def VfsFileEntry.ofBytes (buf : ℕ → UInt8) (h : 0 ∈ nameBytes buf) : VfsFileEntry where
  filename := ⟨nameBytes buf, length_nameBytes buf, h⟩
  startSector := leAt32 buf 32
  size := leAt32 buf 36
  type := buf 40
  flags := buf 41
  mode := leAt16 buf 42
  uid := leAt16 buf 44
  gid := leAt16 buf 46
  reserved := Vector.ofFn fun k => buf (48 + k.val)

/-- The entries in a buffer. -/
def tableOfBytes (buf : ℕ → UInt8) : Option (Fin vfsMaxFiles → VfsFileEntry) :=
  if h : ∀ i : Fin vfsMaxFiles, 0 ∈ nameBytes fun k => buf (i.val * 64 + k) then
    some fun i => VfsFileEntry.ofBytes (fun k => buf (i.val * 64 + k)) (h i)
  else none

namespace VernisFs

/-- `vfs_init`. `ft_buf` is not initialised, and what is in it before the read is never
used. -/
def vfsInit (fs : VernisFs) : Option (Bool × VernisFs) :=
  let (rc, buf, disk) := fs.disk.read (vfsStartSector + vfsSuperblockSector) 1 fun _ _ => 0
  let fs := fs.setDisk disk
  if rc < 0 then some (false, fs)
  else
    let sb := VfsSuperblock.ofBytes (byteAt buf)
    if sb.magic ≠ vfsMagic then some (false, fs)
    else
      let fs := { fs with superblock := sb }
      let (rc, buf, disk) := fs.disk.read (vfsStartSector + vfsFiletableSector)
        vfsFiletableSectors fun _ _ => 0
      let fs := fs.setDisk disk
      if rc < 0 then some (false, fs)
      else (tableOfBytes (byteAt buf)).map fun filetable =>
        (true, { fs with filetable, ready := true })

/-! ## Listing -/

/-- The index of the last slash, 0 if there is none. -/
def lastSlash (child : List UInt8) : ℕ :=
  (List.range child.length).foldl (fun last i => if child.getD i 0 = 47 then i else last) 0

/-- `vfs_is_child_of`. -/
def vfsIsChildOf (child parent : List UInt8) : Bool :=
  if lastSlash child = 0 then parent.getD 0 0 == 47 && parent.getD 1 0 == 0
  else
    (List.range (lastSlash child)).all (fun i =>
      child.getD i 0 == parent.getD i 0 && parent.getD i 0 != 0) &&
    parent.getD (lastSlash child) 0 == 0

/-- `vfs_list_dir` : the count, or -1 if nothing is mounted, and the names it puts out. -/
def vfsListDir (fs : VernisFs) (dirPath : CStr) (max : Int) : Int × List (List UInt8) :=
  if !fs.ready then (-1, [])
  else
    let out := (slots vfsMaxFiles).foldl (fun out i =>
      let e := fs.filetable i
      if max ≤ (out.length : Int) ∨ e.type = vfsTypeEmpty then out
      else if vfsStrcmp e.filename.str dirPath.chars = 0 then out
      else if vfsIsChildOf e.filename.str dirPath.chars then
        out ++ [vfsStrncpy vfsMaxFilename e.filename.str]
      else out) []
    (out.length, out)

end VernisFs

/-! ## Reading back -/

theorem ofFn_of_holds {buf : ℕ → UInt8} {o : ℕ} {v : Vector UInt8 16}
    (h : Holds buf o v.toList) : (Vector.ofFn fun k : Fin 16 => buf (o + k.val)) = v := by
  ext k hk
  rw [Vector.getElem_ofFn, h k (by simp [hk])]
  simp [hk]

/-- The superblock is read back as it was written. -/
theorem VfsSuperblock.ofBytes_eq {sb : VfsSuperblock} {buf : ℕ → UInt8}
    (h : Holds buf 0 sb.toBytes) : VfsSuperblock.ofBytes buf = sb := by
  simp only [VfsSuperblock.toBytes, holds_append] at h
  obtain ⟨⟨⟨⟨⟨hmagic, hversion⟩, hcount⟩, htotal⟩, hfree⟩, hreserved⟩ := h
  unfold VfsSuperblock.ofBytes
  rw [hmagic.le32, show leAt16 buf 4 = _ from hversion.le16, show leAt16 buf 6 = _ from hcount.le16,
    show leAt32 buf 8 = _ from htotal.le32, show leAt32 buf 12 = _ from hfree.le32,
    show (Vector.ofFn fun k : Fin 16 => buf (16 + k.val)) = _ from ofFn_of_holds hreserved]

theorem VfsFileEntry.length_toBytes (e : VfsFileEntry) : e.toBytes.length = 64 := by
  simp [VfsFileEntry.toBytes, le32, le16, e.filename.size]

theorem nameBytes_eq {f : VfsFilename} {buf : ℕ → UInt8} (h : Holds buf 0 f.bytes) :
    nameBytes buf = f.bytes := by
  have hmap := h.map_range
  simp only [f.size, Nat.zero_add] at hmap
  exact hmap

/-- An entry is read back as it was written. -/
theorem VfsFileEntry.ofBytes_eq {e : VfsFileEntry} {buf : ℕ → UInt8} (h : Holds buf 0 e.toBytes) :
    ∃ hname, VfsFileEntry.ofBytes buf hname = e := by
  simp only [VfsFileEntry.toBytes, holds_append, List.length_append, e.filename.size] at h
  obtain ⟨⟨⟨⟨⟨⟨⟨hname, hstart⟩, hsize⟩, htype⟩, hmode⟩, huid⟩, hgid⟩, hreserved⟩ := h
  have hbytes := nameBytes_eq hname
  have hflags : buf 41 = e.flags := htype 1 Nat.one_lt_two
  refine ⟨by rw [hbytes]; exact e.filename.terminated, ?_⟩
  obtain ⟨filename, startSector, size, type, flags, mode, uid, gid, reserved⟩ := e
  unfold VfsFileEntry.ofBytes
  congr 1
  · obtain ⟨bytes, hlen, hnul⟩ := filename
    congr 1
  · exact hstart.le32
  · exact hsize.le32
  · exact htype 0 Nat.two_pos
  · exact hmode.le16
  · exact huid.le16
  · exact hgid.le16
  · exact ofFn_of_holds hreserved

theorem tableOfBytes_eq {t : Fin vfsMaxFiles → VfsFileEntry} {buf : ℕ → UInt8}
    (h : Holds buf 0 ((slots vfsMaxFiles).flatMap fun i => (t i).toBytes)) :
    tableOfBytes buf = some t := by
  have hentry : ∀ i : Fin vfsMaxFiles,
      ∃ hname, VfsFileEntry.ofBytes (fun k => buf (i.val * 64 + k)) hname = t i := by
    intro i
    have hi := h.flatMap (fun j => (t j).length_toBytes) (getElem?_slots i)
    refine VfsFileEntry.ofBytes_eq fun k hk => ?_
    have hk' := hi k hk
    rw [Nat.zero_add] at hk' ⊢
    exact hk'
  have hnames : ∀ i : Fin vfsMaxFiles, 0 ∈ nameBytes fun k => buf (i.val * 64 + k) :=
    fun i => (hentry i).1
  rw [tableOfBytes, dif_pos hnames]
  exact congrArg some (funext fun i => (hentry i).2)

/-- Sectors that were written from a list hold it. -/
theorem holds_byteAt {bytes : List UInt8} {buf : ℕ → Sector} (count : ℕ)
    (h : ∀ s < count, buf s = sectorsOf bytes s) (hlen : bytes.length ≤ count * 512) :
    Holds (byteAt buf) 0 bytes := by
  intro k hk
  rw [Nat.zero_add, byteAt, h _ (Nat.div_lt_of_lt_mul (by omega)), sectorsOf]
  dsimp only
  rw [Nat.div_add_mod']

/-! ## The flush -/

namespace VernisFs

/-- The file table as it is written. -/
def tableBytes (t : Fin vfsMaxFiles → VfsFileEntry) : List UInt8 :=
  (slots vfsMaxFiles).flatMap fun i => (t i).toBytes

theorem length_tableBytes (t : Fin vfsMaxFiles → VfsFileEntry) :
    (tableBytes t).length = vfsFiletableSectors * 512 := by
  simp [tableBytes, List.length_flatMap, VfsFileEntry.length_toBytes, vfsFiletableSectors,
    vfsMaxFiles]

/-- The superblock and the file table on the disk are those in memory. -/
structure Synced (fs : VernisFs) : Prop where
  superblock : fs.disk.disk (vfsStartSector + vfsSuperblockSector) =
    sectorsOf fs.superblock.toBytes 0
  filetable : ∀ s < vfsFiletableSectors,
    fs.disk.disk (vfsStartSector + vfsFiletableSector + UInt32.ofNat s) =
      sectorsOf (tableBytes fs.filetable) s

theorem write_disk {b : Backend} {lba : UInt32} {count : ℕ} {buf : ℕ → Sector}
    (h : ¬ (b.write lba count buf).1 < 0) :
    (b.write lba count buf).2.disk = Backend.store b.disk lba buf count := by
  unfold Backend.write at h ⊢
  dsimp only at h ⊢
  split
  · rfl
  · next f hf =>
    rw [hf] at h
    exact absurd (by decide : (-1 : Int) < 0) h

theorem superblock_ne_filetable : ∀ k < vfsFiletableSectors,
    vfsStartSector + vfsSuperblockSector ≠
      vfsStartSector + vfsFiletableSector + UInt32.ofNat k := by
  intro k hk he
  have hk4 : k < 4 := hk
  have hval := congrArg UInt32.toNat he
  have h5120 : (vfsStartSector + vfsSuperblockSector).toNat = 5120 := rfl
  have h5121 : (vfsStartSector + vfsFiletableSector).toNat = 5121 := rfl
  rw [h5120, UInt32.toNat_add, h5121, UInt32.toNat_ofNat'] at hval
  omega

/-- A flush that returns 0 has written both. -/
theorem synced_flush {fs : VernisFs} (h : fs.vfsFlushMetadata.1 = 0) :
    fs.vfsFlushMetadata.2.Synced := by
  unfold vfsFlushMetadata at h ⊢
  dsimp only at h ⊢
  split at h
  · cases h
  · next hsb =>
    rw [if_neg hsb]
    have hft : ¬ ((fs.disk.write (vfsStartSector + vfsSuperblockSector) 1
        (sectorsOf fs.superblock.toBytes)).2.write (vfsStartSector + vfsFiletableSector)
        vfsFiletableSectors (sectorsOf ((slots vfsMaxFiles).flatMap
          fun i => (fs.filetable i).toBytes))).1 < 0 := by
      intro hneg
      rw [if_pos hneg] at h
      cases h
    refine ⟨?_, fun s hs => ?_⟩
    · dsimp only [setDisk]
      rw [write_disk hft, Backend.store_of_ne, write_disk hsb]
      · exact Function.update_self _ _ _
      · exact superblock_ne_filetable
    · dsimp only [setDisk]
      rw [write_disk hft, Backend.store_of_lt _ _ _ (by decide) hs]
      rfl

/-! ## Remounting -/

/-- `boot` finds the state of `fs` on the disk, and answers as `fs` does. -/
def Remounts (fs boot : VernisFs) : Prop :=
  ∃ fs', boot.vfsInit = some (true, fs') ∧ fs'.superblock = fs.superblock ∧
    fs'.filetable = fs.filetable ∧
    (∀ path, fs'.vfsFindFile path = fs.vfsFindFile path) ∧
    (∀ dir max, fs'.vfsListDir dir max = fs.vfsListDir dir max) ∧
    ∀ path buf maxLen, (fs'.vfsReadFile path buf maxLen).1 = (fs.vfsReadFile path buf maxLen).1 ∧
      (fs'.vfsReadFile path buf maxLen).2.1 = (fs.vfsReadFile path buf maxLen).2.1

theorem read_neverFails {b : Backend} (hb : b.NeverFails) (lba : UInt32) (count : ℕ)
    (buf : ℕ → Sector) :
    b.read lba count buf = ((count : Int),
      fun s => if s < count then b.disk (lba + UInt32.ofNat s) else buf s,
      { b with calls := b.calls + 1 }) := by
  rw [Backend.read, hb b.calls]

/-- On a disk that never fails, a read depends on the table and the contents alone. -/
theorem vfsReadFile_congr {fs fs' : VernisFs} (hb : fs.disk.NeverFails)
    (hb' : fs'.disk.NeverFails) (hready : fs'.ready = fs.ready)
    (htable : fs'.filetable = fs.filetable) (hdisk : fs'.disk.disk = fs.disk.disk) (path : CStr)
    (buf : ℕ → Sector) (maxLen : UInt64) :
    (fs'.vfsReadFile path buf maxLen).1 = (fs.vfsReadFile path buf maxLen).1 ∧
      (fs'.vfsReadFile path buf maxLen).2.1 = (fs.vfsReadFile path buf maxLen).2.1 := by
  have hfind : fs'.vfsFindFile path = fs.vfsFindFile path := by
    rw [vfsFindFile, vfsFindFile, hready, htable]
  cases hi : fs.vfsFindFile path with
  | none =>
    rw [hi] at hfind
    simp [vfsReadFile, hi, hfind]
  | some i =>
    rw [hi] at hfind
    obtain ⟨n, -, hn, hrc, hbuf⟩ := vfsReadFile_spec hi hb buf maxLen
    obtain ⟨n', -, hn', hrc', hbuf'⟩ := vfsReadFile_spec hfind hb' buf maxLen
    rw [htable, ← hn] at hn'
    subst hn'
    refine ⟨hrc'.trans hrc.symm, ?_⟩
    rw [hbuf, hbuf', htable, hdisk]

/-- `vfs_init` on a disk in step with the memory. -/
theorem Synced.vfsInit_eq {fs boot : VernisFs} (h : fs.Synced) (hdisk : boot.disk = fs.disk)
    (hb : fs.disk.NeverFails) (hmagic : fs.superblock.magic = vfsMagic) :
    boot.vfsInit = some (true, ⟨fs.superblock, fs.filetable, true,
      { fs.disk with calls := fs.disk.calls + 1 + 1 }⟩) := by
  have hsb : VfsSuperblock.ofBytes (byteAt fun s => if s < 1 then
      fs.disk.disk (vfsStartSector + vfsSuperblockSector + UInt32.ofNat s) else fun _ => 0) =
      fs.superblock := by
    refine VfsSuperblock.ofBytes_eq (holds_byteAt 1 (fun s hs => ?_) ?_)
    · obtain rfl : s = 0 := by omega
      rw [if_pos hs]
      exact h.superblock
    · simp [VfsSuperblock.toBytes, le32, le16]
  have hft : tableOfBytes (byteAt fun s => if s < vfsFiletableSectors then
      fs.disk.disk (vfsStartSector + vfsFiletableSector + UInt32.ofNat s) else fun _ => 0) =
      some fs.filetable := by
    refine tableOfBytes_eq (holds_byteAt vfsFiletableSectors (fun s hs => ?_) ?_)
    · rw [if_pos hs]
      exact h.filetable s hs
    · exact (length_tableBytes fs.filetable).le
  have hb' : Backend.NeverFails { fs.disk with calls := fs.disk.calls + 1 } := fun n => hb n
  unfold vfsInit
  rw [hdisk, read_neverFails hb]
  dsimp only
  rw [if_neg (by decide), hsb, if_neg (not_not.mpr hmagic), setDisk_disk, read_neverFails hb']
  dsimp only
  rw [if_neg (by decide), hft]
  rfl

theorem vfsInit_mounted {boot fs : VernisFs} (h : boot.vfsInit = some (true, fs)) :
    fs.superblock.magic = vfsMagic ∧ fs.ready = true := by
  unfold vfsInit at h
  dsimp only at h
  split at h
  · cases h
  · split at h
    · cases h
    · next hmagic =>
      split at h
      · cases h
      · obtain ⟨t, -, he⟩ := Option.map_eq_some_iff.mp h
        cases he
        exact ⟨not_not.mp hmagic, rfl⟩

theorem Synced.remounts {fs boot : VernisFs} (h : fs.Synced) (hdisk : boot.disk = fs.disk)
    (hb : fs.disk.NeverFails) (hmagic : fs.superblock.magic = vfsMagic)
    (hready : fs.ready = true) : fs.Remounts boot := by
  refine ⟨_, h.vfsInit_eq hdisk hb hmagic, rfl, rfl, fun path => ?_, fun dir max => ?_,
    vfsReadFile_congr hb (fun n => hb n) hready.symm rfl rfl⟩
  · rw [vfsFindFile, vfsFindFile, hready]
  · rw [vfsListDir, vfsListDir, hready]

/-! ## Calls -/

/-- A call with its return value. -/
def vfsCall (fs : VernisFs) : VfsOp → Option (Int × VernisFs)
  | .write p data len => some (fs.vfsWriteFile p data len)
  | .append p data len => fs.vfsAppendFile p data len
  | .mkdir p => some (fs.vfsMkdir p)
  | .delete p => some (fs.vfsDeleteFile p)
  | .chmod p mode => some (fs.vfsChmod p mode)
  | .chown p uid gid => some (fs.vfsChown p uid gid)

theorem vfsStep_eq_vfsCall (fs : VernisFs) (op : VfsOp) :
    vfsStep fs op = (fs.vfsCall op).map Prod.snd := by
  cases op <;> rfl

/-- The result is that of a flush that returned 0. -/
def Flushed (fs' : VernisFs) : Prop :=
  ∃ fs : VernisFs, fs.vfsFlushMetadata.1 = 0 ∧ fs' = fs.vfsFlushMetadata.2

theorem flushed_of_write {fs fs' : VernisFs} {path : CStr} {data : ℕ → UInt8} {len : UInt64}
    {rc : Int} (h : fs.vfsWriteFile path data len = (rc, fs')) (hrc : 0 ≤ rc) : fs'.Flushed := by
  unfold vfsWriteFile at h
  dsimp only at h
  split at h
  · cases h
    cases hrc
  · cases h
    split at hrc
    · next hz => exact ⟨_, hz, rfl⟩
    · cases hrc

theorem flushed_of_rc {fs fs' : VernisFs} {rc : Int}
    (h : (if fs.vfsFlushMetadata.1 = 0 then 0 else -1, fs.vfsFlushMetadata.2) = (rc, fs'))
    (hrc : 0 ≤ rc) : fs'.Flushed := by
  cases h
  split at hrc
  · next hz => exact ⟨fs, hz, rfl⟩
  · cases hrc

theorem flushed_of_nonneg {fs fs' : VernisFs} {rc : Int} (h : fs.vfsFlushMetadata = (rc, fs'))
    (hrc : 0 ≤ rc) : fs'.Flushed := by
  refine ⟨fs, ?_, by rw [h]⟩
  have hrc' : 0 ≤ fs.vfsFlushMetadata.1 := by
    rw [h]
    exact hrc
  unfold vfsFlushMetadata at hrc' ⊢
  dsimp only at hrc' ⊢
  split at hrc'
  · cases hrc'
  · next hsb =>
    rw [if_neg hsb]
    dsimp only at hrc' ⊢
    split at hrc'
    · cases hrc'
    · next hft => exact if_neg hft

/-- A call that succeeds ends with a flush. -/
theorem flushed_of_call {fs fs' : VernisFs} {op : VfsOp} {rc : Int}
    (h : fs.vfsCall op = some (rc, fs')) (hrc : 0 ≤ rc) : fs'.Flushed := by
  cases op with
  | write path data len => exact flushed_of_write (Option.some.inj h) hrc
  | append path data len =>
    simp only [vfsCall, vfsAppendFile, Option.map_eq_some_iff] at h
    obtain ⟨⟨o, fs₁⟩, -, he⟩ := h
    cases o with
    | none =>
      cases he
      cases hrc
    | some dl => exact flushed_of_write he hrc
  | mkdir path =>
    have he := Option.some.inj h
    unfold vfsMkdir at he
    split at he
    · cases he
      cases hrc
    · split at he
      · cases he
        cases hrc
      · split at he
        · cases he
          cases hrc
        · exact flushed_of_rc he hrc
  | delete path =>
    have he := Option.some.inj h
    unfold vfsDeleteFile at he
    split at he
    · cases he
      cases hrc
    · split at he
      · cases he
        cases hrc
      · exact flushed_of_rc he hrc
  | chmod path mode =>
    have he := Option.some.inj h
    unfold vfsChmod at he
    split at he
    · cases he
      cases hrc
    · exact flushed_of_nonneg he hrc
  | chown path uid gid =>
    have he := Option.some.inj h
    unfold vfsChown at he
    split at he
    · cases he
      cases hrc
    · exact flushed_of_nonneg he hrc

/-! ## What no call changes -/

/-- The volume stays mounted, on the same disk. -/
structure Kept (fs fs' : VernisFs) : Prop where
  magic : fs'.superblock.magic = fs.superblock.magic
  ready : fs'.ready = fs.ready
  fault : fs'.disk.fault = fs.disk.fault

theorem Kept.refl (fs : VernisFs) : Kept fs fs :=
  ⟨rfl, rfl, rfl⟩

theorem Kept.setDisk {fs fs' : VernisFs} {d : Backend} {R : UInt32 → Prop}
    (hmagic : fs'.superblock.magic = fs.superblock.magic) (hready : fs'.ready = fs.ready)
    (hw : Backend.Wrote fs.disk d R) : Kept fs (fs'.setDisk d) :=
  ⟨hmagic, hready, hw.fault⟩

theorem updateEntry_magic (fs : VernisFs) (slot : Fin vfsMaxFiles) (len n : UInt32) :
    (fs.updateEntry slot len n).superblock.magic = fs.superblock.magic := by
  unfold updateEntry
  dsimp only
  split <;> rfl

theorem kept_write (fs : VernisFs) (path : CStr) (data : ℕ → UInt8) (len : UInt64) :
    Kept fs (fs.vfsWriteFile path data len).2 := by
  rcases vfsWriteFile_cases fs path data len with ⟨-, he⟩ | ⟨slot, fs₀, d, hopen, hw, hcase⟩
  · rw [he]
    exact Kept.refl fs
  · have hopened : fs₀.superblock.magic = fs.superblock.magic ∧ fs₀.ready = fs.ready := by
      obtain ⟨-, ⟨-, rfl⟩ | ⟨-, -, rfl⟩⟩ := openSlot_some hopen
      · exact ⟨rfl, rfl⟩
      · exact ⟨rfl, rfl⟩
    rcases hcase with ⟨-, he⟩ | ⟨-, he⟩
    · rw [he]
      exact Kept.setDisk hopened.1 hopened.2 hw
    · rw [he]
      refine Kept.setDisk ?_ ?_ hw
      · rw [updateEntry_magic, hopened.1]
      · rw [updateEntry_ready, hopened.2]

theorem kept_step {fs fs' : VernisFs} (op : VfsOp) (h : vfsStep fs op = some fs') :
    Kept fs fs' := by
  cases op with
  | write path data len =>
    cases h
    exact kept_write fs path data len
  | append path data len =>
    obtain ⟨d, hw, -, ⟨-, rfl⟩ | ⟨data', len', -, rfl⟩⟩ := vfsAppendFile_step h
    · exact Kept.setDisk rfl rfl hw
    · have hkept := kept_write (fs.setDisk d) path data' len'
      exact ⟨hkept.magic, hkept.ready, hkept.fault.trans hw.fault⟩
  | mkdir path =>
    cases h
    rcases vfsMkdir_cases fs path with ⟨-, he⟩ | ⟨i, d, -, -, -, hw, he⟩
    · rw [he]
      exact Kept.refl fs
    · rw [he]
      exact Kept.setDisk rfl rfl hw
  | delete path =>
    cases h
    rcases vfsDeleteFile_cases fs path with he | ⟨i, d, -, -, hw, he⟩
    · rw [he]
      exact Kept.refl fs
    · rw [he]
      refine Kept.setDisk ?_ ?_ hw <;> unfold deleted <;> split <;> rfl
  | chmod path mode =>
    cases h
    rcases vfsChmod_cases fs path mode with he | ⟨i, d, m, u, g, -, hw, he⟩
    · rw [he]
      exact Kept.refl fs
    · rw [he]
      exact Kept.setDisk rfl rfl hw
  | chown path uid gid =>
    cases h
    rcases vfsChown_cases fs path uid gid with he | ⟨i, d, m, u, g, -, hw, he⟩
    · rw [he]
      exact Kept.refl fs
    · rw [he]
      exact Kept.setDisk rfl rfl hw

end VernisFs

/-! ## Runs -/

/-- A mounted volume, and whether the last call that changed anything succeeded. -/
structure VfsRun where
  fs : VernisFs
  succeeded : Prop

namespace VfsRun

/-- Superblock, table and disk are those of `fs`. -/
def Unchanged (fs fs' : VernisFs) : Prop :=
  fs'.superblock = fs.superblock ∧ fs'.filetable = fs.filetable ∧
    fs'.disk.disk = fs.disk.disk

/-- One call; `none` if it has no defined result. -/
def next (s : VfsRun) (op : VfsOp) : Option VfsRun :=
  (s.fs.vfsCall op).map fun r =>
    ⟨r.2, 0 ≤ r.1 ∨ Unchanged s.fs r.2 ∧ s.succeeded⟩

/-- A remount finds the volume as it is in memory. -/
def Agrees (s : VfsRun) : Prop :=
  s.succeeded → ∀ boot : VernisFs, boot.disk = s.fs.disk → s.fs.Remounts boot

/-- The volume is mounted on a disk that never fails, and in step with it after a success. -/
structure Inv (s : VfsRun) : Prop where
  magic : s.fs.superblock.magic = vfsMagic
  ready : s.fs.ready = true
  disk : s.fs.disk.NeverFails
  synced : s.succeeded → s.fs.Synced

theorem Inv.agrees {s : VfsRun} (h : s.Inv) : s.Agrees := fun hs _ hboot =>
  (h.synced hs).remounts hboot h.disk h.magic h.ready

theorem Inv.step {s s' : VfsRun} {op : VfsOp} (h : s.Inv) (hstep : s.next op = some s') :
    s'.Inv := by
  obtain ⟨⟨rc, fs'⟩, hcall, rfl⟩ := Option.map_eq_some_iff.mp hstep
  have hkept : s.fs.Kept fs' := by
    refine VernisFs.kept_step op ?_
    rw [VernisFs.vfsStep_eq_vfsCall, hcall]
    rfl
  refine ⟨hkept.magic.trans h.magic, hkept.ready.trans h.ready, fun n => ?_, ?_⟩
  · rw [hkept.fault]
    exact h.disk n
  · rintro (hrc | ⟨⟨hsb, hft, hdisk⟩, hsucc⟩)
    · obtain ⟨fs, hflush, he⟩ := VernisFs.flushed_of_call hcall hrc
      rw [he]
      exact VernisFs.synced_flush hflush
    · have hsynced := h.synced hsucc
      refine ⟨?_, fun k hk => ?_⟩
      · rw [hdisk, hsb]
        exact hsynced.superblock
      · rw [hdisk, hft]
        exact hsynced.filetable k hk

end VfsRun

/-- In every run of a volume that was mounted from a disk that never fails, whenever the last
call that changed anything succeeded, a remount finds the superblock and the file table that
are in memory and gives the same answers. -/
theorem vfs_remount (boot fs : VernisFs) (hmount : boot.vfsInit = some (true, fs))
    (hdisk : fs.disk.NeverFails) (ops : List VfsOp) :
    After VfsRun.next VfsRun.Agrees ⟨fs, False⟩ ops := by
  obtain ⟨hmagic, hready⟩ := VernisFs.vfsInit_mounted hmount
  have hrun : After VfsRun.next VfsRun.Inv ⟨fs, False⟩ ops := by
    refine After.of_along (G := fun _ _ => True) ?_ ops _ ⟨hmagic, hready, hdisk, False.elim⟩
      (along_true ops _)
    intro s op s' h _ hstep
    exact h.step hstep
  exact After.mono (fun _ h => VfsRun.Inv.agrees h) ops _ hrun

/-- The volume without files, written to its disk. -/
def flushedVolume : VernisFs :=
  VernisFs.emptyVolume.vfsFlushMetadata.2

theorem vfs_remount_flushedVolume : ∃ fs, flushedVolume.vfsInit = some (true, fs) ∧
    fs.disk.NeverFails ∧ After VfsRun.next VfsRun.Agrees ⟨fs, False⟩
      [.write VernisFs.pathA (fun _ => 7) 1, .chmod VernisFs.pathA 0o600,
        .delete VernisFs.pathA] := by
  have hsynced : flushedVolume.Synced := VernisFs.synced_flush rfl
  have hdisk : flushedVolume.disk.NeverFails := fun _ => rfl
  have hmount := hsynced.vfsInit_eq rfl hdisk rfl
  exact ⟨_, hmount, hdisk, vfs_remount _ _ hmount hdisk _⟩

end VernisOS
