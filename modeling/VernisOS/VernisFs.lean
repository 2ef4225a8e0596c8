import Mathlib.Data.List.Basic
import VernisOS.Disk
import VernisOS.Lib.Bytes
import VernisOS.Lib.Slots

/-!
# VernisFS

`kernel/fs/vernisfs.c` : a volume of one superblock, a table of 32 file entries and data
sectors given out by a bump pointer. The superblock and the table are kept in memory and
written back by `vfsFlushMetadata` after every change. `vfsWriteFile` is split where
`vfs_write_file` calls it : `vfsWriteData` is everything before.

A name in the table is NUL-terminated, as the header says, and `VfsFilename` holds the
proof. A path is the characters before its NUL (`CStr`), of any number.
-/

open Bytes Slots

namespace VernisOS

/-! ## Layout -/

/-- `VFS_START_SECTOR`. -/
def vfsStartSector : UInt32 := 5120

/-- `VFS_SUPERBLOCK_SECTOR`. -/
def vfsSuperblockSector : UInt32 := 0

/-- `VFS_FILETABLE_SECTOR`. -/
def vfsFiletableSector : UInt32 := 1

/-- `VFS_FILETABLE_SECTORS`. -/
def vfsFiletableSectors : ℕ := 4

/-- `VFS_DATA_SECTOR`. -/
def vfsDataSector : UInt32 := 5

/-- `VFS_MAX_FILES`. -/
abbrev vfsMaxFiles : ℕ := 32

instance neZeroFiles : NeZero vfsMaxFiles :=
  ⟨by decide⟩

/-- `VFS_MAX_FILENAME`. -/
abbrev vfsMaxFilename : ℕ := 32

/-- `VFS_TYPE_EMPTY`. -/
def vfsTypeEmpty : UInt8 := 0

/-- `VFS_TYPE_REGULAR`. -/
def vfsTypeRegular : UInt8 := 1

/-- `VFS_TYPE_DIRECTORY`. -/
def vfsTypeDirectory : UInt8 := 2

/-- `VFS_MODE_DEFAULT_FILE`. -/
def vfsModeDefaultFile : UInt16 := 0o644

/-- `VFS_MODE_DEFAULT_DIR`. -/
def vfsModeDefaultDir : UInt16 := 0o755

/-! ## Strings -/

/-- A NUL-terminated string of the caller, without its NUL. -/
structure CStr where
  chars : List UInt8
  noNul : 0 ∉ chars

/-- Compare two strings; the end of a list is the NUL. -/
def vfsStrcmp : List UInt8 → List UInt8 → Int
  | [], [] => 0
  | [], b :: _ => -b.toNat
  | a :: _, [] => a.toNat
  | a :: as, b :: bs => if a = b then vfsStrcmp as bs else a.toNat - b.toNat

/-- Copy at most `n - 1` characters and fill up to `n` with NULs. -/
def vfsStrncpy : ℕ → List UInt8 → List UInt8
  | 0, _ => []
  | 1, _ => [0]
  | n + 2, [] => 0 :: vfsStrncpy (n + 1) []
  | n + 2, c :: cs => c :: vfsStrncpy (n + 1) cs

theorem length_vfsStrncpy (n : ℕ) (src : List UInt8) : (vfsStrncpy n src).length = n := by
  fun_induction vfsStrncpy n src with
  | case1 => rfl
  | case2 => rfl
  | case3 n ih => simp [ih]
  | case4 n c cs ih => simp [ih]

theorem zero_mem_vfsStrncpy {n : ℕ} (hn : 0 < n) (src : List UInt8) : 0 ∈ vfsStrncpy n src := by
  fun_induction vfsStrncpy n src with
  | case1 => omega
  | case2 => simp
  | case3 n ih => simp
  | case4 n c cs ih => exact List.mem_cons_of_mem _ (ih (by omega))

/-- The `filename` field. -/
structure VfsFilename where
  bytes : List UInt8
  size : bytes.length = vfsMaxFilename
  terminated : 0 ∈ bytes

namespace VfsFilename

/-- The name the field holds. -/
def str (f : VfsFilename) : List UInt8 :=
  f.bytes.takeWhile (· ≠ 0)

/-- The field after `vfs_strncpy(filename, path, VFS_MAX_FILENAME)`. -/
def ofPath (path : CStr) : VfsFilename :=
  ⟨vfsStrncpy vfsMaxFilename path.chars, length_vfsStrncpy _ _,
    zero_mem_vfsStrncpy (by decide) _⟩

/-- The field of a zeroed entry. -/
def zero : VfsFilename :=
  ⟨List.replicate vfsMaxFilename 0, by simp, by simp⟩

end VfsFilename

/-! ## Superblock and file table -/

/-- Superblock. -/
structure VfsSuperblock where
  magic : UInt32
  version : UInt16
  fileCount : UInt16
  totalDataSectors : UInt32
  firstFreeSector : UInt32
  reserved : Vector UInt8 16

/-- File table entry. -/
structure VfsFileEntry where
  filename : VfsFilename
  startSector : UInt32
  size : UInt32
  type : UInt8
  flags : UInt8
  mode : UInt16
  uid : UInt16
  gid : UInt16
  reserved : Vector UInt8 16

/-- The entry `vfs_delete_file` leaves, all its bytes zero. -/
def VfsFileEntry.zero : VfsFileEntry :=
  ⟨VfsFilename.zero, 0, 0, 0, 0, 0, 0, 0, Vector.replicate 16 0⟩

/-- The state of `vernisfs.c`, with the disk behind its two function pointers. -/
structure VernisFs where
  superblock : VfsSuperblock
  filetable : Fin vfsMaxFiles → VfsFileEntry
  ready : Bool
  disk : Backend

/-- The packed superblock. -/
def VfsSuperblock.toBytes (sb : VfsSuperblock) : List UInt8 :=
  le32 sb.magic ++ le16 sb.version ++ le16 sb.fileCount ++ le32 sb.totalDataSectors ++
    le32 sb.firstFreeSector ++ sb.reserved.toList

/-- The packed file table entry. -/
def VfsFileEntry.toBytes (e : VfsFileEntry) : List UInt8 :=
  e.filename.bytes ++ le32 e.startSector ++ le32 e.size ++ [e.type, e.flags] ++ le16 e.mode ++
    le16 e.uid ++ le16 e.gid ++ e.reserved.toList

/-- A zeroed buffer of sectors with `bytes` at its start. -/
def sectorsOf (bytes : List UInt8) (s : ℕ) : Sector :=
  fun j => bytes.getD (s * 512 + j.val) 0

namespace VernisFs

/-! ## Updates -/

/-- Replace one entry. -/
def setEntry (fs : VernisFs) (i : Fin vfsMaxFiles) (e : VfsFileEntry) : VernisFs :=
  { fs with filetable := Function.update fs.filetable i e }

/-- The file system with the disk as a call left it. -/
def setDisk (fs : VernisFs) (disk : Backend) : VernisFs :=
  { fs with disk := disk }

/-- Set `file_count`. -/
def setFileCount (fs : VernisFs) (n : UInt16) : VernisFs :=
  { fs with superblock := { fs.superblock with fileCount := n } }

/-- Set `first_free_sector`. -/
def setFirstFree (fs : VernisFs) (n : UInt32) : VernisFs :=
  { fs with superblock := { fs.superblock with firstFreeSector := n } }

/-! ## Lookup -/

/-- The first entry in use whose name is `path`. -/
def findSlot (t : Fin vfsMaxFiles → VfsFileEntry) (path : CStr) : Option (Fin vfsMaxFiles) :=
  first fun i => (t i).type != vfsTypeEmpty && vfsStrcmp (t i).filename.str path.chars == 0

/-- The first entry not in use. -/
def emptySlot (t : Fin vfsMaxFiles → VfsFileEntry) : Option (Fin vfsMaxFiles) :=
  first fun i => (t i).type == vfsTypeEmpty

/-- Find a file by path (`vfs_find_file` and `vfs_find_file_mut`). -/
def vfsFindFile (fs : VernisFs) (path : CStr) : Option (Fin vfsMaxFiles) :=
  if !fs.ready then none else findSlot fs.filetable path

/-- The count of the entries in use, as `vfs_write_file` takes it. -/
def countActive (t : Fin vfsMaxFiles → VfsFileEntry) : UInt16 :=
  (slots vfsMaxFiles).foldl (fun n i => if (t i).type ≠ vfsTypeEmpty then n + 1 else n) 0

/-! ## Reading -/

/-- Sectors `vfs_read_file` reads for `size` bytes; the sum wraps at 32 bits. -/
def readSectors (size : UInt32) : ℕ :=
  min ((size + 511) / 512).toNat 255

/-- The loop of `vfs_read_file`, at sector `read`. A pass reads at least one sector, so
`fuel` passes are enough for `fuel` sectors. -/
def readChunks (abs : UInt32) (sectors : ℕ) :
    ℕ → ℕ → Backend → (ℕ → Sector) → Bool × (ℕ → Sector) × Backend
  | 0, _, b, buf => (true, buf, b)
  | fuel + 1, read, b, buf =>
    if read < sectors then
      let chunk := if 128 < sectors - read then 128 else sectors - read
      let (rc, got, b) := b.read (abs + UInt32.ofNat read) chunk fun s => buf (read + s)
      let buf := fun s => if s < read then buf s else got (s - read)
      if rc < 0 then (false, buf, b) else readChunks abs sectors fuel (read + chunk) b buf
    else (true, buf, b)

/-- Read a file into `buf` : the return value and the buffer left. -/
def vfsReadFile (fs : VernisFs) (path : CStr) (buf : ℕ → Sector) (maxLen : UInt64) :
    Int × (ℕ → Sector) × VernisFs :=
  match fs.vfsFindFile path with
  | none => (-1, buf, fs)
  | some i =>
    let size := (fs.filetable i).size
    let size := if maxLen < size.toUInt64 then maxLen.toUInt32 else size
    let sectors := readSectors size
    let abs := vfsStartSector + vfsDataSector + (fs.filetable i).startSector
    let (ok, buf, disk) := readChunks abs sectors sectors 0 fs.disk buf
    (if ok then cInt size else -1, buf, fs.setDisk disk)

/-! ## Writing -/

/-- Write back the superblock and the file table : 0, or -1 if a write fails. -/
def vfsFlushMetadata (fs : VernisFs) : Int × VernisFs :=
  let (rc, disk) := fs.disk.write (vfsStartSector + vfsSuperblockSector) 1
    (sectorsOf fs.superblock.toBytes)
  if rc < 0 then (-1, fs.setDisk disk)
  else
    let (rc, disk) := disk.write (vfsStartSector + vfsFiletableSector) vfsFiletableSectors
      (sectorsOf ((slots vfsMaxFiles).flatMap fun i => (fs.filetable i).toBytes))
    (if rc < 0 then -1 else 0, fs.setDisk disk)

/-- Write `n` sectors of `src` one by one, from sector `s` of the request on. -/
def writeEach (abs : UInt32) (src : ℕ → Sector) (s : ℕ) : ℕ → Backend → Bool × Backend
  | 0, b => (true, b)
  | n + 1, b =>
    let (rc, b) := b.write (abs + UInt32.ofNat s) 1 fun _ => src s
    if rc < 0 then (false, b) else writeEach abs src (s + 1) n b

/-- Write the full sectors of `data`, then the rest padded with zeros. -/
def writeSectors (abs : UInt32) (data : ℕ → UInt8) (len : UInt32) (b : Backend) :
    Bool × Backend :=
  let full := len.toNat / 512
  let remainder := len.toNat % 512
  let (ok, b) := writeEach abs (fun s j => data (s * 512 + j.val)) 0 full b
  if !ok then (false, b)
  else if 0 < remainder then
    let (rc, b) := b.write (abs + UInt32.ofNat full) 1
      fun _ j => if j.val < remainder then data (full * 512 + j.val) else 0
    (!decide (rc < 0), b)
  else (true, b)

/-- The entry and the superblock after the data is written : size, free pointer, count. -/
def updateEntry (fs : VernisFs) (slot : Fin vfsMaxFiles) (len sectors : UInt32) : VernisFs :=
  let fs := fs.setEntry slot { fs.filetable slot with size := len }
  let endSector := (fs.filetable slot).startSector + sectors
  let fs := if fs.superblock.firstFreeSector < endSector then fs.setFirstFree endSector else fs
  fs.setFileCount (countActive fs.filetable)

/-- Sectors `vfs_write_file` counts for `len` bytes; the sum wraps at 32 bits. -/
def sectorsFor (len : UInt32) : UInt32 :=
  (len + 511) / 512

/-- `vfs_write_file` once it has its slot, up to the metadata flush. `false` stands for
the return of -1. -/
def writeSlot (fs : VernisFs) (slot : Fin vfsMaxFiles) (data : ℕ → UInt8) (len : UInt64) :
    Bool × VernisFs :=
  let len := len.toUInt32
  let sectors := sectorsFor len
  if 255 < sectors then (false, fs)
  else
    let abs := vfsStartSector + vfsDataSector + (fs.filetable slot).startSector
    let (ok, disk) := writeSectors abs data len fs.disk
    if !ok then (false, fs.setDisk disk)
    else (true, (fs.setDisk disk).updateEntry slot len sectors)

/-- The entry of a new file : `size` and `reserved` stay what they were in the slot. -/
def newEntry (fs : VernisFs) (slot : Fin vfsMaxFiles) (path : CStr) : VfsFileEntry :=
  { fs.filetable slot with
    filename := VfsFilename.ofPath path
    type := vfsTypeRegular
    flags := 0
    mode := vfsModeDefaultFile
    uid := 0
    gid := 0
    startSector := fs.superblock.firstFreeSector }

/-- `vfs_write_file` up to the metadata flush. -/
def vfsWriteData (fs : VernisFs) (path : CStr) (data : ℕ → UInt8) (len : UInt64) :
    Bool × VernisFs :=
  if !fs.ready then (false, fs)
  else
    match findSlot fs.filetable path with
    | some slot => fs.writeSlot slot data len
    | none =>
      match emptySlot fs.filetable with
      | none => (false, fs)
      | some slot => (fs.setEntry slot (fs.newEntry slot path)).writeSlot slot data len

/-- Write file contents : the bytes written, or -1 on an error. -/
def vfsWriteFile (fs : VernisFs) (path : CStr) (data : ℕ → UInt8) (len : UInt64) :
    Int × VernisFs :=
  let (ok, fs) := fs.vfsWriteData path data len
  if !ok then (-1, fs)
  else
    let (rc, fs) := fs.vfsFlushMetadata
    (if rc = 0 then cInt len.toUInt32 else -1, fs)

/-! ## The other operations -/

/-- Delete a file or directory : 0, or -1 if it is not found or the flush fails. -/
def vfsDeleteFile (fs : VernisFs) (path : CStr) : Int × VernisFs :=
  if !fs.ready then (-1, fs)
  else
    match findSlot fs.filetable path with
    | none => (-1, fs)
    | some i =>
      let fs := fs.setEntry i VfsFileEntry.zero
      let n := fs.superblock.fileCount
      let (rc, fs) := (if 0 < n then fs.setFileCount (n - 1) else fs).vfsFlushMetadata
      (if rc = 0 then 0 else -1, fs)

/-- The entry of a new directory : `start_sector` and `reserved` stay what they were. -/
def newDirectory (fs : VernisFs) (slot : Fin vfsMaxFiles) (path : CStr) : VfsFileEntry :=
  { fs.filetable slot with
    filename := VfsFilename.ofPath path
    type := vfsTypeDirectory
    size := 0
    flags := 0
    mode := vfsModeDefaultDir
    uid := 0
    gid := 0 }

/-- Create a directory entry : 0, or -1 on an error. -/
def vfsMkdir (fs : VernisFs) (path : CStr) : Int × VernisFs :=
  if !fs.ready then (-1, fs)
  else if (fs.vfsFindFile path).isSome then (-1, fs)
  else
    match emptySlot fs.filetable with
    | none => (-1, fs)
    | some i =>
      let fs := fs.setEntry i (fs.newDirectory i path)
      let (rc, fs) := (fs.setFileCount (fs.superblock.fileCount + 1)).vfsFlushMetadata
      (if rc = 0 then 0 else -1, fs)

/-- The bytes of `tmp` after the loop that appends `copy` bytes of `data`. -/
def appended (tmp : ℕ → Sector) (existing : ℕ) (data : ℕ → UInt8) (k : ℕ) : UInt8 :=
  if k < existing then tmp (k / 512) ⟨k % 512, Nat.mod_lt k (by decide)⟩ else data (k - existing)

/-- `vfs_append_file` up to its call of `vfs_write_file` : the bytes and the length it
passes on, or the inner `none` where it returns -1. The outer `none` is a call that writes
behind the 4096 bytes of `tmp`, which has no defined result. What an earlier call left in
`tmp` is never read. -/
def appendRequest (fs : VernisFs) (path : CStr) (data : ℕ → UInt8) (len : UInt64) :
    Option (Option ((ℕ → UInt8) × UInt64) × VernisFs) :=
  match fs.vfsFindFile path with
  | none => some (some (data, len), fs)
  | some i =>
    let existing := (fs.filetable i).size
    let total := existing + len.toUInt32
    let total := if 4096 < total then 4096 else total
    if 4096 < readSectors existing * 512 then none
    else
      let (r, tmp, fs) := fs.vfsReadFile path (fun _ _ => 0) existing.toUInt64
      if r < 0 then some (none, fs)
      else
        let copy := total - existing
        if 4096 < existing.toNat + copy.toNat then none
        else some (some (appended tmp existing.toNat data, total.toUInt64), fs)

/-- `vfs_append_file` up to the metadata flush. -/
def vfsAppendData (fs : VernisFs) (path : CStr) (data : ℕ → UInt8) (len : UInt64) :
    Option (Bool × VernisFs) :=
  (fs.appendRequest path data len).map fun
    | (none, fs) => (false, fs)
    | (some (data, len), fs) => fs.vfsWriteData path data len

/-- Append to a file : the new size, or -1 on an error. -/
def vfsAppendFile (fs : VernisFs) (path : CStr) (data : ℕ → UInt8) (len : UInt64) :
    Option (Int × VernisFs) :=
  (fs.appendRequest path data len).map fun
    | (none, fs) => (-1, fs)
    | (some (data, len), fs) => fs.vfsWriteFile path data len

/-- Set the permission bits of a file. -/
def vfsChmod (fs : VernisFs) (path : CStr) (mode : UInt16) : Int × VernisFs :=
  match fs.vfsFindFile path with
  | none => (-1, fs)
  | some i => (fs.setEntry i { fs.filetable i with mode := mode &&& 0o777 }).vfsFlushMetadata

/-- Set the owner of a file. -/
def vfsChown (fs : VernisFs) (path : CStr) (uid gid : UInt16) : Int × VernisFs :=
  match fs.vfsFindFile path with
  | none => (-1, fs)
  | some i => (fs.setEntry i { fs.filetable i with uid := uid, gid := gid }).vfsFlushMetadata

end VernisFs

/-- A call that may change the volume. -/
inductive VfsOp where
  | write (path : CStr) (data : ℕ → UInt8) (len : UInt64)
  | append (path : CStr) (data : ℕ → UInt8) (len : UInt64)
  | mkdir (path : CStr)
  | delete (path : CStr)
  | chmod (path : CStr) (mode : UInt16)
  | chown (path : CStr) (uid gid : UInt16)

/-- The path a call is about. -/
def VfsOp.path : VfsOp → CStr
  | .write p _ _ => p
  | .append p _ _ => p
  | .mkdir p => p
  | .delete p => p
  | .chmod p _ => p
  | .chown p _ _ => p

/-- The file system after a call, `none` if the call has no defined result. -/
def vfsStep (fs : VernisFs) : VfsOp → Option VernisFs
  | .write p data len => some (fs.vfsWriteFile p data len).2
  | .append p data len => (fs.vfsAppendFile p data len).map Prod.snd
  | .mkdir p => some (fs.vfsMkdir p).2
  | .delete p => some (fs.vfsDeleteFile p).2
  | .chmod p mode => some (fs.vfsChmod p mode).2
  | .chown p uid gid => some (fs.vfsChown p uid gid).2

end VernisOS
