import Mathlib.Data.List.TakeWhile
import VernisOS.UserMemory
import VernisOS.VernisFs

/-!
# The file layer

`kernel/fs/vfs.c` : paths under `/mnt/fat32` and `/mnt/ext2` go to the two read-only volumes,
a few names under `/proc` and `/dev` are made up, and every other path is a file of VernisFS.
The two volumes and the texts of `/proc` are a `KfsEnv`. A file is read into a buffer with
room for the bytes that are asked for.
-/

namespace VernisOS

/-! ## Paths -/

/-- `"/proc"`. -/
def pathProc : List UInt8 := [47, 112, 114, 111, 99]

/-- `"/dev"`. -/
def pathDev : List UInt8 := [47, 100, 101, 118]

/-- `"/proc/uptime"`. -/
def pathProcUptime : List UInt8 := pathProc ++ [47, 117, 112, 116, 105, 109, 101]

/-- `"/proc/ps"`. -/
def pathProcPs : List UInt8 := pathProc ++ [47, 112, 115]

/-- `"/proc/fs"`. -/
def pathProcFs : List UInt8 := pathProc ++ [47, 102, 115]

/-- `"/dev/null"`. -/
def pathDevNull : List UInt8 := pathDev ++ [47, 110, 117, 108, 108]

/-- `"/dev/zero"`. -/
def pathDevZero : List UInt8 := pathDev ++ [47, 122, 101, 114, 111]

/-- `"/mnt"`. -/
def pathMnt : List UInt8 := [47, 109, 110, 116]

/-- `KFS_MNT_FAT32`. -/
def kfsMntFat32 : List UInt8 := pathMnt ++ [47, 102, 97, 116, 51, 50]

/-- `KFS_MNT_EXT2`. -/
def kfsMntExt2 : List UInt8 := pathMnt ++ [47, 101, 120, 116, 50]

/-- The path that a `char` array holds. -/
def CString.path {n : ℕ} (p : CString n) : CStr where
  chars := p.val.takeWhile (· ≠ 0)
  noNul := fun h => by simpa using List.mem_takeWhile_imp h

/-- `kfs_mount_subpath`. -/
def kfsMountSubpath (path mnt : List UInt8) : Option (List UInt8) :=
  if mnt.isPrefixOf path then
    match path.drop mnt.length with
    | [] => some [47]
    | c :: cs => if c = 47 then some (c :: cs) else none
  else none

/-- `kfs_path_is_pseudo`. -/
def kfsPathIsPseudo (path : List UInt8) : Bool :=
  path = pathProc || path = pathDev || path = pathProcUptime || path = pathProcPs ||
    path = pathProcFs || path = pathDevNull || path = pathDevZero || path = pathMnt

/-! ## Volumes -/

/-- What the other volumes and `/proc` answer : `fat32_stat` and `ext2_stat` with the size and
whether it is a directory, the reads with the room in the buffer. -/
structure KfsEnv where
  fat32Stat : List UInt8 → Option (UInt32 × Bool)
  fat32Read : List UInt8 → ℕ → Option (List UInt8)
  ext2Stat : List UInt8 → Option (UInt32 × Bool)
  ext2Read : List UInt8 → ℕ → Option (List UInt8)
  procUptime : ℕ → Option (List UInt8)
  procPs : ℕ → Option (List UInt8)
  procFs : ℕ → Option (List UInt8)

/-- No other volume is mounted, and `/proc` is empty. -/
def noMounts : KfsEnv :=
  ⟨fun _ => none, fun _ _ => none, fun _ => none, fun _ _ => none, fun _ => some [],
    fun _ => some [], fun _ => some []⟩

/-- An entry of a volume without permissions. -/
def kfsNode (path : CStr) (size : UInt32) (isDir : Bool) : VfsFileEntry :=
  ⟨VfsFilename.ofPath path, 0, size, if isDir then vfsTypeDirectory else vfsTypeRegular, 0, 0, 0,
    0, Vector.replicate 16 0⟩

/-- `kfs_find_mounted`. -/
def kfsFindMounted (env : KfsEnv) (path : CStr) : Option VfsFileEntry :=
  match kfsMountSubpath path.chars kfsMntFat32 with
  | some sp => (env.fat32Stat sp).map fun st => kfsNode path st.1 st.2
  | none =>
    match kfsMountSubpath path.chars kfsMntExt2 with
    | some sp => (env.ext2Stat sp).map fun st => kfsNode path st.1 st.2
    | none => none

/-- `kfs_find_pseudo`. -/
def kfsFindPseudo (path : CStr) : Option VfsFileEntry :=
  if kfsPathIsPseudo path.chars then
    some (kfsNode path 0 (path.chars = pathProc || path.chars = pathDev || path.chars = pathMnt))
  else none

/-- `kfs_find_file`. -/
def kfsFindFile (env : KfsEnv) (fs : VernisFs) (path : CStr) : Option VfsFileEntry :=
  match kfsFindMounted env path with
  | some e => some e
  | none =>
    match kfsFindPseudo path with
    | some e => some e
    | none => (fs.vfsFindFile path).map fs.filetable

/-- The first `n` bytes of a buffer. -/
def bufferBytes (buf : ℕ → Sector) (n : ℕ) : List UInt8 :=
  (List.range n).map fun k => buf (k / 512) ⟨k % 512, mod_sector_lt k⟩

/-- `vfs_read_file` into a cleared buffer, with the bytes that it returns, `none` for -1. -/
def vfsReadBytes (fs : VernisFs) (path : CStr) (maxLen : ℕ) : Option (List UInt8) × VernisFs :=
  let r := fs.vfsReadFile path (fun _ _ => 0) (UInt64.ofNat maxLen)
  (if r.1 < 0 then none else some (bufferBytes r.2.1 r.1.toNat), r.2.2)

/-- `kfs_read_file`, with the bytes read, `none` for -1. -/
def kfsReadFile (env : KfsEnv) (fs : VernisFs) (path : CStr) (maxLen : ℕ) :
    Option (List UInt8) × VernisFs :=
  if path.chars = pathDevNull then (some [], fs)
  else if path.chars = pathDevZero then (some (List.replicate maxLen 0), fs)
  else if path.chars = pathProcUptime then (env.procUptime maxLen, fs)
  else if path.chars = pathProcPs then (env.procPs maxLen, fs)
  else if path.chars = pathProcFs then (env.procFs maxLen, fs)
  else if path.chars = pathProc ∨ path.chars = pathDev then (none, fs)
  else
    match kfsMountSubpath path.chars kfsMntFat32 with
    | some sp => (env.fat32Read sp maxLen, fs)
    | none =>
      match kfsMountSubpath path.chars kfsMntExt2 with
      | some sp => (env.ext2Read sp maxLen, fs)
      | none => vfsReadBytes fs path maxLen

/-- The path is not one of VernisFS : writes to it go nowhere. -/
def kfsOutside (path : List UInt8) : Bool :=
  kfsPathIsPseudo path || (kfsMountSubpath path kfsMntFat32).isSome ||
    (kfsMountSubpath path kfsMntExt2).isSome

/-- `kfs_write_file`. -/
def kfsWriteFile (fs : VernisFs) (path : CStr) (data : List UInt8) : Int × VernisFs :=
  if path.chars = pathDevNull ∨ path.chars = pathDevZero then (data.length, fs)
  else if kfsOutside path.chars then (-1, fs)
  else fs.vfsWriteFile path (fun k => data.getD k 0) (UInt64.ofNat data.length)

/-- `kfs_mkdir`. -/
def kfsMkdir (fs : VernisFs) (path : CStr) : Int × VernisFs :=
  if kfsOutside path.chars then (-1, fs) else fs.vfsMkdir path

/-- `kfs_append_file`, `none` where the append has no defined result. -/
def kfsAppendFile (fs : VernisFs) (path : CStr) (data : List UInt8) : Option (Int × VernisFs) :=
  if path.chars = pathDevNull ∨ path.chars = pathDevZero then some (data.length, fs)
  else if kfsOutside path.chars then some (-1, fs)
  else fs.vfsAppendFile path (fun k => data.getD k 0) (UInt64.ofNat data.length)

/-- `kfs_delete_file`. -/
def kfsDeleteFile (fs : VernisFs) (path : CStr) : Int × VernisFs :=
  if kfsOutside path.chars then (-1, fs) else fs.vfsDeleteFile path

/-! ## Permissions -/

/-- The three bits of a mode that are for a user : the owner's, the group's, with the number
of the user for that of the group, or those of the others. -/
def VfsFileEntry.bitsFor (e : VfsFileEntry) (uid : UInt16) : UInt16 :=
  if uid = e.uid then (e.mode >>> 6) &&& 7
  else if uid = e.gid then (e.mode >>> 3) &&& 7
  else e.mode &&& 7

/-- `kfs_check_perm`. -/
def kfsCheckPerm (env : KfsEnv) (fs : VernisFs) (path : CStr) (uid : UInt16) (op : Char) : Int :=
  if uid = 0 then 0
  else
    match kfsFindFile env fs path with
    | none => -1
    | some e =>
      if e.mode = 0 then 0
      else if op = 'r' then if e.bitsFor uid &&& 4 ≠ 0 then 0 else -1
      else if op = 'w' then if e.bitsFor uid &&& 2 ≠ 0 then 0 else -1
      else if op = 'x' then if e.bitsFor uid &&& 1 ≠ 0 then 0 else -1
      else -1

end VernisOS
