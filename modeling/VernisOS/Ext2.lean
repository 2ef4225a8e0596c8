import VernisOS.Disk
import VernisOS.Lib.Bytes

/-!
# The ext2 driver

`kernel/fs/ext2.c` : mounting a volume, loading an inode, walking a path and reading or
listing what it leads to. The driver reads through the block cache; `disk` is what the cache
has for each sector, and `none` is a sector that cannot be read. A path is the bytes of the
string before its NUL.
-/

open Bytes

namespace VernisOS

/-- The static buffers that blocks are read into. -/
inductive Ext2Buffer
  | inodeLoad
  | dirFind
  | list
  | read

/-- `g_e2`, with what `inode_nth_block` keeps between its calls. -/
structure Ext2 where
  mounted : Bool
  baseLba : UInt32
  blockSize : UInt32
  sectorsPerBlock : UInt32
  inodesPerGroup : UInt32
  inodeSize : UInt32
  firstDataBlock : UInt32
  gdBlock : UInt32
  cachedInd : UInt32
  ind : ℕ → UInt8
  /-- What the buffers have behind a block of this volume. -/
  behind : Ext2Buffer → ℕ → UInt8

/-- The mode, the size and the block pointers of an inode. -/
structure Ext2Meta where
  mode : UInt16
  size : UInt32
  blocks : ℕ → UInt32

/-- A call of the callback of `ext2_list`. -/
structure Ext2Entry where
  name : List UInt8
  size : UInt32
  isDir : Bool

/-- `bcache_read` into a buffer; the sectors before one that cannot be read are stored. -/
def cacheRead (disk : UInt32 → Option Sector) (lba : UInt32) (count : ℕ) (buf : ℕ → UInt8) :
    Bool × (ℕ → UInt8) :=
  let readable n := (List.range n).all fun s => (disk (lba + UInt32.ofNat s)).isSome
  (readable count, fun k =>
    if k < count * 512 ∧ readable (k / 512 + 1) then
      (disk (lba + UInt32.ofNat (k / 512))).elim (buf k) (· (Fin.ofNat 512 k))
    else buf k)

/-- `(mode & S_IFMT) == S_IFDIR`. -/
def ext2IsDir (mode : UInt16) : Bool :=
  mode &&& 0xF000 == 0x4000

namespace Ext2

variable (disk : UInt32 → Option Sector)

/-- `read_block`. -/
def readBlock (e : Ext2) (block : UInt32) (buf : ℕ → UInt8) : Bool × (ℕ → UInt8) :=
  cacheRead disk (e.baseLba + block * e.sectorsPerBlock) e.sectorsPerBlock.toUInt8.toNat buf

/-- `ext2_mount`. -/
def ext2Mount (e : Ext2) (baseLba : UInt32) : Int × Ext2 :=
  let e := { e with mounted := false, baseLba := baseLba }
  let r := cacheRead disk (baseLba + 2) 2 fun _ => 0
  if r.1 = false then (-1, e)
  else if leAt16 r.2 56 ≠ 0xEF53 then (-1, e)
  else if 2 < leAt32 r.2 24 then (-1, e)
  else
    let e := { e with
      blockSize := 1024 <<< leAt32 r.2 24
      sectorsPerBlock := (1024 <<< leAt32 r.2 24) / 512
      inodesPerGroup := leAt32 r.2 40
      firstDataBlock := leAt32 r.2 20
      inodeSize := if 1 ≤ leAt32 r.2 76 then (leAt16 r.2 88).toUInt32 else 128 }
    if e.inodeSize < 128 ∨ e.inodesPerGroup = 0 then (-1, e)
    else (0, { e with gdBlock := e.firstDataBlock + 1, mounted := true })

/-- `inode_load`. -/
def inodeLoad (e : Ext2) (ino : UInt32) : Option Ext2Meta :=
  if ino = 0 then none
  else
    let group := (ino - 1) / e.inodesPerGroup
    let index := (ino - 1) % e.inodesPerGroup
    let gdPerBlock := e.blockSize / 32
    let r := e.readBlock disk (e.gdBlock + group / gdPerBlock) (e.behind .inodeLoad)
    if r.1 = false then none
    else
      let itable := leAt32 r.2 (group % gdPerBlock * 32 + 8).toNat
      let byteOff := index * e.inodeSize
      let r := e.readBlock disk (itable + byteOff / e.blockSize) r.2
      if r.1 = false then none
      else
        let o := (byteOff % e.blockSize).toNat
        some ⟨leAt16 r.2 o, leAt32 r.2 (o + 4), fun i => leAt32 r.2 (o + 40 + i * 4)⟩

/-- `inode_nth_block`. -/
def inodeNthBlock (e : Ext2) (blocks : ℕ → UInt32) (n : ℕ) : UInt32 × Ext2 :=
  if n < 12 then (blocks n, e)
  else if e.blockSize.toNat / 4 ≤ n - 12 ∨ blocks 12 = 0 then (0, e)
  else if e.cachedInd = blocks 12 then (leAt32 e.ind ((n - 12) * 4), e)
  else
    let r := e.readBlock disk (blocks 12) e.ind
    if r.1 = false then (0, { e with ind := r.2 })
    else (leAt32 r.2 ((n - 12) * 4), { e with ind := r.2, cachedInd := blocks 12 })

/-- The loop of `dir_find` over the entries of a block : what it returns, or `none` at the end
of the block. An entry takes eight bytes or more, which bounds the number of turns. -/
def dirScan (blk : ℕ → UInt8) (blockSize : ℕ) (name : List UInt8) : ℕ → ℕ → Option UInt32
  | 0, _ => none
  | turns + 1, off =>
    if blockSize < off + 8 then none
    else if leAt16 blk (off + 4) < 8 then some 0
    else if leAt32 blk off ≠ 0 ∧ (blk (off + 6)).toNat = name.length ∧
        (List.range name.length).map (fun i => blk (off + 8 + i)) = name then
      some (leAt32 blk off)
    else dirScan blk blockSize name turns (off + (leAt16 blk (off + 4)).toNat)

/-- The loop of `dir_find` over the blocks, from the `n`-th on. Behind the last block that an
inode can have, `inode_nth_block` ends it. -/
def dirFindFrom (inode : Ext2Meta) (name : List UInt8) : ℕ → ℕ → Ext2 → UInt32 × Ext2
  | 0, _, e => (0, e)
  | turns + 1, n, e =>
    if inode.size.toNat ≤ n * e.blockSize.toNat then (0, e)
    else
      let b := e.inodeNthBlock disk inode.blocks n
      let r := b.2.readBlock disk b.1 (b.2.behind .dirFind)
      if b.1 = 0 ∨ r.1 = false then (0, b.2)
      else
        match dirScan r.2 e.blockSize.toNat name (e.blockSize.toNat / 8 + 1) 0 with
        | some ino => (ino, b.2)
        | none => dirFindFrom inode name turns (n + 1) b.2

/-- The number of blocks that an inode can have, and one more. -/
def blockTurns (e : Ext2) : ℕ :=
  12 + e.blockSize.toNat / 4 + 1

/-- `dir_find`. -/
def dirFind (e : Ext2) (dirIno : UInt32) (name : List UInt8) : UInt32 × Ext2 :=
  match e.inodeLoad disk dirIno with
  | none => (0, e)
  | some inode =>
    if ext2IsDir inode.mode then dirFindFrom disk inode name e.blockTurns 0 e else (0, e)

/-- The loop of `resolve` over the path. Every turn takes a byte of it. -/
def resolveFrom : ℕ → UInt32 → List UInt8 → Ext2 → UInt32 × Ext2
  | 0, ino, _, e => (ino, e)
  | turns + 1, ino, path, e =>
    if path = [] then (ino, e)
    else
      let name := path.takeWhile (· ≠ 47)
      let rest := (path.dropWhile (· ≠ 47)).dropWhile (· = 47)
      if name = [] then resolveFrom turns ino rest e
      else if 255 < name.length then (0, e)
      else
        let r := e.dirFind disk ino name
        if r.1 = 0 then (0, r.2) else resolveFrom turns r.1 rest r.2

/-- `resolve`. -/
def resolve (e : Ext2) (path : List UInt8) : UInt32 × Ext2 :=
  if e.mounted = false ∨ path.head? ≠ some 47 then (0, e)
  else resolveFrom disk path.length 2 path.tail e

/-- The loop of `ext2_list` over the entries of a block : the callbacks made and the number of
entries. -/
def listScan (e : Ext2) (blk : ℕ → UInt8) : ℕ → ℕ → List Ext2Entry × ℕ
  | 0, _ => ([], 0)
  | turns + 1, off =>
    if e.blockSize.toNat < off + 8 ∨ leAt16 blk (off + 4) < 8 then ([], 0)
    else
      let rest := listScan e blk turns (off + (leAt16 blk (off + 4)).toNat)
      if leAt32 blk off ≠ 0 ∧ 0 < blk (off + 6) then
        let name := (List.range (blk (off + 6)).toNat).map fun i => blk (off + 8 + i)
        match e.inodeLoad disk (leAt32 blk off) with
        | none => (rest.1, rest.2 + 1)
        | some inode => (⟨name, inode.size, ext2IsDir inode.mode⟩ :: rest.1, rest.2 + 1)
      else rest

/-- The loop of `ext2_list` over the blocks. -/
def listFrom (inode : Ext2Meta) : ℕ → ℕ → Ext2 → (List Ext2Entry × ℕ) × Ext2
  | 0, _, e => (([], 0), e)
  | turns + 1, n, e =>
    if inode.size.toNat ≤ n * e.blockSize.toNat then (([], 0), e)
    else
      let b := e.inodeNthBlock disk inode.blocks n
      let r := b.2.readBlock disk b.1 (b.2.behind .list)
      if b.1 = 0 ∨ r.1 = false then (([], 0), b.2)
      else
        let here := b.2.listScan disk r.2 (e.blockSize.toNat / 8 + 1) 0
        let rest := listFrom inode turns (n + 1) b.2
        ((here.1 ++ rest.1.1, here.2 + rest.1.2), rest.2)

/-- `ext2_list` : the callbacks and the number of entries, or `none` where it returns -1. -/
def ext2List (e : Ext2) (path : List UInt8) : Option (List Ext2Entry × ℕ) × Ext2 :=
  let r := e.resolve disk path
  if r.1 = 0 then (none, r.2)
  else
    match r.2.inodeLoad disk r.1 with
    | none => (none, r.2)
    | some inode =>
      if ext2IsDir inode.mode then
        let l := listFrom disk inode r.2.blockTurns 0 r.2
        (some l.1, l.2)
      else (none, r.2)

/-- `ext2_stat` : the size and whether it is a directory. -/
def ext2Stat (e : Ext2) (path : List UInt8) : Option (UInt32 × Bool) × Ext2 :=
  let r := e.resolve disk path
  if r.1 = 0 then (none, r.2)
  else ((r.2.inodeLoad disk r.1).map fun inode => (inode.size, ext2IsDir inode.mode), r.2)

/-- The loop of `ext2_read` over the blocks, with what is in the caller's buffer so far. -/
def readFrom (inode : Ext2Meta) (want : ℕ) : ℕ → ℕ → List UInt8 → Ext2 →
    Option (List UInt8) × Ext2
  | 0, _, _, e => (none, e)
  | turns + 1, n, done, e =>
    if want ≤ done.length then (some done, e)
    else
      let b := e.inodeNthBlock disk inode.blocks n
      let r := b.2.readBlock disk b.1 (b.2.behind .read)
      if b.1 = 0 ∨ r.1 = false then (none, b.2)
      else
        let m := min (want - done.length) e.blockSize.toNat
        readFrom inode want turns (n + 1) (done ++ (List.range m).map r.2) b.2

/-- `ext2_read` : what it puts into the buffer, or `none` where it returns -1. -/
def ext2Read (e : Ext2) (path : List UInt8) (maxLen : UInt32) : Option (List UInt8) × Ext2 :=
  let r := e.resolve disk path
  if r.1 = 0 then (none, r.2)
  else
    match r.2.inodeLoad disk r.1 with
    | none => (none, r.2)
    | some inode =>
      if inode.mode &&& 0xF000 = 0x8000 then
        let want := if inode.size < maxLen then inode.size else maxLen
        readFrom disk inode want.toNat r.2.blockTurns 0 [] r.2
      else (none, r.2)

end Ext2

end VernisOS
