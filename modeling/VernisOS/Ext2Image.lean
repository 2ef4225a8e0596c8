import VernisOS.Lib.Buffer
import VernisOS.Lib.Dict

/-!
# Building an ext2 image

`ai/tools/mkfs_ext2.py` : one block group of 1 KB blocks, 64 inodes of 128 bytes, files of
direct blocks and directories of one block. A call that raises an exception or exits has no
image (`none`). A path is the bytes of its argument, and a byte that is not ASCII is the
beginning of a character that is none.
-/

open Bytes

namespace VernisOS

/-- `S_IFREG | 0o644`. -/
def ext2RegularMode : UInt16 := 0x81A4

/-- `S_IFDIR | 0o755`. -/
def ext2DirectoryMode : UInt16 := 0x41ED

/-- `ROOT_INO`. -/
def ext2RootIno : ℕ := 2

/-- The parts of a path between its slashes, without those that are empty. -/
def components (path : List UInt8) : List (List UInt8) :=
  (path.splitOn 47).filter (· ≠ [])

/-- What `inodes` has for an inode : mode, size and blocks. -/
structure Ext2Inode where
  mode : UInt16
  size : ℕ
  blocks : List ℕ

/-- `Ext2Builder`. A directory is a list of names and inodes. -/
structure Ext2Builder where
  blocksCount : ℕ
  img : Buffer
  nextBlock : ℕ
  nextIno : ℕ
  inodes : Dict Ext2Inode
  dirs : Dict (List (List UInt8 × ℕ))

/-- The name `.`. -/
def nameDot : List UInt8 := [46]

/-- The name `..`. -/
def nameDotdot : List UInt8 := [46, 46]

namespace Ext2Builder

/-- A builder with an empty root directory. -/
def new (sizeMb : ℕ) : Ext2Builder where
  blocksCount := sizeMb * 1024
  img := .zeros (sizeMb * 1024 * 1024)
  nextBlock := 13
  nextIno := 11
  inodes := Dict.empty.insert ext2RootIno ⟨ext2DirectoryMode, 0, []⟩
  dirs := Dict.empty.insert ext2RootIno [(nameDot, ext2RootIno), (nameDotdot, ext2RootIno)]

/-- `alloc_block`. -/
def allocBlock (b : Ext2Builder) : Option (ℕ × Ext2Builder) :=
  if b.blocksCount ≤ b.nextBlock then none
  else some (b.nextBlock, { b with nextBlock := b.nextBlock + 1 })

/-- `mkdir`, with the new inode. -/
def mkdir (b : Ext2Builder) (parentIno : ℕ) (name : List UInt8) : ℕ × Ext2Builder :=
  (b.nextIno, { b with
    nextIno := b.nextIno + 1
    inodes := b.inodes.insert b.nextIno ⟨ext2DirectoryMode, 0, []⟩
    dirs := (b.dirs.insert b.nextIno [(nameDot, b.nextIno), (nameDotdot, parentIno)]).modify
      parentIno fun entries => entries ++ [(name, b.nextIno)] })

/-- The bytes of `data` that go into its `i`-th block. -/
def chunk (data : List UInt8) (i : ℕ) : List UInt8 :=
  (data.drop (i * 1024)).take 1024

/-- One turn of the loop of `add_file` over the blocks of the data. -/
def addBlock (data : List UInt8) (s : List ℕ × Ext2Builder) (i : ℕ) :
    Option (List ℕ × Ext2Builder) :=
  s.2.allocBlock.map fun (block, b) =>
    (s.1 ++ [block], { b with
      img := b.img.assign (block * 1024) (block * 1024 + (chunk data i).length) (chunk data i) })

/-- `add_file`. -/
def addFile (b : Ext2Builder) (parentIno : ℕ) (name data : List UInt8) : Option Ext2Builder :=
  let ino := b.nextIno
  ((List.range ((data.length + 1023) / 1024)).foldlM (addBlock data)
    ([], { b with nextIno := ino + 1 })).bind fun (blocks, b) =>
      if 12 < blocks.length then none
      else some { b with
        inodes := b.inodes.insert ino ⟨ext2RegularMode, data.length, blocks⟩
        dirs := b.dirs.modify parentIno fun entries => entries ++ [(name, ino)] }

/-- The directory with this name in a directory. -/
def findDir (b : Ext2Builder) (cur : ℕ) (comp : List UInt8) : Option ℕ :=
  (((b.dirs.get cur).getD []).find? fun e =>
    e.1 == comp && (b.dirs.get e.2).isSome).map Prod.snd

/-- One turn of the loop of `resolve_dir` over the parts of the path. -/
def enterDir (s : ℕ × Ext2Builder) (comp : List UInt8) : ℕ × Ext2Builder :=
  match s.2.findDir s.1 comp with
  | some ino => (ino, s.2)
  | none => s.2.mkdir s.1 comp

/-- `resolve_dir` : the parent directory, made if need be, and the last part of the path. -/
def resolveDir (b : Ext2Builder) (path : List UInt8) : Option (ℕ × List UInt8 × Ext2Builder) :=
  (components path).getLast?.map fun base =>
    let (cur, b) := (components path).dropLast.foldl enterDir (ext2RootIno, b)
    (cur, base, b)

/-- One `--add`. -/
def add (b : Ext2Builder) (file : List UInt8 × List UInt8) : Option Ext2Builder :=
  (b.resolveDir file.1).bind fun (parent, base, b) => b.addFile parent base file.2

/-! ## Writing the metadata -/

/-- `name.encode("ascii")`. -/
def encodeAscii (name : List UInt8) : Option (List UInt8) :=
  if name.all (· < 128) then some name else none

/-- The bytes that a name needs in a directory. -/
def entryNeed (name : List UInt8) : ℕ :=
  8 + (name.length + 3) / 4 * 4

/-- The fixed part of a directory entry. -/
def entryHead (target recLen nameLen : ℕ) : List UInt8 :=
  le32 (UInt32.ofNat target) ++ le16 (UInt16.ofNat recLen) ++ le16 (UInt16.ofNat nameLen)

/-- The loop of `write_dir_blocks` over the entries of a directory. -/
def putEntries : List (List UInt8 × ℕ) → ℕ → Buffer → Option Buffer
  | [], _, block => some block
  | (name, target) :: rest, off, block =>
    (encodeAscii name).bind fun nb =>
      let recLen : Int := if rest = [] then 1024 - off else entryNeed nb
      if recLen < 0 ∨ 65536 ≤ recLen ∨ 65536 ≤ nb.length ∨ 4294967296 ≤ target then none
      else
        (block.packInto off (entryHead target recLen.toNat nb.length)).bind fun block =>
          putEntries rest (off + recLen.toNat)
            (block.assign (off + 8) (off + 8 + nb.length) nb)

/-- The bytes of a buffer. -/
def bytesOf (block : Buffer) : List UInt8 :=
  (List.range block.size).map block.byte

/-- `write_dir_blocks` for one directory. -/
def writeDirBlock (b : Ext2Builder) (ino : ℕ) : Option Ext2Builder :=
  (b.dirs.get ino).bind fun entries =>
    b.allocBlock.bind fun (block, b) =>
      (putEntries entries 0 (.zeros 1024)).map fun buf =>
        { b with
          img := b.img.assign (block * 1024) ((block + 1) * 1024) (bytesOf buf)
          inodes := b.inodes.modify ino fun inode => { inode with size := 1024, blocks := [block] } }

/-- `write_dir_blocks`. -/
def writeDirBlocks (b : Ext2Builder) : Option Ext2Builder :=
  b.dirs.keys.foldlM writeDirBlock b

/-- The number of links of an inode. -/
def links (b : Ext2Builder) (ino : ℕ) (inode : Ext2Inode) : ℕ :=
  if inode.mode &&& 0x4000 = 0 then 1
  else if ino = ext2RootIno then
    2 + (((b.dirs.get ext2RootIno).getD []).filter fun e =>
      (b.dirs.get e.2).isSome && e.2 != ext2RootIno).length
  else 2

/-- The fixed part of an inode. -/
def inodeHead (inode : Ext2Inode) (links : ℕ) : List UInt8 :=
  le16 inode.mode ++ le16 0 ++ le32 (UInt32.ofNat inode.size) ++ le32 0 ++ le32 0 ++ le32 0 ++
    le32 0 ++ le16 (UInt16.ofNat links) ++ le16 (UInt16.ofNat (inode.blocks.length * 2)) ++
    le32 0 ++ le32 0

/-- The block numbers of an inode, from the `i`-th on. -/
def putBlocks (off : ℕ) : ℕ → List ℕ → Buffer → Option Buffer
  | _, [], img => some img
  | i, block :: rest, img =>
    if 4294967296 ≤ block then none
    else (img.packInto (off + 40 + i * 4) (le32 (UInt32.ofNat block))).bind fun img =>
      putBlocks off (i + 1) rest img

/-- `write_inode_table` for one inode. -/
def writeInode (b : Ext2Builder) (img : Buffer) (ino : ℕ) : Option Buffer :=
  (b.inodes.get ino).bind fun inode =>
    let off := 5 * 1024 + (ino - 1) * 128
    if 4294967296 ≤ inode.size ∨ 65536 ≤ b.links ino inode ∨ 65536 ≤ inode.blocks.length * 2 then
      none
    else (img.packInto off (inodeHead inode (b.links ino inode))).bind fun img =>
      putBlocks off 0 inode.blocks img

/-- `write_inode_table`. -/
def writeInodeTable (b : Ext2Builder) : Option Ext2Builder :=
  (b.inodes.keys.foldlM b.writeInode b.img).map fun img => { b with img }

/-- A bitmap of one block with the bits from `lo` to below `hi`. -/
def bitmap (lo hi : ℕ) : List UInt8 :=
  (List.range 1024).map fun j => (List.range 8).foldl (fun byte t =>
    if lo ≤ 8 * j + t ∧ 8 * j + t < hi then byte ||| (1 <<< UInt8.ofNat t) else byte) 0

/-- `write_bitmaps`. -/
def writeBitmaps (b : Ext2Builder) : Option Ext2Builder :=
  if 8192 < b.nextBlock ∨ 8193 < b.nextIno then none
  else some { b with
    img := (b.img.assign 3072 4096 (bitmap 1 b.nextBlock)).assign 4096 5120
      (bitmap 0 (b.nextIno - 1)) }

/-- The superblock. -/
def superblockBytes (b : Ext2Builder) : List UInt8 :=
  le32 64 ++ le32 (UInt32.ofNat b.blocksCount) ++ le32 0 ++
    le32 (UInt32.ofNat (b.blocksCount - b.nextBlock)) ++
    le32 (UInt32.ofNat (64 - (b.nextIno - 1))) ++ le32 1 ++ le32 0 ++ le32 0 ++ le32 8192 ++
    le32 8192 ++ le32 64 ++ le32 0 ++ le32 0 ++
    le16 0 ++ le16 20 ++ le16 0xEF53 ++ le16 1 ++ le16 1 ++ le16 0 ++
    le32 0 ++ le32 0 ++ le32 0 ++ le32 0 ++ le16 0 ++ le16 0

/-- `write_superblock`. -/
def writeSuperblock (b : Ext2Builder) : Option Ext2Builder :=
  if 4294967296 ≤ b.blocksCount ∨ b.blocksCount < b.nextBlock ∨ 64 < b.nextIno - 1 then none
  else some { b with img := b.img.assign 1024 (1024 + b.superblockBytes.length) b.superblockBytes }

/-- The group descriptor. -/
def groupDescBytes (b : Ext2Builder) : List UInt8 :=
  le32 3 ++ le32 4 ++ le32 5 ++ le16 (UInt16.ofNat (b.blocksCount - b.nextBlock)) ++
    le16 (UInt16.ofNat (64 - (b.nextIno - 1))) ++ le16 (UInt16.ofNat b.dirs.keys.length)

/-- `write_group_desc`. -/
def writeGroupDesc (b : Ext2Builder) : Option Ext2Builder :=
  if b.blocksCount < b.nextBlock ∨ 65536 ≤ b.blocksCount - b.nextBlock ∨ 64 < b.nextIno - 1 ∨
      65536 ≤ b.dirs.keys.length then none
  else some { b with img := b.img.assign 2048 (2048 + b.groupDescBytes.length) b.groupDescBytes }

/-- `finish`, with the image that is written. -/
def finish (b : Ext2Builder) : Option Buffer :=
  (((b.writeDirBlocks.bind writeInodeTable).bind writeBitmaps).bind writeSuperblock).bind
    fun b => b.writeGroupDesc.map img

end Ext2Builder

/-- `main` : the image for the `--add` arguments, in order. -/
def mkfsExt2 (sizeMb : ℕ) (files : List (List UInt8 × List UInt8)) : Option Buffer :=
  (files.foldlM Ext2Builder.add (.new sizeMb)).bind Ext2Builder.finish

end VernisOS
