import VernisOS.VernisFsMount

/-!
# Building a VernisFS image

`ai/tools/mkfs_vernis.py` : a superblock, a table of file entries and the data of the files, each
padded to whole sectors. Six files are always there, fourteen are the contents of files that the
options name. A number that `struct.pack` does not take has no image (`none`). The entries are
packed in the byte order of the host, which is that of the machine.
-/

open Bytes

namespace VernisOS

/-- `b.ljust(n, b"\x00")`. -/
def ljust (b : List UInt8) (n : ℕ) : List UInt8 :=
  b ++ List.replicate (n - b.length) 0

/-- `struct.pack` of an `I`. -/
def packWord (n : ℕ) : Option (List UInt8) :=
  if n < 2 ^ 32 then some (le32 (UInt32.ofNat n)) else none

/-- `struct.pack` of an `H`. -/
def packHalf (n : ℕ) : Option (List UInt8) :=
  if n < 2 ^ 16 then some (le16 (UInt16.ofNat n)) else none

/-! ## The default files -/

/-- An ELF64 executable of one segment, as `make_elf64_hello` and `make_elf64_exit` pack it. -/
def makeElf64 (code : List UInt8) : List UInt8 :=
  let vaddr : UInt64 := 0x10000000
  let ehdr := [0x7F, 69, 76, 70, 2, 1, 1, 0, 0] ++ List.replicate 7 0 ++ le16 2 ++ le16 0x3E ++
    le32 1 ++ le64 vaddr ++ le64 64 ++ le64 0 ++ le32 0 ++ le16 64 ++ le16 56 ++ le16 1 ++
    le16 0 ++ le16 0 ++ le16 0
  let phdr := le32 1 ++ le32 5 ++ le64 (64 + 56) ++ le64 vaddr ++ le64 vaddr ++
    le64 (UInt64.ofNat code.length) ++ le64 (UInt64.ofNat code.length) ++ le64 0x1000
  ehdr ++ phdr ++ code

/-- An ELF32 executable of one segment, as `make_elf32_hello` and `make_elf32_exit` pack it. -/
def makeElf32 (code : List UInt8) : List UInt8 :=
  let vaddr : UInt32 := 0x10000000
  let ehdr := [0x7F, 69, 76, 70, 1, 1, 1, 0, 0] ++ List.replicate 7 0 ++ le16 2 ++ le16 3 ++
    le32 1 ++ le32 vaddr ++ le32 52 ++ le32 0 ++ le32 0 ++ le16 52 ++ le16 32 ++ le16 1 ++
    le16 0 ++ le16 0 ++ le16 0
  let phdr := le32 1 ++ le32 (52 + 32) ++ le32 vaddr ++ le32 vaddr ++
    le32 (UInt32.ofNat code.length) ++ le32 (UInt32.ofNat code.length) ++ le32 5 ++ le32 0x1000
  ehdr ++ phdr ++ code

/-- `make_elf64_hello`. -/
def makeElf64Hello : List UInt8 :=
  makeElf64 [0x48, 0xC7, 0xC0, 0xF0, 0x00, 0x00, 0x00, 0xCD, 0x80, 0xEB, 0xF5]

/-- `make_elf32_hello`. -/
def makeElf32Hello : List UInt8 :=
  makeElf32 [0xB8, 0xF0, 0x00, 0x00, 0x00, 0xCD, 0x80, 0xEB, 0xF7]

/-- `make_elf64_exit`. -/
def makeElf64Exit : List UInt8 :=
  makeElf64 [0x48, 0xC7, 0xC3, 0x05, 0x00, 0x00, 0x00, 0x48, 0xC7, 0xC0, 0xF0, 0x00, 0x00, 0x00,
    0xCD, 0x80, 0x48, 0xFF, 0xCB, 0x75, 0xF2, 0x48, 0xC7, 0xC0, 0x3C, 0x00, 0x00, 0x00,
    0x48, 0xC7, 0xC3, 0x2A, 0x00, 0x00, 0x00, 0xCD, 0x80]

/-- `make_elf32_exit`. -/
def makeElf32Exit : List UInt8 :=
  makeElf32 [0xB9, 0x05, 0x00, 0x00, 0x00, 0xB8, 0xF0, 0x00, 0x00, 0x00, 0xCD, 0x80, 0x49,
    0x75, 0xF6, 0xB8, 0x3C, 0x00, 0x00, 0x00, 0xBB, 0x2A, 0x00, 0x00, 0x00, 0xCD, 0x80]

/-- `make_user_record`, with the digests of `hashlib.sha256`. -/
def makeUserRecord (sha256 : List UInt8 → Vector UInt8 32) (username : String)
    (password : Option String) (privilege flags : UInt8) : List UInt8 :=
  ljust ((utf8 username).take vfsMaxFilename) vfsMaxFilename ++
    (match password with
      | some password => (sha256 (utf8 password)).toList
      | none => List.replicate 32 0) ++ [privilege, flags]

/-- `shadow_data`. -/
def shadowData (sha256 : List UInt8 → Vector UInt8 32) : List UInt8 :=
  makeUserRecord sha256 "root" none 0 (0x01 ||| 0x04) ++
    makeUserRecord sha256 "admin" (some "admin") 50 0x01 ++
    makeUserRecord sha256 "user" (some "user") 100 0x01

/-- `passwd_data`. -/
def passwdData : List UInt8 :=
  utf8 "root:x:0:root\nadmin:x:50:admin\nuser:x:100:user\n"

/-! ## The builder -/

/-- A tuple of `files`. -/
structure ImageFile where
  name : String
  start : ℕ
  size : ℕ
  ftype : UInt8
  flags : UInt8

/-- `files`, `data_blocks` and `next_sector`. -/
structure ImageBuild where
  files : List ImageFile
  dataBlocks : List (List UInt8)
  nextSector : ℕ

/-- The sectors of some data. -/
def blockSectors (data : List UInt8) : ℕ :=
  (data.length + 511) / 512

/-- `make_file_entry`. -/
def makeFileEntry (f : ImageFile) : Option (List UInt8) := do
  let start ← packWord f.start
  let size ← packWord f.size
  return ljust (ljust ((utf8 f.name).take vfsMaxFilename) vfsMaxFilename ++ start ++ size ++
    [f.ftype, f.flags]) 64

/-- `make_superblock`. -/
def makeSuperblock (fileCount firstFreeSector : ℕ) : Option (List UInt8) := do
  let count ← packHalf fileCount
  let first ← packWord firstFreeSector
  return ljust (le32 vfsMagic ++ le16 1 ++ count ++ le32 1024 ++ first) 512

namespace ImageBuild

/-- Before the first file. -/
def empty : ImageBuild :=
  ⟨[], [], 0⟩

/-- One file more. -/
def add (b : ImageBuild) (name : String) (data : List UInt8) (flags : UInt8) : ImageBuild :=
  ⟨b.files ++ [⟨name, b.nextSector, data.length, 1, flags⟩], b.dataBlocks ++ [data],
    b.nextSector + blockSectors data⟩

/-- A file that is left out if there is none, or if it is empty. -/
def addOptional (b : ImageBuild) (f : String × Option (List UInt8)) : ImageBuild :=
  match f.2 with
  | none => b
  | some data => if data ≠ [] then b.add f.1 data 0x00 else b

/-- The image of the files. -/
def image (b : ImageBuild) : Option (List UInt8) := do
  let sb ← makeSuperblock b.files.length b.nextSector
  let entries ← b.files.mapM makeFileEntry
  return sb ++ ljust entries.flatten (vfsFiletableSectors * 512) ++
    b.dataBlocks.flatMap fun block => ljust block (blockSectors block * 512)

end ImageBuild

/-- The contents of the files that the options name, where there are such files. -/
structure MkfsArgs where
  vsh64 : Option (List UInt8)
  vsh32 : Option (List UInt8)
  getty32 : Option (List UInt8)
  getty64 : Option (List UInt8)
  init32 : Option (List UInt8)
  init64 : Option (List UInt8)
  nc32 : Option (List UInt8)
  nc64 : Option (List UInt8)
  tcpsrv32 : Option (List UInt8)
  tcpsrv64 : Option (List UInt8)
  forktest32 : Option (List UInt8)
  forktest64 : Option (List UInt8)
  login32 : Option (List UInt8)
  login64 : Option (List UInt8)

/-- The optional files, in the order in which they are added. -/
def MkfsArgs.optionals (args : MkfsArgs) : List (String × Option (List UInt8)) :=
  [("/bin/vsh64", args.vsh64), ("/bin/vsh32", args.vsh32), ("/sbin/init32", args.init32),
    ("/sbin/init64", args.init64), ("/bin/netcat32", args.nc32), ("/bin/netcat64", args.nc64),
    ("/bin/tcpsrv32", args.tcpsrv32), ("/bin/tcpsrv64", args.tcpsrv64),
    ("/bin/forktest32", args.forktest32), ("/bin/forktest64", args.forktest64),
    ("/sbin/getty32", args.getty32), ("/sbin/getty64", args.getty64),
    ("/bin/login32", args.login32), ("/bin/login64", args.login64)]

/-- `main`, up to the image. -/
def mkfsBuild (sha256 : List UInt8 → Vector UInt8 32) (args : MkfsArgs) : ImageBuild :=
  let b := ImageBuild.empty.add "/etc/shadow" (shadowData sha256) 0x02
  let b := b.add "/etc/passwd" passwdData 0x01
  let b := b.add "/bin/hello64" makeElf64Hello 0x00
  let b := b.add "/bin/hello32" makeElf32Hello 0x00
  let b := b.add "/bin/exit64" makeElf64Exit 0x00
  let b := b.add "/bin/exit32" makeElf32Exit 0x00
  args.optionals.foldl ImageBuild.addOptional b

/-- A disk with the image at `VFS_START_SECTOR`. -/
def imageDisk (img : List UInt8) (rest : UInt32 → Sector) (lba : UInt32) : Sector :=
  let s := (lba - vfsStartSector).toNat
  if s * 512 < img.length then sectorsOf img s else rest lba

end VernisOS
