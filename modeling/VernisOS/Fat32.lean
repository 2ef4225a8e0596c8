import VernisOS.Disk
import VernisOS.Lib.Bytes
import VernisOS.Lib.Loop

/-!
# The FAT32 driver

`kernel/fs/fat32.c` : mounting a volume, walking a path, and listing, looking up or reading what it
leads to. The driver reads single sectors through the block cache; `FatIo` says what the cache has
for each sector and which of the calls to come fail. The log of a computation is the sectors passed
to `bcache_read`.

`dir_find`, `fat32_list` and `fat32_read` follow a chain of clusters in the same way : a `while`
over the clusters, a `for` over the sectors of each, and one hop through the FAT. `ClusterLoop` is
what they do differently. Every `while` is given at most `n` turns. A path is the bytes of the
string before its NUL.
-/

open Bytes Loop

namespace VernisOS

/-! ## The volume -/

/-- `FAT32_EOC`. -/
def fat32Eoc : UInt32 := 0x0FFFFFF8

/-- `ATTR_DIRECTORY`. -/
def attrDirectory : UInt8 := 0x10

/-- `ATTR_VOLUME_ID`. -/
def attrVolumeId : UInt8 := 0x08

/-- `ATTR_LFN`. -/
def attrLfn : UInt8 := 0x0F

/-- `g_vol`. -/
structure FatVol where
  mounted : Bool
  baseLba : UInt32
  fatStart : UInt32
  dataStart : UInt32
  rootCluster : UInt32
  sectorsPerCluster : UInt32
  totalClusters : UInt32
deriving DecidableEq

/-- The block cache : what it has for each sector, and whether the `k`-th call from now fails. -/
structure FatIo where
  disk : UInt32 → Sector
  fails : ℕ → Bool

/-- The block cache after `n` calls. -/
def FatIo.drop (io : FatIo) (n : ℕ) : FatIo :=
  { io with fails := fun k => io.fails (n + k) }

/-- A block cache whose reads always succeed. -/
def FatIo.quiet (disk : UInt32 → Sector) : FatIo :=
  ⟨disk, fun _ => false⟩

/-- The bytes of a sector, by their offset. -/
def sectorByte (sec : Sector) (k : ℕ) : UInt8 :=
  sec ⟨k % 512, mod_sector_lt k⟩

namespace FatVol

/-- `read_rel`. -/
def readRel (v : FatVol) (io : FatIo) (relSector : UInt32) :
    Logged UInt32 (Option Sector × FatIo) :=
  reads [v.baseLba + relSector]
    (if io.fails 0 then none else some (io.disk (v.baseLba + relSector)), io.drop 1)

/-- `cluster_first_sector`. -/
def clusterFirstSector (v : FatVol) (cluster : UInt32) : UInt32 :=
  v.dataStart + (cluster - 2) * v.sectorsPerCluster

/-- The sector of the FAT with the entry of a cluster. -/
def fatSector (v : FatVol) (cluster : UInt32) : UInt32 :=
  v.fatStart + cluster * 4 / 512

/-- The entry of a cluster in its sector of the FAT. -/
def fatEntry (sec : Sector) (cluster : UInt32) : UInt32 :=
  leAt32 (sectorByte sec) (cluster * 4 % 512).toNat &&& 0x0FFFFFFF

/-- `fat_next`. -/
def fatNext (v : FatVol) (io : FatIo) (cluster : UInt32) : Logged UInt32 (UInt32 × FatIo) :=
  bind (v.readRel io (v.fatSector cluster)) fun r =>
    reads [] (r.1.elim fat32Eoc (fatEntry · cluster), r.2)

/-- What `fat32_mount` makes of the boot sector. -/
def parse (v : FatVol) (bpb : Sector) : Int × FatVol :=
  let b := sectorByte bpb
  let bytesPerSec := leAt16 b 11
  let spc := b 13
  let rsvd := leAt16 b 14
  let nfats := b 16
  let rootEnt16 := leAt16 b 17
  let fatsz16 := leAt16 b 22
  let fatsz32 := leAt32 b 36
  let rootCluster := leAt32 b 44
  let totalSec := (leAt16 b 19).toUInt32
  let totalSec := if totalSec = 0 then leAt32 b 32 else totalSec
  if b 510 ≠ 0x55 ∨ b 511 ≠ 0xAA then (-1, v)
  else if bytesPerSec ≠ 512 ∨ spc = 0 ∨ rsvd = 0 ∨ nfats = 0 then (-1, v)
  else if rootEnt16 ≠ 0 ∨ fatsz16 ≠ 0 ∨ fatsz32 = 0 then (-1, v)
  else if rootCluster < 2 then (-1, v)
  else
    let dataStart := rsvd.toUInt32 + nfats.toUInt32 * fatsz32
    (0, { v with
      mounted := true
      fatStart := rsvd.toUInt32
      dataStart
      rootCluster
      sectorsPerCluster := spc.toUInt32
      totalClusters := (totalSec - dataStart) / spc.toUInt32 })

/-- `fat32_mount`. -/
def fat32Mount (v : FatVol) (io : FatIo) (baseLba : UInt32) :
    Logged UInt32 ((Int × FatVol) × FatIo) :=
  let v := { v with mounted := false, baseLba }
  bind (v.readRel io 0) fun r => reads [] (r.1.elim (-1, v) v.parse, r.2)

end FatVol

/-! ## Names -/

/-- An upper-case letter for a lower-case one. -/
def upperByte (c : UInt8) : UInt8 :=
  if 97 ≤ c ∧ c ≤ 122 then c - 32 else c

/-- A field of `n` bytes, filled up with blanks. -/
def padField (n : ℕ) (s : List UInt8) : List UInt8 :=
  s ++ List.replicate (n - s.length) 32

/-- `name_to_83`; `none` if the name does not fit. -/
def nameTo83 (name : List UInt8) : Option (List UInt8) :=
  let base := name.takeWhile (· ≠ 46)
  let ext := (name.dropWhile (· ≠ 46)).drop 1
  if 8 < base.length ∨ 3 < ext.length then none
  else some (padField 8 (base.map upperByte) ++ padField 3 (ext.map upperByte))

/-- `name_from_83`. -/
def nameFrom83 (raw : List UInt8) : List UInt8 :=
  (raw.take 8).takeWhile (· ≠ 32) ++
    if raw.getD 8 0 ≠ 32 then 46 :: (raw.drop 8).takeWhile (· ≠ 32) else []

/-! ## Directory entries -/

/-- A directory entry : the fields that are read of its 32 bytes. -/
structure Dirent where
  name : List UInt8
  attr : UInt8
  cluster : UInt32
  size : UInt32
deriving DecidableEq

namespace Dirent

/-- The entry at byte `o` of a sector. -/
def read (b : ℕ → UInt8) (o : ℕ) : Dirent where
  name := (List.range 11).map fun i => b (o + i)
  attr := b (o + 11)
  cluster := (leAt16 b (o + 20)).toUInt32 <<< 16 ||| (leAt16 b (o + 26)).toUInt32
  size := leAt32 b (o + 28)

/-- The entries of a sector. -/
def ofSector (sec : Sector) : List Dirent :=
  (List.range 16).map fun e => read (sectorByte sec) (e * 32)

/-- The end of the directory. -/
def isEnd (d : Dirent) : Bool :=
  d.name.getD 0 0 == 0

/-- A deleted entry, a part of a long name or the label of the volume. -/
def skipped (d : Dirent) : Bool :=
  d.name.getD 0 0 == 0xE5 || d.attr &&& attrLfn == attrLfn || d.attr &&& attrVolumeId != 0

/-- `attr & ATTR_DIRECTORY`. -/
def isDir (d : Dirent) : Bool :=
  d.attr &&& attrDirectory != 0

/-- The loop of `dir_find` over the entries of a sector : what it returns if it stops. -/
def find (target : List UInt8) : List Dirent → Unit ⊕ Option Dirent
  | [] => .inl ()
  | d :: ds =>
    if d.isEnd then .inr none
    else if d.skipped then find target ds
    else if d.name = target then .inr (some d)
    else find target ds

end Dirent

/-- A call of the callback of `fat32_list`. -/
structure Fat32Entry where
  name : List UInt8
  size : UInt32
  isDir : Bool

/-- The loop of `fat32_list` over the entries of a sector, after the callbacks `out`. -/
def listDirents (out : List Fat32Entry) : List Dirent → List Fat32Entry ⊕ List Fat32Entry
  | [] => .inl out
  | d :: ds =>
    if d.isEnd then .inr out
    else if d.skipped then listDirents out ds
    else listDirents (out ++ [⟨nameFrom83 d.name, d.size, d.isDir⟩]) ds

/-! ## Following a chain of clusters -/

/-- What a loop over the sectors of a chain does : whether it goes on, what it makes of a sector,
and what it returns where a sector cannot be read and behind the loop. -/
structure ClusterLoop (σ ρ : Type) where
  more : σ → Bool
  sector : σ → Sector → σ ⊕ ρ
  failed : σ → ρ
  done : σ → ρ

/-- `cl >= 2 && cl < FAT32_EOC`. -/
def isCluster (cl : UInt32) : Bool :=
  2 ≤ cl && cl < fat32Eoc

namespace FatVol

variable {σ ρ : Type}

/-- The `for` loop over the sectors of a cluster, from sector `s` on with `k` to come. -/
def scanSectors (v : FatVol) (lp : ClusterLoop σ ρ) (first : UInt32) :
    ℕ → ℕ → σ → FatIo → Logged UInt32 ((σ ⊕ ρ) × FatIo)
  | 0, _, st, io => reads [] (.inl st, io)
  | k + 1, s, st, io =>
    if lp.more st then
      bind (v.readRel io (first + UInt32.ofNat s)) fun r =>
        match r.1 with
        | none => reads [] (.inr (lp.failed st), r.2)
        | some sec =>
          match lp.sector st sec with
          | .inl st => scanSectors v lp first k (s + 1) st r.2
          | .inr ret => reads [] (.inr ret, r.2)
    else reads [] (.inl st, io)

/-- One turn of the `while` loop over the clusters. -/
def walkTurn (v : FatVol) (lp : ClusterLoop σ ρ) (w : UInt32 × σ × FatIo) :
    Logged UInt32 ((UInt32 × σ × FatIo) ⊕ (ρ × FatIo)) :=
  let cl := w.1
  if lp.more w.2.1 ∧ isCluster cl then
    bind (v.scanSectors lp (v.clusterFirstSector cl) v.sectorsPerCluster.toNat 0 w.2.1 w.2.2)
      fun r =>
        match r.1 with
        | .inl st => bind (v.fatNext r.2 cl) fun q => reads [] (.inl (q.1, st, q.2))
        | .inr ret => reads [] (.inr (ret, r.2))
  else reads [] (.inr (lp.done w.2.1, w.2.2))

/-- The `while` loop, of at most `n` turns. -/
def walk (v : FatVol) (lp : ClusterLoop σ ρ) (n : ℕ) (w : UInt32 × σ × FatIo) :
    Logged UInt32 (ρ × FatIo) :=
  run (v.walkTurn lp) n w

/-! ## The operations -/

/-- The loop of `dir_find`. -/
def findLoop (target : List UInt8) : ClusterLoop Unit (Option Dirent) where
  more _ := true
  sector _ sec := Dirent.find target (Dirent.ofSector sec)
  failed _ := none
  done _ := none

/-- `dir_find`; `none` stands for the return of -1. -/
def dirFind (v : FatVol) (n : ℕ) (io : FatIo) (dirCluster : UInt32) (target : List UInt8) :
    Logged UInt32 (Option Dirent × FatIo) :=
  v.walk (findLoop target) n (dirCluster, (), io)

end FatVol

/-- Where a path has led to : `*out_cluster`, `*out_size` and `*out_is_dir` of `resolve`. -/
structure FatNode where
  cluster : UInt32
  size : UInt32
  isDir : Bool

/-- What `dir_find` gives out of an entry. -/
def Dirent.node (d : Dirent) : FatNode :=
  ⟨d.cluster, d.size, d.isDir⟩

/-- The components of a path, which `resolve` takes one after another. -/
def pathComponents (path : List UInt8) : List (List UInt8) :=
  (path.splitOnP (· == 47)).filter (· ≠ [])

namespace FatVol

/-- The loop of `resolve` over the components to come. -/
def resolveFrom (v : FatVol) (n : ℕ) :
    List (List UInt8) → FatNode → FatIo → Logged UInt32 (Option FatNode × FatIo)
  | [], node, io => reads [] (some node, io)
  | comp :: comps, node, io =>
    if 12 < comp.length then reads [] (none, io)
    else if !node.isDir then reads [] (none, io)
    else
      match nameTo83 comp with
      | none => reads [] (none, io)
      | some t83 =>
        bind (v.dirFind n io node.cluster t83) fun r =>
          match r.1 with
          | none => reads [] (none, r.2)
          | some d => resolveFrom v n comps d.node r.2

/-- `resolve`; `none` stands for the return of -1. -/
def resolve (v : FatVol) (n : ℕ) (io : FatIo) (path : List UInt8) :
    Logged UInt32 (Option FatNode × FatIo) :=
  if !v.mounted || path.getD 0 0 != 47 then reads [] (none, io)
  else v.resolveFrom n (pathComponents (path.drop 1)) ⟨v.rootCluster, 0, true⟩ io

/-- The loop of `fat32_list`. -/
def listLoop : ClusterLoop (List Fat32Entry) (List Fat32Entry) where
  more _ := true
  sector out sec := listDirents out (Dirent.ofSector sec)
  failed out := out
  done out := out

/-- `fat32_list` : the return value and the callbacks. -/
def fat32List (v : FatVol) (n : ℕ) (io : FatIo) (path : List UInt8) :
    Logged UInt32 ((Int × List Fat32Entry) × FatIo) :=
  bind (v.resolve n io path) fun r =>
    match r.1 with
    | none => reads [] ((-1, []), r.2)
    | some node =>
      if !node.isDir then reads [] ((-1, []), r.2)
      else
        let cl := if node.cluster < 2 then v.rootCluster else node.cluster
        bind (v.walk listLoop n (cl, [], r.2)) fun q => reads [] ((q.1.length, q.1), q.2)

/-- `fat32_stat` : the size and the directory flag, `none` for the return of -1. -/
def fat32Stat (v : FatVol) (n : ℕ) (io : FatIo) (path : List UInt8) :
    Logged UInt32 (Option (UInt32 × Bool) × FatIo) :=
  bind (v.resolve n io path) fun r =>
    reads [] (r.1.map fun node => (node.size, node.isDir), r.2)

/-- The loop of `fat32_read`, over the bytes put into the buffer : the return value and these. -/
def readLoop (want : UInt32) : ClusterLoop (List UInt8) (Int × List UInt8) where
  more buf := decide (buf.length < want.toNat)
  sector buf sec := .inl (buf ++ ((List.range 512).map (sectorByte sec)).take
    (want.toNat - buf.length))
  failed buf := (-1, buf)
  done buf := (cInt (UInt32.ofNat buf.length), buf)

/-- `fat32_read` : the return value and the bytes put into the buffer. -/
def fat32Read (v : FatVol) (n : ℕ) (io : FatIo) (path : List UInt8) (maxLen : UInt32) :
    Logged UInt32 ((Int × List UInt8) × FatIo) :=
  bind (v.resolve n io path) fun r =>
    match r.1 with
    | none => reads [] ((-1, []), r.2)
    | some node =>
      if node.isDir then reads [] ((-1, []), r.2)
      else
        let want := if node.size < maxLen then node.size else maxLen
        v.walk (readLoop want) n (node.cluster, [], r.2)

end FatVol

end VernisOS
