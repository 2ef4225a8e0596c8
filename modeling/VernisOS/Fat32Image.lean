import Mathlib.Data.List.DropRight
import VernisOS.Fat32Paths

/-!
# FAT32 volumes

A FAT32 volume as bytes : the layout that its boot sector gives, the FAT as links between clusters,
the entries of a directory and the names that they stand for. `WellFormed` says when such a volume
is in order, `Names` what a path stands for on it. A driver that has mounted the volume finds the
same links, entries and contents in its sectors (`nextCluster_eq`, `clusterDirents_eq`,
`sectorsBytes_eq`).
-/

open Bytes Loop

namespace VernisOS

/-- The bytes of a disk from a sector on. -/
def volumeByte (disk : UInt32 → Sector) (baseLba : UInt32) (k : ℕ) : UInt8 :=
  sectorByte (disk (baseLba + UInt32.ofNat (k / 512))) k

/-- The layout of a volume. -/
structure FatLayout where
  perCluster : ℕ
  reserved : ℕ
  fats : ℕ
  fatSize : ℕ
  root : UInt32
  total : ℕ

namespace FatLayout

/-- The layout that a boot sector gives. -/
def ofBoot (b : ℕ → UInt8) : FatLayout where
  perCluster := (b 13).toNat
  reserved := (leAt16 b 14).toNat
  fats := (b 16).toNat
  fatSize := (leAt32 b 36).toNat
  root := leAt32 b 44
  total := if leAt16 b 19 = 0 then (leAt32 b 32).toNat else (leAt16 b 19).toNat

variable (L : FatLayout) (b : ℕ → UInt8)

/-- The first sector behind the FATs. -/
def dataStart : ℕ :=
  L.reserved + L.fats * L.fatSize

/-- How many clusters there are. They are numbered from 2 on. -/
def clusterCount : ℕ :=
  (L.total - L.dataStart) / L.perCluster

/-- How many bytes a cluster has. -/
def clusterSize : ℕ :=
  512 * L.perCluster

/-- The first byte of a cluster. -/
def clusterStart (cl : UInt32) : ℕ :=
  512 * (L.dataStart + (cl.toNat - 2) * L.perCluster)

/-- The contents of a cluster. -/
def contents (cl : UInt32) : List UInt8 :=
  (List.range L.clusterSize).map fun k => b (L.clusterStart cl + k)

/-- The entry of a cluster in the FAT, of which 28 bits count. -/
def link (cl : UInt32) : UInt32 :=
  leAt32 b (512 * L.reserved + 4 * cl.toNat) &&& 0x0FFFFFFF

/-- The clusters of a chain, in order. It ends at the first number that is none of a cluster. -/
def Chain : UInt32 → List UInt32 → Prop
  | cl, [] => isCluster cl = false
  | cl, c :: cs =>
    cl = c ∧ isCluster c = true ∧ c.toNat < L.clusterCount + 2 ∧ Chain (L.link b c) cs

/-- The directory entries in a cluster. -/
def dirents (cl : UInt32) : List Dirent :=
  (List.range (16 * L.perCluster)).map fun e => Dirent.read b (L.clusterStart cl + 32 * e)

/-- The entries of a directory that are in use : those in front of its end, without the deleted
ones, the parts of long names and the label of the volume. -/
def live (cs : List UInt32) : List Dirent :=
  ((cs.flatMap (L.dirents b)).takeWhile (!·.isEnd)).filter (!·.skipped)

end FatLayout

/-! ## Names -/

/-- A field of a name without the blanks that fill it up. -/
def trimField (field : List UInt8) : List UInt8 :=
  field.rdropWhile (· = 32)

/-- The name that the eleven bytes of an entry stand for. -/
def dotted (raw : List UInt8) : List UInt8 :=
  trimField (raw.take 8) ++
    if trimField (raw.drop 8) = [] then [] else 46 :: trimField (raw.drop 8)

/-- A name of eight and three characters : no lower-case letter, no dot, slash or control character,
and not a blank in front. -/
structure ValidName (raw : List UInt8) : Prop where
  length : raw.length = 11
  first : raw.getD 0 0 ≠ 32
  chars : ∀ c ∈ raw, 32 ≤ c ∧ c ≠ 46 ∧ c ≠ 47 ∧ ¬ (97 ≤ c ∧ c ≤ 122)

/-- The entry of a directory for itself. -/
def dotName : List UInt8 :=
  46 :: List.replicate 10 32

/-- The entry of a directory for the one above it. -/
def dotdotName : List UInt8 :=
  46 :: 46 :: List.replicate 9 32

/-! ## Well-formed volumes -/

namespace FatLayout

variable (L : FatLayout) (b : ℕ → UInt8)

/-- The first cluster of the directory that an entry stands for; 0 stands for the root directory in
the entry for the directory above. -/
def dirStart (d : Dirent) : UInt32 :=
  if d.name = dotdotName ∧ d.cluster = 0 then L.root else d.cluster

/-- What an entry stands for. -/
def target (d : Dirent) : FatNode :=
  ⟨if d.isDir then L.dirStart d else d.cluster, d.size, d.isDir⟩

/-- A directory is in order : it has a chain of clusters, its names differ and are valid or those of
the directory itself and the one above, and its files have chains that are long enough. -/
structure GoodDir (dirs : UInt32 → Prop) (cs : List UInt32) : Prop where
  names : ((L.live b cs).map Dirent.name).Nodup
  valid : ∀ d ∈ L.live b cs, ValidName d.name ∨ d.isDir = true ∧ (d.name = dotName ∨
    d.name = dotdotName)
  file : ∀ d ∈ L.live b cs, d.isDir = false →
    ∃ cs', L.Chain b d.cluster cs' ∧ d.size.toNat ≤ cs'.length * L.clusterSize
  dir : ∀ d ∈ L.live b cs, d.isDir = true → dirs (L.dirStart d)

/-- The directories are in order, and so are those in them. -/
def GoodDirs (dirs : UInt32 → Prop) : Prop :=
  ∀ cl, dirs cl → isCluster cl = true ∧ ∃ cs, L.Chain b cl cs ∧ L.GoodDir b dirs cs

/-- All directories that can be reached from the root directory are in order. -/
def WellFormed : Prop :=
  ∃ dirs : UInt32 → Prop, dirs L.root ∧ L.GoodDirs b dirs

/-- The components of a path stand for a file or a directory, from a directory on. Typed names are
in either case. -/
def Names : List (List UInt8) → FatNode → FatNode → Prop
  | [], node, node' => node' = node
  | comp :: comps, node, node' => node.isDir = true ∧ ∃ cs d, L.Chain b node.cluster cs ∧
      d ∈ L.live b cs ∧ dotted d.name = comp.map upperByte ∧ Names comps (L.target d) node'

/-! ## Chains -/

variable {L : FatLayout} {b : ℕ → UInt8}

/-- A number has one chain. -/
theorem Chain.unique {cl : UInt32} {cs cs' : List UInt32} (h : L.Chain b cl cs)
    (h' : L.Chain b cl cs') : cs = cs' := by
  induction cs generalizing cl cs' with
  | nil =>
    cases cs' with
    | nil => rfl
    | cons c cs' =>
      obtain ⟨rfl, hc, -⟩ := h'
      have hno : isCluster cl = false := h
      rw [hc] at hno
      cases hno
  | cons c cs ih =>
    obtain ⟨rfl, hc, -, hlink⟩ := h
    cases cs' with
    | nil =>
      have hno : isCluster cl = false := h'
      rw [hc] at hno
      cases hno
    | cons c' cs' =>
      obtain ⟨rfl, -, -, hlink'⟩ := h'
      rw [ih hlink hlink']

theorem length_contents (cl : UInt32) : (L.contents b cl).length = L.clusterSize := by
  rw [contents, List.length_map, List.length_range]

end FatLayout

/-! ## A volume that is mounted -/

/-- An entry is its 32 bytes. -/
theorem Dirent.read_congr {b b' : ℕ → UInt8} {o o' : ℕ} (h : ∀ k < 32, b (o + k) = b' (o' + k)) :
    Dirent.read b o = Dirent.read b' o' := by
  have hname : (List.range 11).map (fun i => b (o + i)) =
      (List.range 11).map fun i => b' (o' + i) :=
    List.map_congr_left fun i hi => h i (by have hi' := List.mem_range.mp hi; omega)
  have h16 : ∀ i ≤ 30, leAt16 b (o + i) = leAt16 b' (o' + i) := fun i hi =>
    leAt16_eq fun k hk => by rw [Nat.add_assoc, Nat.add_assoc, h (i + k) (by omega)]
  have h32 : leAt32 b (o + 28) = leAt32 b' (o' + 28) :=
    leAt32_eq fun k hk => by rw [Nat.add_assoc, Nat.add_assoc, h (28 + k) (by omega)]
  rw [Dirent.read, Dirent.read, hname, h 11 (by decide), h16 20 (by decide), h16 26 (by decide),
    h32]

namespace FatVol

/-- The driver has taken over the layout of the volume. -/
structure Has (v : FatVol) (disk : UInt32 → Sector) (baseLba : UInt32) (L : FatLayout) : Prop where
  mounted : v.mounted = true
  base : v.baseLba = baseLba
  fatStart : v.fatStart = UInt32.ofNat L.reserved
  dataStart : v.dataStart = UInt32.ofNat L.dataStart
  root : v.rootCluster = L.root
  perCluster : v.sectorsPerCluster = UInt32.ofNat L.perCluster
  perCluster_pos : 0 < L.perCluster
  perCluster_lt : L.perCluster < 256

theorem Mounts.has {v₀ v : FatVol} {disk : UInt32 → Sector} {baseLba : UInt32}
    (h : v₀.Mounts (FatIo.quiet disk) baseLba v) :
    v.Has disk baseLba (FatLayout.ofBoot (volumeByte disk baseLba)) := by
  obtain ⟨hmounted, hbase, hpos, hlt⟩ := h.geometry
  obtain ⟨-, totalClusters, rfl⟩ := parse_ok (mounts_quiet.mp h)
  have hlayout : FatLayout.ofBoot (volumeByte disk baseLba) =
      FatLayout.ofBoot (sectorByte (disk (baseLba + 0))) := rfl
  rw [UInt8.toNat_toUInt32] at hpos hlt
  rw [hlayout]
  refine ⟨rfl, hbase, ?_, ?_, rfl, ?_, hpos, hlt⟩
  · exact (UInt32.ofNat_uInt16ToNat _).symm
  · rw [FatLayout.dataStart, FatLayout.ofBoot, UInt32.ofNat_add, UInt32.ofNat_mul,
      UInt32.ofNat_uInt16ToNat, UInt32.ofNat_uInt8ToNat, UInt32.ofNat_toNat]
  · exact (UInt32.ofNat_uInt8ToNat _).symm

variable {v : FatVol} {disk : UInt32 → Sector} {baseLba : UInt32} {L : FatLayout} {cl : UInt32}

/-- The sector of the disk with a byte of the volume. -/
theorem volumeByte_sector (disk : UInt32 → Sector) (baseLba : UInt32) (s k : ℕ) :
    volumeByte disk baseLba (512 * s + k) =
      volumeByte disk (baseLba + UInt32.ofNat s) k := by
  rw [volumeByte, volumeByte, Nat.mul_add_div (by decide), UInt32.ofNat_add, UInt32.add_assoc]
  unfold sectorByte
  congr 2
  omega

theorem volumeByte_of_lt (disk : UInt32 → Sector) (lba : UInt32) {k : ℕ} (h : k < 512) :
    volumeByte disk lba k = sectorByte (disk lba) k := by
  rw [volumeByte, Nat.div_eq_of_lt h]
  exact congrArg (fun lba => sectorByte (disk lba) k) (UInt32.add_zero lba)

theorem isCluster_iff : isCluster cl = true ↔ 2 ≤ cl.toNat ∧ cl.toNat < 0x0FFFFFF8 := by
  rw [isCluster, Bool.and_eq_true, decide_eq_true_iff, decide_eq_true_iff, UInt32.le_iff_toNat_le,
    UInt32.lt_iff_toNat_lt]
  rfl

/-- The first sector of a cluster, counted from that of the volume. -/
theorem Has.firstSector (h : v.Has disk baseLba L) (hcl : isCluster cl = true) :
    v.clusterFirstSector cl = UInt32.ofNat (L.dataStart + (cl.toNat - 2) * L.perCluster) := by
  have hle : (2 : UInt32) ≤ cl := UInt32.le_iff_toNat_le.mpr (isCluster_iff.mp hcl).1
  have hsub : cl - 2 = UInt32.ofNat (cl.toNat - 2) := by
    rw [← UInt32.toNat_inj, UInt32.toNat_sub_of_le _ _ hle]
    have hlt := cl.toNat_lt
    rw [UInt32.toNat_ofNat_of_lt' (by rw [UInt32.size]; omega)]
    rfl
  rw [clusterFirstSector, h.dataStart, h.perCluster, hsub, UInt32.ofNat_add, UInt32.ofNat_mul]

/-- The driver finds the FAT entries of the volume. -/
theorem Has.nextCluster (h : v.Has disk baseLba L) (hcl : isCluster cl = true) :
    v.nextCluster disk cl = L.link (volumeByte disk baseLba) cl := by
  have hlt := (isCluster_iff.mp hcl).2
  have hmul : (cl * 4).toNat = 4 * cl.toNat := by
    rw [UInt32.toNat_mul]
    change cl.toNat * 4 % 2 ^ 32 = _
    omega
  have hsec : v.fatLba cl = baseLba + UInt32.ofNat (L.reserved + 4 * cl.toNat / 512) := by
    rw [fatLba, fatSector, h.base, h.fatStart, UInt32.ofNat_add, ← hmul]
    congr 2
    rw [← UInt32.toNat_inj, UInt32.toNat_div]
    refine (Nat.mod_eq_of_lt (Nat.lt_of_le_of_lt (Nat.div_le_self _ _) ?_)).symm
    exact (cl * 4).toNat_lt
  have hoff : (cl * 4 % 512).toNat = 4 * cl.toNat % 512 := by
    rw [UInt32.toNat_mod, hmul]
    rfl
  rw [FatVol.nextCluster, fatEntry, FatLayout.link, hsec, hoff]
  refine congrArg (· &&& 0x0FFFFFFF) (leAt32_eq fun k hk => ?_)
  have hsplit : 512 * L.reserved + 4 * cl.toNat + k =
      512 * (L.reserved + 4 * cl.toNat / 512) + (4 * cl.toNat % 512 + k) := by
    omega
  rw [hsplit, volumeByte_sector, volumeByte_of_lt _ _ (by omega)]

/-- The parts of a range of equal length. -/
theorem flatMap_range_map {α : Type} (m n : ℕ) (f : ℕ → α) :
    ((List.range n).flatMap fun s => (List.range m).map fun k => f (m * s + k)) =
      (List.range (m * n)).map f := by
  induction n with
  | zero => rfl
  | succ n ih =>
    rw [List.range_succ, List.flatMap_append, ih, List.flatMap_singleton, Nat.mul_succ,
      List.range_add, List.map_append, List.map_map]
    rfl

theorem Has.clusterLba (h : v.Has disk baseLba L) (hcl : isCluster cl = true) (s : ℕ) :
    v.clusterLba cl s =
      baseLba + UInt32.ofNat (L.dataStart + (cl.toNat - 2) * L.perCluster + s) := by
  rw [FatVol.clusterLba, h.base, h.firstSector hcl, ← UInt32.ofNat_add]

theorem Has.length_sectors (h : v.Has disk baseLba L) :
    v.sectorsPerCluster.toNat = L.perCluster := by
  have hlt := h.perCluster_lt
  rw [h.perCluster]
  exact UInt32.toNat_ofNat_of_lt' (by rw [UInt32.size]; omega)

/-- A byte of a cluster. -/
theorem volumeByte_cluster (h : v.Has disk baseLba L) (hcl : isCluster cl = true) {s k : ℕ}
    (hk : k < 512) : volumeByte disk baseLba (L.clusterStart cl + (512 * s + k)) =
      sectorByte (disk (v.clusterLba cl s)) k := by
  rw [FatLayout.clusterStart, ← Nat.add_assoc, ← Nat.mul_add, volumeByte_sector,
    volumeByte_of_lt _ _ hk, h.clusterLba hcl]

/-- The driver finds the contents of a cluster of the volume. -/
theorem Has.sectorsBytes (h : v.Has disk baseLba L) (hcl : isCluster cl = true) :
    sectorsBytes (v.clusterSectors disk cl) = L.contents (volumeByte disk baseLba) cl := by
  rw [FatLayout.contents, FatLayout.clusterSize, ← flatMap_range_map, VernisOS.FatVol.sectorsBytes,
    clusterSectors, h.length_sectors, List.flatMap_map]
  refine List.flatMap_congr fun s _ => List.map_congr_left fun k hk => ?_
  exact (volumeByte_cluster h hcl (List.mem_range.mp hk)).symm

/-- The driver finds the directory entries of a cluster of the volume. -/
theorem Has.clusterDirents (h : v.Has disk baseLba L) (hcl : isCluster cl = true) :
    v.clusterDirents disk cl = L.dirents (volumeByte disk baseLba) cl := by
  rw [FatLayout.dirents, ← flatMap_range_map, FatVol.clusterDirents, clusterSectors,
    h.length_sectors, List.flatMap_map]
  refine List.flatMap_congr fun s _ => List.map_congr_left fun e he => ?_
  have he16 : e < 16 := List.mem_range.mp he
  have hbyte : ∀ k < 32, sectorByte (disk (v.clusterLba cl s)) (e * 32 + k) =
      volumeByte disk baseLba (L.clusterStart cl + 32 * (16 * s + e) + k) := by
    intro k hk
    rw [← volumeByte_cluster h hcl (by omega)]
    congr 1
    omega
  exact Dirent.read_congr hbyte

end FatVol

end VernisOS
