import VernisOS.Sha256
import VernisOS.VernisFsImage
import VernisOS.VernisFsIsolation
import VernisOS.VernisFsReadback

/-!
# Reading back a VernisFS image

What the builder lays out (`ImageBuild.add_foldl`), the volume whose superblock and table it packs
(`ImageBuild.volume`), and what `vfs_init` and the reads find on a disk with the image.
`vfs_read_file` reads no more than 255 sectors and still returns the whole size, and the 1024 data
sectors of the superblock are a constant that nothing is compared with : a volume is read back as
it was built exactly if no file is longer than 255 sectors and all of them fit
(`image_round_trip_iff`).
-/

open Bytes Slots

namespace VernisOS

/-! ## Padding -/

theorem getD_ljust (b : List UInt8) (n k : ℕ) : (ljust b n).getD k 0 = b.getD k 0 := by
  unfold ljust
  rcases lt_or_ge k b.length with hlt | hge
  · exact List.getD_append _ _ _ _ hlt
  · rw [List.getD_append_right _ _ _ _ hge, List.getD_eq_default _ _ hge]
    rcases lt_or_ge (k - b.length) (n - b.length) with hin | hout
    · rw [List.getD_replicate _ hin]
    · exact List.getD_eq_default _ _ (by simpa using hout)

theorem length_ljust (b : List UInt8) (n : ℕ) : (ljust b n).length = max b.length n := by
  rw [ljust, List.length_append, List.length_replicate]
  omega

/-- Zeros behind the end are what a buffer has there. -/
theorem sectorsOf_ljust (b : List UInt8) (n s : ℕ) : sectorsOf (ljust b n) s = sectorsOf b s :=
  funext fun _ => getD_ljust b n _

theorem sectorsOf_append_left {as bs : List UInt8} {s : ℕ} (h : (s + 1) * 512 ≤ as.length) :
    sectorsOf (as ++ bs) s = sectorsOf as s :=
  funext fun j => List.getD_append _ _ _ _ (by have := j.isLt; omega)

theorem sectorsOf_append_right {as bs : List UInt8} {m s : ℕ} (h : as.length = m * 512) :
    sectorsOf (as ++ bs) (m + s) = sectorsOf bs s := by
  funext j
  unfold sectorsOf
  rw [List.getD_append_right _ _ _ _ (by omega), h]
  congr 1
  omega

/-- A name that fits is padded the same way on both sides. -/
theorem vfsStrncpy_eq_ljust {src : List UInt8} {n : ℕ} (h : src.length < n) :
    vfsStrncpy n src = ljust (src.take n) n := by
  rw [List.take_of_length_le h.le]
  fun_induction vfsStrncpy n src with
  | case1 => cases h
  | case2 src =>
    obtain rfl : src = [] := List.eq_nil_of_length_eq_zero (by omega)
    rfl
  | case3 n ih => rw [ih (Nat.succ_pos n)]; rfl
  | case4 n c cs ih =>
    rw [ih (by simpa using h)]
    simp [ljust]

/-! ## What the builder lays out -/

namespace ImageBuild

/-- A file to put in : name, contents and flags. -/
abbrev Source := String × List UInt8 × UInt8

/-- The entries of files that are laid out behind each other from a sector on. -/
def layout (next : ℕ) : List Source → List ImageFile
  | [] => []
  | f :: l => ⟨f.1, next, f.2.1.length, 1, f.2.2⟩ :: layout (next + blockSectors f.2.1) l

/-- The sectors of some files. -/
def totalSectors (l : List Source) : ℕ :=
  (l.map fun f => blockSectors f.2.1).sum

theorem layout_nil (next : ℕ) : layout next [] = [] :=
  rfl

theorem layout_cons (next : ℕ) (f : Source) (l : List Source) :
    layout next (f :: l) =
      ⟨f.1, next, f.2.1.length, 1, f.2.2⟩ :: layout (next + blockSectors f.2.1) l :=
  rfl

theorem totalSectors_nil : totalSectors [] = 0 :=
  rfl

theorem totalSectors_cons (f : Source) (l : List Source) :
    totalSectors (f :: l) = blockSectors f.2.1 + totalSectors l :=
  rfl

theorem add_foldl (l : List Source) (b : ImageBuild) :
    l.foldl (fun b f => b.add f.1 f.2.1 f.2.2) b =
      ⟨b.files ++ layout b.nextSector l, b.dataBlocks ++ l.map fun f => f.2.1,
        b.nextSector + totalSectors l⟩ := by
  induction l generalizing b with
  | nil => simp [layout_nil, totalSectors_nil]
  | cons f l ih =>
    rw [List.foldl_cons, ih]
    simp [add, layout_cons, totalSectors_cons, Nat.add_assoc]

/-- The files, one after the other. -/
def ofSources (l : List Source) : ImageBuild :=
  ⟨layout 0 l, l.map fun f => f.2.1, totalSectors l⟩

theorem length_layout (next : ℕ) (l : List Source) : (layout next l).length = l.length := by
  induction l generalizing next with
  | nil => rfl
  | cons f l ih => rw [layout_cons, List.length_cons, List.length_cons, ih]

theorem getElem?_layout (next : ℕ) (l : List Source) (i : ℕ) :
    (layout next l)[i]? = l[i]?.map fun f =>
      ⟨f.1, next + totalSectors (l.take i), f.2.1.length, 1, f.2.2⟩ := by
  induction l generalizing next i with
  | nil => rfl
  | cons f l ih =>
    cases i with
    | zero => simp [layout_cons, totalSectors_nil]
    | succ i =>
      rw [layout_cons, List.getElem?_cons_succ, ih, List.getElem?_cons_succ]
      simp [totalSectors_cons, Nat.add_assoc]

theorem totalSectors_append (l l' : List Source) :
    totalSectors (l ++ l') = totalSectors l + totalSectors l' := by
  simp [totalSectors]

/-- A file ends where the files up to it end. -/
theorem totalSectors_take_succ {l : List Source} {i : ℕ} {f : Source} (h : l[i]? = some f) :
    totalSectors (l.take (i + 1)) = totalSectors (l.take i) + blockSectors f.2.1 := by
  rw [List.take_add_one, h, totalSectors_append]
  simp [totalSectors]

theorem totalSectors_take_mono (l : List Source) {i j : ℕ} (h : i ≤ j) :
    totalSectors (l.take i) ≤ totalSectors (l.take j) := by
  obtain ⟨k, rfl⟩ := Nat.exists_eq_add_of_le h
  rw [List.take_add, totalSectors_append]
  exact Nat.le_add_right _ _

theorem totalSectors_take_le (l : List Source) (i : ℕ) :
    totalSectors (l.take i) ≤ totalSectors l := by
  conv_rhs => rw [← List.take_append_drop i l, totalSectors_append]
  exact Nat.le_add_right _ _

/-! ## The volume -/

/-- A name, as the characters before a NUL. -/
def path (name : String) : CStr :=
  ⟨(utf8 name).takeWhile (· ≠ 0), fun h => by simpa using List.mem_takeWhile_imp h⟩

/-- The table entry of a file. -/
def entry (f : ImageFile) : VfsFileEntry :=
  ⟨.ofPath (path f.name), UInt32.ofNat f.start, UInt32.ofNat f.size, f.ftype, f.flags, 0, 0, 0,
    Vector.replicate 16 0⟩

/-- A name that the table can hold. -/
structure GoodName (name : String) : Prop where
  noNul : 0 ∉ utf8 name
  fits : (utf8 name).length < vfsMaxFilename

theorem GoodName.path_chars {name : String} (h : GoodName name) : (path name).chars = utf8 name :=
  List.takeWhile_eq_self_iff.mpr fun _ hc => decide_eq_true fun hzero => h.noNul (hzero ▸ hc)

/-- The superblock and the table of the files. -/
def volume (b : ImageBuild) (disk : Backend) : VernisFs where
  superblock := ⟨vfsMagic, 1, UInt16.ofNat b.files.length, 1024, UInt32.ofNat b.nextSector,
    Vector.replicate 16 0⟩
  filetable i := (b.files[i.val]?.map entry).getD .zero
  ready := true
  disk := disk

/-- What the builder packs is what the entry is packed to. -/
theorem makeFileEntry_eq_some {f : ImageFile} {bytes : List UInt8} (hname : GoodName f.name)
    (h : makeFileEntry f = some bytes) :
    bytes = (entry f).toBytes ∧ f.start < 2 ^ 32 ∧ f.size < 2 ^ 32 := by
  unfold makeFileEntry packWord at h
  split at h
  · next hstart =>
    split at h
    · next hsize =>
      refine ⟨?_, hstart, hsize⟩
      rw [← Option.some.inj h]
      have hfield : (VfsFilename.ofPath (path f.name)).bytes =
          ljust ((utf8 f.name).take vfsMaxFilename) vfsMaxFilename := by
        change vfsStrncpy vfsMaxFilename (path f.name).chars = _
        rw [hname.path_chars]
        exact vfsStrncpy_eq_ljust hname.fits
      have hlen : (ljust ((utf8 f.name).take vfsMaxFilename) vfsMaxFilename).length = 32 := by
        rw [length_ljust, Nat.max_eq_right (List.length_take_le _ _)]
      have hzeros : le16 0 ++ le16 0 ++ le16 0 ++ (Vector.replicate 16 0).toList =
          List.replicate 22 0 := by decide
      unfold VfsFileEntry.toBytes entry
      dsimp only
      have hrest : ∀ x : List UInt8, x ++ le16 0 ++ le16 0 ++ le16 0 ++
          (Vector.replicate 16 0).toList = x ++ List.replicate 22 0 := by
        intro x
        rw [← hzeros]
        simp only [List.append_assoc]
      rw [hfield, hrest, ljust]
      simp [hlen]
    · cases h
  · cases h

theorem mapM_makeFileEntry {files : List ImageFile} (hnames : ∀ f ∈ files, GoodName f.name)
    {entries : List (List UInt8)} (h : files.mapM makeFileEntry = some entries) :
    entries.flatten = files.flatMap (fun f => (entry f).toBytes) ∧
      ∀ f ∈ files, f.start < 2 ^ 32 ∧ f.size < 2 ^ 32 := by
  induction files generalizing entries with
  | nil =>
    cases h
    exact ⟨rfl, fun _ hf => absurd hf List.not_mem_nil⟩
  | cons f files ih =>
    rw [List.mapM_cons] at h
    obtain ⟨bytes, hbytes, hrest⟩ := Option.bind_eq_some_iff.mp h
    obtain ⟨rest, hmap, hentries⟩ := Option.bind_eq_some_iff.mp hrest
    obtain ⟨hentry, hsmall⟩ := makeFileEntry_eq_some (hnames f List.mem_cons_self) hbytes
    obtain ⟨hflat, hsmalls⟩ := ih (fun g hg => hnames g (List.mem_cons_of_mem _ hg)) hmap
    cases hentries
    refine ⟨?_, List.forall_mem_cons.mpr ⟨hsmall, hsmalls⟩⟩
    rw [List.flatten_cons, List.flatMap_cons, hflat, hentry]

/-- The packed fields of the superblock. -/
def header (b : ImageBuild) : List UInt8 :=
  le32 vfsMagic ++ le16 1 ++ le16 (UInt16.ofNat b.files.length) ++ le32 1024 ++
    le32 (UInt32.ofNat b.nextSector)

/-- The parts of an image, and the numbers that fit into their fields. -/
theorem image_eq_some {b : ImageBuild} (hnames : ∀ f ∈ b.files, GoodName f.name)
    {img : List UInt8} (h : b.image = some img) :
    img = ljust b.header 512 ++
        ljust (b.files.flatMap fun f => (entry f).toBytes) (vfsFiletableSectors * 512) ++
        (b.dataBlocks.flatMap fun block => ljust block (blockSectors block * 512)) ∧
      b.nextSector < 2 ^ 32 ∧ ∀ f ∈ b.files, f.start < 2 ^ 32 ∧ f.size < 2 ^ 32 := by
  obtain ⟨sb, hsb, hrest⟩ := Option.bind_eq_some_iff.mp h
  obtain ⟨entries, hmap, himg⟩ := Option.bind_eq_some_iff.mp hrest
  obtain ⟨hflat, hsmall⟩ := mapM_makeFileEntry hnames hmap
  unfold makeSuperblock packHalf packWord at hsb
  split at hsb
  · split at hsb
    · next hnext =>
      refine ⟨?_, hnext, hsmall⟩
      rw [← Option.some.inj himg, ← Option.some.inj hsb, hflat]
      rfl
    · cases hsb
  · cases hsb

theorem isSome_mapM {files : List ImageFile}
    (h : ∀ f ∈ files, f.start < 2 ^ 32 ∧ f.size < 2 ^ 32) :
    (files.mapM makeFileEntry).isSome = true := by
  induction files with
  | nil => rfl
  | cons f files ih =>
    obtain ⟨hstart, hsize⟩ := h f List.mem_cons_self
    obtain ⟨rest, hrest⟩ := Option.isSome_iff_exists.mp
      (ih fun g hg => h g (List.mem_cons_of_mem _ hg))
    rw [List.mapM_cons, hrest]
    unfold makeFileEntry packWord
    rw [if_pos hstart, if_pos hsize]
    rfl

/-- There is an image if its numbers fit into their fields. -/
theorem isSome_image {b : ImageBuild} (hcount : b.files.length < 2 ^ 16)
    (hnext : b.nextSector < 2 ^ 32) (h : ∀ f ∈ b.files, f.start < 2 ^ 32 ∧ f.size < 2 ^ 32) :
    b.image.isSome = true := by
  obtain ⟨entries, hentries⟩ := Option.isSome_iff_exists.mp (isSome_mapM h)
  unfold image makeSuperblock packHalf packWord
  rw [if_pos hcount, if_pos hnext, hentries]
  rfl

theorem toBytes_zero : VfsFileEntry.zero.toBytes = List.replicate 64 0 := by
  decide

/-- The table of the volume is packed to the entries of the files, and zeros. -/
theorem tableBytes_volume {b : ImageBuild} (hcount : b.files.length ≤ vfsMaxFiles)
    (disk : Backend) : VernisFs.tableBytes (b.volume disk).filetable =
      ljust (b.files.flatMap fun f => (entry f).toBytes) (vfsFiletableSectors * 512) := by
  set rest := vfsMaxFiles - b.files.length with hrest
  have hslots : (slots vfsMaxFiles).map (b.volume disk).filetable =
      b.files.map entry ++ List.replicate rest .zero := by
    refine map_slots (by simp [hrest]; omega) fun i => ?_
    have hi := i.isLt
    rw [List.getElem?_append, List.length_map]
    unfold volume
    dsimp only
    split
    · next hlt => rw [List.getElem?_map, List.getElem?_eq_getElem hlt]; rfl
    · next hge =>
      rw [List.getElem?_replicate, if_pos (by omega),
        List.getElem?_eq_none (by omega : b.files.length ≤ i.val)]
      rfl
  have hlen : (b.files.flatMap fun f => (entry f).toBytes).length = b.files.length * 64 := by
    simp [List.length_flatMap, VfsFileEntry.length_toBytes]
  have hzeros : (List.replicate rest VfsFileEntry.zero).flatMap VfsFileEntry.toBytes =
      List.replicate (rest * 64) 0 := by
    rw [List.flatMap_replicate, toBytes_zero, List.flatten_replicate_replicate]
  calc VernisFs.tableBytes (b.volume disk).filetable
      = ((slots vfsMaxFiles).map (b.volume disk).filetable).flatMap VfsFileEntry.toBytes :=
        (List.flatMap_map ..).symm
    _ = (b.files.flatMap fun f => (entry f).toBytes) ++ List.replicate (rest * 64) 0 := by
        rw [hslots, List.flatMap_append, hzeros, List.flatMap_map]
    _ = _ := by
        rw [ljust, hlen]
        congr 2
        have hfull : b.files.length + rest = 32 := Nat.add_sub_cancel' hcount
        unfold vfsFiletableSectors
        omega

/-- Short files that fit have an image. -/
theorem exists_image {l : List Source} (hcount : l.length < 2 ^ 16)
    (htotal : totalSectors l < 2 ^ 32) (hlen : ∀ f ∈ l, f.2.1.length < 2 ^ 32) :
    ∃ img, (ofSources l).image = some img := by
  refine Option.isSome_iff_exists.mp
    (isSome_image ((length_layout 0 l).trans_lt hcount) htotal fun g hg => ?_)
  obtain ⟨i, hi⟩ := List.mem_iff_getElem?.mp hg
  change (layout 0 l)[i]? = _ at hi
  rw [getElem?_layout] at hi
  obtain ⟨f, hf, rfl⟩ := Option.map_eq_some_iff.mp hi
  have hle := totalSectors_take_le l i
  refine ⟨?_, hlen f (List.mem_of_getElem? hf)⟩
  dsimp only
  omega

/-! ## The disk -/

variable {b : ImageBuild} {img : List UInt8} {rest : UInt32 → Sector}

theorem imageDisk_sector {s : ℕ} (h : s * 512 < img.length) (hs : s < 2 ^ 32) :
    imageDisk img rest (vfsStartSector + UInt32.ofNat s) = sectorsOf img s := by
  have hsub : vfsStartSector + UInt32.ofNat s - vfsStartSector = UInt32.ofNat s := by
    rw [UInt32.add_comm]
    exact UInt32.add_sub_cancel _ _
  rw [imageDisk, hsub, UInt32.toNat_ofNat_of_lt' hs]
  exact if_pos h

theorem length_header (b : ImageBuild) : b.header.length = 16 := rfl

theorem length_superblock (b : ImageBuild) : (ljust b.header 512).length = 512 := by
  rw [length_ljust, length_header]
  rfl

/-- The superblock and the table on the disk are those of the volume. -/
theorem synced_volume (hnames : ∀ f ∈ b.files, GoodName f.name)
    (hcount : b.files.length ≤ vfsMaxFiles) (himg : b.image = some img) {disk : Backend}
    (hdisk : disk.disk = imageDisk img rest) : (b.volume disk).Synced := by
  obtain ⟨heq, -, -⟩ := image_eq_some hnames himg
  rw [← tableBytes_volume hcount disk, List.append_assoc] at heq
  have hlen : (VernisFs.tableBytes (b.volume disk).filetable).length = 4 * 512 :=
    VernisFs.length_tableBytes _
  have hsb := length_superblock b
  have hlong : 2560 ≤ img.length := by
    rw [heq, List.length_append, List.length_append, hsb, hlen]
    omega
  constructor
  · have hplace : vfsStartSector + vfsSuperblockSector = vfsStartSector + UInt32.ofNat 0 := rfl
    change disk.disk _ = _
    rw [hdisk, hplace, imageDisk_sector (by omega) (by decide), heq,
      sectorsOf_append_left (by omega), sectorsOf_ljust, ← sectorsOf_ljust b.header 32]
    rfl
  · intro s hs
    have hs4 : s < 4 := hs
    have hplace : vfsStartSector + vfsFiletableSector + UInt32.ofNat s =
        vfsStartSector + UInt32.ofNat (1 + s) := by
      rw [UInt32.ofNat_add, ← UInt32.add_assoc]
      rfl
    change disk.disk _ = sectorsOf (VernisFs.tableBytes (b.volume disk).filetable) s
    generalize VernisFs.tableBytes (b.volume disk).filetable = table at *
    generalize ljust b.header 512 = sb at *
    have hone : sb.length = 1 * 512 := hsb
    have hpart : (s + 1) * 512 ≤ table.length := by omega
    rw [hdisk, hplace, imageDisk_sector (by omega) (by omega), heq, sectorsOf_append_right hone,
      sectorsOf_append_left hpart]

theorem length_padded (data : List UInt8) :
    (ljust data (blockSectors data * 512)).length = blockSectors data * 512 := by
  rw [length_ljust]
  unfold blockSectors
  omega

/-- The padded data of some files. -/
def dataBytes (l : List Source) : List UInt8 :=
  (l.map fun f => f.2.1).flatMap fun block => ljust block (blockSectors block * 512)

theorem length_dataBytes (l : List Source) : (dataBytes l).length = totalSectors l * 512 := by
  induction l with
  | nil => rfl
  | cons f l ih =>
    have hcons : dataBytes (f :: l) =
        ljust f.2.1 (blockSectors f.2.1 * 512) ++ dataBytes l := rfl
    have htotal : totalSectors (f :: l) = blockSectors f.2.1 + totalSectors l := by
      simp [totalSectors]
    rw [hcons, List.length_append, length_padded, ih, htotal, Nat.add_mul]

/-- The sectors of a file in the data. -/
theorem sectorsOf_dataBytes {l : List Source} {i : ℕ} {f : Source} (hi : l[i]? = some f) {k : ℕ}
    (hk : k < blockSectors f.2.1) :
    sectorsOf (dataBytes l) (totalSectors (l.take i) + k) = sectorsOf f.2.1 k := by
  obtain ⟨hlt, hget⟩ := List.getElem?_eq_some_iff.mp hi
  have hsplit : dataBytes l = dataBytes (l.take i) ++
      (ljust f.2.1 (blockSectors f.2.1 * 512) ++ dataBytes (l.drop (i + 1))) := by
    have hl : l = l.take i ++ f :: l.drop (i + 1) := by
      rw [← hget, ← List.drop_eq_getElem_cons hlt, List.take_append_drop]
    conv_lhs => rw [hl]
    unfold dataBytes
    rw [List.map_append, List.flatMap_append, List.map_cons, List.flatMap_cons]
  have hpart : (k + 1) * 512 ≤ (ljust f.2.1 (blockSectors f.2.1 * 512)).length := by
    rw [length_padded]
    exact Nat.mul_le_mul_right 512 hk
  rw [hsplit, sectorsOf_append_right (length_dataBytes _), sectorsOf_append_left hpart,
    sectorsOf_ljust]

/-- The sectors of a file on the disk. -/
theorem disk_dataSector {l : List Source} (hnames : ∀ f ∈ layout 0 l, GoodName f.name)
    (hcount : l.length ≤ vfsMaxFiles) (himg : (ofSources l).image = some img)
    (hfit : totalSectors l ≤ 1024) {i : ℕ} {f : Source} (hi : l[i]? = some f) {k : ℕ}
    (hk : k < blockSectors f.2.1) :
    imageDisk img rest (VernisFs.dataSector (UInt32.ofNat (totalSectors (l.take i))) k) =
      sectorsOf f.2.1 k := by
  obtain ⟨heq, -, -⟩ := image_eq_some hnames himg
  have htable := tableBytes_volume (b := ofSources l) ((length_layout 0 l).trans_le hcount)
    zeroDisk
  rw [← htable] at heq
  have hlen : (VernisFs.tableBytes ((ofSources l).volume zeroDisk).filetable).length = 4 * 512 :=
    VernisFs.length_tableBytes _
  have hsb := length_superblock (ofSources l)
  change img = _ ++ _ ++ dataBytes l at heq
  have hend := totalSectors_take_succ hi
  have hle := totalSectors_take_le l (i + 1)
  have hdata := sectorsOf_dataBytes hi hk
  have hlong := length_dataBytes l
  set start := totalSectors (l.take i)
  have hplace : VernisFs.dataSector (UInt32.ofNat start) k =
      vfsStartSector + UInt32.ofNat (5 + (start + k)) := by
    rw [VernisFs.dataSector, UInt32.ofNat_add, UInt32.ofNat_add, UInt32.add_assoc,
      UInt32.add_assoc]
    rfl
  generalize VernisFs.tableBytes ((ofSources l).volume zeroDisk).filetable = table at *
  generalize ljust (ofSources l).header 512 = sb at *
  have hmeta : (sb ++ table).length = 5 * 512 := by
    rw [List.length_append, hsb, hlen]
  have htotal : img.length = 2560 + totalSectors l * 512 := by
    rw [heq, List.length_append, hmeta, hlong]
  rw [hplace, imageDisk_sector (by omega) (by omega), heq, sectorsOf_append_right hmeta, hdata]

end ImageBuild

/-! ## Reading -/

namespace VernisFs

variable {fs : VernisFs} {path : CStr} {i : Fin vfsMaxFiles}

/-- A file of at most 255 sectors that is on the disk is read back. -/
theorem readsBack_of_disk {data : List UInt8} (hfind : fs.vfsFindFile path = some i)
    (hdisk : fs.disk.NeverFails) (hsize : (fs.filetable i).size = UInt32.ofNat data.length)
    (hlen : data.length ≤ 130560) (hsectors : ∀ k < blockSectors data,
      fs.disk.disk (dataSector (fs.filetable i).startSector k) = sectorsOf data k) :
    fs.ReadsBack path (fun k => data.getD k 0) (UInt64.ofNat data.length) := by
  have hnat : (UInt64.ofNat data.length).toNat = data.length :=
    UInt64.toNat_ofNat_of_lt' (by rw [UInt64.size]; omega)
  have hnat32 : (UInt32.ofNat data.length).toNat = data.length :=
    UInt32.toNat_ofNat_of_lt' (by rw [UInt32.size]; omega)
  refine ⟨by rw [hfind]; rfl, fun buf maxLen hmax => ?_⟩
  obtain ⟨size, -, hwhole, hrc, hbuf⟩ := vfsReadFile_spec hfind hdisk buf maxLen
  have hle := UInt64.le_iff_toNat_le.mp hmax
  rw [hsize, if_neg] at hwhole
  · subst hwhole
    refine ⟨by rw [hrc, cInt_of_lt (by omega), hnat32, hnat], fun k hk => ?_⟩
    rw [hnat] at hk
    have hcount : readSectors (UInt32.ofNat data.length) = blockSectors data := by
      rw [readSectors_eq (by omega), sectorCount, hnat32]
      unfold blockSectors
      omega
    have hin : k / 512 < blockSectors data := by
      unfold blockSectors
      omega
    rw [hbuf, hcount]
    unfold byteAt
    dsimp only
    rw [if_pos hin, show vfsStartSector + vfsDataSector + (fs.filetable i).startSector +
      UInt32.ofNat (k / 512) = dataSector (fs.filetable i).startSector (k / 512) from rfl,
      hsectors _ hin, sectorsOf, Nat.div_add_mod']
  · intro hlt
    have hlt' := UInt64.lt_iff_toNat_lt.mp hlt
    rw [UInt32.toNat_toUInt64] at hlt'
    omega

/-- The byte behind 255 sectors is never read. -/
theorem length_le_of_readsBack {data : ℕ → UInt8} {len : UInt64}
    (h : fs.ReadsBack path data len) (hdisk : fs.disk.NeverFails) : len.toNat ≤ 130560 := by
  by_contra hlong
  obtain ⟨i, hfind⟩ := Option.isSome_iff_exists.mp h.found
  obtain ⟨size, -, -, -, hbuf⟩ := vfsReadFile_spec hfind hdisk
    (fun s j => data (s * 512 + j.val) + 1) len
  have hread := (h.read (fun s j => data (s * 512 + j.val) + 1) len
    (UInt64.le_refl len)).2 130560 (by omega)
  have hcap : ¬ 255 < readSectors size := by
    unfold readSectors
    omega
  rw [hbuf] at hread
  unfold byteAt at hread
  dsimp only at hread
  rw [if_neg hcap] at hread
  have hone : (data 130560 + 1) - data 130560 = data 130560 - data 130560 :=
    congrArg (· - data 130560) hread
  rw [UInt8.add_comm, UInt8.add_sub_cancel, UInt8.sub_self] at hone
  cases hone

end VernisFs

/-! ## Images -/

/-- The volume holds the files that were put in, apart from each other and inside its data
sectors. -/
structure ReadsImage (fs : VernisFs) (b : ImageBuild) : Prop where
  read : ∀ f ∈ b.files.zip b.dataBlocks, ∃ path : CStr, path.chars = utf8 f.1.name ∧
    fs.ReadsBack path (fun k => f.2.getD k 0) (UInt64.ofNat f.2.length)
  apart : ∀ i j, i ≠ j → Occupied fs.filetable i → Occupied fs.filetable j →
    Apart (fs.filetable i).start (fs.filetable i).sectors
      (fs.filetable j).start (fs.filetable j).sectors
  below : ∀ i, Occupied fs.filetable i →
    (fs.filetable i).start + (fs.filetable i).sectors ≤ fs.superblock.firstFreeSector.toNat
  fits : fs.superblock.firstFreeSector ≤ fs.superblock.totalDataSectors

/-- On every disk with the image, `vfs_init` finds the volume. -/
def ImageReadsBack (img : List UInt8) (b : ImageBuild) : Prop :=
  ∀ (boot : VernisFs) (rest : UInt32 → Sector), boot.disk.NeverFails →
    boot.disk.disk = imageDisk img rest →
    ∃ fs, boot.vfsInit = some (true, fs) ∧ ReadsImage fs b

namespace ImageBuild

variable {l : List Source} {img : List UInt8} {rest : UInt32 → Sector}

/-- The list can be put into one table. -/
structure Fillable (l : List Source) : Prop where
  names : ∀ f ∈ l, GoodName f.1
  nodup : (l.map fun f => utf8 f.1).Nodup
  count : l.length ≤ vfsMaxFiles

theorem Fillable.layout_names (h : Fillable l) : ∀ f ∈ layout 0 l, GoodName f.name := by
  intro g hg
  obtain ⟨i, hi⟩ := List.mem_iff_getElem?.mp hg
  rw [getElem?_layout] at hi
  obtain ⟨f, hf, rfl⟩ := Option.map_eq_some_iff.mp hi
  exact h.names f (List.mem_of_getElem? hf)

/-- What `vfs_init` finds. -/
theorem vfsInit_image (h : Fillable l) (himg : (ofSources l).image = some img) {boot : VernisFs}
    (hnever : boot.disk.NeverFails) (hdisk : boot.disk.disk = imageDisk img rest) :
    boot.vfsInit = some (true, (ofSources l).volume
      { boot.disk with calls := boot.disk.calls + 1 + 1 }) := by
  have hsynced := synced_volume h.layout_names ((length_layout 0 l).trans_le h.count) himg hdisk
  exact hsynced.vfsInit_eq rfl hnever rfl

/-- The entry of a slot. -/
theorem filetable_of_getElem? {i : Fin vfsMaxFiles} {f : Source} (hi : l[i.val]? = some f)
    (disk : Backend) : ((ofSources l).volume disk).filetable i =
      entry ⟨f.1, totalSectors (l.take i.val), f.2.1.length, 1, f.2.2⟩ := by
  have hfile : (layout 0 l)[i.val]? =
      some ⟨f.1, totalSectors (l.take i.val), f.2.1.length, 1, f.2.2⟩ := by
    rw [getElem?_layout, hi, Option.map_some, Nat.zero_add]
  change ((layout 0 l)[i.val]?.map entry).getD .zero = _
  rw [hfile]
  rfl

/-- A slot in use has a file. -/
theorem getElem?_of_occupied {i : Fin vfsMaxFiles} {disk : Backend}
    (h : Occupied ((ofSources l).volume disk).filetable i) : ∃ f, l[i.val]? = some f := by
  cases hi : l[i.val]? with
  | some f => exact ⟨f, rfl⟩
  | none =>
    have hfile : (layout 0 l)[i.val]? = none := by
      rw [getElem?_layout, hi]
      rfl
    refine absurd ?_ h
    change (((layout 0 l)[i.val]?.map entry).getD .zero).type = _
    rw [hfile]
    rfl

theorem str_entry {f : ImageFile} (h : GoodName f.name) : (entry f).filename.str = utf8 f.name := by
  change (VfsFilename.ofPath (path f.name)).str = _
  rw [VfsFilename.str_ofPath, h.path_chars]
  exact List.take_of_length_le (Nat.le_of_lt_succ h.fits)

/-- A file is found in its slot. -/
theorem vfsFindFile_volume (h : Fillable l) {i : Fin vfsMaxFiles} {f : Source}
    (hi : l[i.val]? = some f) (disk : Backend) :
    ((ofSources l).volume disk).vfsFindFile (path f.1) = some i := by
  have hchars := (h.names f (List.mem_of_getElem? hi)).path_chars
  have hnamed : ∀ (j : Fin vfsMaxFiles) (g : Source), l[j.val]? = some g →
      Named ((ofSources l).volume disk).filetable j (utf8 g.1) := by
    intro j g hg
    have hentry := filetable_of_getElem? hg disk
    refine ⟨?_, ?_⟩
    · change (((ofSources l).volume disk).filetable j).type ≠ _
      rw [hentry]
      exact (by decide : (1 : UInt8) ≠ vfsTypeEmpty)
    · rw [hentry]
      exact str_entry (h.names g (List.mem_of_getElem? hg))
  refine VernisFs.findSlot_eq_some.mpr ⟨?_, fun j hj => ?_⟩
  · rw [hchars]
    exact hnamed i f hi
  · rw [hchars] at hj
    obtain ⟨g, hg⟩ := getElem?_of_occupied hj.1
    have hsame : utf8 g.1 = utf8 f.1 := (hnamed j g hg).2.symm.trans hj.2
    have hget : ∀ {k : ℕ} {e : Source}, l[k]? = some e →
        (l.map fun f => utf8 f.1)[k]? = some (utf8 e.1) := by
      intro k e he
      rw [List.getElem?_map, he]
      rfl
    have hlt : i.val < (l.map fun f => utf8 f.1).length := by
      rw [List.length_map]
      exact (List.getElem?_eq_some_iff.mp hi).1
    have heq := (List.getElem?_inj hlt h.nodup).mp ((hget hi).trans (hsame ▸ (hget hg).symm))
    exact (Fin.ext heq).le

/-- The numbers in the entry of a file. -/
theorem extent_entry (h : Fillable l) (himg : (ofSources l).image = some img)
    {i : Fin vfsMaxFiles} {f : Source} (hi : l[i.val]? = some f) (disk : Backend) :
    (((ofSources l).volume disk).filetable i).start = totalSectors (l.take i.val) ∧
      (((ofSources l).volume disk).filetable i).size.toNat = f.2.1.length ∧
      (((ofSources l).volume disk).filetable i).sectors = blockSectors f.2.1 := by
  obtain ⟨-, -, hsmall⟩ := image_eq_some h.layout_names himg
  have hfile : (layout 0 l)[i.val]? =
      some ⟨f.1, totalSectors (l.take i.val), f.2.1.length, 1, f.2.2⟩ := by
    rw [getElem?_layout, hi, Option.map_some, Nat.zero_add]
  obtain ⟨hstart, hsize⟩ := hsmall _ (List.mem_of_getElem? hfile)
  rw [filetable_of_getElem? hi]
  have hsize' : (UInt32.ofNat f.2.1.length).toNat = f.2.1.length :=
    UInt32.toNat_ofNat_of_lt' hsize
  refine ⟨UInt32.toNat_ofNat_of_lt' hstart, hsize', ?_⟩
  change ((UInt32.ofNat f.2.1.length).toNat + 511) / 512 = _
  rw [hsize']
  rfl

/-- Files that are short enough and fit are read back. -/
theorem readsImage_volume (h : Fillable l) (himg : (ofSources l).image = some img)
    (hshort : ∀ f ∈ l, f.2.1.length ≤ 130560) (hfit : totalSectors l ≤ 1024) {disk : Backend}
    (hnever : disk.NeverFails) (hdisk : disk.disk = imageDisk img rest) :
    ReadsImage ((ofSources l).volume disk) (ofSources l) := by
  have htotal : (UInt32.ofNat (totalSectors l)).toNat = totalSectors l :=
    UInt32.toNat_ofNat_of_lt' (by rw [UInt32.size]; omega)
  constructor
  · intro f hf
    obtain ⟨k, hk⟩ := List.mem_iff_getElem?.mp hf
    change ((layout 0 l).zip (l.map fun f => f.2.1))[k]? = some f at hk
    rw [List.getElem?_zip_eq_some, getElem?_layout, List.getElem?_map] at hk
    obtain ⟨hfile, hdata⟩ := hk
    obtain ⟨g, hg, hfile⟩ := Option.map_eq_some_iff.mp hfile
    rw [hg] at hdata
    have hlt : k < l.length := (List.getElem?_eq_some_iff.mp hg).1
    have hmem := List.mem_of_getElem? hg
    have hslot : l[(⟨k, hlt.trans_le h.count⟩ : Fin vfsMaxFiles).val]? = some g := hg
    rw [← hfile, ← Option.some.inj hdata]
    refine ⟨path g.1, (h.names g hmem).path_chars, ?_⟩
    refine VernisFs.readsBack_of_disk (vfsFindFile_volume h hslot disk) hnever ?_
      (hshort g hmem) fun s hs => ?_
    · rw [filetable_of_getElem? hslot]
      rfl
    · rw [filetable_of_getElem? hslot]
      change disk.disk _ = _
      rw [hdisk]
      exact disk_dataSector h.layout_names h.count himg hfit hg hs
  · intro i j hne hi hj
    obtain ⟨f, hf⟩ := getElem?_of_occupied hi
    obtain ⟨g, hg⟩ := getElem?_of_occupied hj
    obtain ⟨hstart, -, hcount⟩ := extent_entry h himg hf disk
    obtain ⟨hstart', -, hcount'⟩ := extent_entry h himg hg disk
    have hend := totalSectors_take_succ hf
    have hend' := totalSectors_take_succ hg
    rw [hstart, hcount, hstart', hcount']
    intro x hx hx' hy hy'
    rcases lt_or_gt_of_ne (Fin.val_ne_of_ne hne) with hlt | hgt
    · have := totalSectors_take_mono l (show i.val + 1 ≤ j.val from hlt)
      omega
    · have := totalSectors_take_mono l (show j.val + 1 ≤ i.val from hgt)
      omega
  · intro i hi
    obtain ⟨f, hf⟩ := getElem?_of_occupied hi
    obtain ⟨hstart, -, hcount⟩ := extent_entry h himg hf disk
    rw [hstart, hcount, ← totalSectors_take_succ hf]
    change _ ≤ (UInt32.ofNat (totalSectors l)).toNat
    rw [htotal]
    exact totalSectors_take_le l _
  · change UInt32.ofNat (totalSectors l) ≤ 1024
    rw [UInt32.le_iff_toNat_le, htotal]
    exact hfit

/-- A list is read back exactly if each file has at most 255 sectors and all fit. -/
theorem readsBack_iff (h : Fillable l) (himg : (ofSources l).image = some img) :
    ImageReadsBack img (ofSources l) ↔
      (∀ f ∈ l, f.2.1.length ≤ 130560) ∧ totalSectors l ≤ 1024 := by
  constructor
  · intro hreads
    obtain ⟨-, hnext, -⟩ := image_eq_some h.layout_names himg
    set boot : VernisFs := { VernisFs.emptyVolume with
      disk := { zeroDisk with disk := imageDisk img fun _ _ => 0 } }
    have hnever : boot.disk.NeverFails := fun _ => rfl
    obtain ⟨fs, hmount, hfs⟩ := hreads boot (fun _ _ => 0) hnever rfl
    rw [vfsInit_image h himg hnever rfl] at hmount
    cases hmount
    refine ⟨fun f hf => ?_, ?_⟩
    · obtain ⟨k, hk⟩ := List.mem_iff_getElem?.mp hf
      have hlt : k < l.length := (List.getElem?_eq_some_iff.mp hk).1
      have hslot : l[(⟨k, hlt.trans_le h.count⟩ : Fin vfsMaxFiles).val]? = some f := hk
      obtain ⟨-, hsize, -⟩ := extent_entry h himg hslot zeroDisk
      have hzip : ((layout 0 l).zip (l.map fun f => f.2.1))[k]? = some
          (⟨f.1, 0 + totalSectors (l.take k), f.2.1.length, 1, f.2.2⟩, f.2.1) := by
        rw [List.getElem?_zip_eq_some, getElem?_layout, List.getElem?_map, hk]
        exact ⟨rfl, rfl⟩
      obtain ⟨p, -, hread⟩ := hfs.read _ (List.mem_of_getElem? hzip)
      have hlen := VernisFs.length_le_of_readsBack hread fun _ => rfl
      have hword := UInt32.toNat_lt (((ofSources l).volume zeroDisk).filetable
        ⟨k, hlt.trans_le h.count⟩).size
      rw [hsize] at hword
      dsimp only at hlen
      rwa [UInt64.toNat_ofNat_of_lt' (by rw [UInt64.size]; omega)] at hlen
    · have hfit : UInt32.ofNat (totalSectors l) ≤ 1024 := hfs.fits
      have hsmall : totalSectors l < 2 ^ 32 := hnext
      rw [UInt32.le_iff_toNat_le, UInt32.toNat_ofNat_of_lt' hsmall] at hfit
      exact hfit
  · rintro ⟨hshort, hfit⟩ boot rest hnever hdisk
    exact ⟨_, vfsInit_image h himg hnever hdisk,
      readsImage_volume h himg hshort hfit (fun n => hnever n) hdisk⟩

end ImageBuild

/-! ## The images of `mkfs_vernis.py` -/

open ImageBuild

/-- The files whose contents are constants. -/
def constantSources : List Source :=
  [("/etc/passwd", passwdData, 0x01), ("/bin/hello64", makeElf64Hello, 0x00),
    ("/bin/hello32", makeElf32Hello, 0x00), ("/bin/exit64", makeElf64Exit, 0x00),
    ("/bin/exit32", makeElf32Exit, 0x00)]

/-- The files that are always there. -/
def defaultSources (sha256 : List UInt8 → Vector UInt8 32) : List Source :=
  ("/etc/shadow", shadowData sha256, 0x02) :: constantSources

/-- The files of the options that are put in. -/
def givenSources : List (String × Option (List UInt8)) → List Source
  | [] => []
  | (name, some (x :: data)) :: fs => (name, x :: data, 0x00) :: givenSources fs
  | _ :: fs => givenSources fs

/-- No given file is longer than 255 sectors, and together they take up at most 1018 sectors. -/
def MkfsArgs.Fits (args : MkfsArgs) : Prop :=
  (∀ f ∈ args.optionals, ∀ data, f.2 = some data → data.length ≤ 130560) ∧
    (args.optionals.map fun f => blockSectors (f.2.getD [])).sum ≤ 1018

theorem foldl_addOptional (fs : List (String × Option (List UInt8))) (b : ImageBuild) :
    fs.foldl addOptional b = (givenSources fs).foldl (fun b f => b.add f.1 f.2.1 f.2.2) b := by
  induction fs generalizing b with
  | nil => rfl
  | cons f fs ih =>
    obtain ⟨name, _ | _ | ⟨x, data⟩⟩ := f
    · exact ih b
    · exact ih b
    · exact ih (b.add name (x :: data) 0x00)

theorem mkfsBuild_eq (sha256 : List UInt8 → Vector UInt8 32) (args : MkfsArgs) :
    mkfsBuild sha256 args = ofSources (defaultSources sha256 ++ givenSources args.optionals) := by
  have hdefaults : mkfsBuild sha256 args = args.optionals.foldl addOptional
      ((defaultSources sha256).foldl (fun b f => b.add f.1 f.2.1 f.2.2) .empty) := rfl
  rw [hdefaults, foldl_addOptional, ← List.foldl_append, add_foldl]
  simp [ImageBuild.empty, ofSources]

/-- The names of the files, all of them. -/
def imageNames : List String :=
  ["/etc/shadow", "/etc/passwd", "/bin/hello64", "/bin/hello32", "/bin/exit64", "/bin/exit32",
    "/bin/vsh64", "/bin/vsh32", "/sbin/init32", "/sbin/init64", "/bin/netcat32", "/bin/netcat64",
    "/bin/tcpsrv32", "/bin/tcpsrv64", "/bin/forktest32", "/bin/forktest64", "/sbin/getty32",
    "/sbin/getty64", "/bin/login32", "/bin/login64"]

theorem names_sublist (sha256 : List UInt8 → Vector UInt8 32) (args : MkfsArgs) :
    ((defaultSources sha256 ++ givenSources args.optionals).map Prod.fst).Sublist imageNames := by
  have hgiven : ∀ fs : List (String × Option (List UInt8)),
      ((givenSources fs).map Prod.fst).Sublist (fs.map Prod.fst) := by
    intro fs
    induction fs with
    | nil => exact List.Sublist.slnil
    | cons f fs ih =>
      obtain ⟨name, _ | _ | ⟨x, data⟩⟩ := f
      · exact ih.cons name
      · exact ih.cons name
      · exact ih.cons_cons name
  rw [List.map_append]
  exact (List.Sublist.refl _).append (hgiven args.optionals)

theorem fillable_sources (sha256 : List UInt8 → Vector UInt8 32) (args : MkfsArgs) :
    Fillable (defaultSources sha256 ++ givenSources args.optionals) := by
  have hsub := names_sublist sha256 args
  have hgood : ∀ name ∈ imageNames, 0 ∉ utf8 name ∧ (utf8 name).length < vfsMaxFilename := by
    decide
  have hnodup : (imageNames.map utf8).Nodup := by decide
  constructor
  · intro f hf
    obtain ⟨hnul, hlen⟩ := hgood f.1 (hsub.subset (List.mem_map_of_mem hf))
    exact ⟨hnul, hlen⟩
  · have hmap := (hsub.map utf8).nodup hnodup
    rwa [List.map_map] at hmap
  · have hlen := hsub.length_le
    rw [List.length_map] at hlen
    exact hlen.trans (by decide)

theorem length_makeUserRecord (sha256 : List UInt8 → Vector UInt8 32) (username : String)
    (password : Option String) (privilege flags : UInt8) :
    (makeUserRecord sha256 username password privilege flags).length = 66 := by
  have hname : (ljust ((utf8 username).take vfsMaxFilename) vfsMaxFilename).length = 32 := by
    rw [length_ljust, Nat.max_eq_right (List.length_take_le _ _)]
  unfold makeUserRecord
  cases password <;> simp [hname]

/-- Each default file takes one sector. -/
theorem blockSectors_default (sha256 : List UInt8 → Vector UInt8 32) :
    (∀ f ∈ defaultSources sha256, f.2.1.length ≤ 512) ∧
      totalSectors (defaultSources sha256) = 6 := by
  have hshadow : (shadowData sha256).length = 198 := by
    unfold shadowData
    rw [List.length_append, List.length_append, length_makeUserRecord, length_makeUserRecord,
      length_makeUserRecord]
  have hrest : (∀ f ∈ constantSources, f.2.1.length ≤ 512) ∧ totalSectors constantSources = 5 := by
    decide +kernel
  constructor
  · refine List.forall_mem_cons.mpr ⟨?_, hrest.1⟩
    rw [hshadow]
    decide
  · have hcons : totalSectors (defaultSources sha256) =
        blockSectors (shadowData sha256) + totalSectors constantSources :=
      List.sum_cons
    rw [hcons, hrest.2, blockSectors, hshadow]

/-- The given files, and those that are put in. -/
theorem givenSources_iff (fs : List (String × Option (List UInt8))) :
    (∀ f ∈ givenSources fs, f.2.1.length ≤ 130560) ↔
      ∀ f ∈ fs, ∀ data, f.2 = some data → data.length ≤ 130560 := by
  induction fs with
  | nil => simp [givenSources]
  | cons f fs ih =>
    rw [List.forall_mem_cons, ← ih]
    obtain ⟨name, _ | _ | ⟨x, data⟩⟩ := f
    · simp [givenSources]
    · simp [givenSources]
    · simp [givenSources]

theorem totalSectors_givenSources (fs : List (String × Option (List UInt8))) :
    totalSectors (givenSources fs) = (fs.map fun f => blockSectors (f.2.getD [])).sum := by
  induction fs with
  | nil => rfl
  | cons f fs ih =>
    rw [List.map_cons, List.sum_cons, ← ih]
    obtain ⟨name, _ | _ | ⟨x, data⟩⟩ := f
    · rw [show blockSectors (Option.getD none []) = 0 from rfl, Nat.zero_add]
      rfl
    · rw [show blockSectors (Option.getD (some []) []) = 0 from rfl, Nat.zero_add]
      rfl
    · rfl

/-- An image is read back as it was built exactly if the given files fit. -/
theorem image_round_trip_iff (sha256 : List UInt8 → Vector UInt8 32) (args : MkfsArgs)
    {img : List UInt8} (himg : (mkfsBuild sha256 args).image = some img) :
    ImageReadsBack img (mkfsBuild sha256 args) ↔ args.Fits := by
  obtain ⟨hshort, hdefault⟩ := blockSectors_default sha256
  rw [mkfsBuild_eq] at himg ⊢
  rw [readsBack_iff (fillable_sources sha256 args) himg, totalSectors_append, hdefault,
    List.forall_mem_append, givenSources_iff, totalSectors_givenSources]
  unfold MkfsArgs.Fits
  constructor
  · rintro ⟨⟨-, hgiven⟩, hfit⟩
    exact ⟨hgiven, by omega⟩
  · rintro ⟨hgiven, hfit⟩
    exact ⟨⟨fun f hf => (hshort f hf).trans (by decide), hgiven⟩, by omega⟩

/-- `hashlib.sha256`, as the kernel computes it. -/
def hashlibSha256 (data : List UInt8) : Vector UInt8 32 :=
  ⟨(sha256Hash data).toArray, length_sha256Hash data⟩

/-- The options with a file for `--vsh64` only. -/
def shellOnly (data : List UInt8) : MkfsArgs :=
  ⟨some data, none, none, none, none, none, none, none, none, none, none, none, none, none⟩

theorem mkfsBuild_shellOnly (x : UInt8) (data : List UInt8) :
    mkfsBuild hashlibSha256 (shellOnly (x :: data)) =
      ofSources (defaultSources hashlibSha256 ++ [("/bin/vsh64", x :: data, 0x00)]) :=
  mkfsBuild_eq hashlibSha256 (shellOnly (x :: data))

/-- With one file that is not too long there is an image. -/
theorem exists_image_shellOnly (x : UInt8) (data : List UInt8) (h : data.length < 2 ^ 31) :
    ∃ img, (mkfsBuild hashlibSha256 (shellOnly (x :: data))).image = some img := by
  obtain ⟨hshort, hdefault⟩ := blockSectors_default hashlibSha256
  have hlen : (x :: data).length ≤ 2 ^ 31 := h
  rw [mkfsBuild_shellOnly]
  refine exists_image (by simp [defaultSources, constantSources]) ?_ ?_
  · rw [totalSectors_append, hdefault, totalSectors]
    simp only [List.map_cons, List.map_nil, List.sum_cons, List.sum_nil, blockSectors]
    omega
  · refine List.forall_mem_append.mpr ⟨fun f hf => (hshort f hf).trans_lt (by decide), ?_⟩
    exact List.forall_mem_singleton.mpr (hlen.trans_lt (by decide))

/-- A shell of three bytes is read back. -/
theorem image_round_trip_shellOnly : ∃ img,
    (mkfsBuild hashlibSha256 (shellOnly [1, 2, 3])).image = some img ∧
      ImageReadsBack img (mkfsBuild hashlibSha256 (shellOnly [1, 2, 3])) := by
  obtain ⟨img, himg⟩ := exists_image_shellOnly 1 [2, 3] (by decide)
  refine ⟨img, himg, (image_round_trip_iff hashlibSha256 _ himg).mpr ⟨?_, by decide⟩⟩
  simp [MkfsArgs.optionals, shellOnly]

/-- Of a shell of 130561 bytes the last one is not read. -/
theorem not_image_round_trip : ∃ img,
    (mkfsBuild hashlibSha256 (shellOnly (List.replicate 130561 7))).image = some img ∧
      ¬ ImageReadsBack img (mkfsBuild hashlibSha256 (shellOnly (List.replicate 130561 7))) := by
  obtain ⟨img, himg⟩ := exists_image_shellOnly 7 (List.replicate 130560 7)
    (by rw [List.length_replicate]; decide)
  refine ⟨img, himg, fun hreads => ?_⟩
  have hfill := fillable_sources hashlibSha256 (shellOnly (7 :: List.replicate 130560 7))
  change (mkfsBuild hashlibSha256 (shellOnly (7 :: List.replicate 130560 7))).image = _ at himg
  change ImageReadsBack img (mkfsBuild hashlibSha256 (shellOnly (7 :: List.replicate 130560 7)))
    at hreads
  rw [mkfsBuild_shellOnly] at himg hreads
  have hshort := ((readsBack_iff hfill himg).mp hreads).1 ("/bin/vsh64", _, 0x00)
    (List.mem_append_right _ List.mem_cons_self)
  rw [List.length_cons, List.length_replicate] at hshort
  omega

end VernisOS
