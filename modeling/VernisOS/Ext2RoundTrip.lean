import Mathlib.Data.List.TakeWhile
import VernisOS.Ext2
import VernisOS.Ext2Layout

/-!
# Reading an image back

What the driver finds on a disk that has the image of a clean list : the inode of every node
(`inodeLoad_volume`), the entries of every directory (`dirFind_volume`), the place a path leads
to (`resolve_volume`), and so every file with its bytes and every directory with its members.
-/

open Bytes

namespace VernisOS

/-- The disk has the image from the sector `base` on. -/
def ImageAt (disk : UInt32 → Option Sector) (base : UInt32) (img : Buffer) : Prop :=
  ∀ s, 512 * (s + 1) ≤ img.size →
    disk (base + UInt32.ofNat s) = some fun k : Fin 512 => img.byte (512 * s + k.val)

/-- A driver that has mounted an image at `base`. -/
structure Mounted (base : UInt32) (e : Ext2) : Prop where
  mounted : e.mounted = true
  baseLba : e.baseLba = base
  blockSize : e.blockSize = 1024
  sectorsPerBlock : e.sectorsPerBlock = 2
  inodesPerGroup : e.inodesPerGroup = 64
  inodeSize : e.inodeSize = 128
  gdBlock : e.gdBlock = 2

section

variable {disk : UInt32 → Option Sector} {base : UInt32} {img : Buffer}

/-! ## Blocks -/

theorem cacheRead_image (h : ImageAt disk base img) {s count : ℕ}
    (hin : 512 * (s + count) ≤ img.size) (buf : ℕ → UInt8) :
    (cacheRead disk (base + UInt32.ofNat s) count buf).1 = true ∧
      ∀ k < count * 512, (cacheRead disk (base + UInt32.ofNat s) count buf).2 k =
        img.byte (512 * s + k) := by
  have hsector : ∀ j < count, disk (base + UInt32.ofNat s + UInt32.ofNat j) =
      some fun k : Fin 512 => img.byte (512 * (s + j) + k.val) := by
    intro j hj
    rw [UInt32.add_assoc, ← UInt32.ofNat_add]
    exact h (s + j) (by omega)
  have hreadable : ∀ n ≤ count, (List.range n).all (fun j =>
      (disk (base + UInt32.ofNat s + UInt32.ofNat j)).isSome) = true := by
    intro n hn
    rw [List.all_eq_true]
    intro j hj
    rw [hsector j (by rw [List.mem_range] at hj; omega)]
    rfl
  refine ⟨hreadable count le_rfl, fun k hk => ?_⟩
  have hlt : k / 512 < count := by omega
  simp only [cacheRead]
  rw [if_pos ⟨hk, hreadable _ hlt⟩, hsector _ hlt, Option.elim_some]
  exact congrArg img.byte (show 512 * (s + k / 512) + k % 512 = 512 * s + k by omega)

/-- A buffer with a block of the image in it. -/
def BlockOf (img : Buffer) (block : ℕ) (buf : ℕ → UInt8) : Prop :=
  ∀ k < 1024, buf k = img.byte (block * 1024 + k)

theorem BlockOf.leAt16 {block : ℕ} {buf : ℕ → UInt8} (h : BlockOf img block buf) {o : ℕ}
    (ho : o + 2 ≤ 1024) : leAt16 buf o = leAt16 img.byte (block * 1024 + o) :=
  leAt16_eq fun k hk => (h _ (by omega)).trans (by rw [Nat.add_assoc])

theorem BlockOf.leAt32 {block : ℕ} {buf : ℕ → UInt8} (h : BlockOf img block buf) {o : ℕ}
    (ho : o + 4 ≤ 1024) : leAt32 buf o = leAt32 img.byte (block * 1024 + o) :=
  leAt32_eq fun k hk => (h _ (by omega)).trans (by rw [Nat.add_assoc])

/-- `read_block` of a block of the image. -/
theorem readBlock_image {e : Ext2} (he : Mounted base e) (h : ImageAt disk base img) {block : ℕ}
    (hin : 1024 * (block + 1) ≤ img.size) (buf : ℕ → UInt8) :
    (e.readBlock disk (UInt32.ofNat block) buf).1 = true ∧
      BlockOf img block (e.readBlock disk (UInt32.ofNat block) buf).2 := by
  have hlba : e.baseLba + UInt32.ofNat block * e.sectorsPerBlock =
      base + UInt32.ofNat (block * 2) := by
    rw [he.baseLba, he.sectorsPerBlock, UInt32.ofNat_mul]
    rfl
  have hcount : e.sectorsPerBlock.toUInt8.toNat = 2 := by
    rw [he.sectorsPerBlock]
    rfl
  have hsectors : 512 * (block * 2 + 2) ≤ img.size := by omega
  unfold Ext2.readBlock
  rw [hlba, hcount]
  obtain ⟨hok, hbytes⟩ := cacheRead_image h hsectors buf
  refine ⟨hok, fun k hk => ?_⟩
  rw [hbytes k (by omega)]
  congr 1
  omega

/-- `ext2_mount` of an image. -/
theorem mount_volume {t : Ext2Path → Option Ext2Node} {ino : Ext2Path → ℕ}
    {dirs : ℕ → Option (List (List UInt8 × ℕ))} {next : ℕ} (hv : Ext2Volume t ino dirs next img)
    (h : ImageAt disk base img) (e : Ext2) :
    (e.ext2Mount disk base).1 = 0 ∧ Mounted base (e.ext2Mount disk base).2 := by
  have hsize := hv.size
  have hlow := hv.low
  have hin : 512 * (2 + 2) ≤ img.size := by omega
  obtain ⟨hok, hbytes⟩ := cacheRead_image h hin fun _ => 0
  unfold Ext2.ext2Mount
  change (cacheRead disk (base + 2) 2 fun _ => 0).1 = true at hok
  have hblock : BlockOf img 1 (cacheRead disk (base + 2) 2 fun _ => 0).2 := hbytes
  generalize cacheRead disk (base + 2) 2 (fun _ => 0) = r at hok hblock
  have hmagic : leAt16 r.2 56 = 0xEF53 := (hblock.leAt16 (by decide)).trans hv.magic
  have hlog : leAt32 r.2 24 = 0 := (hblock.leAt32 (by decide)).trans hv.logBs
  have hgroup : leAt32 r.2 40 = 64 := (hblock.leAt32 (by decide)).trans hv.inodesPerGroup
  have hfirst : leAt32 r.2 20 = 1 := (hblock.leAt32 (by decide)).trans hv.firstDataBlock
  have hrev : leAt32 r.2 76 = 0 := (hblock.leAt32 (by decide)).trans hv.rev
  simp only [hok, hmagic, hlog, hgroup, hfirst, hrev]
  exact ⟨rfl, ⟨rfl, rfl, rfl, rfl, rfl, rfl, rfl⟩⟩

/-! ## Inodes -/

/-- The places of the inodes in the group and in the table, as `inode_load` computes them. -/
theorem inode_place : ∀ i < 64, UInt32.ofNat (i + 1) ≠ 0 ∧
    (UInt32.ofNat (i + 1) - 1) / 64 = 0 ∧
    5 + (UInt32.ofNat (i + 1) - 1) % 64 * 128 / 1024 = UInt32.ofNat (5 + i * 128 / 1024) ∧
    ((UInt32.ofNat (i + 1) - 1) % 64 * 128 % 1024).toNat = i * 128 % 1024 := by
  decide

theorem inodeHead_fields {buf : ℕ → UInt8} {o links : ℕ} {inode : Ext2Inode}
    (h : Holds buf o (Ext2Builder.inodeHead inode links)) :
    leAt16 buf o = inode.mode ∧ leAt32 buf (o + 4) = UInt32.ofNat inode.size := by
  unfold Ext2Builder.inodeHead at h
  simp only [holds_append, List.length_append, length_le32, length_le16, Nat.reduceAdd,
    and_assoc] at h
  exact ⟨h.1.le16, h.2.2.1.le32⟩

variable {t : Ext2Path → Option Ext2Node} {ino : Ext2Path → ℕ}
  {dirs : ℕ → Option (List (List UInt8 × ℕ))} {next : ℕ} {e : Ext2} {c : Ext2Path}

/-- `inode_load` of an inode in the table. -/
theorem inodeLoad_image (hsize : 13312 ≤ img.size) (htable : leAt32 img.byte 2056 = 5)
    (h : ImageAt disk base img) (he : Mounted base e) {i : ℕ} (hi : 1 ≤ i) (hi' : i ≤ 64)
    {inode : Ext2Inode} (hat : InodeAt img i inode) (hlen : inode.blocks.length ≤ 12) :
    ∃ m, e.inodeLoad disk (UInt32.ofNat i) = some m ∧ m.mode = inode.mode ∧
      m.size = UInt32.ofNat inode.size ∧
      ∀ {j block}, inode.blocks[j]? = some block → m.blocks j = UInt32.ofNat block := by
  obtain ⟨i, rfl⟩ := Nat.exists_eq_add_of_le' hi
  obtain ⟨hne, hgroup, hblock, hoff⟩ := inode_place i (by omega)
  have hgd : 1024 * (2 + 1) ≤ img.size := by omega
  have hin : 1024 * (5 + i * 128 / 1024 + 1) ≤ img.size := by omega
  have hplace : (5 + i * 128 / 1024) * 1024 + i * 128 % 1024 = inodeOffset (i + 1) := by
    unfold inodeOffset
    omega
  obtain ⟨hok, hbuf⟩ := readBlock_image he h hgd (e.behind .inodeLoad)
  unfold Ext2.inodeLoad
  rw [if_neg hne]
  simp only [he.inodesPerGroup, he.blockSize, he.inodeSize, he.gdBlock, hgroup]
  have hzero : (2 : UInt32) + 0 / (1024 / 32) = UInt32.ofNat 2 := rfl
  have height : ((0 : UInt32) % (1024 / 32) * 32 + 8).toNat = 8 := rfl
  rw [hzero, height]
  generalize e.readBlock disk (UInt32.ofNat 2) (e.behind .inodeLoad) = r at hok hbuf
  have hitable : leAt32 r.2 8 = 5 := (hbuf.leAt32 (by decide)).trans htable
  obtain ⟨hok', hbuf'⟩ := readBlock_image he h hin r.2
  rw [hitable, hblock, hoff]
  generalize e.readBlock disk (UInt32.ofNat (5 + i * 128 / 1024)) r.2 = r' at hok' hbuf'
  rw [if_neg (by rw [hok]; decide), if_neg (by rw [hok']; decide)]
  obtain ⟨links, hhead⟩ := hat.head
  obtain ⟨hmode, hisize⟩ := inodeHead_fields hhead
  refine ⟨_, rfl, ?_, ?_, ?_⟩
  · rw [← hmode, ← hplace]
    exact hbuf'.leAt16 (by omega)
  · rw [← hisize, ← hplace, Nat.add_assoc]
    exact hbuf'.leAt32 (by omega)
  · intro j block hj
    have hlt : j < inode.blocks.length := by
      rw [List.getElem?_eq_some_iff] at hj
      exact hj.1
    rw [← (hat.block hj).le32, ← hplace, Nat.add_assoc, Nat.add_assoc]
    refine (hbuf'.leAt32 ?_).trans ?_
    · omega
    · rw [Nat.add_assoc]

/-! ## Directories -/

theorem Records.congr {blk blk' : ℕ → UInt8} (hblk : ∀ k < 1024, blk' k = blk k)
    {off : ℕ} {entries : List (List UInt8 × ℕ)} (h : Records blk off entries) :
    Records blk' off entries := by
  induction entries generalizing off with
  | nil => exact h
  | cons x rest ih =>
    obtain ⟨name, target⟩ := x
    obtain ⟨recLen, hname, hfit, hhead, hholds, hrest⟩ := h
    have hlen := Ext2Builder.length_entryHead target recLen name.length
    refine ⟨recLen, hname, hfit, hhead.congr ?_, hholds.congr ?_, ih hrest⟩
    · intro k _ hk
      exact hblk k (by omega)
    · intro k _ hk
      exact hblk k (by omega)

/-- A name and an inode that a record can hold. -/
def ValidEntry (x : List UInt8 × ℕ) : Prop :=
  x.1 ≠ [] ∧ x.1.length ≤ 255 ∧ 1 ≤ x.2 ∧ x.2 ≤ 64

/-- The fields of the first record. -/
theorem record_fields {blk : ℕ → UInt8} {off target recLen nameLen : ℕ}
    (h : Holds blk off (Ext2Builder.entryHead target recLen nameLen)) (hrec : recLen ≤ 1024)
    (hname : nameLen ≤ 255) :
    leAt32 blk off = UInt32.ofNat target ∧ (leAt16 blk (off + 4)).toNat = recLen ∧
      (blk (off + 6)).toNat = nameLen := by
  unfold Ext2Builder.entryHead at h
  simp only [holds_append, List.length_append, length_le32, length_le16, Nat.reduceAdd,
    and_assoc] at h
  obtain ⟨htarget, hlen, hnlen⟩ := h
  refine ⟨htarget.le32, ?_, ?_⟩
  · rw [hlen.le16]
    exact UInt16.toNat_ofNat_of_lt' (by change recLen < 65536; omega)
  · have hbyte : blk (off + 6) = (UInt16.ofNat nameLen).toUInt8 := hnlen 0 Nat.two_pos
    rw [hbyte, UInt16.toNat_toUInt8, UInt16.toNat_ofNat_of_lt' (by change nameLen < 65536; omega)]
    omega

/-- The scan of `dir_find` over the records of a block ends at the first with the name. -/
theorem dirScan_records {blk : ℕ → UInt8} {name : List UInt8}
    {entries : List (List UInt8 × ℕ)} (hvalid : ∀ x ∈ entries, ValidEntry x) {turns off : ℕ}
    (h : Records blk off entries) (hturns : 1024 < off + turns * 8) :
    Ext2.dirScan blk 1024 name turns off =
      (entries.find? fun x => x.1 == name).map fun x => UInt32.ofNat x.2 := by
  induction entries generalizing off turns with
  | nil =>
    cases turns with
    | zero => rfl
    | succ turns =>
      rw [Ext2.dirScan, show off = 1024 from h, if_pos (by decide)]
      rfl
  | cons x rest ih =>
    obtain ⟨n, target⟩ := x
    obtain ⟨recLen, hname, hfit, hhead, hholds, hrest⟩ := h
    obtain ⟨-, hlen, hlow, hhigh⟩ := hvalid _ List.mem_cons_self
    obtain ⟨hino, hrec, hnlen⟩ := record_fields hhead (by omega) hlen
    cases turns with
    | zero => omega
    | succ turns =>
      have hnot : ¬ leAt16 blk (off + 4) < 8 := by
        rw [UInt16.lt_iff_toNat_lt, hrec]
        change ¬ recLen < 8
        omega
      have hne : UInt32.ofNat target ≠ 0 := ofNat_ne_zero hlow (by omega)
      rw [Ext2.dirScan, if_neg (by omega), if_neg hnot, hino, hnlen, hrec, List.find?_cons]
      by_cases hn : n = name
      · subst hn
        rw [if_pos ⟨hne, rfl, hholds.map_range⟩]
        simp
      · rw [if_neg, ih (fun x hx => hvalid x (List.mem_cons_of_mem _ hx)) hrest (by omega)]
        · rw [show (n == name) = false by simpa using hn]
        · rintro ⟨-, hl, hbytes⟩
          refine hn ?_
          rw [← hbytes, ← hl]
          exact hholds.map_range.symm

/-- `inode_load` of a node. -/
theorem inodeLoad_volume (hv : Ext2Volume t ino dirs next img) (h : ImageAt disk base img)
    (he : Mounted base e) {k : Ext2Node} (hc : t c = some k) :
    ∃ m inode bodies, e.inodeLoad disk (UInt32.ofNat (ino c)) = some m ∧ m.mode = inode.mode ∧
      m.size = UInt32.ofNat inode.size ∧ inode.size < 4294967296 ∧
      inode.blocks.length ≤ 12 ∧ Stored img next inode.blocks bodies ∧
      Shows (FilledDir dirs ino) c k inode bodies ∧
      ∀ {j block}, inode.blocks[j]? = some block → m.blocks j = UInt32.ofNat block := by
  have hsize := hv.size
  have hlow := hv.low
  have hrange := hv.range (c := c) (by rw [hc]; simp)
  obtain ⟨inode, bodies, hat, hlen, hs, hshows⟩ := hv.node hc
  obtain ⟨m, hload, hmode, hmsize, hblocks⟩ := inodeLoad_image (by omega) hv.itable h he
    (by omega) hrange.2 hat hlen
  exact ⟨m, inode, bodies, hload, hmode, hmsize, hat.size_lt, hlen, hs, hshows, hblocks⟩

/-- A data block of the image, as the driver reads it. -/
theorem readBlock_stored (hv : Ext2Volume t ino dirs next img) (h : ImageAt disk base img)
    (he : Mounted base e) {block : ℕ} {body : List UInt8} (hlow : 13 ≤ block)
    (hnext : block < next) (hbody : body.length ≤ 1024)
    (hholds : Holds img.byte (block * 1024) body) (buf : ℕ → UInt8) :
    UInt32.ofNat block ≠ 0 ∧ (e.readBlock disk (UInt32.ofNat block) buf).1 = true ∧
      Holds (e.readBlock disk (UInt32.ofNat block) buf).2 0 body := by
  have hsize := hv.size
  have hhigh := hv.high
  have hin : 1024 * (block + 1) ≤ img.size := by omega
  obtain ⟨hok, hblk⟩ := readBlock_image he h hin buf
  refine ⟨?_, hok, fun k hk => ?_⟩
  · exact ofNat_ne_zero (by omega) (by omega)
  · rw [Nat.zero_add, hblk k (by omega), hholds k hk]

theorem isDir_directoryMode : ext2IsDir ext2DirectoryMode = true := by decide

theorem isDir_regularMode : ext2IsDir ext2RegularMode = false := by decide

/-- What the driver finds for a directory : its inode, and a block with its records. -/
theorem directory_volume (hv : Ext2Volume t ino dirs next img) (h : ImageAt disk base img)
    (he : Mounted base e) (hc : t c = some .dir) :
    ∃ m names, e.inodeLoad disk (UInt32.ofNat (ino c)) = some m ∧ m.mode = ext2DirectoryMode ∧
      m.size = 1024 ∧ m.blocks 0 ≠ 0 ∧ names.Nodup ∧
      (∀ name, name ∈ names ↔ t (c ++ [name]) ≠ none) ∧
      ∀ buf, (e.readBlock disk (m.blocks 0) buf).1 = true ∧
        Records (e.readBlock disk (m.blocks 0) buf).2 0 (entriesOf ino c names) := by
  obtain ⟨m, inode, bodies, hload, hmode, hsize, -, -, hs, ⟨hdmode, hdsize, buf, entries,
    hentries, rfl, hbuf, hrecs⟩, hblocks⟩ := inodeLoad_volume hv h he hc
  obtain ⟨names, hnodup, hmem, hget⟩ := hv.linked.dir hc
  rw [hget] at hentries
  cases hentries
  obtain ⟨block, hone, hlow, hnext, hbody, hholds⟩ := hs.singleton
  have hblock : m.blocks 0 = UInt32.ofNat block := hblocks (by rw [hone]; rfl)
  have hread := readBlock_stored hv h he hlow hnext hbody hholds
  refine ⟨m, names, hload, hmode.trans hdmode, ?_, ?_, hnodup, hmem, fun old => ?_⟩
  · rw [hsize, hdsize]
    rfl
  · rw [hblock]
    exact (hread fun _ => 0).1
  · rw [hblock]
    obtain ⟨-, hok, hbytes⟩ := hread old
    refine ⟨hok, hrecs.congr fun k hk => ?_⟩
    have hk' : k < buf.size := by omega
    have hbyte := hbytes k (by rw [length_bytesOf]; exact hk')
    rwa [Nat.zero_add, getD_bytesOf buf hk'] at hbyte

theorem validEntry_entriesOf (hv : Ext2Volume t ino dirs next img) (hc : t c = some .dir)
    {names : List (List UInt8)} (hnames : ∀ name, name ∈ names ↔ t (c ++ [name]) ≠ none) :
    ∀ x ∈ entriesOf ino c names, ValidEntry x := by
  rintro ⟨name, i⟩ hx
  obtain ⟨hsome, rfl⟩ := (hv.linked.mem_entriesOf hc hnames).mp hx
  have hrange := hv.range hsome
  unfold stepInto at hsome
  refine ⟨?_, ?_, by omega, hrange.2⟩ <;> dsimp only
  · rintro rfl
    rw [if_neg (by decide), if_neg (by decide)] at hsome
    exact (hv.linked.parent hsome).2.2.2.1 rfl
  · by_cases hdot : name = nameDot
    · rw [hdot]
      decide
    · by_cases hdotdot : name = nameDotdot
      · rw [hdotdot]
        decide
      · rw [if_neg hdot, if_neg hdotdot] at hsome
        exact (hv.linked.parent hsome).2.2.2.2

/-- `dir_find` of a name that leads somewhere. -/
theorem dirFind_volume (hv : Ext2Volume t ino dirs next img) (h : ImageAt disk base img)
    (he : Mounted base e) (hc : t c = some .dir) {name : List UInt8}
    (hname : t (stepInto c name) ≠ none) :
    e.dirFind disk (UInt32.ofNat (ino c)) name = (UInt32.ofNat (ino (stepInto c name)), e) := by
  obtain ⟨m, names, hload, hmode, hsize, hne, -, hmem, hread⟩ := directory_volume hv h he hc
  obtain ⟨hok, hrecs⟩ := hread (e.behind .dirFind)
  have hvalid := validEntry_entriesOf hv hc hmem
  have hfind : (entriesOf ino c names).find? (fun x => x.1 == name) =
      some (name, ino (stepInto c name)) := by
    cases hf : (entriesOf ino c names).find? fun x => x.1 == name with
    | none =>
      have hin := (hv.linked.mem_entriesOf hc hmem).mpr ⟨hname, rfl⟩
      have := List.find?_eq_none.mp hf _ hin
      simp at this
    | some x =>
      obtain ⟨n, i⟩ := x
      have hn : n = name := by simpa using List.find?_some hf
      subst hn
      rw [((hv.linked.mem_entriesOf hc hmem).mp (List.mem_of_find?_eq_some hf)).2]
  have hbs : e.blockSize.toNat = 1024 := by
    rw [he.blockSize]
    rfl
  have hscan : Ext2.dirScan (e.readBlock disk (m.blocks 0) (e.behind .dirFind)).2 1024 name
      (1024 / 8 + 1) 0 = some (UInt32.ofNat (ino (stepInto c name))) := by
    rw [dirScan_records hvalid hrecs (by decide), hfind]
    rfl
  unfold Ext2.dirFind
  rw [hload]
  dsimp only
  rw [hmode, if_pos isDir_directoryMode, Ext2.blockTurns, Ext2.dirFindFrom, hsize, hbs,
    if_neg (by decide)]
  have hnth : e.inodeNthBlock disk m.blocks 0 = (m.blocks 0, e) := rfl
  rw [hnth]
  dsimp only
  rw [if_neg (by rw [hok]; simp [hne]), hscan]

/-! ## Paths -/

theorem components_append_slash {name : List UInt8} (h : 47 ∉ name) (path : List UInt8) :
    components (name ++ 47 :: path) = [name].filter (· ≠ []) ++ components path := by
  rw [components, List.splitOn_append_cons_self_of_not_mem h, ← List.singleton_append,
    List.filter_append, components]

theorem components_cons_slash (path : List UInt8) : components (47 :: path) = components path :=
  components_append_slash List.not_mem_nil path

theorem components_dropWhile_slash (path : List UInt8) :
    components (path.dropWhile (· = 47)) = components path := by
  induction path with
  | nil => rfl
  | cons a path ih =>
    by_cases ha : a = 47
    · subst ha
      rw [List.dropWhile_cons_of_pos (by simp), ih, components_cons_slash]
    · rw [List.dropWhile_cons_of_neg (by simpa using ha)]

/-- The first part of a path, as `resolve` finds it. -/
theorem components_takeWhile (path : List UInt8) :
    components path = [path.takeWhile (· ≠ 47)].filter (· ≠ []) ++
      components ((path.dropWhile (· ≠ 47)).dropWhile (· = 47)) := by
  have hnot : 47 ∉ path.takeWhile (· ≠ 47) := by
    intro hin
    simpa using List.mem_takeWhile_imp hin
  have hpath : path = path.takeWhile (· ≠ 47) ++ path.dropWhile (· ≠ 47) :=
    List.takeWhile_append_dropWhile.symm
  rw [components_dropWhile_slash]
  generalize path.takeWhile (· ≠ 47) = name at hnot hpath ⊢
  cases htail : path.dropWhile (· ≠ 47) with
  | nil =>
    rw [htail, List.append_nil] at hpath
    rw [hpath, components, List.splitOn_eq_singleton hnot]
    exact (List.append_nil _).symm
  | cons a tail =>
    have ha : a = 47 := by
      have hhead := List.head?_dropWhile_not (fun x : UInt8 => decide (x ≠ 47)) path
      rw [htail] at hhead
      simpa using hhead
    rw [htail, ha] at hpath
    rw [ha, hpath, components_append_slash hnot, components_cons_slash]

theorem length_rest_lt {path : List UInt8} (h : path ≠ []) :
    ((path.dropWhile (· ≠ 47)).dropWhile (· = 47)).length < path.length := by
  have hle : ∀ (p : UInt8 → Bool) (l : List UInt8), (l.dropWhile p).length ≤ l.length :=
    fun p l => (List.dropWhile_suffix p).length_le
  cases path with
  | nil => exact absurd rfl h
  | cons a path =>
    by_cases ha : a = 47
    · subst ha
      rw [List.dropWhile_cons_of_neg (by simp), List.dropWhile_cons_of_pos (by simp)]
      exact Nat.lt_succ_of_le (hle _ _)
    · rw [List.dropWhile_cons_of_pos (by simpa using ha)]
      exact Nat.lt_succ_of_le ((hle _ _).trans (hle _ _))

/-- `resolve` along a path through the directories of the tree. -/
theorem resolveFrom_volume (hv : Ext2Volume t ino dirs next img) (h : ImageAt disk base img)
    (he : Mounted base e) {turns : ℕ} {path : List UInt8} (hturns : path.length ≤ turns)
    (hlen : ∀ name ∈ components path, name.length ≤ 255)
    (hdir : ∀ q, q <+: components path → q ≠ components path →
      t (q.foldl stepInto c) = some .dir)
    (hend : t ((components path).foldl stepInto c) ≠ none) :
    Ext2.resolveFrom disk turns (UInt32.ofNat (ino c)) path e =
      (UInt32.ofNat (ino ((components path).foldl stepInto c)), e) := by
  induction turns generalizing path c with
  | zero =>
    rw [List.length_eq_zero_iff.mp (Nat.le_zero.mp hturns)]
    rfl
  | succ turns ih =>
    unfold Ext2.resolveFrom
    by_cases hnil : path = []
    · rw [if_pos hnil, hnil]
      rfl
    rw [if_neg hnil]
    have hless := length_rest_lt hnil
    have hparts := components_takeWhile path
    generalize (path.dropWhile (· ≠ 47)).dropWhile (· = 47) = rest at hless hparts ⊢
    generalize path.takeWhile (· ≠ 47) = name at hparts ⊢
    dsimp only
    by_cases hname : name = []
    · rw [if_pos hname]
      have hsame : components path = components rest := by
        rw [hparts, hname]
        rfl
      rw [hsame] at hlen hdir hend ⊢
      exact ih (by omega) hlen hdir hend
    · have hcons : components path = name :: components rest := by
        rw [hparts, List.filter_cons_of_pos (by simpa using hname)]
        rfl
      rw [hcons] at hlen hdir hend ⊢
      have hc : t c = some .dir := hdir [] List.nil_prefix (by simp)
      have hstep : t (stepInto c name) ≠ none := by
        by_cases hrest : components rest = []
        · rw [hrest] at hend
          exact hend
        · have := hdir [name] (by simp) (by simpa using Ne.symm hrest)
          rw [List.foldl_cons, List.foldl_nil] at this
          rw [this]
          simp
      have hrange := hv.range hstep
      have hne : UInt32.ofNat (ino (stepInto c name)) ≠ 0 := ofNat_ne_zero (by omega) (by omega)
      have hshort : ¬ 255 < name.length := by
        have := hlen name List.mem_cons_self
        omega
      rw [if_neg hname, if_neg hshort, dirFind_volume hv h he hc hstep]
      dsimp only
      rw [if_neg hne]
      refine ih (by omega) (fun n hn => hlen n (List.mem_cons_of_mem _ hn)) ?_ hend
      intro q hq hqne
      exact hdir (name :: q) ((List.prefix_cons_inj name).mpr hq) (by simpa using hqne)

/-- An absolute path that goes through directories of the tree to `c`. -/
structure LeadsTo (t : Ext2Path → Option Ext2Node) (path : List UInt8) (c : Ext2Path) : Prop where
  absolute : path.head? = some 47
  length_le : ∀ name ∈ components path, name.length ≤ 255
  dir : ∀ q, q <+: components path → q ≠ components path → t (canonical q) = some .dir
  place : canonical (components path) = c

/-- `resolve` of a path in the tree. -/
theorem resolve_volume (hv : Ext2Volume t ino dirs next img) (h : ImageAt disk base img)
    (he : Mounted base e) {path : List UInt8} (hpath : LeadsTo t path c) (hc : t c ≠ none) :
    e.resolve disk path = (UInt32.ofNat (ino c), e) ∧ UInt32.ofNat (ino c) ≠ 0 := by
  obtain ⟨habs, hlen, hdir, rfl⟩ := hpath
  have hrange := hv.range hc
  refine ⟨?_, ofNat_ne_zero (by omega) (by omega)⟩
  obtain ⟨rest, rfl⟩ := List.head?_eq_some_iff.mp habs
  rw [components_cons_slash] at hlen hdir hc ⊢
  unfold Ext2.resolve
  rw [if_neg (by rw [he.mounted]; simp)]
  have hturns : rest.length ≤ (47 :: rest).length := by simp
  have hwalk := resolveFrom_volume hv h he (c := []) hturns hlen hdir hc
  rw [hv.root] at hwalk
  exact hwalk

/-! ## Files -/

theorem getElem?_chunks {data : List UInt8} {n : ℕ} (h : n * 1024 < data.length) :
    (chunks data)[n]? = some (Ext2Builder.chunk data n) := by
  have hlt : n < (data.length + 1023) / 1024 := by omega
  simp [chunks, hlt]

theorem length_chunks (data : List UInt8) : (chunks data).length = (data.length + 1023) / 1024 := by
  simp [chunks]

/-- The loop of `ext2_read` from the `n`-th block on. -/
theorem readFrom_volume (hv : Ext2Volume t ino dirs next img) (h : ImageAt disk base img)
    (he : Mounted base e) {m : Ext2Meta} {blocks : List ℕ} {data : List UInt8}
    (hs : Stored img next blocks (chunks data)) (hlen : blocks.length ≤ 12)
    (hblocks : ∀ {j block}, blocks[j]? = some block → m.blocks j = UInt32.ofNat block)
    {turns n : ℕ} (hturns : blocks.length < n + turns) (hn : n ≤ blocks.length) :
    Ext2.readFrom disk m data.length turns n (data.take (n * 1024)) e = (some data, e) := by
  have hcount : blocks.length = (data.length + 1023) / 1024 := by
    rw [List.Forall₂.length_eq hs, length_chunks]
  induction turns generalizing n with
  | zero => omega
  | succ turns ih =>
    unfold Ext2.readFrom
    rw [List.length_take]
    by_cases hdone : data.length ≤ min (n * 1024) data.length
    · rw [if_pos hdone, List.take_of_length_le (by omega)]
    have hmore : n * 1024 < data.length := by omega
    have hlt : n < blocks.length := by omega
    obtain ⟨hlow, hnext, hbody, hholds⟩ := hs.get (List.getElem?_eq_getElem hlt)
      (getElem?_chunks hmore)
    have hnth : e.inodeNthBlock disk m.blocks n = (UInt32.ofNat blocks[n], e) := by
      rw [Ext2.inodeNthBlock, if_pos (by omega), hblocks (List.getElem?_eq_getElem hlt)]
    obtain ⟨hne, hok, hbytes⟩ := readBlock_stored hv h he hlow hnext hbody hholds (e.behind .read)
    have hbs : e.blockSize.toNat = 1024 := by
      rw [he.blockSize]
      rfl
    rw [if_neg hdone, hnth]
    dsimp only
    generalize e.readBlock disk (UInt32.ofNat blocks[n]) (e.behind .read) = r at hok hbytes ⊢
    have hchunk : (List.range (min (data.length - min (n * 1024) data.length) 1024)).map r.2 =
        Ext2Builder.chunk data n := by
      have hmap := hbytes.map_range
      have hl : (Ext2Builder.chunk data n).length =
          min (data.length - min (n * 1024) data.length) 1024 := by
        simp only [Ext2Builder.chunk, List.length_take, List.length_drop]
        omega
      rw [hl] at hmap
      simpa using hmap
    rw [if_neg (by rw [hok]; simp [hne]), hbs, hchunk, Ext2Builder.chunk, ← List.take_add,
      ← Nat.succ_mul]
    exact ih (by omega) (by omega)

/-- `ext2_read` of a file. -/
theorem read_volume (hv : Ext2Volume t ino dirs next img) (h : ImageAt disk base img)
    (he : Mounted base e) {path data : List UInt8} (hpath : LeadsTo t path c)
    (hc : t c = some (.file data)) {maxLen : UInt32} (hmax : data.length ≤ maxLen.toNat) :
    e.ext2Read disk path maxLen = (some data, e) := by
  obtain ⟨hresolve, hne⟩ := resolve_volume hv h he hpath (by rw [hc]; simp)
  obtain ⟨m, inode, bodies, hload, hmode, hsize, hsmall, hlen, hs, ⟨hreg, hdata, rfl⟩, hblocks⟩ :=
    inodeLoad_volume hv h he hc
  have htoNat : m.size.toNat = data.length := by
    rw [hsize, UInt32.toNat_ofNat_of_lt' hsmall, hdata]
  have hwant : (if m.size < maxLen then m.size else maxLen).toNat = data.length := by
    split
    · exact htoNat
    · next hnot =>
      rw [UInt32.lt_iff_toNat_lt] at hnot
      omega
  unfold Ext2.ext2Read
  rw [hresolve]
  dsimp only
  rw [if_neg hne, hload]
  dsimp only
  rw [hmode, hreg, if_pos (by decide), hwant]
  have hturns : inode.blocks.length < 0 + e.blockTurns := by
    unfold Ext2.blockTurns
    omega
  exact readFrom_volume hv h he hs hlen hblocks hturns (Nat.zero_le _)

/-- `ext2_stat` of a file. -/
theorem stat_volume (hv : Ext2Volume t ino dirs next img) (h : ImageAt disk base img)
    (he : Mounted base e) {path data : List UInt8} (hpath : LeadsTo t path c)
    (hc : t c = some (.file data)) :
    ∃ size : UInt32, size.toNat = data.length ∧
      e.ext2Stat disk path = (some (size, false), e) := by
  obtain ⟨hresolve, hne⟩ := resolve_volume hv h he hpath (by rw [hc]; simp)
  obtain ⟨m, inode, bodies, hload, hmode, hsize, hsmall, -, -, ⟨hreg, hdata, -⟩, -⟩ :=
    inodeLoad_volume hv h he hc
  refine ⟨m.size, ?_, ?_⟩
  · rw [hsize, UInt32.toNat_ofNat_of_lt' hsmall, hdata]
  · unfold Ext2.ext2Stat
    rw [hresolve]
    dsimp only
    rw [if_neg hne, hload, Option.map_some, hmode, hreg, isDir_regularMode]

/-! ## Listings -/

/-- The scan of `ext2_list` over the records of a block reports them all. -/
theorem listScan_records {blk : ℕ → UInt8} (he : Mounted base e)
    {entry : List UInt8 × ℕ → Ext2Entry} {entries : List (List UInt8 × ℕ)}
    (hvalid : ∀ x ∈ entries, ValidEntry x)
    (hload : ∀ x ∈ entries, ∃ m, e.inodeLoad disk (UInt32.ofNat x.2) = some m ∧
      entry x = ⟨x.1, m.size, ext2IsDir m.mode⟩) {turns off : ℕ}
    (h : Records blk off entries) (hturns : 1024 < off + turns * 8) :
    e.listScan disk blk turns off = (entries.map entry, entries.length) := by
  have hbs : e.blockSize.toNat = 1024 := by
    rw [he.blockSize]
    rfl
  induction entries generalizing off turns with
  | nil =>
    cases turns with
    | zero => rfl
    | succ turns =>
      rw [Ext2.listScan, show off = 1024 from h, hbs, if_pos (Or.inl (by decide))]
      rfl
  | cons x rest ih =>
    obtain ⟨n, target⟩ := x
    obtain ⟨recLen, hname, hfit, hhead, hholds, hrest⟩ := h
    obtain ⟨hnil, hlen, hlow, hhigh⟩ := hvalid _ List.mem_cons_self
    obtain ⟨m, hm, hentry⟩ := hload _ List.mem_cons_self
    obtain ⟨hino, hrec, hnlen⟩ := record_fields hhead (by omega) hlen
    cases turns with
    | zero => omega
    | succ turns =>
      have hnot : ¬ leAt16 blk (off + 4) < 8 := by
        rw [UInt16.lt_iff_toNat_lt, hrec]
        change ¬ recLen < 8
        omega
      have hpos : 0 < blk (off + 6) := by
        rw [UInt8.lt_iff_toNat_lt, hnlen]
        exact List.length_pos_of_ne_nil hnil
      have hne : UInt32.ofNat target ≠ 0 := ofNat_ne_zero hlow (by omega)
      have hturns' : 1024 < off + recLen + turns * 8 := by omega
      have hnext := ih (fun x hx => hvalid x (List.mem_cons_of_mem _ hx))
        (fun x hx => hload x (List.mem_cons_of_mem _ hx)) hrest hturns'
      rw [Ext2.listScan, hbs, if_neg (by rw [not_or]; exact ⟨by omega, hnot⟩), hino, hrec, hnlen]
      dsimp only
      rw [if_pos ⟨hne, hpos⟩, hm, hnext, hholds.map_range, List.map_cons, hentry]
      rfl

/-- What `ext2_list` reports for a node. -/
def Ext2Node.entry (name : List UInt8) : Ext2Node → Ext2Entry
  | .dir => ⟨name, 1024, true⟩
  | .file data => ⟨name, UInt32.ofNat data.length, false⟩

theorem inodeLoad_entry (hv : Ext2Volume t ino dirs next img) (h : ImageAt disk base img)
    (he : Mounted base e) {k : Ext2Node} (hc : t c = some k) (name : List UInt8) :
    ∃ m, e.inodeLoad disk (UInt32.ofNat (ino c)) = some m ∧
      k.entry name = ⟨name, m.size, ext2IsDir m.mode⟩ := by
  obtain ⟨m, inode, bodies, hload, hmode, hsize, -, -, -, hshows, -⟩ := inodeLoad_volume hv h he hc
  refine ⟨m, hload, ?_⟩
  rw [hmode, hsize]
  cases k with
  | dir =>
    obtain ⟨hdmode, hdsize, -⟩ := hshows
    rw [hdmode, hdsize, isDir_directoryMode]
    rfl
  | file data =>
    obtain ⟨hreg, hdata, -⟩ := hshows
    rw [hreg, hdata, isDir_regularMode]
    rfl

/-- `ext2_list` of a directory. -/
theorem list_volume (hv : Ext2Volume t ino dirs next img) (h : ImageAt disk base img)
    (he : Mounted base e) {path : List UInt8} (hpath : LeadsTo t path c)
    (hc : t c = some .dir) :
    ∃ names l, names.Nodup ∧ (∀ name, name ∈ names ↔ t (c ++ [name]) ≠ none) ∧
      l.map Ext2Entry.name = nameDot :: nameDotdot :: names ∧
      e.ext2List disk path = (some (l, l.length), e) := by
  obtain ⟨hresolve, hne⟩ := resolve_volume hv h he hpath (by rw [hc]; simp)
  obtain ⟨m, names, hload, hmode, hsize, hblock, hnodup, hmem, hread⟩ := directory_volume hv h he hc
  obtain ⟨hok, hrecs⟩ := hread (e.behind .list)
  have hbs : e.blockSize.toNat = 1024 := by
    rw [he.blockSize]
    rfl
  let entry : List UInt8 × ℕ → Ext2Entry := fun x =>
    ((t (stepInto c x.1)).getD .dir).entry x.1
  have hentry : ∀ x ∈ entriesOf ino c names, ∃ m,
      e.inodeLoad disk (UInt32.ofNat x.2) = some m ∧
        entry x = ⟨x.1, m.size, ext2IsDir m.mode⟩ := by
    rintro ⟨name, i⟩ hx
    obtain ⟨hsome, rfl⟩ := (hv.linked.mem_entriesOf hc hmem).mp hx
    obtain ⟨k, hk⟩ := Option.ne_none_iff_exists'.mp hsome
    simp only [entry, hk, Option.getD_some]
    exact inodeLoad_entry hv h he hk name
  have hname : ∀ x, (entry x).name = x.1 := by
    intro x
    simp only [entry]
    cases (t (stepInto c x.1)).getD .dir <;> rfl
  have hturns : e.blockTurns = 11 + 1024 / 4 + 1 + 1 := by rw [Ext2.blockTurns, hbs]
  have hnth : e.inodeNthBlock disk m.blocks 0 = (m.blocks 0, e) := rfl
  have hscan : e.listScan disk (e.readBlock disk (m.blocks 0) (e.behind .list)).2 (1024 / 8 + 1) 0 =
      ((entriesOf ino c names).map entry, (entriesOf ino c names).length) :=
    listScan_records he (validEntry_entriesOf hv hc hmem) hentry hrecs (by decide)
  refine ⟨names, (entriesOf ino c names).map entry, hnodup, hmem, ?_, ?_⟩
  · rw [List.map_map]
    simp [entriesOf, hname, Function.comp_def]
  · unfold Ext2.ext2List
    rw [hresolve]
    dsimp only
    rw [if_neg hne, hload]
    dsimp only
    rw [hmode, if_pos isDir_directoryMode, hturns, Ext2.listFrom, hsize, hbs, if_neg (by decide),
      hnth]
    dsimp only
    rw [if_neg (by rw [hok]; simp [hblock]), Ext2.listFrom, hsize, hbs, if_pos (by decide), hscan]
    simp

end

/-! ## The round trip -/

/-- What a mounted driver has to say about files that an image was built for. No call changes
the driver, so the calls can be made in any order. -/
structure ReadsBack (disk : UInt32 → Option Sector) (e : Ext2)
    (files : List (List UInt8 × List UInt8)) : Prop where
  read : ∀ f ∈ files, ∀ maxLen : UInt32, f.2.length ≤ maxLen.toNat →
    e.ext2Read disk f.1 maxLen = (some f.2, e)
  stat : ∀ f ∈ files, ∃ size : UInt32, size.toNat = f.2.length ∧
    e.ext2Stat disk f.1 = (some (size, false), e)
  list : ∀ path : List UInt8, path.head? = some 47 →
    (components path = [] ∨ ∃ f ∈ files, components path <+: (components f.1).dropLast) →
    ∃ l, e.ext2List disk path = (some (l, l.length), e) ∧
      ((l.map Ext2Entry.name).filter fun name => name ≠ nameDot ∧ name ≠ nameDotdot).Perm
        (members files (canonical (components path)))

/-- The image can be mounted wherever it is on a disk, and is then read back. -/
def RoundTrips (img : Buffer) (files : List (List UInt8 × List UInt8)) : Prop :=
  ∀ (disk : UInt32 → Option Sector) (base : UInt32) (e : Ext2), ImageAt disk base img →
    (e.ext2Mount disk base).1 = 0 ∧ ReadsBack disk (e.ext2Mount disk base).2 files

section

variable {files : List (List UInt8 × List UInt8)} {t : Ext2Path → Option Ext2Node}
  {f : List UInt8 × List UInt8}

theorem Describes.dir_prefix (ht : Describes t files) (hf : f ∈ files) {q : List (List UInt8)}
    (hq : q <+: (components f.1).dropLast) : t (canonical q) = some .dir :=
  ht.dir.mpr (mem_dirPaths.mpr (Or.inr ⟨f, hf, q, hq, rfl⟩))

/-- The path of a file leads to its place. -/
theorem Describes.leadsTo_file (ht : Describes t files) (hclean : Ext2Clean files)
    (habs : f.1.head? = some 47) (hf : f ∈ files) (hne : components f.1 ≠ []) :
    LeadsTo t f.1 (filePath f.1) := by
  have hlast := List.getLast?_eq_getLast_of_ne_nil hne
  obtain ⟨hdot, hdotdot⟩ := hclean.last f hf _ hlast
  refine ⟨habs, hclean.length_le f hf, fun q hq hqne => ?_, ?_⟩
  · refine ht.dir_prefix hf ?_
    rw [← List.dropLast_append_getLast hne, List.prefix_concat_iff] at hq
    rcases hq with hq | hq
    · rw [List.dropLast_append_getLast] at hq
      exact absurd hq hqne
    · exact hq
  · rw [filePath_of_getLast? hlast]
    conv_lhs => rw [← List.dropLast_append_getLast hne]
    rw [canonical, List.foldl_append, List.foldl_cons, List.foldl_nil, stepInto, if_neg hdot,
      if_neg hdotdot]
    rfl

/-- A path to a directory leads there. -/
theorem Describes.leadsTo_dir (ht : Describes t files) (hclean : Ext2Clean files)
    {path : List UInt8} (habs : path.head? = some 47)
    (hpath : components path = [] ∨ ∃ f ∈ files, components path <+: (components f.1).dropLast) :
    LeadsTo t path (canonical (components path)) ∧
      t (canonical (components path)) = some .dir := by
  rcases hpath with hnil | ⟨f, hf, hpre⟩
  · refine ⟨⟨habs, ?_, ?_, rfl⟩, ?_⟩
    · rw [hnil]
      simp
    · rw [hnil]
      intro q hq hqne
      exact absurd (List.prefix_nil.mp hq) hqne
    · rw [hnil]
      exact ht.dir.mpr (mem_dirPaths.mpr (Or.inl rfl))
  · refine ⟨⟨habs, ?_, ?_, rfl⟩, ht.dir_prefix hf hpre⟩
    · intro name hname
      exact hclean.length_le f hf name (List.dropLast_subset _ (hpre.subset hname))
    · intro q hq _
      exact ht.dir_prefix hf (hq.trans hpre)

end

/-- An image of a clean list is read back as it was built. -/
theorem ext2_round_trip {sizeMb : ℕ} {files : List (List UInt8 × List UInt8)} {img : Buffer}
    (himg : mkfsExt2 sizeMb files = some img) (habs : ∀ f ∈ files, f.1.head? = some 47)
    (hclean : Ext2Clean files) : RoundTrips img files := by
  intro disk base e₀ hdisk
  obtain ⟨t, ino, dirs, next, ht, hv⟩ := volume_of_mkfs hclean himg
  obtain ⟨hmount, he⟩ := mount_volume hv hdisk e₀
  refine ⟨hmount, ?_⟩
  generalize (e₀.ext2Mount disk base).2 = e at he
  have hfile : ∀ f ∈ files, t (filePath f.1) = some (.file f.2) := fun f hf =>
    ht.file.mpr ⟨f, hf, rfl, rfl⟩
  have hleads : ∀ f ∈ files, LeadsTo t f.1 (filePath f.1) := by
    intro f hf
    refine ht.leadsTo_file hclean (habs f hf) hf fun hnil => ?_
    -- no node of the tree has the empty name
    have hnode := hfile f hf
    rw [filePath, hnil] at hnode
    have hsome : t (canonical [] ++ [[]]) ≠ none := by
      rw [show t (canonical [] ++ [[]]) = _ from hnode]
      simp
    exact (hv.linked.parent hsome).2.2.2.1 rfl
  constructor
  · intro f hf maxLen hmax
    exact read_volume hv hdisk he (hleads f hf) (hfile f hf) hmax
  · intro f hf
    exact stat_volume hv hdisk he (hleads f hf) (hfile f hf)
  · intro path hpath hdir
    obtain ⟨hlead, hc⟩ := ht.leadsTo_dir hclean hpath hdir
    obtain ⟨names, l, hnodup, hmem, hl, hlist⟩ := list_volume hv hdisk he hlead hc
    refine ⟨l, hlist, ?_⟩
    have hgood : ∀ name ∈ names, name ≠ nameDot ∧ name ≠ nameDotdot := by
      intro name hname
      obtain ⟨-, hdot, hdotdot, -⟩ := hv.linked.parent ((hmem name).mp hname)
      exact ⟨hdot, hdotdot⟩
    have hfilter : (nameDot :: nameDotdot :: names).filter
        (fun name => name ≠ nameDot ∧ name ≠ nameDotdot) = names := by
      rw [List.filter_cons_of_neg (by simp), List.filter_cons_of_neg (by simp),
        List.filter_eq_self]
      simpa using hgood
    rw [hl, hfilter]
    exact ht.perm_members hnodup hmem

/-- A file in a directory and one beside it. -/
def cleanFiles : List (List UInt8 × List UInt8) :=
  [([47, 97, 47, 98], [1, 2, 3]), ([47, 99], [])]

theorem ext2Clean_cleanFiles : Ext2Clean cleanFiles := by
  constructor <;> decide

/-- A file whose name has 256 bytes. -/
def longName : List (List UInt8 × List UInt8) :=
  [(47 :: List.replicate 256 97, [])]

/-- Both sets of files fit into an image of a megabyte. -/
theorem size_mkfsExt2 : (mkfsExt2 1 cleanFiles).map Buffer.size = some 1048576 ∧
    (mkfsExt2 1 longName).map Buffer.size = some 1048576 := by
  decide +kernel

theorem ext2_round_trip_cleanFiles :
    ∃ img, mkfsExt2 1 cleanFiles = some img ∧ RoundTrips img cleanFiles := by
  obtain ⟨img, himg, -⟩ := Option.map_eq_some_iff.mp size_mkfsExt2.1
  exact ⟨img, himg, ext2_round_trip himg (by decide) ext2Clean_cleanFiles⟩

/-- `resolve` finds no place with such a name. -/
theorem resolve_longName (disk : UInt32 → Option Sector) (e : Ext2) :
    (e.resolve disk (47 :: List.replicate 256 97)).1 = 0 := by
  have htake : (List.replicate 256 (97 : UInt8)).takeWhile (· ≠ 47) = List.replicate 256 97 :=
    List.takeWhile_eq_self_iff.mpr fun b hb => by rw [List.eq_of_mem_replicate hb]; rfl
  unfold Ext2.resolve
  split
  · rfl
  · rw [List.length_cons, List.length_replicate, Ext2.resolveFrom, List.tail_cons,
      if_neg (by decide)]
    dsimp only
    rw [htake, if_neg (by simp), if_pos (by rw [List.length_replicate]; decide)]

theorem not_ext2_round_trip : ¬ ∀ (sizeMb : ℕ) (files : List (List UInt8 × List UInt8))
    (img : Buffer), mkfsExt2 sizeMb files = some img → (∀ f ∈ files, f.1.head? = some 47) →
      (files.map Prod.fst).Nodup → RoundTrips img files := by
  intro hclaim
  obtain ⟨img, himg, hsize⟩ := Option.map_eq_some_iff.mp size_mkfsExt2.2
  have hdisk : ImageAt (fun lba => some fun k => img.byte (512 * lba.toNat + k.val)) 0 img := by
    intro s hs
    have hs' : s < 4294967296 := by omega
    dsimp only
    rw [UInt32.zero_add, UInt32.toNat_ofNat_of_lt' hs']
  obtain ⟨-, hread⟩ := hclaim 1 longName img himg (by decide) (by decide) _ 0
    ⟨false, 0, 0, 0, 0, 0, 0, 0, 0, fun _ => 0, fun _ _ => 0⟩ hdisk
  have hfile := hread.read (47 :: List.replicate 256 97, []) (List.mem_singleton_self _) 0
    (Nat.zero_le _)
  unfold Ext2.ext2Read at hfile
  rw [if_pos (resolve_longName _ _)] at hfile
  cases hfile

end VernisOS
