import VernisOS.VernisFsMount
import VernisOS.VernisFsVolume

/-!
# Reading back what was written

A write that returns the length asked for is read back whole by its path exactly if the path is
short enough for the `filename` field and the data does not run into the metadata, which is
flushed after it (`write_readback_iff`) : the longest file that `vfs_write_file` accepts has the
255 sectors that `vfs_read_file` reads at most.
-/

open Bytes Slots

namespace VernisOS

theorem VfsFilename.length_str_le (f : VfsFilename) : f.str.length ≤ 31 := by
  have hprefix : f.str <+: f.bytes := List.takeWhile_prefix _
  have hle := hprefix.length_le
  have hne : f.str.length ≠ f.bytes.length := by
    intro heq
    have hall : f.str = f.bytes := hprefix.eq_of_length heq
    exact f.zero_notMem_str (hall ▸ f.terminated)
  have hsize : f.bytes.length = 32 := f.size
  omega

namespace VernisFs

variable {fs : VernisFs} {path : CStr} {len : UInt64}

/-- `path` is found, and a read with room for `len` bytes returns `data`. -/
structure ReadsBack (fs : VernisFs) (path : CStr) (data : ℕ → UInt8) (len : UInt64) : Prop where
  found : (fs.vfsFindFile path).isSome = true
  read : ∀ buf maxLen, len ≤ maxLen → (fs.vfsReadFile path buf maxLen).1 = len.toNat ∧
    ∀ k < len.toNat, byteAt (fs.vfsReadFile path buf maxLen).2.1 k = data k

/-- The sector of the disk with sector `k` of a file that starts at `start`. -/
def dataSector (start : UInt32) (k : ℕ) : UInt32 :=
  vfsStartSector + vfsDataSector + start + UInt32.ofNat k

/-- No sector of the write is one of the superblock or of the file table. -/
def DataClear (fs : VernisFs) (path : CStr) (len : UInt64) : Prop :=
  ∀ slot fs₀, fs.openSlot path = some (slot, fs₀) → ∀ k < sectorCount len.toUInt32,
    ¬ MetaSector (dataSector (fs₀.filetable slot).startSector k)

/-- A path that is found fits into the field. -/
theorem length_le_of_found (h : (fs.vfsFindFile path).isSome = true) :
    path.chars.length ≤ 31 := by
  obtain ⟨i, hi⟩ := Option.isSome_iff_exists.mp h
  obtain ⟨-, hname⟩ := (findSlot_eq_some.mp (vfsFindFile_some hi).2).1
  rw [← hname]
  exact VfsFilename.length_str_le _

/-! ## What a write leaves on the disk -/

/-- On a disk that never fails the loop stores its sectors. -/
theorem writeEach_disk (abs : UInt32) (src : ℕ → Sector) (n : ℕ) {b : Backend}
    (hb : b.NeverFails) :
    (writeEach abs src 0 n b).1 = true ∧
      (writeEach abs src 0 n b).2.disk = Backend.store b.disk abs src n := by
  have hok : ∀ n, (writeEach abs src 0 n b).1 = true :=
    fun n => (writeEach_ok abs src n 0 b).mpr fun k _ => hb _
  refine ⟨hok n, ?_⟩
  induction n with
  | zero => rfl
  | succ n ih =>
    have hb' := (writeEach_wrote abs src n 0 b).neverFails hb
    rw [writeEach_succ, if_pos (hok n), Nat.zero_add]
    generalize (writeEach abs src 0 n b).2 = b' at ih hb'
    rw [writeEach, Backend.write_one_ok (hb' _)]
    dsimp only
    rw [if_neg (by decide), writeEach, Backend.store, ← ih]
    rfl

/-- A write that returns the length asked for, on a disk that never fails. -/
structure Written (fs : VernisFs) (slot : Fin vfsMaxFiles) (fs₀ : VernisFs) (data : ℕ → UInt8)
    (len : UInt64) (fs' : VernisFs) : Prop where
  short : len.toUInt32.toNat = len.toNat ∧ len.toNat ≤ 130560
  updated : fs' = (fs₀.updateEntry slot len.toUInt32 (sectorsFor len.toUInt32)).setDisk fs'.disk
  disk : fs'.disk.NeverFails
  synced : fs'.Synced
  data : ∀ a, ¬ MetaSector a → fs'.disk.disk a =
    Backend.store fs.disk.disk (vfsStartSector + vfsDataSector + (fs₀.filetable slot).startSector)
      (padded data len.toUInt32) (sectorCount len.toUInt32) a

theorem written_of_returns (hdisk : fs.disk.NeverFails) {data : ℕ → UInt8}
    (h : (fs.vfsWriteFile path data len).1 = len.toNat) :
    ∃ slot fs₀, fs.openSlot path = some (slot, fs₀) ∧
      Written fs slot fs₀ data len (fs.vfsWriteFile path data len).2 := by
  have hneg : (-1 : Int) ≠ len.toNat := by omega
  have hdata := vfsWriteData_eq fs path data len
  cases hopen : fs.openSlot path with
  | none =>
    rw [hopen] at hdata
    simp only [vfsWriteFile, hdata, Bool.not_false, if_true] at h
    exact absurd h hneg
  | some so =>
    obtain ⟨slot, fs₀⟩ := so
    rw [hopen] at hdata
    dsimp only at hdata
    have hdisk₀ : fs₀.disk = fs.disk := openSlot_disk hopen
    set abs := vfsStartSector + vfsDataSector + (fs₀.filetable slot).startSector with habs
    set n := sectorCount len.toUInt32 with hn
    obtain ⟨hok, hstore⟩ := writeEach_disk abs (padded data len.toUInt32) n hdisk
    have hfails := (writeEach_wrote abs (padded data len.toUInt32) n 0 fs.disk).neverFails hdisk
    by_cases hbig : 255 < sectorsFor len.toUInt32
    · have hslot : fs₀.writeSlot slot data len = (false, fs₀) := if_pos hbig
      rw [hslot] at hdata
      simp only [vfsWriteFile, hdata, Bool.not_false, if_true] at h
      exact absurd h hneg
    have hslot : fs₀.writeSlot slot data len =
        (true, (fs₀.setDisk (writeEach abs (padded data len.toUInt32) 0 n fs.disk).2).updateEntry
          slot len.toUInt32 (sectorsFor len.toUInt32)) := by
      unfold writeSlot
      dsimp only
      rw [if_neg hbig, writeSectors_eq, hdisk₀, hok]
      rfl
    rw [hslot] at hdata
    set d := (writeEach abs (padded data len.toUInt32) 0 n fs.disk).2 with hd
    set fs₁ := (fs₀.setDisk d).updateEntry slot len.toUInt32 (sectorsFor len.toUInt32) with hfs₁
    have hwrite : fs.vfsWriteFile path data len =
        (if fs₁.vfsFlushMetadata.1 = 0 then cInt len.toUInt32 else -1,
          fs₁.vfsFlushMetadata.2) := by
      simp only [vfsWriteFile, hdata]
      rfl
    rw [hwrite] at h ⊢
    have hflush : fs₁.vfsFlushMetadata.1 = 0 := by
      by_contra hno
      rw [if_neg hno] at h
      exact hneg h
    rw [if_pos hflush] at h
    have hlt : len.toUInt32.toNat < 2147483648 := by
      by_contra hge
      have hsign := (cInt_neg len.toUInt32).mpr (by omega)
      omega
    have hsame : len.toUInt32.toNat = len.toNat := by
      rw [cInt_of_lt hlt] at h
      exact Int.ofNat.inj h
    obtain ⟨d', hd', hwrote⟩ := vfsFlushMetadata_spec fs₁
    have hdisk₁ : fs₁.disk = d := by
      rw [hfs₁, setDisk_updateEntry]
      rfl
    have hdisk' : fs₁.vfsFlushMetadata.2.disk = d' := congrArg VernisFs.disk hd'
    refine ⟨slot, fs₀, rfl, ⟨hsame, ?_⟩, ?_, ?_, synced_flush hflush, fun a ha => ?_⟩
    · have hcount : (sectorsFor len.toUInt32).toNat = sectorCount len.toUInt32 :=
        sectorsFor_toNat (by omega)
      have hle : (sectorsFor len.toUInt32).toNat ≤ 255 :=
        UInt32.le_iff_toNat_le.mp (UInt32.not_lt.mp hbig)
      rw [hcount] at hle
      unfold sectorCount at hle
      omega
    · rw [hdisk', hd', hfs₁, setDisk_updateEntry]
      rfl
    · rw [hdisk']
      rw [hdisk₁] at hwrote
      exact hwrote.neverFails hfails
    · rw [hdisk', hwrote.disk a ha, hdisk₁, hd, hstore]

namespace Written

variable {slot : Fin vfsMaxFiles} {fs₀ fs' : VernisFs} {data : ℕ → UInt8}

theorem filetable (h : Written fs slot fs₀ data len fs') : fs'.filetable =
    Function.update fs₀.filetable slot { fs₀.filetable slot with size := len.toUInt32 } := by
  rw [h.updated, setDisk_filetable, updateEntry_filetable]

theorem entry (h : Written fs slot fs₀ data len fs') :
    fs'.filetable slot = { fs₀.filetable slot with size := len.toUInt32 } := by
  rw [h.filetable, Function.update_self]

/-- The slot that was written is found if the path fits into the field. -/
theorem found (h : Written fs slot fs₀ data len fs') (hopen : fs.openSlot path = some (slot, fs₀))
    (hlen : path.chars.length ≤ 31) : fs'.vfsFindFile path = some slot := by
  obtain ⟨hready, hslot⟩ := openSlot_some hopen
  have hsized : ∀ j, Named fs'.filetable j path.chars ↔ Named fs₀.filetable j path.chars := by
    intro j
    by_cases hj : j = slot
    · subst hj
      rw [Named, Occupied, h.entry]
      rfl
    · rw [h.filetable, Named, Occupied, Function.update_of_ne hj]
      rfl
  have hready' : fs'.ready = true := by
    rw [h.updated, setDisk_ready, updateEntry_ready]
    rcases hslot with ⟨-, rfl⟩ | ⟨-, -, rfl⟩
    · exact hready
    · exact hready
  have hfind : findSlot fs'.filetable path = some slot := by
    rw [findSlot_congr hsized]
    rcases hslot with ⟨hfound, rfl⟩ | ⟨hnone, -, rfl⟩
    · exact hfound
    · -- the new entry has the whole path, and no other has it
      have hself : (fs.setEntry slot (fs.newEntry slot path)).filetable slot =
          fs.newEntry slot path := Function.update_self ..
      have hname : (fs.newEntry slot path).filename.str = path.chars := by
        rw [newEntry, VfsFilename.str_ofPath, List.take_of_length_le hlen]
      refine findSlot_eq_some.mpr ⟨⟨?_, by rw [hself]; exact hname⟩, fun j hj => ?_⟩
      · rw [Occupied, hself]
        exact (by decide : vfsTypeRegular ≠ vfsTypeEmpty)
      · by_cases hjs : j = slot
        · exact le_of_eq hjs.symm
        · have hother : (fs.setEntry slot (fs.newEntry slot path)).filetable j =
              fs.filetable j := Function.update_of_ne hjs ..
          rw [Named, Occupied, hother] at hj
          exact absurd hj (findSlot_eq_none.mp hnone j)
  rw [vfsFindFile, hready', hfind]
  rfl

/-- What a read with room for the whole file finds. -/
theorem readFile (h : Written fs slot fs₀ data len fs') (hfound : fs'.vfsFindFile path = some slot)
    (buf : ℕ → Sector) {maxLen : UInt64} (hmax : len ≤ maxLen) :
    (fs'.vfsReadFile path buf maxLen).1 = len.toNat ∧
      ∀ s < sectorCount len.toUInt32, (fs'.vfsReadFile path buf maxLen).2.1 s =
        fs'.disk.disk (dataSector (fs₀.filetable slot).startSector s) := by
  obtain ⟨hsame, hshort⟩ := h.short
  obtain ⟨size, -, hsize, hrc, hbuf⟩ := vfsReadFile_spec hfound h.disk buf maxLen
  have hstart : (fs'.filetable slot).startSector = (fs₀.filetable slot).startSector := by
    rw [h.entry]
  have hwhole : size = len.toUInt32 := by
    rw [hsize, h.entry, if_neg]
    intro hlt
    have hlt' := UInt64.lt_iff_toNat_lt.mp hlt
    have hle := UInt64.le_iff_toNat_le.mp hmax
    rw [UInt32.toNat_toUInt64] at hlt'
    dsimp only at hlt'
    omega
  rw [hwhole] at hrc hbuf
  refine ⟨?_, fun s hs => ?_⟩
  · rw [hrc, cInt_of_lt (by omega), hsame]
  · have hsectors : readSectors len.toUInt32 = sectorCount len.toUInt32 := by
      rw [readSectors_eq (by omega)]
      refine Nat.min_eq_left ?_
      unfold sectorCount
      omega
    rw [hbuf, hsectors]
    dsimp only
    rw [if_pos hs, hstart]
    rfl

/-- A sector of the data outside the metadata holds it. -/
theorem sector (h : Written fs slot fs₀ data len fs') {s : ℕ}
    (hs : s < sectorCount len.toUInt32)
    (hclear : ¬ MetaSector (dataSector (fs₀.filetable slot).startSector s)) :
    fs'.disk.disk (dataSector (fs₀.filetable slot).startSector s) =
      padded data len.toUInt32 s := by
  have hcount : sectorCount len.toUInt32 ≤ 4294967296 := by
    obtain ⟨hsame, hshort⟩ := h.short
    unfold sectorCount
    omega
  rw [h.data _ hclear]
  exact Backend.store_of_lt _ _ _ hcount hs

/-- The byte of the read whose sector is outside the metadata. -/
theorem read_clear (h : Written fs slot fs₀ data len fs')
    (hfound : fs'.vfsFindFile path = some slot) (buf : ℕ → Sector) {maxLen : UInt64} (hmax : len ≤ maxLen) {k : ℕ} (hk : k < len.toNat)
    (hclear : ¬ MetaSector (dataSector (fs₀.filetable slot).startSector (k / 512))) :
    byteAt (fs'.vfsReadFile path buf maxLen).2.1 k = data k := by
  obtain ⟨-, hbuf⟩ := h.readFile hfound buf hmax
  obtain ⟨hsame, -⟩ := h.short
  have hs : k / 512 < sectorCount len.toUInt32 := by
    unfold sectorCount
    omega
  have hk' : k / 512 * 512 + k % 512 = k := Nat.div_add_mod' k 512
  rw [byteAt, hbuf _ hs, h.sector hs hclear, padded]
  dsimp only
  rw [if_pos (by omega), hk']

end Written

theorem readsBack_of_clear (hdisk : fs.disk.NeverFails) {data : ℕ → UInt8}
    (h : (fs.vfsWriteFile path data len).1 = len.toNat) (hlen : path.chars.length ≤ 31)
    (hclear : DataClear fs path len) :
    ReadsBack (fs.vfsWriteFile path data len).2 path data len := by
  obtain ⟨slot, fs₀, hopen, hw⟩ := written_of_returns hdisk h
  have hfound := hw.found hopen hlen
  refine ⟨by rw [hfound]; rfl, fun buf maxLen hmax => ?_⟩
  obtain ⟨hrc, -⟩ := hw.readFile hfound buf hmax
  refine ⟨hrc, fun k hk => hw.read_clear hfound buf hmax hk (hclear slot fs₀ hopen _ ?_)⟩
  obtain ⟨hsame, -⟩ := hw.short
  unfold sectorCount
  omega

/-- On a disk that never fails a flush succeeds. -/
theorem vfsFlushMetadata_ok (hdisk : fs.disk.NeverFails) : fs.vfsFlushMetadata.1 = 0 := by
  have hb := (Backend.wrote_write fs.disk (vfsStartSector + vfsSuperblockSector) 1
    (sectorsOf fs.superblock.toBytes)).neverFails hdisk
  unfold vfsFlushMetadata
  rw [Backend.write_ok (hdisk _)] at hb ⊢
  dsimp only at hb ⊢
  rw [if_neg (by decide), Backend.write_ok (hb _)]
  rfl

/-- What a write on such a disk returns does not depend on the data. -/
theorem vfsWriteFile_rc (hdisk : fs.disk.NeverFails) (path : CStr) (data : ℕ → UInt8)
    (len : UInt64) : (fs.vfsWriteFile path data len).1 =
      if (fs.openSlot path).isSome ∧ ¬ 255 < sectorsFor len.toUInt32 then cInt len.toUInt32
      else -1 := by
  have hok : ∀ slot (fs₀ : VernisFs), fs₀.disk = fs.disk →
      (fs₀.writeSlot slot data len).1 = !decide (255 < sectorsFor len.toUInt32) ∧
        (fs₀.writeSlot slot data len).2.disk.NeverFails := by
    intro slot fs₀ hdisk₀
    obtain ⟨hwrote, hstore⟩ := writeEach_disk
      (vfsStartSector + vfsDataSector + (fs₀.filetable slot).startSector)
      (padded data len.toUInt32) (sectorCount len.toUInt32) hdisk
    have hfails := (writeEach_wrote
      (vfsStartSector + vfsDataSector + (fs₀.filetable slot).startSector)
      (padded data len.toUInt32) (sectorCount len.toUInt32) 0 fs.disk).neverFails hdisk
    unfold writeSlot
    dsimp only
    by_cases hbig : 255 < sectorsFor len.toUInt32
    · rw [if_pos hbig, decide_eq_true hbig]
      exact ⟨rfl, by rw [hdisk₀]; exact hdisk⟩
    · rw [if_neg hbig, writeSectors_eq, hdisk₀, hwrote, decide_eq_false hbig]
      refine ⟨rfl, ?_⟩
      change ((fs₀.setDisk _).updateEntry slot _ _).disk.NeverFails
      rw [setDisk_updateEntry]
      exact hfails
  unfold vfsWriteFile
  rw [vfsWriteData_eq]
  cases hopen : fs.openSlot path with
  | none => rfl
  | some so =>
    obtain ⟨slot, fs₀⟩ := so
    obtain ⟨hfst, hfails⟩ := hok slot fs₀ (openSlot_disk hopen)
    dsimp only
    by_cases hbig : 255 < sectorsFor len.toUInt32
    · rw [hfst, decide_eq_true hbig]
      simp [hbig]
    · rw [hfst, decide_eq_false hbig]
      simp [hbig, vfsFlushMetadata_ok hfails]

theorem returns_congr (hdisk : fs.disk.NeverFails) (data data' : ℕ → UInt8)
    (h : (fs.vfsWriteFile path data len).1 = len.toNat) :
    (fs.vfsWriteFile path data' len).1 = len.toNat := by
  rw [vfsWriteFile_rc hdisk] at h ⊢
  exact h

/-- A sector of the metadata as a flush writes it. -/
def metaOn (fs : VernisFs) (a : UInt32) : Sector :=
  if a = vfsStartSector + vfsSuperblockSector then sectorsOf fs.superblock.toBytes 0
  else sectorsOf (tableBytes fs.filetable) (a.toNat - 5121)

theorem Synced.metaOn (h : fs.Synced) {a : UInt32} (ha : MetaSector a) :
    fs.disk.disk a = fs.metaOn a := by
  obtain ⟨hlo, hhi⟩ := ha
  have h5120 : (vfsStartSector + vfsSuperblockSector).toNat = 5120 := rfl
  have h5121 : (vfsStartSector + vfsFiletableSector).toNat = 5121 := rfl
  unfold VernisFs.metaOn
  by_cases hfirst : a = vfsStartSector + vfsSuperblockSector
  · rw [if_pos hfirst, hfirst, h.superblock]
  · have hne : a.toNat ≠ 5120 := fun heq => hfirst (UInt32.toNat_inj.mp heq)
    have hk : a.toNat - 5121 < vfsFiletableSectors := by
      change a.toNat - 5121 < 4
      omega
    have haddr : vfsStartSector + vfsFiletableSector + UInt32.ofNat (a.toNat - 5121) = a := by
      refine UInt32.toNat_inj.mp ?_
      rw [UInt32.toNat_add, h5121, UInt32.toNat_ofNat']
      omega
    rw [if_neg hfirst, ← h.filetable _ hk, haddr]

/-- The metadata after a write that returns the length does not depend on the data. -/
theorem metadata_congr {data data' : ℕ → UInt8} {slot : Fin vfsMaxFiles} {fs₀ fs₁ fs₂ : VernisFs}
    (h₁ : Written fs slot fs₀ data len fs₁) (h₂ : Written fs slot fs₀ data' len fs₂) {a : UInt32}
    (ha : MetaSector a) : fs₁.disk.disk a = fs₂.disk.disk a := by
  have hsb : fs₁.superblock = fs₂.superblock := by
    rw [h₁.updated, h₂.updated, setDisk_superblock, setDisk_superblock]
  have htable : fs₁.filetable = fs₂.filetable := by
    rw [h₁.filetable, h₂.filetable]
  rw [h₁.synced.metaOn ha, h₂.synced.metaOn ha, metaOn, metaOn, hsb, htable]

/-- Data in a sector of the metadata is not read back, whatever the metadata is. -/
theorem dataClear_of_readsBack (hdisk : fs.disk.NeverFails)
    (hret : ∃ data, (fs.vfsWriteFile path data len).1 = len.toNat)
    (h : ∀ data, ReadsBack (fs.vfsWriteFile path data len).2 path data len) :
    DataClear fs path len := by
  intro slot fs₀ hopen s hs hmeta
  obtain ⟨data₀, hret⟩ := hret
  have hwritten : ∀ data, Written fs slot fs₀ data len (fs.vfsWriteFile path data len).2 := by
    intro data
    obtain ⟨slot', fs₀', hopen', hw⟩ :=
      written_of_returns hdisk (returns_congr hdisk data₀ data hret)
    rw [hopen] at hopen'
    cases hopen'
    exact hw
  -- the byte that the metadata does not have there
  set M := (fs.vfsWriteFile path data₀ len).2.disk.disk
    (dataSector (fs₀.filetable slot).startSector s) with hM
  set data : ℕ → UInt8 := fun _ => M 0 + 1 with hdata
  have hw := hwritten data
  have hfound := hw.found hopen (length_le_of_found (h data).found)
  obtain ⟨-, hbuf⟩ := hw.readFile hfound (fun _ _ => 0) (UInt64.le_refl len)
  have hread := ((h data).read (fun _ _ => 0) len (UInt64.le_refl len)).2 (s * 512) (by
    obtain ⟨hsame, -⟩ := hw.short
    unfold sectorCount at hs
    omega)
  have hsector : s * 512 / 512 = s := Nat.mul_div_cancel s (by decide)
  have hoffset : s * 512 % 512 = 0 := Nat.mul_mod_left s 512
  simp only [byteAt, hsector, hoffset] at hread
  rw [hbuf s hs, metadata_congr hw (hwritten data₀) hmeta, ← hM, hdata] at hread
  have hone : M 0 = M 0 + 1 := hread
  exact absurd hone (by grind)

/-- What a write of `len` bytes leaves is read back, for all data, exactly if the path has at most
31 characters and no sector of the data is one of the metadata. -/
theorem write_readback_iff (fs : VernisFs) (hdisk : fs.disk.NeverFails) (path : CStr)
    (len : UInt64) (hret : ∃ data, (fs.vfsWriteFile path data len).1 = len.toNat) :
    (∀ data, ReadsBack (fs.vfsWriteFile path data len).2 path data len) ↔
      path.chars.length ≤ 31 ∧ DataClear fs path len := by
  constructor
  · intro h
    exact ⟨length_le_of_found (h fun _ => 0).found, dataClear_of_readsBack hdisk hret h⟩
  · rintro ⟨hlen, hclear⟩ data
    obtain ⟨data₀, hret⟩ := hret
    exact readsBack_of_clear hdisk (returns_congr hdisk data₀ data hret) hlen hclear

/-- The new file of an empty volume starts at its first data sector. -/
theorem dataClear_emptyVolume (path : CStr) (len : UInt64) (hlen : len.toNat ≤ 130560) :
    DataClear emptyVolume path len := by
  intro slot fs₀ hopen s hs hmeta
  obtain ⟨-, ⟨hfound, -⟩ | ⟨-, -, rfl⟩⟩ := openSlot_some hopen
  · rw [findSlot_emptyVolume] at hfound
    cases hfound
  · have hstart : ((emptyVolume.setEntry slot (emptyVolume.newEntry slot path)).filetable
        slot).startSector = 0 := by
      rw [setEntry_filetable_self]
      rfl
    have hcount : sectorCount len.toUInt32 ≤ 255 := by
      unfold sectorCount
      rw [UInt64.toNat_toUInt32]
      omega
    have hmeta' := hmeta.2
    rw [hstart, dataSector, toNat_dataSector] at hmeta'
    · omega
    · have hzero : (0 : UInt32).toNat = 0 := rfl
      omega

theorem write_readback_emptyVolume :
    ReadsBack (emptyVolume.vfsWriteFile pathA UInt8.ofNat 600).2 pathA UInt8.ofNat 600 :=
  (write_readback_iff emptyVolume (fun _ => rfl) pathA 600 ⟨fun _ => 0, by decide +kernel⟩).mpr
    ⟨by decide, dataClear_emptyVolume pathA 600 (by decide)⟩ UInt8.ofNat

/-- A path of 32 characters. -/
def longPath : CStr :=
  ⟨List.replicate 32 97, by decide⟩

/-- One byte is written to it, and it is not found. -/
theorem not_write_readback :
    emptyVolume.disk.NeverFails ∧ (emptyVolume.vfsWriteFile longPath (fun _ => 7) 1).1 = 1 ∧
      ¬ ReadsBack (emptyVolume.vfsWriteFile longPath (fun _ => 7) 1).2 longPath (fun _ => 7) 1 := by
  refine ⟨fun _ => rfl, by decide +kernel, fun h => ?_⟩
  have hlen := length_le_of_found h.found
  exact absurd hlen (by decide)

end VernisFs

end VernisOS
