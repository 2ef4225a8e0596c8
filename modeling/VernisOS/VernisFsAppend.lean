import VernisOS.VernisFsReadback
import VernisOS.VernisFsSecrecy

/-!
# Appending to a file

`vfs_append_file` reads the file into a scratch buffer of 4096 bytes, copies the new data behind it
and writes the whole again. The file then has its old bytes and a prefix of the data exactly if the
old ones fit into the buffer and the sum of the lengths does not wrap (`append_law_iff`) : of a
longer file more is read than the buffer holds, although the cap on the sum is meant to prevent
that. No sector of the file may be one of the metadata, unless it has the bytes that the flush
writes there.
-/

open Bytes Slots

namespace VernisOS

namespace VernisFs

variable {fs : VernisFs} {path : CStr} {i : Fin vfsMaxFiles}

/-! ## The law -/

/-- The old bytes of the file, and `data` behind them. -/
def extended (fs : VernisFs) (i : Fin vfsMaxFiles) (data : ℕ → UInt8) (k : ℕ) : UInt8 :=
  if k < (fs.filetable i).size.toNat then (fs.filetable i).byteOn fs.disk.disk k
  else data (k - (fs.filetable i).size.toNat)

/-- The append writes nothing behind the scratch buffer. If it returns a length, the file then has
that length, its old bytes and a prefix of `data`. -/
def AppendLaw (fs : VernisFs) (path : CStr) (i : Fin vfsMaxFiles) (data : ℕ → UInt8)
    (len : UInt64) : Prop :=
  ∃ n fs', fs.vfsAppendFile path data len = some (n, fs') ∧ ∀ m : UInt64, n = m.toNat →
    (fs.filetable i).size.toNat ≤ m.toNat ∧ m.toNat - (fs.filetable i).size.toNat ≤ len.toNat ∧
      ReadsBack fs' path (fs.extended i data) m

/-- Where the new content lies in a sector of the metadata, the superblock and the table with the
new length have the same byte. -/
def AppendClear (fs : VernisFs) (i : Fin vfsMaxFiles) (data : ℕ → UInt8) (len : UInt32) : Prop :=
  ∀ k < (appendTotal (fs.filetable i).size len).toNat,
    MetaSector ((fs.filetable i).sectorOf k) →
      (fs.updateEntry i (appendTotal (fs.filetable i).size len)
        (sectorsFor (appendTotal (fs.filetable i).size len))).metaOn ((fs.filetable i).sectorOf k)
        (VfsFileEntry.offsetOf k) = fs.extended i data k

/-! ## The append of a file that fits -/

/-- The new length is one of the old, and at most 4096. -/
theorem appendTotal_bounds {existing len : UInt32} (h : existing.toNat ≤ 4096)
    (hsum : existing.toNat + len.toNat < 2 ^ 32) :
    existing.toNat ≤ (appendTotal existing len).toNat ∧ (appendTotal existing len).toNat ≤ 4096 ∧
      (appendTotal existing len).toNat - existing.toNat ≤ len.toNat := by
  have h4096 : (4096 : UInt32).toNat = 4096 := rfl
  have hadd : (existing + len).toNat = existing.toNat + len.toNat := by
    rw [UInt32.toNat_add, Nat.mod_eq_of_lt hsum]
  unfold appendTotal
  split
  · next hlt =>
    have hlt' := UInt32.lt_iff_toNat_lt.mp hlt
    omega
  · next hlt =>
    have hle := UInt32.le_iff_toNat_le.mp (UInt32.not_lt.mp hlt)
    omega

/-- A file that fits into the buffer is read and written again with the data behind it. -/
theorem vfsAppendFile_fits (hdisk : fs.disk.NeverFails) (hfind : fs.vfsFindFile path = some i)
    (data : ℕ → UInt8) {len : UInt64} (hsize : (fs.filetable i).size.toNat ≤ 4096)
    (hsum : (fs.filetable i).size.toNat + len.toUInt32.toNat < 2 ^ 32) :
    ∃ d, d.NeverFails ∧ fs.vfsAppendFile path data len =
      some ((fs.setDisk d).vfsWriteFile path (fs.extended i data)
        (appendTotal (fs.filetable i).size len.toUInt32).toUInt64) := by
  have hsmall : readSectors (fs.filetable i).size * 512 ≤ 4096 :=
    (readSectors_fits _).mpr (Or.inl hsize)
  have hread : ¬ (fs.vfsReadFile path (fun _ _ => 0) (fs.filetable i).size.toUInt64).1 < 0 := by
    rw [vfsReadFile_neg hfind hsmall]
    rintro (hwrap | ⟨-, hfault⟩)
    · omega
    · exact hfault (hdisk _)
  obtain ⟨d, hfs, hwrote⟩ := vfsReadFile_fs fs path (fun _ _ => 0) (fs.filetable i).size.toUInt64
  refine ⟨d, hwrote.neverFails hdisk, ?_⟩
  have hcopy := (append_copy_fits len.toUInt32 hsize).mpr hsum
  have hbytes : appended
      (fs.vfsReadFile path (fun _ _ => 0) (fs.filetable i).size.toUInt64).2.1
      (fs.filetable i).size.toNat data = fs.extended i data :=
    funext (SameToUser.appended_eq hfind hsmall (not_lt.mp hread) data)
  rw [vfsAppendFile, appendRequest_found hfind]
  dsimp only
  rw [if_neg (not_lt.mpr hsmall), if_neg hread, if_neg (not_lt.mpr hcopy), hbytes, hfs]
  rfl

/-- Such an append writes the whole new content, and returns its length. -/
theorem vfsAppendFile_written (hdisk : fs.disk.NeverFails) (hfind : fs.vfsFindFile path = some i)
    (data : ℕ → UInt8) {len : UInt64} (hsize : (fs.filetable i).size.toNat ≤ 4096)
    (hsum : (fs.filetable i).size.toNat + len.toUInt32.toNat < 2 ^ 32) :
    ∃ d fs', fs.vfsAppendFile path data len =
        some (((appendTotal (fs.filetable i).size len.toUInt32).toNat : Int), fs') ∧
      fs'.vfsFindFile path = some i ∧
      Written (fs.setDisk d) i (fs.setDisk d) (fs.extended i data)
        (appendTotal (fs.filetable i).size len.toUInt32).toUInt64 fs' := by
  obtain ⟨d, hd, happend⟩ := vfsAppendFile_fits hdisk hfind data hsize hsum
  obtain ⟨-, htotal, -⟩ := appendTotal_bounds hsize hsum
  set total := appendTotal (fs.filetable i).size len.toUInt32 with ht
  obtain ⟨hready, hslot⟩ := vfsFindFile_some hfind
  have hopen : (fs.setDisk d).openSlot path = some (i, fs.setDisk d) :=
    openSlot_of_found hready hslot
  have hrc : ((fs.setDisk d).vfsWriteFile path (fs.extended i data) total.toUInt64).1 =
      total.toUInt64.toNat := by
    have hsectors : ¬ 255 < sectorsFor total := by
      rw [UInt32.lt_iff_toNat_lt, sectorsFor_toNat (by omega)]
      have h255 : (255 : UInt32).toNat = 255 := rfl
      unfold sectorCount
      omega
    rw [vfsWriteFile_rc hd, hopen, UInt32.toUInt32_toUInt64, if_pos ⟨rfl, hsectors⟩,
      cInt_of_lt (by omega), UInt32.toNat_toUInt64]
  obtain ⟨slot, fs₀, hopen', hw⟩ := written_of_returns hd hrc
  rw [hopen] at hopen'
  cases hopen'
  refine ⟨d, _, ?_, hw.found hopen (length_le_of_found (by rw [hfind]; rfl)), hw⟩
  rw [happend, ← UInt32.toNat_toUInt64, ← hrc]

/-- The byte of the read whose sector is one of the metadata. -/
theorem Written.read_meta {slot : Fin vfsMaxFiles} {fs₀ fs' : VernisFs} {data : ℕ → UInt8}
    {len : UInt64} (h : Written fs slot fs₀ data len fs')
    (hfound : fs'.vfsFindFile path = some slot) (buf : ℕ → Sector) {maxLen : UInt64}
    (hmax : len ≤ maxLen) {k : ℕ} (hk : k < len.toNat)
    (hmeta : MetaSector ((fs₀.filetable slot).sectorOf k)) :
    byteAt (fs'.vfsReadFile path buf maxLen).2.1 k =
      (fs₀.updateEntry slot len.toUInt32 (sectorsFor len.toUInt32)).metaOn
        ((fs₀.filetable slot).sectorOf k) (VfsFileEntry.offsetOf k) := by
  obtain ⟨-, hbuf⟩ := h.readFile hfound buf hmax
  obtain ⟨hsame, -⟩ := h.short
  have hs : k / 512 < sectorCount len.toUInt32 := by
    unfold sectorCount
    omega
  rw [byteAt, hbuf _ hs]
  change fs'.disk.disk ((fs₀.filetable slot).sectorOf k) (VfsFileEntry.offsetOf k) = _
  rw [h.synced.metaOn hmeta, h.updated]
  rfl

/-! ## The law for every file -/

/-- Only a file that fits, with a sum that does not wrap, is appended to inside the buffer. -/
theorem vfsAppendFile_isSome (hdisk : fs.disk.NeverFails) (hfind : fs.vfsFindFile path = some i)
    {data : ℕ → UInt8} {len : UInt64} (hsize : (fs.filetable i).size.toNat ≤ 130560)
    (h : (fs.vfsAppendFile path data len).isSome = true) :
    (fs.filetable i).size.toNat ≤ 4096 ∧
      (fs.filetable i).size.toNat + len.toUInt32.toNat < 2 ^ 32 := by
  rw [vfsAppendFile, Option.isSome_map, appendRequest_isSome] at h
  rcases h i hfind with hwrap | ⟨hfits, hsum | ⟨-, hfault⟩⟩
  · omega
  · exact ⟨hfits, hsum⟩
  · exact absurd (hdisk _) hfault

/-- An append to an existing file keeps its law exactly if the file has at most 4096 bytes, the sum
of the lengths does not wrap, and no byte of it is lost to the metadata. -/
theorem append_law_iff (fs : VernisFs) (hdisk : fs.disk.NeverFails) (path : CStr)
    (i : Fin vfsMaxFiles) (hfind : fs.vfsFindFile path = some i)
    (hsize : (fs.filetable i).size.toNat ≤ 130560) (data : ℕ → UInt8) (len : UInt64) :
    fs.AppendLaw path i data len ↔ (fs.filetable i).size.toNat ≤ 4096 ∧
      (fs.filetable i).size.toNat + len.toUInt32.toNat < 2 ^ 32 ∧
        fs.AppendClear i data len.toUInt32 := by
  constructor
  · rintro ⟨n, fs', happend, hlaw⟩
    obtain ⟨hfits, hsum⟩ := vfsAppendFile_isSome hdisk hfind hsize (by rw [happend]; rfl)
    obtain ⟨d, fs'', happend', hfound, hw⟩ := vfsAppendFile_written hdisk hfind data hfits hsum
    obtain ⟨rfl, rfl⟩ := Prod.mk.inj (Option.some.inj (happend.symm.trans happend'))
    refine ⟨hfits, hsum, fun k hk hmeta => ?_⟩
    obtain ⟨-, -, hback⟩ := hlaw _ (by rw [UInt32.toNat_toUInt64])
    rw [← UInt32.toNat_toUInt64] at hk
    rw [← (hback.read (fun _ _ => 0) _ (UInt64.le_refl _)).2 k hk,
      hw.read_meta hfound _ (UInt64.le_refl _) hk hmeta, UInt32.toUInt32_toUInt64,
      setDisk_updateEntry]
    rfl
  · rintro ⟨hfits, hsum, hclear⟩
    obtain ⟨d, fs', happend, hfound, hw⟩ := vfsAppendFile_written hdisk hfind data hfits hsum
    obtain ⟨hle, -, hprefix⟩ := appendTotal_bounds hfits hsum
    refine ⟨_, fs', happend, fun m hm => ?_⟩
    obtain rfl : m = (appendTotal (fs.filetable i).size len.toUInt32).toUInt64 :=
      UInt64.toNat_inj.mp (by rw [UInt32.toNat_toUInt64]; exact (Int.ofNat.inj hm).symm)
    refine ⟨by rwa [UInt32.toNat_toUInt64], ?_, by rw [hfound]; rfl, fun buf maxLen hmax => ?_⟩
    · rw [UInt32.toNat_toUInt64]
      refine hprefix.trans ?_
      rw [UInt64.toNat_toUInt32]
      exact Nat.mod_le _ _
    · obtain ⟨hrc, -⟩ := hw.readFile hfound buf hmax
      refine ⟨hrc, fun k hk => ?_⟩
      by_cases hmeta : MetaSector ((fs.filetable i).sectorOf k)
      · rw [hw.read_meta hfound buf hmax hk hmeta, UInt32.toUInt32_toUInt64, setDisk_updateEntry]
        rw [UInt32.toNat_toUInt64] at hk
        exact hclear k hk hmeta
      · exact hw.read_clear hfound buf hmax hk hmeta

/-! ## A new file -/

/-- An empty volume after a write to a new file. -/
def volumeWith (len : UInt64) : VernisFs :=
  (emptyVolume.vfsWriteFile pathA UInt8.ofNat len).2

theorem volumeWith_returns {len : UInt64} (h : len.toNat ≤ 130560) :
    (emptyVolume.vfsWriteFile pathA UInt8.ofNat len).1 = len.toNat := by
  have hopen : (emptyVolume.openSlot pathA).isSome = true := by
    rw [openSlot_of_empty rfl (findSlot_emptyVolume _) emptySlot_emptyVolume]
    rfl
  have hlen : len.toUInt32.toNat = len.toNat := by
    rw [UInt64.toNat_toUInt32]
    omega
  have hsectors : ¬ 255 < sectorsFor len.toUInt32 := by
    rw [UInt32.lt_iff_toNat_lt, sectorsFor_toNat (by omega)]
    have h255 : (255 : UInt32).toNat = 255 := rfl
    unfold sectorCount
    omega
  rw [vfsWriteFile_rc (fun _ => rfl), if_pos ⟨hopen, hsectors⟩, cInt_of_lt (by omega), hlen]

/-- The file is found, has its length, and starts at the first data sector. -/
theorem volumeWith_file {len : UInt64} (h : len.toNat ≤ 130560) :
    (volumeWith len).disk.NeverFails ∧ (volumeWith len).vfsFindFile pathA = some 0 ∧
      ((volumeWith len).filetable 0).size.toNat = len.toNat ∧
      ((volumeWith len).filetable 0).startSector = 0 := by
  obtain ⟨slot, fs₀, hopen, hw⟩ := written_of_returns (fun _ => rfl) (volumeWith_returns h)
  have hfound := hw.found hopen (by decide)
  rw [openSlot_of_empty rfl (findSlot_emptyVolume _) emptySlot_emptyVolume] at hopen
  cases hopen
  have hentry := hw.entry
  refine ⟨hw.disk, hfound, ?_, ?_⟩
  · rw [volumeWith, hentry]
    exact hw.short.1
  · rw [volumeWith, hentry]
    dsimp only
    rw [setEntry_filetable_self]
    rfl

theorem append_law_600 : (volumeWith 600).AppendLaw pathA 0 (fun _ => 7) 100 := by
  obtain ⟨hdisk, hfind, hsize, hstart⟩ := volumeWith_file (show (600 : UInt64).toNat ≤ _ by decide)
  have h600 : (600 : UInt64).toNat = 600 := rfl
  have h100 : (100 : UInt64).toUInt32.toNat = 100 := rfl
  have hsum :
      ((volumeWith 600).filetable 0).size.toNat + (100 : UInt64).toUInt32.toNat < 2 ^ 32 := by
    omega
  have hfits : ((volumeWith 600).filetable 0).size.toNat ≤ 4096 := by omega
  refine (append_law_iff _ hdisk pathA 0 hfind (by omega) _ 100).mpr
    ⟨hfits, hsum, fun k hk hmeta => ?_⟩
  obtain ⟨-, htotal, -⟩ := appendTotal_bounds hfits hsum
  have hbehind := hmeta.2
  rw [VfsFileEntry.sectorOf, hstart, toNat_dataSector] at hbehind
  · omega
  · have hzero : (0 : UInt32).toNat = 0 := rfl
    omega

/-- One byte is appended to a file of 4097 bytes : nine sectors are read into a buffer of eight. -/
theorem not_append_law :
    emptyVolume.disk.NeverFails ∧ (emptyVolume.vfsWriteFile pathA UInt8.ofNat 4097).1 = 4097 ∧
      (volumeWith 4097).vfsFindFile pathA = some 0 ∧
      ¬ (volumeWith 4097).AppendLaw pathA 0 (fun _ => 7) 1 := by
  have hlen : (4097 : UInt64).toNat ≤ 130560 := by decide
  obtain ⟨hdisk, hfind, hsize, -⟩ := volumeWith_file hlen
  have h4097 : (4097 : UInt64).toNat = 4097 := rfl
  refine ⟨fun _ => rfl, volumeWith_returns hlen, hfind, ?_⟩
  rintro ⟨n, fs', happend, -⟩
  have hfits := vfsAppendFile_isSome hdisk hfind (by omega) (by rw [happend]; rfl)
  omega

end VernisFs

end VernisOS
