import VernisOS.Lib.Run
import VernisOS.VernisFsVolume

/-!
# Isolation of the files of VernisFS

A file that grows is written in place, over whatever file lies behind it. A call leaves
every other file alone in runs where no write runs into a neighbour (`vfs_isolation`). The
invariant is that the files in use own disjoint data sectors below the free pointer
(`Extents`); a slot whose `start_sector` is stale, or that a failed creation left behind,
owns none until it is written.
-/

open Run Slots

namespace VernisOS

/-! ## Extents -/

/-- No number is in both `[a, a + n)` and `[b, b + m)`. -/
def Apart (a n b m : ℕ) : Prop :=
  ∀ x, a ≤ x → x < a + n → b ≤ x → ¬ x < b + m

namespace VfsFileEntry

/-- First data sector of the file, relative to the data area. -/
def start (e : VfsFileEntry) : ℕ :=
  e.startSector.toNat

/-- Number of data sectors of the file. -/
def sectors (e : VfsFileEntry) : ℕ :=
  VernisFs.sectorCount e.size

end VfsFileEntry

/-- Files in use own disjoint data sectors below the free pointer. -/
structure Extents (fs : VernisFs) : Prop where
  apart : ∀ i j, i ≠ j → Occupied fs.filetable i → Occupied fs.filetable j →
    Apart (fs.filetable i).start (fs.filetable i).sectors
      (fs.filetable j).start (fs.filetable j).sectors
  below : ∀ i, Occupied fs.filetable i → 0 < (fs.filetable i).sectors →
    (fs.filetable i).start + (fs.filetable i).sectors ≤ fs.superblock.firstFreeSector.toNat

/-- A path that names a file still names one, and it reads the same. -/
def ReadsSame (fs fs' : VernisFs) (path : CStr) : Prop :=
  (fs.vfsFindFile path).isSome = true → (fs'.vfsFindFile path).isSome = true ∧
    ∀ buf maxLen, (fs'.vfsReadFile path buf maxLen).1 = (fs.vfsReadFile path buf maxLen).1 ∧
      (fs'.vfsReadFile path buf maxLen).2.1 = (fs.vfsReadFile path buf maxLen).2.1

/-- The call is defined and every other path still reads the same. -/
def Isolated (fs : VernisFs) (op : VfsOp) : Prop :=
  ∃ fs', vfsStep fs op = some fs' ∧
    ∀ path : CStr, path.chars ≠ op.path.chars → ReadsSame fs fs' path

/-- What isolation needs of a write of `len` bytes. Sector numbers and length do not wrap.
The sectors an existing file grows by are no other file's. A new file does not hide a file
of the same name behind it in the table; if it has too many sectors, the slot it stays in
has no length. -/
structure WriteApart (fs : VernisFs) (path : CStr) (len : UInt32) : Prop where
  existing : ∀ i, fs.vfsFindFile path = some i → VernisFs.sectorsFor len ≤ 255 →
    len.toNat + 511 < 2 ^ 32 ∧
    5125 + (fs.filetable i).start + VernisFs.sectorCount len ≤ 2 ^ 32 ∧
    ∀ j, j ≠ i → Occupied fs.filetable j →
      Apart ((fs.filetable i).start + (fs.filetable i).sectors)
        (VernisFs.sectorCount len - (fs.filetable i).sectors)
        (fs.filetable j).start (fs.filetable j).sectors
  visible : ∀ slot, Creates fs path slot →
    ∀ j, slot < j → ¬ Named fs.filetable j (path.chars.take 31)
  created : ∀ slot, Creates fs path slot → VernisFs.sectorsFor len ≤ 255 →
    len.toNat + 511 < 2 ^ 32 ∧
    5125 + fs.superblock.firstFreeSector.toNat + VernisFs.sectorCount len ≤ 2 ^ 32
  refused : ∀ slot, Creates fs path slot → 255 < VernisFs.sectorsFor len →
    (fs.filetable slot).size = 0

/-- The condition on a call under which it leaves the other files alone. -/
def KeepsApart (fs : VernisFs) : VfsOp → Prop
  | .write path _ len => WriteApart fs path len.toUInt32
  | .append path _ len => VernisFs.AppendDefined fs path len.toUInt32 ∧
    WriteApart fs path (fs.appendLen path len.toUInt32)
  | .mkdir path => ∀ slot, Creates fs path slot →
    ∀ j, slot < j → ¬ Named fs.filetable j (path.chars.take 31)
  | _ => True

/-- The invariant of isolation. -/
structure IsolationInv (fs : VernisFs) : Prop where
  extents : Extents fs
  fits : 5125 + fs.superblock.firstFreeSector.toNat ≤ 2 ^ 32
  disk : fs.disk.NeverFails

/-! ## Reads of the other files -/

/-- Only an entry that does not have the name changes, and if it has it afterwards, it
stands behind the one that is found. -/
theorem findSlot_update {t : Fin vfsMaxFiles → VfsFileEntry} {slot i : Fin vfsMaxFiles}
    {e : VfsFileEntry} {path : CStr} (h : VernisFs.findSlot t path = some i)
    (hold : ¬ Named t slot path.chars)
    (hnew : Named (Function.update t slot e) slot path.chars → i ≤ slot) :
    VernisFs.findSlot (Function.update t slot e) path = some i := by
  obtain ⟨hi, hmin⟩ := VernisFs.findSlot_eq_some.mp h
  have hne : i ≠ slot := by
    rintro rfl
    exact hold hi
  refine VernisFs.findSlot_eq_some.mpr ⟨?_, fun j hj => ?_⟩
  · rw [Named, Occupied, Function.update_of_ne hne]
    exact hi
  · by_cases hjs : j = slot
    · subst hjs
      exact hnew hj
    · rw [Named, Occupied, Function.update_of_ne hjs] at hj
      exact hmin j hj

/-- A file is read the same if its entry and its sectors stay. -/
theorem readsSame_of_frame {fs fs' : VernisFs} {path : CStr} (hb : fs.disk.NeverFails)
    (hb' : fs'.disk.NeverFails)
    (h : ∀ i, fs.vfsFindFile path = some i → fs'.vfsFindFile path = some i ∧
      (fs'.filetable i).startSector = (fs.filetable i).startSector ∧
      (fs'.filetable i).size = (fs.filetable i).size ∧
      ∀ a, VernisFs.DataSector (fs.filetable i).startSector (fs.filetable i).sectors a →
        fs'.disk.disk a = fs.disk.disk a) : ReadsSame fs fs' path := by
  intro hsome
  obtain ⟨i, hi⟩ := Option.isSome_iff_exists.mp hsome
  obtain ⟨hi', hstart, hsize, hdisk⟩ := h i hi
  refine ⟨by rw [hi']; rfl, fun buf maxLen => ?_⟩
  obtain ⟨n, hn, hnsize, hrc, hbuf⟩ := VernisFs.vfsReadFile_spec hi hb buf maxLen
  obtain ⟨n', -, hnsize', hrc', hbuf'⟩ := VernisFs.vfsReadFile_spec hi' hb' buf maxLen
  rw [hsize, ← hnsize] at hnsize'
  subst hnsize'
  refine ⟨hrc'.trans hrc.symm, ?_⟩
  rw [hbuf, hbuf', hstart]
  funext s
  split
  · next hs =>
    refine hdisk _ ⟨s, ?_, rfl⟩
    have hle := VernisFs.readSectors_le n'
    have hmono := VernisFs.sectorCount_mono hn
    exact lt_of_lt_of_le hs (hle.trans hmono)
  · rfl

theorem ReadsSame.trans {fs fs' fs'' : VernisFs} {path : CStr} (h : ReadsSame fs fs' path)
    (h' : ReadsSame fs' fs'' path) : ReadsSame fs fs'' path := by
  intro hsome
  obtain ⟨hsome', hsame⟩ := h hsome
  obtain ⟨hsome'', hsame'⟩ := h' hsome'
  exact ⟨hsome'', fun buf maxLen =>
    ⟨(hsame' buf maxLen).1.trans (hsame buf maxLen).1,
      (hsame' buf maxLen).2.trans (hsame buf maxLen).2⟩⟩

theorem ReadsSame.refl (fs : VernisFs) (path : CStr) : ReadsSame fs fs path :=
  fun h => ⟨h, fun _ _ => ⟨rfl, rfl⟩⟩

namespace IsolationInv

variable {fs fs' : VernisFs}

/-- Where the data sectors of a file are. -/
theorem toNat_of_dataSector (h : IsolationInv fs) {i : Fin vfsMaxFiles}
    (hi : Occupied fs.filetable i) {a : UInt32}
    (ha : VernisFs.DataSector (fs.filetable i).startSector (fs.filetable i).sectors a) :
    ∃ x, (fs.filetable i).start ≤ x ∧ x < (fs.filetable i).start + (fs.filetable i).sectors ∧
      a.toNat = 5125 + x := by
  obtain ⟨k, hk, rfl⟩ := ha
  have hbelow := h.extents.below i hi (by omega)
  have hfits := h.fits
  have hstart : (fs.filetable i).startSector.toNat = (fs.filetable i).start := rfl
  refine ⟨(fs.filetable i).start + k, by omega, by omega, ?_⟩
  rw [VernisFs.toNat_dataSector (by omega), hstart]
  omega

/-- A write misses the sectors of a file it is apart from. -/
theorem not_writeRegion (h : IsolationInv fs) {i : Fin vfsMaxFiles}
    (hi : Occupied fs.filetable i) {a start len : UInt32}
    (ha : VernisFs.DataSector (fs.filetable i).startSector (fs.filetable i).sectors a)
    (hw : VernisFs.sectorsFor len ≤ 255 →
      5125 + start.toNat + VernisFs.sectorCount len ≤ 2 ^ 32 ∧
      Apart start.toNat (VernisFs.sectorCount len)
        (fs.filetable i).start (fs.filetable i).sectors) :
    ¬ VernisFs.WriteRegion start len a := by
  obtain ⟨x, hlo, hhi, hx⟩ := h.toNat_of_dataSector hi ha
  rintro (hmeta | ⟨h255, k, hk, rfl⟩)
  · have := hmeta.2
    omega
  · obtain ⟨hfits, hapart⟩ := hw h255
    rw [VernisFs.toNat_dataSector (by omega)] at hx
    obtain rfl : x = start.toNat + k := by omega
    exact hapart _ (by omega) (by omega) hlo hhi

theorem not_metaSector (h : IsolationInv fs) {i : Fin vfsMaxFiles}
    (hi : Occupied fs.filetable i) {a : UInt32}
    (ha : VernisFs.DataSector (fs.filetable i).startSector (fs.filetable i).sectors a) :
    ¬ VernisFs.MetaSector a := by
  obtain ⟨x, -, -, hx⟩ := h.toNat_of_dataSector hi ha
  intro hmeta
  have := hmeta.2
  omega

/-- The other files read the same after one entry has changed and sectors that are not
theirs were written. -/
theorem readsSame_update (h : IsolationInv fs) {slot : Fin vfsMaxFiles} {e : VfsFileEntry}
    {R : UInt32 → Prop} {path : CStr} (hready : fs'.ready = fs.ready)
    (ht : fs'.filetable = Function.update fs.filetable slot e)
    (hw : Backend.Wrote fs.disk fs'.disk R) (hold : ¬ Named fs.filetable slot path.chars)
    (hnew : ∀ i, VernisFs.findSlot fs.filetable path = some i →
      Named (Function.update fs.filetable slot e) slot path.chars → i ≤ slot)
    (hR : ∀ i a, i ≠ slot → Occupied fs.filetable i →
      VernisFs.DataSector (fs.filetable i).startSector (fs.filetable i).sectors a → ¬ R a) :
    ReadsSame fs fs' path := by
  refine readsSame_of_frame h.disk (hw.neverFails h.disk) fun i hi => ?_
  obtain ⟨hr, hfind⟩ := VernisFs.vfsFindFile_some hi
  have hnamed := (VernisFs.findSlot_eq_some.mp hfind).1
  have hne : i ≠ slot := by
    rintro rfl
    exact hold hnamed
  have hfind' := findSlot_update hfind hold (hnew i hfind)
  refine ⟨?_, ?_, ?_, fun a ha => hw.disk a (hR i a hne hnamed.1 ha)⟩
  · rw [VernisFs.vfsFindFile, hready, hr, if_neg (by decide), ht]
    exact hfind'
  · rw [ht, Function.update_of_ne hne]
  · rw [ht, Function.update_of_ne hne]

/-- The extents after one entry has changed. -/
theorem extents_update (h : IsolationInv fs) {slot : Fin vfsMaxFiles} {e : VfsFileEntry}
    (ht : fs'.filetable = Function.update fs.filetable slot e)
    (hfree : fs.superblock.firstFreeSector.toNat ≤ fs'.superblock.firstFreeSector.toNat)
    (hbelow : 0 < e.sectors → e.start + e.sectors ≤ fs'.superblock.firstFreeSector.toNat)
    (hapart : ∀ j, j ≠ slot → Occupied fs.filetable j →
      Apart e.start e.sectors (fs.filetable j).start (fs.filetable j).sectors) :
    Extents fs' := by
  have hself : fs'.filetable slot = e := by simp [ht]
  have hother : ∀ j, j ≠ slot → fs'.filetable j = fs.filetable j := by
    intro j hj
    simp [ht, hj]
  have hocc : ∀ j, j ≠ slot → Occupied fs'.filetable j → Occupied fs.filetable j := by
    intro j hj hj'
    rwa [Occupied, hother j hj] at hj'
  refine ⟨fun i j hij hi hj => ?_, fun i hi hpos => ?_⟩
  · by_cases his : i = slot <;> by_cases hjs : j = slot
    · exact absurd (his.trans hjs.symm) hij
    · rw [his, hself, hother j hjs]
      exact hapart j hjs (hocc j hjs hj)
    · rw [hjs, hself, hother i his]
      intro x hlo hhi hlo' hhi'
      exact hapart i his (hocc i his hi) x hlo' hhi' hlo hhi
    · rw [hother i his, hother j hjs]
      exact h.extents.apart i j hij (hocc i his hi) (hocc j hjs hj)
  · by_cases his : i = slot
    · rw [his, hself] at hpos ⊢
      exact hbelow hpos
    · rw [hother i his] at hpos ⊢
      exact (h.extents.below i (hocc i his hi) hpos).trans hfree

/-- A change of the disk alone, outside every file. -/
theorem setDisk (h : IsolationInv fs) {d : Backend} {R : UInt32 → Prop}
    (hw : Backend.Wrote fs.disk d R) : IsolationInv (fs.setDisk d) :=
  ⟨⟨h.extents.apart, h.extents.below⟩, h.fits, hw.neverFails h.disk⟩

theorem readsSame_setDisk (h : IsolationInv fs) {d : Backend} {R : UInt32 → Prop} (path : CStr)
    (hw : Backend.Wrote fs.disk d R)
    (hR : ∀ i a, Occupied fs.filetable i →
      VernisFs.DataSector (fs.filetable i).startSector (fs.filetable i).sectors a → ¬ R a) :
    ReadsSame fs (fs.setDisk d) path := by
  refine readsSame_of_frame h.disk (hw.neverFails h.disk) fun i hi => ?_
  have hocc := (VernisFs.findSlot_eq_some.mp (VernisFs.vfsFindFile_some hi).2).1.1
  exact ⟨hi, rfl, rfl, fun a ha => hw.disk a (hR i a hocc ha)⟩

end IsolationInv

/-! ## One call -/

/-- What a call has to keep. -/
def KeepsOthers (fs fs' : VernisFs) (path : CStr) : Prop :=
  IsolationInv fs' ∧ ∀ other : CStr, other.chars ≠ path.chars → ReadsSame fs fs' other

namespace IsolationInv

variable {fs : VernisFs}

theorem writeFails_iff (h : IsolationInv fs) (len : UInt32) :
    VernisFs.WriteFails fs.disk len ↔ 255 < VernisFs.sectorsFor len := by
  refine ⟨?_, Or.inl⟩
  rintro (hbig | ⟨k, -, hne⟩)
  · exact hbig
  · exact absurd (h.disk _) hne

/-- The free pointer after a write of `n` sectors at `start`, where nothing wraps. -/
theorem firstFree_write (fs : VernisFs) (slot : Fin vfsMaxFiles) {len : UInt32}
    (hlen : len.toNat + 511 < 2 ^ 32)
    (hfits : 5125 + (fs.filetable slot).startSector.toNat + VernisFs.sectorCount len ≤ 2 ^ 32) :
    (fs.updateEntry slot len (VernisFs.sectorsFor len)).superblock.firstFreeSector.toNat =
      max fs.superblock.firstFreeSector.toNat
        ((fs.filetable slot).startSector.toNat + VernisFs.sectorCount len) := by
  rw [VernisFs.updateEntry_firstFree, UInt32.toNat_add, VernisFs.sectorsFor_toNat hlen,
    Nat.mod_eq_of_lt (by omega)]

/-- A write to an existing file. -/
theorem write_existing (h : IsolationInv fs) {path : CStr} {len : UInt32}
    {slot : Fin vfsMaxFiles} {d : Backend} (hr : fs.ready = true)
    (hfind : VernisFs.findSlot fs.filetable path = some slot) (hap : WriteApart fs path len)
    (h255 : VernisFs.sectorsFor len ≤ 255)
    (hw : Backend.Wrote fs.disk d
      (VernisFs.WriteRegion (fs.filetable slot).startSector len)) :
    KeepsOthers fs ((fs.updateEntry slot len (VernisFs.sectorsFor len)).setDisk d) path := by
  have hvfs : fs.vfsFindFile path = some slot := by
    rw [VernisFs.vfsFindFile, hr, if_neg (by decide)]
    exact hfind
  obtain ⟨hocc, hname⟩ := (VernisFs.findSlot_eq_some.mp hfind).1
  obtain ⟨hlen, hfits, hgrow⟩ := hap.existing slot hvfs h255
  have hfree := firstFree_write fs slot hlen hfits
  have hstart : (fs.filetable slot).startSector.toNat = (fs.filetable slot).start := rfl
  -- the sectors written are the file's own, or among those it grows by
  have hapart : ∀ j, j ≠ slot → Occupied fs.filetable j →
      Apart (fs.filetable slot).start (VernisFs.sectorCount len)
        (fs.filetable j).start (fs.filetable j).sectors := by
    intro j hj hoccj x hlo hhi hlo' hhi'
    by_cases hx : x < (fs.filetable slot).start + (fs.filetable slot).sectors
    · exact h.extents.apart slot j hj.symm hocc hoccj x hlo hx hlo' hhi'
    · exact hgrow j hj hoccj x (by omega) (by omega) hlo' hhi'
  have ht := VernisFs.updateEntry_filetable fs slot len (VernisFs.sectorsFor len)
  refine ⟨⟨?_, ?_, hw.neverFails h.disk⟩, fun other hne => ?_⟩
  · refine h.extents_update ht ?_ (fun _ => ?_) hapart
    · rw [VernisFs.setDisk_superblock, hfree]
      exact le_max_left _ _
    · rw [VernisFs.setDisk_superblock, hfree]
      exact le_max_right _ _
  · have hold := h.fits
    rw [VernisFs.setDisk_superblock, hfree]
    omega
  · refine h.readsSame_update ?_ ht hw ?_ ?_ ?_
    · rw [VernisFs.setDisk_ready, VernisFs.updateEntry_ready]
    · exact fun hn => hne (hn.2.symm.trans hname)
    · rintro i - ⟨-, hn⟩
      rw [Function.update_self] at hn
      exact absurd (hn.symm.trans hname) hne
    · intro i a hi hocci ha
      exact h.not_writeRegion hocci ha fun _ => ⟨hfits, hapart i hi hocci⟩

/-- The entry of a new file, whatever its length : no other file loses its name. -/
theorem visible_create {path other : CStr} {slot i : Fin vfsMaxFiles} {e : VfsFileEntry}
    (hvis : ∀ j, slot < j → ¬ Named fs.filetable j (path.chars.take 31))
    (hname : e.filename = VfsFilename.ofPath path)
    (hi : VernisFs.findSlot fs.filetable other = some i)
    (hn : Named (Function.update fs.filetable slot e) slot other.chars) : i ≤ slot := by
  have hstr : path.chars.take 31 = other.chars := by
    rw [← VfsFilename.str_ofPath, ← hname]
    have := hn.2
    rwa [Function.update_self] at this
  by_contra hlt
  refine hvis i (not_le.mp hlt) ?_
  rw [hstr]
  exact (VernisFs.findSlot_eq_some.mp hi).1

/-- A write that makes a new file. -/
theorem write_created (h : IsolationInv fs) {path : CStr} {len : UInt32}
    {slot : Fin vfsMaxFiles} {d : Backend} (hc : Creates fs path slot)
    (hap : WriteApart fs path len) (h255 : VernisFs.sectorsFor len ≤ 255)
    (hw : Backend.Wrote fs.disk d
      (VernisFs.WriteRegion fs.superblock.firstFreeSector len)) :
    KeepsOthers fs (((fs.setEntry slot (fs.newEntry slot path)).updateEntry slot len
      (VernisFs.sectorsFor len)).setDisk d) path := by
  obtain ⟨hlen, hfits⟩ := hap.created slot hc h255
  have hslot := VernisFs.emptySlot_some hc.2.2
  have hstart : ((fs.setEntry slot (fs.newEntry slot path)).filetable slot).startSector =
      fs.superblock.firstFreeSector := by
    rw [VernisFs.setEntry_filetable_self]
    rfl
  have hfree := firstFree_write (fs.setEntry slot (fs.newEntry slot path)) slot hlen
    (by rw [hstart]; exact hfits)
  rw [hstart, VernisFs.setEntry_superblock] at hfree
  have ht : (((fs.setEntry slot (fs.newEntry slot path)).updateEntry slot len
      (VernisFs.sectorsFor len)).setDisk d).filetable =
      Function.update fs.filetable slot { fs.newEntry slot path with size := len } := by
    rw [VernisFs.setDisk_filetable, VernisFs.updateEntry_filetable]
    simp [VernisFs.setEntry]
  -- the new file starts where every file in use has ended
  have hapart : ∀ j, j ≠ slot → Occupied fs.filetable j →
      Apart fs.superblock.firstFreeSector.toNat (VernisFs.sectorCount len)
        (fs.filetable j).start (fs.filetable j).sectors := by
    intro j _ hoccj x hlo _ hlo' hhi'
    have := h.extents.below j hoccj (by omega)
    omega
  refine ⟨⟨?_, ?_, hw.neverFails h.disk⟩, fun other hne => ?_⟩
  · refine h.extents_update ht ?_ (fun _ => ?_) hapart
    · rw [VernisFs.setDisk_superblock, hfree]
      exact le_max_left _ _
    · rw [VernisFs.setDisk_superblock, hfree]
      exact le_max_right _ _
  · have hold := h.fits
    rw [VernisFs.setDisk_superblock, hfree]
    omega
  · refine h.readsSame_update ?_ ht hw (fun hn => hslot hn.1) ?_ ?_
    · rw [VernisFs.setDisk_ready, VernisFs.updateEntry_ready]
      rfl
    · exact fun i hi hn => visible_create (hap.visible slot hc) rfl hi hn
    · intro i a hi hocci ha
      exact h.not_writeRegion hocci ha fun _ => ⟨hfits, hapart i hi hocci⟩

/-- A new entry that owns no sector, with nothing but metadata written. -/
theorem create_empty (h : IsolationInv fs) {fs' : VernisFs} {path : CStr}
    {slot : Fin vfsMaxFiles} {e : VfsFileEntry} (hc : Creates fs path slot)
    (hvis : ∀ j, slot < j → ¬ Named fs.filetable j (path.chars.take 31))
    (hready : fs'.ready = fs.ready)
    (ht : fs'.filetable = Function.update fs.filetable slot e)
    (hfree : fs'.superblock.firstFreeSector = fs.superblock.firstFreeSector)
    (hw : Backend.Wrote fs.disk fs'.disk VernisFs.MetaSector)
    (hname : e.filename = VfsFilename.ofPath path) (hsize : e.size = 0) :
    KeepsOthers fs fs' path := by
  have hnone : e.sectors = 0 := by
    rw [VfsFileEntry.sectors, hsize]
    rfl
  refine ⟨⟨?_, by rw [hfree]; exact h.fits, hw.neverFails h.disk⟩, fun other hne => ?_⟩
  · refine h.extents_update ht (by rw [hfree]) (fun hpos => by omega) fun j _ _ x hlo hhi => ?_
    omega
  · refine h.readsSame_update hready ht hw
      (fun hn => VernisFs.emptySlot_some hc.2.2 hn.1) ?_ ?_
    · exact fun i hi hn => visible_create hvis hname hi hn
    · exact fun i a _ hocci ha => h.not_metaSector hocci ha

/-- A write whose sectors are apart from the other files. -/
theorem write (h : IsolationInv fs) (path : CStr) (data : ℕ → UInt8) (len : UInt64)
    (hap : WriteApart fs path len.toUInt32) :
    KeepsOthers fs (fs.vfsWriteFile path data len).2 path := by
  rcases fs.vfsWriteFile_cases path data len with ⟨-, he⟩ | ⟨slot, fs₀, d, hopen, hw, hcase⟩
  · rw [he]
    exact ⟨h, fun other _ => ReadsSame.refl fs other⟩
  have hbig : 255 < VernisFs.sectorsFor len.toUInt32 →
      Backend.Wrote fs.disk d VernisFs.MetaSector := by
    intro hlt
    refine hw.mono ?_
    rintro a (ha | ⟨hle, -⟩)
    · exact ha
    · exact absurd hlt (UInt32.not_lt.mpr hle)
  rw [h.writeFails_iff, UInt32.not_lt] at hcase
  obtain ⟨hr, ⟨hfind, rfl⟩ | ⟨hfind, hempty, rfl⟩⟩ := VernisFs.openSlot_some hopen
  · rcases hcase with ⟨hlt, he⟩ | ⟨h255, he⟩
    · rw [he]
      exact ⟨h.setDisk hw, fun other _ => h.readsSame_setDisk other (hbig hlt)
        fun i a hocc ha => h.not_metaSector hocc ha⟩
    · rw [he]
      exact h.write_existing hr hfind hap h255 hw
  · have hc : Creates fs path slot := ⟨hr, hfind, hempty⟩
    rcases hcase with ⟨hlt, he⟩ | ⟨h255, he⟩
    · rw [he]
      exact h.create_empty hc (hap.visible slot hc) rfl rfl rfl (hbig hlt) rfl
        (hap.refused slot hc hlt)
    · rw [he]
      rw [VernisFs.setEntry_filetable_self] at hw
      exact h.write_created hc hap h255 hw

/-- The entry of `path` is dropped, or changes in nothing a read depends on. -/
theorem touch (h : IsolationInv fs) {fs' : VernisFs} {path : CStr} {slot : Fin vfsMaxFiles}
    {e : VfsFileEntry} (hfind : VernisFs.findSlot fs.filetable path = some slot)
    (hready : fs'.ready = fs.ready)
    (ht : fs'.filetable = Function.update fs.filetable slot e)
    (hfree : fs'.superblock.firstFreeSector = fs.superblock.firstFreeSector)
    (hw : Backend.Wrote fs.disk fs'.disk VernisFs.MetaSector)
    (he : e.type = vfsTypeEmpty ∧ e.sectors = 0 ∨ e.filename = (fs.filetable slot).filename ∧
      e.start = (fs.filetable slot).start ∧ e.sectors = (fs.filetable slot).sectors) :
    KeepsOthers fs fs' path := by
  obtain ⟨hocc, hname⟩ := (VernisFs.findSlot_eq_some.mp hfind).1
  refine ⟨⟨?_, by rw [hfree]; exact h.fits, hw.neverFails h.disk⟩, fun other hne => ?_⟩
  · refine h.extents_update ht (by rw [hfree]) (fun hpos => ?_) fun j hj hoccj => ?_
    · rcases he with ⟨-, hzero⟩ | ⟨-, hstart, hsec⟩
      · omega
      · rw [hfree, hstart, hsec]
        exact h.extents.below slot hocc (by omega)
    · rcases he with ⟨-, hzero⟩ | ⟨-, hstart, hsec⟩
      · intro x hlo hhi
        omega
      · rw [hstart, hsec]
        exact h.extents.apart slot j hj.symm hocc hoccj
  · refine h.readsSame_update hready ht hw (fun hn => hne (hn.2.symm.trans hname)) ?_ ?_
    · rintro i - ⟨hocc', hn⟩
      rw [Occupied, Function.update_self] at hocc'
      rw [Function.update_self] at hn
      rcases he with ⟨hempty, -⟩ | ⟨hfile, -⟩
      · exact absurd hempty hocc'
      · rw [hfile] at hn
        exact absurd (hn.symm.trans hname) hne
    · exact fun i a _ hocci ha => h.not_metaSector hocci ha

/-- One call that meets its condition is defined and keeps the other files. -/
theorem step (h : IsolationInv fs) (op : VfsOp) (hk : KeepsApart fs op) :
    ∃ fs', vfsStep fs op = some fs' ∧ KeepsOthers fs fs' op.path := by
  cases op with
  | write path data len => exact ⟨_, rfl, h.write path data len hk⟩
  | append path data len =>
    obtain ⟨fs', hstep⟩ := (fs.vfsAppendFile_defined path data len).mpr hk.1
    refine ⟨fs', hstep, ?_⟩
    obtain ⟨d, hw, -, hcase⟩ := VernisFs.vfsAppendFile_step hstep
    have hd := h.setDisk hw
    have hread : ∀ other : CStr, ReadsSame fs (fs.setDisk d) other := fun other =>
      h.readsSame_setDisk other hw fun _ _ _ _ hfalse => hfalse
    rcases hcase with ⟨-, rfl⟩ | ⟨data', len', hlen, rfl⟩
    · exact ⟨hd, fun other _ => hread other⟩
    · have hap := hk.2
      rw [← hlen] at hap
      obtain ⟨hinv, hothers⟩ := hd.write path data' len'
        ⟨hap.existing, hap.visible, hap.created, hap.refused⟩
      exact ⟨hinv, fun other hne => (hread other).trans (hothers other hne)⟩
  | mkdir path =>
    refine ⟨_, rfl, ?_⟩
    rcases fs.vfsMkdir_cases path with ⟨-, he⟩ | ⟨slot, d, hr, hfind, hempty, hw, he⟩
    · rw [he]
      exact ⟨h, fun other _ => ReadsSame.refl fs other⟩
    · rw [he]
      have hc : Creates fs path slot := ⟨hr, hfind, hempty⟩
      exact h.create_empty hc (hk slot hc) rfl rfl rfl hw rfl rfl
  | delete path =>
    refine ⟨_, rfl, ?_⟩
    rcases fs.vfsDeleteFile_cases path with he | ⟨slot, d, -, hfind, hw, he⟩
    · rw [he]
      exact ⟨h, fun other _ => ReadsSame.refl fs other⟩
    · rw [he]
      refine h.touch hfind ?_ (VernisFs.deleted_filetable fs slot) ?_ hw (Or.inl ⟨rfl, rfl⟩)
      · rw [VernisFs.setDisk_ready, VernisFs.deleted]
        split <;> rfl
      · rw [VernisFs.setDisk_superblock, VernisFs.deleted]
        split <;> rfl
  | chmod path mode =>
    refine ⟨_, rfl, ?_⟩
    rcases fs.vfsChmod_cases path mode with he | ⟨slot, d, m, u, g, hfind, hw, he⟩
    · rw [he]
      exact ⟨h, fun other _ => ReadsSame.refl fs other⟩
    · rw [he]
      exact h.touch (VernisFs.vfsFindFile_some hfind).2 rfl rfl rfl hw (Or.inr ⟨rfl, rfl, rfl⟩)
  | chown path uid gid =>
    refine ⟨_, rfl, ?_⟩
    rcases fs.vfsChown_cases path uid gid with he | ⟨slot, d, m, u, g, hfind, hw, he⟩
    · rw [he]
      exact ⟨h, fun other _ => ReadsSame.refl fs other⟩
    · rw [he]
      exact h.touch (VernisFs.vfsFindFile_some hfind).2 rfl rfl rfl hw (Or.inr ⟨rfl, rfl, rfl⟩)

end IsolationInv

/-! ## Runs -/

/-- From files with disjoint sectors, on a disk that never fails, every call of a run leaves
the files of the other paths as they were, if every call meets `KeepsApart`. -/
theorem vfs_isolation (fs : VernisFs) (hext : Extents fs) (hdisk : fs.disk.NeverFails)
    (hfits : 5125 + fs.superblock.firstFreeSector.toNat ≤ 2 ^ 32) (ops : List VfsOp)
    (hkeep : Along vfsStep KeepsApart fs ops) : Along vfsStep Isolated fs ops := by
  refine Along.mono_inv (I := IsolationInv) ?_ ?_ ops fs ⟨hext, hfits, hdisk⟩ hkeep
  · intro fs op fs' h hk hstep
    obtain ⟨fs'', hstep', hothers⟩ := h.step op hk
    obtain rfl := Option.some.inj (hstep'.symm.trans hstep)
    exact hothers.1
  · intro fs op h hk
    obtain ⟨fs', hstep, hothers⟩ := h.step op hk
    exact ⟨fs', hstep, hothers.2⟩

/-- An entry of `size` bytes at sector `start` with the name `/c`. -/
def smallFile (c : UInt8) (start size : UInt32) (hc : c ≠ 0) : VfsFileEntry :=
  { VfsFileEntry.zero with
    filename := VfsFilename.ofPath ⟨[47, c], by simp [hc.symm]⟩
    startSector := start
    size := size
    type := vfsTypeRegular }

/-- A volume with `/a` in data sector 0 and `/b` in data sector 1, one byte each. -/
def twoFiles : VernisFs :=
  ⟨⟨0x53465600, 1, 2, 2048, 2, Vector.replicate 16 0⟩,
    fun i => if i = 0 then smallFile 97 0 1 (by decide) else
      if i = 1 then smallFile 98 1 1 (by decide) else VfsFileEntry.zero, true, zeroDisk⟩

theorem occupied_twoFiles {i : Fin vfsMaxFiles} (hi : Occupied twoFiles.filetable i) :
    i.val < 2 ∧ (twoFiles.filetable i).start = i.val ∧ (twoFiles.filetable i).sectors = 1 := by
  by_cases h0 : i = 0
  · subst h0
    decide
  by_cases h1 : i = 1
  · subst h1
    decide
  · refine absurd ?_ hi
    simp [twoFiles, h0, h1, VfsFileEntry.zero, vfsTypeEmpty]

theorem extents_twoFiles : Extents twoFiles := by
  refine ⟨fun i j hij hi hj x hlo hhi hlo' hhi' => ?_, fun i hi _ => ?_⟩
  · obtain ⟨-, hs, hn⟩ := occupied_twoFiles hi
    obtain ⟨-, hs', hn'⟩ := occupied_twoFiles hj
    exact hij (Fin.ext (by omega))
  · obtain ⟨hlt, hs, hn⟩ := occupied_twoFiles hi
    rw [hs, hn]
    exact hlt

theorem findSlot_twoFiles : VernisFs.findSlot twoFiles.filetable VernisFs.pathA = some 0 := by
  decide +kernel

theorem writeApart_twoFiles : WriteApart twoFiles VernisFs.pathA 1 := by
  refine ⟨?_, ?_, ?_, ?_⟩
  · intro i hi _
    obtain rfl := Option.some.inj
      (findSlot_twoFiles.symm.trans (VernisFs.vfsFindFile_some hi).2)
    refine ⟨by decide, by decide, fun j _ _ x hlo hhi => ?_⟩
    have hgrow : VernisFs.sectorCount 1 - (twoFiles.filetable 0).sectors = 0 := by decide
    omega
  all_goals
    rintro slot ⟨-, hfind, -⟩
    rw [findSlot_twoFiles] at hfind
    cases hfind

/-- `/a` is overwritten with another byte. -/
theorem vfs_isolation_twoFiles :
    Extents twoFiles ∧ twoFiles.disk.NeverFails ∧
      Along vfsStep Isolated twoFiles [.write VernisFs.pathA (fun _ => 1) 1] := by
  have hdisk : twoFiles.disk.NeverFails := fun _ => rfl
  exact ⟨extents_twoFiles, hdisk, vfs_isolation _ extents_twoFiles hdisk (by decide) _
    ⟨writeApart_twoFiles, fun _ _ => trivial⟩⟩

/-- The path `/b`. -/
def pathB : CStr :=
  ⟨[47, 98], by decide⟩

/-- `/a` grows to two sectors, over the byte of `/b`. -/
theorem vfs_isolation_overrun :
    Extents twoFiles ∧ twoFiles.disk.NeverFails ∧
      ¬ Along vfsStep Isolated twoFiles [.write VernisFs.pathA (fun _ => 1) 513] := by
  refine ⟨extents_twoFiles, fun _ => rfl, ?_⟩
  rintro ⟨⟨fs', hstep, hothers⟩, -⟩
  obtain rfl := Option.some.inj hstep
  obtain ⟨-, hsame⟩ := hothers pathB (by decide) (by decide +kernel)
  have hbyte := congrFun (congrFun (hsame (fun _ _ => 0) 1).2 0) 0
  revert hbyte
  decide +kernel

end VernisOS
