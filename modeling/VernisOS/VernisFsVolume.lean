import VernisOS.Lib.Run
import VernisOS.VernisFsOps
import VernisOS.VernisFsTable

/-!
# The end of the volume

Space is given out at `first_free_sector` and never taken back, and a file that grows is
written in place. Neither is compared with `total_data_sectors`, so the sectors written are
those of the volume in runs whose writes end inside it (`vfs_writes_inside`), and a new
file on a full volume is written behind it (`vfs_writes_outside`).
-/

open Run Slots

namespace VernisOS

namespace VernisFs

/-- The first absolute data sector. -/
theorem toNat_dataStart : (vfsStartSector + vfsDataSector).toNat = 5125 := rfl

/-- A data sector whose number does not wrap. -/
theorem toNat_dataSector {start : UInt32} {k : ℕ} (h : 5125 + start.toNat + k < 2 ^ 32) :
    (vfsStartSector + vfsDataSector + start + UInt32.ofNat k).toNat = 5125 + start.toNat + k := by
  rw [UInt32.toNat_add, UInt32.toNat_add, toNat_dataStart, UInt32.toNat_ofNat']
  omega

@[simp] theorem setEntry_superblock (fs : VernisFs) (i : Fin vfsMaxFiles) (e : VfsFileEntry) :
    (fs.setEntry i e).superblock = fs.superblock := rfl

@[simp] theorem setEntry_filetable_self (fs : VernisFs) (i : Fin vfsMaxFiles)
    (e : VfsFileEntry) : (fs.setEntry i e).filetable i = e := by
  simp [setEntry]

theorem openSlot_superblock {fs fs₀ : VernisFs} {path : CStr} {slot : Fin vfsMaxFiles}
    (h : fs.openSlot path = some (slot, fs₀)) : fs₀.superblock = fs.superblock := by
  obtain ⟨-, ⟨-, rfl⟩ | ⟨-, -, rfl⟩⟩ := openSlot_some h
  · rfl
  · rfl

/-- Every sector handed to the disk write function so far is one of the volume's. -/
def LogInside (fs : VernisFs) : Prop :=
  ∀ e ∈ fs.disk.log, ∀ k < e.2, 5120 ≤ (e.1 + UInt32.ofNat k).toNat ∧
    (e.1 + UInt32.ofNat k).toNat < 5125 + fs.superblock.totalDataSectors.toNat

/-- A write that runs past `first_free_sector` ends inside the volume. -/
def WriteStays (fs : VernisFs) (path : CStr) (len : UInt32) : Prop :=
  ∀ slot fs₀, fs.openSlot path = some (slot, fs₀) → sectorsFor len ≤ 255 →
    fs.superblock.firstFreeSector.toNat <
      (fs₀.filetable slot).startSector.toNat + sectorCount len →
    (fs₀.filetable slot).startSector.toNat + sectorCount len ≤
      fs.superblock.totalDataSectors.toNat

theorem WriteStays.setDisk {fs : VernisFs} {path : CStr} {len : UInt32}
    (h : fs.WriteStays path len) (d : Backend) : (fs.setDisk d).WriteStays path len := by
  intro slot fs₀ hopen
  obtain ⟨hr, ⟨hfind, rfl⟩ | ⟨hfind, hempty, rfl⟩⟩ := openSlot_some hopen
  · have hopen' : fs.openSlot path = some (slot, fs) := openSlot_of_found hr hfind
    exact h slot fs hopen'
  · have hopen' : fs.openSlot path = some (slot, fs.setEntry slot (fs.newEntry slot path)) :=
      openSlot_of_empty hr hfind hempty
    exact h slot (fs.setEntry slot (fs.newEntry slot path)) hopen'

/-- The call is defined, and what it writes stays inside the volume. -/
def StaysInside (fs : VernisFs) : VfsOp → Prop
  | .write path _ len => fs.WriteStays path len.toUInt32
  | .append path _ len => AppendDefined fs path len.toUInt32 ∧
    fs.WriteStays path (fs.appendLen path len.toUInt32)
  | _ => True

/-- The invariant : the free pointer is inside the volume, whose sectors have numbers of 32
bits, and so is every sector written. -/
structure Inside (fs : VernisFs) : Prop where
  free : fs.superblock.firstFreeSector.toNat ≤ fs.superblock.totalDataSectors.toNat
  fits : 5125 + fs.superblock.totalDataSectors.toNat ≤ 2 ^ 32
  log : fs.LogInside

/-- The invariant after calls that wrote in `R`, if `R` is inside. -/
theorem Inside.wrote {fs fs' : VernisFs} {R : UInt32 → Prop} (h : fs.Inside)
    (hw : Backend.Wrote fs.disk fs'.disk R)
    (htotal : fs'.superblock.totalDataSectors = fs.superblock.totalDataSectors)
    (hfree : fs'.superblock.firstFreeSector.toNat ≤ fs.superblock.totalDataSectors.toNat)
    (hR : ∀ a, R a → 5120 ≤ a.toNat ∧
      a.toNat < 5125 + fs.superblock.totalDataSectors.toNat) : fs'.Inside := by
  refine ⟨by rw [htotal]; exact hfree, by rw [htotal]; exact h.fits, fun e he k hk => ?_⟩
  rw [htotal]
  rcases hw.log e he with hold | hnew
  · exact h.log e hold k hk
  · exact hR _ (hnew k hk)

theorem Inside.meta {fs fs' : VernisFs} (h : fs.Inside)
    (hw : Backend.Wrote fs.disk fs'.disk MetaSector)
    (htotal : fs'.superblock.totalDataSectors = fs.superblock.totalDataSectors)
    (hfree : fs'.superblock.firstFreeSector = fs.superblock.firstFreeSector) : fs'.Inside := by
  refine h.wrote hw htotal (by rw [hfree]; exact h.free) fun a ha => ⟨ha.1, ?_⟩
  have := ha.2
  omega

/-- A write that stays inside the volume keeps the invariant, whatever fails. -/
theorem Inside.write {fs : VernisFs} (h : fs.Inside) (path : CStr) (data : ℕ → UInt8)
    (len : UInt64) (hstay : fs.WriteStays path len.toUInt32) :
    (fs.vfsWriteFile path data len).2.Inside := by
  rcases fs.vfsWriteFile_cases path data len with ⟨-, he⟩ | ⟨slot, fs₀, d, hopen, hw, hcase⟩
  · rw [he]
    exact h
  have hsb := openSlot_superblock hopen
  have hend : sectorsFor len.toUInt32 ≤ 255 → (fs₀.filetable slot).startSector.toNat +
      sectorCount len.toUInt32 ≤ fs.superblock.totalDataSectors.toNat := by
    intro h255
    by_cases hlt : fs.superblock.firstFreeSector.toNat <
        (fs₀.filetable slot).startSector.toNat + sectorCount len.toUInt32
    · exact hstay slot fs₀ hopen h255 hlt
    · have := h.free
      omega
  have hR : ∀ a, WriteRegion (fs₀.filetable slot).startSector len.toUInt32 a →
      5120 ≤ a.toNat ∧ a.toNat < 5125 + fs.superblock.totalDataSectors.toNat := by
    rintro a (⟨hlo, hhi⟩ | ⟨h255, k, hk, rfl⟩)
    · exact ⟨hlo, by omega⟩
    · have hle := hend h255
      have hfits := h.fits
      rw [toNat_dataSector (by omega)]
      omega
  rcases hcase with ⟨-, he⟩ | ⟨hok, he⟩
  · rw [he]
    refine h.wrote hw ?_ ?_ hR
    · rw [setDisk_superblock, hsb]
    · rw [setDisk_superblock, hsb]
      exact h.free
  · have h255 : sectorsFor len.toUInt32 ≤ 255 := UInt32.not_lt.mp fun hlt => hok (Or.inl hlt)
    rw [he]
    refine h.wrote hw ?_ ?_ hR
    · rw [setDisk_superblock, updateEntry_total, hsb]
    · rw [setDisk_superblock, updateEntry_firstFree, hsb]
      refine max_le h.free ?_
      have hle := hend h255
      have hn : (sectorsFor len.toUInt32).toNat ≤ sectorCount len.toUInt32 :=
        sectorsFor_le _
      have hmod := Nat.mod_le ((fs₀.filetable slot).startSector.toNat +
        (sectorsFor len.toUInt32).toNat) (2 ^ 32)
      rw [UInt32.toNat_add]
      omega

theorem Inside.step {fs fs' : VernisFs} (h : fs.Inside) (op : VfsOp) (hin : fs.StaysInside op)
    (hstep : vfsStep fs op = some fs') : fs'.Inside := by
  cases op with
  | write path data len =>
    obtain rfl := Option.some.inj hstep
    exact h.write path data len hin
  | append path data len =>
    obtain ⟨d, hw, -, ⟨-, rfl⟩ | ⟨data', len', hlen, rfl⟩⟩ := vfsAppendFile_step hstep
    · exact h.wrote hw rfl h.free fun a ha => ha.elim
    · have hd : (fs.setDisk d).Inside := h.wrote hw rfl h.free fun a ha => ha.elim
      refine hd.write path data' len' ?_
      rw [hlen]
      exact hin.2.setDisk d
  | mkdir path =>
    obtain rfl := Option.some.inj hstep
    rcases fs.vfsMkdir_cases path with ⟨-, he⟩ | ⟨i, d, -, -, -, hw, he⟩
    · rw [he]
      exact h
    · rw [he]
      exact h.meta hw rfl rfl
  | delete path =>
    obtain rfl := Option.some.inj hstep
    rcases fs.vfsDeleteFile_cases path with he | ⟨i, d, -, -, hw, he⟩
    · rw [he]
      exact h
    · rw [he]
      refine h.meta hw ?_ ?_
      · rw [setDisk_superblock, deleted]
        split <;> rfl
      · rw [setDisk_superblock, deleted]
        split <;> rfl
  | chmod path mode =>
    obtain rfl := Option.some.inj hstep
    rcases fs.vfsChmod_cases path mode with he | ⟨i, d, m, u, g, -, hw, he⟩
    · rw [he]
      exact h
    · rw [he]
      exact h.meta hw rfl rfl
  | chown path uid gid =>
    obtain rfl := Option.some.inj hstep
    rcases fs.vfsChown_cases path uid gid with he | ⟨i, d, m, u, g, -, hw, he⟩
    · rw [he]
      exact h
    · rw [he]
      exact h.meta hw rfl rfl

end VernisFs

/-- From a free pointer inside the volume, whatever calls of the disk fail, every sector
written along a run is one of the volume's, if every call meets `StaysInside`. -/
theorem vfs_writes_inside (fs : VernisFs) (hlog : fs.disk.log = [])
    (hfree : fs.superblock.firstFreeSector ≤ fs.superblock.totalDataSectors)
    (hfits : 5125 + fs.superblock.totalDataSectors.toNat ≤ 2 ^ 32) (ops : List VfsOp)
    (hin : Along vfsStep VernisFs.StaysInside fs ops) :
    After vfsStep VernisFs.LogInside fs ops := by
  have hinit : fs.Inside := by
    refine ⟨UInt32.le_iff_toNat_le.mp hfree, hfits, fun e he => ?_⟩
    rw [hlog] at he
    cases he
  refine After.mono (fun fs (h : fs.Inside) => h.log) ops fs ?_
  exact After.of_along (I := VernisFs.Inside)
    (fun fs op fs' h hc hstep => h.step op hc hstep) ops fs hinit hin

/-- A first file of one sector on a volume of 2048. -/
theorem vfs_writes_inside_emptyVolume :
    VernisFs.emptyVolume.disk.log = [] ∧
      After vfsStep VernisFs.LogInside VernisFs.emptyVolume
        [.write VernisFs.pathA (fun _ => 1) 512] := by
  refine ⟨rfl, vfs_writes_inside _ rfl (by decide) (by decide) _ ⟨?_, fun _ _ => trivial⟩⟩
  intro slot fs₀ hopen _ _
  obtain ⟨-, ⟨hfind, -⟩ | ⟨-, -, rfl⟩⟩ := VernisFs.openSlot_some hopen
  · rw [VernisFs.findSlot_emptyVolume] at hfind
    cases hfind
  · have hstart : (VernisFs.emptyVolume.newEntry slot VernisFs.pathA).startSector = 0 := rfl
    rw [VernisFs.setEntry_filetable_self, hstart]
    decide

/-- A mounted volume of one data sector, which is in use. -/
def fullVolume : VernisFs :=
  { VernisFs.emptyVolume with superblock := ⟨0x53465600, 1, 0, 1, 1, Vector.replicate 16 0⟩ }

/-- The volume ends before sector 5126, and a new file of one byte is written there. -/
theorem vfs_writes_outside :
    fullVolume.superblock.firstFreeSector ≤ fullVolume.superblock.totalDataSectors ∧
      ¬ After vfsStep VernisFs.LogInside fullVolume
        [.write VernisFs.pathA (fun _ => 1) 1] := by
  refine ⟨by decide, ?_⟩
  rintro ⟨-, h⟩
  have hsector := h _ rfl (5126, 1) (by decide +kernel) 0 (by decide)
  exact absurd hsector.2 (by decide +kernel)

end VernisOS
