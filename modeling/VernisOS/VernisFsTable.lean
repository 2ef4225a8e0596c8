import Mathlib.Data.Fintype.Card
import VernisOS.Lib.Run
import VernisOS.VernisFsOps

/-!
# The file table of VernisFS

A failed `vfs_write_file` or `vfs_append_file` leaves table and superblock alone exactly
when it does not create a file (`vfs_failure_atomic_iff`) : a new entry is filled in before
the length is checked and before any sector is written. The names in use stay distinct and
counted along a run exactly when each of its calls meets `KeepsNames`
(`vfs_names_iff`) : lookup compares the whole path, while a new entry holds its first 31
characters.
-/

open Run Slots

namespace VernisOS

namespace VernisFs

/-! ## Failed calls -/

/-- File table and superblock are those of `fs`. -/
def SameMetadata (fs fs' : VernisFs) : Prop :=
  fs'.filetable = fs.filetable ∧ fs'.superblock = fs.superblock

/-- The call creates the file, and its data does not get to the disk. -/
def FailedCreation (fs : VernisFs) (path : CStr) (len : UInt32) : Prop :=
  fs.ready = true ∧ findSlot fs.filetable path = none ∧
    (emptySlot fs.filetable).isSome = true ∧ WriteFails fs.disk len

theorem newEntry_type (fs : VernisFs) (slot : Fin vfsMaxFiles) (path : CStr) :
    (fs.newEntry slot path).type ≠ vfsTypeEmpty := by
  change vfsTypeRegular ≠ vfsTypeEmpty
  decide

theorem newDirectory_type (fs : VernisFs) (slot : Fin vfsMaxFiles) (path : CStr) :
    (fs.newDirectory slot path).type ≠ vfsTypeEmpty := by
  change vfsTypeDirectory ≠ vfsTypeEmpty
  decide

theorem not_sameMetadata_newEntry {fs : VernisFs} {slot : Fin vfsMaxFiles} (path : CStr)
    (hempty : emptySlot fs.filetable = some slot) (d : Backend) :
    ¬ SameMetadata fs ((fs.setEntry slot (fs.newEntry slot path)).setDisk d) := by
  rintro ⟨ht, -⟩
  have htype := congrArg VfsFileEntry.type (congrFun ht slot)
  have hfree : (fs.filetable slot).type = vfsTypeEmpty := not_not.mp (emptySlot_some hempty)
  simp only [setDisk, setEntry, Function.update_self, newEntry, hfree] at htype
  exact absurd htype (by decide)

theorem vfsWriteData_atomic_iff (fs : VernisFs) (path : CStr) (data : ℕ → UInt8)
    (len : UInt64) :
    ((fs.vfsWriteData path data len).1 = false →
        SameMetadata fs (fs.vfsWriteData path data len).2) ↔
      ¬ FailedCreation fs path len.toUInt32 := by
  cases hopen : fs.openSlot path with
  | none =>
    have hdata : fs.vfsWriteData path data len = (false, fs) := by rw [vfsWriteData_eq, hopen]
    rw [hdata]
    refine ⟨?_, fun _ _ => ⟨rfl, rfl⟩⟩
    rintro - ⟨hr, hfind, hempty, -⟩
    obtain ⟨slot, hslot⟩ := Option.isSome_iff_exists.mp hempty
    simp [openSlot, hr, hfind, hslot] at hopen
  | some so =>
    obtain ⟨slot, fs₀⟩ := so
    have hdata : fs.vfsWriteData path data len = fs₀.writeSlot slot data len := by
      rw [vfsWriteData_eq, hopen]
    obtain ⟨hr, hcase⟩ := openSlot_some hopen
    obtain ⟨d, -, hw⟩ := writeSlot_cases fs₀ slot data len
    rw [openSlot_disk hopen] at hw
    rw [hdata]
    rcases hcase with ⟨hfind, rfl⟩ | ⟨hfind, hempty, rfl⟩
    · -- an existing file : whatever fails, nothing but the disk has changed
      refine ⟨?_, fun _ hfalse => ?_⟩
      · rintro - ⟨-, hnone, -⟩
        rw [hfind] at hnone
        cases hnone
      · rcases hw with ⟨-, he⟩ | ⟨-, he⟩
        · rw [he]
          exact ⟨rfl, rfl⟩
        · rw [he] at hfalse
          cases hfalse
    · rcases hw with ⟨hfail, he⟩ | ⟨hok, he⟩
      · rw [he]
        refine ⟨fun h => absurd (h rfl) (not_sameMetadata_newEntry path hempty d), fun h => ?_⟩
        exact absurd ⟨hr, hfind, by simp [hempty], hfail⟩ h
      · rw [he]
        exact ⟨fun _ hbad => hok hbad.2.2.2, fun _ hfalse => by cases hfalse⟩

theorem not_failedCreation_of_found {fs : VernisFs} {path : CStr} {i : Fin vfsMaxFiles}
    (h : fs.vfsFindFile path = some i) (d : Backend) (len : UInt32) :
    ¬ FailedCreation (fs.setDisk d) path len := by
  rintro ⟨-, hnone, -⟩
  rw [setDisk_filetable, (vfsFindFile_some h).2] at hnone
  cases hnone

/-- Before the metadata is flushed, a write that returns -1 has left file table and
superblock alone exactly when it is not a creation whose data fails; so has an append,
where it is defined. -/
theorem vfs_failure_atomic_iff (fs : VernisFs) (path : CStr) (data : ℕ → UInt8)
    (len : UInt64) :
    (((fs.vfsWriteData path data len).1 = false →
        SameMetadata fs (fs.vfsWriteData path data len).2) ↔
      ¬ FailedCreation fs path len.toUInt32) ∧
    ((∃ r, fs.vfsAppendData path data len = some r ∧ (r.1 = false → SameMetadata fs r.2)) ↔
      AppendDefined fs path len.toUInt32 ∧ ¬ FailedCreation fs path len.toUInt32) := by
  refine ⟨vfsWriteData_atomic_iff fs path data len, ?_⟩
  rw [← appendRequest_isSome fs path data len]
  cases hreq : fs.appendRequest path data len with
  | none => simp [vfsAppendData, hreq]
  | some r =>
    obtain ⟨o, fs₁⟩ := r
    obtain ⟨d, -, hfs, hnone, -⟩ := appendRequest_some hreq
    obtain rfl : fs₁ = fs.setDisk d := hfs
    cases hfind : fs.vfsFindFile path with
    | none =>
      obtain ⟨rfl, rfl : o = some (data, len)⟩ := hnone hfind
      have hwrite := vfsWriteData_atomic_iff fs path data len
      simp only [vfsAppendData, hreq, setDisk_self, Option.map_some, Option.some.injEq,
        exists_eq_left', Option.isSome_some, true_and]
      exact hwrite
    | some i =>
      have hno := not_failedCreation_of_found hfind
      simp only [vfsAppendData, hreq, Option.map_some, Option.some.injEq, exists_eq_left',
        Option.isSome_some, true_and]
      refine ⟨fun _ => hno fs.disk _, fun _ => ?_⟩
      cases o with
      | none => exact fun _ => ⟨rfl, rfl⟩
      | some dl =>
        exact (vfsWriteData_atomic_iff (fs.setDisk d) path dl.1 dl.2).mpr (hno d _)

/-- The path `/a`. -/
def pathA : CStr :=
  ⟨[47, 97], by decide⟩

/-- A mounted volume without files. -/
def emptyVolume : VernisFs :=
  ⟨⟨0x53465600, 1, 0, 2048, 0, Vector.replicate 16 0⟩, fun _ => VfsFileEntry.zero, true, zeroDisk⟩

theorem findSlot_emptyVolume (path : CStr) : findSlot emptyVolume.filetable path = none :=
  findSlot_eq_none.mpr fun _ h => h.1 rfl

theorem emptySlot_emptyVolume : emptySlot emptyVolume.filetable = some 0 :=
  first_eq_some.mpr ⟨rfl, fun j _ => Fin.zero_le j⟩

/-- A new file of 256 sectors : the call returns -1 and the table has a new entry. -/
theorem vfs_failure_not_atomic :
    ¬ ((emptyVolume.vfsWriteData pathA (fun _ => 0) 131072).1 = false →
      SameMetadata emptyVolume
        (emptyVolume.vfsWriteData pathA (fun _ => 0) 131072).2) := by
  rw [vfsWriteData_atomic_iff]
  refine not_not.mpr ⟨rfl, findSlot_emptyVolume _, ?_, Or.inl (by decide)⟩
  rw [emptySlot_emptyVolume]
  rfl

end VernisFs

/-! ## Names and their count -/

/-- The entries in use. -/
def activeSlots (t : Fin vfsMaxFiles → VfsFileEntry) : Finset (Fin vfsMaxFiles) :=
  Finset.univ.filter fun i => Occupied t i

@[simp] theorem mem_activeSlots {t : Fin vfsMaxFiles → VfsFileEntry} {i : Fin vfsMaxFiles} :
    i ∈ activeSlots t ↔ Occupied t i := by
  simp [activeSlots]

/-- Distinct names, and as many as the superblock counts. -/
structure NameTable (fs : VernisFs) : Prop where
  distinct : ∀ i j, Occupied fs.filetable i → Occupied fs.filetable j →
    (fs.filetable i).filename.str = (fs.filetable j).filename.str → i = j
  counted : fs.superblock.fileCount.toNat = (activeSlots fs.filetable).card

theorem card_activeSlots_le (t : Fin vfsMaxFiles → VfsFileEntry) : (activeSlots t).card ≤ 32 :=
  (Finset.card_le_univ _).trans (Fintype.card_fin _).le

theorem foldl_count (t : Fin vfsMaxFiles → VfsFileEntry) (is : List (Fin vfsMaxFiles))
    (n : UInt16) :
    is.foldl (fun n i => if (t i).type ≠ vfsTypeEmpty then n + 1 else n) n =
      n + UInt16.ofNat (is.filter fun i => Occupied t i).length := by
  induction is generalizing n with
  | nil => simp
  | cons i is ih =>
    rw [List.foldl_cons, ih]
    by_cases hi : Occupied t i
    · have hi' : (t i).type ≠ vfsTypeEmpty := hi
      rw [if_pos hi', List.filter_cons_of_pos (by simpa using hi), List.length_cons,
        UInt16.ofNat_add, UInt16.add_assoc, UInt16.add_comm 1]
      rfl
    · have hi' : ¬ (t i).type ≠ vfsTypeEmpty := hi
      rw [if_neg hi', List.filter_cons_of_neg (by simpa using hi)]

/-- The recount of `vfs_write_file` is the number of entries in use. -/
theorem toNat_countActive (t : Fin vfsMaxFiles → VfsFileEntry) :
    (VernisFs.countActive t).toNat = (activeSlots t).card := by
  have hlist : ((slots vfsMaxFiles).filter fun i => Occupied t i).length =
      (activeSlots t).card := by
    rw [← List.toFinset_card_of_nodup (nodup_slots.filter _)]
    congr 1
    ext i
    simp
  have hle := card_activeSlots_le t
  rw [VernisFs.countActive, foldl_count, hlist, UInt16.zero_add, UInt16.toNat_ofNat']
  omega

theorem activeSlots_update_of_occupied {t : Fin vfsMaxFiles → VfsFileEntry}
    {i : Fin vfsMaxFiles} {e : VfsFileEntry} (he : e.type ≠ vfsTypeEmpty) :
    activeSlots (Function.update t i e) = insert i (activeSlots t) := by
  ext j
  rw [Finset.mem_insert, mem_activeSlots, mem_activeSlots]
  by_cases hj : j = i
  · subst hj
    simp [Occupied, he]
  · simp [Occupied, hj]

theorem activeSlots_update_zero (t : Fin vfsMaxFiles → VfsFileEntry) (i : Fin vfsMaxFiles) :
    activeSlots (Function.update t i VfsFileEntry.zero) = (activeSlots t).erase i := by
  ext j
  rw [Finset.mem_erase, mem_activeSlots, mem_activeSlots]
  by_cases hj : j = i
  · subst hj
    simp [Occupied, VfsFileEntry.zero, vfsTypeEmpty]
  · simp [Occupied, hj]

/-! ## What one call does to the names -/

/-- No entry has the name a new entry for `path` gets. -/
def Fresh (fs : VernisFs) (path : CStr) : Prop :=
  ∀ i, ¬ Named fs.filetable i (path.chars.take 31)

/-- A call that needs a new entry for `path` makes it in `slot`. -/
def Creates (fs : VernisFs) (path : CStr) (slot : Fin vfsMaxFiles) : Prop :=
  fs.ready = true ∧ VernisFs.findSlot fs.filetable path = none ∧
    VernisFs.emptySlot fs.filetable = some slot

/-- The call keeps names distinct and counted : a new entry has a name of its own, and the
data of a new file gets to the disk. -/
def KeepsNames (fs : VernisFs) : VfsOp → Prop
  | .write path _ len =>
    ∀ slot, Creates fs path slot → Fresh fs path ∧ ¬ VernisFs.WriteFails fs.disk len.toUInt32
  | .append path _ len =>
    VernisFs.AppendDefined fs path len.toUInt32 ∧
      ∀ slot, Creates fs path slot → Fresh fs path ∧ ¬ VernisFs.WriteFails fs.disk len.toUInt32
  | .mkdir path => ∀ slot, Creates fs path slot → Fresh fs path
  | _ => True

theorem nameTable_setDisk {fs : VernisFs} {d : Backend} :
    NameTable (fs.setDisk d) ↔ NameTable fs :=
  ⟨fun h => ⟨h.distinct, h.counted⟩, fun h => ⟨h.distinct, h.counted⟩⟩

/-- An entry in use changes, but not its name. -/
theorem NameTable.update_same {fs fs' : VernisFs} {i : Fin vfsMaxFiles} {e : VfsFileEntry}
    (h : NameTable fs) (ht : fs'.filetable = Function.update fs.filetable i e)
    (htype : e.type = (fs.filetable i).type) (hname : e.filename = (fs.filetable i).filename)
    (hc : fs'.superblock.fileCount = fs.superblock.fileCount ∨
      fs'.superblock.fileCount = VernisFs.countActive fs'.filetable) : NameTable fs' := by
  have hocc : ∀ j, Occupied fs'.filetable j ↔ Occupied fs.filetable j := by
    intro j
    rw [ht]
    by_cases hj : j = i
    · subst hj
      simp [Occupied, htype]
    · simp [Occupied, hj]
  have hstr : ∀ j, (fs'.filetable j).filename = (fs.filetable j).filename := by
    intro j
    rw [ht]
    by_cases hj : j = i
    · subst hj
      simp [hname]
    · simp [hj]
  have hact : activeSlots fs'.filetable = activeSlots fs.filetable := by
    ext j
    simp [hocc]
  refine ⟨fun a b ha hb hab => ?_, ?_⟩
  · rw [hstr, hstr] at hab
    exact h.distinct a b ((hocc a).mp ha) ((hocc b).mp hb) hab
  · rcases hc with hc | hc
    · rw [hc, hact]
      exact h.counted
    · rw [hc, toNat_countActive]

/-- A new entry keeps the names distinct exactly when its own is fresh, and the count right
exactly when it is one more. -/
theorem nameTable_create_iff {fs fs' : VernisFs} {path : CStr} {slot : Fin vfsMaxFiles}
    {e : VfsFileEntry} (h : NameTable fs) (hslot : ¬ Occupied fs.filetable slot)
    (ht : fs'.filetable = Function.update fs.filetable slot e) (htype : e.type ≠ vfsTypeEmpty)
    (hname : e.filename = VfsFilename.ofPath path) :
    NameTable fs' ↔ Fresh fs path ∧
      fs'.superblock.fileCount.toNat = (activeSlots fs.filetable).card + 1 := by
  have hact : (activeSlots fs'.filetable).card = (activeSlots fs.filetable).card + 1 := by
    rw [ht, activeSlots_update_of_occupied htype, Finset.card_insert_of_notMem]
    simpa using hslot
  have hself : fs'.filetable slot = e := by simp [ht]
  have hother : ∀ j, j ≠ slot → fs'.filetable j = fs.filetable j := by
    intro j hj
    simp [ht, hj]
  have hstr : e.filename.str = path.chars.take 31 := by rw [hname, VfsFilename.str_ofPath]
  constructor
  · intro h'
    refine ⟨fun i hi => ?_, h'.counted.trans hact⟩
    have hne : i ≠ slot := fun he => hslot (he ▸ hi.1)
    refine hne (h'.distinct i slot ?_ ?_ ?_)
    · rw [Occupied, hother i hne]
      exact hi.1
    · rw [Occupied, hself]
      exact htype
    · rw [hother i hne, hself, hi.2, hstr]
  · rintro ⟨hfresh, hcount⟩
    refine ⟨fun a b ha hb hab => ?_, hcount.trans hact.symm⟩
    by_cases hai : a = slot <;> by_cases hbi : b = slot
    · rw [hai, hbi]
    · rw [Occupied, hother b hbi] at hb
      rw [hai, hself, hother b hbi, hstr] at hab
      exact absurd ⟨hb, hab.symm⟩ (hfresh b)
    · rw [Occupied, hother a hai] at ha
      rw [hbi, hself, hother a hai, hstr] at hab
      exact absurd ⟨ha, hab⟩ (hfresh a)
    · rw [Occupied, hother a hai] at ha
      rw [Occupied, hother b hbi] at hb
      rw [hother a hai, hother b hbi] at hab
      exact h.distinct a b ha hb hab

theorem NameTable.delete {fs : VernisFs} {i : Fin vfsMaxFiles} (h : NameTable fs)
    (hi : Occupied fs.filetable i) : NameTable (fs.deleted i) := by
  have hmem : i ∈ activeSlots fs.filetable := mem_activeSlots.mpr hi
  have hpos : 0 < (activeSlots fs.filetable).card := Finset.card_pos.mpr ⟨i, hmem⟩
  refine ⟨fun a b ha hb hab => ?_, ?_⟩
  · rw [VernisFs.deleted_filetable] at ha hb hab
    have hold : ∀ j, Occupied (Function.update fs.filetable i VfsFileEntry.zero) j → j ≠ i := by
      rintro j hj rfl
      simp [Occupied, VfsFileEntry.zero, vfsTypeEmpty] at hj
    have hai := hold a ha
    have hbi := hold b hb
    rw [Occupied, Function.update_of_ne hai] at ha
    rw [Occupied, Function.update_of_ne hbi] at hb
    rw [Function.update_of_ne hai, Function.update_of_ne hbi] at hab
    exact h.distinct a b ha hb hab
  · have hlt : 0 < fs.superblock.fileCount := by
      rw [UInt16.lt_iff_toNat_lt, h.counted]
      exact hpos
    have hcount : (fs.deleted i).superblock.fileCount = fs.superblock.fileCount - 1 := by
      simp [VernisFs.deleted, hlt, VernisFs.setFileCount]
    have h1 : (1 : UInt16) ≤ fs.superblock.fileCount := by
      rw [UInt16.le_iff_toNat_le, h.counted]
      exact hpos
    rw [hcount, UInt16.toNat_sub_of_le _ _ h1, h.counted, VernisFs.deleted_filetable,
      activeSlots_update_zero, Finset.card_erase_of_mem hmem]
    rfl

/-- A write keeps the names exactly when it meets the condition. -/
theorem nameTable_write_iff {fs : VernisFs} (h : NameTable fs) (path : CStr)
    (data : ℕ → UInt8) (len : UInt64) :
    NameTable (fs.vfsWriteFile path data len).2 ↔
      ∀ slot, Creates fs path slot →
        Fresh fs path ∧ ¬ VernisFs.WriteFails fs.disk len.toUInt32 := by
  rcases fs.vfsWriteFile_cases path data len with ⟨hopen, he⟩ | ⟨slot, fs₀, d, hopen, -, hcase⟩
  · rw [he]
    refine ⟨fun _ slot hc => ?_, fun _ => h⟩
    simp [VernisFs.openSlot, hc.1, hc.2.1, hc.2.2] at hopen
  obtain ⟨hr, ⟨hfind, rfl⟩ | ⟨hfind, hempty, rfl⟩⟩ := VernisFs.openSlot_some hopen
  · refine ⟨fun _ slot' hc => ?_, fun _ => ?_⟩
    · have hnone := hc.2.1
      rw [hfind] at hnone
      cases hnone
    · rcases hcase with ⟨-, he⟩ | ⟨-, he⟩
      · rw [he]
        exact nameTable_setDisk.mpr h
      · rw [he, nameTable_setDisk]
        refine h.update_same (VernisFs.updateEntry_filetable _ _ _ _) rfl rfl (Or.inr ?_)
        exact VernisFs.updateEntry_fileCount _ _ _ _
  · have hslot := VernisFs.emptySlot_some hempty
    have hcreate : (∀ slot', Creates fs path slot' →
        Fresh fs path ∧ ¬ VernisFs.WriteFails fs.disk len.toUInt32) ↔
        Fresh fs path ∧ ¬ VernisFs.WriteFails fs.disk len.toUInt32 :=
      ⟨fun hall => hall slot ⟨hr, hfind, hempty⟩, fun hall _ _ => hall⟩
    rw [hcreate]
    rcases hcase with ⟨hfail, he⟩ | ⟨hok, he⟩
    · -- the entry is there, but no recount has seen it
      rw [he, nameTable_setDisk,
        nameTable_create_iff h hslot rfl (VernisFs.newEntry_type fs slot path) rfl]
      have hc : (fs.setEntry slot (fs.newEntry slot path)).superblock.fileCount.toNat =
        (activeSlots fs.filetable).card := h.counted
      rw [hc]
      exact ⟨fun h' => absurd h'.2 (by omega), fun h' => absurd hfail h'.2⟩
    · rw [he, nameTable_setDisk]
      have htype := VernisFs.newEntry_type fs slot path
      have ht : ((fs.setEntry slot (fs.newEntry slot path)).updateEntry slot len.toUInt32
          (VernisFs.sectorsFor len.toUInt32)).filetable =
          Function.update fs.filetable slot { fs.newEntry slot path with size := len.toUInt32 } := by
        rw [VernisFs.updateEntry_filetable]
        simp [VernisFs.setEntry]
      have hcount := VernisFs.updateEntry_fileCount (fs.setEntry slot (fs.newEntry slot path)) slot
        len.toUInt32 (VernisFs.sectorsFor len.toUInt32)
      rw [nameTable_create_iff h hslot ht htype rfl]
      have hc : ((fs.setEntry slot (fs.newEntry slot path)).updateEntry slot len.toUInt32
          (VernisFs.sectorsFor len.toUInt32)).superblock.fileCount.toNat =
          (activeSlots fs.filetable).card + 1 := by
        have hact := activeSlots_update_of_occupied (t := fs.filetable) (i := slot)
          (e := { fs.newEntry slot path with size := len.toUInt32 }) htype
        rw [hcount, toNat_countActive, ht, hact,
          Finset.card_insert_of_notMem (by simpa using hslot)]
      exact ⟨fun h' => ⟨h'.1, hok⟩, fun h' => ⟨h'.1, hc⟩⟩

/-- One call keeps the names exactly when it meets its condition. -/
theorem nameTable_step_iff {fs : VernisFs} (h : NameTable fs) (op : VfsOp) :
    (∃ fs', vfsStep fs op = some fs' ∧ NameTable fs') ↔ KeepsNames fs op := by
  cases op with
  | write path data len =>
    simp only [vfsStep, Option.some.injEq, exists_eq_left']
    exact nameTable_write_iff h path data len
  | append path data len =>
    rw [KeepsNames, ← VernisFs.vfsAppendFile_defined fs path data len]
    constructor
    · rintro ⟨fs', hstep, h'⟩
      refine ⟨⟨fs', hstep⟩, fun slot hc => ?_⟩
      obtain ⟨d, -, hd, ⟨hfound, -⟩ | ⟨data', len', hlen, rfl⟩⟩ :=
        VernisFs.vfsAppendFile_step hstep
      · rw [VernisFs.vfsFindFile, hc.1, if_neg (by decide), hc.2.1] at hfound
        cases hfound
      · have hnone : fs.vfsFindFile path = none := by
          rw [VernisFs.vfsFindFile, hc.1, if_neg (by decide)]
          exact hc.2.1
        obtain rfl := hd hnone
        rw [VernisFs.setDisk_self, nameTable_write_iff h, hlen] at h'
        have hl : fs.appendLen path len.toUInt32 = len.toUInt32 := by
          simp [VernisFs.appendLen, hnone]
        rw [hl] at h'
        exact h' slot hc
    · rintro ⟨⟨fs', hstep⟩, hkeep⟩
      refine ⟨fs', hstep, ?_⟩
      obtain ⟨d, -, hd, ⟨-, rfl⟩ | ⟨data', len', hlen, rfl⟩⟩ := VernisFs.vfsAppendFile_step hstep
      · exact nameTable_setDisk.mpr h
      · rw [nameTable_write_iff (nameTable_setDisk.mpr h), hlen]
        intro slot hc
        have hc' : Creates fs path slot := hc
        have hnone : fs.vfsFindFile path = none := by
          rw [VernisFs.vfsFindFile, hc'.1, if_neg (by decide)]
          exact hc'.2.1
        have hl : fs.appendLen path len.toUInt32 = len.toUInt32 := by
          simp [VernisFs.appendLen, hnone]
        rw [hl, hd hnone]
        exact hkeep slot hc'
  | mkdir path =>
    simp only [vfsStep, Option.some.injEq, exists_eq_left', KeepsNames]
    rcases fs.vfsMkdir_cases path with ⟨hno, he⟩ | ⟨slot, d, hr, hfind, hempty, -, he⟩
    · rw [he]
      exact ⟨fun _ slot hc => absurd hc (hno slot), fun _ => h⟩
    · have hslot := VernisFs.emptySlot_some hempty
      rw [he, nameTable_setDisk, nameTable_create_iff h hslot rfl
        (VernisFs.newDirectory_type fs slot path) rfl]
      have hle := card_activeSlots_le fs.filetable
      have hc : ((fs.setEntry slot (fs.newDirectory slot path)).setFileCount
          (fs.superblock.fileCount + 1)).superblock.fileCount.toNat =
          (activeSlots fs.filetable).card + 1 := by
        change (fs.superblock.fileCount + 1).toNat = _
        have hone : (1 : UInt16).toNat = 1 := rfl
        rw [UInt16.toNat_add, h.counted, hone]
        exact Nat.mod_eq_of_lt (by omega)
      exact ⟨fun h' _ _ => h'.1, fun hall => ⟨hall slot ⟨hr, hfind, hempty⟩, hc⟩⟩
  | delete path =>
    simp only [vfsStep, Option.some.injEq, exists_eq_left', KeepsNames, iff_true]
    rcases fs.vfsDeleteFile_cases path with he | ⟨i, d, -, hfind, -, he⟩
    · rw [he]
      exact h
    · rw [he, nameTable_setDisk]
      exact h.delete (VernisFs.findSlot_eq_some.mp hfind).1.1
  | chmod path mode =>
    simp only [vfsStep, Option.some.injEq, exists_eq_left', KeepsNames, iff_true]
    rcases fs.vfsChmod_cases path mode with he | ⟨i, d, m, u, g, -, -, he⟩
    · rw [he]
      exact h
    · rw [he, nameTable_setDisk]
      exact h.update_same rfl rfl rfl (Or.inl rfl)
  | chown path uid gid =>
    simp only [vfsStep, Option.some.injEq, exists_eq_left', KeepsNames, iff_true]
    rcases fs.vfsChown_cases path uid gid with he | ⟨i, d, m, u, g, -, -, he⟩
    · rw [he]
      exact h
    · rw [he, nameTable_setDisk]
      exact h.update_same rfl rfl rfl (Or.inl rfl)

/-- The call is defined and leaves distinct names, counted. -/
def NamesAfter (fs : VernisFs) (op : VfsOp) : Prop :=
  ∃ fs', vfsStep fs op = some fs' ∧ NameTable fs'

/-- From a table of distinct and counted names, every state of a run has such a table
exactly when every call meets `KeepsNames`. -/
theorem vfs_names_iff (fs : VernisFs) (h : NameTable fs) (ops : List VfsOp) :
    Along vfsStep NamesAfter fs ops ↔ Along vfsStep KeepsNames fs ops := by
  refine Along.iff_of_inv (fun fs op h => nameTable_step_iff h op) ?_ ops fs h
  rintro fs op fs' - ⟨fs'', hstep, h''⟩ hstep'
  obtain rfl := Option.some.inj (hstep.symm.trans hstep')
  exact h''

theorem nameTable_emptyVolume : NameTable VernisFs.emptyVolume := by
  refine ⟨fun i _ hi => absurd rfl hi, ?_⟩
  have hempty : activeSlots VernisFs.emptyVolume.filetable = ∅ :=
    Finset.eq_empty_of_forall_notMem fun i hi => mem_activeSlots.mp hi rfl
  rw [hempty]
  rfl

/-- A first file of one sector on a volume without files. -/
theorem vfs_names_iff_emptyVolume :
    NameTable VernisFs.emptyVolume ∧
      Along vfsStep NamesAfter VernisFs.emptyVolume
        [.write VernisFs.pathA (fun _ => 1) 512] := by
  refine ⟨nameTable_emptyVolume, (vfs_names_iff _ nameTable_emptyVolume _).mpr ⟨?_, ?_⟩⟩
  · rintro slot -
    refine ⟨fun i hi => hi.1 rfl, ?_⟩
    rintro (h | ⟨k, -, h⟩)
    · exact absurd h (by decide)
    · exact h rfl
  · exact fun _ _ => trivial

/-- A path of 40 characters. -/
def longPath : CStr :=
  ⟨List.replicate 40 97, by decide⟩

/-- Written twice, a path of 40 characters makes two entries of one name. -/
theorem vfs_names_duplicate :
    NameTable VernisFs.emptyVolume ∧
      ¬ Along vfsStep NamesAfter VernisFs.emptyVolume
        [.write longPath (fun _ => 0) 0, .write longPath (fun _ => 0) 0] := by
  refine ⟨nameTable_emptyVolume, ?_⟩
  rintro ⟨-, h⟩
  obtain ⟨⟨fs', hstep, hnames⟩, -⟩ := h _ rfl
  obtain rfl := Option.some.inj hstep
  have hsame := hnames.distinct 0 1 (by decide +kernel) (by decide +kernel) (by decide +kernel)
  exact absurd hsame (by decide)

end VernisOS
