import VernisOS.VernisFsAppend

/-!
# Reading into a buffer

`vfs_read_file` reads whole sectors : the last one may lie behind the buffer, and of more than 255
sectors it reads 255 and returns the length of all. A read of `s` bytes stays inside its buffer and
returns what it has read exactly if `s` rounded up to sectors fits, and is not more than 255 of them
(`read_stays_iff`). On a disk that fails it may end before it gets there.
-/

open Bytes Slots

namespace VernisOS

namespace VernisFs

variable {fs : VernisFs} {path : CStr} {i : Fin vfsMaxFiles} {maxLen : UInt64}

/-! ## The chunks -/

/-- A chunk that fails ends the loop, and may leave anything in its part of the buffer. -/
theorem readChunks_fails (abs : UInt32) {sectors read chunk : ℕ} (fuel : ℕ) {b : Backend}
    {f : IoFault} (hfault : b.fault b.calls = some f) (hlt : read < sectors)
    (hchunk : chunk = if 128 < sectors - read then 128 else sectors - read) (buf : ℕ → Sector) :
    readChunks abs sectors (fuel + 1) read b buf =
      (false, fun s => if read ≤ s ∧ s < read + chunk then f.junk (s - read) else buf s,
        { b with calls := b.calls + 1 }) := by
  rw [readChunks, if_pos hlt, ← hchunk]
  simp only [Backend.read, hfault]
  rw [if_pos (by decide)]
  refine Prod.ext rfl (Prod.ext (funext fun s => ?_) rfl)
  dsimp only
  by_cases hs : s < read
  · rw [if_pos hs, if_neg (by omega)]
  · rw [if_neg hs, Nat.add_sub_cancel' (not_lt.mp hs)]
    by_cases hc : s - read < chunk
    · rw [if_pos hc, if_pos (by omega)]
    · rw [if_neg hc, if_neg (by omega)]

/-- A chunk that is read, and the rest. -/
theorem readChunks_reads (abs : UInt32) {sectors read chunk : ℕ} (fuel : ℕ) {b : Backend}
    (hfault : b.fault b.calls = none) (hlt : read < sectors)
    (hchunk : chunk = if 128 < sectors - read then 128 else sectors - read) (buf : ℕ → Sector) :
    readChunks abs sectors (fuel + 1) read b buf =
      readChunks abs sectors fuel (read + chunk) { b with calls := b.calls + 1 } fun s =>
        if read ≤ s ∧ s < read + chunk then b.disk (abs + UInt32.ofNat s) else buf s := by
  rw [readChunks, if_pos hlt, ← hchunk]
  simp only [Backend.read, hfault]
  rw [if_neg (by omega)]
  congr 1
  funext s
  by_cases hs : s < read
  · rw [if_pos hs, if_neg (by omega)]
  · have hadd : abs + UInt32.ofNat read + UInt32.ofNat (s - read) = abs + UInt32.ofNat s := by
      rw [UInt32.add_assoc, ← UInt32.ofNat_add, Nat.add_sub_cancel' (not_lt.mp hs)]
    rw [if_neg hs, Nat.add_sub_cancel' (not_lt.mp hs), hadd]
    by_cases hc : s - read < chunk
    · rw [if_pos hc, if_pos (by omega)]
    · rw [if_neg hc, if_neg (by omega)]

/-- Nothing is left to read. -/
theorem readChunks_end (abs : UInt32) (sectors fuel : ℕ) (b : Backend) (buf : ℕ → Sector) :
    readChunks abs sectors fuel sectors b buf = (true, buf, b) := by
  cases fuel with
  | zero => rfl
  | succ fuel => rw [readChunks, if_neg (Nat.lt_irrefl _)]

/-- The sectors of the buffer that the calls for `sectors` sectors are handed. -/
def reached (b : Backend) (sectors : ℕ) : ℕ :=
  if 128 < sectors ∧ b.fault b.calls ≠ none then 128 else sectors

/-- The one or two calls succeed. -/
def ReadsAll (b : Backend) (sectors : ℕ) : Prop :=
  (0 < sectors → b.fault b.calls = none) ∧ (128 < sectors → b.fault (b.calls + 1) = none)

/-- The loop overwrites the sectors that it reaches with contents that do not depend on what was
there, and comes to its end if its calls succeed. -/
theorem readChunks_overwrites (abs : UInt32) {sectors : ℕ} (h : sectors ≤ 255) (b : Backend) :
    ∃ contents : ℕ → Sector, ∀ buf,
      ((readChunks abs sectors sectors 0 b buf).1 = true ↔ ReadsAll b sectors) ∧
        (readChunks abs sectors sectors 0 b buf).2.1 = fun s =>
          if s < reached b sectors then contents s else buf s := by
  unfold reached ReadsAll
  rcases Nat.eq_zero_or_pos sectors with rfl | hpos
  · exact ⟨fun _ _ => 0, fun buf => ⟨by simp [readChunks], by simp [readChunks]⟩⟩
  obtain ⟨n, rfl⟩ := Nat.exists_eq_add_of_le' hpos
  cases hfirst : b.fault b.calls with
  | some f =>
    refine ⟨f.junk, fun buf => ?_⟩
    rw [readChunks_fails abs n hfirst hpos rfl]
    refine ⟨by simp, funext fun s => ?_⟩
    simp only [Nat.sub_zero, Nat.zero_add, Nat.zero_le, true_and, ne_eq, reduceCtorEq,
      not_false_eq_true, and_true]
  | none =>
    have hreach : (if 128 < n + 1 ∧ (none : Option IoFault) ≠ none then 128 else n + 1) = n + 1 :=
      if_neg fun hc => hc.2 rfl
    rw [hreach]
    by_cases hone : n + 1 ≤ 128
    · refine ⟨fun s => b.disk (abs + UInt32.ofNat s), fun buf => ?_⟩
      rw [readChunks_reads abs n hfirst hpos (if_neg (by omega)).symm, Nat.sub_zero, Nat.zero_add,
        readChunks_end]
      refine ⟨⟨fun _ => ⟨fun _ => rfl, fun hc => by omega⟩, fun _ => rfl⟩, funext fun s => ?_⟩
      simp only [Nat.zero_le, true_and]
    · obtain ⟨m, rfl⟩ : ∃ m, n = m + 1 := ⟨n - 1, by omega⟩
      have hsecond : ∀ buf, readChunks abs (m + 1 + 1) (m + 1 + 1) 0 b buf =
          readChunks abs (m + 1 + 1) (m + 1) 128 { b with calls := b.calls + 1 } fun s =>
            if s < 128 then b.disk (abs + UInt32.ofNat s) else buf s := by
        intro buf
        rw [readChunks_reads abs (m + 1) hfirst hpos (if_pos (by omega)).symm]
        simp only [Nat.zero_add, Nat.zero_le, true_and]
      have hrest : m + 1 + 1 - 128 =
          if 128 < m + 1 + 1 - 128 then 128 else m + 1 + 1 - 128 := (if_neg (by omega)).symm
      cases hlast : b.fault (b.calls + 1) with
      | some f =>
        refine ⟨fun s => if s < 128 then b.disk (abs + UInt32.ofNat s) else f.junk (s - 128),
          fun buf => ?_⟩
        rw [hsecond, readChunks_fails abs m hlast (by omega) hrest]
        refine ⟨iff_of_false (by simp) fun hc => absurd (hc.2 (by omega)) (by simp),
          funext fun s => ?_⟩
        dsimp only
        grind
      | none =>
        refine ⟨fun s => b.disk (abs + UInt32.ofNat s), fun buf => ?_⟩
        rw [hsecond, readChunks_reads abs m hlast (by omega) hrest,
          Nat.add_sub_cancel' (by omega), readChunks_end]
        refine ⟨⟨fun _ => ⟨fun _ => rfl, fun _ => rfl⟩, fun _ => rfl⟩, funext fun s => ?_⟩
        dsimp only
        grind

/-! ## The buffer of the caller -/

/-- The read changes nothing behind `maxLen` bytes, and a length it returns is that of bytes of the
file that it has put there. -/
def ReadStays (fs : VernisFs) (path : CStr) (maxLen : UInt64) : Prop :=
  ∀ buf, (∀ k, maxLen.toNat ≤ k →
      byteAt (fs.vfsReadFile path buf maxLen).2.1 k = byteAt buf k) ∧
    ∀ n : ℕ, (fs.vfsReadFile path buf maxLen).1 = n → n ≤ maxLen.toNat ∧
      ∃ i, fs.vfsFindFile path = some i ∧ n ≤ (fs.filetable i).size.toNat ∧ ∀ k < n,
        byteAt (fs.vfsReadFile path buf maxLen).2.1 k =
          (fs.filetable i).byteOn fs.disk.disk k

/-- The bytes to read, rounded up to sectors, fit into the buffer, and are at most 255 sectors. A
failing call ends the read before its last sector, or before it returns a length. -/
def ReadFits (fs : VernisFs) (i : Fin vfsMaxFiles) (maxLen : UInt64) : Prop :=
  let size := min (fs.filetable i).size.toNat maxLen.toNat
  (size ≤ 130560 → (size + 511) / 512 * 512 ≤ maxLen.toNat ∨
    65536 < size ∧ fs.disk.fault fs.disk.calls ≠ none) ∧
  (130560 < size → size < 2 ^ 31 →
    fs.disk.fault fs.disk.calls ≠ none ∨ fs.disk.fault (fs.disk.calls + 1) ≠ none)

theorem readSectors_le_255 (size : UInt32) : readSectors size ≤ 255 :=
  Nat.min_le_right _ _

theorem byte_ne_succ (x : UInt8) : x ≠ x + 1 := by
  grind

/-- The sectors that are read, by the bytes to read. -/
theorem readSectors_cases (size : UInt32) :
    size.toNat ≤ 130560 ∧ readSectors size = (size.toNat + 511) / 512 ∨
      130560 < size.toNat ∧ size.toNat < 2 ^ 31 ∧ readSectors size = 255 ∨
      2 ^ 31 ≤ size.toNat ∧ readSectors size * 512 ≤ 130560 := by
  by_cases hwrap : 2 ^ 32 ≤ size.toNat + 511
  · rw [readSectors_wrap hwrap]
    exact Or.inr (Or.inr ⟨by omega, by decide⟩)
  · rw [readSectors_eq (by omega), sectorCount]
    omega

/-- A read that stays in its buffer for all contents of the buffer. -/
theorem ReadStays.fits (h : ReadStays fs path maxLen) (hfind : fs.vfsFindFile path = some i) :
    ReadFits fs i maxLen := by
  obtain ⟨contents, hchunks⟩ := readChunks_overwrites
    (vfsStartSector + vfsDataSector + (fs.filetable i).startSector)
    (readSectors_le_255 (readSize (fs.filetable i) maxLen)) fs.disk
  have hsize := readSize_toNat (fs.filetable i) maxLen
  have hcases := readSectors_cases (readSize (fs.filetable i) maxLen)
  simp only [ReadStays, vfsReadFile_eq hfind, (hchunks _).2] at h
  unfold ReadFits
  rw [← hsize]
  generalize readSize (fs.filetable i) maxLen = size at *
  constructor
  · intro hle
    by_contra hno
    obtain ⟨hroom, hfail⟩ := not_or.mp hno
    -- the byte behind the buffer, which was another one before
    set k := maxLen.toNat with hk
    obtain ⟨hbehind, -⟩ := h fun s j => contents s j + 1
    have hbyte := hbehind k le_rfl
    have hreach : k / 512 < reached fs.disk (readSectors size) := by
      unfold reached
      split
      · next hc => exact absurd ⟨by omega, hc.2⟩ hfail
      · omega
    simp only [byteAt, if_pos hreach] at hbyte
    exact byte_ne_succ _ hbyte
  · intro hgt hlt
    by_contra hno
    obtain ⟨hfirst, hsecond⟩ := not_or.mp hno
    have hcount : readSectors size = 255 := by omega
    have hall : ReadsAll fs.disk (readSectors size) :=
      ⟨fun _ => not_not.mp hfirst, fun _ => not_not.mp hsecond⟩
    have hok := fun buf => (hchunks buf).1.mpr hall
    -- the first byte that is returned and not read
    obtain ⟨-, hread⟩ := h fun _ j => (fs.filetable i).byteOn fs.disk.disk 130560 + 1
    obtain ⟨-, i', hfind', -, hbytes⟩ := hread size.toNat (by rw [hok, if_pos rfl, cInt_of_lt hlt])
    obtain rfl := Option.some.inj (hfind.symm.trans hfind')
    have hbyte := hbytes 130560 hgt
    have hreach : ¬ 130560 / 512 < reached fs.disk (readSectors size) := by
      unfold reached
      rw [hcount, if_neg fun hc => hc.2 (not_not.mp hfirst)]
      decide
    simp only [byteAt, if_neg hreach] at hbyte
    exact byte_ne_succ _ hbyte.symm

/-- A read that fits, whatever is in the buffer. -/
theorem ReadFits.stays (hfind : fs.vfsFindFile path = some i) (h : ReadFits fs i maxLen) :
    ReadStays fs path maxLen := by
  intro buf
  obtain ⟨contents, hchunks⟩ := readChunks_overwrites
    (vfsStartSector + vfsDataSector + (fs.filetable i).startSector)
    (readSectors_le_255 (readSize (fs.filetable i) maxLen)) fs.disk
  have hsize := readSize_toNat (fs.filetable i) maxLen
  have hcases := readSectors_cases (readSize (fs.filetable i) maxLen)
  obtain ⟨hroom, hlong⟩ := h
  rw [← hsize] at hroom hlong
  refine ⟨fun k hk => ?_, fun n hn => ?_⟩
  · have hreach : ¬ k / 512 < reached fs.disk (readSectors (readSize (fs.filetable i) maxLen)) := by
      unfold reached
      split
      · omega
      · next hc =>
        by_cases hle : (readSize (fs.filetable i) maxLen).toNat ≤ 130560
        · rcases hroom hle with hfits | ⟨hgt, hfail⟩
          · omega
          · exact absurd ⟨by omega, hfail⟩ hc
        · omega
    rw [byteAt, vfsReadFile_eq hfind]
    dsimp only
    rw [(hchunks buf).2]
    simp only [if_neg hreach]
    rfl
  · have hok : 0 ≤ (fs.vfsReadFile path buf maxLen).1 := by
      rw [hn]
      exact Int.natCast_nonneg n
    obtain ⟨hrc, hbytes⟩ := vfsReadFile_bytes hfind buf maxLen hok
    have hlt : (readSize (fs.filetable i) maxLen).toNat < 2 ^ 31 := by
      have hpos := (not_congr (cInt_neg _)).mp (not_lt.mpr (hrc ▸ hok))
      omega
    obtain rfl : n = (readSize (fs.filetable i) maxLen).toNat := by
      rw [hn, cInt_of_lt hlt] at hrc
      exact Int.ofNat.inj hrc
    refine ⟨by omega, i, hfind, by omega, fun k hk => (hbytes k).trans (if_pos ?_)⟩
    by_cases hle : (readSize (fs.filetable i) maxLen).toNat ≤ 130560
    · omega
    · -- the loop came to its end, so no call failed
      rw [vfsReadFile_eq hfind] at hok
      dsimp only at hok
      have hall : (readChunks (vfsStartSector + vfsDataSector + (fs.filetable i).startSector)
          (readSectors (readSize (fs.filetable i) maxLen))
          (readSectors (readSize (fs.filetable i) maxLen)) 0 fs.disk buf).1 = true := by
        by_contra hno
        rw [if_neg hno] at hok
        exact absurd hok (by decide)
      obtain ⟨hfirst, hsecond⟩ := (hchunks buf).1.mp hall
      have hsectors : 0 < readSectors (readSize (fs.filetable i) maxLen) := by omega
      have hsectors' : 128 < readSectors (readSize (fs.filetable i) maxLen) := by omega
      rcases hlong (by omega) hlt with hfail | hfail
      · exact absurd (hfirst hsectors) hfail
      · exact absurd (hsecond hsectors') hfail

/-- A read stays inside the buffer of its caller, and returns the length of what it has read, for
all contents of the buffer, exactly if the path is not found or the read fits. -/
theorem read_stays_iff (fs : VernisFs) (path : CStr) (maxLen : UInt64) :
    ReadStays fs path maxLen ↔
      ∀ i, fs.vfsFindFile path = some i → ReadFits fs i maxLen := by
  constructor
  · exact fun h i hfind => h.fits hfind
  · intro h
    cases hfind : fs.vfsFindFile path with
    | some i => exact (h i hfind).stays hfind
    | none =>
      intro buf
      simp only [vfsReadFile, hfind]
      exact ⟨fun _ _ => trivial, fun n hn => by omega⟩

/-- A file of 600 bytes is read with the limit of `cat`, 511 : the sector read has one byte more. -/
theorem not_read_stays :
    emptyVolume.disk.NeverFails ∧ (emptyVolume.vfsWriteFile pathA UInt8.ofNat 600).1 = 600 ∧
      ¬ ReadStays (volumeWith 600) pathA 511 := by
  have hlen : (600 : UInt64).toNat ≤ 130560 := by decide
  obtain ⟨hdisk, hfind, hsize, -⟩ := volumeWith_file hlen
  refine ⟨fun _ => rfl, volumeWith_returns hlen, fun h => ?_⟩
  obtain ⟨hroom, -⟩ := h.fits hfind
  have h600 : (600 : UInt64).toNat = 600 := rfl
  have h511 : (511 : UInt64).toNat = 511 := rfl
  rw [hsize, h600, h511] at hroom
  rcases hroom (by decide) with hfits | ⟨hgt, -⟩
  · exact absurd hfits (by decide)
  · exact absurd hgt (by decide)

end VernisFs

end VernisOS
