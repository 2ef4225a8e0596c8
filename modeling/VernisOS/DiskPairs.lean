import VernisOS.Kfs
import VernisOS.VernisFsOps

/-!
# Two disks side by side

The same calls on two disks that fail alike return the same. A byte that a write puts on both
is the same afterwards, whatever it was before (`Levels`); a read gives back equal bytes
where the disks are equal.
-/

namespace VernisOS

namespace Backend

/-- The next calls of both disks fail alike. -/
structure Twin (b b' : Backend) : Prop where
  fault : b'.fault = b.fault
  calls : b'.calls = b.calls

/-- From `b` to `c` and from `b'` to `c'` every byte was made the same on both disks, or was
left alone on both. -/
structure Levels (b b' c c' : Backend) : Prop where
  twin : Twin c c'
  bytes : ∀ a j, c'.disk a j = c.disk a j ∨
    c.disk a j = b.disk a j ∧ c'.disk a j = b'.disk a j

/-- The sectors that are written hold the same bytes, or the ones `b` and `b'` have there. -/
def LevelData (b b' : Backend) (lba : UInt32) (n : ℕ) (buf buf' : ℕ → Sector) : Prop :=
  ∀ s < n, ∀ j, buf' s j = buf s j ∨ buf s j = b.disk (lba + UInt32.ofNat s) j ∧
    buf' s j = b'.disk (lba + UInt32.ofNat s) j

variable {b b' c c' : Backend}

theorem Levels.refl (h : Twin b b') : Levels b b' b b' :=
  ⟨h, fun _ _ => Or.inr ⟨rfl, rfl⟩⟩

/-- Bytes that are equal stay equal. -/
theorem Levels.same (h : Levels b b' c c') {a : UInt32} {j : Fin 512}
    (heq : b'.disk a j = b.disk a j) : c'.disk a j = c.disk a j := by
  rcases h.bytes a j with he | ⟨hc, hc'⟩
  · exact he
  · rw [hc, hc', heq]

theorem levelData_self (b b' : Backend) (lba : UInt32) (n : ℕ) (buf : ℕ → Sector) :
    LevelData b b' lba n buf buf :=
  fun _ _ _ => Or.inl rfl

theorem store_level {disk disk' : UInt32 → Sector} {lba : UInt32} {buf buf' : ℕ → Sector} {n : ℕ}
    (hbuf : LevelData b b' lba n buf buf')
    (h : ∀ a j, disk' a j = disk a j ∨ disk a j = b.disk a j ∧ disk' a j = b'.disk a j) :
    ∀ a j, store disk' lba buf' n a j = store disk lba buf n a j ∨
      store disk lba buf n a j = b.disk a j ∧ store disk' lba buf' n a j = b'.disk a j := by
  induction n with
  | zero => exact h
  | succ n ih =>
    intro a j
    by_cases ha : a = lba + UInt32.ofNat n
    · rw [store, store, ha, Function.update_self, Function.update_self]
      exact hbuf n (Nat.lt_succ_self n) j
    · rw [store, store, Function.update_of_ne ha, Function.update_of_ne ha]
      exact ih (fun s hs => hbuf s (Nat.lt_succ_of_lt hs)) a j

theorem levels_write (h : Levels b b' c c') (lba : UInt32) (count : ℕ) {buf buf' : ℕ → Sector}
    (hbuf : LevelData b b' lba count buf buf') :
    (c'.write lba count buf').1 = (c.write lba count buf).1 ∧
      Levels b b' (c.write lba count buf).2 (c'.write lba count buf').2 := by
  unfold write
  rw [h.twin.fault, h.twin.calls]
  dsimp only
  cases c.fault c.calls with
  | none => exact ⟨rfl, ⟨rfl, rfl⟩, store_level hbuf h.bytes⟩
  | some f =>
    refine ⟨rfl, ⟨rfl, rfl⟩, store_level (fun s hs => hbuf s ?_) h.bytes⟩
    omega

theorem levels_read (h : Twin b b') (lba : UInt32) (count : ℕ) (buf buf' : ℕ → Sector) :
    (b'.read lba count buf').1 = (b.read lba count buf).1 ∧
      Twin (b.read lba count buf).2.2 (b'.read lba count buf').2.2 := by
  unfold read
  rw [h.fault, h.calls]
  dsimp only
  cases b.fault b.calls with
  | none => exact ⟨rfl, rfl, rfl⟩
  | some f => exact ⟨rfl, rfl, rfl⟩

end Backend

open Backend

namespace VernisFs

variable {b b' c c' : Backend}

/-! ## Loops -/

theorem levels_writeEach {abs : UInt32} {src src' : ℕ → Sector} (n : ℕ) :
    ∀ (s : ℕ) {c c' : Backend}, LevelData b b' abs (s + n) src src' → Levels b b' c c' →
      (writeEach abs src' s n c').1 = (writeEach abs src s n c).1 ∧
        Levels b b' (writeEach abs src s n c).2 (writeEach abs src' s n c').2 := by
  induction n with
  | zero => exact fun _ _ _ _ h => ⟨rfl, h⟩
  | succ n ih =>
    intro s c c' hsrc h
    have hone : LevelData b b' (abs + UInt32.ofNat s) 1 (fun _ => src s) fun _ => src' s := by
      intro k hk j
      obtain rfl : k = 0 := by omega
      rw [show abs + UInt32.ofNat s + UInt32.ofNat 0 = abs + UInt32.ofNat s from UInt32.add_zero _]
      exact hsrc s (by omega) j
    obtain ⟨hrc, hl⟩ := levels_write h (abs + UInt32.ofNat s) 1 hone
    simp only [writeEach, hrc]
    split
    · exact ⟨rfl, hl⟩
    · exact ih (s + 1) (by rwa [Nat.add_right_comm]) hl

/-- A loop that ends well has put its sectors on the disk. -/
theorem disk_writeEach {abs : UInt32} {src : ℕ → Sector} (n : ℕ) (hn : n ≤ 4294967296)
    (b : Backend) (h : (writeEach abs src 0 n b).1 = true) :
    (writeEach abs src 0 n b).2.disk = store b.disk abs src n := by
  induction n with
  | zero => rfl
  | succ n ih =>
    rw [writeEach_succ] at h ⊢
    split at h
    · rename_i hok
      have hfault : (writeEach abs src 0 n b).2.fault (writeEach abs src 0 n b).2.calls = none := by
        have hlast := (writeEach_ok abs src 1 (0 + n) _).mp h 0 (by decide)
        exact hlast
      rw [if_pos hok, writeEach, Nat.zero_add]
      rw [write_one_ok hfault]
      simp only [store, ← ih (by omega) hok]
      rfl
    · rename_i hok
      exact absurd h hok

/-- Reads with the same calls end alike. -/
theorem twin_readChunks (abs : UInt32) (sectors fuel : ℕ) :
    ∀ (read : ℕ) {b b' : Backend} (buf buf' : ℕ → Sector), Twin b b' →
      (readChunks abs sectors fuel read b' buf').1 = (readChunks abs sectors fuel read b buf).1 ∧
        Twin (readChunks abs sectors fuel read b buf).2.2
          (readChunks abs sectors fuel read b' buf').2.2 := by
  induction fuel with
  | zero => exact fun _ _ _ _ _ h => ⟨rfl, h⟩
  | succ fuel ih =>
    intro read b b' buf buf' h
    by_cases hlt : read < sectors
    · simp only [readChunks, if_pos hlt]
      generalize (if 128 < sectors - read then 128 else sectors - read) = chunk
      obtain ⟨hrc, ht⟩ := levels_read h (abs + UInt32.ofNat read) chunk
        (fun s => buf (read + s)) fun s => buf' (read + s)
      rw [hrc]
      split
      · exact ⟨rfl, ht⟩
      · exact ih _ _ _ ht
    · simp only [readChunks, if_neg hlt]
      exact ⟨trivial, h⟩

end VernisFs

end VernisOS
