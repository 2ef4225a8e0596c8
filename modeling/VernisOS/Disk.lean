import Mathlib.Data.Nat.Notation
import Mathlib.Logic.Function.Basic

/-!
# Sectors and the disk backend

The block cache and VernisFS reach the disk through two function pointers of one
signature, `(lba, count, buf)`, that return a negative number on an error. `Backend`
is a disk behind such a pair : its contents, which of its calls fail, and the write
calls made so far. A call that fails in the middle leaves behind what its `IoFault`
says : a write has stored the sectors before the failing one, a read has put arbitrary
bytes in the buffer it was given.
-/

namespace VernisOS

/-- One disk sector (`BCACHE_BLOCK_SIZE` bytes). -/
abbrev Sector := Fin 512 → UInt8

theorem mod_sector_lt (k : ℕ) : k % 512 < 512 :=
  Nat.mod_lt k (by decide)

/-- What a failing call leaves behind. -/
structure IoFault where
  /-- Sectors of a write that reached the disk before the error. -/
  done : ℕ
  /-- Bytes a failed read leaves in its buffer, by sector. -/
  junk : ℕ → Sector

/-- A disk behind the function pointers `vfs_disk_read_fn` and `vfs_disk_write_fn`. -/
structure Backend where
  disk : UInt32 → Sector
  /-- Whether the `n`-th call fails, and how. -/
  fault : ℕ → Option IoFault
  /-- Calls made so far. -/
  calls : ℕ
  /-- Sector and count of the write calls made so far, the latest first. -/
  log : List (UInt32 × ℕ)

namespace Backend

/-- No call of this disk fails. -/
def NeverFails (b : Backend) : Prop :=
  ∀ n, b.fault n = none

/-- The disk after `n` sectors of `buf` are stored from `lba` on. -/
def store (disk : UInt32 → Sector) (lba : UInt32) (buf : ℕ → Sector) : ℕ → UInt32 → Sector
  | 0 => disk
  | n + 1 => Function.update (store disk lba buf n) (lba + UInt32.ofNat n) (buf n)

/-- A read call : the return value and the buffer it leaves. -/
def read (b : Backend) (lba : UInt32) (count : ℕ) (buf : ℕ → Sector) :
    Int × (ℕ → Sector) × Backend :=
  let b' := { b with calls := b.calls + 1 }
  match b.fault b.calls with
  | none => (count, fun s => if s < count then b.disk (lba + UInt32.ofNat s) else buf s, b')
  | some f => (-1, fun s => if s < count then f.junk s else buf s, b')

/-- A write call. -/
def write (b : Backend) (lba : UInt32) (count : ℕ) (buf : ℕ → Sector) : Int × Backend :=
  let b' := { b with calls := b.calls + 1, log := (lba, count) :: b.log }
  match b.fault b.calls with
  | none => (count, { b' with disk := store b.disk lba buf count })
  | some f => (-1, { b' with disk := store b.disk lba buf (min f.done (count - 1)) })

/-- The disk after a write call was accepted, with the contents `disk`. -/
def logged (b : Backend) (lba : UInt32) (count : ℕ) (disk : UInt32 → Sector) : Backend :=
  { disk, fault := b.fault, calls := b.calls + 1, log := (lba, count) :: b.log }

theorem write_ok {b : Backend} (h : b.fault b.calls = none) (lba : UInt32) (count : ℕ)
    (buf : ℕ → Sector) :
    b.write lba count buf = ((count : Int), b.logged lba count (store b.disk lba buf count)) := by
  simp [write, h, logged]

theorem write_one_ok {b : Backend} (h : b.fault b.calls = none) (lba : UInt32)
    (buf : ℕ → Sector) :
    b.write lba 1 buf = (1, b.logged lba 1 (Function.update b.disk lba (buf 0))) := by
  simp [write_ok h, store]

/-- A failed write of one sector leaves the disk as it was. -/
theorem write_one_fail {b : Backend} {f : IoFault} (h : b.fault b.calls = some f) (lba : UInt32)
    (buf : ℕ → Sector) : b.write lba 1 buf = (-1, b.logged lba 1 b.disk) := by
  simp [write, h, store, logged]

theorem read_one_ok {b : Backend} (h : b.fault b.calls = none) (lba : UInt32)
    (buf : ℕ → Sector) :
    ((b.read lba 1 buf).1, (b.read lba 1 buf).2.1 0) = ((1 : Int), b.disk lba) := by
  simp [read, h]

theorem read_one_fail {b : Backend} {f : IoFault} (h : b.fault b.calls = some f) (lba : UInt32)
    (buf : ℕ → Sector) : (b.read lba 1 buf).1 = -1 := by
  simp [read, h]

@[simp] theorem read_disk (b : Backend) (lba : UInt32) (count : ℕ) (buf : ℕ → Sector) :
    (b.read lba count buf).2.2.disk = b.disk := by
  unfold read
  dsimp only
  split <;> rfl

@[simp] theorem read_fault (b : Backend) (lba : UInt32) (count : ℕ) (buf : ℕ → Sector) :
    (b.read lba count buf).2.2.fault = b.fault := by
  unfold read
  dsimp only
  split <;> rfl

@[simp] theorem write_calls (b : Backend) (lba : UInt32) (count : ℕ) (buf : ℕ → Sector) :
    (b.write lba count buf).2.calls = b.calls + 1 := by
  unfold write
  dsimp only
  split <;> rfl

@[simp] theorem write_fault (b : Backend) (lba : UInt32) (count : ℕ) (buf : ℕ → Sector) :
    (b.write lba count buf).2.fault = b.fault := by
  unfold write
  dsimp only
  split <;> rfl

/-! ## What a run of calls leaves alone -/

/-- From `b` to `b'` only sectors in `R` were written. -/
structure Wrote (b b' : Backend) (R : UInt32 → Prop) : Prop where
  fault : b'.fault = b.fault
  disk : ∀ a, ¬ R a → b'.disk a = b.disk a
  log : ∀ e ∈ b'.log, e ∈ b.log ∨ ∀ k < e.2, R (e.1 + UInt32.ofNat k)

theorem Wrote.refl (b : Backend) (R : UInt32 → Prop) : Wrote b b R :=
  ⟨rfl, fun _ _ => rfl, fun _ he => Or.inl he⟩

theorem Wrote.mono {b b' : Backend} {R R' : UInt32 → Prop} (h : Wrote b b' R)
    (hR : ∀ a, R a → R' a) : Wrote b b' R' := by
  refine ⟨h.fault, fun a ha => h.disk a fun hr => ha (hR a hr), fun e he => ?_⟩
  rcases h.log e he with he | hr
  · exact Or.inl he
  · exact Or.inr fun k hk => hR _ (hr k hk)

theorem Wrote.trans {b b' b'' : Backend} {R : UInt32 → Prop} (h : Wrote b b' R)
    (h' : Wrote b' b'' R) : Wrote b b'' R := by
  refine ⟨h'.fault.trans h.fault, fun a ha => (h'.disk a ha).trans (h.disk a ha), fun e he => ?_⟩
  rcases h'.log e he with he | hr
  · exact h.log e he
  · exact Or.inr hr

theorem Wrote.neverFails {b b' : Backend} {R : UInt32 → Prop} (h : Wrote b b' R)
    (hb : b.NeverFails) : b'.NeverFails := fun n => by
  rw [h.fault]
  exact hb n

theorem store_of_ne (disk : UInt32 → Sector) (lba : UInt32) (buf : ℕ → Sector) (n : ℕ)
    (a : UInt32) (ha : ∀ k < n, a ≠ lba + UInt32.ofNat k) : store disk lba buf n a = disk a := by
  induction n with
  | zero => rfl
  | succ n ih =>
    rw [store, Function.update_of_ne (ha n (Nat.lt_succ_self n))]
    exact ih fun k hk => ha k (Nat.lt_succ_of_lt hk)

theorem store_of_lt (disk : UInt32 → Sector) (lba : UInt32) (buf : ℕ → Sector) {n k : ℕ}
    (hn : n ≤ 4294967296) (hk : k < n) : store disk lba buf n (lba + UInt32.ofNat k) = buf k := by
  induction n with
  | zero => omega
  | succ n ih =>
    rw [store]
    by_cases he : k = n
    · rw [he, Function.update_self]
    · rw [Function.update_of_ne, ih (by omega) (by omega)]
      intro hadd
      have hof : UInt32.ofNat k = UInt32.ofNat n := by grind
      have hval := congrArg UInt32.toNat hof
      rw [UInt32.toNat_ofNat_of_lt' (by change k < 4294967296; omega),
        UInt32.toNat_ofNat_of_lt' (by change n < 4294967296; omega)] at hval
      exact he hval

theorem wrote_write (b : Backend) (lba : UInt32) (count : ℕ) (buf : ℕ → Sector) :
    Wrote b (b.write lba count buf).2 fun a => ∃ k < count, a = lba + UInt32.ofNat k := by
  have hlog : ∀ e ∈ (lba, count) :: b.log,
      e ∈ b.log ∨ ∀ k < e.2, ∃ k' < count, e.1 + UInt32.ofNat k = lba + UInt32.ofNat k' := by
    intro e he
    rcases List.mem_cons.mp he with rfl | he
    · exact Or.inr fun k hk => ⟨k, hk, rfl⟩
    · exact Or.inl he
  unfold write
  dsimp only
  split
  · refine ⟨rfl, fun a ha => store_of_ne _ _ _ _ _ fun k hk he => ha ⟨k, hk, he⟩, hlog⟩
  · refine ⟨rfl, fun a ha => store_of_ne _ _ _ _ _ fun k hk he => ha ⟨k, ?_, he⟩, hlog⟩
    omega

theorem wrote_read (b : Backend) (lba : UInt32) (count : ℕ) (buf : ℕ → Sector)
    (R : UInt32 → Prop) : Wrote b (b.read lba count buf).2.2 R := by
  unfold read
  dsimp only
  split <;> exact ⟨rfl, fun _ _ => rfl, fun _ he => Or.inl he⟩

end Backend

/-- A disk of zeros that never fails. -/
def zeroDisk : Backend :=
  ⟨fun _ _ => 0, fun _ => none, 0, []⟩

end VernisOS
