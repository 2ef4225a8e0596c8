import VernisOS.BcacheRefinement

/-!
# Runs of the block cache

Over a disk that never fails every read returns the bytes last written, and a flush that
reports success leaves them on the disk (`bcache_transparent`). Over a failing disk that
holds for the acknowledged writes of every run whose misses are safe
(`bcache_acknowledged`). Both miss paths ignore the result of the write-back they make,
so a run with one failed write-back loses a write it has acknowledged
(`bcache_acknowledged_lost`).
-/

open Run Slots

namespace VernisOS

/-! ## A disk that never fails -/

namespace Bcache

variable {c : Bcache}

theorem readsOk_of_neverFails (lba : UInt32) (n s : ℕ) (c : Bcache)
    (hc : c.real.NeverFails) : ReadsOk lba s n c := by
  induction n generalizing s c with
  | zero => trivial
  | succ n ih =>
    rw [ReadsOk]
    refine ⟨fun _ => ⟨fun _ => hc _, fun _ => hc _⟩, fun _ => ih _ _ fun k => ?_⟩
    rw [(sameEnv_bcacheReadSector c _).2]
    exact hc k

theorem writesOk_of_neverFails (lba : UInt32) (buf : ℕ → Sector) :
    ∀ (n s : ℕ) (c : Bcache), c.real.NeverFails → WritesOk lba buf s n c
  | 0, _, _, _ => trivial
  | n + 1, s, c, hc => by
    refine ⟨fun _ _ => hc _, writesOk_of_neverFails lba buf n (s + 1) _ fun k => ?_⟩
    rw [(sameEnv_bcacheWriteSector c _ _).2]
    exact hc k

theorem bcacheReadSector_isSome (hc : c.real.NeverFails) (sector : UInt32) :
    (c.bcacheReadSector sector).1.isSome = true := by
  unfold bcacheReadSector
  cases c.bcacheFind sector with
  | some i => rfl
  | none =>
    have hf := fun i => evict_fault c.countMiss i
    simp only
    rw [(fillBlock_ok (by rw [hf]; exact hc _) _ _).1, if_neg (by decide)]
    rfl

theorem bcacheReadFrom_ok (lba : UInt32) (n s : ℕ) (c : Bcache) (buf : ℕ → Sector)
    (hc : c.real.NeverFails) : (bcacheReadFrom lba s n c buf).1 = true := by
  induction n generalizing s c buf with
  | zero => rfl
  | succ n ih =>
    have hs := bcacheReadSector_isSome hc (lba + UInt32.ofNat s)
    have henv := sameEnv_bcacheReadSector c (lba + UInt32.ofNat s)
    rw [bcacheReadFrom]
    rcases hr : c.bcacheReadSector (lba + UInt32.ofNat s) with ⟨_ | d, c'⟩
    · rw [hr] at hs
      simp at hs
    · rw [hr] at henv
      exact ih _ _ _ fun k => by rw [henv.2]; exact hc k

end Bcache

theorem BcacheOp.safe_of_neverFails {c : Bcache} (hc : c.real.NeverFails) (op : BcacheOp) :
    op.Safe c := by
  cases op with
  | read lba count buf => exact Bcache.readsOk_of_neverFails lba _ _ c hc
  | write lba count buf => exact Bcache.writesOk_of_neverFails lba buf _ _ c hc
  | sync => trivial
  | tick => trivial

/-- A run over a disk that never fails keeps the map of the bytes last written. -/
theorem rep_bcacheRun (c : Bcache) (m : UInt32 → Sector) (h : c.Rep m) (hr : c.ready = true)
    (hc : c.real.NeverFails) (ops : List BcacheOp) :
    (ops.foldl bcacheStep c).Rep (ops.foldl BcacheOp.wrote m) ∧
      Bcache.SameEnv c (ops.foldl bcacheStep c) := by
  induction ops generalizing c m with
  | nil => exact ⟨h, Bcache.SameEnv.refl c⟩
  | cons op ops ih =>
    have henv := sameEnv_bcacheStep c op
    obtain ⟨hrep, henv'⟩ := ih _ _ (rep_bcacheStep h hr op (op.safe_of_neverFails hc))
      (henv.1.trans hr) fun k => by rw [henv.2]; exact hc k
    exact ⟨hrep, henv.trans henv'⟩

/-- After any run over a disk that never fails, a read succeeds and returns for each
sector the bytes last written to it, and a flush that reports success leaves them on the
disk. -/
theorem bcache_transparent (real : Backend) (hreal : real.NeverFails) (ops : List BcacheOp) :
    (∀ (lba : UInt32) (count : UInt8) (buf : ℕ → Sector),
      ((ops.foldl bcacheStep (Bcache.bcacheInit real)).bcacheRead lba count buf).1 =
          count.toNat ∧
        ∀ k < count.toNat,
          ((ops.foldl bcacheStep (Bcache.bcacheInit real)).bcacheRead lba count buf).2.1 k =
            lastWritten real.disk ops (lba + UInt32.ofNat k)) ∧
      ((ops.foldl bcacheStep (Bcache.bcacheInit real)).bcacheSync.1 = 0 →
        (ops.foldl bcacheStep (Bcache.bcacheInit real)).bcacheSync.2.real.disk =
          lastWritten real.disk ops) := by
  obtain ⟨hrep, henv⟩ :=
    rep_bcacheRun _ _ (Bcache.rep_bcacheInit real) rfl hreal ops
  generalize ops.foldl bcacheStep (Bcache.bcacheInit real) = c at *
  have hready : c.ready = true := henv.1
  have hc : c.real.NeverFails := fun k => by rw [henv.2]; exact hreal k
  refine ⟨fun lba count buf => ?_, (Bcache.bcacheSync_spec hrep).2⟩
  have hok := Bcache.bcacheReadFrom_ok lba count.toNat 0 c buf hc
  simp only [Bcache.bcacheRead, hready, Bool.not_true, Bool.false_eq_true, if_false, hok, if_true]
  refine ⟨trivial, fun k hk => ?_⟩
  rw [(Bcache.bcacheReadFrom_spec lba _ _ c buf hrep
    (Bcache.readsOk_of_neverFails lba _ _ c hc)).2 hok k, if_pos (by omega)]
  rfl

/-- One sector written and read back. -/
theorem bcache_transparent_zeroDisk :
    zeroDisk.NeverFails ∧
      ((bcacheStep (Bcache.bcacheInit zeroDisk) (.write 7 1 fun _ _ => 3)).bcacheRead
        7 1 fun _ _ => 0).2.1 0 = fun _ => 3 := by
  have hz : zeroDisk.NeverFails := fun _ => rfl
  refine ⟨hz, ?_⟩
  have h := ((bcache_transparent zeroDisk hz [.write 7 1 fun _ _ => 3]).1 7 1 fun _ _ => 0).2 0
    (by decide)
  exact h

/-! ## A disk that fails -/

/-- The bytes of the writes acknowledged so far, after one more call. -/
def BcacheOp.acked (c : Bcache) (m : UInt32 → Sector) : BcacheOp → UInt32 → Sector
  | .write lba count buf =>
    if 0 ≤ (c.bcacheWrite lba count buf).1 then Bcache.wroteFrom lba buf 0 count.toNat m else m
  | _ => m

/-- A call on the cache, beside the map of the acknowledged bytes. -/
def ackStep (s : Bcache × (UInt32 → Sector)) (op : BcacheOp) :
    Option (Bcache × (UInt32 → Sector)) :=
  some (bcacheStep s.1 op, op.acked s.1 s.2)

/-- A read that reports success returns the acknowledged bytes. -/
def Faithful (s : Bcache × (UInt32 → Sector)) : BcacheOp → Prop
  | .read lba count buf =>
    0 ≤ (s.1.bcacheRead lba count buf).1 →
      ∀ k < count.toNat, (s.1.bcacheRead lba count buf).2.1 k = s.2 (lba + UInt32.ofNat k)
  | _ => True

/-- The misses of the call are safe, in the cache it is made on. -/
def SafeCall (s : Bcache × (UInt32 → Sector)) (op : BcacheOp) : Prop :=
  op.Safe s.1

theorem acked_eq_wrote {c : Bcache} (hr : c.ready = true) (m : UInt32 → Sector)
    (op : BcacheOp) : op.acked c m = op.wrote m := by
  cases op with
  | write lba count buf =>
    simp only [BcacheOp.acked, BcacheOp.wrote, Bcache.bcacheWrite, hr]
    exact if_pos (Int.natCast_nonneg _)
  | read lba count buf => rfl
  | sync => rfl
  | tick => rfl

theorem faithful_of_rep {s : Bcache × (UInt32 → Sector)} (h : s.1.Rep s.2)
    (hr : s.1.ready = true) (op : BcacheOp) (hok : SafeCall s op) : Faithful s op := by
  cases op with
  | read lba count buf =>
    intro hrc k hk
    have hspec := (Bcache.bcacheReadFrom_spec lba _ _ s.1 buf h hok).2
    simp only [Bcache.bcacheRead, hr, Bool.not_true, Bool.false_eq_true, if_false] at hrc ⊢
    by_cases hb : (Bcache.bcacheReadFrom lba 0 count.toNat s.1 buf).1 = true
    · rw [hspec hb k, if_pos (by omega)]
    · rw [if_neg hb] at hrc
      exact absurd hrc (by decide)
  | write lba count buf => trivial
  | sync => trivial
  | tick => trivial

/-- Whatever calls of the disk fail, a run whose misses are safe loses no acknowledged
write : every read that reports success returns the acknowledged bytes. -/
theorem bcache_acknowledged (real : Backend) (ops : List BcacheOp)
    (hsafe : Along ackStep SafeCall (Bcache.bcacheInit real, real.disk) ops) :
    Along ackStep Faithful (Bcache.bcacheInit real, real.disk) ops := by
  refine Along.mono_inv (I := fun s => s.1.Rep s.2 ∧ s.1.ready = true) ?_ ?_ ops _
    ⟨Bcache.rep_bcacheInit real, rfl⟩ hsafe
  · rintro s op s' ⟨hrep, hr⟩ hok hstep
    obtain rfl := Option.some.inj hstep
    refine ⟨?_, (sameEnv_bcacheStep s.1 op).1.trans hr⟩
    rw [acked_eq_wrote hr]
    exact rep_bcacheStep hrep hr op hok
  · rintro s op ⟨hrep, hr⟩ hok
    exact faithful_of_rep hrep hr op hok

/-- A disk of zeros whose first call fails. -/
def failingDisk : Backend :=
  ⟨fun _ _ => 0, fun n => if n = 0 then some ⟨0, fun _ _ => 7⟩ else none, 0, []⟩

/-- The read that fails reuses an empty slot, so the run is safe. -/
theorem bcache_acknowledged_failedRead :
    Along ackStep SafeCall (Bcache.bcacheInit failingDisk, failingDisk.disk)
        [.read 5 1 fun _ _ => 0] ∧
      Along ackStep Faithful (Bcache.bcacheInit failingDisk, failingDisk.disk)
        [.read 5 1 fun _ _ => 0] := by
  have hsafe : Along ackStep SafeCall (Bcache.bcacheInit failingDisk, failingDisk.disk)
      [.read 5 1 fun _ _ => 0] := by
    refine ⟨⟨fun _ => ⟨fun h => ?_, fun h => ?_⟩, fun _ => trivial⟩, fun _ _ => trivial⟩
    · cases h
    · cases h
  exact ⟨hsafe, bcache_acknowledged failingDisk _ hsafe⟩

/-- A sector of ones. -/
def onesSector : Sector :=
  fun _ => 1

/-- The cache over `failingDisk` once the sectors below `n` hold ones. -/
def filledCache (n : ℕ) : Bcache :=
  { Bcache.bcacheInit failingDisk with
    cache := fun i => if i.val < n then
        ⟨UInt32.ofNat i.val, true, true, UInt32.ofNat (i.val + 1), onesSector⟩
      else ⟨0, false, false, 0, fun _ => 0⟩
    tick := UInt32.ofNat n }

theorem bcacheWriteSector_filledCache {n : ℕ} (hn : n < bcacheNumBlocks) :
    (filledCache n).bcacheWriteSector (UInt32.ofNat n) onesSector = filledCache (n + 1) := by
  have hfind : (filledCache n).bcacheFind (UInt32.ofNat n) = none := by
    rw [Bcache.bcacheFind, first_none]
    intro i
    by_cases hi : i.val < n
    · have hne : UInt32.ofNat i.val ≠ UInt32.ofNat n := by
        intro he
        have := congrArg UInt32.toNat he
        have hn64 : n < 64 := hn
        simp only [UInt32.toNat_ofNat'] at this
        omega
      simp [filledCache, hi, hne]
    · simp [filledCache, hi]
  have hlru : (filledCache n).bcacheLru = ⟨n, hn⟩ := by
    refine Bcache.bcacheLru_invalid (first_eq_some.mpr ⟨?_, fun j hj => ?_⟩)
    · simp [filledCache]
    · by_contra hlt
      have hjn : j.val < n := not_le.mp hlt
      simp [filledCache, hjn] at hj
  have hevict : (filledCache n).evict ⟨n, hn⟩ = filledCache n := by
    simp [Bcache.evict, filledCache]
  rw [Bcache.bcacheWriteSector, hfind, hlru]
  simp only [hevict]
  simp only [Bcache.bumpTick, Bcache.setBlock, filledCache, Bcache.mk.injEq, and_true, true_and]
  refine ⟨funext fun i => ?_, by simp⟩
  by_cases hi : i = ⟨n, hn⟩
  · subst hi
    simp
  · have hne : i.val ≠ n := fun he => hi (Fin.ext he)
    rw [Function.update_of_ne hi]
    by_cases hlt : i.val < n
    · simp [hlt, Nat.lt_succ_of_lt hlt]
    · have hlt' : ¬ i.val < n + 1 := by omega
      simp [hlt, hlt']

theorem bcacheWriteFrom_filledCache (k n : ℕ) (hn : n + k ≤ bcacheNumBlocks) :
    Bcache.bcacheWriteFrom 0 (fun _ => onesSector) n k (filledCache n) = filledCache (n + k) := by
  induction k generalizing n with
  | zero => rfl
  | succ k ih =>
    rw [Bcache.bcacheWriteFrom, UInt32.zero_add, bcacheWriteSector_filledCache (by omega),
      ih (n + 1) (by omega)]
    congr 1
    omega

/-- Filling the cache with dirty blocks. -/
theorem bcacheWrite_filledCache :
    (Bcache.bcacheInit failingDisk).bcacheWrite 0 64 (fun _ => onesSector) =
      (64, filledCache 64) := by
  have hinit : Bcache.bcacheInit failingDisk = filledCache 0 := by
    simp [filledCache, Bcache.bcacheInit]
  rw [hinit, Bcache.bcacheWrite, if_neg (by decide)]
  exact congrArg (Prod.mk _) (bcacheWriteFrom_filledCache 64 0 (by decide))

/-- The sector that needs the slot of sector 0, whose write-back is the call that fails. -/
theorem bcacheRead_evicted :
    0 ≤ (((filledCache 64).bcacheWrite 64 1 fun _ => onesSector).2.bcacheRead 0 1
        fun _ _ => 0).1 ∧
      (((filledCache 64).bcacheWrite 64 1 fun _ => onesSector).2.bcacheRead 0 1
        fun _ _ => 0).2.1 0 0 = 0 := by
  decide +kernel

/-- Both writes are acknowledged, and the read of sector 0 then succeeds with the bytes
that were on the disk before. -/
theorem bcache_acknowledged_lost :
    ¬ Along ackStep Faithful (Bcache.bcacheInit failingDisk, failingDisk.disk)
      [.write 0 64 fun _ => onesSector, .write 64 1 fun _ => onesSector,
        .read 0 1 fun _ _ => 0] := by
  rintro ⟨-, h⟩
  obtain ⟨-, h⟩ := h _ rfl
  obtain ⟨h, -⟩ := h _ rfl
  simp only [Faithful, bcacheStep, BcacheOp.acked, bcacheWrite_filledCache] at h
  have hlost := h bcacheRead_evicted.1 0 (by decide)
  have hzero := bcacheRead_evicted.2
  rw [hlost] at hzero
  revert hzero
  decide +kernel

end VernisOS
