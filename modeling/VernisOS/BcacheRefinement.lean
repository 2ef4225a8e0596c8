import VernisOS.Bcache
import VernisOS.Lib.Run
import VernisOS.Lib.WriteBack

/-!
# The block cache is transparent

The slots over the captured disk stand for one map from sectors to contents
(`Bcache.Rep`), the last bytes written to each sector (`lastWritten`). Every call keeps
that, as long as the miss path meets `EvictOk` and `FillOk` : the write-back of a dirty
victim does not fail, and a sector is not read into a valid block by a call that fails.
A disk that never fails meets both.
-/

open Slots WriteBack

namespace VernisOS

namespace BcacheBlock

/-- A block as a slot of a write-back table. -/
def line (b : BcacheBlock) : Line UInt32 Sector :=
  ⟨b.lba, b.valid, b.dirty, b.data⟩

@[simp] theorem line_key (b : BcacheBlock) : b.line.key = b.lba := rfl
@[simp] theorem line_valid (b : BcacheBlock) : b.line.valid = b.valid := rfl
@[simp] theorem line_dirty (b : BcacheBlock) : b.line.dirty = b.dirty := rfl
@[simp] theorem line_val (b : BcacheBlock) : b.line.val = b.data := rfl

end BcacheBlock

namespace Bcache

/-- The slots of the cache. -/
def lines (c : Bcache) : Fin bcacheNumBlocks → Line UInt32 Sector :=
  fun i => (c.cache i).line

/-- The cache over its disk stands for `m`. -/
def Rep (c : Bcache) (m : UInt32 → Sector) : Prop :=
  Represents c.lines c.real.disk m

@[simp] theorem lines_setBlock (c : Bcache) (i : Fin bcacheNumBlocks) (b : BcacheBlock) :
    (c.setBlock i b).lines = Function.update c.lines i b.line := by
  funext j
  by_cases hj : j = i
  · subst hj
    simp [lines, setBlock]
  · simp [lines, setBlock, hj]

@[simp] theorem setBlock_real (c : Bcache) (i : Fin bcacheNumBlocks) (b : BcacheBlock) :
    (c.setBlock i b).real = c.real := rfl

@[simp] theorem setBlock_cache_self (c : Bcache) (i : Fin bcacheNumBlocks) (b : BcacheBlock) :
    (c.setBlock i b).cache i = b := by
  simp [setBlock]

@[simp] theorem lines_bumpTick (c : Bcache) : c.bumpTick.lines = c.lines := rfl
@[simp] theorem lines_countHit (c : Bcache) : c.countHit.lines = c.lines := rfl
@[simp] theorem lines_countMiss (c : Bcache) : c.countMiss.lines = c.lines := rfl
@[simp] theorem lines_countWriteback (c : Bcache) : c.countWriteback.lines = c.lines := rfl
@[simp] theorem lines_countEviction (c : Bcache) : c.countEviction.lines = c.lines := rfl
@[simp] theorem lines_setReal (c : Bcache) (r : Backend) : (c.setReal r).lines = c.lines := rfl
@[simp] theorem bumpTick_real (c : Bcache) : c.bumpTick.real = c.real := rfl
@[simp] theorem countHit_real (c : Bcache) : c.countHit.real = c.real := rfl
@[simp] theorem countMiss_real (c : Bcache) : c.countMiss.real = c.real := rfl
@[simp] theorem countWriteback_real (c : Bcache) : c.countWriteback.real = c.real := rfl
@[simp] theorem countEviction_real (c : Bcache) : c.countEviction.real = c.real := rfl
@[simp] theorem setReal_real (c : Bcache) (r : Backend) : (c.setReal r).real = r := rfl

theorem bcacheFind_some {c : Bcache} {lba : UInt32} {i : Fin bcacheNumBlocks}
    (h : c.bcacheFind lba = some i) : (c.cache i).valid = true ∧ (c.cache i).lba = lba := by
  simpa using first_some h

theorem bcacheFind_none {c : Bcache} {lba : UInt32} (h : c.bcacheFind lba = none)
    (i : Fin bcacheNumBlocks) (hi : (c.cache i).valid = true) : (c.cache i).lba ≠ lba := by
  simpa [hi] using first_none.mp h i

theorem bcacheLruFrom_countMiss (c : Bcache) (is : List (Fin bcacheNumBlocks))
    (best : Fin bcacheNumBlocks) (t : UInt32) :
    c.countMiss.bcacheLruFrom is best t = c.bcacheLruFrom is best t := by
  have hc : c.countMiss.cache = c.cache := rfl
  induction is generalizing best t with
  | nil => rfl
  | cons i is ih => simp only [bcacheLruFrom, ih, hc]

/-! ## Write-back and eviction -/

/-- A write-back that succeeds, or finds nothing to write, leaves the block clean. -/
theorem bcacheWriteback_ok {c : Bcache} {m : UInt32 → Sector} (h : c.Rep m)
    (i : Fin bcacheNumBlocks)
    (hok : (c.cache i).dirty = true → c.real.fault c.real.calls = none) :
    (c.bcacheWriteback i).1 = 0 ∧ (c.bcacheWriteback i).2.Rep m ∧
      (c.bcacheWriteback i).2.lines =
        Function.update c.lines i { c.lines i with dirty := false } := by
  by_cases hd : (c.cache i).dirty = true
  · have hw := Backend.write_one_ok (hok hd) (c.cache i).lba fun _ => (c.cache i).data
    have hlines : (c.bcacheWriteback i).2.lines =
        Function.update c.lines i { c.lines i with dirty := false } := by
      simp only [bcacheWriteback, hd, hw]
      exact lines_setBlock _ _ _
    refine ⟨by simp [bcacheWriteback, hd, hw], ?_, hlines⟩
    have hdisk : (c.bcacheWriteback i).2.real.disk =
        Function.update c.real.disk (c.lines i).key (c.lines i).val := by
      simp [bcacheWriteback, hd, hw, Backend.logged, lines]
    unfold Rep
    rw [hlines, hdisk]
    exact h.writeback i hd
  · have hd' : (c.cache i).dirty = false := by simpa using hd
    have he : c.bcacheWriteback i = (0, c) := by simp [bcacheWriteback, hd']
    rw [he]
    refine ⟨rfl, h, (Function.update_eq_self_iff.mpr ?_).symm⟩
    simp [lines, BcacheBlock.line, hd']

/-- A failed write-back changes neither the slots nor the disk. -/
theorem bcacheWriteback_fail {c : Bcache} {m : UInt32 → Sector} (h : c.Rep m)
    (i : Fin bcacheNumBlocks) {f : IoFault} (hd : (c.cache i).dirty = true)
    (hf : c.real.fault c.real.calls = some f) :
    (c.bcacheWriteback i).1 = -1 ∧ (c.bcacheWriteback i).2.Rep m := by
  have hw := Backend.write_one_fail hf (c.cache i).lba fun _ => (c.cache i).data
  simp only [bcacheWriteback, hd, hw]
  exact ⟨rfl, h⟩

@[simp] theorem bcacheWriteback_ready (c : Bcache) (i : Fin bcacheNumBlocks) :
    (c.bcacheWriteback i).2.ready = c.ready := by
  unfold bcacheWriteback
  split
  · rfl
  · dsimp only
    split <;> rfl

@[simp] theorem bcacheWriteback_fault (c : Bcache) (i : Fin bcacheNumBlocks) :
    (c.bcacheWriteback i).2.real.fault = c.real.fault := by
  unfold bcacheWriteback
  split
  · rfl
  · dsimp only
    split <;> exact Backend.write_fault _ _ _ _

/-- Evicting slot `i` loses nothing : it is clean, or its write-back succeeds. -/
def EvictOk (c : Bcache) (i : Fin bcacheNumBlocks) : Prop :=
  (c.cache i).dirty = true → c.real.fault c.real.calls = none

/-- Slot `i` can be read into : it is not valid, or the read, which is the disk's next
call once a dirty block is written back, succeeds. -/
def FillOk (c : Bcache) (i : Fin bcacheNumBlocks) : Prop :=
  (c.cache i).valid = true →
    c.real.fault (c.real.calls + if (c.cache i).dirty then 1 else 0) = none

theorem evict_spec {c : Bcache} {m : UInt32 → Sector} (h : c.Rep m) (i : Fin bcacheNumBlocks)
    (hok : c.EvictOk i) : (c.evict i).Rep m ∧
      (c.evict i).lines = Function.update c.lines i { c.lines i with dirty := false } := by
  unfold evict
  by_cases hd : (c.cache i).dirty = true
  · have hw := bcacheWriteback_ok h i hok
    rw [if_pos hd]
    exact hw.2
  · have hd' : (c.cache i).dirty = false := by simpa using hd
    have hl : Function.update c.lines i { c.lines i with dirty := false } = c.lines :=
      Function.update_eq_self_iff.mpr (by simp [lines, BcacheBlock.line, hd'])
    rw [if_neg hd, hl]
    split
    · exact ⟨h, rfl⟩
    · exact ⟨h, rfl⟩

@[simp] theorem evict_ready (c : Bcache) (i : Fin bcacheNumBlocks) :
    (c.evict i).ready = c.ready := by
  unfold evict
  split
  · exact bcacheWriteback_ready c i
  · split <;> rfl

@[simp] theorem evict_fault (c : Bcache) (i : Fin bcacheNumBlocks) :
    (c.evict i).real.fault = c.real.fault := by
  unfold evict
  split
  · simp
  · split <;> rfl

theorem evict_calls (c : Bcache) (i : Fin bcacheNumBlocks) :
    (c.evict i).real.calls = c.real.calls + if (c.cache i).dirty then 1 else 0 := by
  unfold evict
  by_cases hd : (c.cache i).dirty = true
  · simp only [hd, if_true, bcacheWriteback, Bool.not_true, Bool.false_eq_true, if_false]
    split <;> exact Backend.write_calls _ _ _ _
  · rw [if_neg hd, if_neg hd]
    split <;> rfl

/-! ## One sector of a request -/

/-- The miss path of a read at `sector` is safe. -/
def ReadOk (c : Bcache) (sector : UInt32) : Prop :=
  c.bcacheFind sector = none → c.EvictOk c.bcacheLru ∧ c.FillOk c.bcacheLru

/-- The miss path of a write at `sector` is safe. -/
def WriteOk (c : Bcache) (sector : UInt32) : Prop :=
  c.bcacheFind sector = none → c.EvictOk c.bcacheLru

/-- Dropping the clean block of slot `i`, whose sector may still be cached elsewhere. -/
theorem evict_free {c : Bcache} {m : UInt32 → Sector} (h : c.Rep m) (i : Fin bcacheNumBlocks)
    (hok : c.EvictOk i) {sector : UInt32} (hfind : c.bcacheFind sector = none) :
    ∃ l : Fin bcacheNumBlocks → Line UInt32 Sector, Represents l (c.evict i).real.disk m ∧
      (l i).valid = false ∧ (∀ j, (l j).valid = true → (l j).key ≠ sector) ∧
      ∀ x, Function.update l i x = Function.update (c.evict i).lines i x := by
  obtain ⟨hrep, hl⟩ := evict_spec h i hok
  have hclean : ((c.evict i).lines i).dirty = false := by rw [hl]; simp
  refine ⟨Function.update (c.evict i).lines i ⟨0, false, false, fun _ => 0⟩,
    hrep.drop i hclean _ rfl rfl, by simp, ?_, by simp⟩
  intro j hj
  by_cases hji : j = i
  · subst hji
    simp at hj
  · rw [Function.update_of_ne hji, hl, Function.update_of_ne hji] at hj ⊢
    exact bcacheFind_none hfind j hj

/-- A successful read fills the block from the disk. -/
theorem fillBlock_ok {c : Bcache} (hf : c.real.fault c.real.calls = none)
    (i : Fin bcacheNumBlocks) (sector : UInt32) :
    (c.fillBlock i sector).1 = 1 ∧
      (c.fillBlock i sector).2.lines =
        Function.update c.lines i { c.lines i with val := c.real.disk sector } ∧
      ((c.fillBlock i sector).2.cache i).data = c.real.disk sector ∧
      (c.fillBlock i sector).2.real.disk = c.real.disk := by
  obtain ⟨hrc, hbuf⟩ :=
    Prod.mk.inj (Backend.read_one_ok hf sector fun _ => (c.cache i).data)
  refine ⟨hrc, ?_, ?_, ?_⟩
  · simp only [fillBlock, lines_setBlock, lines_setReal, hbuf]
    rfl
  · simp only [fillBlock, setBlock_cache_self, hbuf]
  · simp [fillBlock]

/-- A failed read leaves the block's bytes undetermined, and nothing else. -/
theorem fillBlock_fail {c : Bcache} {f : IoFault} (hf : c.real.fault c.real.calls = some f)
    (i : Fin bcacheNumBlocks) (sector : UInt32) :
    (c.fillBlock i sector).1 = -1 ∧
      (∃ v, (c.fillBlock i sector).2.lines =
        Function.update c.lines i { c.lines i with val := v }) ∧
      (c.fillBlock i sector).2.real.disk = c.real.disk := by
  refine ⟨Backend.read_one_fail hf _ _, ?_, ?_⟩
  · simp only [fillBlock, lines_setBlock, lines_setReal]
    exact ⟨_, rfl⟩
  · simp [fillBlock]

/-- One sector read : what is returned is the map's, and the map stays. -/
theorem bcacheReadSector_spec {c : Bcache} {m : UInt32 → Sector} (h : c.Rep m)
    (sector : UInt32) (hok : c.ReadOk sector) :
    (c.bcacheReadSector sector).2.Rep m ∧
      ∀ d, (c.bcacheReadSector sector).1 = some d → d = m sector := by
  unfold bcacheReadSector
  cases hfind : c.bcacheFind sector with
  | some i =>
    obtain ⟨hv, hlba⟩ := bcacheFind_some hfind
    refine ⟨?_, fun d hd => ?_⟩
    · simp only [Rep, lines_setBlock, lines_bumpTick, lines_countHit, setBlock_real,
        bumpTick_real, countHit_real]
      rw [Function.update_eq_self_iff.mpr]
      · exact h
      · rfl
    · obtain rfl := Option.some.inj hd
      rw [← hlba]
      exact h.hit i hv
  | none =>
    obtain ⟨hev, hfill⟩ := hok hfind
    have h₁ : c.countMiss.Rep m := h
    obtain ⟨l, hrep, hfree, hne, hup⟩ := evict_free h₁ c.bcacheLru hev hfind
    have hlru : c.countMiss.bcacheLru = c.bcacheLru := bcacheLruFrom_countMiss c _ _ _
    simp only [hlru]
    generalize c.bcacheLru = slot at *
    have hcalls := evict_calls c.countMiss slot
    generalize hc' : c.countMiss.evict slot = c' at *
    cases hfault : c'.real.fault c'.real.calls with
    | none =>
      obtain ⟨hrc, hlines, hdata, hdisk⟩ := fillBlock_ok hfault slot sector
      rw [hrc, if_neg (by decide)]
      refine ⟨?_, fun d hd => ?_⟩
      · have hfilled := hrep.fill slot hfree sector hne
        rw [hup] at hfilled
        have hdata' : ((c'.fillBlock slot sector).2.bumpTick.cache slot).data =
          c'.real.disk sector := hdata
        simp only [Rep, lines_setBlock, lines_bumpTick, hlines, Function.update_idem,
          setBlock_real, bumpTick_real, hdisk, hdata']
        exact hfilled
      · obtain rfl := Option.some.inj hd
        exact hdata.trans (hrep.miss sector hne)
    | some f =>
      obtain ⟨hrc, ⟨v, hlines⟩, hdisk⟩ := fillBlock_fail hfault slot sector
      rw [hrc, if_pos (by decide)]
      refine ⟨?_, fun d hd => by simp at hd⟩
      -- the fault excludes a valid victim, so the bytes left in the block are not read
      have hv : (c.cache slot).valid = false := by
        by_contra hv
        have hnone := hfill (by simpa using hv)
        have hfault' := evict_fault c.countMiss slot
        rw [hc'] at hfault'
        rw [hcalls, hfault'] at hfault
        exact absurd (hnone.symm.trans hfault) (by simp)
      have hl := (evict_spec h₁ slot hev).2
      rw [hc', lines_countMiss] at hl
      have hdropped := hrep.drop slot
        (by_contra fun hd => by simpa [hfree] using hrep.dirty_valid slot (by simpa using hd))
        { c'.lines slot with val := v } (by rw [hl]; simpa [lines] using hv)
        (by rw [hl]; simp)
      rw [hup] at hdropped
      simp only [Rep, hlines, hdisk]
      exact hdropped

/-- One sector written : the map takes the new bytes. -/
theorem bcacheWriteSector_spec {c : Bcache} {m : UInt32 → Sector} (h : c.Rep m)
    (sector : UInt32) (data : Sector) (hok : c.WriteOk sector) :
    (c.bcacheWriteSector sector data).Rep (Function.update m sector data) := by
  unfold bcacheWriteSector
  cases hfind : c.bcacheFind sector with
  | some i =>
    obtain ⟨hv, hlba⟩ := bcacheFind_some hfind
    have hput := h.put i sector data (Or.inl ⟨hv, hlba⟩)
    simp only [Rep, lines_setBlock, lines_bumpTick, setBlock_real, bumpTick_real]
    rw [← hlba] at hput ⊢
    exact hput
  | none =>
    obtain ⟨l, hrep, hfree, hne, hup⟩ := evict_free h c.bcacheLru (hok hfind) hfind
    have hput := hrep.put c.bcacheLru sector data (Or.inr ⟨hfree, hne⟩)
    rw [hup] at hput
    simp only [Rep, lines_setBlock, lines_bumpTick, setBlock_real, bumpTick_real]
    exact hput

/-! ## Whole calls -/

/-- Every sector of a read, in the state the loop reaches it, is safe. -/
def ReadsOk (lba : UInt32) (s : ℕ) : ℕ → Bcache → Prop
  | 0, _ => True
  | n + 1, c => c.ReadOk (lba + UInt32.ofNat s) ∧
    ((c.bcacheReadSector (lba + UInt32.ofNat s)).1.isSome = true →
      ReadsOk lba (s + 1) n (c.bcacheReadSector (lba + UInt32.ofNat s)).2)

/-- Every sector of a write, in the state the loop reaches it, is safe. -/
def WritesOk (lba : UInt32) (buf : ℕ → Sector) (s : ℕ) : ℕ → Bcache → Prop
  | 0, _ => True
  | n + 1, c => c.WriteOk (lba + UInt32.ofNat s) ∧
    WritesOk lba buf (s + 1) n (c.bcacheWriteSector (lba + UInt32.ofNat s) (buf s))

theorem bcacheReadFrom_spec {m : UInt32 → Sector} (lba : UInt32) (n s : ℕ) (c : Bcache)
    (buf : ℕ → Sector) (h : c.Rep m) (hok : ReadsOk lba s n c) :
    (bcacheReadFrom lba s n c buf).2.2.Rep m ∧
      ((bcacheReadFrom lba s n c buf).1 = true → ∀ k,
        (bcacheReadFrom lba s n c buf).2.1 k =
          if s ≤ k ∧ k < s + n then m (lba + UInt32.ofNat k) else buf k) := by
  induction n generalizing s c buf with
  | zero =>
    refine ⟨h, fun _ k => ?_⟩
    rw [if_neg (by omega)]
    rfl
  | succ n ih =>
    rw [ReadsOk] at hok
    obtain ⟨hok, hok'⟩ := hok
    obtain ⟨hrep, hval⟩ := bcacheReadSector_spec h _ hok
    rw [bcacheReadFrom]
    rcases hr : c.bcacheReadSector (lba + UInt32.ofNat s) with ⟨_ | d, c'⟩
    · rw [hr] at hrep
      exact ⟨hrep, fun hf => by simp at hf⟩
    · simp only [hr, Option.isSome_some, true_implies] at hrep hval hok'
      obtain ⟨hrep', hall⟩ := ih (s + 1) c' (Function.update buf s d) hrep hok'
      refine ⟨hrep', fun ht k => ?_⟩
      rw [hall ht k]
      by_cases hks : k = s
      · subst hks
        rw [if_neg (by omega), if_pos (by omega), Function.update_self]
        exact hval d rfl
      · rw [Function.update_of_ne hks]
        by_cases hk : s + 1 ≤ k ∧ k < s + 1 + n
        · rw [if_pos hk, if_pos (by omega)]
        · rw [if_neg hk, if_neg (by omega)]

/-- The map after the sectors `s, …, s + n - 1` of a request are written. -/
def wroteFrom (lba : UInt32) (buf : ℕ → Sector) (s : ℕ) :
    ℕ → (UInt32 → Sector) → UInt32 → Sector
  | 0, m => m
  | n + 1, m => wroteFrom lba buf (s + 1) n (Function.update m (lba + UInt32.ofNat s) (buf s))

theorem bcacheWriteFrom_spec (lba : UInt32) (buf : ℕ → Sector) :
    ∀ (n s : ℕ) (c : Bcache) (m : UInt32 → Sector), c.Rep m → WritesOk lba buf s n c →
      (bcacheWriteFrom lba buf s n c).Rep (wroteFrom lba buf s n m)
  | 0, _, _, _, h, _ => h
  | n + 1, s, _, _, h, hok =>
    bcacheWriteFrom_spec lba buf n (s + 1) _ _ (bcacheWriteSector_spec h _ _ hok.1) hok.2

/-- The flush keeps the map, and reports no error only if every slot it went over is clean. -/
theorem bcacheSyncFrom_spec {m : UInt32 → Sector} :
    ∀ (is : List (Fin bcacheNumBlocks)) (err : Int) (c : Bcache), c.Rep m →
      (bcacheSyncFrom is err c).2.Rep m ∧
        ((bcacheSyncFrom is err c).1 = 0 → err = 0 ∧ ∀ i,
          ((bcacheSyncFrom is err c).2.cache i).dirty = true →
            (c.cache i).dirty = true ∧ i ∉ is)
  | [], err, c, h => ⟨h, fun he => ⟨he, fun i hi => ⟨hi, by simp⟩⟩⟩
  | i :: is, err, c, h => by
    unfold bcacheSyncFrom
    by_cases hd : (c.cache i).dirty = true
    · rw [if_pos hd]
      cases hf : c.real.fault c.real.calls with
      | none =>
        obtain ⟨hrc, hrep, hl⟩ := bcacheWriteback_ok h i fun _ => hf
        obtain ⟨hrep', herr⟩ := bcacheSyncFrom_spec is err _ hrep
        simp only [hrc, lt_irrefl, if_false]
        refine ⟨hrep', fun he => ⟨(herr he).1, fun j hj => ?_⟩⟩
        obtain ⟨hdj, hjis⟩ := (herr he).2 j hj
        have hlj := congrArg (fun l => (l j).dirty) hl
        by_cases hji : j = i
        · subst hji
          simp only [Function.update_self] at hlj
          exact absurd (hlj.symm.trans hdj) (by simp)
        · simp only [Function.update_of_ne hji] at hlj
          exact ⟨hlj.symm.trans hdj, by simp [hji, hjis]⟩
      | some f =>
        obtain ⟨hrc, hrep⟩ := bcacheWriteback_fail h i hd hf
        obtain ⟨hrep', herr⟩ := bcacheSyncFrom_spec is (-1) _ hrep
        simp only [hrc]
        exact ⟨hrep', fun he => absurd (herr he).1 (by decide)⟩
    · rw [if_neg hd]
      obtain ⟨hrep', herr⟩ := bcacheSyncFrom_spec is err c h
      refine ⟨hrep', fun he => ⟨(herr he).1, fun j hj => ?_⟩⟩
      obtain ⟨hdj, hjis⟩ := (herr he).2 j hj
      refine ⟨hdj, ?_⟩
      rw [List.mem_cons, not_or]
      exact ⟨fun hji => hd (hji ▸ hdj), hjis⟩

theorem bcacheSync_spec {c : Bcache} {m : UInt32 → Sector} (h : c.Rep m) :
    c.bcacheSync.2.Rep m ∧ (c.bcacheSync.1 = 0 → c.bcacheSync.2.real.disk = m) := by
  unfold bcacheSync
  split
  · exact ⟨h, fun he => by simp at he⟩
  · obtain ⟨hrep, herr⟩ := bcacheSyncFrom_spec (slots bcacheNumBlocks) 0 c h
    refine ⟨hrep, fun he => hrep.flushed fun i => ?_⟩
    by_contra hd
    exact ((herr he).2 i (by simpa [lines] using hd)).2 (mem_slots i)

theorem bcacheTick_spec {c : Bcache} {m : UInt32 → Sector} (h : c.Rep m) :
    c.bcacheTick.Rep m := by
  unfold bcacheTick
  split
  · exact h
  · dsimp only
    split
    · split
      · refine (bcacheSync_spec ?_).1
        exact h
      · exact h
    · exact h

theorem rep_bcacheInit (real : Backend) : (bcacheInit real).Rep real.disk :=
  represents_empty _ _ (fun _ => rfl) fun _ => rfl

/-! ## What no call changes -/

/-- `c'` is as ready as `c` and has a disk that fails at the same calls. -/
def SameEnv (c c' : Bcache) : Prop :=
  c'.ready = c.ready ∧ c'.real.fault = c.real.fault

theorem SameEnv.refl (c : Bcache) : SameEnv c c :=
  ⟨rfl, rfl⟩

theorem SameEnv.trans {c c' c'' : Bcache} (h : SameEnv c c') (h' : SameEnv c' c'') :
    SameEnv c c'' :=
  ⟨h'.1.trans h.1, h'.2.trans h.2⟩

theorem sameEnv_bcacheReadSector (c : Bcache) (sector : UInt32) :
    SameEnv c (c.bcacheReadSector sector).2 := by
  have hfill : ∀ i, SameEnv c ((c.countMiss.evict i).fillBlock i sector).2 := by
    intro i
    refine ⟨evict_ready c.countMiss i, ?_⟩
    simp [fillBlock]
  unfold bcacheReadSector
  split
  · exact SameEnv.refl c
  · dsimp only
    split <;> exact hfill _

theorem sameEnv_bcacheWriteSector (c : Bcache) (sector : UInt32) (d : Sector) :
    SameEnv c (c.bcacheWriteSector sector d) := by
  unfold bcacheWriteSector
  split
  · exact SameEnv.refl c
  · exact ⟨evict_ready _ _, evict_fault _ _⟩

theorem sameEnv_bcacheReadFrom (lba : UInt32) (n s : ℕ) (c : Bcache) (buf : ℕ → Sector) :
    SameEnv c (bcacheReadFrom lba s n c buf).2.2 := by
  induction n generalizing s c buf with
  | zero => exact SameEnv.refl c
  | succ n ih =>
    have hs := sameEnv_bcacheReadSector c (lba + UInt32.ofNat s)
    rw [bcacheReadFrom]
    rcases hr : c.bcacheReadSector (lba + UInt32.ofNat s) with ⟨_ | d, c'⟩
    · rw [hr] at hs
      exact hs
    · rw [hr] at hs
      exact hs.trans (ih _ _ _)

theorem sameEnv_bcacheWriteFrom (lba : UInt32) (buf : ℕ → Sector) :
    ∀ (n s : ℕ) (c : Bcache), SameEnv c (bcacheWriteFrom lba buf s n c)
  | 0, _, c => SameEnv.refl c
  | n + 1, s, c =>
    (sameEnv_bcacheWriteSector c _ _).trans (sameEnv_bcacheWriteFrom lba buf n (s + 1) _)

theorem sameEnv_bcacheSyncFrom :
    ∀ (is : List (Fin bcacheNumBlocks)) (err : Int) (c : Bcache),
      SameEnv c (bcacheSyncFrom is err c).2
  | [], _, c => SameEnv.refl c
  | i :: is, err, c => by
    unfold bcacheSyncFrom
    split
    · have hw : SameEnv c (c.bcacheWriteback i).2 :=
        ⟨bcacheWriteback_ready c i, bcacheWriteback_fault c i⟩
      exact hw.trans (sameEnv_bcacheSyncFrom is _ _)
    · exact sameEnv_bcacheSyncFrom is err c

theorem sameEnv_bcacheSync (c : Bcache) : SameEnv c c.bcacheSync.2 := by
  unfold bcacheSync
  split
  · exact SameEnv.refl c
  · exact sameEnv_bcacheSyncFrom _ _ _

end Bcache

theorem sameEnv_bcacheStep (c : Bcache) (op : BcacheOp) : Bcache.SameEnv c (bcacheStep c op) := by
  cases op with
  | read lba count buf =>
    unfold bcacheStep Bcache.bcacheRead
    dsimp only
    split
    · exact Bcache.SameEnv.refl c
    · exact Bcache.sameEnv_bcacheReadFrom _ _ _ _ _
  | write lba count buf =>
    unfold bcacheStep Bcache.bcacheWrite
    dsimp only
    split
    · exact Bcache.SameEnv.refl c
    · exact Bcache.sameEnv_bcacheWriteFrom _ _ _ _ _
  | sync => exact Bcache.sameEnv_bcacheSync c
  | tick =>
    unfold bcacheStep Bcache.bcacheTick
    dsimp only
    split
    · exact Bcache.SameEnv.refl c
    · split
      · split
        · exact Bcache.sameEnv_bcacheSync { c with flushCounter := 0 }
        · exact Bcache.SameEnv.refl c
      · exact Bcache.SameEnv.refl c

namespace Bcache

/-- The scan for a victim stops at the first invalid slot. -/
theorem bcacheLruFrom_invalid {c : Bcache} {k : Fin bcacheNumBlocks} :
    ∀ (is : List (Fin bcacheNumBlocks)) (best : Fin bcacheNumBlocks) (t : UInt32),
      is.find? (fun i => !(c.cache i).valid) = some k → c.bcacheLruFrom is best t = k
  | [], _, _, h => by simp at h
  | i :: is, best, t, h => by
    rw [List.find?_cons] at h
    cases hi : (c.cache i).valid with
    | false =>
      rw [hi] at h
      rw [bcacheLruFrom, hi]
      exact Option.some.inj h
    | true =>
      rw [hi] at h
      rw [bcacheLruFrom, hi, if_neg (by decide)]
      split
      · exact bcacheLruFrom_invalid is _ _ h
      · exact bcacheLruFrom_invalid is _ _ h

theorem bcacheLru_invalid {c : Bcache} {k : Fin bcacheNumBlocks}
    (h : first (fun i => !(c.cache i).valid) = some k) : c.bcacheLru = k := by
  unfold first at h
  exact bcacheLruFrom_invalid _ _ _ h

end Bcache

/-! ## Runs -/

/-- What a call writes, over the map `m`. -/
def BcacheOp.wrote (m : UInt32 → Sector) : BcacheOp → UInt32 → Sector
  | .write lba count buf => Bcache.wroteFrom lba buf 0 count.toNat m
  | _ => m

/-- The last bytes written to each sector by `ops`, the disk's own if there are none. -/
def lastWritten (disk : UInt32 → Sector) (ops : List BcacheOp) : UInt32 → Sector :=
  ops.foldl BcacheOp.wrote disk

/-- Every miss of the call is safe : see `Bcache.EvictOk` and `Bcache.FillOk`. -/
def BcacheOp.Safe (c : Bcache) : BcacheOp → Prop
  | .read lba count _ => Bcache.ReadsOk lba 0 count.toNat c
  | .write lba count buf => Bcache.WritesOk lba buf 0 count.toNat c
  | _ => True

/-- A call whose misses are safe keeps the map, with what it wrote. -/
theorem rep_bcacheStep {c : Bcache} {m : UInt32 → Sector} (h : c.Rep m) (hr : c.ready = true)
    (op : BcacheOp) (hok : op.Safe c) : (bcacheStep c op).Rep (op.wrote m) := by
  cases op with
  | read lba count buf =>
    simp only [bcacheStep, Bcache.bcacheRead, hr, BcacheOp.wrote]
    exact (Bcache.bcacheReadFrom_spec lba _ _ c buf h hok).1
  | write lba count buf =>
    simp only [bcacheStep, Bcache.bcacheWrite, hr, BcacheOp.wrote]
    exact Bcache.bcacheWriteFrom_spec lba buf _ _ c m h hok
  | sync => exact (Bcache.bcacheSync_spec h).1
  | tick => exact Bcache.bcacheTick_spec h

end VernisOS
