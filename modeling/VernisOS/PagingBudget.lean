import VernisOS.Loader
import VernisOS.PagingFrames

/-!
# How many frames a function takes

`framesLeft` is how often `frame_alloc` can still succeed. `Spends n m m'` says that a
function takes at most `n` frames on its way from `m` to `m'`, so that none of its
allocations fails if as many are left.
-/

namespace VernisOS

/-- The frames that can still be handed out. -/
def framesLeft (m : PagingState) : ℕ :=
  m.freelist.length + (m.physAllocEnd.toNat - m.physNextFree.toNat) / 4096

/-- At most `n` frames are taken. -/
structure Spends (n : ℕ) (m m' : PagingState) : Prop where
  pool : PoolOk m → PoolOk m'
  left : PoolOk m → n ≤ framesLeft m →
    m'.outOfFrames = m.outOfFrames ∧ framesLeft m ≤ framesLeft m' + n

namespace Spends

variable {n k : ℕ} {m m₁ m₂ : PagingState}

theorem refl (m : PagingState) : Spends 0 m m :=
  ⟨id, fun _ _ => ⟨rfl, Nat.le_refl _⟩⟩

theorem trans (h : Spends n m m₁) (h' : Spends k m₁ m₂) : Spends (n + k) m m₂ := by
  refine ⟨fun hp => h'.pool (h.pool hp), fun hp hn => ?_⟩
  obtain ⟨hout, hleft⟩ := h.left hp (by omega)
  obtain ⟨hout', hleft'⟩ := h'.left (h.pool hp) (by omega)
  exact ⟨hout'.trans hout, by omega⟩

theorem mono (h : Spends n m m₁) (hk : n ≤ k) : Spends k m m₁ := by
  refine ⟨h.pool, fun hp hn => ?_⟩
  obtain ⟨hout, hleft⟩ := h.left hp (by omega)
  exact ⟨hout, by omega⟩

/-- Memory and counts are not frames. -/
theorem of_eq (hfree : m₁.freelist = m.freelist) (hbase : m₁.physPoolBase = m.physPoolBase)
    (hnext : m₁.physNextFree = m.physNextFree) (hend : m₁.physAllocEnd = m.physAllocEnd)
    (hout : m₁.outOfFrames = m.outOfFrames) : Spends 0 m m₁ := by
  refine ⟨fun hp => ?_, fun _ _ => ⟨hout, ?_⟩⟩
  · refine ⟨?_, ?_, ?_, ?_, ?_⟩
    · rw [hbase]
      exact hp.base_pos
    · rw [hbase]
      exact hp.base_aligned
    · rw [hend, hbase]
      exact hp.end_eq
    · rw [hend]
      exact hp.end_lt
    · rw [hnext, hbase]
      exact hp.next
  · unfold framesLeft
    rw [hfree, hnext, hend]
    omega

theorem writePage (m : PagingState) (f : UInt64) (p : Page) : Spends 0 m (m.writePage f p) :=
  of_eq rfl rfl rfl rfl rfl

theorem writeEntry (m : PagingState) (t : UInt64) (i : Fin 512) (e : UInt64) :
    Spends 0 m (m.writeEntry t i e) :=
  of_eq rfl rfl rfl rfl rfl

theorem setRef (m : PagingState) (f : UInt64) (n : UInt8) : Spends 0 m (m.setRef f n) := by
  unfold PagingState.setRef
  split
  · exact of_eq rfl rfl rfl rfl rfl
  · exact refl m

theorem handOut (m : PagingState) (f : UInt64) : Spends 0 m (handOut m f) :=
  (setRef m f 1).trans (writePage _ f _)

theorem pushFree (m : PagingState) (f : UInt64) : Spends 0 m (m.pushFree f) := by
  unfold PagingState.pushFree
  split
  · refine ⟨fun hp => ⟨hp.base_pos, hp.base_aligned, hp.end_eq, hp.end_lt, hp.next⟩,
      fun _ _ => ⟨rfl, ?_⟩⟩
    simp only [framesLeft, List.length_cons]
    omega
  · exact refl m

theorem free (m : PagingState) (f : UInt64) : Spends 0 m (frameFree m f) := by
  unfold frameFree
  split
  · exact refl m
  · split
    · split
      · exact setRef m f _
      · exact (setRef m f 0).trans (pushFree _ f)
    · exact pushFree m f

/-- `frame_alloc` takes one frame. -/
theorem alloc (m : PagingState) : Spends 1 m (frameAlloc m).2 := by
  cases hfree : m.freelist with
  | cons f rest =>
    have hpop : Spends 1 m { m with freelist := rest } := by
      refine ⟨fun hp => ⟨hp.base_pos, hp.base_aligned, hp.end_eq, hp.end_lt, hp.next⟩,
        fun _ _ => ⟨rfl, ?_⟩⟩
      simp only [framesLeft, hfree, List.length_cons]
      omega
    rw [frameAlloc_cons hfree]
    exact hpop.trans (handOut _ f)
  | nil =>
    by_cases hend : m.physNextFree ≥ m.physAllocEnd
    · rw [frameAlloc, hfree]
      simp only [if_pos hend]
      rw [ge_iff_le, UInt64.le_iff_toNat_le] at hend
      refine ⟨fun hp => ⟨hp.base_pos, hp.base_aligned, hp.end_eq, hp.end_lt, hp.next⟩,
        fun _ hleft => ?_⟩
      simp only [framesLeft, hfree, List.length_nil] at hleft
      omega
    · have halloc : (frameAlloc m).2 =
          VernisOS.handOut { m with physNextFree := m.physNextFree + 4096 } m.physNextFree := by
        unfold frameAlloc
        simp only [hfree, if_neg hend]
      rw [halloc]
      rw [ge_iff_le, UInt64.le_iff_toNat_le, not_le] at hend
      have h4096 : (4096 : UInt64).toNat = 4096 := rfl
      have hnext : PoolOk m → (m.physNextFree + 4096).toNat = m.physNextFree.toNat + 4096 := by
        intro hp
        have h1 := hp.end_lt
        rw [UInt64.toNat_add, h4096, Nat.mod_eq_of_lt (by omega)]
      have hbump : Spends 1 m { m with physNextFree := m.physNextFree + 4096 } := by
        refine ⟨fun hp => ?_, fun hp _ => ⟨rfl, ?_⟩⟩
        · obtain ⟨n, hn, heq⟩ := hp.next
          have h1 := hp.end_eq
          refine ⟨hp.base_pos, hp.base_aligned, hp.end_eq, hp.end_lt, n + 1, by omega, ?_⟩
          simp only [hnext hp]
          omega
        · have h1 := hp.end_eq
          obtain ⟨n, hn, heq⟩ := hp.next
          simp only [framesLeft, hnext hp]
          omega
      exact hbump.trans (handOut _ _)

theorem nextLevel (m : PagingState) (table : UInt64) (i : Fin 512) (flags : UInt64) :
    Spends 1 m (pagingNextLevel m table i flags).2 := by
  unfold pagingNextLevel
  split
  · simp only
    split
    · exact alloc m
    · exact (alloc m).trans (writeEntry _ _ _ _)
  · exact (writeEntry m _ _ _).mono (by omega)

theorem map4k (m : PagingState) (pml4 virt phys flags : UInt64) :
    Spends 3 m (pagingMap4k m pml4 virt phys flags) := by
  unfold pagingMap4k
  simp only
  split
  · exact (nextLevel m _ _ _).mono (by omega)
  · split
    · exact ((nextLevel m _ _ _).trans (nextLevel _ _ _ _)).mono (by omega)
    · split
      · exact ((nextLevel m _ _ _).trans (nextLevel _ _ _ _)).trans (nextLevel _ _ _ _)
      · exact (((nextLevel m _ _ _).trans (nextLevel _ _ _ _)).trans (nextLevel _ _ _ _)).trans
          (writeEntry _ _ _ _)

/-- `paging_create_address_space` takes three frames. -/
theorem createAddressSpace (m : PagingState) (src : UInt64) :
    Spends 3 m (pagingCreateAddressSpace m src).2 := by
  have hpd : ∀ m newPml4 newPdpt srcPdpt, Spends 1 m (createPd m newPml4 newPdpt srcPdpt).2 := by
    intro m newPml4 newPdpt srcPdpt
    unfold createPd
    simp only
    split
    · exact ((alloc m).trans (free _ _)).trans (free _ _)
    · exact ((alloc m).trans (writePage _ _ _)).trans (writeEntry _ _ _ _)
  have hpdpt : ∀ m newPml4 srcPml4, Spends 2 m (createPdpt m newPml4 srcPml4).2 := by
    intro m newPml4 srcPml4
    unfold createPdpt
    simp only
    split
    · exact ((alloc m).trans (free _ _)).mono (by omega)
    · exact (((alloc m).trans (writePage _ _ _)).trans (writeEntry _ _ _ _)).trans (hpd _ _ _ _)
  unfold pagingCreateAddressSpace
  simp only
  split
  · exact (alloc m).mono (by omega)
  · exact ((alloc m).trans (writePage _ _ _)).trans (hpdpt _ _ _)

/-- A page takes a frame of its own and at most three tables. -/
theorem loadPage (pml4 va flags : UInt64) (fill : Page → Page) (m : PagingState) :
    Spends 4 m (loadPage pml4 va flags fill m).2 := by
  unfold VernisOS.loadPage
  simp only
  split
  · exact (alloc m).mono (by omega)
  · exact ((alloc m).trans (writePage _ _ _)).trans (map4k _ _ _ _ _)

theorem loadPages (pml4 : UInt64) (pages : List (UInt64 × (Page → Page))) :
    ∀ m, Spends (4 * pages.length) m (loadPages pml4 pages m).2 := by
  induction pages with
  | nil => exact refl
  | cons q rest ih =>
    intro m
    have hq := loadPage pml4 q.1 userFlags q.2 m
    unfold VernisOS.loadPages
    simp only [List.length_cons]
    split
    · exact (hq.trans (ih _)).mono (by omega)
    · exact hq.mono (by omega)

theorem foldl {ι : Type*} {f : PagingState → ι → PagingState} (hf : ∀ m k, Spends 0 m (f m k))
    (l : List ι) : ∀ m, Spends 0 m (l.foldl f m) := by
  induction l with
  | nil => exact refl
  | cons k rest ih => exact fun m => (hf m k).trans (ih _)

/-- `paging_free_user_space` takes no frame. -/
theorem freeUserSpace (m : PagingState) (pml4 : UInt64) :
    Spends 0 m (pagingFreeUserSpace m pml4) := by
  have hpage : ∀ pt m j, Spends 0 m (freeUserPage pt m j) := by
    intro pt m j
    unfold freeUserPage
    split
    · exact free m _
    · exact refl m
  have htable : ∀ pd m i, Spends 0 m (freeUserTable pd m i) := by
    intro pd m i
    unfold freeUserTable
    split
    · exact (foldl (hpage _) _ m).trans (free _ _)
    · exact refl m
  unfold pagingFreeUserSpace
  split
  · exact refl m
  · exact (((foldl (htable _) _ m).trans (free _ _)).trans (free _ _)).trans (free _ _)

end Spends

end VernisOS
