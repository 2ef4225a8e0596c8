import Mathlib.Logic.Relation
import VernisOS.Loader

/-!
# The primitive changes of paging

Every function of paging is a sequence of `frame_alloc`, `frame_free`, `frame_ref_inc` and
writes to frames (`PagingSteps`). What these four keep, all of them keep : the kernel's PML4
and the pool.
-/

namespace VernisOS

/-- One primitive change. -/
inductive PagingStep : PagingState → PagingState → Prop
  | alloc (m : PagingState) : PagingStep m (frameAlloc m).2
  | free (m : PagingState) (f : UInt64) : PagingStep m (frameFree m f)
  | refInc (m : PagingState) (f : UInt64) : PagingStep m (frameRefInc m f)
  | write (m : PagingState) (f : UInt64) (p : Page) : PagingStep m (m.writePage f p)

/-- A sequence of primitive changes. -/
abbrev PagingSteps : PagingState → PagingState → Prop :=
  Relation.ReflTransGen PagingStep

namespace PagingSteps

open Relation (ReflTransGen)

variable {m m' : PagingState}

theorem refl (m : PagingState) : PagingSteps m m :=
  ReflTransGen.refl

theorem alloc (h : PagingSteps m m') : PagingSteps m (frameAlloc m').2 :=
  h.tail (.alloc m')

theorem free (h : PagingSteps m m') (f : UInt64) : PagingSteps m (frameFree m' f) :=
  h.tail (.free m' f)

theorem refInc (h : PagingSteps m m') (f : UInt64) : PagingSteps m (frameRefInc m' f) :=
  h.tail (.refInc m' f)

theorem writePage (h : PagingSteps m m') (f : UInt64) (p : Page) :
    PagingSteps m (m'.writePage f p) :=
  h.tail (.write m' f p)

theorem writeEntry (h : PagingSteps m m') (t : UInt64) (i : Fin 512) (e : UInt64) :
    PagingSteps m (m'.writeEntry t i e) :=
  h.writePage t _

theorem nextLevel (h : PagingSteps m m') (table : UInt64) (i : Fin 512) (flags : UInt64) :
    PagingSteps m (pagingNextLevel m' table i flags).2 := by
  unfold pagingNextLevel
  split
  · dsimp only
    split
    · exact h.alloc
    · exact h.alloc.writeEntry _ _ _
  · exact h.writeEntry _ _ _

theorem map4k (h : PagingSteps m m') (pml4 virt phys flags : UInt64) :
    PagingSteps m (pagingMap4k m' pml4 virt phys flags) := by
  have hpdpt := h.nextLevel pml4 (levelIndex virt 39) flags
  unfold pagingMap4k
  dsimp only
  split
  · exact hpdpt
  · have hpd := hpdpt.nextLevel (pagingNextLevel m' pml4 (levelIndex virt 39) flags).1
      (levelIndex virt 30) flags
    split
    · exact hpd
    · split
      · exact hpd.nextLevel _ _ _
      · exact (hpd.nextLevel _ _ _).writeEntry _ _ _

theorem createPd (h : PagingSteps m m') (newPml4 newPdpt srcPdpt : UInt64) :
    PagingSteps m (createPd m' newPml4 newPdpt srcPdpt).2 := by
  unfold VernisOS.createPd
  dsimp only
  split
  · exact (h.alloc.free _).free _
  · exact (h.alloc.writePage _ _).writeEntry _ _ _

theorem createPdpt (h : PagingSteps m m') (newPml4 srcPml4 : UInt64) :
    PagingSteps m (createPdpt m' newPml4 srcPml4).2 := by
  unfold VernisOS.createPdpt
  dsimp only
  split
  · exact h.alloc.free _
  · exact ((h.alloc.writePage _ _).writeEntry _ _ _).createPd _ _ _

theorem createAddressSpace (h : PagingSteps m m') (src : UInt64) :
    PagingSteps m (pagingCreateAddressSpace m' src).2 := by
  unfold pagingCreateAddressSpace
  dsimp only
  split
  · exact h.alloc
  · exact (h.alloc.writePage _ _).createPdpt _ _

theorem foldl {ι : Type*} {f : PagingState → ι → PagingState}
    (hf : ∀ m₀ k, PagingSteps m₀ (f m₀ k)) (l : List ι) (h : PagingSteps m m') :
    PagingSteps m (l.foldl f m') := by
  induction l generalizing m' with
  | nil => exact h
  | cons k rest ih => exact ih (h.trans (hf m' k))

theorem freeUserSpace (h : PagingSteps m m') (pml4 : UInt64) :
    PagingSteps m (pagingFreeUserSpace m' pml4) := by
  have hpage : ∀ pt m₀ j, PagingSteps m₀ (freeUserPage pt m₀ j) := by
    intro pt m₀ j
    unfold freeUserPage
    split
    · exact (refl m₀).free _
    · exact refl m₀
  have htable : ∀ pd m₀ i, PagingSteps m₀ (freeUserTable pd m₀ i) := by
    intro pd m₀ i
    unfold freeUserTable
    split
    · exact (foldl (hpage _) _ (refl m₀)).free _
    · exact refl m₀
  unfold pagingFreeUserSpace
  split
  · exact h
  · exact (((foldl (htable _) _ h).free _).free _).free _

theorem cloneUserPages (h : PagingSteps m m') (dst src : UInt64) :
    PagingSteps m (pagingCloneUserPages m' dst src) := by
  have hpage : ∀ pt i m₀ j, PagingSteps m₀ (cloneUserPage dst pt i m₀ j) := by
    intro pt i m₀ j
    unfold cloneUserPage
    split
    · exact refl m₀
    · dsimp only
      split
      · exact (((refl m₀).writeEntry _ _ _).map4k _ _ _ _).refInc _
      · exact ((refl m₀).map4k _ _ _ _).refInc _
  have htable : ∀ pd m₀ i, PagingSteps m₀ (cloneUserTable dst pd m₀ i) := by
    intro pd m₀ i
    unfold cloneUserTable
    split
    · exact foldl (hpage _ _) _ (refl m₀)
    · exact refl m₀
  exact foldl (htable _) _ h

theorem handleCowFault (h : PagingSteps m m') (pml4 faultAddr : UInt64) :
    PagingSteps m (pagingHandleCowFault m' pml4 faultAddr).2 := by
  unfold pagingHandleCowFault
  split
  · exact h
  · dsimp only
    split
    · exact h
    · split
      · exact h.writeEntry _ _ _
      · split
        · exact h.alloc
        · exact ((h.alloc.writePage _ _).writeEntry _ _ _).free _

theorem loadPage (h : PagingSteps m m') (pml4 va flags : UInt64) (fill : Page → Page) :
    PagingSteps m (loadPage pml4 va flags fill m').2 := by
  unfold VernisOS.loadPage
  dsimp only
  split
  · exact h.alloc
  · exact (h.alloc.writePage _ _).map4k _ _ _ _

theorem loadPages (pml4 : UInt64) (pages : List (UInt64 × (Page → Page)))
    (h : PagingSteps m m') : PagingSteps m (loadPages pml4 pages m').2 := by
  induction pages generalizing m' with
  | nil => exact h
  | cons q rest ih =>
    have hq := h.loadPage pml4 q.1 userFlags q.2
    unfold VernisOS.loadPages
    dsimp only
    split
    · exact ih hq
    · exact hq

theorem loadSegments (file : ElfFile) (pml4 : UInt64) (phs : List Elf64Phdr) (brk : UInt64)
    (h : PagingSteps m m') : PagingSteps m (loadSegments file pml4 phs m' brk).2.1 := by
  induction phs generalizing m' brk with
  | nil => exact h
  | cons ph rest ih =>
    have hpages := loadPages pml4 (ph.pages file) h
    unfold VernisOS.loadSegments
    dsimp only
    split
    · exact ih _ hpages
    · exact hpages

theorem loadImage (h : PagingSteps m m') (file : ElfFile) (pml4 brk : UInt64) :
    PagingSteps m (loadImage file pml4 m' brk).2.1 := by
  have hsegments := loadSegments file pml4 file.segments brk h
  unfold VernisOS.loadImage
  dsimp only
  split
  · exact loadPages pml4 stackPages hsegments
  · exact hsegments

end PagingSteps

/-! ## What the primitive changes keep -/

theorem setRef_kernelPml4 (m : PagingState) (f : UInt64) (n : UInt8) :
    (m.setRef f n).kernelPml4 = m.kernelPml4 := by
  unfold PagingState.setRef
  split <;> rfl

theorem PagingStep.kernelPml4 {m m' : PagingState} (h : PagingStep m m') :
    m'.kernelPml4 = m.kernelPml4 := by
  have hpush : ∀ (m : PagingState) (f : UInt64), (m.pushFree f).kernelPml4 = m.kernelPml4 := by
    intro m f
    unfold PagingState.pushFree
    split <;> rfl
  cases h with
  | alloc =>
    unfold frameAlloc
    split
    · exact setRef_kernelPml4 _ _ _
    · split
      · rfl
      · exact setRef_kernelPml4 _ _ _
  | free f =>
    unfold frameFree
    split
    · rfl
    · split
      · split
        · exact setRef_kernelPml4 _ _ _
        · exact (hpush _ _).trans (setRef_kernelPml4 _ _ _)
      · exact hpush _ _
  | refInc f =>
    unfold frameRefInc
    split
    · split
      · exact setRef_kernelPml4 _ _ _
      · rfl
    · rfl
  | write f p => rfl

theorem PagingSteps.kernelPml4 {m m' : PagingState} (h : PagingSteps m m') :
    m'.kernelPml4 = m.kernelPml4 := by
  induction h with
  | refl => rfl
  | tail _ hstep ih => exact hstep.kernelPml4.trans ih

end VernisOS
