import Mathlib.Data.Fintype.Option
import VernisOS.Lib.Ledger
import VernisOS.Paging

/-!
# The frame allocator keeps its accounts

The frames of the pool that have been handed out are the known ones. `Accounts` says that
the free list and the reference counts are those of a ledger of holders, and each function
of the allocator has one lemma saying which holder it changes.
-/

namespace VernisOS

/-! ## Addresses and flags -/

/-- The address of a frame : the bits that `PAGE_ADDR_MASK` keeps, and no other. -/
def IsFrame (f : UInt64) : Prop :=
  f &&& pageAddrMask = f

theorem or_and_distrib (a b c : UInt64) : (a ||| b) &&& c = (a &&& c) ||| (b &&& c) :=
  UInt64.toBitVec_inj.mp BitVec.and_or_distrib_right

theorem IsFrame.and_eq {f d : UInt64} (hf : IsFrame f) :
    f &&& d = f &&& (pageAddrMask &&& d) := by
  rw [← UInt64.and_assoc, hf]

/-- The flags of an entry, read back. -/
theorem IsFrame.or_and_flags {f : UInt64} (hf : IsFrame f) (c d : UInt64)
    (hd : pageAddrMask &&& d = 0) : (f ||| c) &&& d = c &&& d := by
  rw [or_and_distrib, hf.and_eq, hd, UInt64.and_zero, UInt64.zero_or]

/-- The frame of an entry, read back. -/
theorem IsFrame.or_and_mask {f : UInt64} (hf : IsFrame f) {c d : UInt64}
    (hd : pageAddrMask &&& d = pageAddrMask) (hc : c &&& d = 0) : (f ||| c) &&& d = f := by
  rw [or_and_distrib, hf.and_eq, hd, hf, hc, UInt64.or_zero]

/-- Clear flags of an entry. -/
theorem IsFrame.or_and_clear {f : UInt64} (hf : IsFrame f) (c : UInt64) {d : UInt64}
    (hd : pageAddrMask &&& d = pageAddrMask) : (f ||| c) &&& d = f ||| (c &&& d) := by
  rw [or_and_distrib, hf.and_eq, hd, hf]

theorem isFrame_of_toNat {f : UInt64} (halign : f.toNat % 4096 = 0) (hlt : f.toNat < 2 ^ 48) :
    IsFrame f := by
  have hshift : f.toNat = (f.toNat / 4096) <<< 12 := by
    rw [Nat.shiftLeft_eq]
    omega
  have hmask : pageAddrMask.toNat = (2 ^ 36 - 1) <<< 12 := by decide
  rw [IsFrame, ← UInt64.toNat_inj, UInt64.toNat_and, hmask, hshift,
    ← Nat.shiftLeft_and_distrib, Nat.and_two_pow_sub_one_eq_mod, Nat.mod_eq_of_lt (by omega)]

/-! ## The pool -/

/-- Where the pool lies : 1024 frames from a page address on, of which the first ones have
been handed out at least once. -/
structure PoolOk (m : PagingState) : Prop where
  base_pos : 0 < m.physPoolBase.toNat
  base_aligned : m.physPoolBase.toNat % 4096 = 0
  end_eq : m.physAllocEnd.toNat = m.physPoolBase.toNat + 4096 * 1024
  end_lt : m.physAllocEnd.toNat < 2 ^ 48
  next : ∃ n ≤ 1024, m.physNextFree.toNat = m.physPoolBase.toNat + 4096 * n

/-- `f` is the frame `k` of the pool from `base` on. -/
def IsNth (base f : UInt64) (k : Fin 1024) : Prop :=
  f.toNat = base.toNat + 4096 * k.val

/-- A frame of the pool that has been handed out. -/
def Known (m : PagingState) (f : UInt64) : Prop :=
  (∃ k, IsNth m.physPoolBase f k) ∧ f < m.physNextFree

/-- The reference count of a frame, as a number. -/
def refs (m : PagingState) (f : UInt64) : ℕ :=
  (frameRefGet m f).toNat

theorem IsNth.unique {base f g : UInt64} {k : Fin 1024} (hf : IsNth base f k)
    (hg : IsNth base g k) : f = g := by
  rw [← UInt64.toNat_inj, hf, hg]

theorem frameRefIdx_eq {m : PagingState} {f : UInt64} {k : Fin 1024} (h : IsNth m.physPoolBase f k) :
    frameRefIdx m f = some k := by
  unfold IsNth at h
  have hle : m.physPoolBase ≤ f := by
    rw [UInt64.le_iff_toNat_le]
    omega
  have h12 : (12 : UInt64).toNat % 64 = 12 := rfl
  have hidx : ((f - m.physPoolBase) >>> 12).toNat = k.val := by
    rw [UInt64.toNat_shiftRight, UInt64.toNat_sub_of_le _ _ hle, h12, Nat.shiftRight_eq_div_pow]
    omega
  unfold frameRefIdx
  rw [if_neg (UInt64.not_lt.mpr hle), dif_pos (by rw [hidx]; exact k.isLt)]
  exact congrArg some (Fin.ext hidx)

theorem PoolOk.isFrame {m : PagingState} (h : PoolOk m) {f : UInt64} {k : Fin 1024}
    (hf : IsNth m.physPoolBase f k) : IsFrame f := by
  have h1 := h.base_aligned
  have h2 := h.end_eq
  have h3 := h.end_lt
  have h4 := k.isLt
  unfold IsNth at hf
  exact isFrame_of_toNat (by omega) (by omega)

theorem PoolOk.ne_zero {m : PagingState} (h : PoolOk m) {f : UInt64} {k : Fin 1024}
    (hf : IsNth m.physPoolBase f k) : f ≠ 0 := by
  rintro rfl
  have h1 := h.base_pos
  unfold IsNth at hf
  rw [UInt64.toNat_zero] at hf
  omega

theorem refs_eq {m : PagingState} {f : UInt64} {k : Fin 1024} (h : IsNth m.physPoolBase f k) :
    refs m f = (m.refcount k).toNat := by
  unfold refs frameRefGet
  rw [frameRefIdx_eq h]

/-! ## Setting a reference count -/

section SetRef

variable {m : PagingState} {f g : UInt64} {k : Fin 1024} {n : UInt8}

theorem setRef_eq (h : IsNth m.physPoolBase f k) (n : UInt8) :
    m.setRef f n = { m with refcount := Function.update m.refcount k n } := by
  unfold PagingState.setRef
  rw [frameRefIdx_eq h]

theorem refs_setRef_self (h : IsNth m.physPoolBase f k) : refs (m.setRef f n) f = n.toNat := by
  rw [setRef_eq h]
  rw [refs_eq (m := { m with refcount := Function.update m.refcount k n }) (k := k) h]
  simp only [Function.update_self]

theorem refs_setRef_ne (h : IsNth m.physPoolBase f k) {l : Fin 1024} (hg : IsNth m.physPoolBase g l) (hne : g ≠ f) :
    refs (m.setRef f n) g = refs m g := by
  have hkl : l ≠ k := by
    rintro rfl
    exact hne (hg.unique h)
  rw [setRef_eq h, refs_eq hg]
  rw [refs_eq (m := { m with refcount := Function.update m.refcount k n }) (k := l) hg]
  simp only [Function.update_of_ne hkl]

end SetRef

/-! ## What the allocator does not touch -/

section Frame

variable (m : PagingState) (f : UInt64)

@[simp] theorem setRef_mem (n : UInt8) : (m.setRef f n).mem = m.mem := by
  unfold PagingState.setRef
  split <;> rfl

@[simp] theorem setRef_outOfFrames (n : UInt8) : (m.setRef f n).outOfFrames = m.outOfFrames := by
  unfold PagingState.setRef
  split <;> rfl

@[simp] theorem pushFree_mem : (m.pushFree f).mem = m.mem := by
  unfold PagingState.pushFree
  split <;> rfl

@[simp] theorem pushFree_outOfFrames : (m.pushFree f).outOfFrames = m.outOfFrames := by
  unfold PagingState.pushFree
  split <;> rfl

@[simp] theorem frameRefInc_mem : (frameRefInc m f).mem = m.mem := by
  unfold frameRefInc
  split
  · split <;> simp
  · rfl

@[simp] theorem frameRefInc_outOfFrames : (frameRefInc m f).outOfFrames = m.outOfFrames := by
  unfold frameRefInc
  split
  · split <;> simp
  · rfl

@[simp] theorem frameFree_mem : (frameFree m f).mem = m.mem := by
  unfold frameFree
  split
  · rfl
  · split
    · split <;> simp
    · simp

@[simp] theorem frameFree_outOfFrames : (frameFree m f).outOfFrames = m.outOfFrames := by
  unfold frameFree
  split
  · rfl
  · split
    · split <;> simp
    · simp

@[simp] theorem handOut_mem : (handOut m f).mem = Function.update m.mem f fun _ => 0 := by
  simp [handOut, PagingState.writePage]

@[simp] theorem handOut_outOfFrames : (handOut m f).outOfFrames = m.outOfFrames := by
  simp [handOut, PagingState.writePage]

theorem frameAlloc_cons {m : PagingState} {f : UInt64} {rest : List UInt64}
    (h : m.freelist = f :: rest) :
    frameAlloc m = (f, handOut { m with freelist := rest } f) := by
  unfold frameAlloc
  rw [h]

theorem frameAlloc_nil {m : PagingState} (h : m.freelist = [])
    (hok : (frameAlloc m).2.outOfFrames = false) :
    m.physNextFree < m.physAllocEnd ∧ frameAlloc m =
      (m.physNextFree,
        handOut { m with physNextFree := m.physNextFree + 4096 } m.physNextFree) := by
  unfold frameAlloc at hok ⊢
  simp only [h] at hok ⊢
  by_cases hlt : m.physNextFree ≥ m.physAllocEnd
  · rw [if_pos hlt] at hok
    exact absurd hok Bool.noConfusion
  · exact ⟨UInt64.not_le.mp hlt, if_neg hlt⟩

theorem frameAlloc_outOfFrames (h : m.outOfFrames = true) :
    (frameAlloc m).2.outOfFrames = true := by
  unfold frameAlloc
  split
  · simpa using h
  · split
    · rfl
    · simpa using h

end Frame

/-! ## The accounts -/

/-- The free list and the counts of `m` are those of the holders in `own`. The places that
`paging_init` fixed are those of `b`. -/
structure Accounts {W : Type*} [Fintype W] [DecidableEq W] (b m : PagingState)
    (own : W → Option UInt64) : Prop where
  pool : PoolOk m
  base_eq : m.physPoolBase = b.physPoolBase
  kernel_eq : m.kernelPml4 = b.kernelPml4
  ledger : Ledger.Ok (Known m) m.freelist (refs m) own

namespace Accounts

variable {W : Type*} [Fintype W] [DecidableEq W] {b m : PagingState} {own : W → Option UInt64}
  {w w' : W} {f : UInt64}

theorem isFrame (h : Accounts b m own) (hw : own w = some f) : IsFrame f := by
  obtain ⟨⟨k, hk⟩, _⟩ := h.ledger.known_of w f hw
  exact h.pool.isFrame hk

theorem ne_zero (h : Accounts b m own) (hw : own w = some f) : f ≠ 0 := by
  obtain ⟨⟨k, hk⟩, _⟩ := h.ledger.known_of w f hw
  exact h.pool.ne_zero hk

/-- Writing memory is not the allocator's business. -/
theorem writePage (h : Accounts b m own) (g : UInt64) (p : Page) :
    Accounts b (m.writePage g p) own :=
  ⟨⟨h.pool.base_pos, h.pool.base_aligned, h.pool.end_eq, h.pool.end_lt, h.pool.next⟩,
    h.base_eq, h.kernel_eq, h.ledger⟩

theorem writeEntry (h : Accounts b m own) (t : UInt64) (i : Fin 512) (e : UInt64) :
    Accounts b (m.writeEntry t i e) own :=
  h.writePage t _

/-- The free list never fills up : it holds each frame of the pool at most once. -/
theorem freelist_length (h : Accounts b m own) : m.freelist.length < frameFreelistMax := by
  have hinj : Set.InjOn (frameRefIdx m) {g | g ∈ m.freelist} := by
    intro g hg g' hg' he
    obtain ⟨⟨k, hk⟩, _⟩ := h.ledger.free_known g hg
    obtain ⟨⟨l, hl⟩, _⟩ := h.ledger.free_known g' hg'
    rw [frameRefIdx_eq hk, frameRefIdx_eq hl] at he
    rw [Option.some.inj he] at hk
    exact hk.unique hl
  have hnodup : (m.freelist.map (frameRefIdx m)).Nodup :=
    List.Nodup.map_on (fun g hg g' hg' he => hinj hg hg' he) h.ledger.free_nodup
  have hcard := hnodup.length_le_card
  rw [List.length_map, Fintype.card_option, Fintype.card_fin] at hcard
  unfold frameFreelistMax
  omega

/-- The new frame of `frame_alloc` goes to a holder without one. -/
theorem handedOut {m' : PagingState} (h : Accounts b m own) (hw : own w = none)
    {k : Fin 1024} (hk : IsNth m.physPoolBase f k) (hunused : ∀ v, own v ≠ some f)
    (hpool : PoolOk m') (hbase : m'.physPoolBase = m.physPoolBase)
    (hkernel : m'.kernelPml4 = m.kernelPml4) (href : m'.refcount = m.refcount)
    (hknown : ∀ g, Known m' g ↔ Known m g ∨ g = f) (hsub : m'.freelist.Sublist m.freelist)
    (hrest : ∀ g ∈ m.freelist, g ≠ f → g ∈ m'.freelist) (hfree : f ∉ m'.freelist) :
    Accounts b (handOut m' f) (Function.update own w (some f)) := by
  have hk' : IsNth m'.physPoolBase f k := hbase ▸ hk
  have hrefs : ∀ g l, IsNth m.physPoolBase g l → refs m' g = refs m g := by
    intro g l hg
    have hg' : IsNth m'.physPoolBase g l := hbase ▸ hg
    rw [refs_eq hg, refs_eq hg', href]
  have hout : handOut m' f = { m' with
      refcount := Function.update m'.refcount k 1
      mem := Function.update m'.mem f fun _ => 0 } := by
    unfold handOut
    rw [setRef_eq hk']
    rfl
  have hself : refs (handOut m' f) f = 1 := refs_setRef_self hk'
  have hother : ∀ g, Known m g → g ≠ f → refs (handOut m' f) g = refs m g := by
    intro g hg hne
    obtain ⟨⟨l, hl⟩, _⟩ := hg
    rw [← hrefs g l hl]
    exact refs_setRef_ne hk' (hbase ▸ hl : IsNth m'.physPoolBase g l) hne
  rw [hout] at hself hother ⊢
  exact ⟨⟨hpool.base_pos, hpool.base_aligned, hpool.end_eq, hpool.end_lt, hpool.next⟩,
    hbase.trans h.base_eq, hkernel.trans h.kernel_eq,
    h.ledger.take hw hunused hknown hself hother hsub hrest hfree⟩

/-- `frame_alloc` from the free list. -/
theorem alloc_pop (h : Accounts b m own) (hw : own w = none) {rest : List UInt64}
    (hfree : m.freelist = f :: rest) :
    Accounts b (handOut { m with freelist := rest } f)
      (Function.update own w (some f)) ∧ ∀ v, own v ≠ some f := by
  have hmem : f ∈ m.freelist := by
    rw [hfree]
    exact List.mem_cons_self
  have hnodup := h.ledger.free_nodup
  rw [hfree] at hnodup
  have hf := h.ledger.free_known f hmem
  obtain ⟨⟨k, hk⟩, _⟩ := id hf
  refine ⟨?_, h.ledger.free_unused f hmem⟩
  refine h.handedOut hw hk (h.ledger.free_unused f hmem)
    ⟨h.pool.base_pos, h.pool.base_aligned, h.pool.end_eq, h.pool.end_lt, h.pool.next⟩
    rfl rfl rfl (fun g => ⟨Or.inl, ?_⟩) ?_ ?_ (List.nodup_cons.mp hnodup).1
  · rintro (hg | rfl)
    · exact hg
    · exact hf
  · rw [hfree]
    exact List.sublist_cons_self f rest
  · intro g hg hne
    rw [hfree] at hg
    exact (List.mem_cons.mp hg).resolve_left hne

/-- `frame_alloc` from the part of the pool that was never handed out. -/
theorem alloc_bump (h : Accounts b m own) (hw : own w = none) (hfree : m.freelist = [])
    (hlt : m.physNextFree < m.physAllocEnd) :
    Accounts b (handOut { m with physNextFree := m.physNextFree + 4096 } m.physNextFree)
      (Function.update own w (some m.physNextFree)) ∧ ∀ v, own v ≠ some m.physNextFree := by
  obtain ⟨n, hn, hnext⟩ := h.pool.next
  have hend := h.pool.end_eq
  have hend' := h.pool.end_lt
  rw [UInt64.lt_iff_toNat_lt] at hlt
  have h4096 : (4096 : UInt64).toNat = 4096 := rfl
  have hadd : (m.physNextFree + 4096).toNat = m.physNextFree.toNat + 4096 := by
    rw [UInt64.toNat_add, h4096]
    omega
  have hk : IsNth m.physPoolBase m.physNextFree ⟨n, by omega⟩ := hnext
  have hunused : ∀ v, own v ≠ some m.physNextFree := fun v hv =>
    absurd (h.ledger.known_of v _ hv).2 (UInt64.lt_irrefl _)
  have hknown : ∀ g, Known { m with physNextFree := m.physNextFree + 4096 } g ↔
      (∃ k, IsNth m.physPoolBase g k) ∧ g < m.physNextFree + 4096 := fun g => Iff.rfl
  refine ⟨?_, hunused⟩
  refine h.handedOut hw hk hunused
    ⟨h.pool.base_pos, h.pool.base_aligned, hend, hend', n + 1, by omega, ?_⟩
    rfl rfl rfl (fun g => ?_) (List.Sublist.refl _) (fun g hg _ => hg) ?_
  · change (m.physNextFree + 4096).toNat = _
    rw [hadd, hnext, Nat.add_assoc, Nat.mul_succ]
  · rw [hknown, UInt64.lt_iff_toNat_lt, hadd]
    constructor
    · rintro ⟨⟨l, hl⟩, hg⟩
      unfold IsNth at hl
      by_cases hgn : g.toNat = m.physNextFree.toNat
      · exact Or.inr (UInt64.toNat_inj.mp hgn)
      · refine Or.inl ⟨⟨l, hl⟩, ?_⟩
        rw [UInt64.lt_iff_toNat_lt]
        omega
    · rintro (⟨hl, hg⟩ | rfl)
      · rw [UInt64.lt_iff_toNat_lt] at hg
        exact ⟨hl, by omega⟩
      · exact ⟨⟨_, hk⟩, by omega⟩
  · change m.physNextFree ∉ m.freelist
    rw [hfree]
    exact List.not_mem_nil

/-- `frame_alloc`, as long as there are frames : the holder `w` gets a frame that nobody had,
and the frame is zeroed. -/
theorem alloc (h : Accounts b m own) (hw : own w = none)
    (hok : (frameAlloc m).2.outOfFrames = false) :
    Accounts b (frameAlloc m).2 (Function.update own w (some (frameAlloc m).1)) ∧
      (∀ v, own v ≠ some (frameAlloc m).1) ∧
      (frameAlloc m).2.mem = Function.update m.mem (frameAlloc m).1 fun _ => 0 := by
  cases hfree : m.freelist with
  | cons f rest =>
    obtain ⟨hacc, hunused⟩ := h.alloc_pop hw hfree
    rw [frameAlloc_cons hfree]
    exact ⟨hacc, hunused, handOut_mem _ _⟩
  | nil =>
    obtain ⟨hlt, heq⟩ := frameAlloc_nil hfree hok
    obtain ⟨hacc, hunused⟩ := h.alloc_bump hw hfree hlt
    rw [heq]
    exact ⟨hacc, hunused, handOut_mem _ _⟩

/-- `frame_ref_inc` : one more holder. -/
theorem refInc (h : Accounts b m own) (hw : own w = none) (hw' : own w' = some f)
    (hlt : Ledger.uses own f < 255) :
    Accounts b (frameRefInc m f) (Function.update own w (some f)) := by
  obtain ⟨⟨k, hk⟩, _⟩ := id (h.ledger.known_of w' f hw')
  have huses := h.ledger.ref_eq f (h.ledger.known_of w' f hw')
  rw [refs_eq hk] at huses
  have h255 : (255 : UInt8).toNat = 255 := rfl
  have hcount : m.refcount k < 255 := by
    rw [UInt8.lt_iff_toNat_lt, h255]
    omega
  have hsucc : (m.refcount k + 1).toNat = (m.refcount k).toNat + 1 := by
    rw [UInt8.toNat_add, UInt8.toNat_one]
    omega
  have hinc : frameRefInc m f = m.setRef f (m.refcount k + 1) := by
    unfold frameRefInc
    rw [frameRefIdx_eq hk]
    exact if_pos hcount
  have hself : refs (m.setRef f (m.refcount k + 1)) f = refs m f + 1 := by
    rw [refs_setRef_self hk, refs_eq hk, hsucc]
  have hother : ∀ g, Known m g → g ≠ f → refs (m.setRef f (m.refcount k + 1)) g = refs m g := by
    rintro g ⟨⟨l, hl⟩, _⟩ hne
    exact refs_setRef_ne hk hl hne
  rw [hinc]
  rw [setRef_eq hk] at hself hother ⊢
  exact ⟨⟨h.pool.base_pos, h.pool.base_aligned, h.pool.end_eq, h.pool.end_lt, h.pool.next⟩,
    h.base_eq, h.kernel_eq, h.ledger.share hw hw' hself hother⟩

/-- `frame_free` : a holder gives its frame up. -/
theorem free (h : Accounts b m own) (hw : own w = some f) :
    Accounts b (frameFree m f) (Function.update own w none) := by
  obtain ⟨⟨k, hk⟩, _⟩ := id (h.ledger.known_of w f hw)
  have hother : ∀ n g, Known m g → g ≠ f → refs (m.setRef f n) g = refs m g := by
    rintro n g ⟨⟨l, hl⟩, _⟩ hne
    exact refs_setRef_ne hk hl hne
  unfold frameFree
  rw [if_neg (h.ne_zero hw), frameRefIdx_eq hk]
  simp only
  split
  · rename_i hgt
    have hself : refs (m.setRef f (m.refcount k - 1)) f = refs m f - 1 := by
      have hle : (1 : UInt8) ≤ m.refcount k := UInt8.le_of_lt hgt
      rw [refs_setRef_self hk, refs_eq hk, UInt8.toNat_sub_of_le _ _ hle, UInt8.toNat_one]
    have hmany : 1 < refs m f := by
      rw [gt_iff_lt, UInt8.lt_iff_toNat_lt, UInt8.toNat_one] at hgt
      rwa [refs_eq hk]
    have hother' := hother (m.refcount k - 1)
    rw [setRef_eq hk] at hself hother' ⊢
    exact ⟨⟨h.pool.base_pos, h.pool.base_aligned, h.pool.end_eq, h.pool.end_lt, h.pool.next⟩,
      h.base_eq, h.kernel_eq, h.ledger.drop hw hself hother' (Or.inl ⟨hmany, rfl⟩)⟩
  · rename_i hle
    have hone : refs m f ≤ 1 := by
      rw [gt_iff_lt, UInt8.lt_iff_toNat_lt, UInt8.toNat_one] at hle
      rw [refs_eq hk]
      omega
    have hself : refs (m.setRef f 0) f = refs m f - 1 := by
      rw [refs_setRef_self hk, UInt8.toNat_zero]
      omega
    have hother' := hother 0
    rw [setRef_eq hk] at hself hother' ⊢
    have hpush : PagingState.pushFree { m with refcount := Function.update m.refcount k 0 } f
        = { m with refcount := Function.update m.refcount k 0, freelist := f :: m.freelist } :=
      if_pos h.freelist_length
    rw [hpush]
    exact ⟨⟨h.pool.base_pos, h.pool.base_aligned, h.pool.end_eq, h.pool.end_lt, h.pool.next⟩,
      h.base_eq, h.kernel_eq, h.ledger.drop hw hself hother' (Or.inr ⟨hone, rfl⟩)⟩

end Accounts

end VernisOS
