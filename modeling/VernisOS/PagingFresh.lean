import VernisOS.PagingSpaces
import VernisOS.ProcessRefinement

/-!
# Loading a fresh address space

What a loader leaves in the address space that it builds, whatever the reference counts are
and however often a page is loaded over. All this needs of the allocator is that the free list
holds each frame of the pool at most once (`FreeOk`). `LaidOut m T` says that the tables and pages
of one space are the frames of `T`.
-/

namespace VernisOS

/-! ## Frames that are not handed out again -/

/-- The free list holds frames of the pool, each at most once. -/
structure FreeOk (m : PagingState) : Prop where
  pool : PoolOk m
  nodup : m.freelist.Nodup
  known : ∀ f ∈ m.freelist, Known m f

/-- The frame has been handed out and is not free. -/
def InUse (m : PagingState) (f : UInt64) : Prop :=
  Known m f ∧ f ∉ m.freelist

/-- There are no frames left. -/
def Exhausted (m : PagingState) : Prop :=
  m.freelist = [] ∧ m.physAllocEnd ≤ m.physNextFree

section Alloc

variable {m : PagingState} {f : UInt64}

theorem InUse.isFrame (h : InUse m f) (hfree : FreeOk m) : IsFrame f := by
  obtain ⟨⟨⟨k, hk⟩, _⟩, _⟩ := h
  exact hfree.pool.isFrame hk

theorem InUse.ne_zero (h : InUse m f) (hfree : FreeOk m) : f ≠ 0 := by
  obtain ⟨⟨⟨k, hk⟩, _⟩, _⟩ := h
  exact hfree.pool.ne_zero hk

/-- Only the free list and the places of the pool matter. -/
theorem FreeOk.congr (h : FreeOk m) (m' : PagingState) (hlist : m'.freelist = m.freelist)
    (hbase : m'.physPoolBase = m.physPoolBase) (hnext : m'.physNextFree = m.physNextFree)
    (hend : m'.physAllocEnd = m.physAllocEnd) :
    FreeOk m' ∧ ∀ g, InUse m' g ↔ InUse m g := by
  have hknown : ∀ g, Known m' g ↔ Known m g := by
    intro g
    unfold Known
    rw [hbase, hnext]
  refine ⟨⟨⟨?_, ?_, ?_, ?_, ?_⟩, hlist ▸ h.nodup, fun g hg => ?_⟩, fun g => ?_⟩
  · exact hbase ▸ h.pool.base_pos
  · exact hbase ▸ h.pool.base_aligned
  · rw [hend, hbase]
    exact h.pool.end_eq
  · exact hend ▸ h.pool.end_lt
  · rw [hnext, hbase]
    exact h.pool.next
  · rw [hlist] at hg
    exact (hknown g).mpr (h.known g hg)
  · unfold InUse
    rw [hknown, hlist]

theorem handOut_places (m : PagingState) (f : UInt64) :
    (handOut m f).freelist = m.freelist ∧ (handOut m f).physPoolBase = m.physPoolBase ∧
      (handOut m f).physNextFree = m.physNextFree ∧
      (handOut m f).physAllocEnd = m.physAllocEnd := by
  unfold handOut PagingState.setRef
  split <;> exact ⟨rfl, rfl, rfl, rfl⟩

/-- `frame_alloc` fails when there are no frames left, and only then. -/
theorem FreeOk.alloc_eq_zero (h : FreeOk m) : (frameAlloc m).1 = 0 ↔ Exhausted m := by
  unfold frameAlloc Exhausted
  cases hlist : m.freelist with
  | cons f rest =>
    have hf : Known m f := h.known f (by rw [hlist]; exact List.mem_cons_self)
    obtain ⟨⟨k, hk⟩, _⟩ := hf
    simp [h.pool.ne_zero hk]
  | nil =>
    by_cases hend : m.physNextFree ≥ m.physAllocEnd
    · simp [hend]
    · obtain ⟨n, _, hn⟩ := h.pool.next
      have hpos := h.pool.base_pos
      have hne : m.physNextFree ≠ 0 := by
        intro h0
        rw [h0, UInt64.toNat_zero] at hn
        omega
      simp [hend, hne]

/-- Without frames `frame_alloc` fails, and there are none after it. -/
theorem Exhausted.alloc (h : Exhausted m) :
    (frameAlloc m).1 = 0 ∧ Exhausted (frameAlloc m).2 ∧ (frameAlloc m).2.outOfFrames = true := by
  unfold frameAlloc
  simp only [h.1]
  rw [if_pos h.2]
  exact ⟨rfl, ⟨rfl, h.2⟩, rfl⟩

/-- `frame_alloc` hands out a frame that was not in use, and zeroes it. -/
theorem FreeOk.alloc (h : FreeOk m) (hne : (frameAlloc m).1 ≠ 0) :
    FreeOk (frameAlloc m).2 ∧ ¬ InUse m (frameAlloc m).1 ∧
      (∀ g, InUse (frameAlloc m).2 g ↔ InUse m g ∨ g = (frameAlloc m).1) ∧
      (frameAlloc m).2.mem = Function.update m.mem (frameAlloc m).1 fun _ => 0 := by
  cases hlist : m.freelist with
  | cons f rest =>
    have hf : Known m f := h.known f (by rw [hlist]; exact List.mem_cons_self)
    have hnodup := h.nodup
    rw [hlist, List.nodup_cons] at hnodup
    obtain ⟨hl, hb, hn, he⟩ := handOut_places { m with freelist := rest } f
    have hrest : FreeOk { m with freelist := rest } :=
      ⟨⟨h.pool.base_pos, h.pool.base_aligned, h.pool.end_eq, h.pool.end_lt, h.pool.next⟩,
        hnodup.2, fun g hg => h.known g (by rw [hlist]; exact List.mem_cons_of_mem f hg)⟩
    obtain ⟨hok, hiff⟩ := hrest.congr _ hl hb hn he
    rw [frameAlloc_cons hlist]
    refine ⟨hok, fun hu => hu.2 (by rw [hlist]; exact List.mem_cons_self), fun g => ?_,
      handOut_mem _ _⟩
    rw [hiff g]
    unfold InUse
    simp only [hlist, List.mem_cons, not_or]
    constructor
    · rintro ⟨hg, hgr⟩
      by_cases hgf : g = f
      · exact Or.inr hgf
      · exact Or.inl ⟨hg, hgf, hgr⟩
    · rintro (⟨hg, _, hgr⟩ | rfl)
      · exact ⟨hg, hgr⟩
      · exact ⟨hf, hnodup.1⟩
  | nil =>
    have hlt : ¬ m.physNextFree ≥ m.physAllocEnd := by
      intro hge
      exact hne (h.alloc_eq_zero.mpr ⟨hlist, hge⟩)
    have heq : frameAlloc m = (m.physNextFree,
        handOut { m with physNextFree := m.physNextFree + 4096 } m.physNextFree) := by
      unfold frameAlloc
      simp only [hlist]
      rw [if_neg hlt]
    obtain ⟨n, hn, hnext⟩ := h.pool.next
    have hend := h.pool.end_eq
    have hend' := h.pool.end_lt
    rw [ge_iff_le, UInt64.not_le, UInt64.lt_iff_toNat_lt] at hlt
    have h4096 : (4096 : UInt64).toNat = 4096 := rfl
    have hadd : (m.physNextFree + 4096).toNat = m.physNextFree.toNat + 4096 := by
      rw [UInt64.toNat_add, h4096]
      omega
    have hmore : FreeOk { m with physNextFree := m.physNextFree + 4096 } := by
      refine ⟨⟨h.pool.base_pos, h.pool.base_aligned, hend, hend', n + 1, by omega, ?_⟩,
        h.nodup, fun g hg => ?_⟩
      · change (m.physNextFree + 4096).toNat = _
        rw [hadd, hnext, Nat.add_assoc, Nat.mul_succ]
      · change g ∈ m.freelist at hg
        rw [hlist] at hg
        exact absurd hg List.not_mem_nil
    obtain ⟨hl, hb, hn', he⟩ :=
      handOut_places { m with physNextFree := m.physNextFree + 4096 } m.physNextFree
    obtain ⟨hok, hiff⟩ := hmore.congr _ hl hb hn' he
    rw [heq]
    refine ⟨hok, fun hu => UInt64.lt_irrefl _ hu.1.2, fun g => ?_, handOut_mem _ _⟩
    rw [hiff g]
    unfold InUse Known
    simp only [hlist, List.not_mem_nil, not_false_eq_true, and_true, UInt64.lt_iff_toNat_lt, hadd]
    constructor
    · rintro ⟨⟨l, hl⟩, hg⟩
      unfold IsNth at hl
      by_cases hgn : g.toNat = m.physNextFree.toNat
      · exact Or.inr (UInt64.toNat_inj.mp hgn)
      · exact Or.inl ⟨⟨l, hl⟩, by omega⟩
    · rintro (⟨hl, hg⟩ | rfl)
      · exact ⟨hl, by omega⟩
      · exact ⟨⟨⟨n, by omega⟩, hnext⟩, by omega⟩

end Alloc

/-! ## The frames of one space -/

/-- The frames of the tables and pages of an address space. -/
abbrev Layout := Node → Option UInt64

/-- The entry of a table for the frame of a node. -/
def layoutEntry (f : Option UInt64) : UInt64 :=
  f.elim 0 fun f => f ||| userFlags

/-- The tables and pages of a space are the frames of `T`. -/
structure LaidOut (m : PagingState) (T : Layout) : Prop where
  free : FreeOk m
  inj : ∀ n n' f, T n = some f → T n' = some f → n = n'
  inUse : ∀ n f, T n = some f → InUse m f
  entry : ∀ c n k t, c.parent = some (n, k) → T n = some t → m.mem t k = layoutEntry (T c)
  rooted : ∀ c n k, c.parent = some (n, k) → T n = none → T c = none

/-- What stands in the pages of a layout. -/
def Layout.contents (T : Layout) (m : PagingState) : Pages :=
  fun i j => (T (.page i j)).map m.mem

theorem Node.parent_ne_self {c : Node} {k : Fin 512} : c.parent ≠ some (c, k) := by
  cases c <;> simp only [Node.parent] <;> grind

namespace LaidOut

variable {m : PagingState} {T : Layout} {c n : Node} {k : Fin 512} {t f : UInt64}

theorem isFrame (h : LaidOut m T) (hn : T n = some f) : IsFrame f :=
  (h.inUse n f hn).isFrame h.free

/-- A frame that is not in use belongs to no node. -/
theorem ne_of_unused (h : LaidOut m T) (hf : ¬ InUse m f) (n : Node) : T n ≠ some f :=
  fun hn => hf (h.inUse n f hn)

/-- What happens to other frames does not matter. -/
theorem writePage (h : LaidOut m T) (hf : ∀ n, T n ≠ some f) (p : Page) :
    LaidOut (m.writePage f p) T := by
  obtain ⟨hok, hiff⟩ := h.free.congr (m.writePage f p) rfl rfl rfl rfl
  refine ⟨hok, h.inj, fun n g hg => (hiff g).mpr (h.inUse n g hg), fun c n k t hp hn => ?_,
    h.rooted⟩
  have hne : t ≠ f := fun he => hf n (he ▸ hn)
  rw [← h.entry c n k t hp hn]
  exact congrFun (Function.update_of_ne hne p m.mem) k

/-- A frame is allocated. -/
theorem alloc (h : LaidOut m T) (hne : (frameAlloc m).1 ≠ 0) :
    LaidOut (frameAlloc m).2 T ∧ InUse (frameAlloc m).2 (frameAlloc m).1 ∧
      (∀ n, T n ≠ some (frameAlloc m).1) ∧
      (frameAlloc m).2.mem = Function.update m.mem (frameAlloc m).1 fun _ => 0 := by
  obtain ⟨hok, hunused, hiff, hmem⟩ := h.free.alloc hne
  have hnot := h.ne_of_unused hunused
  refine ⟨⟨hok, h.inj, fun n g hg => (hiff g).mpr (Or.inl (h.inUse n g hg)),
    fun c n k t hp hn => ?_, h.rooted⟩, (hiff _).mpr (Or.inr rfl), hnot, hmem⟩
  have hne : t ≠ (frameAlloc m).1 := fun he => hnot n (he ▸ hn)
  rw [← h.entry c n k t hp hn, hmem, Function.update_of_ne hne]

/-- A frame is entered for a node : a page, or a table that is new and empty. -/
theorem link (h : LaidOut m T) (hp : c.parent = some (n, k)) (hn : T n = some t) (hf : InUse m f)
    (hnew : ∀ n, T n ≠ some f) (hc : c.isPage = true ∨ T c = none ∧ m.mem f = fun _ => 0) :
    LaidOut (m.writeEntry t k (f ||| userFlags)) (Function.update T c (some f)) := by
  obtain ⟨hok, hiff⟩ := h.free.congr (m.writeEntry t k (f ||| userFlags)) rfl rfl rfl rfl
  have hmem : ∀ g, g ≠ t → (m.writeEntry t k (f ||| userFlags)).mem g = m.mem g :=
    fun g hg => Function.update_of_ne hg _ _
  have hself : (m.writeEntry t k (f ||| userFlags)).mem t
      = Function.update (m.mem t) k (f ||| userFlags) := Function.update_self _ _ _
  refine ⟨hok, fun n₁ n₂ g h₁ h₂ => ?_, fun n' g hg => (hiff g).mpr ?_, fun c' n' k' t' hp' hn' => ?_,
    fun c' n' k' hp' hn' => ?_⟩
  · simp only [Function.update_apply] at h₁ h₂
    split at h₁ <;> split at h₂
    · next e₁ e₂ => exact e₁.trans e₂.symm
    · exact absurd (Option.some.inj h₁ ▸ h₂) (hnew n₂)
    · exact absurd (Option.some.inj h₂ ▸ h₁) (hnew n₁)
    · exact h.inj n₁ n₂ g h₁ h₂
  · simp only [Function.update_apply] at hg
    split at hg
    · exact Option.some.inj hg ▸ hf
    · exact h.inUse n' g hg
  · by_cases hcn : n' = c
    · -- below the node that is entered
      subst hcn
      rw [Function.update_self] at hn'
      have htable := Node.isPage_of_parent hp'
      obtain ⟨hnone, hzero⟩ := hc.resolve_left (by simp [htable])
      have hcc : c' ≠ n' := by
        rintro rfl
        exact Node.parent_ne_self hp'
      have hft : f ≠ t := fun he => hnew n (he ▸ hn)
      rw [← Option.some.inj hn', hmem f hft, hzero, Function.update_of_ne hcc,
        h.rooted c' n' k' hp' hnone]
      rfl
    · rw [Function.update_of_ne hcn] at hn'
      by_cases hcc : c' = c
      · subst hcc
        obtain ⟨rfl, rfl⟩ : n = n' ∧ k = k' := by simpa using hp.symm.trans hp'
        obtain rfl : t = t' := Option.some.inj (hn.symm.trans hn')
        rw [hself, Function.update_self, Function.update_self]
        rfl
      · rw [Function.update_of_ne hcc, ← h.entry c' n' k' t' hp' hn']
        by_cases htt : t' = t
        · subst htt
          obtain rfl := h.inj _ _ _ hn hn'
          have hkk : k' ≠ k := by
            rintro rfl
            exact hcc (Node.parent_inj hp' hp)
          rw [hself, Function.update_of_ne hkk]
        · rw [hmem t' htt]
  · have hcn : n' ≠ c := by
      rintro rfl
      simp at hn'
    rw [Function.update_of_ne hcn] at hn'
    have hcc : c' ≠ c := by
      rintro rfl
      obtain ⟨rfl, _⟩ : n = n' ∧ k = k' := by simpa using hp.symm.trans hp'
      rw [hn] at hn'
      exact absurd hn' (by simp)
    rw [Function.update_of_ne hcc]
    exact h.rooted c' n' k' hp' hn'

end LaidOut

/-! ## Tables on demand -/

/-- Tables are added to a space, and nothing else changes for its pages or for a frame that
belongs to no node. -/
structure Grown (m m' : PagingState) (T T' : Layout) : Prop where
  holds : LaidOut m' T'
  keep : ∀ n f, T n = some f → T' n = some f
  page : ∀ i j, T' (.page i j) = T (.page i j)
  data : ∀ i j f, T (.page i j) = some f → m'.mem f = m.mem f
  spare : ∀ f, InUse m f → (∀ n, T n ≠ some f) →
    InUse m' f ∧ (∀ n, T' n ≠ some f) ∧ m'.mem f = m.mem f

namespace LaidOut

variable {m : PagingState} {T : Layout} {c n : Node} {k : Fin 512} {t f : UInt64}

/-- `paging_next_level` at a table that is there. -/
theorem nextLevel_there (h : LaidOut m T) (hp : c.parent = some (n, k)) (hn : T n = some t)
    (hc : T c = some f) : pagingNextLevel m t k userFlags = (f, m) := by
  have hframe : IsFrame (Ref.mk f .writable).frame := h.isFrame hc
  have hentry : m.mem t k = Ref.entry ⟨f, .writable⟩ := by
    rw [h.entry c n k t hp hn, hc]
    rfl
  have hsame : m.writeEntry t k (m.mem t k ||| (userFlags &&& pageUser)) = m := by
    rw [show userFlags &&& pageUser = pageUser by decide, hentry, Ref.entry_or_user rfl,
      ← hentry]
    unfold PagingState.writeEntry PagingState.writePage
    rw [Function.update_eq_self, Function.update_eq_self]
  unfold pagingNextLevel
  rw [if_neg (by rw [hentry]; exact Ref.entry_present hframe)]
  simp only [hsame]
  rw [hentry, Ref.entry_and_nextLevelMask hframe]

/-- `paging_next_level` at a table that is missing. -/
theorem nextLevel_new (h : LaidOut m T) (hp : c.parent = some (n, k)) (hn : T n = some t)
    (hc : T c = none) (hne : (frameAlloc m).1 ≠ 0) :
    pagingNextLevel m t k userFlags = ((frameAlloc m).1,
      (frameAlloc m).2.writeEntry t k ((frameAlloc m).1 ||| userFlags)) := by
  have habsent : m.mem t k &&& pagePresent = 0 := by
    rw [h.entry c n k t hp hn, hc]
    exact UInt64.zero_and
  obtain ⟨h', huse, _, _⟩ := h.alloc hne
  have hframe : IsFrame (Ref.mk (frameAlloc m).1 .writable).frame := huse.isFrame h'.free
  have hflags : (frameAlloc m).1 ||| pagePresent ||| pageWritable ||| (userFlags &&& pageUser)
      = (frameAlloc m).1 ||| userFlags := by
    rw [show userFlags &&& pageUser = pageUser by decide, UInt64.or_assoc, UInt64.or_assoc]
    rfl
  have hself : ((frameAlloc m).2.writeEntry t k ((frameAlloc m).1 ||| userFlags)).mem t k
      = Ref.entry ⟨(frameAlloc m).1, .writable⟩ := by
    simp only [PagingState.writeEntry, PagingState.writePage, Function.update_self]
    rfl
  unfold pagingNextLevel
  simp only [if_pos habsent, if_neg hne, hflags]
  rw [hself, Ref.entry_and_nextLevelMask hframe]

/-- `paging_next_level` at a table that is missing, when there are no frames left. -/
theorem nextLevel_fails (h : LaidOut m T) (hp : c.parent = some (n, k)) (hn : T n = some t)
    (hc : T c = none) (hzero : (frameAlloc m).1 = 0) :
    pagingNextLevel m t k userFlags = (0, (frameAlloc m).2) := by
  have habsent : m.mem t k &&& pagePresent = 0 := by
    rw [h.entry c n k t hp hn, hc]
    exact UInt64.zero_and
  unfold pagingNextLevel
  simp only [if_pos habsent, if_pos hzero]

/-- `paging_next_level` : the table is found or made, or there are no frames left. -/
theorem nextLevel (h : LaidOut m T) (hp : c.parent = some (n, k)) (hn : T n = some t)
    (htable : c.isPage = false) :
    (∃ T', Grown m (pagingNextLevel m t k userFlags).2 T T' ∧
      T' c = some (pagingNextLevel m t k userFlags).1) ∨
    (pagingNextLevel m t k userFlags).1 = 0 ∧ Exhausted (pagingNextLevel m t k userFlags).2 ∧
      T c = none := by
  cases hc : T c with
  | some f =>
    rw [h.nextLevel_there hp hn hc]
    exact Or.inl ⟨T, ⟨h, fun n f hf => hf, fun i j => rfl, fun i j f _ => rfl,
      fun f hf hnew => ⟨hf, hnew, rfl⟩⟩, hc⟩
  | none =>
    by_cases hne : (frameAlloc m).1 = 0
    · rw [h.nextLevel_fails hp hn hc hne]
      exact Or.inr ⟨rfl, (h.free.alloc_eq_zero.mp hne).alloc.2.1, rfl⟩
    · obtain ⟨h', huse, hnew, hmem⟩ := h.alloc hne
      obtain ⟨_, _, hiff, _⟩ := h.free.alloc hne
      have hmem' : ∀ g, g ≠ t → ((frameAlloc m).2.writeEntry t k
          ((frameAlloc m).1 ||| userFlags)).mem g = (frameAlloc m).2.mem g :=
        fun g hg => Function.update_of_ne hg _ _
      have heq := h.nextLevel_new hp hn hc hne
      have hlink := h'.link hp hn huse hnew (Or.inr ⟨hc, by rw [hmem, Function.update_self]⟩)
      rw [heq]
      refine Or.inl ⟨_, ⟨hlink, fun n' g hg => ?_, fun i j => ?_, fun i j g hg => ?_,
        fun g hg hspare => ⟨(hiff g).mpr (Or.inl hg), fun n' => ?_, ?_⟩⟩, Function.update_self _ _ _⟩
      · have hne' : n' ≠ c := by
          rintro rfl
          exact absurd (hc.symm.trans hg) (by simp)
        rw [Function.update_of_ne hne', hg]
      · refine Function.update_of_ne ?_ _ _
        rintro rfl
        exact Bool.noConfusion htable
      · have hgt : g ≠ t := by
          rintro rfl
          have hpage := Node.isPage_of_parent hp
          rw [h.inj _ _ _ hn hg] at hpage
          exact Bool.noConfusion hpage
        rw [hmem' g hgt, hmem, Function.update_of_ne fun he => hnew _ (he ▸ hg)]
      · rw [Function.update_apply]
        split
        · exact fun he => (h.free.alloc hne).2.1 (Option.some.inj he ▸ hg)
        · exact hspare n'
      · have hgt : g ≠ t := fun he => hspare n (he ▸ hn)
        have hga : g ≠ (frameAlloc m).1 := fun he => (h.free.alloc hne).2.1 (he ▸ hg)
        rw [hmem' g hgt, hmem, Function.update_of_ne hga]

end LaidOut

/-! ## Loading pages -/

/-- The address space from `root` on has the pages `P`, and only those. -/
def Built (m : PagingState) (root : UInt64) (P : Pages) : Prop :=
  ∃ T, LaidOut m T ∧ T .pml4 = some root ∧ T .pd ≠ none ∧ T.contents m = P

section Build

variable {m : PagingState} {T : Layout} {root va f : UInt64} {P : Pages}

/-- The upper tables of a space that has a PD. -/
theorem LaidOut.upper (h : LaidOut m T) (hpd : T .pd ≠ none) :
    ∃ t₃ t₂, T .pdpt = some t₃ ∧ T .pd = some t₂ := by
  obtain ⟨t₂, ht₂⟩ := Option.ne_none_iff_exists'.mp hpd
  cases ht₃ : T .pdpt with
  | some t₃ => exact ⟨t₃, t₂, rfl, ht₂⟩
  | none => exact absurd (h.rooted .pd .pdpt 0 rfl ht₃) hpd

/-- `paging_map_4k` : the page is entered, or there was no frame for its table. -/
theorem LaidOut.map4k (h : LaidOut m T) (hroot : T .pml4 = some root) (hpd : T .pd ≠ none)
    {i j : Fin 512} (hat : At va i j) (hf : InUse m f) (hspare : ∀ n, T n ≠ some f) :
    Built (pagingMap4k m root va f userFlags) root
        (fun i' j' => if (i', j') = (i, j) then some (m.mem f) else T.contents m i' j') ∨
      Exhausted (pagingMap4k m root va f userFlags) ∧ T (.pt i) = none := by
  obtain ⟨t₃, t₂, ht₃, ht₂⟩ := h.upper hpd
  have hpt : Node.parent (.pt i) = some (.pd, i) := if_pos hat.user
  have hne₃ := (h.inUse _ _ ht₃).ne_zero h.free
  have hne₂ := (h.inUse _ _ ht₂).ne_zero h.free
  unfold pagingMap4k
  simp only [hat.pml4, hat.pdpt, hat.pd, hat.pt, h.nextLevel_there (c := .pdpt) rfl hroot ht₃,
    h.nextLevel_there (c := .pd) rfl ht₃ ht₂, if_neg hne₃, if_neg hne₂]
  rcases h.nextLevel hpt ht₂ rfl with ⟨T', hg, hc⟩ | ⟨hzero, hend, hnone⟩
  · obtain ⟨hf', hspare', hmem⟩ := hg.spare f hf hspare
    set r := pagingNextLevel m t₂ i userFlags with hr
    have hnt : f ≠ r.1 := fun he => hspare' _ (he ▸ hc)
    rw [if_neg ((hg.holds.inUse _ _ hc).ne_zero hg.holds.free)]
    have hlink := hg.holds.link (c := .page i j) rfl hc hf' hspare' (Or.inl rfl)
    have hkeep : ∀ g, g ≠ r.1 → (r.2.writeEntry r.1 j (f ||| userFlags)).mem g = r.2.mem g :=
      fun g hg => Function.update_of_ne hg _ _
    rw [show f &&& pageAddrMask = f from hf.isFrame h.free]
    refine Or.inl ⟨_, hlink, ?_, ?_, ?_⟩
    · rw [Function.update_of_ne (by simp), hg.keep _ _ hroot]
    · rw [Function.update_of_ne (by simp), hg.keep _ _ ht₂]
      simp
    · funext i' j'
      unfold Layout.contents
      by_cases he : (i', j') = (i, j)
      · obtain ⟨rfl, rfl⟩ : i' = i ∧ j' = j := by simpa using he
        rw [if_pos rfl, Function.update_self, Option.map_some, hkeep f hnt, hmem]
      · have hne : Node.page i' j' ≠ .page i j := by simpa using he
        rw [if_neg he, Function.update_of_ne hne, hg.page i' j']
        cases hx : T (.page i' j') with
        | none => rfl
        | some g =>
          have hgt : g ≠ r.1 := by
            rintro rfl
            exact Node.noConfusion (hg.holds.inj _ _ _ ((hg.page i' j').trans hx) hc)
          rw [Option.map_some, Option.map_some, hkeep g hgt, hg.data i' j' g hx]
  · rw [if_pos hzero]
    exact Or.inr ⟨hend, hnone⟩

/-- A page is loaded, over what is there. -/
theorem Built.loadPage (h : Built m root P) (hva : InUser va) {fill : Page → Page}
    (hdone : (loadPage root va userFlags fill m).1 = true) :
    Built (loadPage root va userFlags fill m).2 root (P.set va (fill fun _ => 0)) ∨
      Exhausted (loadPage root va userFlags fill m).2 ∧ ∀ j, P (levelIndex va 21) j = none := by
  obtain ⟨T, hT, hroot, hpd, rfl⟩ := h
  unfold VernisOS.loadPage at hdone ⊢
  by_cases hne : (frameAlloc m).1 = 0
  · simp [hne] at hdone
  simp only [if_neg hne]
  obtain ⟨h', huse, hnew, hmem⟩ := hT.alloc hne
  have hzero : (frameAlloc m).2.mem (frameAlloc m).1 = fun _ => 0 := by
    rw [hmem, Function.update_self]
  rw [hzero]
  set f := (frameAlloc m).1 with hf
  set m₁ := (frameAlloc m).2.writePage f (fill fun _ => 0) with hm₁
  have h₁ : LaidOut m₁ T := h'.writePage hnew _
  have huse₁ : InUse m₁ f := huse
  have hfill : m₁.mem f = fill fun _ => 0 := Function.update_self _ _ _
  have hcontents : T.contents m₁ = T.contents m := by
    funext i j
    unfold Layout.contents
    cases hx : T (.page i j) with
    | none => rfl
    | some g =>
      have hg : g ≠ f := fun he => hnew _ (he ▸ hx)
      have hm₁g : m₁.mem g = (frameAlloc m).2.mem g := Function.update_of_ne hg _ _
      rw [Option.map_some, Option.map_some, hm₁g, hmem, Function.update_of_ne hg]
  rcases h₁.map4k hroot hpd hva.at huse₁ hnew with hb | ⟨hend, hnone⟩
  · rw [hcontents, hfill] at hb
    exact Or.inl hb
  · refine Or.inr ⟨hend, fun j => ?_⟩
    unfold Layout.contents
    rw [hT.rooted (.page _ j) (.pt _) j rfl hnone]
    rfl

/-- Without frames no page is loaded. -/
theorem Exhausted.loadPages (h : Exhausted m) {pages : List (UInt64 × (Page → Page))}
    (hne : pages ≠ []) :
    (loadPages root pages m).1 = false ∧ (loadPages root pages m).2.outOfFrames = true := by
  obtain ⟨q, rest, rfl⟩ := List.exists_cons_of_ne_nil hne
  obtain ⟨hzero, _, hmark⟩ := h.alloc
  have hq : VernisOS.loadPage root q.1 userFlags q.2 m = (false, (frameAlloc m).2) := by
    unfold VernisOS.loadPage
    simp only [if_pos hzero]
  rw [VernisOS.loadPages, hq]
  exact ⟨rfl, hmark⟩

/-- A page loop that goes through : every page is loaded, over what is there. The table of the
last page is the one that may be missing. -/
theorem Built.loadPages (pages : List (UInt64 × (Page → Page))) :
    ∀ {m : PagingState} {P : Pages}, Built m root P → (∀ q ∈ pages, InUser q.1) →
      (loadPages root pages m).1 = true →
      Built (loadPages root pages m).2 root (P.load pages) ∨
        Exhausted (loadPages root pages m).2 := by
  induction pages with
  | nil => exact fun h _ _ => Or.inl h
  | cons q rest ih =>
    intro m P h hin hdone
    have hq : (VernisOS.loadPage root q.1 userFlags q.2 m).1 = true := by
      by_contra hq
      rw [VernisOS.loadPages, if_neg hq] at hdone
      exact hq hdone
    unfold VernisOS.loadPages at hdone ⊢
    simp only [hq, if_true] at hdone ⊢
    rcases h.loadPage (hin q List.mem_cons_self) hq with hb | ⟨hend, _⟩
    · exact ih hb (fun q' hq' => hin q' (List.mem_cons_of_mem q hq')) hdone
    · cases rest with
      | nil => exact Or.inr hend
      | cons q' rest =>
        rw [(hend.loadPages (by simp)).1] at hdone
        exact absurd hdone Bool.noConfusion

end Build

/-! ## Images -/

theorem Pages.load_keeps (pages : List (UInt64 × (Page → Page))) {i j : Fin 512} :
    ∀ {P : Pages}, P i j ≠ none → P.load pages i j ≠ none := by
  induction pages with
  | nil => exact fun h => h
  | cons q rest ih =>
    intro P h
    refine ih (P := P.set q.1 _) ?_
    unfold Pages.set
    split
    · simp
    · exact h

/-- What has been loaded is there. -/
theorem Pages.load_ne_none {pages : List (UInt64 × (Page → Page))}
    {q : UInt64 × (Page → Page)} (hq : q ∈ pages) :
    ∀ P : Pages, (P.load pages).pageAt q.1 ≠ none := by
  induction pages with
  | nil => exact absurd hq List.not_mem_nil
  | cons q' rest ih =>
    intro P
    rcases List.mem_cons.mp hq with rfl | hq
    · refine Pages.load_keeps rest (P := P.set q.1 _) ?_
      simp [Pages.set]
    · exact ih hq (P.set q'.1 _)

section Image

variable {m : PagingState} {root : UInt64} {P : Pages}

/-- A page loop that goes through, with the last page in the table of another one. -/
theorem Built.loadPages_last {init : List (UInt64 × (Page → Page))} {q q₀ : UInt64 × (Page → Page)}
    (h : Built m root P) (hin : ∀ p ∈ init ++ [q], InUser p.1) (hq₀ : q₀ ∈ init)
    (htable : levelIndex q₀.1 21 = levelIndex q.1 21)
    (hdone : (VernisOS.loadPages root (init ++ [q]) m).1 = true) :
    Built (VernisOS.loadPages root (init ++ [q]) m).2 root (P.load (init ++ [q])) := by
  have hinit : (VernisOS.loadPages root init m).1 = true := by
    by_contra hno
    rw [loadPages_append, if_neg hno] at hdone
    exact hno hdone
  rw [loadPages_append, if_pos hinit] at hdone ⊢
  rcases h.loadPages init (fun p hp => hin p (List.mem_append_left _ hp)) hinit with hb | hend
  · have hq : (VernisOS.loadPage root q.1 userFlags q.2 (VernisOS.loadPages root init m).2).1
        = true := by
      by_contra hno
      rw [VernisOS.loadPages, if_neg hno] at hdone
      exact hno hdone
    have hlast : P.load (init ++ [q]) = (P.load init).set q.1 (q.2 fun _ => 0) := by
      unfold Pages.load
      rw [List.foldl_append]
      rfl
    rw [VernisOS.loadPages, if_pos hq, hlast]
    rcases hb.loadPage (hin q (by simp)) hq with hb' | ⟨_, hnone⟩
    · exact hb'
    · rw [← htable] at hnone
      exact absurd (hnone _) (Pages.load_ne_none hq₀ P)
  · rw [(hend.loadPages (by simp)).1] at hdone
    exact absurd hdone Bool.noConfusion

/-- The image of a file in a space, when the loader gets to its end. -/
theorem Built.loadImage {file : ElfFile} {brk : UInt64} (h : Built m root P)
    (hin : ∀ q ∈ file.imagePages, InUser q.1)
    (hdone : (loadImage file root m brk).1 = true) :
    Built (VernisOS.loadImage file root m brk).2.1 root (P.load file.imagePages) := by
  have heq := loadImage_eq file root m brk
  have h₁ := congrArg Prod.fst heq
  have h₂ := congrArg Prod.snd heq
  simp only at h₁ h₂
  have hsplit : file.imagePages = (file.segments.flatMap (fun ph => ph.pages file) ++
      stackPages.dropLast) ++ [(0x107FF000, id)] := by
    rw [List.append_assoc]
    rfl
  rw [h₁] at hdone
  rw [h₂]
  rw [hsplit] at hdone hin ⊢
  have hstack : (0x107FE000, id) ∈ file.segments.flatMap (fun ph => ph.pages file) ++
      stackPages.dropLast :=
    List.mem_append_right _ (by simp [stackPages, userStackTop])
  exact h.loadPages_last hin hstack (by decide) hdone

/-- The layout of a space without user tables. -/
def upperLayout (a b c : UInt64) : Layout
  | .pml4 => some a
  | .pdpt => some b
  | .pd => some c
  | _ => none

/-- The three upper tables make a space without pages. -/
theorem FreeOk.upper (h : FreeOk m) {a b c : UInt64} (ha : InUse m a) (hb : InUse m b)
    (hc : InUse m c) (hab : a ≠ b) (hac : a ≠ c) (hbc : b ≠ c)
    (h₄ : m.mem a 0 = b ||| userFlags) (h₃ : m.mem b 0 = c ||| userFlags)
    (h₂ : ∀ i, 64 ≤ i → m.mem c i = 0) : Built m a Pages.empty := by
  refine ⟨upperLayout a b c, ⟨h, fun n n' f hn hn' => ?_, fun n f hn => ?_,
    fun d n k t hp hn => ?_, fun d n k hp hn => ?_⟩, rfl, by simp [upperLayout], rfl⟩
  · cases n <;> cases n' <;> simp only [upperLayout, Option.some.injEq, reduceCtorEq] at hn hn' <;>
      first | rfl | (subst hn; first | exact absurd hn'.symm ‹_› | exact absurd hn' ‹_›)
  · cases n <;> simp only [upperLayout, Option.some.injEq, reduceCtorEq] at hn <;> subst hn
    · exact ha
    · exact hb
    · exact hc
  · cases d with
    | pml4 => exact absurd hp (by simp [Node.parent])
    | pdpt =>
      obtain ⟨rfl, rfl⟩ : Node.pml4 = n ∧ 0 = k := by simpa [Node.parent] using hp
      exact Option.some.inj hn ▸ h₄
    | pd =>
      obtain ⟨rfl, rfl⟩ : Node.pdpt = n ∧ 0 = k := by simpa [Node.parent] using hp
      exact Option.some.inj hn ▸ h₃
    | pt i =>
      by_cases hi : 64 ≤ i
      · obtain ⟨rfl, rfl⟩ : Node.pd = n ∧ i = k := by simpa [Node.parent, hi] using hp
        exact Option.some.inj hn ▸ h₂ i hi
      · simp [Node.parent, hi] at hp
    | page i j =>
      obtain ⟨rfl, rfl⟩ : Node.pt i = n ∧ j = k := by simpa [Node.parent] using hp
      exact absurd hn (by simp [upperLayout])
  · cases n with
    | pt i => cases d <;> simp only [Node.parent] at hp <;> grind [upperLayout]
    | page i j => exact absurd (Node.isPage_of_parent hp) (by simp [Node.isPage])
    | _ => exact absurd hn (by simp [upperLayout])

/-- `paging_create_address_space`, when it returns a space. -/
theorem FreeOk.newSpace (h : FreeOk m) {src : UInt64}
    (hne : (pagingCreateAddressSpace m src).1 ≠ 0) :
    Built (pagingCreateAddressSpace m src).2 (pagingCreateAddressSpace m src).1 Pages.empty := by
  unfold pagingCreateAddressSpace at hne ⊢
  by_cases ha : (frameAlloc m).1 = 0
  · simp [ha] at hne
  simp only [if_neg ha] at hne ⊢
  obtain ⟨h₁, _, hiff₁, _⟩ := h.alloc ha
  generalize (frameAlloc m).1 = a at *
  generalize hm₁ : (frameAlloc m).2.writePage a ((frameAlloc m).2.mem src) = m₁ at *
  obtain ⟨hok₁, hu₁⟩ := h₁.congr m₁ (hm₁ ▸ rfl) (hm₁ ▸ rfl) (hm₁ ▸ rfl) (hm₁ ▸ rfl)
  have ha₁ : InUse m₁ a := (hu₁ a).mpr ((hiff₁ a).mpr (Or.inr rfl))
  unfold createPdpt at hne ⊢
  by_cases hb : (frameAlloc m₁).1 = 0
  · simp [hb] at hne
  simp only [if_neg hb] at hne ⊢
  obtain ⟨h₂, hbNew, hiff₂, hmem₂⟩ := hok₁.alloc hb
  generalize (frameAlloc m₁).1 = b at *
  generalize hsrc : (frameAlloc m₁).2.mem (m₁.mem src 0 &&& pageAddrMask) = pdpt at *
  have hab : a ≠ b := fun he => hbNew (he ▸ ha₁)
  generalize hm₂ : ((frameAlloc m₁).2.writePage b pdpt).writeEntry a 0 (b ||| userFlags) = m₂ at *
  obtain ⟨hok₂, hu₂⟩ := h₂.congr m₂ (hm₂ ▸ rfl) (hm₂ ▸ rfl) (hm₂ ▸ rfl) (hm₂ ▸ rfl)
  have ha₂ : InUse m₂ a := (hu₂ a).mpr ((hiff₂ a).mpr (Or.inl ha₁))
  have hb₂ : InUse m₂ b := (hu₂ b).mpr ((hiff₂ b).mpr (Or.inr rfl))
  have h₄ : m₂.mem a 0 = b ||| userFlags := by
    rw [← hm₂]
    simp [PagingState.writeEntry, PagingState.writePage]
  unfold createPd at hne ⊢
  by_cases hc : (frameAlloc m₂).1 = 0
  · simp [hc] at hne
  simp only [if_neg hc] at hne ⊢
  obtain ⟨h₃, hcNew, hiff₃, hmem₃⟩ := hok₂.alloc hc
  generalize (frameAlloc m₂).1 = c at *
  have hac : a ≠ c := fun he => hcNew (he ▸ ha₂)
  have hbc : b ≠ c := fun he => hcNew (he ▸ hb₂)
  set pd : Page := fun i => if i < 64 then (frameAlloc m₂).2.mem _ i else 0 with hpd
  set m₃ := ((frameAlloc m₂).2.writePage c pd).writeEntry b 0 (c ||| userFlags) with hm₃
  obtain ⟨hok₃, hu₃⟩ := h₃.congr m₃ rfl rfl rfl rfl
  have hmem : ∀ g, g ≠ b → m₃.mem g = Function.update (frameAlloc m₂).2.mem c pd g :=
    fun g hg => Function.update_of_ne hg _ _
  refine hok₃.upper (c := c) ((hu₃ a).mpr ((hiff₃ a).mpr (Or.inl ha₂)))
    ((hu₃ b).mpr ((hiff₃ b).mpr (Or.inl hb₂))) ((hu₃ c).mpr ((hiff₃ c).mpr (Or.inr rfl)))
    hab hac hbc ?_ ?_ fun i hi => ?_
  · rw [hmem a hab, Function.update_of_ne hac, hmem₃, Function.update_of_ne hac, h₄]
  · simp [m₃, PagingState.writeEntry, PagingState.writePage]
  · rw [hmem c hbc.symm, Function.update_self, hpd]
    exact if_neg (by simpa using hi)

/-- A page that is not loaded leaves the mark of a failed allocation. -/
theorem FreeOk.loadPage_fails (h : FreeOk m) {va : UInt64} {fill : Page → Page}
    (hfail : (loadPage root va userFlags fill m).1 = false) :
    (loadPage root va userFlags fill m).2.outOfFrames = true := by
  unfold VernisOS.loadPage at hfail ⊢
  by_cases hne : (frameAlloc m).1 = 0
  · simp only [if_pos hne]
    exact (h.alloc_eq_zero.mp hne).alloc.2.2
  · simp [hne] at hfail

/-- A page loop goes through as long as frames last. -/
theorem Built.loadPages_done (pages : List (UInt64 × (Page → Page))) :
    ∀ {m : PagingState} {P : Pages}, Built m root P → (∀ q ∈ pages, InUser q.1) →
      (VernisOS.loadPages root pages m).2.outOfFrames = false →
      (VernisOS.loadPages root pages m).1 = true := by
  induction pages with
  | nil => exact fun _ _ _ => rfl
  | cons q rest ih =>
    intro m P h hin hok
    obtain ⟨T, hT, _⟩ := id h
    have hq : (VernisOS.loadPage root q.1 userFlags q.2 m).1 = true := by
      by_contra hq
      rw [Bool.not_eq_true] at hq
      rw [VernisOS.loadPages, if_neg (by simp [hq]), hT.free.loadPage_fails hq] at hok
      exact Bool.noConfusion hok
    unfold VernisOS.loadPages at hok ⊢
    simp only [hq, if_true] at hok ⊢
    rcases h.loadPage (hin q List.mem_cons_self) hq with hb | ⟨hend, _⟩
    · exact ih hb (fun q' hq' => hin q' (List.mem_cons_of_mem q hq')) hok
    · cases rest with
      | nil => rfl
      | cons q' rest =>
        rw [(hend.loadPages (by simp)).2] at hok
        exact absurd hok Bool.noConfusion

/-- A loader gets to the end of an image as long as frames last. -/
theorem Built.loadImage_done {file : ElfFile} {brk : UInt64} (h : Built m root P)
    (hin : ∀ q ∈ file.imagePages, InUser q.1)
    (hok : (VernisOS.loadImage file root m brk).2.1.outOfFrames = false) :
    (VernisOS.loadImage file root m brk).1 = true := by
  have heq := loadImage_eq file root m brk
  have h₁ := congrArg Prod.fst heq
  have h₂ := congrArg Prod.snd heq
  simp only at h₁ h₂
  rw [h₂] at hok
  rw [h₁]
  exact h.loadPages_done file.imagePages hin hok

/-- `paging_create_address_space` succeeds as long as frames last. -/
theorem FreeOk.newSpace_done (h : FreeOk m) {src : UInt64}
    (hok : (pagingCreateAddressSpace m src).2.outOfFrames = false) :
    (pagingCreateAddressSpace m src).1 ≠ 0 := by
  unfold pagingCreateAddressSpace at hok ⊢
  by_cases ha : (frameAlloc m).1 = 0
  · simp only [if_pos ha] at hok
    exact absurd ((h.alloc_eq_zero.mp ha).alloc.2.2.symm.trans hok) Bool.noConfusion
  simp only [if_neg ha] at hok ⊢
  obtain ⟨h₁, _⟩ := h.alloc ha
  generalize hm₁ : (frameAlloc m).2.writePage (frameAlloc m).1 ((frameAlloc m).2.mem src) = m₁ at *
  obtain ⟨hok₁, _⟩ := h₁.congr m₁ (hm₁ ▸ rfl) (hm₁ ▸ rfl) (hm₁ ▸ rfl) (hm₁ ▸ rfl)
  unfold createPdpt at hok ⊢
  by_cases hb : (frameAlloc m₁).1 = 0
  · simp only [if_pos hb, frameFree_outOfFrames] at hok
    exact absurd ((hok₁.alloc_eq_zero.mp hb).alloc.2.2.symm.trans hok) Bool.noConfusion
  simp only [if_neg hb] at hok ⊢
  obtain ⟨h₂, _⟩ := hok₁.alloc hb
  generalize hm₂ : ((frameAlloc m₁).2.writePage (frameAlloc m₁).1 ((frameAlloc m₁).2.mem
    (m₁.mem src 0 &&& pageAddrMask))).writeEntry (frameAlloc m).1 0
      ((frameAlloc m₁).1 ||| userFlags) = m₂ at *
  obtain ⟨hok₂, _⟩ := h₂.congr m₂ (hm₂ ▸ rfl) (hm₂ ▸ rfl) (hm₂ ▸ rfl) (hm₂ ▸ rfl)
  unfold createPd at hok ⊢
  by_cases hc : (frameAlloc m₂).1 = 0
  · simp only [if_pos hc, frameFree_outOfFrames] at hok
    exact absurd ((hok₂.alloc_eq_zero.mp hc).alloc.2.2.symm.trans hok) Bool.noConfusion
  · simp only [if_neg hc]
    exact ha

/-- The walk in the user area finds the pages of the space. -/
theorem Built.translate (h : Built m root P) {va : UInt64} (hva : InUser va) :
    (mmuTranslate m root va false).map m.mem = P.pageAt va := by
  obtain ⟨T, hT, hroot, hpd, rfl⟩ := h
  obtain ⟨t₃, t₂, ht₃, ht₂⟩ := hT.upper hpd
  have hat := hva.at
  have hpt : Node.parent (.pt (levelIndex va 21)) = some (.pd, levelIndex va 21) := if_pos hat.user
  have hperm : ∀ {f}, IsFrame f → Permits false (Ref.entry ⟨f, .writable⟩) :=
    fun hf => (Ref.permits_iff (x := ⟨_, .writable⟩) hf false).mpr (by simp)
  have hentry : ∀ {c n : Node} {k : Fin 512} {t f : UInt64}, c.parent = some (n, k) →
      T n = some t → T c = some f → m.mem t k = Ref.entry ⟨f, .writable⟩ := by
    intro c n k t f hp hn hc
    rw [hT.entry c n k t hp hn, hc]
    rfl
  have hmask : ∀ {n : Node} {f}, T n = some f → Ref.entry ⟨f, .writable⟩ &&& pageAddrMask = f :=
    fun hn => Ref.entry_and_mask (x := ⟨_, .writable⟩) (hT.isFrame hn)
  have hps : ∀ {n : Node} {f}, T n = some f → Ref.entry ⟨f, .writable⟩ &&& pagePs = 0 :=
    fun hn => Ref.entry_ps (x := ⟨_, .writable⟩) (hT.isFrame hn)
  unfold mmuTranslate Layout.contents Pages.pageAt
  simp only [hat.pml4, hat.pdpt, hentry (c := .pdpt) rfl hroot ht₃,
    hentry (c := .pd) rfl ht₃ ht₂, hmask ht₃, hmask ht₂]
  cases ht₁ : T (.pt (levelIndex va 21)) with
  | none =>
    have hzero : m.mem t₂ (levelIndex va 21) = 0 := by
      rw [hT.entry _ _ _ _ hpt ht₂, ht₁]
      rfl
    rw [hzero, hT.rooted (.page _ (levelIndex va 12)) _ _ rfl ht₁,
      if_neg fun hall => not_permits_zero false hall.2.2.2.2]
  | some t₁ =>
    rw [hentry hpt ht₂ ht₁, hmask ht₁,
      if_pos ⟨hva.canonical, hperm (hT.isFrame ht₃), hperm (hT.isFrame ht₂), hps ht₂,
        hperm (hT.isFrame ht₁)⟩, if_neg (not_not.mpr (hps ht₁))]
    cases hx : T (.page (levelIndex va 21) (levelIndex va 12)) with
    | none =>
      have hzero : m.mem t₁ (levelIndex va 12) = 0 := by
        rw [hT.entry (.page _ _) _ _ _ rfl ht₁, hx]
        rfl
      rw [hzero, if_neg (not_permits_zero false)]
    | some f =>
      rw [hentry (c := .page _ _) rfl ht₁ hx, if_pos (hperm (hT.isFrame hx)), hmask hx]

end Image

end VernisOS
