import Mathlib.Tactic.FinCases
import VernisOS.PagingTree

/-!
# Address spaces on page tables

What the paging functions of the kernel do to the trees : `paging_next_level` and
`paging_map_4k` find or make the tables of a page, `paging_create_address_space` makes a
tree without pages, `paging_clone_user_pages` shares the pages of one, and
`paging_free_user_space` gives everything back. The processor's walk finds what is there.
-/

namespace VernisOS

open Holder

/-! ## Entries -/

section Entry

variable {x : Ref}

theorem Mode.flags_user (mode : Mode) : mode.flags &&& pageUser = pageUser := by
  cases mode <;> decide

theorem Mode.flags_low (mode : Mode) : mode.flags &&& 0xFFF = mode.flags := by
  cases mode <;> decide

theorem Ref.entry_and_mask (h : IsFrame x.frame) : x.entry &&& pageAddrMask = x.frame := by
  unfold Ref.entry
  refine h.or_and_mask (by decide) ?_
  cases x.mode <;> decide

theorem Ref.entry_and_nextLevelMask (h : IsFrame x.frame) :
    x.entry &&& nextLevelMask = x.frame := by
  unfold Ref.entry
  refine h.or_and_mask (by decide) ?_
  cases x.mode <;> decide

/-- The flags of the entry for a reference. -/
theorem Ref.entry_and_flags (h : IsFrame x.frame) {d : UInt64} (hd : pageAddrMask &&& d = 0) :
    x.entry &&& d = x.mode.flags &&& d :=
  h.or_and_flags _ d hd

theorem Ref.entry_present (h : IsFrame x.frame) : x.entry &&& pagePresent ≠ 0 := by
  rw [Ref.entry_and_flags h (by decide)]
  cases x.mode <;> decide

theorem Ref.entry_ps (h : IsFrame x.frame) : x.entry &&& pagePs = 0 := by
  rw [Ref.entry_and_flags h (by decide)]
  cases x.mode <;> decide

theorem Ref.hasTable (h : IsFrame x.frame) : HasTable x.entry := by
  rintro (hp | hps)
  · exact Ref.entry_present h hp
  · exact hps (Ref.entry_ps h)

theorem not_hasTable_zero : ¬ HasTable 0 :=
  fun h => h (Or.inl (by decide))

theorem Ref.entry_or_user (h : x.readOnly = false) : x.entry ||| pageUser = x.entry := by
  have hmode : x.mode = .writable := by simpa [Ref.readOnly] using h
  unfold Ref.entry
  rw [hmode, UInt64.or_assoc]
  rfl

/-- What user code may do through an entry. -/
theorem Ref.permits_iff (h : IsFrame x.frame) (write : Bool) :
    Permits write x.entry ↔ (write = true → x.readOnly = false) := by
  unfold Permits Ref.readOnly
  cases write <;> rw [Ref.entry_and_flags h (by decide)] <;> cases x.mode <;> decide

theorem not_permits_zero (write : Bool) : ¬ Permits write 0 := by
  cases write <;> decide

theorem not_permits_of_user {e : UInt64} (h : e &&& pageUser = 0) (write : Bool) :
    ¬ Permits write e := by
  intro hp
  have hneed : accessFlags write &&& pageUser = pageUser := by
    cases write <;> decide
  have hu : e &&& pageUser = pageUser := by
    calc e &&& pageUser
        = e &&& accessFlags write &&& pageUser := by rw [UInt64.and_assoc, hneed]
      _ = pageUser := by rw [hp, hneed]
  rw [h] at hu
  exact absurd hu (by decide)

end Entry

/-! ## Addresses -/

/-- `va` is in the page `j` of the user table `i`. -/
structure At (va : UInt64) (i j : Fin 512) : Prop where
  pml4 : levelIndex va 39 = 0
  pdpt : levelIndex va 30 = 0
  pd : levelIndex va 21 = i
  pt : levelIndex va 12 = j
  user : 64 ≤ i

theorem levelIndex_val {va shift : UInt64} {n : ℕ} (hs : shift.toNat % 64 = n) :
    (levelIndex va shift).val = va.toNat / 2 ^ n % 512 := by
  have h511 : (0x1FF : UInt64).toNat = 2 ^ 9 - 1 := rfl
  unfold levelIndex
  rw [Fin.val_ofNat, UInt64.toNat_and, UInt64.toNat_shiftRight, hs, h511,
    Nat.and_two_pow_sub_one_eq_mod, Nat.shiftRight_eq_div_pow]
  exact Nat.mod_mod _ _

theorem InUser.at {va : UInt64} (h : InUser va) : At va (levelIndex va 21) (levelIndex va 12) := by
  obtain ⟨hlo, hhi⟩ := h
  rw [UInt64.le_iff_toNat_le] at hlo
  rw [UInt64.lt_iff_toNat_lt] at hhi
  have h1 : (0x08000000 : UInt64).toNat = 0x08000000 := rfl
  have h2 : (0x40000000 : UInt64).toNat = 0x40000000 := rfl
  refine ⟨Fin.ext ?_, Fin.ext ?_, rfl, rfl, ?_⟩
  · rw [levelIndex_val (n := 39) rfl, Fin.val_zero]
    omega
  · rw [levelIndex_val (n := 30) rfl, Fin.val_zero]
    omega
  · rw [Fin.le_def, levelIndex_val (n := 21) rfl]
    change 64 ≤ _
    omega

theorem InUser.canonical {va : UInt64} (h : InUser va) : Canonical va :=
  Or.inl (UInt64.lt_trans h.2 (by decide))

/-- Outside the user area one of the upper indices says so. -/
theorem inUser_of_index {va : UInt64} (hc : Canonical va) (h₄ : levelIndex va 39 = 0)
    (h₃ : levelIndex va 30 = 0) (h₂ : 64 ≤ levelIndex va 21) : InUser va := by
  have h₄' := congrArg Fin.val h₄
  have h₃' := congrArg Fin.val h₃
  rw [levelIndex_val (n := 39) rfl, Fin.val_zero] at h₄'
  rw [levelIndex_val (n := 30) rfl, Fin.val_zero] at h₃'
  rw [Fin.le_def, levelIndex_val (n := 21) rfl] at h₂
  change 64 ≤ _ at h₂
  have hva := va.toNat_lt
  have h1 : (0x08000000 : UInt64).toNat = 0x08000000 := rfl
  have h2 : (0x40000000 : UInt64).toNat = 0x40000000 := rfl
  have h3 : (0x800000000000 : UInt64).toNat = 0x800000000000 := rfl
  have h4 : (0xFFFF800000000000 : UInt64).toNat = 0xFFFF800000000000 := rfl
  unfold Canonical at hc
  unfold InUser
  rw [ge_iff_le, UInt64.lt_iff_toNat_lt, UInt64.le_iff_toNat_le, h3, h4] at hc
  rw [UInt64.le_iff_toNat_le, UInt64.lt_iff_toNat_lt, h1, h2]
  omega

/-- The two indices of a user address give its page number. -/
theorem InUser.pageNumber_eq {va va' : UInt64} (h : InUser va) (h' : InUser va')
    (h₂ : levelIndex va 21 = levelIndex va' 21) (h₁ : levelIndex va 12 = levelIndex va' 12) :
    pageNumber va = pageNumber va' := by
  have h₂' := congrArg Fin.val h₂
  have h₁' := congrArg Fin.val h₁
  rw [levelIndex_val (n := 21) rfl, levelIndex_val (n := 21) rfl] at h₂'
  rw [levelIndex_val (n := 12) rfl, levelIndex_val (n := 12) rfl] at h₁'
  have hhi := UInt64.lt_iff_toNat_lt.mp h.2
  have hhi' := UInt64.lt_iff_toNat_lt.mp h'.2
  have h1 : (0x40000000 : UInt64).toNat = 0x40000000 := rfl
  have h12 : (12 : UInt64).toNat % 64 = 12 := rfl
  unfold pageNumber
  rw [← UInt64.toNat_inj, UInt64.toNat_shiftRight, UInt64.toNat_shiftRight, h12,
    Nat.shiftRight_eq_div_pow, Nat.shiftRight_eq_div_pow]
  omega

/-- The page number gives the two indices. -/
theorem levelIndex_of_pageNumber {va va' : UInt64} (h : pageNumber va = pageNumber va') :
    levelIndex va 21 = levelIndex va' 21 ∧ levelIndex va 12 = levelIndex va' 12 := by
  have h12 : (12 : UInt64).toNat % 64 = 12 := rfl
  have h' := congrArg UInt64.toNat h
  unfold pageNumber at h'
  rw [UInt64.toNat_shiftRight, UInt64.toNat_shiftRight, h12, Nat.shiftRight_eq_div_pow,
    Nat.shiftRight_eq_div_pow] at h'
  constructor
  · refine Fin.ext ?_
    rw [levelIndex_val (n := 21) rfl, levelIndex_val (n := 21) rfl]
    omega
  · refine Fin.ext ?_
    rw [levelIndex_val (n := 12) rfl, levelIndex_val (n := 12) rfl, h']

theorem toNat_pageAddr (i j : Fin 512) :
    (pageAddr i j).toNat = i.val * 2 ^ 21 + j.val * 2 ^ 12 := by
  have hi := i.isLt
  have hj := j.isLt
  have h21 : (21 : UInt64).toNat % 64 = 21 := rfl
  have h12 : (12 : UInt64).toNat % 64 = 12 := rfl
  have hin : i.val.toUInt64.toNat = i.val := UInt64.toNat_ofNat_of_lt' (Nat.lt_trans hi (by decide))
  have hjn : j.val.toUInt64.toNat = j.val := UInt64.toNat_ofNat_of_lt' (Nat.lt_trans hj (by decide))
  have hi' : i.val <<< 21 % 2 ^ 64 = i.val <<< 21 := by
    rw [Nat.shiftLeft_eq]
    omega
  have hj' : j.val <<< 12 % 2 ^ 64 = j.val <<< 12 := by
    rw [Nat.shiftLeft_eq]
    omega
  have hlt : j.val <<< 12 < 2 ^ 21 := by
    rw [Nat.shiftLeft_eq]
    omega
  unfold pageAddr
  rw [UInt64.toNat_or, UInt64.toNat_shiftLeft, UInt64.toNat_shiftLeft, h21, h12, hin, hjn, hi', hj',
    ← Nat.shiftLeft_add_eq_or_of_lt hlt, Nat.shiftLeft_eq, Nat.shiftLeft_eq]

theorem at_pageAddr {i : Fin 512} (hi : 64 ≤ i) (j : Fin 512) : At (pageAddr i j) i j := by
  have hval := toNat_pageAddr i j
  have hi' := i.isLt
  have hj := j.isLt
  refine ⟨Fin.ext ?_, Fin.ext ?_, Fin.ext ?_, Fin.ext ?_, hi⟩
  · rw [levelIndex_val (n := 39) rfl, Fin.val_zero]
    omega
  · rw [levelIndex_val (n := 30) rfl, Fin.val_zero]
    omega
  · rw [levelIndex_val (n := 21) rfl]
    omega
  · rw [levelIndex_val (n := 12) rfl]
    omega

/-! ## Tables on demand -/

/-- Tables are added, and nothing else changes for the pages, the hands and the kernel. -/
structure Grows (m m' : PagingState) (G G' : Ghost) : Prop where
  keep : ∀ w r, G w = some r → G' w = some r
  root : ∀ s, G' (node s .pml4) = G (node s .pml4)
  same : ∀ w, w.isTable = false → G' w = G w
  data : ∀ w r, G w = some r → w.isTable = false → m'.mem r.frame = m.mem r.frame

theorem Grows.refl (m : PagingState) (G : Ghost) : Grows m m G G :=
  ⟨fun _ _ h => h, fun _ => rfl, fun _ _ => rfl, fun _ _ _ _ => rfl⟩

theorem Grows.trans {m₁ m₂ m₃ : PagingState} {G₁ G₂ G₃ : Ghost} (h : Grows m₁ m₂ G₁ G₂)
    (h' : Grows m₂ m₃ G₂ G₃) : Grows m₁ m₃ G₁ G₃ where
  keep w r hw := h'.keep w r (h.keep w r hw)
  root s := (h'.root s).trans (h.root s)
  same w hw := (h'.same w hw).trans (h.same w hw)
  data w r hw ht := (h'.data w r (h.keep w r hw) ht).trans (h.data w r hw ht)

theorem pagingNextLevel_outOfFrames {m : PagingState} (h : m.outOfFrames = true)
    (table : UInt64) (index : Fin 512) (flags : UInt64) :
    (pagingNextLevel m table index flags).2.outOfFrames = true := by
  have halloc := frameAlloc_outOfFrames m h
  unfold pagingNextLevel
  split
  · simp only
    split
    · exact halloc
    · exact halloc
  · exact h

theorem pagingMap4k_outOfFrames {m : PagingState} (h : m.outOfFrames = true)
    (pml4 virt phys flags : UInt64) : (pagingMap4k m pml4 virt phys flags).outOfFrames = true := by
  have hlevel := fun m h t k => pagingNextLevel_outOfFrames (m := m) h t k flags
  unfold pagingMap4k
  simp only
  split
  · exact hlevel m h _ _
  · split
    · exact hlevel _ (hlevel m h _ _) _ _
    · split
      · exact hlevel _ (hlevel _ (hlevel m h _ _) _ _) _ _
      · exact hlevel _ (hlevel _ (hlevel m h _ _) _ _) _ _

section NextLevel

variable {b m : PagingState} {G : Ghost} {s : SpaceId} {c n : Node} {k : Fin 512} {r : Ref}
  {flags : UInt64}

/-- The entry is there : nothing changes. -/
theorem pagingNextLevel_present (h : Inv b m G) (hp : c.parent = some (n, k))
    (hpage : c.isPage = false) (hn : G (node s n) = some r) {x : Ref}
    (hc : G (node s c) = some x) (hflags : flags &&& pageUser = pageUser) :
    pagingNextLevel m r.frame k flags = (x.frame, m) := by
  have hentry : m.mem r.frame k = x.entry := by
    rw [h.shape.entry s c n k r hp hn, hc]
    rfl
  have hcow := h.separate.writable_of_isTable hc (by simp [isTable, hpage])
  have hsame : m.writeEntry r.frame k x.entry = m := by
    unfold PagingState.writeEntry PagingState.writePage
    rw [← hentry, Function.update_eq_self, Function.update_eq_self]
  unfold pagingNextLevel
  rw [hentry, if_neg (Ref.entry_present (h.isFrame hc)), hflags, Ref.entry_or_user hcow, hsame]
  simp only [hentry, Ref.entry_and_nextLevelMask (h.isFrame hc)]

/-- The entry is empty : a zeroed frame becomes the table. -/
theorem Inv.nextLevel_absent (h : Inv b m G) (hp : c.parent = some (n, k))
    (hpage : c.isPage = false) (hn : G (node s n) = some r) (hc : G (node s c) = none)
    (hhand : G (hand 1) = none) (hflags : flags &&& pageUser = pageUser)
    (hok : (pagingNextLevel m r.frame k flags).2.outOfFrames = false) :
    ∃ G' x, Inv b (pagingNextLevel m r.frame k flags).2 G' ∧
      Grows m (pagingNextLevel m r.frame k flags).2 G G' ∧ G' (node s c) = some x ∧
      (pagingNextLevel m r.frame k flags).1 = x.frame := by
  have hentry : m.mem r.frame k &&& pagePresent = 0 := by
    rw [h.shape.entry s c n k r hp hn, hc]
    rfl
  have halloc : (frameAlloc m).2.outOfFrames = false := by
    unfold pagingNextLevel at hok
    rw [if_pos hentry] at hok
    simp only at hok
    split at hok
    · exact hok
    · exact hok
  obtain ⟨hinv, hnew, hmem⟩ := h.alloc hhand halloc
  set x : Ref := ⟨(frameAlloc m).1, .writable⟩ with hx
  set G₁ := Function.update G (hand 1) (some x) with hG₁
  have hh : G₁ (hand 1) = some x := Function.update_self _ _ _
  have hn₁ : G₁ (node s n) = some r := by
    rw [hG₁, Function.update_of_ne Holder.noConfusion, hn]
  have hc₁ : G₁ (node s c) = none := by
    rw [hG₁, Function.update_of_ne Holder.noConfusion, hc]
  have hzero : (frameAlloc m).2.mem x.frame = fun _ => 0 := by
    rw [hmem, hx, Function.update_self]
  have hentry' : (frameAlloc m).1 ||| pagePresent ||| pageWritable ||| (flags &&& pageUser)
      = x.entry := by
    rw [hflags, UInt64.or_assoc, UInt64.or_assoc]
    rfl
  have heq : pagingNextLevel m r.frame k flags
      = (x.frame, (frameAlloc m).2.writeEntry r.frame k x.entry) := by
    unfold pagingNextLevel
    rw [if_pos hentry]
    simp only
    rw [if_neg (hinv.ne_zero hh), hentry']
    simp only [PagingState.writeEntry, PagingState.writePage, Function.update_self,
      Ref.entry_and_nextLevelMask (hinv.isFrame hh)]
  rw [heq]
  refine ⟨G₁ ∘ Equiv.swap (hand 1) (node s c), x,
    hinv.linkHand hp hn₁ hh rfl (Or.inr ⟨hc₁, hzero⟩), ⟨?_, ?_, ?_, ?_⟩, ?_, rfl⟩
  · intro w r' hw
    have hw1 : w ≠ hand 1 := by
      rintro rfl
      simp [hhand] at hw
    have hwc : w ≠ node s c := by
      rintro rfl
      simp [hc] at hw
    rw [Function.comp_apply, Equiv.swap_apply_of_ne_of_ne hw1 hwc, hG₁,
      Function.update_of_ne hw1, hw]
  · intro s'
    have hwc : node s' .pml4 ≠ node s c := by
      intro he
      rw [Holder.node.injEq] at he
      exact Node.ne_pml4_of_parent hp he.2.symm
    rw [Function.comp_apply, Equiv.swap_apply_of_ne_of_ne Holder.noConfusion hwc, hG₁,
      Function.update_of_ne Holder.noConfusion]
  · intro w hw
    by_cases hw1 : w = hand 1
    · rw [hw1, Function.comp_apply, Equiv.swap_apply_left, hc₁, hhand]
    · have hwc : w ≠ node s c := by
        rintro rfl
        simp [isTable, hpage] at hw
      rw [Function.comp_apply, Equiv.swap_apply_of_ne_of_ne hw1 hwc, hG₁,
        Function.update_of_ne hw1]
  · intro w r' hw ht
    have hne : r'.frame ≠ r.frame := by
      intro he
      rw [h.table_unique hn (Node.isPage_of_parent hp) hw he] at ht
      simp [isTable, Node.isPage_of_parent hp] at ht
    change Function.update (frameAlloc m).2.mem r.frame _ r'.frame = m.mem r'.frame
    rw [Function.update_of_ne hne, hmem, Function.update_of_ne (hnew w r' hw)]
  · rw [Function.comp_apply, Equiv.swap_apply_right, hh]

/-- `paging_next_level` leads to the node below, which is made if it is not there. -/
theorem Inv.nextLevel (h : Inv b m G) (hp : c.parent = some (n, k))
    (hpage : c.isPage = false) (hn : G (node s n) = some r) (hhand : G (hand 1) = none)
    (hflags : flags &&& pageUser = pageUser)
    (hok : (pagingNextLevel m r.frame k flags).2.outOfFrames = false) :
    ∃ G' x, Inv b (pagingNextLevel m r.frame k flags).2 G' ∧
      Grows m (pagingNextLevel m r.frame k flags).2 G G' ∧ G' (node s c) = some x ∧
      (pagingNextLevel m r.frame k flags).1 = x.frame := by
  cases hc : G (node s c) with
  | none => exact h.nextLevel_absent hp hpage hn hc hhand hflags hok
  | some x =>
    rw [pagingNextLevel_present h hp hpage hn hc hflags]
    exact ⟨G, x, h, Grows.refl m G, hc, rfl⟩

/-- `paging_map_4k` finds or makes the tables for `virt` and then writes one entry. -/
theorem Inv.map4k (h : Inv b m G) {virt phys : UInt64} {i j : Fin 512}
    (hat : At virt i j) (hroot : G (node s .pml4) = some r) (hhand : G (hand 1) = none)
    (hflags : flags &&& pageUser = pageUser)
    (hok : (pagingMap4k m r.frame virt phys flags).outOfFrames = false) :
    ∃ m' G' x, Inv b m' G' ∧ Grows m m' G G' ∧ G' (node s (.pt i)) = some x ∧
      pagingMap4k m r.frame virt phys flags
        = m'.writeEntry x.frame j ((phys &&& pageAddrMask) ||| flags) := by
  have hpt : Node.parent (.pt i) = some (.pd, i) := if_pos hat.user
  unfold pagingMap4k at hok ⊢
  rw [hat.pml4, hat.pdpt, hat.pd, hat.pt] at *
  simp only at hok ⊢
  -- what runs out early is still out at the end
  have hok₁ : (pagingNextLevel m r.frame 0 flags).2.outOfFrames = false := by
    by_contra hout
    rw [Bool.not_eq_false] at hout
    have hout₂ := pagingNextLevel_outOfFrames hout
    have hout₃ := fun t k => pagingNextLevel_outOfFrames (hout₂ t k flags)
    split_ifs at hok <;> simp_all [PagingState.writeEntry, PagingState.writePage]
  obtain ⟨G₁, x₁, h₁, hg₁, hc₁, he₁⟩ :=
    h.nextLevel (c := .pdpt) rfl rfl hroot hhand hflags hok₁
  have hhand₁ : G₁ (hand 1) = none := (hg₁.same _ rfl).trans hhand
  rw [he₁, if_neg (h₁.ne_zero hc₁)] at hok ⊢
  generalize (pagingNextLevel m r.frame 0 flags).2 = m₁ at *
  have hok₂ : (pagingNextLevel m₁ x₁.frame 0 flags).2.outOfFrames = false := by
    by_contra hout
    rw [Bool.not_eq_false] at hout
    have hout₂ := fun t k => pagingNextLevel_outOfFrames hout t k flags
    split_ifs at hok <;> simp_all [PagingState.writeEntry, PagingState.writePage]
  obtain ⟨G₂, x₂, h₂, hg₂, hc₂, he₂⟩ :=
    h₁.nextLevel (c := .pd) rfl rfl hc₁ hhand₁ hflags hok₂
  have hhand₂ : G₂ (hand 1) = none := (hg₂.same _ rfl).trans hhand₁
  rw [he₂, if_neg (h₂.ne_zero hc₂)] at hok ⊢
  generalize (pagingNextLevel m₁ x₁.frame 0 flags).2 = m₂ at *
  have hok₃ : (pagingNextLevel m₂ x₂.frame i flags).2.outOfFrames = false := by
    by_contra hout
    rw [Bool.not_eq_false] at hout
    split_ifs at hok <;> simp_all [PagingState.writeEntry, PagingState.writePage]
  obtain ⟨G₃, x₃, h₃, hg₃, hc₃, he₃⟩ :=
    h₂.nextLevel (c := .pt i) hpt rfl hc₂ hhand₂ hflags hok₃
  rw [he₃, if_neg (h₃.ne_zero hc₃)]
  exact ⟨_, G₃, x₃, h₃, (hg₁.trans hg₂).trans hg₃, hc₃, rfl⟩

end NextLevel

/-! ## New address spaces -/

/-- The PDPT for the first 512 gigabytes, in the tables of the kernel. -/
def kernelPdpt (b : PagingState) : UInt64 :=
  b.mem b.kernelPml4 0 &&& pageAddrMask

/-- The PD for the first gigabyte, in the tables of the kernel. -/
def kernelPd (b : PagingState) : UInt64 :=
  b.mem (kernelPdpt b) 0 &&& pageAddrMask

/-- The upper tables of the kernel are frames of the pool, and no entry that the address
spaces copy is open to user code. -/
structure KernelTables (b : PagingState) : Prop where
  pml4_known : Known b b.kernelPml4
  pdpt_known : Known b (kernelPdpt b)
  pd_known : Known b (kernelPd b)
  pml4_closed : ∀ k, b.mem b.kernelPml4 k &&& pageUser = 0
  pdpt_closed : ∀ k, b.mem (kernelPdpt b) k &&& pageUser = 0
  pd_closed : ∀ k, b.mem (kernelPd b) k &&& pageUser = 0

section Create

variable {b m : PagingState} {G : Ghost}

theorem Inv.kernel_frame (h : Inv b m G) {f : UInt64} (hf : Known b f) :
    m.mem f = b.mem f ∧ ∃ k r, G (boot k) = some r ∧ r.frame = f := by
  obtain ⟨k, r, hk, rfl⟩ := (h.kernel_iff f).mpr hf
  exact ⟨h.kernel_mem k r hk, k, r, hk, rfl⟩

/-- The frame in a hand is not one of the kernel. -/
theorem Inv.hand_ne_kernel (h : Inv b m G) {f : UInt64} (hf : Known b f) {l : Fin 3} {x : Ref}
    (hl : G (hand l) = some x) : f ≠ x.frame := by
  obtain ⟨_, k, r, hk, rfl⟩ := h.kernel_frame hf
  intro he
  exact Holder.noConfusion (h.separate.exclusive hk (h.separate.writable_of_boot hk) hl he.symm)

/-- Three frames in the hands become the upper tables of the space under construction. -/
def adopt (G : Ghost) : Ghost :=
  ((G ∘ Equiv.swap (hand 0) (node none .pml4)) ∘ Equiv.swap (hand 1) (node none .pdpt)) ∘
    Equiv.swap (hand 2) (node none .pd)

theorem adopt_space (G : Ghost) (s : Fin 8) (n : Node) :
    adopt G (node (some s) n) = G (node (some s) n) := by
  simp [adopt, Equiv.swap_apply_def]

theorem adopt_kernel (G : Ghost) (k : Fin 1024) : adopt G (boot k) = G (boot k) := by
  simp [adopt, Equiv.swap_apply_def]

theorem adopt_new (G : Ghost) : adopt G (node none .pml4) = G (hand 0) ∧
    adopt G (node none .pdpt) = G (hand 1) ∧ adopt G (node none .pd) = G (hand 2) := by
  simp [adopt, Equiv.swap_apply_def]

theorem adopt_below (hscratch : ∀ n, G (node none n) = none) (i j : Fin 512) :
    adopt G (node none (.pt i)) = none ∧ adopt G (node none (.page i j)) = none := by
  simp [adopt, Equiv.swap_apply_def, hscratch]

theorem adopt_hand (hscratch : ∀ n, G (node none n) = none) (l : Fin 3) :
    adopt G (hand l) = none := by
  fin_cases l <;> simp [adopt, Equiv.swap_apply_def, hscratch]

theorem Inv.adopted (h : Inv b m G) (hscratch : ∀ n, G (node none n) = none) {x₀ x₁ x₂ : Ref}
    (h₀ : G (hand 0) = some x₀) (h₁ : G (hand 1) = some x₁) (h₂ : G (hand 2) = some x₂)
    (hc₀ : x₀.readOnly = false) (hc₁ : x₁.readOnly = false) (hc₂ : x₂.readOnly = false)
    (he₀ : m.mem x₀.frame 0 = x₁.entry) (he₁ : m.mem x₁.frame 0 = x₂.entry)
    (he₂ : ∀ i, 64 ≤ i → m.mem x₂.frame i = 0)
    (hu₀ : ∀ k, k ≠ 0 → m.mem x₀.frame k &&& pageUser = 0)
    (hu₁ : ∀ k, k ≠ 0 → m.mem x₁.frame k &&& pageUser = 0)
    (hu₂ : ∀ k, ¬ 64 ≤ k → m.mem x₂.frame k &&& pageUser = 0) : Inv b m (adopt G) := by
  obtain ⟨hn₀, hn₁, hn₂⟩ := adopt_new G
  have hpt := fun i => (adopt_below hscratch i i).1
  have hpage := fun i j => (adopt_below hscratch i j).2
  rw [h₀] at hn₀
  rw [h₁] at hn₁
  rw [h₂] at hn₂
  refine ⟨?_, ?_, ⟨?_, ?_, ?_, ?_⟩, fun k r hk => ?_, fun f => ?_⟩
  · obtain ⟨hpool, hbase, hkernel, hledger⟩ := h.accounts
    exact ⟨hpool, hbase, hkernel, ((hledger.comp _).comp _).comp _⟩
  · have hs₀ := h.separate.swap (w := node none .pml4) h₀ hc₀
    have hs₁ := hs₀.swap (k := 1) (x := x₁) (w := node none .pdpt)
      (by simp [Equiv.swap_apply_def, h₁]) hc₁
    exact hs₁.swap (k := 2) (x := x₂) (by simp [Equiv.swap_apply_def, h₂]) hc₂
  · intro s c n k r hp hn
    cases s with
    | some s =>
      rw [adopt_space] at hn ⊢
      exact h.shape.entry _ c n k r hp hn
    | none =>
      cases c with
      | pml4 => simp [Node.parent] at hp
      | pdpt =>
        simp only [Node.parent, Option.some.injEq, Prod.mk.injEq] at hp
        rw [← hp.1, hn₀, Option.some.injEq] at hn
        rw [hn₁, ← hn, ← hp.2, he₀]
        rfl
      | pd =>
        simp only [Node.parent, Option.some.injEq, Prod.mk.injEq] at hp
        rw [← hp.1, hn₁, Option.some.injEq] at hn
        rw [hn₂, ← hn, ← hp.2, he₁]
        rfl
      | pt i =>
        by_cases hi : 64 ≤ i
        · simp only [Node.parent, if_pos hi, Option.some.injEq, Prod.mk.injEq] at hp
          rw [← hp.1, hn₂, Option.some.injEq] at hn
          rw [hpt i, ← hn, ← hp.2, he₂ i hi]
          rfl
        · simp [Node.parent, if_neg hi] at hp
      | page i j =>
        simp only [Node.parent, Option.some.injEq, Prod.mk.injEq] at hp
        rw [← hp.1, hpt i] at hn
        simp at hn
  · intro s c r hc hne
    cases s with
    | some s =>
      simp only [adopt_space] at hc ⊢
      exact h.shape.rooted _ c r hc hne
    | none =>
      cases c with
      | pml4 => exact absurd rfl hne
      | pdpt => exact ⟨.pml4, 0, x₀, rfl, hn₀⟩
      | pd => exact ⟨.pdpt, 0, x₁, rfl, hn₁⟩
      | pt i => simp [hpt i] at hc
      | page i j => simp [hpage i j] at hc
  · intro s r hr
    cases s with
    | some s =>
      simp only [adopt_space] at hr ⊢
      exact h.shape.full _ r hr
    | none => exact ⟨x₂, hn₂⟩
  · intro s n k r hn hpg hc
    cases s with
    | some s =>
      rw [adopt_space] at hn
      exact h.shape.closed _ n k r hn hpg hc
    | none =>
      cases n with
      | pml4 =>
        rw [hn₀, Option.some.injEq] at hn
        refine hn ▸ hu₀ k fun hk => hc .pdpt ?_
        rw [hk]
        rfl
      | pdpt =>
        rw [hn₁, Option.some.injEq] at hn
        refine hn ▸ hu₁ k fun hk => hc .pd ?_
        rw [hk]
        rfl
      | pd =>
        rw [hn₂, Option.some.injEq] at hn
        exact hn ▸ hu₂ k fun hk => hc (.pt k) (if_pos hk)
      | pt i => simp [hpt i] at hn
      | page i j => simp [hpage i j] at hn
  · rw [adopt_kernel] at hk
    exact h.kernel_mem k r hk
  · simp only [adopt_kernel]
    exact h.kernel_iff f

/-- A frame is allocated and filled. -/
theorem Inv.allocFill (h : Inv b m G) {l : Fin 3} (hl : G (hand l) = none)
    (hok : (frameAlloc m).2.outOfFrames = false) (p : Page) :
    Inv b ((frameAlloc m).2.writePage (frameAlloc m).1 p)
        (Function.update G (hand l) (some ⟨(frameAlloc m).1, .writable⟩)) ∧
      (∀ w r, G w = some r → r.frame ≠ (frameAlloc m).1) ∧
      ((frameAlloc m).2.writePage (frameAlloc m).1 p).mem
        = Function.update m.mem (frameAlloc m).1 p := by
  obtain ⟨hinv, hnew, hmem⟩ := h.alloc hl hok
  refine ⟨hinv.writeHand (x := ⟨(frameAlloc m).1, .writable⟩) (Function.update_self _ _ _) rfl p,
    hnew, ?_⟩
  unfold PagingState.writePage
  rw [hmem, Function.update_idem]

/-- What `paging_create_address_space` does : there is a new tree without pages, and the
frames that others hold keep their contents. -/
structure NewSpace (m m' : PagingState) (G G' : Ghost) (x : Ref) : Prop where
  root : G' (node none .pml4) = some x
  empty : ∀ i j, G' (node none (.page i j)) = none
  hands : ∀ l, G' (hand l) = none
  same : ∀ s n, G' (node (some s) n) = G (node (some s) n)
  data : ∀ w r, G w = some r → (∀ l, w ≠ hand l) → m'.mem r.frame = m.mem r.frame

theorem createPd_outOfFrames {m : PagingState} (h : (frameAlloc m).2.outOfFrames = true)
    (newPml4 newPdpt srcPdpt : UInt64) :
    (createPd m newPml4 newPdpt srcPdpt).2.outOfFrames = true := by
  unfold createPd
  simp only
  split
  · simpa using h
  · exact h

theorem createPdpt_outOfFrames {m : PagingState} (h : (frameAlloc m).2.outOfFrames = true)
    (newPml4 srcPml4 : UInt64) : (createPdpt m newPml4 srcPml4).2.outOfFrames = true := by
  unfold createPdpt
  simp only
  split
  · simpa using h
  · refine createPd_outOfFrames (frameAlloc_outOfFrames _ ?_) _ _ _
    exact h

/-- The PML4 and the PDPT are in the hands : the PD makes the tree complete. -/
theorem Inv.newPd (h : Inv b m G) (hb : KernelTables b)
    (hscratch : ∀ n, G (node none n) = none) {f₀ f₁ : UInt64}
    (h₀ : G (hand 0) = some ⟨f₀, .writable⟩) (h₁ : G (hand 1) = some ⟨f₁, .writable⟩)
    (h₂ : G (hand 2) = none)
    (hm₀ : m.mem f₀ = Function.update (b.mem b.kernelPml4) 0 (f₁ ||| userFlags))
    (hm₁ : m.mem f₁ = b.mem (kernelPdpt b))
    (hok : (createPd m f₀ f₁ (kernelPdpt b)).2.outOfFrames = false) :
    ∃ G', Inv b (createPd m f₀ f₁ (kernelPdpt b)).2 G' ∧
      (createPd m f₀ f₁ (kernelPdpt b)).1 = f₀ ∧
      NewSpace m (createPd m f₀ f₁ (kernelPdpt b)).2 G G' ⟨f₀, .writable⟩ := by
  have hok' : (frameAlloc m).2.outOfFrames = false := by
    by_contra hout
    rw [Bool.not_eq_false] at hout
    rw [createPd_outOfFrames hout] at hok
    exact Bool.noConfusion hok
  have hsrc : m.mem (kernelPdpt b) 0 &&& pageAddrMask = kernelPd b := by
    rw [(h.kernel_frame hb.pdpt_known).1]
    rfl
  obtain ⟨h', hnew, hmem⟩ := h.allocFill h₂ hok'
    fun i => if i < 64 then b.mem (kernelPd b) i else 0
  set f₂ := (frameAlloc m).1 with hf₂
  set G' := Function.update G (hand 2) (some ⟨f₂, .writable⟩) with hG'
  have hz₀ : G' (hand 0) = some ⟨f₀, .writable⟩ := by
    rw [hG', Function.update_of_ne (by simp), h₀]
  have hz₁ : G' (hand 1) = some ⟨f₁, .writable⟩ := by
    rw [hG', Function.update_of_ne (by simp), h₁]
  have hz₂ : G' (hand 2) = some ⟨f₂, .writable⟩ := Function.update_self _ _ _
  have hscratch' : ∀ n, G' (node none n) = none := by
    intro n
    rw [hG', Function.update_of_ne Holder.noConfusion, hscratch n]
  have heq : createPd m f₀ f₁ (kernelPdpt b) = (f₀, ((frameAlloc m).2.writePage f₂
      fun i => if i < 64 then b.mem (kernelPd b) i else 0).writeEntry f₁ 0 (f₂ ||| userFlags)) := by
    unfold createPd
    simp only
    rw [if_neg (h'.ne_zero hz₂), hsrc, ((h.alloc h₂ hok').1.kernel_frame hb.pd_known).1]
  have hmem' : (((frameAlloc m).2.writePage f₂
      fun i => if i < 64 then b.mem (kernelPd b) i else 0).writeEntry f₁ 0 (f₂ ||| userFlags)).mem
      = Function.update (Function.update m.mem f₂ fun i =>
          if i < 64 then b.mem (kernelPd b) i else 0) f₁
        (Function.update (b.mem (kernelPdpt b)) 0 (f₂ ||| userFlags)) := by
    unfold PagingState.writeEntry
    rw [hmem, Function.update_of_ne (hnew _ _ h₁), hm₁, ← hmem]
    rfl
  have h₅ : Inv b _ G' := h'.writeHand hz₁ rfl (Function.update (((frameAlloc m).2.writePage f₂
      fun i => if i < 64 then b.mem (kernelPd b) i else 0).mem f₁) 0 (f₂ ||| userFlags))
  change Inv b (((frameAlloc m).2.writePage f₂ fun i => if i < 64 then b.mem (kernelPd b) i
    else 0).writeEntry f₁ 0 (f₂ ||| userFlags)) G' at h₅
  rw [heq]
  generalize ((frameAlloc m).2.writePage f₂ fun i => if i < 64 then b.mem (kernelPd b) i
    else 0).writeEntry f₁ 0 (f₂ ||| userFlags) = m' at *
  have h01 : f₀ ≠ f₁ := by
    intro he
    have hhand := h.separate.exclusive h₀ rfl h₁ he.symm
    simp at hhand
  have hpml4 : m'.mem f₀ = Function.update (b.mem b.kernelPml4) 0 (f₁ ||| userFlags) := by
    rw [hmem', Function.update_of_ne h01, Function.update_of_ne (hnew _ _ h₀), hm₀]
  have hpdpt : m'.mem f₁ = Function.update (b.mem (kernelPdpt b)) 0 (f₂ ||| userFlags) := by
    rw [hmem', Function.update_self]
  have hpd : m'.mem f₂ = fun i => if i < 64 then b.mem (kernelPd b) i else 0 := by
    rw [hmem', Function.update_of_ne (hnew _ _ h₁).symm, Function.update_self]
  refine ⟨adopt G', h₅.adopted hscratch' hz₀ hz₁ hz₂ rfl rfl rfl ?_ ?_ ?_ ?_ ?_ ?_, rfl,
    ⟨(adopt_new G').1.trans hz₀, fun i j => (adopt_below hscratch' i j).2,
      adopt_hand hscratch', fun s n => ?_, fun w r hw hhand => ?_⟩⟩
  · rw [hpml4, Function.update_self]
    rfl
  · rw [hpdpt, Function.update_self]
    rfl
  · intro i hi
    rw [hpd]
    exact if_neg (not_lt.mpr hi)
  · intro k hk
    rw [hpml4, Function.update_of_ne hk, hb.pml4_closed k]
  · intro k hk
    rw [hpdpt, Function.update_of_ne hk, hb.pdpt_closed k]
  · intro k hk
    rw [hpd]
    simp only [if_pos (not_le.mp hk), hb.pd_closed k]
  · rw [adopt_space, hG', Function.update_of_ne Holder.noConfusion]
  · have hne : r.frame ≠ f₁ := fun he => hhand 1 (h.separate.exclusive h₁ rfl hw he)
    simp only [hmem', Function.update_of_ne hne, Function.update_of_ne (hnew w r hw)]

/-- The PML4 is in the hand. -/
theorem Inv.newPdpt (h : Inv b m G) (hb : KernelTables b)
    (hscratch : ∀ n, G (node none n) = none) {f₀ : UInt64}
    (h₀ : G (hand 0) = some ⟨f₀, .writable⟩) (h₁ : G (hand 1) = none) (h₂ : G (hand 2) = none)
    (hm₀ : m.mem f₀ = b.mem b.kernelPml4)
    (hok : (createPdpt m f₀ b.kernelPml4).2.outOfFrames = false) :
    ∃ G', Inv b (createPdpt m f₀ b.kernelPml4).2 G' ∧
      (createPdpt m f₀ b.kernelPml4).1 = f₀ ∧
      NewSpace m (createPdpt m f₀ b.kernelPml4).2 G G' ⟨f₀, .writable⟩ := by
  have hok' : (frameAlloc m).2.outOfFrames = false := by
    by_contra hout
    rw [Bool.not_eq_false] at hout
    rw [createPdpt_outOfFrames hout] at hok
    exact Bool.noConfusion hok
  have hsrc : m.mem b.kernelPml4 0 &&& pageAddrMask = kernelPdpt b := by
    rw [(h.kernel_frame hb.pml4_known).1]
    rfl
  obtain ⟨h', hnew, hmem⟩ := h.allocFill h₁ hok' (b.mem (kernelPdpt b))
  set f₁ := (frameAlloc m).1 with hf₁
  set G' := Function.update G (hand 1) (some ⟨f₁, .writable⟩) with hG'
  have hz₀ : G' (hand 0) = some ⟨f₀, .writable⟩ := by
    rw [hG', Function.update_of_ne (by simp), h₀]
  have hz₁ : G' (hand 1) = some ⟨f₁, .writable⟩ := Function.update_self _ _ _
  have hz₂ : G' (hand 2) = none := by
    rw [hG', Function.update_of_ne (by simp), h₂]
  have hscratch' : ∀ n, G' (node none n) = none := by
    intro n
    rw [hG', Function.update_of_ne Holder.noConfusion, hscratch n]
  have heq : createPdpt m f₀ b.kernelPml4 = createPd (((frameAlloc m).2.writePage f₁
      (b.mem (kernelPdpt b))).writeEntry f₀ 0 (f₁ ||| userFlags)) f₀ f₁ (kernelPdpt b) := by
    unfold createPdpt
    simp only
    rw [if_neg (h'.ne_zero hz₁), hsrc, ((h.alloc h₁ hok').1.kernel_frame hb.pdpt_known).1]
  have hmem' : (((frameAlloc m).2.writePage f₁ (b.mem (kernelPdpt b))).writeEntry f₀ 0
      (f₁ ||| userFlags)).mem = Function.update (Function.update m.mem f₁ (b.mem (kernelPdpt b))) f₀
        (Function.update (b.mem b.kernelPml4) 0 (f₁ ||| userFlags)) := by
    unfold PagingState.writeEntry
    rw [hmem, Function.update_of_ne (hnew _ _ h₀), hm₀, ← hmem]
    rfl
  have h₅ : Inv b _ G' := h'.writeHand hz₀ rfl (Function.update (((frameAlloc m).2.writePage f₁
      (b.mem (kernelPdpt b))).mem f₀) 0 (f₁ ||| userFlags))
  change Inv b (((frameAlloc m).2.writePage f₁ (b.mem (kernelPdpt b))).writeEntry f₀ 0
    (f₁ ||| userFlags)) G' at h₅
  rw [heq] at hok ⊢
  generalize ((frameAlloc m).2.writePage f₁ (b.mem (kernelPdpt b))).writeEntry f₀ 0
    (f₁ ||| userFlags) = m' at *
  obtain ⟨G'', hinv, hroot, hspace⟩ := h₅.newPd hb hscratch' hz₀ hz₁ hz₂
    (by rw [hmem', Function.update_self])
    (by rw [hmem', Function.update_of_ne (hnew _ _ h₀).symm, Function.update_self]) hok
  refine ⟨G'', hinv, hroot, hspace.root, hspace.empty, hspace.hands, fun s n => ?_,
    fun w r hw hhand => ?_⟩
  · rw [hspace.same, hG', Function.update_of_ne Holder.noConfusion]
  · have hw' : G' w = some r := by
      rw [hG', Function.update_of_ne (hhand 1), hw]
    have hne : r.frame ≠ f₀ := fun he => hhand 0 (h.separate.exclusive h₀ rfl hw he)
    rw [hspace.data w r hw' hhand, hmem', Function.update_of_ne hne,
      Function.update_of_ne (hnew w r hw)]

/-- `paging_create_address_space` of the kernel's tables. -/
theorem Inv.newSpace (h : Inv b m G) (hb : KernelTables b)
    (hscratch : ∀ n, G (node none n) = none) (hhands : ∀ l, G (hand l) = none)
    (hok : (pagingCreateAddressSpace m b.kernelPml4).2.outOfFrames = false) :
    ∃ G' x, Inv b (pagingCreateAddressSpace m b.kernelPml4).2 G' ∧
      (pagingCreateAddressSpace m b.kernelPml4).1 = x.frame ∧
      NewSpace m (pagingCreateAddressSpace m b.kernelPml4).2 G G' x := by
  have hok' : (frameAlloc m).2.outOfFrames = false := by
    by_contra hout
    rw [Bool.not_eq_false] at hout
    have hout' : (pagingCreateAddressSpace m b.kernelPml4).2.outOfFrames = true := by
      unfold pagingCreateAddressSpace
      simp only
      split
      · exact hout
      · refine createPdpt_outOfFrames (frameAlloc_outOfFrames _ ?_) _ _
        exact hout
    rw [hout'] at hok
    exact Bool.noConfusion hok
  obtain ⟨h', hnew, hmem⟩ := h.allocFill (hhands 0) hok' (b.mem b.kernelPml4)
  set f₀ := (frameAlloc m).1 with hf₀
  set G' := Function.update G (hand 0) (some ⟨f₀, .writable⟩) with hG'
  have hz₀ : G' (hand 0) = some ⟨f₀, .writable⟩ := Function.update_self _ _ _
  have hz₁ : G' (hand 1) = none := by
    rw [hG', Function.update_of_ne (by simp), hhands 1]
  have hz₂ : G' (hand 2) = none := by
    rw [hG', Function.update_of_ne (by simp), hhands 2]
  have hscratch' : ∀ n, G' (node none n) = none := by
    intro n
    rw [hG', Function.update_of_ne Holder.noConfusion, hscratch n]
  have heq : pagingCreateAddressSpace m b.kernelPml4
      = createPdpt ((frameAlloc m).2.writePage f₀ (b.mem b.kernelPml4)) f₀ b.kernelPml4 := by
    unfold pagingCreateAddressSpace
    simp only
    rw [if_neg (h'.ne_zero hz₀), ((h.alloc (hhands 0) hok').1.kernel_frame hb.pml4_known).1]
  rw [heq] at hok ⊢
  obtain ⟨G'', hinv, hroot, hspace⟩ := h'.newPdpt hb hscratch' hz₀ hz₁ hz₂
    (by rw [hmem, Function.update_self]) hok
  refine ⟨G'', ⟨f₀, .writable⟩, hinv, hroot, hspace.root, hspace.empty, hspace.hands, fun s n => ?_,
    fun w r hw hhand => ?_⟩
  · rw [hspace.same, hG', Function.update_of_ne Holder.noConfusion]
  · have hw' : G' w = some r := by
      rw [hG', Function.update_of_ne (hhand 0), hw]
    rw [hspace.data w r hw' hhand, hmem, Function.update_of_ne (hnew w r hw)]

end Create

/-! ## The processor's walk -/

section Walk

variable {b m : PagingState} {G : Ghost} {s : SpaceId} {r : Ref} {va : UInt64} {i j : Fin 512}

/-- A space has its three upper tables. -/
theorem Inv.upper (h : Inv b m G) (hroot : G (node s .pml4) = some r) :
    ∃ x₃ x₂, G (node s .pdpt) = some x₃ ∧ G (node s .pd) = some x₂ := by
  obtain ⟨x₂, hx₂⟩ := h.shape.full s r hroot
  obtain ⟨n, k, x₃, hp, hx₃⟩ := h.shape.rooted s .pd x₂ hx₂ (by simp)
  simp only [Node.parent, Option.some.injEq, Prod.mk.injEq] at hp
  exact ⟨x₃, x₂, hp.1 ▸ hx₃, hx₂⟩

/-- The entries of the tables that lead to a node. -/
theorem Inv.entry_eq (h : Inv b m G) {c n : Node} {k : Fin 512} {x : Ref}
    (hp : c.parent = some (n, k)) (hn : G (node s n) = some r) (hc : G (node s c) = some x) :
    m.mem r.frame k = x.entry := by
  rw [h.shape.entry s c n k r hp hn, hc]
  rfl

theorem Inv.permits_table (h : Inv b m G) {c : Node} {x : Ref} (hpage : c.isPage = false)
    (hc : G (node s c) = some x) (write : Bool) : Permits write x.entry :=
  (Ref.permits_iff (h.isFrame hc) write).mpr fun _ =>
    h.separate.writable_of_isTable hc (by simp [isTable, hpage])

/-- The walk in the user area finds the page, and lets a store through if the page is not
copy-on-write. -/
theorem Inv.mmuTranslate_user (h : Inv b m G) (hroot : G (node s .pml4) = some r)
    (hva : InUser va) (hat : At va i j) (write : Bool) :
    mmuTranslate m r.frame va write =
      (G (node s (.page i j))).bind fun x => if write && x.readOnly then none else some x.frame := by
  obtain ⟨x₃, x₂, hx₃, hx₂⟩ := h.upper hroot
  have he₄ := h.entry_eq rfl hroot hx₃
  have he₃ := h.entry_eq rfl hx₃ hx₂
  have hpt : Node.parent (.pt i) = some (.pd, i) := if_pos hat.user
  unfold mmuTranslate
  simp only [hat.pml4, hat.pdpt, hat.pd, hat.pt, he₄, he₃,
    Ref.entry_and_mask (h.isFrame hx₃), Ref.entry_and_mask (h.isFrame hx₂)]
  cases hx₁ : G (node s (.pt i)) with
  | none =>
    have he₂ : m.mem x₂.frame i = 0 := by
      rw [h.shape.entry s (.pt i) .pd i x₂ hpt hx₂, hx₁]
      rfl
    have hpage := h.shape.orphan (c := .page i j) rfl hx₁
    rw [he₂, hpage, if_neg]
    · rfl
    · exact fun hall => not_permits_zero write hall.2.2.2.2
  | some x₁ =>
    rw [h.entry_eq hpt hx₂ hx₁, Ref.entry_and_mask (h.isFrame hx₁)]
    cases hx : G (node s (.page i j)) with
    | none =>
      have he₁ : m.mem x₁.frame j = 0 := by
        rw [h.shape.entry s (.page i j) (.pt i) j x₁ rfl hx₁, hx]
        rfl
      rw [he₁, if_neg (not_not.mpr (Ref.entry_ps (h.isFrame hx₁))), if_neg (not_permits_zero write)]
      split <;> rfl
    | some x =>
      rw [h.entry_eq (c := .page i j) rfl hx₁ hx, Ref.entry_and_mask (h.isFrame hx)]
      have hperm := Ref.permits_iff (h.isFrame hx) write
      rw [if_pos ⟨hva.canonical, h.permits_table rfl hx₃ write, h.permits_table rfl hx₂ write,
        Ref.entry_ps (h.isFrame hx₂), h.permits_table rfl hx₁ write⟩,
        if_neg (not_not.mpr (Ref.entry_ps (h.isFrame hx₁)))]
      by_cases hw : write = true → x.readOnly = false
      · rw [if_pos (hperm.mpr hw)]
        cases write <;> simp_all
      · rw [if_neg fun hp => hw (hperm.mp hp)]
        cases write <;> simp_all

/-- Outside the user area the walk finds nothing open to user code. -/
theorem Inv.mmuTranslate_outside (h : Inv b m G) (hroot : G (node s .pml4) = some r)
    (hva : ¬ InUser va) (write : Bool) : mmuTranslate m r.frame va write = none := by
  obtain ⟨x₃, x₂, hx₃, hx₂⟩ := h.upper hroot
  refine if_neg fun hall => ?_
  obtain ⟨hcanon, hp₄, hp₃, _, hp₂⟩ := hall
  by_cases h₄ : levelIndex va 39 = 0
  · rw [h₄, h.entry_eq (c := .pdpt) rfl hroot hx₃, Ref.entry_and_mask (h.isFrame hx₃)] at hp₃ hp₂
    by_cases h₃ : levelIndex va 30 = 0
    · rw [h₃, h.entry_eq (c := .pd) rfl hx₃ hx₂, Ref.entry_and_mask (h.isFrame hx₂)] at hp₂
      by_cases h₂ : 64 ≤ levelIndex va 21
      · exact hva (inUser_of_index hcanon h₄ h₃ h₂)
      · refine not_permits_of_user (h.shape.closed s .pd _ x₂ hx₂ rfl fun c hc => h₂ ?_) write hp₂
        cases c <;> simp only [Node.parent] at hc <;> grind
    · refine not_permits_of_user (h.shape.closed s .pdpt _ x₃ hx₃ rfl fun c hc => h₃ ?_) write hp₃
      cases c <;> simp only [Node.parent] at hc <;> grind
  · refine not_permits_of_user (h.shape.closed s .pml4 _ r hroot rfl fun c hc => h₄ ?_) write hp₄
    cases c <;> simp only [Node.parent] at hc <;> grind

end Walk

end VernisOS
