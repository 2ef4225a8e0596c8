import VernisOS.Lib.Run
import VernisOS.PagingCow

/-!
# Processes with private memories

The reference for the memory of the user tasks : every slot has pages of its own, and
`fork` copies all of them at once (`deepStep`). The machine keeps to it as long as no step
runs out of frames, loads an image or a heap over pages that are there, or kills a task at
a fault (`StepOk`). `Ok b m R` says that the page tables of `m` make up the memories `R`;
every step keeps it (`Ok.step`).
-/

namespace VernisOS

/-! ## The reference -/

/-- The user memory of a task : what stands in the page `j` of the table `i`. -/
abbrev Pages := Fin 512 → Fin 512 → Option Page

namespace Pages

/-- A memory without pages. -/
def empty : Pages :=
  fun _ _ => none

/-- The page of an address. -/
def pageAt (P : Pages) (va : UInt64) : Option Page :=
  P (levelIndex va 21) (levelIndex va 12)

/-- The page of an address becomes `p`. -/
def set (P : Pages) (va : UInt64) (p : Page) : Pages :=
  fun i j => if (i, j) = (levelIndex va 21, levelIndex va 12) then some p else P i j

/-- Pages are loaded, each over zeros. -/
def load (P : Pages) (pages : List (UInt64 × (Page → Page))) : Pages :=
  pages.foldl (fun P q => P.set q.1 (q.2 fun _ => 0)) P

/-- A byte is written. -/
def store (P : Pages) (va : UInt64) (b : UInt8) : Pages :=
  match P.pageAt va with
  | none => P
  | some p => P.set va (p.setByte (pageOffset va) b)

/-- The byte that is read at an address. -/
def read (P : Pages) (va : UInt64) : Option UInt8 :=
  if InUser va then (P.pageAt va).map fun p => p.byte (pageOffset va) else none

end Pages

/-- The memories of the tasks after an event. Which slot is taken, killed or current, and
which pages the heap or a region gets, is decided outside the memories, as `m` says. -/
def deepStep (m : Machine) (R : Fin 8 → Pages) : ProcOp → Fin 8 → Pages
  | .elfExec file _ | .kernelElfExec file =>
    if file.ExecValid then
      match m.freeSlot with
      | none => R
      | some slot => Function.update R slot (Pages.empty.load file.imagePages)
    else R
  | .fork _ =>
    match m.freeSlot with
    | none => R
    | some slot => Function.update R slot (R m.current)
  | .execve file =>
    if file.ExecveValid then Function.update R m.current (Pages.empty.load file.imagePages)
    else R
  | .exit _ => Function.update R m.current Pages.empty
  | .kill dstPid sig =>
    if sig = 9 ∨ sig = 15 then
      match m.victim dstPid with
      | none => R
      | some i => Function.update R i Pages.empty
    else R
  | .store va b => Function.update R m.current ((R m.current).store va b)
  | .sbrk increment =>
    if increment ≠ 0 ∧ increment < 0x8000000000000000 then
      Function.update R m.current ((R m.current).load (m.sbrkPages increment))
    else R
  | .pageFault va _ tmp =>
    match (R m.current).pageAt va, vmaFind m.cur.vmaList va with
    | none, some v =>
      Function.update R m.current ((R m.current).load
        [(Machine.pageDown va, Machine.regionFill v tmp va)])
    | _, _ => R
  | _ => R

namespace Machine

/-- The byte that the task in a slot reads at an address. -/
def userByte (m : Machine) (i : Fin 8) (va : UInt64) : Option UInt8 :=
  (mmuTranslate m.paging (m.root i) va false).map fun f => (m.paging.mem f).byte (pageOffset va)

/-- The step loads nothing over a page that is there, and kills no task at a fault. -/
def StepOk (m : Machine) : ProcOp → Prop
  | .elfExec file _ | .kernelElfExec file => file.ExecValid → file.PagesOk
  | .execve file => file.ExecveValid → file.PagesOk
  | .sbrk increment => increment ≠ 0 → increment < 0x8000000000000000 →
      ∀ q ∈ m.sbrkPages increment,
        InUser q.1 ∧ mmuTranslate m.paging m.cr3 q.1 false = none
  | .pageFault va write _ => InUser va ∧
      (write = true ∧ cowPage m.paging m.cur.pml4 va = true ∨
        (vmaFind m.cur.vmaList va).isSome = true ∧ mmuTranslate m.paging m.cr3 va false = none)
  | .exception => False
  | _ => True

/-- `frame_alloc` does not fail in the step. -/
def FramesLast (m : Machine) (op : ProcOp) : Prop :=
  ∀ m', m.step op = some m' → m'.paging.outOfFrames = false

/-- A step of the machine beside one of the reference. -/
def stepWith (c : Machine × (Fin 8 → Pages)) (op : ProcOp) :
    Option (Machine × (Fin 8 → Pages)) :=
  (c.1.step op).map fun m' => (m', deepStep c.1 c.2 op)

end Machine

/-! ## Addresses -/

theorem levelIndex_pageDown {va shift : UInt64} {n : ℕ} (hs : shift.toNat % 64 = n) (hn : 12 ≤ n) :
    levelIndex (Machine.pageDown va) shift = levelIndex va shift := by
  refine Fin.ext ?_
  rw [levelIndex_val hs, levelIndex_val hs, Machine.pageDown, toNat_and_not_low]
  obtain ⟨k, rfl⟩ := Nat.exists_eq_add_of_le hn
  rw [pow_add, ← Nat.div_div_eq_div_mul, ← Nat.div_div_eq_div_mul]
  congr 2
  omega

theorem Pages.pageAt_pageDown (P : Pages) (va : UInt64) :
    P.pageAt (Machine.pageDown va) = P.pageAt va := by
  unfold pageAt
  rw [levelIndex_pageDown (n := 21) rfl (by omega), levelIndex_pageDown (n := 12) rfl (by omega)]

theorem InUser.pageDown {va : UInt64} (h : InUser va) : InUser (Machine.pageDown va) := by
  unfold InUser at h ⊢
  rw [UInt64.le_iff_toNat_le, UInt64.lt_iff_toNat_lt] at h ⊢
  have h1 : (0x08000000 : UInt64).toNat = 0x08000000 := rfl
  have h2 : (0x40000000 : UInt64).toNat = 0x40000000 := rfl
  rw [Machine.pageDown, toNat_and_not_low]
  omega

/-! ## Slots and spaces -/

/-- The root of the address space of a slot, if it has one of its own. -/
def TaskSlot.userRoot (kernel : UInt64) (t : TaskSlot) : Option UInt64 :=
  if t.active = true ∧ t.pml4 ≠ 0 ∧ t.pml4 ≠ kernel then some t.pml4 else none

/-- The address spaces of the slots, with the memories `R`. -/
def spacesOf (kernel : UInt64) (tasks : Fin 8 → TaskSlot) (R : Fin 8 → Pages) : Spaces where
  root s := s.bind fun i => (tasks i).userRoot kernel
  page s := s.elim Pages.empty R

/-- The machine has the memories `R`, its dead slots have no page tables, and the page
tables of the running task are active. -/
structure Machine.Ok (b : PagingState) (m : Machine) (R : Fin 8 → Pages) : Prop where
  sim : Sim b m.paging (spacesOf b.kernelPml4 m.tasks R)
  idle : ∀ i, (m.tasks i).active = false → (m.tasks i).pml4 = 0
  cr3 : m.cr3 = if m.cur.pml4 = 0 then b.kernelPml4 else m.cur.pml4
  running : m.cur.active = true

namespace Spaces

variable {S : Spaces} {i j : Fin 8}

theorem ext_slots {S' : Spaces} (hroot : S.root none = S'.root none)
    (hpage : S.page none = S'.page none) (hroots : ∀ i, S.root (some i) = S'.root (some i))
    (hpages : ∀ i, S.page (some i) = S'.page (some i)) : S = S' := by
  obtain ⟨root, page⟩ := S
  obtain ⟨root', page'⟩ := S'
  rw [Spaces.mk.injEq]
  constructor
  · funext s
    cases s with
    | none => exact hroot
    | some i => exact hroots i
  · funext s
    cases s with
    | none => exact hpage
    | some i => exact hpages i

@[simp] theorem swap_root_none : (S.swap none (some i)).root none = S.root (some i) := by
  simp [swap]

@[simp] theorem swap_root_self : (S.swap none (some i)).root (some i) = S.root none := by
  simp [swap]

theorem swap_root_ne (h : j ≠ i) : (S.swap none (some i)).root (some j) = S.root (some j) := by
  simp [swap, Equiv.swap_apply_of_ne_of_ne, h]

@[simp] theorem swap_page_none : (S.swap none (some i)).page none = S.page (some i) := by
  simp [swap]

@[simp] theorem swap_page_self : (S.swap none (some i)).page (some i) = S.page none := by
  simp [swap]

theorem swap_page_ne (h : j ≠ i) : (S.swap none (some i)).page (some j) = S.page (some j) := by
  simp [swap, Equiv.swap_apply_of_ne_of_ne, h]

theorem setPage_page_self (S : Spaces) (s : SpaceId) (va : UInt64) (p : Page) :
    (S.setPage s (levelIndex va 21) (levelIndex va 12) p).page s = Pages.set (S.page s) va p := by
  funext i j
  simp [setPage, Pages.set]

theorem setPage_page_ne (S : Spaces) {s s' : SpaceId} (h : s' ≠ s) (i j : Fin 512) (p : Page) :
    (S.setPage s i j p).page s' = S.page s' := by
  funext i' j'
  simp [setPage, h]

theorem load_page_self (s : SpaceId) (pages : List (UInt64 × (Page → Page))) :
    ∀ S : Spaces, (S.load s pages).page s = Pages.load (S.page s) pages := by
  induction pages with
  | nil => exact fun S => rfl
  | cons q rest ih =>
    intro S
    refine (ih _).trans ?_
    rw [setPage_page_self]
    rfl

theorem load_page_ne {s s' : SpaceId} (h : s' ≠ s) (pages : List (UInt64 × (Page → Page))) :
    ∀ S : Spaces, (S.load s pages).page s' = S.page s' := by
  induction pages with
  | nil => exact fun S => rfl
  | cons q rest ih => exact fun S => (ih _).trans (setPage_page_ne S h _ _ _)

end Spaces

theorem loadImage_outOfFrames {m : PagingState} (h : m.outOfFrames = true) (file : ElfFile)
    (pml4 brk : UInt64) : (loadImage file pml4 m brk).2.1.outOfFrames = true := by
  have heq : (loadImage file pml4 m brk).2.1 = (loadPages pml4 file.imagePages m).2 :=
    congrArg Prod.snd (loadImage_eq file pml4 m brk)
  rw [heq]
  exact loadPages_outOfFrames pml4 file.imagePages h

theorem pagingCloneUserPages_outOfFrames {m : PagingState} (h : m.outOfFrames = true)
    (dst src : UInt64) : (pagingCloneUserPages m dst src).outOfFrames = true :=
  foldl_outOfFrames (fun _ i hm => cloneUserTable_outOfFrames hm _ _ i) _ m h

theorem foldl_outOfFrames_eq {ι : Type*} {f : PagingState → ι → PagingState}
    (hf : ∀ m k, (f m k).outOfFrames = m.outOfFrames) (l : List ι) :
    ∀ m, (l.foldl f m).outOfFrames = m.outOfFrames := by
  induction l with
  | nil => exact fun m => rfl
  | cons k rest ih => exact fun m => (ih _).trans (hf m k)

theorem pagingFreeUserSpace_outOfFrames (m : PagingState) (pml4 : UInt64) :
    (pagingFreeUserSpace m pml4).outOfFrames = m.outOfFrames := by
  have hpage : ∀ pt m j, (freeUserPage pt m j).outOfFrames = m.outOfFrames := by
    intro pt m j
    unfold freeUserPage
    split
    · exact frameFree_outOfFrames _ _
    · rfl
  have htable : ∀ pd m i, (freeUserTable pd m i).outOfFrames = m.outOfFrames := by
    intro pd m i
    unfold freeUserTable
    split
    · exact (frameFree_outOfFrames _ _).trans (foldl_outOfFrames_eq (hpage _) _ m)
    · rfl
  unfold pagingFreeUserSpace
  split
  · rfl
  · simp only [frameFree_outOfFrames]
    exact foldl_outOfFrames_eq (htable _) _ m

section Slots

variable {b pg : PagingState} {S : Spaces} {k f : UInt64} {tasks : Fin 8 → TaskSlot}
  {R : Fin 8 → Pages} {slot : Fin 8} {t : TaskSlot}

/-- A space without a root has no pages. -/
theorem Sim.page_empty (h : Sim b pg S) {s : SpaceId} (hroot : S.root s = none) :
    S.page s = Pages.empty := by
  obtain ⟨G, hinv, hsees⟩ := h
  have hr : G (Holder.node s .pml4) = none := by simpa [hroot] using hsees.root s
  funext i j
  rw [← hsees.page s i j, view_eq_none.mpr (hinv.empty_of_root hr _)]
  rfl

/-- The space that has been built becomes that of a slot, which had none. -/
theorem Sim.install (h : Sim b pg S) (hroot : S.root none = some f)
    (hslot : S.root (some slot) = none)
    (hroots : ∀ i, i ≠ slot → S.root (some i) = (tasks i).userRoot k)
    (hpages : ∀ i, i ≠ slot → S.page (some i) = R i) (ht : t.userRoot k = some f) :
    Sim b pg (spacesOf k (Function.update tasks slot t)
      (Function.update R slot (S.page none))) := by
  have heq : S.swap none (some slot) = spacesOf k (Function.update tasks slot t)
      (Function.update R slot (S.page none)) := by
    refine Spaces.ext_slots ?_ ?_ (fun i => ?_) fun i => ?_
    · rw [Spaces.swap_root_none, hslot]
      rfl
    · rw [Spaces.swap_page_none, h.page_empty hslot]
      rfl
    · by_cases hi : i = slot
      · subst hi
        simp [spacesOf, hroot, ht]
      · rw [Spaces.swap_root_ne hi, hroots i hi]
        simp [spacesOf, Function.update_of_ne hi]
    · by_cases hi : i = slot
      · subst hi
        simp [spacesOf]
      · rw [Spaces.swap_page_ne hi, hpages i hi]
        simp [spacesOf, Function.update_of_ne hi]
  rw [← heq]
  exact h.swap none (some slot)

/-- The space of a slot is taken down. What stands in `none` takes its place. -/
theorem Sim.replace (h : Sim b pg S) (hslot : S.root (some slot) = some f)
    (hf : f ≠ b.kernelPml4)
    (hroots : ∀ i, i ≠ slot → S.root (some i) = (tasks i).userRoot k)
    (hpages : ∀ i, i ≠ slot → S.page (some i) = R i) (ht : t.userRoot k = S.root none) :
    Sim b (pagingFreeUserSpace pg f) (spacesOf k (Function.update tasks slot t)
      (Function.update R slot (S.page none))) ∧
      (pagingFreeUserSpace pg f).outOfFrames = pg.outOfFrames := by
  have hswap := h.swap none (some slot)
  obtain ⟨hsim, hout⟩ := hswap.freeUserSpace (Spaces.swap_root_none.trans hslot) hf
  refine ⟨?_, hout⟩
  have heq : (S.swap none (some slot)).clear none = spacesOf k (Function.update tasks slot t)
      (Function.update R slot (S.page none)) := by
    refine Spaces.ext_slots ?_ ?_ (fun i => ?_) fun i => ?_
    · simp [Spaces.clear, spacesOf]
    · simp only [Spaces.clear, spacesOf, Function.update_self, Option.elim_none]
      rfl
    · by_cases hi : i = slot
      · subst hi
        simp [Spaces.clear, spacesOf, ht]
      · simp [Spaces.clear, spacesOf, Spaces.swap_root_ne hi, hroots i hi, Function.update_of_ne hi]
    · by_cases hi : i = slot
      · subst hi
        simp [Spaces.clear, spacesOf]
      · simp [Spaces.clear, spacesOf, Spaces.swap_page_ne hi, hpages i hi, Function.update_of_ne hi]
  rw [← heq]
  exact hsim

theorem spacesOf_setPage (i : Fin 8) (va : UInt64) (p : Page) :
    (spacesOf k tasks R).setPage (some i) (levelIndex va 21) (levelIndex va 12) p
      = spacesOf k tasks (Function.update R i ((R i).set va p)) := by
  refine Spaces.ext_slots rfl ?_ (fun j => rfl) fun j => ?_
  · exact Spaces.setPage_page_ne _ (by simp) _ _ _
  · by_cases hj : j = i
    · subst hj
      rw [Spaces.setPage_page_self]
      simp [spacesOf]
    · rw [Spaces.setPage_page_ne _ (by simpa using hj)]
      simp [spacesOf, Function.update_of_ne hj]

theorem spacesOf_load (i : Fin 8) (pages : List (UInt64 × (Page → Page))) :
    (spacesOf k tasks R).load (some i) pages
      = spacesOf k tasks (Function.update R i ((R i).load pages)) := by
  refine Spaces.ext_slots ?_ ?_ (fun j => ?_) fun j => ?_
  · rw [Spaces.load_root]
    rfl
  · rw [Spaces.load_page_ne (by simp)]
    rfl
  · rw [Spaces.load_root]
    rfl
  · by_cases hj : j = i
    · subst hj
      rw [Spaces.load_page_self]
      simp [spacesOf]
    · rw [Spaces.load_page_ne (by simpa using hj)]
      simp [spacesOf, Function.update_of_ne hj]

end Slots

end VernisOS
