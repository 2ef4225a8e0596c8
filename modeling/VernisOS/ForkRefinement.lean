import Mathlib.Data.Fintype.Prod
import VernisOS.Boot
import VernisOS.PagingBudget

/-!
# Copy-on-write fork refines deep-copy fork

Every run from boot whose steps meet `StepOk` and `FramesLast` keeps `Machine.Ok`. What this
says in the terms of the page tables : every task reads the bytes of the reference, no free frame is
mapped, and the count of a frame is the number of pages that are mapped to it.
-/

namespace VernisOS

open Holder Equiv

/-! ## Frames and pages -/

namespace Machine

/-- The PDPT of an address space. -/
def pdptOf (m : Machine) (pml4 : UInt64) : UInt64 :=
  m.paging.mem pml4 0 &&& pageAddrMask

/-- The PD of the first gigabyte of an address space. -/
def pdOf (m : Machine) (pml4 : UInt64) : UInt64 :=
  m.paging.mem (m.pdptOf pml4) 0 &&& pageAddrMask

/-- `f` is a table of the address space of a user task. -/
def IsTable (m : Machine) (f : UInt64) : Prop :=
  ∃ i, m.IsUser i ∧ (f = (m.tasks i).pml4 ∨ f = m.pdptOf (m.tasks i).pml4 ∨
    f = m.pdOf (m.tasks i).pml4 ∨ ∃ j, 64 ≤ j ∧ HasTable (m.paging.mem (m.pdOf (m.tasks i).pml4) j) ∧
      f = m.paging.mem (m.pdOf (m.tasks i).pml4) j &&& pageAddrMask)

/-- The user page `(i, j)` of a slot is mapped to the frame `f`. -/
def MapsTo (m : Machine) (slot : Fin 8) (i j : Fin 512) (f : UInt64) : Prop :=
  m.IsUser slot ∧ 64 ≤ i ∧ mmuTranslate m.paging (m.root slot) (pageAddr i j) false = some f

instance (m : Machine) (slot : Fin 8) (i j : Fin 512) (f : UInt64) :
    Decidable (m.MapsTo slot i j f) :=
  inferInstanceAs (Decidable (_ ∧ _))

/-- How many user pages are mapped to a frame. -/
def mappings (m : Machine) (f : UInt64) : ℕ :=
  (Finset.univ.filter fun p : Fin 8 × Fin 512 × Fin 512 => m.MapsTo p.1 p.2.1 p.2.2 f).card

/-- The memories are those of the reference, no free frame is mapped or listed twice, and a
frame that is neither the kernel's nor a table is counted as often as it is mapped. -/
structure ForkOk (b : PagingState) (m : Machine) (R : Fin 8 → Pages) : Prop where
  bytes : ∀ i, m.IsUser i → ∀ va, m.userByte i va = (R i).read va
  unmapped : ∀ f ∈ m.paging.freelist, ∀ i, m.IsUser i →
    ∀ va write, mmuTranslate m.paging (m.root i) va write ≠ some f
  nodup : m.paging.freelist.Nodup
  counts : ∀ f, Known m.paging f → ¬ Known b f → ¬ m.IsTable f →
    refs m.paging f = m.mappings f

end Machine

/-- The trees of `G` are those of the user tasks. -/
def Machine.Rooted (m : Machine) (G : Ghost) : Prop :=
  ∀ i, (G (node (some i) .pml4)).map Ref.frame = (m.tasks i).userRoot m.paging.kernelPml4

/-- The holder of a user page. -/
def pageHolder : Fin 8 × Fin 512 × Fin 512 ↪ Holder where
  toFun p := node (some p.1) (.page p.2.1 p.2.2)
  inj' p p' h := by
    simp only [Holder.node.injEq, Option.some.injEq, Node.page.injEq] at h
    exact Prod.ext h.1 (Prod.ext h.2.1 h.2.2)

theorem inUser_pageAddr {i : Fin 512} (hi : 64 ≤ i) (j : Fin 512) : InUser (pageAddr i j) := by
  unfold InUser
  have h1 : (0x08000000 : UInt64).toNat = 0x08000000 := rfl
  have h2 : (0x40000000 : UInt64).toNat = 0x40000000 := rfl
  have h3 : (64 : Fin 512).val = 64 := rfl
  rw [UInt64.le_iff_toNat_le, UInt64.lt_iff_toNat_lt, toNat_pageAddr]
  rw [Fin.le_iff_val_le_val] at hi
  omega

namespace Machine.Rooted

variable {b : PagingState} {m : Machine} {G : Ghost} {i : Fin 8} {x : Ref} {f : UInt64}

/-- The tree of a user task. -/
theorem root_of_user (h : m.Rooted G) (hu : m.IsUser i) :
    ∃ r, G (node (some i) .pml4) = some r ∧ r.frame = (m.tasks i).pml4 ∧ m.root i = r.frame := by
  have hroot := (h i).trans (if_pos hu)
  obtain ⟨r, hr, hf⟩ := Option.map_eq_some_iff.mp hroot
  refine ⟨r, hr, hf, ?_⟩
  rw [hf, root, if_neg hu.2.1]

/-- A slot with a tree is that of a user task. -/
theorem isUser_of_node (h : m.Rooted G) (hinv : Inv b m.paging G) {n : Node}
    (hx : G (node (some i) n) = some x) : m.IsUser i := by
  have hne : G (node (some i) .pml4) ≠ none := by
    intro hroot
    rw [hinv.empty_of_root hroot n] at hx
    exact absurd hx (by simp)
  by_contra hu
  refine hne (Option.map_eq_none_iff.mp ((h i).trans ?_))
  exact if_neg hu

/-- The upper tables of a user task, as the walk finds them. -/
theorem upper (h : m.Rooted G) (hinv : Inv b m.paging G) (hu : m.IsUser i) :
    ∃ x₃ x₂, G (node (some i) .pdpt) = some x₃ ∧ G (node (some i) .pd) = some x₂ ∧
      m.pdptOf (m.tasks i).pml4 = x₃.frame ∧ m.pdOf (m.tasks i).pml4 = x₂.frame := by
  obtain ⟨r, hr, hf, _⟩ := h.root_of_user hu
  obtain ⟨x₃, x₂, hx₃, hx₂⟩ := hinv.upper hr
  have h₃ : m.pdptOf (m.tasks i).pml4 = x₃.frame := by
    rw [pdptOf, ← hf, hinv.entry_eq rfl hr hx₃, Ref.entry_and_mask (hinv.isFrame hx₃)]
  refine ⟨x₃, x₂, hx₃, hx₂, h₃, ?_⟩
  rw [pdOf, h₃, hinv.entry_eq rfl hx₃ hx₂, Ref.entry_and_mask (hinv.isFrame hx₂)]

/-- The tables of the user tasks are the tables of the trees. -/
theorem isTable_iff (h : m.Rooted G) (hinv : Inv b m.paging G) :
    m.IsTable f ↔ ∃ i n, n.isPage = false ∧ G.frames (node (some i) n) = some f := by
  constructor
  · rintro ⟨i, hu, htable⟩
    obtain ⟨r, hr, hf, _⟩ := h.root_of_user hu
    obtain ⟨x₃, x₂, hx₃, hx₂, h₃, h₂⟩ := h.upper hinv hu
    rw [h₃, h₂] at htable
    rcases htable with rfl | rfl | rfl | ⟨j, hj, htable, rfl⟩
    · exact ⟨i, .pml4, rfl, hf ▸ Ghost.frames_eq hr⟩
    · exact ⟨i, .pdpt, rfl, Ghost.frames_eq hx₃⟩
    · exact ⟨i, .pd, rfl, Ghost.frames_eq hx₂⟩
    · have hpt : Node.parent (.pt j) = some (.pd, j) := if_pos hj
      refine ⟨i, .pt j, rfl, ?_⟩
      rw [hinv.shape.entry (some i) (.pt j) .pd j x₂ hpt hx₂] at htable ⊢
      cases hx : G (node (some i) (.pt j)) with
      | none =>
        rw [hx] at htable
        exact absurd htable not_hasTable_zero
      | some x => rw [Ghost.frames_eq hx, entryOf, Ref.entry_and_mask (hinv.isFrame hx)]
  · rintro ⟨i, n, hn, hframe⟩
    obtain ⟨x, hx, rfl⟩ := Ghost.of_frames hframe
    have hu := h.isUser_of_node hinv hx
    obtain ⟨r, hr, hf, _⟩ := h.root_of_user hu
    obtain ⟨x₃, x₂, hx₃, hx₂, h₃, h₂⟩ := h.upper hinv hu
    refine ⟨i, hu, ?_⟩
    rw [h₃, h₂]
    cases n with
    | pml4 =>
      rw [hr, Option.some.injEq] at hx
      exact Or.inl (hx ▸ hf)
    | pdpt =>
      rw [hx₃, Option.some.injEq] at hx
      exact Or.inr (Or.inl (hx ▸ rfl))
    | pd =>
      rw [hx₂, Option.some.injEq] at hx
      exact Or.inr (Or.inr (Or.inl (hx ▸ rfl)))
    | pt j =>
      obtain ⟨n, k, d, hp, hd⟩ := hinv.shape.rooted (some i) (.pt j) x hx (by simp)
      have hj : 64 ≤ j := by
        by_contra hj
        simp [Node.parent, if_neg hj] at hp
      have hpt : Node.parent (.pt j) = some (.pd, j) := if_pos hj
      have he := hinv.entry_eq hpt hx₂ hx
      refine Or.inr (Or.inr (Or.inr ⟨j, hj, ?_, ?_⟩))
      · rw [he]
        exact Ref.hasTable (hinv.isFrame hx)
      · rw [he, Ref.entry_and_mask (hinv.isFrame hx)]
    | page j k => exact absurd hn Bool.noConfusion

/-- A page is mapped to the frame that its holder has. -/
theorem mapsTo_iff (h : m.Rooted G) (hinv : Inv b m.paging G) {j k : Fin 512} :
    m.MapsTo i j k f ↔ G.frames (node (some i) (.page j k)) = some f := by
  constructor
  · rintro ⟨hu, hj, htr⟩
    obtain ⟨r, hr, _, hroot⟩ := h.root_of_user hu
    rw [hroot, hinv.mmuTranslate_user hr (inUser_pageAddr hj k) (at_pageAddr hj k)] at htr
    simpa [Ghost.frames, Option.bind_eq_some_iff] using htr
  · intro hframe
    obtain ⟨x, hx, rfl⟩ := Ghost.of_frames hframe
    have hu := h.isUser_of_node hinv hx
    obtain ⟨r, hr, _, hroot⟩ := h.root_of_user hu
    obtain ⟨hj, _⟩ := hinv.table_of_page hx
    refine ⟨hu, hj, ?_⟩
    rw [hroot, hinv.mmuTranslate_user hr (inUser_pageAddr hj k) (at_pageAddr hj k), hx]
    simp

/-- A frame that user code reaches has a page for its holder. -/
theorem holder_of_translate (h : m.Rooted G) (hinv : Inv b m.paging G) (hu : m.IsUser i)
    {va : UInt64} {write : Bool} (htr : mmuTranslate m.paging (m.root i) va write = some f) :
    G.frames (node (some i) (.page (levelIndex va 21) (levelIndex va 12))) = some f := by
  obtain ⟨r, hr, _, hroot⟩ := h.root_of_user hu
  rw [hroot] at htr
  by_cases hva : InUser va
  · rw [hinv.mmuTranslate_user hr hva hva.at, Option.bind_eq_some_iff] at htr
    obtain ⟨x, hx, htr⟩ := htr
    refine (Ghost.frames_eq hx).trans ?_
    split at htr
    · exact absurd htr (by simp)
    · exact htr
  · rw [hinv.mmuTranslate_outside hr hva] at htr
    exact absurd htr (by simp)

/-- The holders of a frame that are pages. -/
theorem filter_mapsTo (h : m.Rooted G) (hinv : Inv b m.paging G) (f : UInt64) :
    (Finset.univ.filter fun p : Fin 8 × Fin 512 × Fin 512 =>
        m.MapsTo p.1 p.2.1 p.2.2 f).map pageHolder ⊆
      Finset.univ.filter fun w => G.frames w = some f := by
  intro w
  simp only [Finset.mem_map, Finset.mem_filter, Finset.mem_univ, true_and]
  rintro ⟨p, hp, rfl⟩
  exact (h.mapsTo_iff hinv).mp hp

/-- A frame that is left in a hand is counted once too often. -/
theorem leak (h : m.Rooted G) (hinv : Inv b m.paging G) {l : Fin 3}
    (hx : G (hand l) = some x) :
    Known m.paging x.frame ∧ ¬ Known b x.frame ∧ ¬ m.IsTable x.frame ∧
      m.mappings x.frame < refs m.paging x.frame := by
  have hframe := Ghost.frames_eq hx
  have hknown := hinv.accounts.ledger.known_of _ _ hframe
  refine ⟨hknown, fun hb => hinv.hand_ne_kernel hb hx rfl, fun ht => ?_, ?_⟩
  · obtain ⟨i, n, hn, hnode⟩ := (h.isTable_iff hinv).mp ht
    obtain ⟨y, hy, he⟩ := Ghost.of_frames hnode
    exact Holder.noConfusion (hinv.table_unique hy hn hx he.symm)
  · rw [hinv.accounts.ledger.ref_eq _ hknown, Ledger.uses, mappings, ← Finset.card_map pageHolder]
    refine Finset.card_lt_card ((h.filter_mapsTo hinv x.frame).ssubset_of_mem_notMem
      (a := hand l) ?_ ?_)
    · simpa using hframe
    · simp [pageHolder]

end Machine.Rooted

namespace Machine.Ok

variable {b : PagingState} {m : Machine} {R : Fin 8 → Pages} {G : Ghost} {i : Fin 8} {f : UInt64}

theorem rooted (h : m.Ok b R) (hsees : Sees m.paging G (spacesOf b.kernelPml4 m.tasks R)) :
    m.Rooted G := by
  intro i
  rw [h.kernel_eq]
  exact hsees.root (some i)

/-- Who holds a frame : the kernel, or a node of the tree of a user task. -/
theorem holder_cases (hinv : Inv b m.paging G)
    (hsees : Sees m.paging G (spacesOf b.kernelPml4 m.tasks R)) {w : Holder}
    (hw : G.frames w = some f) : Known b f ∨ ∃ i n, w = node (some i) n := by
  obtain ⟨x, hx, rfl⟩ := Ghost.of_frames hw
  cases w with
  | boot k => exact Or.inl ((hinv.kernel_iff x.frame).mp ⟨k, x, hx, rfl⟩)
  | hand l =>
    rw [hsees.hands l] at hx
    exact absurd hx (by simp)
  | node s n =>
    cases s with
    | none =>
      have hroot : G (node none .pml4) = none := by
        simpa [spacesOf] using hsees.root none
      rw [hinv.empty_of_root hroot n] at hx
      exact absurd hx (by simp)
    | some i => exact Or.inr ⟨i, n, rfl⟩

/-- A frame is counted as often as it is mapped. -/
theorem refs_eq_mappings (h : m.Ok b R) (hf : Known m.paging f) (hkernel : ¬ Known b f)
    (htable : ¬ m.IsTable f) : refs m.paging f = m.mappings f := by
  obtain ⟨G, hinv, hsees⟩ := h.sim
  have hroot := h.rooted hsees
  have hholders : (Finset.univ.filter fun w => G.frames w = some f)
      = (Finset.univ.filter fun p : Fin 8 × Fin 512 × Fin 512 =>
          m.MapsTo p.1 p.2.1 p.2.2 f).map pageHolder := by
    refine Finset.Subset.antisymm (fun w => ?_) (hroot.filter_mapsTo hinv f)
    simp only [Finset.mem_map, Finset.mem_filter, Finset.mem_univ, true_and]
    intro hw
    obtain ⟨i, n, rfl⟩ := (holder_cases hinv hsees hw).resolve_left hkernel
    cases n with
    | page j k => exact ⟨(i, j, k), (hroot.mapsTo_iff hinv).mpr hw, rfl⟩
    | _ => exact absurd ((hroot.isTable_iff hinv).mpr ⟨i, _, rfl, hw⟩) htable
  rw [hinv.accounts.ledger.ref_eq f hf, Ledger.uses, hholders, Finset.card_map, mappings]

/-- A user task reads the bytes of its memory. -/
theorem userByte_eq (h : m.Ok b R) (hu : m.IsUser i) (va : UInt64) :
    m.userByte i va = (R i).read va := by
  obtain ⟨hroot, heq, _⟩ := h.user hu
  have hread := h.sim.read hroot va
  unfold userByte Pages.read Pages.pageAt
  rw [heq]
  by_cases hva : InUser va
  · rw [if_pos hva] at hread ⊢
    rw [show R i (levelIndex va 21) (levelIndex va 12)
      = (mmuTranslate m.paging (m.tasks i).pml4 va false).map m.paging.mem from hread.symm,
      Option.map_map]
    rfl
  · rw [if_neg hva] at hread ⊢
    rw [Option.map_eq_none_iff] at hread ⊢
    exact hread

theorem forkOk (h : m.Ok b R) : m.ForkOk b R := by
  refine ⟨fun i hu va => h.userByte_eq hu va, fun f hf i hu va write htr => ?_, ?_,
    fun f hf hkernel htable => h.refs_eq_mappings hf hkernel htable⟩
  · obtain ⟨G, hinv, hsees⟩ := h.sim
    exact hinv.accounts.ledger.free_unused f hf _ ((h.rooted hsees).holder_of_translate hinv hu htr)
  · obtain ⟨G, hinv, _⟩ := h.sim
    exact hinv.accounts.ledger.free_nodup

/-- The machine and the reference stay together along a run. -/
theorem after (h : m.Ok b R) (hb : KernelTables b) {ops : List ProcOp}
    (hops : Run.Along stepWith (fun c op => c.1.StepOk op ∧ c.1.FramesLast op) (m, R) ops) :
    Run.After stepWith (fun c => c.1.Ok b c.2) (m, R) ops := by
  refine Run.After.of_along (I := fun c => c.1.Ok b c.2) ?_ ops (m, R) h hops
  intro c op c' hc hop hs
  obtain ⟨m', hm', rfl⟩ := Option.map_eq_some_iff.mp hs
  exact hc.step hb hop.1 hop.2 hm'

end Machine.Ok

/-! ## Frames that steps take -/

namespace Machine

theorem loadImage_spends (file : ElfFile) (pml4 : UInt64) (pg : PagingState) (brk : UInt64) :
    Spends (4 * file.imagePages.length) pg (loadImage file pml4 pg brk).2.1 := by
  have heq : (loadImage file pml4 pg brk).2.1 = (loadPages pml4 file.imagePages pg).2 :=
    congrArg Prod.snd (loadImage_eq file pml4 pg brk)
  rw [heq]
  exact Spends.loadPages pml4 file.imagePages pg

theorem elfExec_spends (m : Machine) (file : ElfFile) (ticks : UInt16) :
    Spends (3 + 4 * file.imagePages.length) m.paging (m.elfExec file ticks).2.paging := by
  have hspace := Spends.createAddressSpace m.paging m.paging.kernelPml4
  have himage := hspace.trans (loadImage_spends file
    (pagingCreateAddressSpace m.paging m.paging.kernelPml4).1 _ 0)
  have hnone := (Spends.refl m.paging).mono (Nat.zero_le (3 + 4 * file.imagePages.length))
  unfold elfExec
  split
  · split
    · exact hnone
    · simp only [setTask_paging, setSched_paging]
      split
      · exact hspace.mono (by omega)
      · split
        · exact himage
        · exact himage
  · exact hnone

theorem sysExecve_spends (m : Machine) (file : ElfFile) :
    Spends (3 + 4 * file.imagePages.length) m.paging (m.sysExecve file).2.paging := by
  have hspace := Spends.createAddressSpace m.paging m.paging.kernelPml4
  have himage := hspace.trans (loadImage_spends file
    (pagingCreateAddressSpace m.paging m.paging.kernelPml4).1 _ m.cur.brk)
  unfold sysExecve
  split
  · simp only
    split
    · exact hspace.mono (by omega)
    · split
      · rw [release_paging]
        split
        · exact himage.trans (Spends.freeUserSpace _ _)
        · exact himage
      · exact himage
  · exact (Spends.refl m.paging).mono (by omega)

theorem preempt_paging (m : Machine) : m.preempt.2.paging = m.paging := by
  unfold preempt
  split
  · rfl
  · split <;> rfl

theorem timer_paging (m : Machine) (frame : UInt64) : (m.timer frame).2.paging = m.paging := by
  unfold timer
  simp only
  split
  · exact preempt_paging _
  · rfl

/-- The next task depends on which slots are active. -/
theorem nextTask_congr {m m' : Machine} (hcurrent : m'.current = m.current)
    (hactive : ∀ i, (m'.tasks i).active = (m.tasks i).active) : m'.nextTask = m.nextTask := by
  unfold nextTask
  simp only [hcurrent, hactive]

/-- The last tick of a time slice switches to the next task. -/
theorem timer_switch {m : Machine} (frame : UInt64) {next : Fin 8}
    (hticks : m.cur.ticksRemaining = 1) (hnext : m.nextTask = some next) (hne : next ≠ m.current) :
    (m.timer frame).2.current = next ∧ (m.timer frame).2.tasks next = m.tasks next := by
  have hzero : m.cur.countDown.ticksRemaining = 0 := by
    simp [TaskSlot.countDown, hticks]
  have hactive : m.cur.countDown.active = m.cur.active := by
    unfold TaskSlot.countDown
    split <;> rfl
  have hpreempt : ∀ m' : Machine, m'.current = m.current →
      (∀ i, (m'.tasks i).active = (m.tasks i).active) → m'.tasks next = m.tasks next →
      m'.preempt.2.current = next ∧ m'.preempt.2.tasks next = m.tasks next := by
    intro m' hcurrent hactive' htask
    rw [preempt, nextTask_congr hcurrent hactive', hnext, hcurrent]
    simp only [ne_eq, hne, not_false_eq_true, if_true]
    exact ⟨rfl, htask⟩
  unfold timer
  simp only
  split
  · refine hpreempt _ rfl (fun i => ?_) (Function.update_of_ne hne _ _)
    by_cases hi : i = m.current
    · subst hi
      rw [setCur_tasks, Function.update_self]
      exact hactive
    · rw [setCur_tasks, Function.update_of_ne hi]
  · next hno => exact absurd hzero hno

end Machine

/-! ## Images that load a page twice -/

/-- After the image is loaded, the frame of the page that was loaded over is in a hand, and
no page of any task has it. -/
theorem Machine.Ok.execve_again {b : PagingState} {m : Machine} {R : Fin 8 → Pages}
    (h : m.Ok b R) (hb : KernelTables b) (hu : m.IsUser m.current) {file : ElfFile}
    (hvalid : file.ExecveValid) {init : List (UInt64 × (Page → Page))}
    {q : UInt64 × (Page → Page)} (himage : file.imagePages = init ++ [q])
    (hin : ∀ p ∈ init, InUser p.1) (hq : InUser q.1)
    (hnodup : (init.map fun p => pageNumber p.1).Nodup)
    (hdup : pageNumber q.1 ∈ init.map fun p => pageNumber p.1)
    (hok : (m.sysExecve file).2.paging.outOfFrames = false) :
    ∃ G x, Inv b (m.sysExecve file).2.paging G ∧ G (hand 0) = some x ∧
      (m.sysExecve file).2.Rooted G := by
  have heq := loadImage_eq file
  obtain ⟨hold, _, hkernel⟩ := h.user hu
  unfold sysExecve at hok ⊢
  simp only [if_pos hvalid] at hok ⊢
  set r := pagingCreateAddressSpace m.paging m.paging.kernelPml4 with hr
  by_cases hzero : r.1 = 0
  · rw [if_pos hzero] at hok
    exact absurd hzero (h.newSpace hb hok).1
  · simp only [if_neg hzero] at hok ⊢
    have hok₁ : (loadImage file r.1 r.2 m.cur.brk).2.1.outOfFrames = false := by
      split at hok
      · rwa [release_outOfFrames] at hok
      · exact hok
    have hok₂ : r.2.outOfFrames = false := by
      by_contra hout
      rw [Bool.not_eq_false] at hout
      rw [loadImage_outOfFrames hout] at hok₁
      exact Bool.noConfusion hok₁
    obtain ⟨_, hkernel', hsim⟩ := h.newSpace hb hok₂
    rw [← hr] at hkernel' hsim
    have h₂ : (loadImage file r.1 r.2 m.cur.brk).2.1 = (loadPages r.1 (init ++ [q]) r.2).2 := by
      rw [← himage]
      exact congrArg Prod.snd (heq r.1 r.2 m.cur.brk)
    have h₁ : (loadImage file r.1 r.2 m.cur.brk).1 = (loadPages r.1 (init ++ [q]) r.2).1 := by
      rw [← himage]
      exact congrArg Prod.fst (heq r.1 r.2 m.cur.brk)
    rw [h₂] at hok₁
    obtain ⟨hdone, G, x, hinv, hx, hroots⟩ := hsim.loadPages_again (s := none)
      (by simp [Spaces.setRoot]) hin hq hnodup (fun _ _ => rfl) hdup hok₁
    rw [if_pos (h₁.trans hdone)]
    -- the old space is taken down
    obtain ⟨y, hy, hyf⟩ : ∃ y, G (node (some m.current) .pml4) = some y ∧
        y.frame = m.cur.pml4 :=
      Option.map_eq_some_iff.mp ((hroots (some m.current)).trans hold)
    have hk := hinv.accounts.kernel_eq
    have hfree := (hinv.swapSpaces none (some m.current)).freeUserSpace (r := y)
      (by simpa using hy) (by rw [hyf, hk]; exact hkernel)
    have hpaging : ((((m.setPaging (loadImage file r.1 r.2 m.cur.brk).2.1).setCur
        { m.cur with brk := (loadImage file r.1 r.2 m.cur.brk).2.2, pml4 := r.1 }).taskSwitchCr3
          m.current).release m.cur.pml4).paging
        = pagingFreeUserSpace (loadPages r.1 (init ++ [q]) r.2).2 y.frame := by
      rw [release_paging]
      simp only [taskSwitchCr3_paging, setCur_paging, setPaging_paging, h₂]
      rw [hyf]
      exact if_pos ⟨hu.2.1, fun he => hkernel (he.trans hk)⟩
    refine ⟨clearSpace (G ∘ swapSpaces none (some m.current)), x, ?_, hx, fun i => ?_⟩
    · rw [hpaging]
      exact hfree
    · rw [hpaging, hfree.accounts.kernel_eq]
      have hroot := hroots (swap none (some m.current) (some i))
      by_cases hi : i = m.current
      · subst hi
        rw [swap_apply_right] at hroot
        refine Eq.trans ?_ (userRoot_eq (f := r.1) ?_ ?_ hzero hkernel').symm
        · simpa [clearSpace, Spaces.setRoot] using hroot
        · simpa using h.running
        · simp
      · rw [swap_apply_of_ne_of_ne (by simp) (by simpa using hi)] at hroot
        simpa [clearSpace, Spaces.setRoot, spacesOf, Function.update_of_ne hi,
          swap_apply_of_ne_of_ne, hi] using hroot

/-- Along every run from boot in which images are loaded page by page and frames last, the
tasks have the memories of the reference, in which `fork` copies every page at once. -/
theorem Machine.Booted.fork_refines {m : Machine} (h : m.Booted) {ops : List ProcOp}
    (hops : Run.Along stepWith (fun c op => c.1.StepOk op ∧ c.1.FramesLast op)
      (m, fun _ => Pages.empty) ops) :
    Run.After stepWith (fun c => c.1.ForkOk m.paging c.2) (m, fun _ => Pages.empty) ops :=
  Run.After.mono (fun _ hc => hc.forkOk) ops _ (h.ok.after h.tables hops)

/-- The count of the frame that was loaded over is wrong, whatever the reference. -/
theorem Machine.Ok.not_forkOk_execve {b : PagingState} {m : Machine} {R R' : Fin 8 → Pages}
    (h : m.Ok b R) (hb : KernelTables b) (hu : m.IsUser m.current) {file : ElfFile}
    (hvalid : file.ExecveValid) {init : List (UInt64 × (Page → Page))}
    {q : UInt64 × (Page → Page)} (himage : file.imagePages = init ++ [q])
    (hin : ∀ p ∈ init, InUser p.1) (hq : InUser q.1)
    (hnodup : (init.map fun p => pageNumber p.1).Nodup)
    (hdup : pageNumber q.1 ∈ init.map fun p => pageNumber p.1)
    (hok : (m.sysExecve file).2.paging.outOfFrames = false) :
    ¬ (m.sysExecve file).2.ForkOk b R' := by
  intro hfork
  obtain ⟨G, x, hinv, hx, hroot⟩ := h.execve_again hb hu hvalid himage hin hq hnodup hdup hok
  obtain ⟨hknown, hkernel, htable, hlt⟩ := hroot.leak hinv hx
  rw [hfork.counts _ hknown hkernel htable] at hlt
  exact Nat.lt_irrefl _ hlt

/-- The last state of a run in which a task is started and calls `execve`. -/
theorem after_execve {m : Machine} {R : Fin 8 → Pages} {first second : ElfFile} {ticks : UInt16}
    {frame : UInt64} {P : Machine × (Fin 8 → Pages) → Prop}
    (hu : ((m.elfExec first ticks).2.timer frame).2.IsUser
      ((m.elfExec first ticks).2.timer frame).2.current)
    (h : Run.After Machine.stepWith P (m, R) [.elfExec first ticks, .timer frame, .execve second]) :
    ∃ R', P ((((m.elfExec first ticks).2.timer frame).2.sysExecve second).2, R') := by
  have hlast := ((h.2 _ rfl).2 _ rfl).2
  have hstep : ((m.elfExec first ticks).2.timer frame).2.step (.execve second)
      = some (((m.elfExec first ticks).2.timer frame).2.sysExecve second).2 := by
    rw [Machine.step, Machine.dispatch, if_pos hu]
    · rfl
    all_goals simp
  exact ⟨_, hlast _ (congrArg (Option.map fun m' => (m', _)) hstep)⟩

/-- A task is started and calls `execve`, with frames left for both images. -/
theorem framesLast_of_left {m : Machine} {R : Fin 8 → Pages} {first second : ElfFile}
    {ticks : UInt16} {frame : UInt64} (hpool : PoolOk m.paging) (hout : m.paging.outOfFrames = false)
    (hleft : 6 + 4 * first.imagePages.length + 4 * second.imagePages.length
      ≤ framesLeft m.paging) :
    Run.Along Machine.stepWith (fun c op => c.1.FramesLast op) (m, R)
      [.elfExec first ticks, .timer frame, .execve second] := by
  have hfirst := m.elfExec_spends first ticks
  obtain ⟨hout₁, hleft₁⟩ := hfirst.left hpool (by omega)
  have htimer := (m.elfExec first ticks).2.timer_paging frame
  refine ⟨fun m' hm' => ?_, fun c hc => ?_⟩
  · obtain rfl : (m.elfExec first ticks).2 = m' := Option.some.inj hm'
    exact hout₁.trans hout
  obtain rfl : ((m.elfExec first ticks).2, _) = c := Option.some.inj hc
  refine ⟨fun m' hm' => ?_, fun c hc => ?_⟩
  · obtain rfl : ((m.elfExec first ticks).2.timer frame).2 = m' := Option.some.inj hm'
    rw [htimer]
    exact hout₁.trans hout
  obtain rfl : (((m.elfExec first ticks).2.timer frame).2, _) = c := Option.some.inj hc
  refine ⟨fun m' hm' => ?_, fun _ _ => trivial⟩
  obtain ⟨⟨rsp, m''⟩, hr, rfl⟩ := Option.map_eq_some_iff.mp hm'
  obtain ⟨_, hr⟩ := Option.ite_none_right_eq_some.mp hr
  obtain rfl : (((m.elfExec first ticks).2.timer frame).2.sysExecve second).2 = m'' :=
    congrArg Prod.snd (Option.some.inj hr)
  have hsecond := ((m.elfExec first ticks).2.timer frame).2.sysExecve_spends second
  rw [htimer] at hsecond
  rw [(hsecond.left (hfirst.pool hpool) (by omega)).1]
  exact hout₁.trans hout

/-- A task is started, and calls `execve` when it runs. -/
theorem fork_refines_start :
    Run.After Machine.stepWith (fun c => c.1.ForkOk bootMachine.paging c.2)
      (bootMachine, fun _ => Pages.empty)
      [.elfExec stackImage 4, .timer 0, .execve stackImage] := by
  refine bootMachine_booted.fork_refines (Run.Along.and ?_ ?_)
  · exact ⟨fun _ => stackImage_pagesOk, fun _ _ => ⟨trivial, fun _ _ =>
      ⟨fun _ => stackImage_pagesOk, fun _ _ => trivial⟩⟩⟩
  · exact framesLast_of_left bootMachine_booted.pool rfl (by decide)

/-- A program without segments is started after boot with frames to spare. -/
theorem bootMachine_elfExec_left :
    (bootMachine.elfExec stackImage 4).2.paging.outOfFrames = false ∧
      1002 ≤ framesLeft (bootMachine.elfExec stackImage 4).2.paging := by
  have hspends := bootMachine.elfExec_spends stackImage 4
  have hpages : 3 + 4 * stackImage.imagePages.length = 19 := rfl
  have hleft : framesLeft bootMachine.paging = 1021 := by decide
  rw [hpages] at hspends
  obtain ⟨hout, hrest⟩ := hspends.left bootMachine_booted.pool (by omega)
  exact ⟨hout, by omega⟩

/-- `kinit` starts a program, which runs in slot 3 after the next tick. -/
theorem bootMachine_switch :
    ((bootMachine.elfExec stackImage 4).2.timer 0).2.current = 3 ∧
      ((bootMachine.elfExec stackImage 4).2.timer 0).2.tasks 3
        = (bootMachine.elfExec stackImage 4).2.tasks 3 ∧
      (bootMachine.elfExec stackImage 4).2.IsUser 3 := by
  have hslot : bootMachine.freeSlot = some 3 := by decide
  obtain ⟨hother, huser, hcurrent⟩ := bootMachine_booted.ok.elfExec_tasks bootMachine_booted.tables
    (by decide) stackImage_pagesOk hslot bootMachine_elfExec_left.1
  generalize (bootMachine.elfExec stackImage 4).2 = m at *
  have hnext : m.nextTask = some 3 := by
    have hboot : (bootMachine.setTask 3 (kernelSlot 0 0)).nextTask = some 3 := by decide
    rw [← hboot]
    refine Machine.nextTask_congr hcurrent fun i => ?_
    by_cases hi : i = 3
    · rw [hi, huser.1]
      rfl
    · rw [hother i hi, Machine.setTask_tasks, Function.update_of_ne hi]
  have hcur : m.cur = kernelSlot 4 1 := by
    rw [Machine.cur, hcurrent, hother _ (by decide)]
    rfl
  obtain ⟨hcurrent', htask⟩ := Machine.timer_switch (m := m) 0 (by rw [hcur]; rfl) hnext
    (by rw [hcurrent]; decide)
  exact ⟨hcurrent', htask, huser⟩

/-- The program of slot 3 is a user task. -/
theorem bootMachine_firstTask : ((bootMachine.elfExec stackImage 4).2.timer 0).2.IsUser
    ((bootMachine.elfExec stackImage 4).2.timer 0).2.current := by
  obtain ⟨hcurrent, htask, huser⟩ := bootMachine_switch
  rw [hcurrent, Machine.IsUser, htask, Machine.timer_paging]
  exact huser

/-- A task is started and calls `execve` with an image that loads a page twice. -/
theorem Machine.Booted.not_after_execve {m : Machine} (h : m.Booted) {first second : ElfFile}
    {ticks : UInt16} {frame : UInt64} (hfirst : first.PagesOk) (hvalid : second.ExecveValid)
    {init : List (UInt64 × (Page → Page))} {q : UInt64 × (Page → Page)}
    (himage : second.imagePages = init ++ [q]) (hin : ∀ p ∈ init, InUser p.1) (hq : InUser q.1)
    (hnodup : (init.map fun p => pageNumber p.1).Nodup)
    (hdup : pageNumber q.1 ∈ init.map fun p => pageNumber p.1)
    (hout : m.paging.outOfFrames = false)
    (hleft : 6 + 4 * first.imagePages.length + 4 * second.imagePages.length
      ≤ framesLeft m.paging)
    (hu : ((m.elfExec first ticks).2.timer frame).2.IsUser
      ((m.elfExec first ticks).2.timer frame).2.current) :
    ¬ Run.After stepWith (fun c => c.1.ForkOk m.paging c.2) (m, fun _ => Pages.empty)
      [.elfExec first ticks, .timer frame, .execve second] := by
  intro hafter
  have hexec := m.elfExec_spends first ticks
  obtain ⟨hout₁, hleft₁⟩ := hexec.left h.pool (by omega)
  have hsecond := ((m.elfExec first ticks).2.timer frame).2.sysExecve_spends second
  rw [timer_paging] at hsecond
  obtain ⟨hout₂, _⟩ := hsecond.left (hexec.pool h.pool) (by omega)
  have hok := (h.ok.elfExec h.tables (fun _ => hfirst) (hout₁.trans hout)).timer frame
  obtain ⟨R', hfork⟩ := after_execve hu hafter
  exact hok.not_forkOk_execve h.tables hu hvalid himage hin hq hnodup hdup
    (hout₂.trans (hout₁.trans hout)) hfork

/-- `execve` of a program whose segment lies on the stack leaves a frame counted that no page
has, with frames left to the end. -/
theorem not_fork_refines_over :
    Run.Along Machine.stepWith (fun c op => c.1.FramesLast op) (bootMachine, fun _ => Pages.empty)
        [.elfExec stackImage 4, .timer 0, .execve overImage] ∧
      ¬ Run.After Machine.stepWith (fun c => c.1.ForkOk bootMachine.paging c.2)
        (bootMachine, fun _ => Pages.empty)
        [.elfExec stackImage 4, .timer 0, .execve overImage] := by
  have himage : overImage.imagePages = overImage.imagePages.dropLast ++ [(0x107FF000, id)] := rfl
  refine ⟨framesLast_of_left bootMachine_booted.pool rfl (by decide), ?_⟩
  exact bootMachine_booted.not_after_execve stackImage_pagesOk (by decide) himage
    (inUser_of_all (by decide)) (by decide) (by decide) (by decide) rfl (by decide)
    bootMachine_firstTask

end VernisOS
