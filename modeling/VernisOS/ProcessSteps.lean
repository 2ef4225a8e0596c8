import VernisOS.ProcessRefinement

/-!
# The steps keep to the reference

For every event of the machine, one lemma about `Ok`, and `Ok.step` from them.
-/

namespace VernisOS

/-! ## The steps -/

namespace Machine

section Fields

variable (m : Machine)

theorem release_outOfFrames (p : UInt64) :
    (m.release p).paging.outOfFrames = m.paging.outOfFrames := by
  rw [release_paging]
  split
  · exact pagingFreeUserSpace_outOfFrames _ _
  · rfl

theorem userFault_paging {m' : Machine} {rsp : UInt64} (h : m.userFault = some (rsp, m')) :
    m'.paging = m.paging := by
  unfold userFault at h
  simp only at h
  split at h
  · exact absurd h (by simp)
  · rw [Option.some.injEq, Prod.mk.injEq] at h
    rw [← h.2]
    split <;> rfl

theorem demandPage_outOfFrames (h : m.paging.outOfFrames = true) (va : UInt64)
    (tmp : Option (List UInt8)) : (m.demandPage va tmp).2.paging.outOfFrames = true := by
  unfold demandPage
  split
  · exact h
  · exact loadPage_outOfFrames h _ _ _ _

theorem active_of_nextTask {i : Fin 8} (h : m.nextTask = some i) : (m.tasks i).active = true := by
  unfold nextTask at h
  simpa using List.find?_some h

theorem active_of_freeSlot {i : Fin 8} (h : m.freeSlot = some i) : (m.tasks i).active = false := by
  simpa using List.find?_some h

end Fields

namespace Ok

variable {b : PagingState} {m m' : Machine} {R : Fin 8 → Pages} {i : Fin 8}

theorem kernel_eq (h : m.Ok b R) : m.paging.kernelPml4 = b.kernelPml4 := by
  obtain ⟨G, hinv, _⟩ := h.sim
  exact hinv.accounts.kernel_eq

theorem root_eq (h : m.Ok b R) (i : Fin 8) :
    m.root i = if (m.tasks i).pml4 = 0 then b.kernelPml4 else (m.tasks i).pml4 := by
  unfold root
  rw [h.kernel_eq]

/-- The address space of a user task. -/
theorem user (h : m.Ok b R) (hu : m.IsUser i) :
    (spacesOf b.kernelPml4 m.tasks R).root (some i) = some (m.tasks i).pml4 ∧
      m.root i = (m.tasks i).pml4 ∧ (m.tasks i).pml4 ≠ b.kernelPml4 := by
  obtain ⟨hactive, hzero, hkernel⟩ := hu
  rw [h.kernel_eq] at hkernel
  refine ⟨?_, ?_, hkernel⟩
  · simp [spacesOf, TaskSlot.userRoot, hactive, hzero, hkernel]
  · rw [h.root_eq, if_neg hzero]

/-- The running task runs on its own page tables. -/
theorem cr3_user (h : m.Ok b R) (hu : m.IsUser m.current) : m.cr3 = m.cur.pml4 := by
  rw [h.cr3]
  exact if_neg hu.2.1

/-- A slot without page tables has no memory. -/
theorem empty (h : m.Ok b R) (hroot : (m.tasks i).userRoot b.kernelPml4 = none) :
    R i = Pages.empty :=
  h.sim.page_empty (s := some i) hroot

theorem userRoot_of_inactive {t : TaskSlot} {k : UInt64} (ht : t.active = false) :
    t.userRoot k = none := by
  simp [TaskSlot.userRoot, ht]

/-- Nothing happens to the memories, nor to the slots as far as they have any. -/
theorem congr (h : m.Ok b R) (hpaging : m'.paging = m.paging)
    (hactive : ∀ i, (m'.tasks i).active = (m.tasks i).active)
    (hpml4 : ∀ i, (m'.tasks i).pml4 = (m.tasks i).pml4) (hcurrent : m'.current = m.current)
    (hcr3 : m'.cr3 = m.cr3) : m'.Ok b R := by
  have hroots : ∀ i, (m'.tasks i).userRoot b.kernelPml4 = (m.tasks i).userRoot b.kernelPml4 := by
    intro i
    unfold TaskSlot.userRoot
    rw [hactive, hpml4]
  have heq : spacesOf b.kernelPml4 m'.tasks R = spacesOf b.kernelPml4 m.tasks R := by
    refine Spaces.ext_slots rfl rfl hroots fun i => rfl
  refine ⟨?_, fun i hi => ?_, ?_, ?_⟩
  · rw [hpaging, heq]
    exact h.sim
  · rw [hpml4, h.idle i (hactive i ▸ hi)]
  · rw [hcr3, h.cr3, cur, cur, hcurrent, hpml4]
  · rw [cur, hcurrent, hactive]
    exact h.running

/-- The slot of the running task changes, except for what memory needs. -/
theorem setCur (h : m.Ok b R) {t : TaskSlot} (hactive : t.active = m.cur.active)
    (hpml4 : t.pml4 = m.cur.pml4) : (m.setCur t).Ok b R := by
  refine h.congr rfl (fun i => ?_) (fun i => ?_) rfl rfl
  · by_cases hi : i = m.current
    · subst hi
      simpa [cur] using hactive
    · simp [Function.update_of_ne hi]
  · by_cases hi : i = m.current
    · subst hi
      simpa [cur] using hpml4
    · simp [Function.update_of_ne hi]

/-- The switch to another task. -/
theorem switchTo (h : m.Ok b R) (hactive : (m.tasks i).active = true) :
    (m.switchTo i).Ok b R :=
  ⟨h.sim, h.idle, h.root_eq i, hactive⟩

/-- The end of a task : its slot is cleared and its page tables are released. -/
theorem retire (h : m.Ok b R) (slot : Fin 8) :
    Sim b (m.release (m.tasks slot).pml4).paging
      (spacesOf b.kernelPml4 (Function.update m.tasks slot (m.tasks slot).dead)
        (Function.update R slot Pages.empty)) := by
  have hdead : (m.tasks slot).dead.userRoot b.kernelPml4 = none := userRoot_of_inactive rfl
  rw [release_paging]
  split
  · next hp =>
    have hu : m.IsUser slot := by
      refine ⟨?_, hp⟩
      cases hactive : (m.tasks slot).active with
      | false => exact absurd (h.idle slot hactive) hp.1
      | true => rfl
    obtain ⟨hroot, _, hkernel⟩ := h.user hu
    exact (h.sim.replace hroot hkernel (fun i _ => rfl) (fun i _ => rfl) hdead).1
  · next hp =>
    -- a task of the kernel has nothing to release
    have hnone : (m.tasks slot).userRoot b.kernelPml4 = none := by
      unfold TaskSlot.userRoot
      rw [← h.kernel_eq]
      exact if_neg fun hu => hp hu.2
    have heq : spacesOf b.kernelPml4 (Function.update m.tasks slot (m.tasks slot).dead)
        (Function.update R slot Pages.empty) = spacesOf b.kernelPml4 m.tasks R := by
      refine Spaces.ext_slots rfl rfl (fun i => ?_) fun i => ?_
      · by_cases hi : i = slot
        · subst hi
          simp [spacesOf, hdead, hnone]
        · simp [spacesOf, Function.update_of_ne hi]
      · by_cases hi : i = slot
        · subst hi
          simp [spacesOf, h.empty hnone]
        · simp [spacesOf, Function.update_of_ne hi]
    rw [heq]
    exact h.sim

theorem idle_dead (h : m.Ok b R) (slot : Fin 8) (i : Fin 8)
    (hi : (Function.update m.tasks slot (m.tasks slot).dead i).active = false) :
    (Function.update m.tasks slot (m.tasks slot).dead i).pml4 = 0 := by
  by_cases hslot : i = slot
  · subst hslot
    rw [Function.update_self]
    rfl
  · rw [Function.update_of_ne hslot] at hi ⊢
    exact h.idle i hi

/-- The timer interrupt. -/
theorem timer (h : m.Ok b R) (frame : UInt64) : (m.timer frame).2.Ok b R := by
  have htick : ({ m with kernelTick := m.kernelTick + 1 } : Machine).Ok b R :=
    h.congr rfl (fun _ => rfl) (fun _ => rfl) rfl rfl
  have hcount : m.cur.countDown.active = m.cur.active ∧ m.cur.countDown.pml4 = m.cur.pml4 := by
    unfold TaskSlot.countDown
    split <;> exact ⟨rfl, rfl⟩
  unfold Machine.timer
  simp only
  split
  · have hset := htick.setCur (t := { m.cur.countDown with
      rsp := frame, ticksRemaining := m.cur.countDown.ticksTotal }) hcount.1 hcount.2
    unfold preempt
    split
    · exact hset
    · next next hnext =>
      split
      · exact hset.switchTo (active_of_nextTask _ hnext)
      · exact hset
  · exact htick.setCur hcount.1 hcount.2

/-- `SYS_EXIT`. -/
theorem exit (h : m.Ok b R) {exitCode : Int} {rsp : UInt64}
    (he : m.sysExit exitCode = some (rsp, m')) :
    m'.Ok b (Function.update R m.current Pages.empty) := by
  unfold sysExit at he
  simp only at he
  split at he
  · exact absurd he (by simp)
  · next next hnext =>
    rw [Option.some.injEq, Prod.mk.injEq] at he
    obtain ⟨_, rfl⟩ := he
    have hactive := active_of_nextTask _ hnext
    refine ⟨h.retire m.current, h.idle_dead m.current, ?_, hactive⟩
    simp [cur, root, h.kernel_eq]

/-- `SYS_KILL`. -/
theorem kill (h : m.Ok b R) (dstPid : UInt64) (sig : UInt8) :
    (m.sysKill dstPid sig).Ok b (deepStep m R (.kill dstPid sig)) := by
  have hsig : (m.setSched (m.sched.signalSend dstPid.toNat sig)).Ok b R :=
    h.congr rfl (fun _ => rfl) (fun _ => rfl) rfl rfl
  have hvictim : (m.setSched (m.sched.signalSend dstPid.toNat sig)).victim dstPid
      = m.victim dstPid := rfl
  unfold sysKill deepStep
  by_cases h9 : sig = 9 ∨ sig = 15
  · simp only [if_pos h9, hvictim]
    cases hslot : m.victim dstPid with
    | none => exact hsig
    | some slot =>
      have hne : m.current ≠ slot := by
        unfold victim at hslot
        have hfound := List.find?_some hslot
        rw [decide_eq_true_eq] at hfound
        exact Ne.symm hfound.2.2
      have hcur : Function.update m.tasks slot (m.tasks slot).dead m.current = m.cur :=
        Function.update_of_ne hne _ _
      refine ⟨h.retire slot, h.idle_dead slot, ?_, ?_⟩
      · unfold cur
        simp only [release_tasks, setTask_tasks, release_current, setTask_current]
        exact h.cr3.trans (by rw [← hcur]; rfl)
      · exact (congrArg TaskSlot.active hcur).trans h.running
  · simp only [if_neg h9]
    exact hsig

theorem userRoot_eq {t : TaskSlot} {k f : UInt64} (hactive : t.active = true) (hpml4 : t.pml4 = f)
    (hzero : f ≠ 0) (hkernel : f ≠ k) : t.userRoot k = some f := by
  simp [TaskSlot.userRoot, hactive, hpml4, hzero, hkernel]

theorem active_of_userRoot {t : TaskSlot} {k f : UInt64} (h : t.userRoot k = some f) :
    t.active = true := by
  unfold TaskSlot.userRoot at h
  split at h
  · next ht => exact ht.1
  · exact absurd h (by simp)

theorem tasks_eq_update {slot : Fin 8} (h : ∀ i, i ≠ slot → m'.tasks i = m.tasks i) :
    m'.tasks = Function.update m.tasks slot (m'.tasks slot) := by
  funext i
  by_cases hi : i = slot
  · rw [hi, Function.update_self]
  · rw [Function.update_of_ne hi, h i hi]

/-- A slot that was free gets the space that has been built. -/
theorem ofInstall (h : m.Ok b R) {slot : Fin 8} (hslot : m.freeSlot = some slot) {S : Spaces}
    {f : UInt64} (hsim : Sim b m'.paging S) (hroot : S.root none = some f)
    (hroots : ∀ i, S.root (some i) = (m.tasks i).userRoot b.kernelPml4)
    (hpages : ∀ i, S.page (some i) = R i)
    (hself : (m'.tasks slot).userRoot b.kernelPml4 = some f)
    (hother : ∀ i, i ≠ slot → m'.tasks i = m.tasks i) (hcurrent : m'.current = m.current)
    (hcr3 : m'.cr3 = m.cr3) : m'.Ok b (Function.update R slot (S.page none)) := by
  have hfree := active_of_freeSlot m hslot
  have hne : m.current ≠ slot := by
    rintro rfl
    exact Bool.noConfusion (hfree.symm.trans h.running)
  have hcur : m'.cur = m.cur := by
    unfold cur
    rw [hcurrent, hother _ hne]
  refine ⟨?_, fun i hi => ?_, ?_, ?_⟩
  · rw [tasks_eq_update hother]
    exact hsim.install hroot ((hroots slot).trans (userRoot_of_inactive hfree))
      (fun i _ => hroots i) (fun i _ => hpages i) hself
  · by_cases his : i = slot
    · rw [his, active_of_userRoot hself] at hi
      exact absurd hi Bool.noConfusion
    · rw [hother i his] at hi ⊢
      exact h.idle i hi
  · rw [hcr3, hcur]
    exact h.cr3
  · rw [hcur]
    exact h.running

/-- The running task gets the space that has been built for its own, which is released. -/
theorem ofReplace (h : m.Ok b R) (hu : m.IsUser m.current) {pg : PagingState} {S : Spaces}
    {f : UInt64} (hsim : Sim b pg S) (hroot : S.root none = some f)
    (hroots : ∀ i, S.root (some i) = (m.tasks i).userRoot b.kernelPml4)
    (hpages : ∀ i, S.page (some i) = R i)
    (hpaging : m'.paging = pagingFreeUserSpace pg m.cur.pml4)
    (hself : (m'.tasks m.current).userRoot b.kernelPml4 = some f)
    (hother : ∀ i, i ≠ m.current → m'.tasks i = m.tasks i) (hcurrent : m'.current = m.current)
    (hcr3 : m'.cr3 = if m'.cur.pml4 = 0 then b.kernelPml4 else m'.cur.pml4) :
    m'.Ok b (Function.update R m.current (S.page none)) := by
  obtain ⟨hold, _, hkernel⟩ := h.user hu
  refine ⟨?_, fun i hi => ?_, hcr3, ?_⟩
  · rw [tasks_eq_update hother, hpaging]
    exact (hsim.replace ((hroots _).trans hold) hkernel (fun i _ => hroots i) (fun i _ => hpages i)
      (hself.trans hroot.symm)).1
  · by_cases his : i = m.current
    · rw [his, active_of_userRoot hself] at hi
      exact absurd hi Bool.noConfusion
    · rw [hother i his] at hi ⊢
      exact h.idle i hi
  · unfold cur
    rw [hcurrent]
    exact active_of_userRoot hself

section Create

variable (hb : KernelTables b)
include hb

/-- A new space, with the spaces of the slots as they are. -/
theorem newSpace (h : m.Ok b R)
    (hok : (pagingCreateAddressSpace m.paging m.paging.kernelPml4).2.outOfFrames = false) :
    (pagingCreateAddressSpace m.paging m.paging.kernelPml4).1 ≠ 0 ∧
      (pagingCreateAddressSpace m.paging m.paging.kernelPml4).1 ≠ b.kernelPml4 ∧
      Sim b (pagingCreateAddressSpace m.paging m.paging.kernelPml4).2
        ((spacesOf b.kernelPml4 m.tasks R).setRoot none
          (pagingCreateAddressSpace m.paging m.paging.kernelPml4).1) := by
  rw [h.kernel_eq] at hok ⊢
  exact h.sim.newSpace hb rfl hok

/-- An image in a new space. -/
theorem newImage (h : m.Ok b R) {file : ElfFile} (hpages : file.PagesOk) {r : UInt64 × PagingState}
    (hr : r = pagingCreateAddressSpace m.paging m.paging.kernelPml4) {brk : UInt64}
    (hok : (loadImage file r.1 r.2 brk).2.1.outOfFrames = false) :
    r.1 ≠ 0 ∧ r.1 ≠ b.kernelPml4 ∧ (loadImage file r.1 r.2 brk).1 = true ∧
      Sim b (loadImage file r.1 r.2 brk).2.1
        (((spacesOf b.kernelPml4 m.tasks R).setRoot none r.1).load none file.imagePages) := by
  have hok' : r.2.outOfFrames = false := by
    by_contra hout
    rw [Bool.not_eq_false] at hout
    rw [loadImage_outOfFrames hout] at hok
    exact Bool.noConfusion hok
  subst hr
  obtain ⟨hne, hkernel, hsim⟩ := h.newSpace hb hok'
  obtain ⟨hdone, hsim'⟩ := hsim.loadImage (by simp [Spaces.setRoot]) (fun _ _ => rfl) hpages hok
  exact ⟨hne, hkernel, hdone, hsim'⟩

/-- `elf_exec`. -/
theorem elfExec (h : m.Ok b R) {file : ElfFile} (hpages : file.ExecValid → file.PagesOk)
    {ticks : UInt16} (hok : (m.elfExec file ticks).2.paging.outOfFrames = false) :
    (m.elfExec file ticks).2.Ok b (deepStep m R (.elfExec file ticks)) := by
  unfold Machine.elfExec at hok ⊢
  unfold deepStep
  by_cases hvalid : file.ExecValid
  · simp only [if_pos hvalid] at hok ⊢
    cases hslot : m.freeSlot with
    | none => exact h
    | some slot =>
      simp only [hslot, setTask_paging, setSched_paging] at hok ⊢
      set r := pagingCreateAddressSpace m.paging m.paging.kernelPml4 with hr
      by_cases hzero : r.1 = 0
      · rw [if_pos hzero] at hok
        exact absurd hzero (h.newSpace hb hok).1
      · simp only [if_neg hzero] at hok ⊢
        have hok' : (loadImage file r.1 r.2 0).2.1.outOfFrames = false := by
          split at hok <;> exact hok
        obtain ⟨_, hkernel, hdone, hsim⟩ := h.newImage hb (hpages hvalid) hr hok'
        simp only [if_pos hdone]
        have hpage : (((spacesOf b.kernelPml4 m.tasks R).setRoot none r.1).load none
            file.imagePages).page none = Pages.empty.load file.imagePages :=
          Spaces.load_page_self _ _ _
        rw [← hpage]
        refine h.ofInstall hslot hsim (f := r.1) ?_ (fun i => ?_) (fun i => ?_) ?_ (fun i hi => ?_)
          rfl rfl
        · simp [Spaces.setRoot]
        · simp [Spaces.setRoot, spacesOf]
        · rw [Spaces.load_page_ne (by simp)]
          rfl
        · exact userRoot_eq (by simp) (by simp) hzero hkernel
        · simp [Function.update_of_ne hi]
  · simp only [if_neg hvalid] at hok ⊢
    exact h

/-- The task that `elf_exec` starts. -/
theorem elfExec_tasks (h : m.Ok b R) {file : ElfFile} (hvalid : file.ExecValid)
    (hpages : file.PagesOk) {slot : Fin 8} (hslot : m.freeSlot = some slot) {ticks : UInt16}
    (hok : (m.elfExec file ticks).2.paging.outOfFrames = false) :
    (∀ i, i ≠ slot → (m.elfExec file ticks).2.tasks i = m.tasks i) ∧
      (m.elfExec file ticks).2.IsUser slot ∧ (m.elfExec file ticks).2.current = m.current := by
  unfold Machine.elfExec at hok ⊢
  simp only [if_pos hvalid, hslot, setTask_paging, setSched_paging] at hok ⊢
  set r := pagingCreateAddressSpace m.paging m.paging.kernelPml4 with hr
  by_cases hzero : r.1 = 0
  · rw [if_pos hzero] at hok
    exact absurd hzero (h.newSpace hb hok).1
  · simp only [if_neg hzero] at hok ⊢
    have hok' : (loadImage file r.1 r.2 0).2.1.outOfFrames = false := by
      split at hok <;> exact hok
    obtain ⟨_, hkernel, hdone, G, hinv, _⟩ := h.newImage hb hpages hr hok'
    rw [if_pos hdone]
    refine ⟨fun i hi => by simp [Function.update_of_ne hi], ⟨by simp, by simpa using hzero, ?_⟩, rfl⟩
    have hk := hinv.accounts.kernel_eq
    simpa [hk] using hkernel

/-- `kernel_elf_exec`. -/
theorem kernelElfExec (h : m.Ok b R) {file : ElfFile} (hpages : file.ExecValid → file.PagesOk)
    (hok : (m.kernelElfExec file).2.paging.outOfFrames = false) :
    (m.kernelElfExec file).2.Ok b (deepStep m R (.kernelElfExec file)) := by
  unfold Machine.kernelElfExec at hok ⊢
  have hok' : (m.elfExec file 24).2.paging.outOfFrames = false := by
    simp only at hok
    split at hok <;> exact hok
  have hexec := h.elfExec hb hpages hok'
  simp only
  split
  · exact hexec.congr rfl (fun _ => rfl) (fun _ => rfl) rfl rfl
  · exact hexec

/-- `sys_fork`. -/
theorem fork (h : m.Ok b R) (hu : m.IsUser m.current) {frame : UInt64}
    (hok : (m.sysFork frame).2.paging.outOfFrames = false) :
    (m.sysFork frame).2.Ok b (deepStep m R (.fork frame)) := by
  unfold sysFork at hok ⊢
  unfold deepStep
  cases hslot : m.freeSlot with
  | none => exact h
  | some slot =>
    simp only [hslot] at hok ⊢
    set r := pagingCreateAddressSpace m.paging m.paging.kernelPml4 with hr
    by_cases hzero : r.1 = 0
    · rw [if_pos hzero] at hok
      exact absurd hzero (h.newSpace hb hok).1
    · simp only [if_neg hzero, setTask_paging, setPaging_paging] at hok ⊢
      have hok' : r.2.outOfFrames = false := by
        by_contra hout
        rw [Bool.not_eq_false] at hout
        rw [pagingCloneUserPages_outOfFrames hout] at hok
        exact Bool.noConfusion hok
      obtain ⟨_, hkernel, hsim⟩ := h.newSpace hb hok'
      rw [← hr] at hkernel hsim
      have hsim' := hsim.clone (p := m.current) (f := r.1) (g := m.cur.pml4)
        (by simp [Spaces.setRoot]) (by simpa [Spaces.setRoot, cur] using (h.user hu).1)
        (fun _ _ => rfl) hok
      have hpage : (((spacesOf b.kernelPml4 m.tasks R).setRoot none r.1).setPages none
          (((spacesOf b.kernelPml4 m.tasks R).setRoot none r.1).page (some m.current))).page none
          = R m.current := by
        simp [Spaces.setPages, Spaces.setRoot, spacesOf]
      rw [← hpage]
      refine h.ofInstall hslot (f := r.1) ?_ ?_ (fun i => ?_) (fun i => ?_) ?_ (fun i hi => ?_)
        (by simp) (by simp)
      · rw [setTask_paging, setPaging_paging]
        exact hsim'
      · simp [Spaces.setPages, Spaces.setRoot]
      · simp [Spaces.setPages, Spaces.setRoot, spacesOf]
      · simp [Spaces.setPages, Spaces.setRoot, spacesOf]
      · exact userRoot_eq (by simp) (by simp [childSlot]) hzero hkernel
      · simp [Function.update_of_ne hi]

/-- `sys_execve`. -/
theorem execve (h : m.Ok b R) (hu : m.IsUser m.current) {file : ElfFile}
    (hpages : file.ExecveValid → file.PagesOk)
    (hok : (m.sysExecve file).2.paging.outOfFrames = false) :
    (m.sysExecve file).2.Ok b (deepStep m R (.execve file)) := by
  unfold sysExecve at hok ⊢
  unfold deepStep
  by_cases hvalid : file.ExecveValid
  · simp only [if_pos hvalid] at hok ⊢
    set r := pagingCreateAddressSpace m.paging m.paging.kernelPml4 with hr
    by_cases hzero : r.1 = 0
    · rw [if_pos hzero] at hok
      exact absurd hzero (h.newSpace hb hok).1
    · simp only [if_neg hzero] at hok ⊢
      have hok' : (loadImage file r.1 r.2 m.cur.brk).2.1.outOfFrames = false := by
        split at hok
        · rwa [release_outOfFrames] at hok
        · exact hok
      obtain ⟨_, hkernel, hdone, hsim⟩ := h.newImage hb (hpages hvalid) hr hok'
      have hk' : (loadImage file r.1 r.2 m.cur.brk).2.1.kernelPml4 = b.kernelPml4 := by
        obtain ⟨G, hinv, _⟩ := hsim
        exact hinv.accounts.kernel_eq
      have hold := (h.user hu).2.2
      simp only [if_pos hdone]
      have hpage : (((spacesOf b.kernelPml4 m.tasks R).setRoot none r.1).load none
          file.imagePages).page none = Pages.empty.load file.imagePages :=
        Spaces.load_page_self _ _ _
      rw [← hpage]
      refine h.ofReplace hu hsim (f := r.1) ?_ (fun i => ?_) (fun i => ?_) ?_ ?_ (fun i hi => ?_)
        rfl ?_
      · simp [Spaces.setRoot]
      · simp [Spaces.setRoot, spacesOf]
      · rw [Spaces.load_page_ne (by simp)]
        rfl
      · rw [release_paging]
        refine if_pos ⟨hu.2.1, fun he => hold ?_⟩
        exact he.trans hk'
      · exact userRoot_eq (by simpa using h.running) (by simp) hzero hkernel
      · simp [Function.update_of_ne hi]
      · simp [cur, root, hzero]
  · simp only [if_neg hvalid] at hok ⊢
    exact h

end Create

section Memory

variable (hu : m.IsUser m.current)
include hu

theorem user_cur (h : m.Ok b R) :
    (spacesOf b.kernelPml4 m.tasks R).root (some m.current) = some m.cur.pml4 ∧
      m.root m.current = m.cur.pml4 :=
  ⟨(h.user hu).1, (h.user hu).2.1⟩

/-- What the running task reads in a page. -/
theorem read_cur (h : m.Ok b R) (va : UInt64) :
    (mmuTranslate m.paging m.cr3 va false).map m.paging.mem =
      if InUser va then (R m.current).pageAt va else none := by
  rw [h.cr3_user hu]
  exact h.sim.read (h.user hu).1 va

theorem pageAt_eq_none (h : m.Ok b R) {va : UInt64} (hva : InUser va)
    (htr : mmuTranslate m.paging m.cr3 va false = none) : (R m.current).pageAt va = none := by
  have hread := h.read_cur hu va
  rw [htr, if_pos hva] at hread
  exact hread.symm

/-- A store. -/
theorem store (h : m.Ok b R) {va f : UInt64} {v : UInt8}
    (htr : mmuTranslate m.paging m.cr3 va true = some f) :
    (m.storeByte f va v).Ok b (deepStep m R (.store va v)) := by
  obtain ⟨hroot, _⟩ := h.user_cur hu
  rw [h.cr3_user hu] at htr
  have hva : InUser va := by
    by_contra hout
    rw [h.sim.translate_outside hroot hout] at htr
    exact absurd htr (by simp)
  obtain ⟨hpage, hstore⟩ := h.sim.store hroot hva htr
  have hat : (R m.current).pageAt va = some (m.paging.mem f) := hpage
  unfold deepStep
  simp only [Pages.store, hat]
  refine ⟨?_, h.idle, h.cr3, h.running⟩
  rw [← spacesOf_setPage]
  exact hstore _

/-- `sys_sbrk`. -/
theorem sbrk (h : m.Ok b R) {increment : UInt64} (hop : m.StepOk (.sbrk increment))
    (hok : (m.sysSbrk increment).2.paging.outOfFrames = false) :
    (m.sysSbrk increment).2.Ok b (deepStep m R (.sbrk increment)) := by
  obtain ⟨hroot, hcur⟩ := h.user_cur hu
  unfold sysSbrk at hok ⊢
  unfold deepStep
  by_cases hzero : increment = 0
  · simp only [hzero, if_true, ne_eq, not_true, false_and, if_false]
    exact h.setCur rfl rfl
  · by_cases hpos : increment < 0x8000000000000000
    · simp only [if_neg hzero, if_pos hpos, if_pos (⟨hzero, hpos⟩ : increment ≠ 0 ∧ _)] at hok ⊢
      have hpages := hop hzero hpos
      have hok' : (loadPages (m.root m.current) (m.sbrkPages increment) m.paging).2.outOfFrames
          = false := by
        split at hok <;> exact hok
      rw [hcur] at hok' ⊢
      have hnodup : ((m.sbrkPages increment).map fun q => pageNumber q.1).Nodup := by
        unfold sbrkPages
        rw [List.map_map]
        exact nodup_pageRange _ _
      obtain ⟨hdone, hsim⟩ := h.sim.loadPages (m.sbrkPages increment) hroot
        (fun q hq => (hpages q hq).1) hnodup
        (fun q hq => h.pageAt_eq_none hu (hpages q hq).1 (hpages q hq).2) hok'
      simp only [if_pos hdone]
      rw [spacesOf_load] at hsim
      refine Ok.setCur (m := m.setPaging _) ⟨hsim, h.idle, h.cr3, h.running⟩ rfl rfl
    · have hneg : ¬ (increment ≠ 0 ∧ increment < 0x8000000000000000) := fun hh => hpos hh.2
      simp only [if_neg hzero, if_neg hpos, if_neg hneg]
      exact h.setCur rfl rfl

/-- A page fault of user code that is resolved. -/
theorem pageFault (h : m.Ok b R) {va : UInt64} {write : Bool} {tmp : Option (List UInt8)}
    {rsp : UInt64} (hop : m.StepOk (.pageFault va write tmp))
    (hs : m.pageFault va write tmp = some (rsp, m')) (hok : m'.paging.outOfFrames = false) :
    m'.Ok b (deepStep m R (.pageFault va write tmp)) := by
  obtain ⟨hroot, hcur⟩ := h.user_cur hu
  obtain ⟨hva, hcase⟩ := hop
  by_cases hcow : write = true ∧ cowPage m.paging m.cur.pml4 va = true
  · -- a copy-on-write page : the reference has it already
    obtain ⟨rfl, hcow⟩ := hcow
    unfold Machine.pageFault at hs
    simp only [if_true] at hs
    have hok' : (pagingHandleCowFault m.paging m.cur.pml4 va).2.outOfFrames = false := by
      by_contra hout
      rw [Bool.not_eq_false] at hout
      have hdemand := demandPage_outOfFrames (m.setPaging _) hout va tmp
      split_ifs at hs with h₁ h₂
      · rw [Option.some.injEq, Prod.mk.injEq] at hs
        rw [← hs.2] at hok
        exact Bool.noConfusion (hok.symm.trans hout)
      · rw [Option.some.injEq, Prod.mk.injEq] at hs
        rw [← hs.2, hdemand] at hok
        exact Bool.noConfusion hok
      · rw [userFault_paging _ hs, hdemand] at hok
        exact Bool.noConfusion hok
    obtain ⟨hdone, hsim, g, htr⟩ := h.sim.cowFault hroot hva hcow hok'
    have hpage : (R m.current).pageAt va = some _ := (hsim.store hroot hva htr).1
    rw [if_pos hdone, Option.some.injEq, Prod.mk.injEq] at hs
    obtain ⟨_, rfl⟩ := hs
    unfold deepStep
    simp only [hpage]
    exact ⟨hsim, h.idle, h.cr3, h.running⟩
  · obtain ⟨hvma, htr⟩ := hcase.resolve_left hcow
    obtain ⟨v, hv⟩ := Option.isSome_iff_exists.mp hvma
    have hrefused : (if write then pagingHandleCowFault m.paging m.cur.pml4 va
        else (false, m.paging)) = (false, m.paging) := by
      cases write with
      | false => rfl
      | true =>
        refine h.sim.cowFault_refused hroot ?_
        simpa using hcow
    unfold Machine.pageFault at hs
    simp only [hrefused, Bool.false_eq_true, if_false] at hs
    have hnone := h.pageAt_eq_none hu hva htr
    have hdemand : m.demandPage va tmp = ((loadPage m.cur.pml4 (pageDown va) (regionFlags v)
        (regionFill v tmp va) m.paging).1, m.setPaging (loadPage m.cur.pml4 (pageDown va)
          (regionFlags v) (regionFill v tmp va) m.paging).2) := by
      unfold demandPage
      rw [hv, hcur]
    obtain ⟨mode, hmode⟩ : ∃ mode : Mode, regionFlags v = mode.flags := by
      unfold regionFlags
      split
      · exact ⟨.writable, rfl⟩
      · exact ⟨.fixed, rfl⟩
    have hself : m.setPaging m.paging = m := rfl
    rw [hself, hdemand, hmode] at hs
    have hok' : (loadPage m.cur.pml4 (pageDown va) mode.flags (regionFill v tmp va)
        m.paging).2.outOfFrames = false := by
      split_ifs at hs with h₁
      · rw [Option.some.injEq, Prod.mk.injEq] at hs
        rw [← hs.2] at hok
        exact hok
      · rw [userFault_paging _ hs] at hok
        exact hok
    obtain ⟨hdone, hsim⟩ := h.sim.loadPage hroot hva.pageDown.at
      ((Pages.pageAt_pageDown (R m.current) va).trans hnone) mode hok'
    simp only [if_pos hdone] at hs
    rw [Option.some.injEq, Prod.mk.injEq] at hs
    obtain ⟨_, rfl⟩ := hs
    unfold deepStep
    simp only [hnone, hv]
    rw [spacesOf_setPage] at hsim
    exact ⟨hsim, h.idle, h.cr3, h.running⟩

end Memory

/-- `sys_mmap` maps no page. -/
theorem mmap (h : m.Ok b R) (length protFlags pathPtr : UInt64)
    (path : Option (CString sysIoPathMax)) : (m.sysMmap length protFlags pathPtr path).2.Ok b R := by
  unfold sysMmap
  simp only
  split
  · exact h
  · split
    · exact h
    · split
      · exact h.setCur rfl rfl
      · split
        · exact h.setCur rfl rfl
        · exact h.setCur rfl rfl

/-- Every step keeps the machine and the reference together. -/
theorem step (h : m.Ok b R) (hb : KernelTables b) {op : ProcOp} (hop : m.StepOk op)
    (hframes : m.FramesLast op) (hs : m.step op = some m') : m'.Ok b (deepStep m R op) := by
  have hok := hframes m' hs
  unfold Machine.step at hs
  rw [Option.map_eq_some_iff] at hs
  obtain ⟨⟨rsp, m''⟩, hs, rfl⟩ := hs
  have hsame : ∀ {n : Machine}, n.paging = m.paging → n.tasks = m.tasks → n.current = m.current →
      n.cr3 = m.cr3 → n.Ok b R := by
    intro n hp ht hc h3
    exact h.congr hp (fun i => by rw [ht]) (fun i => by rw [ht]) hc h3
  cases op with
  | elfExec file ticks =>
    simp only [dispatch, Option.some.injEq, Prod.mk.injEq] at hs
    obtain ⟨_, rfl⟩ := hs
    exact h.elfExec hb hop hok
  | kernelElfExec file =>
    simp only [dispatch, Option.some.injEq, Prod.mk.injEq] at hs
    obtain ⟨_, rfl⟩ := hs
    exact h.kernelElfExec hb hop hok
  | schedule =>
    simp only [dispatch, Option.some.injEq, Prod.mk.injEq] at hs
    obtain ⟨_, rfl⟩ := hs
    exact hsame rfl rfl rfl rfl
  | setPriority pid priority =>
    simp only [dispatch, Option.some.injEq, Prod.mk.injEq] at hs
    obtain ⟨_, rfl⟩ := hs
    exact hsame rfl rfl rfl rfl
  | setQuantum quantumMs =>
    simp only [dispatch, Option.some.injEq, Prod.mk.injEq] at hs
    obtain ⟨_, rfl⟩ := hs
    exact hsame rfl rfl rfl rfl
  | timer frame =>
    simp only [dispatch, Option.some.injEq] at hs
    rw [← congrArg Prod.snd hs]
    exact h.timer frame
  | store va v =>
    obtain ⟨hu, hs⟩ := Option.ite_none_right_eq_some.mp hs
    obtain ⟨f, htr, he⟩ := Option.map_eq_some_iff.mp hs
    rw [← congrArg Prod.snd he]
    exact h.store hu htr
  | pageFault va write tmp =>
    obtain ⟨hu, hs⟩ := Option.ite_none_right_eq_some.mp hs
    obtain ⟨_, hs⟩ := Option.ite_none_right_eq_some.mp hs
    exact h.pageFault hu hop hs hok
  | exception => exact hop.elim
  | exit exitCode =>
    obtain ⟨_, hs⟩ := Option.ite_none_right_eq_some.mp hs
    exact h.exit hs
  | kill dstPid sig =>
    obtain ⟨_, hs⟩ := Option.ite_none_right_eq_some.mp hs
    simp only [userStep, Option.some.injEq, Prod.mk.injEq] at hs
    obtain ⟨_, rfl⟩ := hs
    exact h.kill dstPid sig
  | fork frame =>
    obtain ⟨hu, hs⟩ := Option.ite_none_right_eq_some.mp hs
    simp only [userStep, Option.some.injEq, Prod.mk.injEq] at hs
    obtain ⟨_, rfl⟩ := hs
    exact h.fork hb hu hok
  | execve file =>
    obtain ⟨hu, hs⟩ := Option.ite_none_right_eq_some.mp hs
    simp only [userStep, Option.some.injEq, Prod.mk.injEq] at hs
    obtain ⟨_, rfl⟩ := hs
    exact h.execve hb hu hop hok
  | sbrk increment =>
    obtain ⟨hu, hs⟩ := Option.ite_none_right_eq_some.mp hs
    simp only [userStep, Option.some.injEq, Prod.mk.injEq] at hs
    obtain ⟨_, rfl⟩ := hs
    exact h.sbrk hu hop hok
  | mmap length protFlags pathPtr path =>
    obtain ⟨_, hs⟩ := Option.ite_none_right_eq_some.mp hs
    simp only [userStep, Option.some.injEq, Prod.mk.injEq] at hs
    obtain ⟨_, rfl⟩ := hs
    exact h.mmap length protFlags pathPtr path
  | munmap addr =>
    obtain ⟨_, hs⟩ := Option.ite_none_right_eq_some.mp hs
    simp only [userStep, Option.some.injEq, Prod.mk.injEq] at hs
    obtain ⟨_, rfl⟩ := hs
    unfold sysMunmap
    split
    · exact h
    · exact h.setCur rfl rfl
  | getpid =>
    obtain ⟨_, hs⟩ := Option.ite_none_right_eq_some.mp hs
    simp only [userStep, Option.some.injEq, Prod.mk.injEq] at hs
    obtain ⟨_, rfl⟩ := hs
    exact h
  | yield =>
    obtain ⟨_, hs⟩ := Option.ite_none_right_eq_some.mp hs
    simp only [userStep, Option.some.injEq, Prod.mk.injEq] at hs
    obtain ⟨_, rfl⟩ := hs
    exact h.setCur rfl rfl
  | setuid rbx =>
    obtain ⟨_, hs⟩ := Option.ite_none_right_eq_some.mp hs
    simp only [userStep, Option.some.injEq, Prod.mk.injEq] at hs
    obtain ⟨_, rfl⟩ := hs
    unfold sysSetuid
    simp only
    split
    · exact h.setCur rfl rfl
    · exact h
  | setgid rbx =>
    obtain ⟨_, hs⟩ := Option.ite_none_right_eq_some.mp hs
    simp only [userStep, Option.some.injEq, Prod.mk.injEq] at hs
    obtain ⟨_, rfl⟩ := hs
    unfold sysSetgid
    simp only
    split
    · exact h.setCur rfl rfl
    · exact h

end Ok

end Machine

end VernisOS
