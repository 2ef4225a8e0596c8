import VernisOS.Boot
import VernisOS.TaskSlots

/-!
# Context switches

Three paths of `interrupt_dispatch` go over to another task : the timer, `SYS_EXIT` and the end
of a user fault. The first two set `current_task_idx`, `kernel_tss.rsp[0]` and CR3 together, and
`SYS_EXIT` takes the page tables from the slot before it frees them. The third sets the index
alone : CR3 and the slot keep the page tables of the dead task, and the next entry from user
code lands on its kernel stack. A switch is consistent exactly if it is none of the third kind
(`context_switch`).
-/

open Run

namespace VernisOS

namespace Machine

/-! ## Consistency -/

/-- No slot that is not active has page tables. -/
def NoOrphans (m : Machine) : Prop :=
  ∀ i, (m.tasks i).active = false → (m.tasks i).pml4 = 0

/-- No two tasks share their page tables. -/
def Distinct (m : Machine) : Prop :=
  ∀ i j, i ≠ j → m.IsUser i → m.IsUser j → (m.tasks i).pml4 ≠ (m.tasks j).pml4

/-- `interrupt_dispatch` goes from `m` over to a task and returns `rsp`. -/
structure Switched (m : Machine) (rsp : UInt64) (m' : Machine) : Prop where
  active : m'.cur.active = true
  saved : rsp = m'.cur.rsp
  cr3 : m'.cr3 = m'.root m'.current
  tss : m'.tssRsp0 = m'.stackTop m'.current
  owners : m'.NoOrphans
  dead : ∀ i, m.IsUser i → (m'.tasks i).active = false → m'.cr3 ≠ (m.tasks i).pml4

/-- The events in which `interrupt_dispatch` may go over to another task. -/
def MaySwitch : ProcOp → Prop
  | .timer _ => True
  | .exit _ => True
  | .exception => True
  | .pageFault _ _ _ => True
  | _ => False

/-- A stack pointer that the event returns is one of a consistent switch. -/
def SwitchOk (m : Machine) (op : ProcOp) : Prop :=
  ∀ rsp m', MaySwitch op → m.dispatch op = some (rsp, m') → rsp ≠ 0 → Switched m rsp m'

/-- The task that goes on if the running one dies. -/
def survivor (m : Machine) : Option (Fin 8) :=
  (m.setCur { m.cur with active := false }).nextTask

/-- The event is a fault that ends the running task while another one is active. -/
def FatalFault (m : Machine) (op : ProcOp) : Prop :=
  m.Unresolved op ∧ m.survivor ≠ none

/-- The event is a fault that ends the running task, and another one is to go on from the stack
pointer that it has saved. -/
def FatalSwitch (m : Machine) (op : ProcOp) : Prop :=
  m.Unresolved op ∧ ∃ next, m.survivor = some next ∧ (m.tasks next).rsp ≠ 0

/-- The slot that gets a new address space. -/
def spaceSlot (m : Machine) : ProcOp → Option (Fin 8)
  | .elfExec _ _ => m.freeSlot
  | .kernelElfExec _ => m.freeSlot
  | .fork _ => m.freeSlot
  | .execve _ => some m.current
  | _ => none

/-- The frame for a new PML4 is not the PML4 of a task. -/
def FreshSpace (m : Machine) (op : ProcOp) : Prop :=
  m.spaceSlot op ≠ none → ∀ i, m.IsUser i → (m.tasks i).pml4 ≠ m.newSpace

/-! ## The owners of page tables -/

/-- Whose page tables an active slot has after an event. -/
theorem SlotChange.space {m : Machine} {op : ProcOp} {j : Fin 8} {t : TaskSlot}
    (h : SlotChange m op j t) (hact : t.active = true) :
    (m.tasks j).active = true ∧ t.pml4 = (m.tasks j).pml4 ∨
      t.pml4 = m.newSpace ∧ m.spaceSlot op = some j := by
  cases h with
  | same => exact Or.inl ⟨hact, rfl⟩
  | update hj hactive _ hpml4 _ _ =>
    subst hj
    exact Or.inl ⟨hactive ▸ hact, hpml4⟩
  | execve file hop hj _ _ _ _ hpml4 _ =>
    subst hop hj
    exact Or.inr ⟨hpml4, rfl⟩
  | setuid rbx _ hj _ =>
    subst hj
    exact Or.inl ⟨hact, rfl⟩
  | setgid rbx _ hj _ =>
    subst hj
    exact Or.inl ⟨hact, rfl⟩
  | exit _ _ _ => cases hact
  | kill _ _ _ _ => cases hact
  | fault _ _ => cases hact
  | load hop hslot _ _ hnew =>
    refine Or.inr ⟨hnew hact, ?_⟩
    cases op with
    | elfExec file ticks => exact hslot
    | kernelElfExec file => exact hslot
    | _ => exact hop.elim
  | fork frame hop hslot _ _ _ hnew _ _ =>
    subst hop
    exact Or.inr ⟨hnew hact, hslot⟩

theorem NoOrphans.step {m m' : Machine} {op : ProcOp} (h : m.NoOrphans) (hop : ¬ m.Unresolved op)
    (hstep : m.step op = some m') : m'.NoOrphans := by
  intro j hj
  have hchange := step_slot hstep j
  generalize m'.tasks j = t at hchange hj ⊢
  cases hchange with
  | same => exact h j hj
  | update hj' hactive _ hpml4 _ _ =>
    rw [hpml4]
    exact h m.current (hactive ▸ hj)
  | execve _ _ _ hactive _ _ _ _ huser =>
    have htrue : m.cur.active = true := huser.1
    rw [hactive, htrue] at hj
    cases hj
  | setuid _ _ _ _ => exact h m.current hj
  | setgid _ _ _ _ => exact h m.current hj
  | exit _ _ _ => rfl
  | kill _ _ _ _ => rfl
  | fault hfault _ => exact absurd hfault hop
  | load _ hslot _ hpml4 _ =>
    rw [hpml4 hj]
    exact h j (freeSlot_inactive hslot)
  | fork _ _ _ _ _ hpml4 _ _ _ => exact hpml4 hj

theorem Distinct.step {m m' : Machine} {op : ProcOp} (h : m.Distinct) (hop : m.FreshSpace op)
    (hstep : m.step op = some m') : m'.Distinct := by
  have hkernel := (step_paging hstep).kernelPml4
  have huser : ∀ i, (m.tasks i).active = true → (m'.tasks i).pml4 = (m.tasks i).pml4 →
      m'.IsUser i → m.IsUser i := by
    intro i hact he hi
    refine ⟨hact, ?_, ?_⟩
    · rw [← he]
      exact hi.2.1
    · rw [← he, ← hkernel]
      exact hi.2.2
  intro i j hij hi hj heq
  rcases (step_slot hstep i).space hi.1 with ⟨hai, hei⟩ | ⟨hei, hsi⟩ <;>
    rcases (step_slot hstep j).space hj.1 with ⟨haj, hej⟩ | ⟨hej, hsj⟩
  · refine h i j hij (huser i hai hei hi) (huser j haj hej hj) ?_
    rw [← hei, heq, hej]
  · refine hop (by rw [hsj]; simp) i (huser i hai hei hi) ?_
    rw [← hei, heq, hej]
  · refine hop (by rw [hsi]; simp) j (huser j haj hej hj) ?_
    rw [← hej, ← heq, hei]
  · rw [hsi] at hsj
    exact hij (Option.some.inj hsj)

/-! ## One event -/

theorem nextTask_active {m : Machine} {next : Fin 8} (h : m.nextTask = some next) :
    (m.tasks next).active = true := by
  simpa using List.find?_some h

theorem preempt_switch {m m' : Machine} {rsp : UInt64} (h : m.preempt = (rsp, m'))
    (hrsp : rsp ≠ 0) : ∃ next, (m.tasks next).active = true ∧ rsp = (m.tasks next).rsp ∧
      m' = m.switchTo next := by
  unfold preempt at h
  split at h
  · cases h
    exact absurd rfl hrsp
  · rename_i next hnext
    split at h
    · cases h
      exact ⟨next, nextTask_active hnext, rfl, rfl⟩
    · cases h
      exact absurd rfl hrsp

theorem timer_active (m : Machine) (frame : UInt64) (i : Fin 8) :
    ((m.timer frame).2.tasks i).active = (m.tasks i).active := by
  have hchange := m.slot_timer frame .getpid i
  generalize (m.timer frame).2.tasks i = t at hchange ⊢
  cases hchange with
  | same => rfl
  | update hj hactive _ _ _ _ =>
    subst hj
    exact hactive
  | load hop _ _ _ _ => exact hop.elim
  | fault hop _ => exact hop.elim
  | execve _ hop => cases hop
  | setuid _ hop => cases hop
  | setgid _ hop => cases hop
  | exit _ hop => cases hop
  | kill _ _ hop => cases hop
  | fork _ hop => cases hop

theorem timer_switched {m m' : Machine} {frame rsp : UInt64} (h : m.timer frame = (rsp, m'))
    (hrsp : rsp ≠ 0) (horphans : m'.NoOrphans) : Switched m rsp m' := by
  have hdead : ∀ i, m.IsUser i → (m'.tasks i).active = false → m'.cr3 ≠ (m.tasks i).pml4 := by
    intro i hi hfalse
    have hactive := m.timer_active frame i
    rw [h, hi.1, hfalse] at hactive
    cases hactive
  unfold timer at h
  dsimp only at h
  split at h
  · obtain ⟨next, hactive, hsaved, rfl⟩ := preempt_switch h hrsp
    exact ⟨hactive, hsaved, rfl, rfl, horphans, hdead⟩
  · cases h
    exact absurd rfl hrsp

theorem update_dead_active {m : Machine} {next : Fin 8} {t : TaskSlot} (ht : t.active = false)
    (h : (Function.update m.tasks m.current t next).active = true) :
    next ≠ m.current ∧ Function.update m.tasks m.current t next = m.tasks next := by
  have hne : next ≠ m.current := by
    rintro rfl
    rw [Function.update_self, ht] at h
    cases h
  exact ⟨hne, Function.update_of_ne hne t m.tasks⟩

/-- The page tables of a task are not those of another one. -/
theorem Distinct.root_ne {m : Machine} (h : m.Distinct) (huser : m.IsUser m.current) {next : Fin 8}
    (hne : next ≠ m.current) (hactive : (m.tasks next).active = true) :
    m.root next ≠ m.cur.pml4 := by
  unfold root
  split
  · exact fun he => huser.2.2 he.symm
  · rename_i hzero
    intro he
    refine h next m.current hne ⟨hactive, hzero, ?_⟩ huser he
    rw [he]
    exact huser.2.2

theorem sysExit_switched {m m' : Machine} {exitCode : Int} {rsp : UInt64}
    (h : m.sysExit exitCode = some (rsp, m')) (huser : m.IsUser m.current) (hdist : m.Distinct)
    (horphans : m'.NoOrphans) : Switched m rsp m' := by
  unfold sysExit at h
  dsimp only at h
  split at h
  · cases h
  · rename_i next hnext
    set n := (m.setSched (m.sched.terminatePid m.cur.pid.toNat exitCode)).setCur m.cur.dead with hn
    obtain ⟨hrsp, rfl⟩ := Prod.mk.inj (Option.some.inj h)
    obtain ⟨hne, he⟩ := update_dead_active rfl (nextTask_active hnext)
    have htask : n.tasks next = m.tasks next := he
    have hactive := nextTask_active hnext
    rw [htask] at hactive
    have hroot : n.root next = m.root next := by
      unfold root
      rw [htask]
      rfl
    have hkernel : ((n.switchTo next).release m.cur.pml4).paging.kernelPml4 = n.paging.kernelPml4 :=
      (paging_release (PagingSteps.refl (n.switchTo next).paging) m.cur.pml4).kernelPml4
    refine ⟨?_, hrsp.symm, ?_, rfl, horphans, fun i hi hdead => ?_⟩
    · change (n.tasks next).active = true
      exact nextTask_active hnext
    · change n.root next = _
      unfold root
      rw [hkernel]
      rfl
    · have hcur : i = m.current := by
        by_contra hcur
        have hsame : n.tasks i = m.tasks i := Function.update_of_ne hcur _ m.tasks
        change (n.tasks i).active = false at hdead
        rw [hsame, hi.1] at hdead
        cases hdead
      subst hcur
      change n.root next ≠ _
      rw [hroot]
      exact hdist.root_ne huser hne hactive

/-- A fault that nothing resolves : the task that goes on and the stack pointer it has saved. -/
theorem unresolved_dispatch {m : Machine} {op : ProcOp} (hop : m.Unresolved op) :
    (m.survivor = none → m.dispatch op = none) ∧
      ∀ next, m.survivor = some next → ∃ m', m.dispatch op = some ((m.tasks next).rsp, m') ∧
        m'.tasks m.current = { m.cur with active := false } := by
  have hfault : ∀ paging : PagingState,
      (m.survivor = none → (m.setPaging paging).userFault = none) ∧
      ∀ next, m.survivor = some next → ∃ m',
        (m.setPaging paging).userFault = some ((m.tasks next).rsp, m') ∧
          m'.tasks m.current = { m.cur with active := false } := by
    intro paging
    have hnext : (((m.setPaging paging).setSched (m.setPaging paging).faultSched).setCur
        { (m.setPaging paging).cur with active := false }).nextTask = m.survivor := rfl
    rw [userFault_eq, hnext]
    refine ⟨fun hs => by rw [hs], fun next hs => ?_⟩
    rw [hs]
    obtain ⟨-, he⟩ := update_dead_active rfl (nextTask_active hs)
    set n := ((m.setPaging paging).setSched (m.setPaging paging).faultSched).setCur
      { (m.setPaging paging).cur with active := false } with hn
    refine ⟨{ n with current := next }, ?_, Function.update_self _ _ m.tasks⟩
    change some ((Function.update m.tasks m.current { m.cur with active := false } next).rsp, _) = _
    rw [he]
  cases op with
  | exception =>
    have hdispatch : m.dispatch .exception = (m.setPaging m.paging).userFault := if_pos hop
    rw [hdispatch]
    exact hfault m.paging
  | pageFault va write tmp =>
    obtain ⟨huser, hmmu, hcow, hdemand⟩ := hop
    obtain ⟨paging, he⟩ := m.cowAttempt_demandPage va write tmp
    have hdispatch : m.dispatch (.pageFault va write tmp) = (m.setPaging paging).userFault := by
      refine (if_pos huser).trans ((if_pos hmmu).trans ?_)
      rw [pageFault_eq, hcow, hdemand, he]
      rfl
    rw [hdispatch]
    exact hfault paging
  | _ => exact hop.elim

/-- A fault that is resolved returns to the task. -/
theorem resolved_dispatch {m m' : Machine} {op : ProcOp} {rsp : UInt64} (hop : ¬ m.Unresolved op)
    (h : m.dispatch op = some (rsp, m')) (hfault : op = .exception ∨ ∃ va write tmp,
      op = .pageFault va write tmp) : rsp = 0 := by
  rcases hfault with rfl | ⟨va, write, tmp, rfl⟩
  · exact absurd (Option.ite_none_right_eq_some.mp h).1 hop
  · obtain ⟨huser, h⟩ := Option.ite_none_right_eq_some.mp h
    obtain ⟨hmmu, h⟩ := Option.ite_none_right_eq_some.mp h
    rw [pageFault_eq] at h
    split at h
    · cases h
      rfl
    · rename_i hcow
      split at h
      · cases h
        rfl
      · rename_i hdemand
        exact absurd ⟨huser, hmmu, by simpa using hcow, by simpa using hdemand⟩ hop

/-- A switch is consistent exactly if it is not the end of a user fault. -/
theorem switchOk_iff {m : Machine} (horphans : m.NoOrphans) (hdist : m.Distinct) (op : ProcOp) :
    m.SwitchOk op ↔ ¬ m.FatalSwitch op := by
  constructor
  · rintro h ⟨hop, next, hnext, hrsp⟩
    obtain ⟨m', hdispatch, htask⟩ := (unresolved_dispatch hop).2 next hnext
    have hmay : MaySwitch op := by
      cases op with
      | exception => trivial
      | pageFault _ _ _ => trivial
      | _ => exact hop.elim
    have huser : m.IsUser m.current := by
      cases op with
      | exception => exact hop
      | pageFault _ _ _ => exact hop.1
      | _ => exact hop.elim
    have howner := (h _ m' hmay hdispatch hrsp).owners m.current (by rw [htask])
    rw [htask] at howner
    exact huser.2.1 howner
  · intro hfatal rsp m' hmay hdispatch hrsp
    by_cases hop : m.Unresolved op
    · cases hs : m.survivor with
      | none =>
        rw [(unresolved_dispatch hop).1 hs] at hdispatch
        cases hdispatch
      | some next =>
        obtain ⟨n, hn, -⟩ := (unresolved_dispatch hop).2 next hs
        rw [hn] at hdispatch
        cases hdispatch
        exact absurd ⟨hop, next, hs, hrsp⟩ hfatal
    · have hm' : m'.NoOrphans := horphans.step hop (by rw [step, hdispatch]; rfl)
      cases op with
      | timer frame => exact timer_switched (Option.some.inj hdispatch) hrsp hm'
      | exit exitCode =>
        obtain ⟨huser, hexit⟩ := Option.ite_none_right_eq_some.mp hdispatch
        exact sysExit_switched hexit huser hdist hm'
      | exception => exact absurd (resolved_dispatch hop hdispatch (Or.inl rfl)) hrsp
      | pageFault va write tmp =>
        exact absurd (resolved_dispatch hop hdispatch (Or.inr ⟨va, write, tmp, rfl⟩)) hrsp
      | _ => exact hmay.elim

end Machine

/-! ## Runs -/

/-- In a run from boot in which no fault ends a task while another one is active, and no frame
that is the PML4 of a task becomes one again, every switch is consistent; in every state of it
exactly the ends of user faults are not. -/
theorem context_switch (m : Machine) (hboot : m.Booted) (ops : List ProcOp)
    (hrun : Along Machine.step (fun m op => ¬ m.FatalFault op ∧ m.FreshSpace op) m ops) :
    Along Machine.step Machine.SwitchOk m ops ∧
      After Machine.step (fun m => ∀ op, m.SwitchOk op ↔ ¬ m.FatalSwitch op) m ops := by
  have hstep : ∀ (m : Machine) op m', m.NoOrphans ∧ m.Distinct →
      ¬ m.FatalFault op ∧ m.FreshSpace op → m.step op = some m' → m'.NoOrphans ∧ m'.Distinct := by
    rintro m op m' ⟨horphans, hdist⟩ ⟨hfatal, hfresh⟩ hm'
    refine ⟨horphans.step (fun hop => hfatal ⟨hop, fun hs => ?_⟩) hm', hdist.step hfresh hm'⟩
    rw [Machine.step, (Machine.unresolved_dispatch hop).1 hs] at hm'
    cases hm'
  have hstart : m.NoOrphans ∧ m.Distinct := by
    refine ⟨fun i hi => ?_, fun i j _ hi _ => ?_⟩
    · rcases hboot.slots i with h0 | ⟨hactive, -⟩
      · exact h0
      · rw [hi] at hactive
        cases hactive
    · rcases hboot.slots i with h0 | ⟨-, hkernel⟩
      · exact absurd h0 hi.2.1
      · exact absurd hkernel hi.2.2
  refine ⟨Along.mono_inv hstep ?_ ops m hstart hrun,
    After.mono (fun m h op => Machine.switchOk_iff h.1 h.2 op) ops m
      (After.of_along hstep ops m hstart hrun)⟩
  rintro m op ⟨horphans, hdist⟩ ⟨hfatal, -⟩
  refine (Machine.switchOk_iff horphans hdist op).mpr ?_
  rintro ⟨hop, next, hnext, -⟩
  exact hfatal ⟨hop, by rw [hnext]; simp⟩

/-- The timer ends the slice of the first task. -/
theorem context_switch_timer :
    Along Machine.step Machine.SwitchOk bootMachine [.timer 0x30BF00] := by
  refine (context_switch bootMachine bootMachine_booted [.timer 0x30BF00]
    ⟨⟨?_, ?_⟩, fun _ _ => trivial⟩).1
  · exact fun h => h.1
  · exact fun h => absurd rfl h

/-- User code runs, and the first task of the kernel has saved its stack pointer. -/
def faultMachine : Machine :=
  userMachine.setTask 0 { kernelSlot 1 24 with rsp := 0x303F00 }

/-- An exception of the user task : the kernel's task goes on with the page tables and the
kernel stack of the dead one. -/
theorem not_context_switch_fault : ¬ faultMachine.SwitchOk .exception := by
  intro h
  have huser : faultMachine.IsUser faultMachine.current := by
    refine ⟨?_, ?_, ?_⟩ <;> decide
  have hnext : faultMachine.survivor = some 0 := by decide
  obtain ⟨m', hdispatch, htask⟩ :=
    (Machine.unresolved_dispatch (m := faultMachine) (show Machine.Unresolved faultMachine .exception from huser)).2 0 hnext
  have howner := (h _ m' trivial hdispatch (by decide)).owners faultMachine.current
    (by rw [htask])
  rw [htask] at howner
  exact huser.2.1 howner

end VernisOS
