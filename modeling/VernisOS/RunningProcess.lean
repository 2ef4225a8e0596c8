import VernisOS.ContextSwitch
import VernisOS.ForkRefinement
import VernisOS.SchedulerRuns

/-!
# The process that runs

The slot table and the process table each have a cursor, `current_task_idx` and `current_pid`, and
only `scheduler_schedule` moves the second one. `SYS_EXIT` ends the process of the running slot,
but `SYS_GETPID` and the end of a user fault take the process under the other cursor, and the
second calls `scheduler_schedule` after it. The kernel acts on the running process in a run in
which the cursor is there at each of these two, and in which nothing is scheduled after a fault
(`acts_on_running`).
-/

open Run

namespace VernisOS

/-! ## The states of processes -/

namespace Scheduler

/-- The process is in the table and has not ended. -/
def Alive (s : Scheduler) (pid : ℕ) : Prop :=
  ∃ p, s.processes pid = some p ∧ p.state ≠ .terminated

/-- The two tables have the same processes in the same states, and one cursor. -/
structure SameStates (s s' : Scheduler) : Prop where
  states : ∀ pid, s'.stateOf pid = s.stateOf pid
  cursor : s'.currentPid = s.currentPid
  next : s'.nextPid = s.nextPid

theorem alive_iff {s : Scheduler} {pid : ℕ} :
    s.Alive pid ↔ ∃ st, s.stateOf pid = some st ∧ st ≠ .terminated := by
  constructor
  · rintro ⟨p, hp, hlive⟩
    exact ⟨p.state, stateOf_some hp, hlive⟩
  · rintro ⟨st, hst, hlive⟩
    obtain ⟨p, hp, rfl⟩ := stateOf_eq hst
    exact ⟨p, hp, hlive⟩

theorem Alive.lt {s : Scheduler} {pid : ℕ} (h : s.Alive pid) : pid < s.nextPid := by
  obtain ⟨p, hp, -⟩ := h
  by_contra hge
  rw [s.bounded pid (not_lt.mp hge)] at hp
  cases hp

theorem SameStates.alive {s s' : Scheduler} (h : SameStates s s') {pid : ℕ} :
    s'.Alive pid ↔ s.Alive pid := by
  rw [alive_iff, alive_iff, h.states]

theorem SameStates.refl (s : Scheduler) : SameStates s s :=
  ⟨fun _ => rfl, rfl, rfl⟩

/-- A change of what is not the state of a process. -/
theorem sameStates_modifyPid (s : Scheduler) (pid : ℕ)
    {f : ProcessControlBlock → ProcessControlBlock} (hf : ∀ p, (f p).state = p.state) :
    SameStates s (s.modifyPid pid f) := by
  refine ⟨fun k => ?_, rfl, rfl⟩
  unfold stateOf
  by_cases hk : k = pid
  · subst hk
    rw [modifyPid_self, Option.map_map]
    congr 1
    exact funext hf
  · rw [modifyPid_of_ne s hk]

theorem sameStates_setQuantum (s : Scheduler) (quantumMs : UInt32) :
    SameStates s (s.setQuantum quantumMs) := by
  refine ⟨fun k => ?_, rfl, rfl⟩
  change ((s.processes k).map _).map _ = _
  rw [Option.map_map]
  rfl

/-- What ends one process leaves the others alone. -/
theorem stateOf_modifyPid_of_ne (s : Scheduler) {pid k : ℕ} (h : k ≠ pid)
    (f : ProcessControlBlock → ProcessControlBlock) :
    (s.modifyPid pid f).stateOf k = s.stateOf k := by
  rw [stateOf, modifyPid_of_ne s h, stateOf]

theorem stateOf_terminate {s : Scheduler} {pid : ℕ} (h : s.Alive pid) (exitCode : Int) :
    (s.modifyPid pid fun p => p.terminate exitCode).stateOf pid = some .terminated := by
  obtain ⟨p, hp, -⟩ := h
  rw [stateOf, modifyPid_self, hp]
  rfl

/-- `schedule` ends no process. -/
theorem Alive.schedule {s : Scheduler} {pid : ℕ} (h : s.Alive pid) (hz now : ℕ) :
    (s.schedule hz now).Alive pid := by
  obtain ⟨p, hp, hlive⟩ := h
  obtain ⟨q, hq, -, hexp⟩ := expire_some hz now hp
  obtain ⟨p', hp', -, hstate⟩ := schedule_some hq
  have hq' : q.state ≠ .terminated := by
    rcases hexp with ⟨-, -, hst⟩ | ⟨-, rfl⟩
    · rw [hst]
      decide
    · exact hlive
  refine ⟨p', hp', ?_⟩
  rcases hstate with hst | ⟨-, hst⟩ | ⟨-, hst⟩
  · rw [hst]
    exact hq'
  · rw [hst]
    decide
  · rw [hst]
    decide

theorem stateOf_schedule_none {s : Scheduler} {pid : ℕ} (h : s.stateOf pid = none) (hz now : ℕ) :
    (s.schedule hz now).stateOf pid = none := by
  rw [stateOf, Option.map_eq_none_iff] at h ⊢
  exact schedule_none h

/-- The cursor is taken away, or put on a process that is there. -/
theorem cursor_schedule (s : Scheduler) (hz now : ℕ) {c : ℕ}
    (h : (s.schedule hz now).currentPid = some c) : c < s.nextPid := by
  rcases (s.expire hz now).pick_cases with ⟨hpick, -⟩ | ⟨n, r, hpick, hr, -, -⟩
  · rw [(schedule_idle hpick).1] at h
    cases h
  · have hn : (s.schedule hz now).currentPid = some n := by
      unfold schedule
      dsimp only
      rw [hpick]
    rw [hn] at h
    cases h
    by_contra hge
    rw [expire_none hz now (s.bounded _ (not_lt.mp hge))] at hr
    cases hr

theorem nextPid_schedule (s : Scheduler) (hz now : ℕ) :
    (s.schedule hz now).nextPid = s.nextPid := by
  have hexpire : (s.expire hz now).nextPid = s.nextPid := by
    unfold expire
    split <;> rfl
  unfold schedule
  dsimp only
  split
  · exact hexpire
  · split
    · unfold leave
      split <;> exact hexpire
    · exact hexpire

/-- The process that `schedule` has found runs. -/
theorem schedule_picked {s : Scheduler} {hz now n : ℕ} {r : ProcessControlBlock}
    (hpick : (s.expire hz now).pick = some n) (hr : (s.expire hz now).processes n = some r) :
    (s.schedule hz now).stateOf n = some .running := by
  obtain ⟨r', hr'⟩ : ∃ r', (if (s.expire hz now).currentPid ≠ some n then (s.expire hz now).leave
      else s.expire hz now).processes n = some r' := by
    split
    · obtain ⟨r', hr', -⟩ := leave_some hr
      exact ⟨r', hr'⟩
    · exact ⟨r, hr⟩
  unfold schedule
  dsimp only
  rw [hpick]
  exact stateOf_some ((modifyPid_some hr' _).trans (by rw [if_pos rfl]))

/-- `schedule` after the process under the cursor is killed : it stays terminated and every other
process in its state exactly if it has time left and no other process is ready. -/
theorem killed_schedule_iff {s : Scheduler} {c : ℕ} {p : ProcessControlBlock}
    (hcur : s.currentPid = some c) (hp : s.processes c = some p) (hz now : ℕ) :
    ((s.killProcess c).schedule hz now).stateOf c = some .terminated ∧
        (∀ pid, pid ≠ c → ((s.killProcess c).schedule hz now).stateOf pid = s.stateOf pid) ↔
      ¬ p.Expired hz now ∧ ∀ pid q, pid ≠ c → s.processes pid = some q → q.state = .standby →
        q.cachedEffectivePriority = 0 := by
  have hkilled : (s.killProcess c).processes c = some (p.terminate 137) :=
    (modifyPid_some hp _).trans (by rw [if_pos rfl])
  have hother : ∀ pid, pid ≠ c → (s.killProcess c).processes pid = s.processes pid :=
    fun pid hne => modifyPid_of_ne s hne _
  have hcursor : (s.killProcess c).currentPid = some c := hcur
  have hexpired : (p.terminate 137).Expired hz now ↔ p.Expired hz now := Iff.rfl
  generalize s.killProcess c = k at *
  constructor
  · rintro ⟨hterm, hsame⟩
    have hleft : ¬ p.Expired hz now := by
      intro hexp
      obtain ⟨q, hq, -, ⟨-, -, hst⟩ | ⟨hno, -⟩⟩ := expire_some hz now hkilled
      · obtain ⟨p', hp', -, hcase⟩ := schedule_some hq
        rw [stateOf_some hp', Option.some.injEq] at hterm
        rw [hterm, hst] at hcase
        simp at hcase
      · exact hno ⟨hcursor, hexp⟩
    refine ⟨hleft, fun pid q hne hq hst => ?_⟩
    by_contra hpos
    have hready : (k.expire hz now).Ready := by
      refine (ready_expire hcursor hkilled hleft).mpr ⟨pid, q, (hother pid hne).trans hq, hst, ?_⟩
      rw [UInt8.lt_iff_toNat_lt]
      exact Nat.pos_of_ne_zero fun hzero => hpos (UInt8.toNat_inj.mp hzero)
    rcases (k.expire hz now).pick_cases with ⟨-, hno⟩ | ⟨n, r, hpick, hr, hstand, -⟩
    · exact hno hready
    -- the process that is found waited, and runs now
    obtain ⟨w, hw, -, hcase⟩ := expire_some hz now hkilled
    have hn : n ≠ c := by
      rintro rfl
      rw [hr] at hw
      cases hw
      rcases hcase with ⟨-, hexp, -⟩ | ⟨-, rfl⟩
      · exact hleft hexp
      · cases hstand
    have hrun := schedule_picked hpick hr
    obtain ⟨r', hr'⟩ : ∃ r', k.processes n = some r' := by
      cases hk : k.processes n with
      | none =>
        rw [expire_none hz now hk] at hr
        cases hr
      | some r' => exact ⟨r', rfl⟩
    obtain ⟨r'', hr'', -, ⟨hcur', -, -⟩ | ⟨-, rfl⟩⟩ := expire_some hz now hr'
    · rw [hcursor] at hcur'
      exact hn (Option.some.inj hcur').symm
    · rw [hr] at hr''
      cases hr''
      rw [hsame n hn, stateOf_some ((hother n hn).symm.trans hr'), hstand] at hrun
      cases hrun
  · rintro ⟨hleft, hnone⟩
    have hidle : ¬ k.Ready := by
      rintro ⟨pid, q, hq, hst, hpos⟩
      by_cases hpid : pid = c
      · subst hpid
        rw [hkilled] at hq
        cases hq
        cases hst
      · rw [hother pid hpid] at hq
        rw [hnone pid q hpid hq hst] at hpos
        exact absurd hpos (by decide)
    have hpick : (k.expire hz now).pick = none := by
      rcases (k.expire hz now).pick_cases with ⟨hpick, -⟩ | ⟨n, r, -, hr, hst, hpos⟩
      · exact hpick
      · exact absurd ((ready_expire hcursor hkilled hleft).mp ⟨n, r, hr, hst, hpos⟩) hidle
    have hkept : ∀ pid, (k.schedule hz now).stateOf pid = k.stateOf pid := by
      intro pid
      rw [stateOf, (schedule_idle hpick).2]
      cases hk : k.processes pid with
      | none => rw [expire_none hz now hk, stateOf, hk]
      | some q =>
        obtain ⟨q', hq', -, ⟨hcur', hexp, -⟩ | ⟨-, rfl⟩⟩ := expire_some hz now hk
        · rw [hcursor] at hcur'
          cases hcur'
          rw [hkilled] at hk
          cases hk
          exact absurd hexp hleft
        · rw [hq', stateOf, hk]
    refine ⟨?_, fun pid hne => ?_⟩
    · rw [hkept, stateOf_some hkilled]
      rfl
    · rw [hkept, stateOf, hother pid hne, stateOf]

end Scheduler

/-! ## What an event does to the process table -/

namespace Machine

/-- The event creates a process, if it finds a slot. -/
def IsCreate : ProcOp → Prop
  | .elfExec _ _ => True
  | .kernelElfExec _ => True
  | .fork _ => True
  | _ => False

/-- The ways in which an event may change the process table. -/
inductive SchedChange (m : Machine) (op : ProcOp) (m' : Machine) : Prop
  | same (hop : ¬ IsCreate op ∨ m'.tasks = m.tasks)
      (hsched : Scheduler.SameStates m.sched m'.sched)
  | create (hop : IsCreate op) (hsched : m'.sched = (m.sched.createProcess 5).2)
  | schedule (hop : op = .schedule) (hsched : m'.sched = m.sched.schedule timerHz m.ticks)
  | exit (exitCode : Int) (hop : op = .exit exitCode)
      (hsched : m'.sched = m.sched.terminatePid m.cur.pid.toNat exitCode)
      (hdead : (m'.tasks m.current).active = false)
  | kill (dstPid : UInt64) (sig : UInt8) (hop : op = .kill dstPid sig) (i : Fin 8)
      (hi : m.victim dstPid = some i)
      (hsched : m'.sched = (m.sched.signalSend dstPid.toNat sig).killProcess dstPid.toUInt32.toNat)
      (hdead : (m'.tasks i).active = false)
  | fault (hop : m.Unresolved op) (hsched : m'.sched = m.faultSched)
      (hdead : (m'.tasks m.current).active = false)

theorem SchedChange.of_sched {m m' : Machine} {op : ProcOp} (hop : ¬ IsCreate op)
    (h : m'.sched = m.sched) : SchedChange m op m' := by
  refine .same (Or.inl hop) ?_
  rw [h]
  exact .refl m.sched

theorem sched_elfExec (m : Machine) (file : ElfFile) (ticks : UInt16) :
    (m.elfExec file ticks).2 = m ∨
      (m.elfExec file ticks).2.sched = (m.sched.createProcess 5).2 := by
  unfold elfExec
  split
  · split
    · exact Or.inl rfl
    · right
      dsimp only
      split
      · rfl
      · split <;> rfl
  · exact Or.inl rfl

theorem schedChange_elfExec (m : Machine) (file : ElfFile) (ticks : UInt16) :
    SchedChange m (.elfExec file ticks) (m.elfExec file ticks).2 := by
  rcases m.sched_elfExec file ticks with h | h
  · rw [h]
    exact .same (Or.inr rfl) (.refl m.sched)
  · exact .create trivial h

theorem schedChange_kernelElfExec (m : Machine) (file : ElfFile) :
    SchedChange m (.kernelElfExec file) (m.kernelElfExec file).2 := by
  have h := m.sched_elfExec file 24
  have hkernel : (m.kernelElfExec file).2.sched = (m.elfExec file 24).2.sched ∧
      (m.kernelElfExec file).2.tasks = (m.elfExec file 24).2.tasks := by
    unfold kernelElfExec
    dsimp only
    split <;> exact ⟨rfl, rfl⟩
  rcases h with h | h
  · rw [h] at hkernel
    refine .same (Or.inr hkernel.2) ?_
    rw [hkernel.1]
    exact .refl m.sched
  · exact .create trivial (hkernel.1.trans h)

theorem schedChange_sysFork (m : Machine) (frame : UInt64) :
    SchedChange m (.fork frame) (m.sysFork frame).2 := by
  rcases m.sysFork_cases frame with ⟨-, h⟩ | ⟨slot, paging, -, -, -, h⟩ | ⟨slot, paging, -, -, -, h⟩
  · rw [h]
    exact .same (Or.inr rfl) (.refl m.sched)
  · rw [h]
    exact .create trivial rfl
  · rw [h]
    exact .create trivial rfl

theorem schedChange_sysExit {m : Machine} {exitCode : Int} {r : UInt64 × Machine}
    (h : m.sysExit exitCode = some r) : SchedChange m (.exit exitCode) r.2 := by
  unfold sysExit at h
  dsimp only at h
  split at h
  · cases h
  · cases h
    refine .exit exitCode rfl rfl ?_
    exact congrArg TaskSlot.active (Function.update_self m.current m.cur.dead m.tasks)

theorem schedChange_sysKill (m : Machine) (dstPid : UInt64) (sig : UInt8) :
    SchedChange m (.kill dstPid sig) (m.sysKill dstPid sig) := by
  have hsignal : Scheduler.SameStates m.sched (m.sched.signalSend dstPid.toNat sig) := by
    refine Scheduler.sameStates_modifyPid m.sched _ fun p => ?_
    unfold ProcessControlBlock.signalSend
    split <;> rfl
  unfold sysKill
  dsimp only
  split
  · split
    · exact .same (Or.inl id) hsignal
    · rename_i i hi
      refine .kill dstPid sig rfl i hi rfl ?_
      exact congrArg TaskSlot.active (Function.update_self i (m.tasks i).dead m.tasks)
  · exact .same (Or.inl id) hsignal

theorem schedChange_userFault {m : Machine} {op : ProcOp} {r : UInt64 × Machine}
    (hop : m.Unresolved op) {paging : PagingState}
    (h : (m.setPaging paging).userFault = some r) : SchedChange m op r.2 := by
  rw [userFault_eq] at h
  split at h
  · cases h
  · cases h
    refine .fault hop rfl ?_
    exact congrArg TaskSlot.active
      (Function.update_self m.current { m.cur with active := false } m.tasks)

/-- Every change of the process table in an event is one of `SchedChange`. -/
theorem step_sched {m m' : Machine} {op : ProcOp} (h : m.step op = some m') :
    SchedChange m op m' := by
  obtain ⟨r, hr, rfl⟩ := Option.map_eq_some_iff.mp h
  cases op with
  | elfExec file ticks =>
    obtain rfl := Option.some.inj hr
    exact m.schedChange_elfExec file ticks
  | kernelElfExec file =>
    obtain rfl := Option.some.inj hr
    exact m.schedChange_kernelElfExec file
  | schedule =>
    obtain rfl := Option.some.inj hr
    exact .schedule rfl rfl
  | setPriority pid priority =>
    obtain rfl := Option.some.inj hr
    exact .same (Or.inl id) (Scheduler.sameStates_modifyPid m.sched pid fun _ => rfl)
  | setQuantum quantumMs =>
    obtain rfl := Option.some.inj hr
    exact .same (Or.inl id) (m.sched.sameStates_setQuantum quantumMs)
  | timer frame =>
    obtain rfl := Option.some.inj hr
    refine .of_sched id ?_
    unfold timer preempt
    dsimp only
    split
    · split
      · rfl
      · split <;> rfl
    · rfl
  | store va b =>
    obtain ⟨-, hr⟩ := Option.ite_none_right_eq_some.mp hr
    obtain ⟨f, -, rfl⟩ := Option.map_eq_some_iff.mp hr
    exact .of_sched id rfl
  | pageFault va write tmp =>
    obtain ⟨huser, hr⟩ := Option.ite_none_right_eq_some.mp hr
    obtain ⟨hmmu, hr⟩ := Option.ite_none_right_eq_some.mp hr
    obtain ⟨paging, he⟩ := m.cowAttempt_demandPage va write tmp
    rw [pageFault_eq, he] at hr
    split at hr
    · obtain rfl := Option.some.inj hr
      exact .of_sched id rfl
    · rename_i hcow
      split at hr
      · obtain rfl := Option.some.inj hr
        exact .of_sched id rfl
      · rename_i hdemand
        have hop : m.Unresolved (.pageFault va write tmp) :=
          ⟨huser, hmmu, by simpa using hcow, by simpa using hdemand⟩
        exact schedChange_userFault hop hr
  | exception =>
    obtain ⟨huser, hr⟩ := Option.ite_none_right_eq_some.mp hr
    have hop : m.Unresolved .exception := huser
    have he : (m.setPaging m.paging).userFault = some r := hr
    exact schedChange_userFault hop he
  | exit exitCode =>
    obtain ⟨-, hr⟩ := Option.ite_none_right_eq_some.mp hr
    exact schedChange_sysExit hr
  | kill dstPid sig =>
    obtain ⟨-, hr⟩ := Option.ite_none_right_eq_some.mp hr
    obtain rfl := Option.some.inj hr
    exact m.schedChange_sysKill dstPid sig
  | fork frame =>
    obtain ⟨-, hr⟩ := Option.ite_none_right_eq_some.mp hr
    obtain rfl := Option.some.inj hr
    exact m.schedChange_sysFork frame
  | execve file =>
    obtain ⟨-, hr⟩ := Option.ite_none_right_eq_some.mp hr
    obtain rfl := Option.some.inj hr
    refine .of_sched id ?_
    unfold sysExecve
    split
    · dsimp only
      split
      · rfl
      · split <;> rfl
    · rfl
  | sbrk increment =>
    obtain ⟨-, hr⟩ := Option.ite_none_right_eq_some.mp hr
    obtain rfl := Option.some.inj hr
    refine .of_sched id ?_
    unfold sysSbrk
    dsimp only
    split
    · rfl
    · split
      · split <;> rfl
      · rfl
  | mmap length protFlags pathPtr path =>
    obtain ⟨-, hr⟩ := Option.ite_none_right_eq_some.mp hr
    obtain rfl := Option.some.inj hr
    refine .of_sched id ?_
    unfold sysMmap
    dsimp only
    split
    · rfl
    · split
      · rfl
      · split
        · rfl
        · split <;> rfl
  | munmap addr =>
    obtain ⟨-, hr⟩ := Option.ite_none_right_eq_some.mp hr
    obtain rfl := Option.some.inj hr
    refine .of_sched id ?_
    unfold sysMunmap
    split <;> rfl
  | getpid =>
    obtain ⟨-, hr⟩ := Option.ite_none_right_eq_some.mp hr
    obtain rfl := Option.some.inj hr
    exact .of_sched id rfl
  | yield =>
    obtain ⟨-, hr⟩ := Option.ite_none_right_eq_some.mp hr
    obtain rfl := Option.some.inj hr
    exact .of_sched id rfl
  | setuid rbx =>
    obtain ⟨-, hr⟩ := Option.ite_none_right_eq_some.mp hr
    obtain rfl := Option.some.inj hr
    refine .of_sched id ?_
    unfold sysSetuid
    dsimp only
    split <;> rfl
  | setgid rbx =>
    obtain ⟨-, hr⟩ := Option.ite_none_right_eq_some.mp hr
    obtain rfl := Option.some.inj hr
    refine .of_sched id ?_
    unfold sysSetgid
    dsimp only
    split <;> rfl

/-- An active slot was active under the same PID, or it is a new one. -/
theorem SlotChange.pid {m : Machine} {op : ProcOp} {j : Fin 8} {t : TaskSlot}
    (h : SlotChange m op j t) (hact : t.active = true) :
    (m.tasks j).active = true ∧ t.pid = (m.tasks j).pid ∨
      IsCreate op ∧ m.freeSlot = some j ∧ t.pid = UInt32.ofNat m.sched.nextPid := by
  cases h with
  | same => exact Or.inl ⟨hact, rfl⟩
  | update hj hactive hpid _ _ _ =>
    subst hj
    exact Or.inl ⟨hactive ▸ hact, hpid⟩
  | execve _ _ hj hactive hpid _ _ _ _ =>
    subst hj
    exact Or.inl ⟨hactive ▸ hact, hpid⟩
  | setuid _ _ hj _ =>
    subst hj
    exact Or.inl ⟨hact, rfl⟩
  | setgid _ _ hj _ =>
    subst hj
    exact Or.inl ⟨hact, rfl⟩
  | exit _ _ _ => cases hact
  | kill _ _ _ _ => cases hact
  | fault _ _ => cases hact
  | load hop hslot hpid _ _ =>
    refine Or.inr ⟨?_, hslot, hpid⟩
    cases op with
    | elfExec file ticks => trivial
    | kernelElfExec file => trivial
    | _ => exact hop.elim
  | fork frame hop hslot hpid _ _ _ _ _ =>
    subst hop
    exact Or.inr ⟨trivial, hslot, hpid⟩

/-! ## The running process -/

/-- Every active slot has a process of its own that has not ended, no process has the PID 0, and
the PIDs fit into the slots. -/
structure PidsMatch (m : Machine) : Prop where
  alive : ∀ i, (m.tasks i).active = true → m.sched.Alive (m.tasks i).pid.toNat
  apart : ∀ i j, (m.tasks i).active = true → (m.tasks j).active = true →
    (m.tasks i).pid = (m.tasks j).pid → i = j
  zero : m.sched.stateOf 0 = none
  next : 0 < m.sched.nextPid ∧ m.sched.nextPid ≤ 2 ^ 32
  cursor : ∀ c, m.sched.currentPid = some c → c < m.sched.nextPid

/-- The process of the running slot is terminated, and no other process changes its state. -/
def EndsRunning (m : Machine) (s : Scheduler) : Prop :=
  s.stateOf m.cur.pid.toNat = some .terminated ∧
    ∀ pid, pid ≠ m.cur.pid.toNat → s.stateOf pid = m.sched.stateOf pid

/-- The kernel acts on the running process : `SYS_GETPID` returns its PID, and `SYS_EXIT` and a
fault that nothing resolves end it alone. -/
def ActsOnRunning (m : Machine) (op : ProcOp) : Prop :=
  (op = .getpid → m.IsUser m.current → m.sysGetpid = m.cur.pid) ∧
    ((∃ exitCode, op = .exit exitCode) ∨ m.Unresolved op →
      ∀ m', m.step op = some m' → m.EndsRunning m'.sched)

/-- The cursor of the process table is at the process of the running slot. -/
def CursorAtRunning (m : Machine) : Prop :=
  m.sched.currentPid = some m.cur.pid.toNat

/-- `schedule` has nothing to do after the running process has ended : it has time left, and no
other process in `Standby` has a priority above 0. -/
def NoneToSchedule (m : Machine) : Prop :=
  (∀ p, m.sched.processes m.cur.pid.toNat = some p → ¬ p.Expired timerHz m.ticks) ∧
    ∀ pid p, pid ≠ m.cur.pid.toNat → m.sched.processes pid = some p → p.state = .standby →
      p.cachedEffectivePriority = 0

/-- At `SYS_GETPID` and at a fault that ends a task the cursor is at the running process, and
after the fault there is nothing to schedule. -/
def CursorsAgree (m : Machine) (op : ProcOp) : Prop :=
  (op = .getpid → m.IsUser m.current → m.CursorAtRunning) ∧
    (m.FatalFault op → m.CursorAtRunning ∧ m.NoneToSchedule)

/-- The PID of a process that is created fits into a slot. -/
def PidsLast (m : Machine) (op : ProcOp) : Prop :=
  IsCreate op → m.sched.nextPid < 2 ^ 32

/-- No active slot has a process that is terminated. -/
def ProcessesAlive (m : Machine) : Prop :=
  ∀ i, (m.tasks i).active = true → m.sched.stateOf (m.tasks i).pid.toNat ≠ some .terminated

variable {m m' : Machine} {op : ProcOp}

theorem PidsMatch.processesAlive (h : m.PidsMatch) : m.ProcessesAlive := by
  intro i hi hterm
  obtain ⟨st, hst, hlive⟩ := Scheduler.alive_iff.mp (h.alive i hi)
  rw [hst] at hterm
  exact hlive (Option.some.inj hterm)

/-- The PID of an active slot is not 0. -/
theorem PidsMatch.pid_ne_zero (h : m.PidsMatch) {i : Fin 8} (hi : (m.tasks i).active = true) :
    (m.tasks i).pid.toNat ≠ 0 := by
  intro hzero
  obtain ⟨st, hst, -⟩ := Scheduler.alive_iff.mp (h.alive i hi)
  rw [hzero, h.zero] at hst
  cases hst

/-- What `scheduler_get_current_pid` returns when the cursor is at a process. -/
theorem PidsMatch.getCurrentPid (h : m.PidsMatch) {c : ℕ} (hc : m.sched.currentPid = some c) :
    m.sched.getCurrentPid.toNat = c := by
  have hlt := h.cursor c hc
  have hnext := h.next.2
  rw [Scheduler.getCurrentPid, hc]
  exact UInt32.toNat_ofNat_of_lt' (hlt.trans_le hnext)

theorem PidsMatch.getpid_iff (h : m.PidsMatch) (hact : m.cur.active = true) :
    m.sysGetpid = m.cur.pid ↔ m.CursorAtRunning := by
  have hne := h.pid_ne_zero hact
  unfold sysGetpid CursorAtRunning
  constructor
  · intro heq
    cases hc : m.sched.currentPid with
    | none =>
      rw [Scheduler.getCurrentPid, hc] at heq
      exact absurd (congrArg UInt32.toNat heq.symm) hne
    | some c => rw [← h.getCurrentPid hc, heq]
  · intro hc
    exact UInt32.toNat_inj.mp (h.getCurrentPid hc)

/-- Another process is killed, and the running one lives on. -/
theorem PidsMatch.alive_fault (h : m.PidsMatch) (hact : m.cur.active = true)
    (hc : ¬ m.CursorAtRunning) : m.faultSched.Alive m.cur.pid.toNat := by
  unfold faultSched
  split
  · next hpid =>
    refine Scheduler.Alive.schedule ?_ _ _
    cases hcur : m.sched.currentPid with
    | none =>
      rw [Scheduler.getCurrentPid, hcur] at hpid
      exact absurd rfl hpid
    | some c =>
      have hne : m.cur.pid.toNat ≠ c := fun he => hc (hcur.trans (congrArg some he.symm))
      obtain ⟨p, hp, hlive⟩ := h.alive m.current hact
      rw [h.getCurrentPid hcur]
      exact ⟨p, (Scheduler.modifyPid_of_ne m.sched hne _).trans hp, hlive⟩
  · exact h.alive m.current hact

/-- The end of a fault when the cursor is at the running process. -/
theorem PidsMatch.faultSched_eq (h : m.PidsMatch) (hact : m.cur.active = true)
    (hc : m.CursorAtRunning) :
    m.faultSched = (m.sched.killProcess m.cur.pid.toNat).schedule timerHz m.ticks := by
  have hpid := h.getCurrentPid hc
  have hne := h.pid_ne_zero hact
  rw [faultSched, if_pos, hpid]
  intro hzero
  rw [hzero] at hpid
  exact hne hpid.symm

/-- A fault ends the running process alone exactly if the cursor is there and there is nothing to
schedule. -/
theorem PidsMatch.endsRunning_fault_iff (h : m.PidsMatch) (hact : m.cur.active = true) :
    m.EndsRunning m.faultSched ↔ m.CursorAtRunning ∧ m.NoneToSchedule := by
  by_cases hc : m.CursorAtRunning
  swap
  · refine iff_of_false (fun hends => ?_) fun hcond => hc hcond.1
    obtain ⟨st, hst, hlive⟩ := Scheduler.alive_iff.mp (h.alive_fault hact hc)
    rw [hends.1] at hst
    exact hlive (Option.some.inj hst).symm
  obtain ⟨p, hp, -⟩ := h.alive m.current hact
  have hp : m.sched.processes m.cur.pid.toNat = some p := hp
  have hexpired : (∀ q, m.sched.processes m.cur.pid.toNat = some q →
      ¬ q.Expired timerHz m.ticks) ↔ ¬ p.Expired timerHz m.ticks := by
    rw [hp]
    simp
  rw [h.faultSched_eq hact hc, and_iff_right hc, EndsRunning, NoneToSchedule, hexpired]
  exact Scheduler.killed_schedule_iff hc hp timerHz m.ticks

/-- A fault that nothing resolves, in a machine that goes on. -/
theorem step_unresolved (hop : m.Unresolved op) (hstep : m.step op = some m') :
    m'.sched = m.faultSched := by
  obtain ⟨r, hr, rfl⟩ := Option.map_eq_some_iff.mp hstep
  have hfault : ∃ paging, (m.setPaging paging).userFault = some r := by
    cases op with
    | exception => exact ⟨m.paging, (Option.ite_none_right_eq_some.mp hr).2⟩
    | pageFault va write tmp =>
      obtain ⟨huser, hmmu, hcow, hdemand⟩ := hop
      obtain ⟨paging, he⟩ := m.cowAttempt_demandPage va write tmp
      refine ⟨paging, ?_⟩
      obtain ⟨-, hr⟩ := Option.ite_none_right_eq_some.mp hr
      obtain ⟨-, hr⟩ := Option.ite_none_right_eq_some.mp hr
      rwa [pageFault_eq, hcow, hdemand, if_neg Bool.false_ne_true, if_neg Bool.false_ne_true, he]
        at hr
    | _ => exact hop.elim
  obtain ⟨paging, h⟩ := hfault
  rw [userFault_eq] at h
  split at h
  · cases h
  · cases h
    rfl

theorem step_exit {exitCode : Int} (hstep : m.step (.exit exitCode) = some m') :
    m.cur.active = true ∧ m'.sched = m.sched.terminatePid m.cur.pid.toNat exitCode := by
  obtain ⟨r, hr, rfl⟩ := Option.map_eq_some_iff.mp hstep
  obtain ⟨huser, hr⟩ := Option.ite_none_right_eq_some.mp hr
  have hexit : m.sysExit exitCode = some r := hr
  refine ⟨huser.1, ?_⟩
  unfold sysExit at hexit
  dsimp only at hexit
  split at hexit
  · cases hexit
  · cases hexit
    rfl

theorem Unresolved.active (hop : m.Unresolved op) : m.cur.active = true := by
  cases op with
  | exception => exact hop.1
  | pageFault va write tmp => exact hop.1.1
  | _ => exact hop.elim

theorem PidsMatch.endsRunning_exit (h : m.PidsMatch) (hact : m.cur.active = true)
    (exitCode : Int) : m.EndsRunning (m.sched.terminatePid m.cur.pid.toNat exitCode) :=
  ⟨Scheduler.stateOf_terminate (h.alive m.current hact) exitCode,
    fun _ hne => m.sched.stateOf_modifyPid_of_ne hne _⟩

/-- The kernel acts on the running process in an event exactly if the cursors agree. -/
theorem PidsMatch.acts_iff (h : m.PidsMatch) (op : ProcOp) :
    m.ActsOnRunning op ↔ m.CursorsAgree op := by
  unfold ActsOnRunning CursorsAgree
  refine and_congr ?_ ?_
  · exact forall_congr' fun _ => forall_congr' fun huser => h.getpid_iff huser.1
  constructor
  · rintro hends ⟨hop, hsurvivor⟩
    obtain ⟨next, hnext⟩ := Option.ne_none_iff_exists'.mp hsurvivor
    obtain ⟨m', hdispatch, -⟩ := (unresolved_dispatch hop).2 next hnext
    have hstep : m.step op = some m' := by rw [step, hdispatch]; rfl
    have hsched := hends (Or.inr hop) m' hstep
    rw [step_unresolved hop hstep] at hsched
    exact (h.endsRunning_fault_iff (Unresolved.active hop)).mp hsched
  · rintro hagree (⟨exitCode, rfl⟩ | hop) m' hstep
    · obtain ⟨hact, hsched⟩ := step_exit hstep
      rw [hsched]
      exact h.endsRunning_exit hact exitCode
    · rw [step_unresolved hop hstep]
      refine (h.endsRunning_fault_iff (Unresolved.active hop)).mpr (hagree ⟨hop, fun hnone => ?_⟩)
      rw [step, (unresolved_dispatch hop).1 hnone] at hstep
      cases hstep

/-- Slots that stay, one of which may end with its process. -/
theorem PidsMatch.stay (h : m.PidsMatch) (hslots : ∀ j, (m'.tasks j).active = true →
      (m.tasks j).active = true ∧ (m'.tasks j).pid = (m.tasks j).pid)
    (halive : ∀ j, (m'.tasks j).active = true → m'.sched.Alive (m.tasks j).pid.toNat)
    (hzero : m'.sched.stateOf 0 = none) (hnext : m'.sched.nextPid = m.sched.nextPid)
    (hcursor : ∀ c, m'.sched.currentPid = some c → c < m.sched.nextPid) : m'.PidsMatch := by
  refine ⟨fun j hj => ?_, fun i j hi hj he => ?_, hzero, hnext ▸ h.next, fun c hc => ?_⟩
  · rw [(hslots j hj).2]
    exact halive j hj
  · obtain ⟨hi', hpid⟩ := hslots i hi
    obtain ⟨hj', hpid'⟩ := hslots j hj
    exact h.apart i j hi' hj' (hpid.symm.trans (he.trans hpid'))
  · rw [hnext]
    exact hcursor c hc

/-- One process ends, and with it its slot. -/
theorem PidsMatch.ended (h : m.PidsMatch) (hslots : ∀ j, (m'.tasks j).active = true →
      (m.tasks j).active = true ∧ (m'.tasks j).pid = (m.tasks j).pid) {i : Fin 8}
    (hi : (m.tasks i).active = true) (hdead : (m'.tasks i).active = false)
    (hsame : ∀ pid, pid ≠ (m.tasks i).pid.toNat → m'.sched.stateOf pid = m.sched.stateOf pid)
    (hnext : m'.sched.nextPid = m.sched.nextPid)
    (hcursor : ∀ c, m'.sched.currentPid = some c → c < m.sched.nextPid) : m'.PidsMatch := by
  refine h.stay hslots (fun j hj => ?_) ?_ hnext hcursor
  · have hne : (m.tasks j).pid.toNat ≠ (m.tasks i).pid.toNat := by
      intro he
      rw [h.apart j i (hslots j hj).1 hi (UInt32.toNat_inj.mp he), hdead] at hj
      cases hj
    rw [Scheduler.alive_iff, hsame _ hne, ← Scheduler.alive_iff]
    exact h.alive j (hslots j hj).1
  · rw [hsame 0 (h.pid_ne_zero hi).symm]
    exact h.zero

/-- A new process, and perhaps its slot. -/
theorem PidsMatch.create (h : m.PidsMatch) (hfits : m.sched.nextPid < 2 ^ 32)
    (hsched : m'.sched = (m.sched.createProcess 5).2) (hslots : ∀ j, (m'.tasks j).active = true →
      (m.tasks j).active = true ∧ (m'.tasks j).pid = (m.tasks j).pid ∨
        m.freeSlot = some j ∧ (m'.tasks j).pid = UInt32.ofNat m.sched.nextPid) :
    m'.PidsMatch := by
  have hnew : (UInt32.ofNat m.sched.nextPid).toNat = m.sched.nextPid :=
    UInt32.toNat_ofNat_of_lt' hfits
  have hold : ∀ pid, pid ≠ m.sched.nextPid → m'.sched.processes pid = m.sched.processes pid := by
    intro pid hne
    rw [hsched]
    exact m.sched.createProcess_of_ne hne 5
  have hother : ∀ {i : Fin 8}, (m.tasks i).active = true →
      (m.tasks i).pid.toNat ≠ m.sched.nextPid := fun hi => (h.alive _ hi).lt.ne
  have hdiffer : ∀ {i j : Fin 8}, (m.tasks i).active = true →
      (m'.tasks i).pid = (m.tasks i).pid → (m'.tasks j).pid = UInt32.ofNat m.sched.nextPid →
        (m'.tasks i).pid ≠ (m'.tasks j).pid := by
    intro i j hi hpid hpid' he
    refine hother hi ?_
    rw [← hpid, he, hpid', hnew]
  refine ⟨fun j hj => ?_, fun i j hi hj he => ?_, ?_, ?_, fun c hc => ?_⟩
  · rcases hslots j hj with ⟨hact, hpid⟩ | ⟨-, hpid⟩
    · obtain ⟨p, hp, hlive⟩ := h.alive j hact
      refine ⟨p, ?_, hlive⟩
      rw [hpid, hold _ (hother hact), hp]
    · refine ⟨.create 5, ?_, by simp [ProcessControlBlock.create]⟩
      rw [hpid, hnew, hsched]
      exact m.sched.createProcess_self 5
  · rcases hslots i hi with ⟨hi', hpid⟩ | ⟨hfree, hpid⟩ <;>
      rcases hslots j hj with ⟨hj', hpid'⟩ | ⟨hfree', hpid'⟩
    · exact h.apart i j hi' hj' (hpid.symm.trans (he.trans hpid'))
    · exact absurd he (hdiffer hi' hpid hpid')
    · exact absurd he.symm (hdiffer hj' hpid' hpid)
    · exact Option.some.inj (hfree.symm.trans hfree')
  · rw [Scheduler.stateOf, hold 0 h.next.1.ne]
    exact h.zero
  · rw [hsched]
    exact ⟨Nat.succ_pos _, hfits⟩
  · rw [hsched] at hc ⊢
    exact (h.cursor c hc).trans (Nat.lt_succ_self _)

/-- An event in which the cursors agree keeps the processes of the slots. -/
theorem PidsMatch.step (h : m.PidsMatch) (hfits : m.PidsLast op) (hagree : m.CursorsAgree op)
    (hstep : m.step op = some m') : m'.PidsMatch := by
  have hpids := fun j => (step_slot hstep j).pid
  have hkeep : ¬ IsCreate op ∨ m'.tasks = m.tasks → ∀ j, (m'.tasks j).active = true →
      (m.tasks j).active = true ∧ (m'.tasks j).pid = (m.tasks j).pid := by
    rintro (hop | htasks) j hj
    · rcases hpids j hj with hold | ⟨hcreate, -⟩
      · exact hold
      · exact absurd hcreate hop
    · rw [htasks] at hj ⊢
      exact ⟨hj, rfl⟩
  cases step_sched hstep with
  | same hop hsched =>
    refine h.stay (hkeep hop) (fun j hj => ?_) ?_ hsched.next fun c hc => ?_
    · exact hsched.alive.mpr (h.alive j (hkeep hop j hj).1)
    · rw [hsched.states]
      exact h.zero
    · rw [hsched.cursor] at hc
      exact h.cursor c hc
  | create hop hsched =>
    refine h.create (hfits hop) hsched fun j hj => ?_
    exact (hpids j hj).imp_right And.right
  | schedule hop hsched =>
    subst hop
    refine h.stay (hkeep (Or.inl id)) (fun j hj => ?_) ?_ ?_ fun c hc => ?_
    · rw [hsched]
      exact (h.alive j (hkeep (Or.inl id) j hj).1).schedule _ _
    · rw [hsched]
      exact Scheduler.stateOf_schedule_none h.zero _ _
    · rw [hsched, Scheduler.nextPid_schedule]
    · rw [hsched] at hc
      exact m.sched.cursor_schedule _ _ hc
  | exit exitCode hop hsched hdead =>
    subst hop
    obtain ⟨hact, -⟩ := step_exit hstep
    refine h.ended (hkeep (Or.inl id)) hact hdead ?_ ?_ fun c hc => ?_
    · rw [hsched]
      exact (h.endsRunning_exit hact exitCode).2
    · rw [hsched]
      rfl
    · rw [hsched, Scheduler.terminatePid] at hc
      dsimp only at hc
      split at hc
      · cases hc
      · exact h.cursor c hc
  | kill dstPid sig hop i hi hsched hdead =>
    subst hop
    have hvictim := List.find?_some hi
    obtain ⟨hact, hpid, -⟩ := of_decide_eq_true hvictim
    have hdst : dstPid.toUInt32.toNat = (m.tasks i).pid.toNat := by
      rw [← hpid, UInt32.toUInt32_toUInt64]
    have hsignal : Scheduler.SameStates m.sched (m.sched.signalSend dstPid.toNat sig) := by
      refine Scheduler.sameStates_modifyPid m.sched _ fun p => ?_
      unfold ProcessControlBlock.signalSend
      split <;> rfl
    refine h.ended (hkeep (Or.inl id)) hact hdead (fun pid hne => ?_) ?_ fun c hc => ?_
    · rw [hsched, hdst, ← hsignal.states pid]
      exact Scheduler.stateOf_modifyPid_of_ne _ hne _
    · rw [hsched]
      rfl
    · rw [hsched] at hc
      exact h.cursor c hc
  | fault hop hsched hdead =>
    have hact := Unresolved.active hop
    have hends := ((h.acts_iff op).mpr hagree).2 (Or.inr hop) m' hstep
    have hcreate : ¬ IsCreate op := by
      cases op with
      | exception => exact id
      | pageFault _ _ _ => exact id
      | _ => exact hop.elim
    refine h.ended (hkeep (Or.inl hcreate)) hact hdead hends.2 ?_ fun c hc => ?_
    · rw [hsched, faultSched]
      split
      · rw [Scheduler.nextPid_schedule]
        rfl
      · rfl
    · rw [hsched, faultSched] at hc
      split at hc
      · exact Scheduler.cursor_schedule (m.sched.killProcess _) _ _ hc
      · exact h.cursor c hc

end Machine

/-! ## Runs -/

/-- In a run in which the cursors agree at every `SYS_GETPID` and every fault that ends a task, the
kernel acts on the running process and no active slot has a process that is terminated; and as
long as the PIDs fit into the slots, the kernel acts so in no other run. -/
theorem acts_on_running (m : Machine) (h : m.PidsMatch) (ops : List ProcOp) :
    (Along Machine.step (fun m op => m.PidsLast op ∧ m.CursorsAgree op) m ops →
      Along Machine.step Machine.ActsOnRunning m ops ∧
        After Machine.step Machine.ProcessesAlive m ops) ∧
    (Along Machine.step Machine.PidsLast m ops →
      (Along Machine.step Machine.ActsOnRunning m ops ↔
        Along Machine.step Machine.CursorsAgree m ops)) := by
  have hstep : ∀ (m : Machine) op m', m.PidsMatch → m.PidsLast op ∧ m.CursorsAgree op →
      m.step op = some m' → m'.PidsMatch :=
    fun m op m' h hcond hstep => h.step hcond.1 hcond.2 hstep
  have hacts : ∀ is m, Machine.PidsMatch m →
      Along Machine.step (fun m op => m.PidsLast op ∧ m.CursorsAgree op) m is →
        Along Machine.step Machine.ActsOnRunning m is :=
    Along.mono_inv hstep fun m op h hcond => (h.acts_iff op).mpr hcond.2
  refine ⟨fun hrun => ⟨hacts ops m h hrun, ?_⟩, fun hfits => ⟨fun hrun => ?_, fun hrun => ?_⟩⟩
  · exact After.mono (fun m h => h.processesAlive) ops m (After.of_along hstep ops m h hrun)
  · refine Along.mono_inv (G := fun m op => m.PidsLast op ∧ m.ActsOnRunning op) ?_
      (fun m op h hcond => (h.acts_iff op).mp hcond.2) ops m h (hfits.and hrun)
    intro m op m' h hcond hstep
    exact h.step hcond.1 ((h.acts_iff op).mp hcond.2) hstep
  · exact hacts ops m h (hfits.and hrun)

/-- A program is started, runs, and does one thing more. -/
def startedThen (op : ProcOp) : List ProcOp :=
  [.elfExec stackImage 4, .timer 0, op]

theorem bootMachine_pidsMatch : bootMachine.PidsMatch := by
  have hprocess : ∀ i, (bootMachine.tasks i).active = true → ∃ p,
      bootMachine.sched.processes (bootMachine.tasks i).pid.toNat = some p ∧
        p.state ≠ .terminated := by
    intro i
    have hstate : (bootMachine.tasks i).active = true →
        bootMachine.sched.stateOf (bootMachine.tasks i).pid.toNat = some .running ∨
          bootMachine.sched.stateOf (bootMachine.tasks i).pid.toNat = some .standby := by
      revert i
      decide
    intro hi
    rcases hstate hi with h | h
    · exact Scheduler.alive_iff.mpr ⟨_, h, by decide⟩
    · exact Scheduler.alive_iff.mpr ⟨_, h, by decide⟩
  refine ⟨hprocess, by decide, rfl, by decide, fun c hc => ?_⟩
  have hcursor : bootMachine.sched.currentPid = some 1 := by decide
  rw [hcursor] at hc
  cases hc
  decide

/-- A program that exits ends its own process. -/
theorem acts_on_running_exit :
    Along Machine.step Machine.ActsOnRunning bootMachine (startedThen (.exit 7)) := by
  refine ((acts_on_running bootMachine bootMachine_pidsMatch (startedThen (.exit 7))).1 ?_).1
  have hother : ∀ (m : Machine) (op : ProcOp), op ≠ .getpid → ¬ m.Unresolved op →
      m.CursorsAgree op :=
    fun m op hne hresolved => ⟨fun he => absurd he hne, fun hfault => absurd hfault.1 hresolved⟩
  refine ⟨⟨fun _ => by decide, hother _ _ (by simp) id⟩, fun m _ => ?_⟩
  refine ⟨⟨False.elim, hother _ _ (by simp) id⟩, fun m _ => ?_⟩
  exact ⟨⟨False.elim, hother _ _ (by simp) id⟩, fun _ _ => trivial⟩

/-- The program asks for its PID, and is told that of `init`. -/
theorem not_acts_on_running :
    ¬ Along Machine.step Machine.ActsOnRunning bootMachine (startedThen .getpid) := by
  intro hrun
  have hexec := Machine.step_elfExec bootMachine stackImage 4
  have huser := bootMachine_firstTask
  obtain ⟨hcurrent, htask, hthird⟩ := bootMachine_switch
  have hpid := (Machine.step_slot hexec 3).pid hthird.1
  have hsched := bootMachine.sched_elfExec stackImage 4
  have hcursor : bootMachine.sched.currentPid = some 1 := by decide
  generalize (bootMachine.elfExec stackImage 4).2 = m₁ at *
  have hticked := Machine.step_timer m₁ 0
  have hkept : (m₁.timer 0).2.sched.currentPid = m₁.sched.currentPid := by
    cases Machine.step_sched hticked with
    | same _ hsame => exact hsame.cursor
    | create hop _ => exact hop.elim
    | schedule hop _ => cases hop
    | exit _ hop _ _ => cases hop
    | kill _ _ hop _ _ _ _ => cases hop
    | fault hop _ _ => exact hop.elim
  generalize (m₁.timer 0).2 = m₂ at *
  have hfive : m₂.cur.pid = 5 := by
    rw [Machine.cur, hcurrent, htask]
    rcases hpid with ⟨hactive, -⟩ | ⟨-, -, hnew⟩
    · exact absurd hactive (by decide)
    · rw [hnew]
      decide
  have hone : m₂.sched.currentPid = some 1 := by
    rw [hkept, ← hcursor]
    rcases hsched with rfl | hcreate
    · rfl
    · rw [hcreate]
      rfl
  have hclaim := ((hrun.2 m₁ hexec).2 m₂ hticked).1.1 rfl huser
  rw [hfive, Machine.sysGetpid, Scheduler.getCurrentPid, hone] at hclaim
  exact absurd hclaim (by decide)

end VernisOS
