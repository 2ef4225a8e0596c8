import Mathlib.Tactic.Set
import VernisOS.Lib.Run
import VernisOS.Scheduler

/-!
# Runs of the scheduler

The operations of `Scheduler` move two things, the state of a process and the cursor
`current_pid`. `RunState` says that the cursor names the one process that runs, and
`LifeCycle` that a step takes every process along an edge of the diagram of
`docs/kernel/SCHEDULER.md`. `kill_process` and `suspend_process` change the state of the
process under the cursor and leave the cursor there, the idle branch of `schedule` moves the
cursor away from a process that still runs, and the end of a time slice puts the process
under the cursor into `Standby` whatever became of it. The runs that keep the two properties
are those without such a step (`scheduler_run_state`, `scheduler_life_cycle`).
-/

open Run

namespace VernisOS

/-- The operations of `Scheduler`. -/
inductive SchedOp where
  | createProcess (priority : UInt8)
  | schedule
  | blockCurrent
  | wakeProcess (pid : ℕ)
  | terminateCurrent (exitCode : Int)
  | terminatePid (pid : ℕ) (exitCode : Int)
  | killProcess (pid : ℕ)
  | suspendProcess (pid : ℕ)
  | resumeProcess (pid : ℕ)
  | setPriority (pid : ℕ) (priority : UInt8)
  | setNice (pid : ℕ) (nice : Int)
  deriving DecidableEq

/-- An operation, with the clock it reads and the frequency of the timer. -/
structure SchedInput where
  hz : ℕ
  now : ℕ
  op : SchedOp

/-- The process has used up its time slice. -/
def ProcessControlBlock.Expired (p : ProcessControlBlock) (hz now : ℕ) : Prop :=
  match p.lastRunTime with
  | none => False
  | some lastRun => p.timeSliceRemaining ≤ durationSince hz now lastRun

namespace Scheduler

/-- One operation. -/
def step (s : Scheduler) (i : SchedInput) : Scheduler :=
  match i.op with
  | .createProcess priority => (s.createProcess priority).2
  | .schedule => s.schedule i.hz i.now
  | .blockCurrent => s.blockCurrent
  | .wakeProcess pid => (s.wakeProcess pid).2
  | .terminateCurrent exitCode => s.terminateCurrent exitCode
  | .terminatePid pid exitCode => s.terminatePid pid exitCode
  | .killProcess pid => s.killProcess pid
  | .suspendProcess pid => (s.suspendProcess pid).2
  | .resumeProcess pid => (s.resumeProcess pid).2
  | .setPriority pid priority => s.setPriority pid priority
  | .setNice pid nice => s.setNice pid nice

/-- A run is a list of operations; every operation returns. -/
def next (s : Scheduler) (i : SchedInput) : Option Scheduler :=
  some (s.step i)

/-- At most one process runs, and the cursor names it. -/
structure RunState (s : Scheduler) : Prop where
  unique : ∀ p q, s.stateOf p = some .running → s.stateOf q = some .running → p = q
  cursor : ∀ p, s.currentPid = some p ↔ s.stateOf p = some .running

/-- Some process waits for its turn with a priority above 0. -/
def Ready (s : Scheduler) : Prop :=
  ∃ pid p, s.processes pid = some p ∧ p.state = .standby ∧ 0 < p.cachedEffectivePriority

/-- The step leaves the cursor on the process that runs : no `kill_process` or
`suspend_process` of the process under the cursor, and no `schedule` within its time slice
while no other process is ready. -/
def CursorOk (s : Scheduler) (i : SchedInput) : Prop :=
  match i.op with
  | .killProcess pid => s.currentPid ≠ some pid
  | .suspendProcess pid => s.currentPid ≠ some pid
  | .schedule => ∀ pid p, s.currentPid = some pid → s.processes pid = some p →
      ¬ p.Expired i.hz i.now → s.Ready
  | _ => True

/-- The edges of the diagram. A process that is ready may be suspended as well, and every
process that has not ended may be ended. -/
inductive Edge : ProcessState → ProcessState → Prop
  | ready : Edge .new .standby
  | run : Edge .standby .running
  | expire : Edge .running .standby
  | block : Edge .running .waiting
  | wake : Edge .waiting .standby
  | suspend : Edge .running .suspended
  | suspendReady : Edge .standby .suspended
  | resume : Edge .suspended .standby
  | terminate {st} (h : st ≠ .terminated) (hz : st ≠ .zombie) : Edge st .terminated
  | reap : Edge .terminated .zombie

/-- What an operation may make of a process. -/
structure EdgeOf (op : SchedOp) (pid : ℕ) (p p' : ProcessControlBlock) : Prop where
  edge : p'.state = p.state ∨ Edge p.state p'.state
  terminated : p.state = .terminated →
    p'.state ≠ .standby ∧ p'.state ≠ .running ∧ p'.exitCode = p.exitCode
  suspended : p.state = .suspended →
    p'.state = .suspended ∨ op = .resumeProcess pid ∨ p'.state = .terminated
  waiting : p.state = .waiting →
    p'.state = .waiting ∨ op = .wakeProcess pid ∨ p'.state = .terminated

/-- The step takes every process along an edge. -/
def LifeCycle (s : Scheduler) (i : SchedInput) : Prop :=
  ∀ pid p, s.processes pid = some p →
    ∃ p', (s.step i).processes pid = some p' ∧ EdgeOf i.op pid p p'

/-- The step takes no process back : no `schedule` at the end of the time slice of a process
under the cursor that was killed or suspended, no `block_current` of a process that does not
run, and no second end of a process with another exit code. -/
def EndsOnce (s : Scheduler) (i : SchedInput) : Prop :=
  match i.op with
  | .schedule => ∀ pid p, s.currentPid = some pid → s.processes pid = some p →
      p.Expired i.hz i.now → p.state = .running ∨ p.state = .standby
  | .blockCurrent => ∀ pid p, s.currentPid = some pid → s.processes pid = some p →
      p.state = .running ∨ p.state = .waiting
  | .terminateCurrent exitCode => ∀ pid p, s.currentPid = some pid →
      s.processes pid = some p → p.state = .terminated → p.exitCode = some exitCode
  | .terminatePid pid exitCode => ∀ p, s.processes pid = some p → p.state = .terminated →
      p.exitCode = some exitCode
  | .killProcess pid => ∀ p, s.processes pid = some p → p.state = .terminated →
      p.exitCode = some 137
  | _ => True

/-! ## One process -/

theorem modifyPid_self (s : Scheduler) (pid : ℕ) (f : ProcessControlBlock → ProcessControlBlock) :
    (s.modifyPid pid f).processes pid = (s.processes pid).map f :=
  Function.update_self ..

theorem modifyPid_of_ne (s : Scheduler) {pid k : ℕ} (h : k ≠ pid)
    (f : ProcessControlBlock → ProcessControlBlock) :
    (s.modifyPid pid f).processes k = s.processes k :=
  Function.update_of_ne h ..

theorem modifyPid_some {s : Scheduler} {pid k : ℕ} {p : ProcessControlBlock}
    (h : s.processes k = some p) (f : ProcessControlBlock → ProcessControlBlock) :
    (s.modifyPid pid f).processes k = some (if k = pid then f p else p) := by
  by_cases hk : k = pid
  · subst hk
    rw [modifyPid_self, h, if_pos rfl]
    rfl
  · rw [modifyPid_of_ne s hk, h, if_neg hk]

theorem modifyPid_none {s : Scheduler} {pid k : ℕ} (h : s.processes k = none)
    (f : ProcessControlBlock → ProcessControlBlock) :
    (s.modifyPid pid f).processes k = none := by
  by_cases hk : k = pid
  · subst hk
    rw [modifyPid_self, h]
    rfl
  · rw [modifyPid_of_ne s hk, h]

theorem createProcess_self (s : Scheduler) (priority : UInt8) :
    (s.createProcess priority).2.processes s.nextPid = some (.create priority) :=
  Function.update_self ..

theorem createProcess_of_ne (s : Scheduler) {k : ℕ} (h : k ≠ s.nextPid) (priority : UInt8) :
    (s.createProcess priority).2.processes k = s.processes k :=
  Function.update_of_ne h ..

/-- `moveState` changes one process, if it is in one of the states of `source`. -/
theorem moveState_processes (s : Scheduler) (pid : ℕ) (source : ProcessState → Bool)
    (target : ProcessState) :
    (s.moveState pid source target).2.processes = (s.modifyPid pid fun p =>
      if source p.state then { p with state := target } else p).processes ∧
    (s.moveState pid source target).2.currentPid = s.currentPid := by
  unfold moveState
  split
  · next hp =>
    refine ⟨funext fun k => ?_, rfl⟩
    by_cases hk : k = pid
    · subst hk
      rw [modifyPid_none hp, hp]
    · rw [modifyPid_of_ne s hk]
  · next p hp =>
    split
    · next hs =>
      refine ⟨funext fun k => ?_, rfl⟩
      by_cases hk : k = pid
      · subst hk
        rw [modifyPid_some hp, modifyPid_some hp, if_pos rfl, if_pos rfl, if_pos hs]
      · rw [modifyPid_of_ne s hk, modifyPid_of_ne s hk]
    · next hs =>
      refine ⟨funext fun k => ?_, rfl⟩
      by_cases hk : k = pid
      · subst hk
        rw [modifyPid_some hp, if_pos rfl, if_neg hs, hp]
      · rw [modifyPid_of_ne s hk]

theorem stateOf_some {s : Scheduler} {pid : ℕ} {p : ProcessControlBlock}
    (h : s.processes pid = some p) : s.stateOf pid = some p.state := by
  rw [stateOf, h]
  rfl

theorem stateOf_eq {s : Scheduler} {pid : ℕ} {st : ProcessState} (h : s.stateOf pid = some st) :
    ∃ p, s.processes pid = some p ∧ p.state = st :=
  Option.map_eq_some_iff.mp h

/-! ## `schedule` -/

/-- What the walk over the processes has found. -/
theorem pick_fold (s : Scheduler) : ∀ (pids : List ℕ) (best : Option ℕ × UInt8),
    let walk := pids.foldl (fun (best : Option ℕ × UInt8) pid =>
      match s.processes pid with
      | none => best
      | some p =>
        if p.state = .standby ∧ p.cachedEffectivePriority > best.2 then
          (some pid, p.cachedEffectivePriority)
        else best) best
    (walk = best ∧ ∀ pid ∈ pids, ∀ p, s.processes pid = some p → p.state = .standby →
        p.cachedEffectivePriority ≤ best.2) ∨
      ∃ pid p, walk.1 = some pid ∧ s.processes pid = some p ∧ p.state = .standby ∧
        best.2 < p.cachedEffectivePriority := by
  intro pids
  induction pids with
  | nil =>
    intro best
    exact Or.inl ⟨rfl, fun _ h => by cases h⟩
  | cons k pids ih =>
    intro best
    dsimp only
    rw [List.foldl_cons]
    cases hk : s.processes k with
    | none =>
      rcases ih best with ⟨hwalk, hle⟩ | h
      · refine Or.inl ⟨hwalk, fun pid hpid p hp hs => ?_⟩
        rcases List.mem_cons.mp hpid with rfl | hmem
        · rw [hk] at hp
          cases hp
        · exact hle pid hmem p hp hs
      · exact Or.inr h
    | some q =>
      dsimp only
      by_cases hq : q.state = .standby ∧ q.cachedEffectivePriority > best.2
      · rw [if_pos hq]
        refine Or.inr ?_
        rcases ih (some k, q.cachedEffectivePriority) with ⟨hwalk, -⟩ | ⟨pid, p, h, hp, hs, hlt⟩
        · exact ⟨k, q, by rw [hwalk], hk, hq.1, hq.2⟩
        · exact ⟨pid, p, h, hp, hs, UInt8.lt_trans hq.2 hlt⟩
      · rw [if_neg hq]
        rcases ih best with ⟨hwalk, hle⟩ | h
        · refine Or.inl ⟨hwalk, fun pid hpid p hp hs => ?_⟩
          rcases List.mem_cons.mp hpid with rfl | hmem
          · rw [hk] at hp
            cases hp
            exact UInt8.not_lt.mp fun hlt => hq ⟨hs, hlt⟩
          · exact hle pid hmem p hp hs
        · exact Or.inr h

/-- What `pick` has found, without the walk. -/
theorem pick_cases (s : Scheduler) :
    (s.pick = none ∧ ¬ s.Ready) ∨
      ∃ pid p, s.pick = some pid ∧ s.processes pid = some p ∧ p.state = .standby ∧
        0 < p.cachedEffectivePriority := by
  rcases s.pick_fold (List.range s.nextPid) (none, 0) with ⟨hwalk, hle⟩ | h
  · refine Or.inl ⟨congrArg Prod.fst hwalk, ?_⟩
    rintro ⟨pid, p, hp, hs, hpos⟩
    have hlt : pid < s.nextPid := by
      by_contra hge
      rw [s.bounded pid (by omega)] at hp
      cases hp
    exact UInt8.not_lt.mpr (hle pid (List.mem_range.mpr hlt) p hp hs) hpos
  · exact Or.inr h

/-- What the end of a time slice does to a process. -/
theorem expire_some {s : Scheduler} {k : ℕ} {p : ProcessControlBlock} (hz now : ℕ)
    (h : s.processes k = some p) :
    ∃ q, (s.expire hz now).processes k = some q ∧ q.exitCode = p.exitCode ∧
      (s.currentPid = some k ∧ p.Expired hz now ∧ q.state = .standby ∨
        ¬ (s.currentPid = some k ∧ p.Expired hz now) ∧ q = p) := by
  unfold expire
  cases hcur : s.currentPid with
  | none => exact ⟨p, h, rfl, Or.inr ⟨fun hk => (by cases hk.1), rfl⟩⟩
  | some c =>
    dsimp only
    by_cases hk : k = c
    · subst hk
      rw [modifyPid_some h, if_pos rfl]
      refine ⟨_, rfl, ?_⟩
      unfold ProcessControlBlock.Expired
      cases hrun : p.lastRunTime with
      | none => exact ⟨rfl, Or.inr ⟨fun hk => hk.2, rfl⟩⟩
      | some lastRun =>
        dsimp only
        split
        · next hexp => exact ⟨rfl, Or.inl ⟨rfl, hexp, rfl⟩⟩
        · next hexp => exact ⟨rfl, Or.inr ⟨fun hk => hexp hk.2, rfl⟩⟩
    · rw [modifyPid_of_ne s hk]
      exact ⟨p, h, rfl, Or.inr ⟨fun hk' => hk (Option.some.inj hk'.1).symm, rfl⟩⟩

theorem expire_none {s : Scheduler} {k : ℕ} (hz now : ℕ) (h : s.processes k = none) :
    (s.expire hz now).processes k = none := by
  unfold expire
  split
  · exact h
  · exact modifyPid_none h _

theorem expire_currentPid (s : Scheduler) (hz now : ℕ) :
    (s.expire hz now).currentPid = s.currentPid := by
  unfold expire
  split <;> rfl

/-- What happens to the process that the cursor leaves. -/
theorem leave_some {s : Scheduler} {k : ℕ} {q : ProcessControlBlock}
    (h : s.processes k = some q) :
    ∃ r, s.leave.processes k = some r ∧ r.exitCode = q.exitCode ∧
      (s.currentPid = some k ∧ q.state = .running ∧ r.state = .standby ∨
        ¬ (s.currentPid = some k ∧ q.state = .running) ∧ r = q) := by
  unfold leave
  cases hcur : s.currentPid with
  | none => exact ⟨q, h, rfl, Or.inr ⟨fun hk => (by cases hk.1), rfl⟩⟩
  | some c =>
    dsimp only
    by_cases hk : k = c
    · subst hk
      rw [modifyPid_some h, if_pos rfl]
      refine ⟨_, rfl, ?_⟩
      split
      · next hs => exact ⟨rfl, Or.inl ⟨rfl, hs, rfl⟩⟩
      · next hs => exact ⟨rfl, Or.inr ⟨fun hk => hs hk.2, rfl⟩⟩
    · rw [modifyPid_of_ne s hk]
      exact ⟨q, h, rfl, Or.inr ⟨fun hk' => hk (Option.some.inj hk'.1).symm, rfl⟩⟩

theorem leave_none {s : Scheduler} {k : ℕ} (h : s.processes k = none) :
    s.leave.processes k = none := by
  unfold leave
  split
  · exact h
  · exact modifyPid_none h _

/-- After `schedule` has found a process, it alone runs. -/
theorem schedule_running {s : Scheduler} {hz now n : ℕ} {q : ProcessControlBlock}
    (hcur : ∀ k, s.stateOf k = some .running → s.currentPid = some k)
    (hpick : (s.expire hz now).pick = some n) (hq : (s.expire hz now).processes n = some q)
    (hs : q.state = .standby) :
    (s.schedule hz now).currentPid = some n ∧
      ∀ k, (s.schedule hz now).stateOf k = some .running ↔ k = n := by
  set e := s.expire hz now with he
  set l := if e.currentPid ≠ some n then e.leave else e with hl
  have hsched : s.schedule hz now =
      { l.modifyPid n fun p => { p with state := .running, lastRunTime := some now } with
        currentPid := some n } := by
    unfold schedule
    dsimp only
    rw [← he, hpick]
  -- nothing runs once the cursor has left its process
  have hidle : ∀ k p, l.processes k = some p → p.state ≠ .running := by
    intro k p hp hrun
    have hbefore : ∀ r, e.processes k = some r → r.state = .running → e.currentPid = some k := by
      intro r hr hrr
      cases hk : s.processes k with
      | none =>
        rw [he, expire_none hz now hk] at hr
        cases hr
      | some r₀ =>
        obtain ⟨r', hr', -, hcase⟩ := expire_some hz now hk
        rw [← he, hr] at hr'
        cases hr'
        rcases hcase with ⟨-, -, hst⟩ | ⟨-, rfl⟩
        · rw [hst] at hrr
          cases hrr
        · rw [he, expire_currentPid]
          exact hcur k (by rw [stateOf_some hk, hrr])
    rw [hl] at hp
    split at hp
    · next hne =>
      cases hk : e.processes k with
      | none =>
        rw [leave_none hk] at hp
        cases hp
      | some r =>
        obtain ⟨r', hr', -, hcase⟩ := leave_some hk
        rw [hp] at hr'
        cases hr'
        rcases hcase with ⟨-, -, hst⟩ | ⟨hno, rfl⟩
        · rw [hst] at hrun
          cases hrun
        · exact hno ⟨hbefore p hk hrun, hrun⟩
    · next hn =>
      have hcursor := hbefore p hp hrun
      rw [not_not.mp hn] at hcursor
      cases hcursor
      rw [hq] at hp
      cases hp
      rw [hs] at hrun
      cases hrun
  have hn : ∃ r, l.processes n = some r := by
    rw [hl]
    split
    · obtain ⟨r, hr, -⟩ := leave_some hq
      exact ⟨r, hr⟩
    · exact ⟨q, hq⟩
  refine ⟨by rw [hsched], fun k => ?_⟩
  rw [hsched]
  constructor
  · intro h
    by_contra hk
    obtain ⟨p, hp, hrun⟩ := stateOf_eq h
    exact hidle k p ((modifyPid_of_ne l hk _).symm.trans hp) hrun
  · rintro rfl
    obtain ⟨r, hr⟩ := hn
    exact stateOf_some ((modifyPid_some hr _).trans (by rw [if_pos rfl]))

/-- If `schedule` finds no process, the cursor is taken away, and a process that has time
left goes on in the state `Running`. -/
theorem schedule_idle {s : Scheduler} {hz now : ℕ} (hpick : (s.expire hz now).pick = none) :
    (s.schedule hz now).currentPid = none ∧
      (s.schedule hz now).processes = (s.expire hz now).processes := by
  unfold schedule
  dsimp only
  rw [hpick]
  exact ⟨rfl, rfl⟩

/-- A process that has time left, if any, is ready for `schedule` exactly if it was. -/
theorem ready_expire {s : Scheduler} {hz now c : ℕ} {p : ProcessControlBlock}
    (hcur : s.currentPid = some c) (hp : s.processes c = some p) (hexp : ¬ p.Expired hz now) :
    (s.expire hz now).Ready ↔ s.Ready := by
  have hsame : (s.expire hz now).processes = s.processes := by
    funext k
    cases hk : s.processes k with
    | none => exact expire_none hz now hk
    | some r =>
      obtain ⟨r', hr', -, ⟨hck, hr, -⟩ | ⟨-, rfl⟩⟩ := expire_some hz now hk
      · rw [hcur] at hck
        cases hck
        rw [hp] at hk
        cases hk
        exact absurd hr hexp
      · exact hr'
  unfold Ready
  rw [hsame]

/-! ## The process that runs -/

theorem RunState.congr {s s' : Scheduler} (h : s.RunState) (hcur : s'.currentPid = s.currentPid)
    (hrun : ∀ k, s'.stateOf k = some .running ↔ s.stateOf k = some .running) : s'.RunState := by
  refine ⟨fun p q hp hq => h.unique p q ((hrun p).mp hp) ((hrun q).mp hq), fun p => ?_⟩
  rw [hcur, hrun p]
  exact h.cursor p

/-- A change of one process that neither starts nor stops it. -/
theorem RunState.modify {s s' : Scheduler} {pid : ℕ}
    {f : ProcessControlBlock → ProcessControlBlock} (h : s.RunState)
    (hprocs : s'.processes = (s.modifyPid pid f).processes)
    (hcur : s'.currentPid = s.currentPid)
    (hf : ∀ p, (f p).state = .running ↔ p.state = .running) : s'.RunState := by
  refine h.congr hcur fun k => ?_
  have hstate : s'.stateOf k = (s.modifyPid pid f).stateOf k := by
    rw [stateOf, hprocs]
    rfl
  rw [hstate]
  cases hk : s.processes k with
  | none =>
    rw [stateOf, stateOf, modifyPid_none hk, hk]
  | some p =>
    rw [stateOf_some (modifyPid_some hk f), stateOf_some hk, Option.some_inj, Option.some_inj]
    split
    · exact hf p
    · exact Iff.rfl

/-- A change that stops one process, and takes the cursor away from it. -/
theorem RunState.stop {s s' : Scheduler} {pid : ℕ}
    {f : ProcessControlBlock → ProcessControlBlock} (h : s.RunState)
    (hprocs : s'.processes = (s.modifyPid pid f).processes)
    (hf : ∀ p, (f p).state ≠ .running)
    (hcur : s'.currentPid = if s.currentPid = some pid then none else s.currentPid) :
    s'.RunState := by
  have hrun : ∀ k, s'.stateOf k = some .running ↔ k ≠ pid ∧ s.stateOf k = some .running := by
    intro k
    have hstate : s'.stateOf k = (s.modifyPid pid f).stateOf k := by
      rw [stateOf, hprocs]
      rfl
    rw [hstate]
    cases hk : s.processes k with
    | none =>
      rw [stateOf, stateOf, modifyPid_none hk, hk]
      simp
    | some p =>
      rw [stateOf_some (modifyPid_some hk f), stateOf_some hk, Option.some_inj, Option.some_inj]
      by_cases hpid : k = pid
      · rw [if_pos hpid]
        exact ⟨fun hr => absurd hr (hf p), fun hr => absurd hpid hr.1⟩
      · rw [if_neg hpid]
        exact ⟨fun hr => ⟨hpid, hr⟩, fun hr => hr.2⟩
  refine ⟨fun p q hp hq => h.unique p q ((hrun p).mp hp).2 ((hrun q).mp hq).2, fun p => ?_⟩
  rw [hrun p, ← h.cursor p, hcur]
  by_cases hc : s.currentPid = some pid
  · rw [if_pos hc, hc]
    simp only [reduceCtorEq, Option.some.injEq, false_iff, not_and]
    exact fun hne he => hne he.symm
  · rw [if_neg hc]
    refine ⟨fun hp => ⟨?_, hp⟩, fun hp => hp.2⟩
    rintro rfl
    exact hc hp

/-- `kill_process` and `suspend_process` of a process that is not under the cursor stop
nothing that runs. -/
theorem RunState.stop_iff {s s' : Scheduler} {pid : ℕ}
    {f : ProcessControlBlock → ProcessControlBlock} (h : s.RunState)
    (hprocs : s'.processes = (s.modifyPid pid f).processes)
    (hcur : s'.currentPid = s.currentPid)
    (hf : ∀ p, p.state = .running → (f p).state ≠ .running)
    (hkeep : ∀ p, p.state ≠ .running → (f p).state ≠ .running) :
    s'.RunState ↔ s.currentPid ≠ some pid := by
  constructor
  · intro h' hc
    obtain ⟨p, hp, hrun⟩ := stateOf_eq ((h.cursor pid).mp hc)
    have hstop := (h'.cursor pid).mp (hcur.trans hc)
    obtain ⟨p', hp', hrun'⟩ := stateOf_eq hstop
    rw [hprocs, modifyPid_some hp, if_pos rfl] at hp'
    cases hp'
    exact hf p hrun hrun'
  · intro hc
    refine h.stop hprocs (fun p => ?_) (by rw [if_neg hc, hcur])
    by_cases hrun : p.state = .running
    · exact hf p hrun
    · exact hkeep p hrun

theorem RunState.create {s : Scheduler} (h : s.RunState) (priority : UInt8) :
    (s.createProcess priority).2.RunState := by
  refine h.congr rfl fun k => ?_
  have hnew : s.processes s.nextPid = none := s.bounded _ (Nat.le_refl _)
  by_cases hk : k = s.nextPid
  · subst hk
    rw [stateOf_some (s.createProcess_self priority), stateOf, hnew]
    simp [ProcessControlBlock.create]
  · rw [stateOf, s.createProcess_of_ne hk]
    rfl

/-- A change of the process under the cursor that stops it, with the cursor. -/
theorem RunState.stopCurrent {s : Scheduler} (h : s.RunState) {pid : ℕ}
    (hc : s.currentPid = some pid) {f : ProcessControlBlock → ProcessControlBlock}
    (hf : ∀ p, (f p).state ≠ .running) :
    RunState { s.modifyPid pid f with currentPid := none } :=
  h.stop rfl hf (by rw [if_pos hc])

theorem RunState.schedule_iff {s : Scheduler} (h : s.RunState) (hz now : ℕ) :
    (s.schedule hz now).RunState ↔ ∀ pid p, s.currentPid = some pid →
      s.processes pid = some p → ¬ p.Expired hz now → s.Ready := by
  have hcur : ∀ k, s.stateOf k = some .running → s.currentPid = some k :=
    fun k hk => (h.cursor k).mpr hk
  rcases (s.expire hz now).pick_cases with ⟨hpick, hready⟩ | ⟨n, q, hpick, hq, hs, hpos⟩
  · obtain ⟨hnone, hprocs⟩ := schedule_idle hpick
    constructor
    · intro h' pid p hc hp hexp
      -- the process under the cursor still runs, and the cursor is gone
      obtain ⟨q, hq, -, ⟨-, hexp', -⟩ | ⟨-, rfl⟩⟩ := expire_some hz now hp
      · exact absurd hexp' hexp
      · obtain ⟨r, hr, hrun⟩ := stateOf_eq ((h.cursor pid).mp hc)
        rw [hp] at hr
        cases hr
        have hbad := (h'.cursor pid).mpr (by rw [stateOf, hprocs, hq, Option.map_some, hrun])
        rw [hnone] at hbad
        cases hbad
    · intro hok
      have hidle : ∀ k, (s.schedule hz now).stateOf k ≠ some .running := by
        intro k hk
        obtain ⟨r, hr, hrun⟩ := stateOf_eq hk
        rw [hprocs] at hr
        cases hp : s.processes k with
        | none =>
          rw [expire_none hz now hp] at hr
          cases hr
        | some p =>
          obtain ⟨q, hq, -, ⟨-, -, hst⟩ | ⟨hno, rfl⟩⟩ := expire_some hz now hp
          · rw [hr] at hq
            cases hq
            rw [hst] at hrun
            cases hrun
          · rw [hr] at hq
            cases hq
            have hc := hcur k (by rw [stateOf_some hp, hrun])
            have hexp : ¬ r.Expired hz now := fun he => hno ⟨hc, he⟩
            exact hready ((ready_expire hc hp hexp).mpr (hok k r hc hp hexp))
      refine ⟨fun p _ hp _ => absurd hp (hidle p), fun p => ?_⟩
      rw [hnone]
      exact ⟨fun hp => (by cases hp), fun hp => absurd hp (hidle p)⟩
  · obtain ⟨hsome, hrun⟩ := schedule_running hcur hpick hq hs
    constructor
    · intro _ pid p hc hp hexp
      exact (ready_expire hc hp hexp).mp ⟨n, q, hq, hs, hpos⟩
    · intro _
      refine ⟨fun p q hp hq => ((hrun p).mp hp).trans ((hrun q).mp hq).symm, fun p => ?_⟩
      rw [hsome, hrun p, Option.some_inj]
      exact eq_comm

/-- A step keeps the cursor on the process that runs exactly if it is none of those that
`CursorOk` excludes. -/
theorem RunState.step_iff {s : Scheduler} (h : s.RunState) (i : SchedInput) :
    (s.step i).RunState ↔ s.CursorOk i := by
  obtain ⟨hz, now, op⟩ := i
  cases op with
  | createProcess priority => exact iff_of_true (h.create priority) trivial
  | schedule => exact h.schedule_iff hz now
  | blockCurrent =>
    refine iff_of_true ?_ trivial
    change s.blockCurrent.RunState
    unfold blockCurrent
    split
    · exact h
    · next hc => exact h.stopCurrent hc (fun _ => by simp)
  | wakeProcess pid =>
    obtain ⟨hprocs, hcur⟩ := s.moveState_processes pid (· == .waiting) .standby
    refine iff_of_true (h.modify hprocs hcur fun p => ?_) trivial
    by_cases hw : p.state = .waiting <;> simp [hw]
  | terminateCurrent exitCode =>
    refine iff_of_true ?_ trivial
    change (s.terminateCurrent exitCode).RunState
    unfold terminateCurrent
    split
    · exact h
    · next hc => exact h.stopCurrent hc (fun _ => by simp [ProcessControlBlock.terminate])
  | terminatePid pid exitCode =>
    refine iff_of_true (h.stop rfl (fun _ => ?_) rfl) trivial
    simp [ProcessControlBlock.terminate]
  | killProcess pid =>
    exact h.stop_iff rfl rfl (fun _ _ => by simp [ProcessControlBlock.terminate])
      (fun _ _ => by simp [ProcessControlBlock.terminate])
  | suspendProcess pid =>
    obtain ⟨hprocs, hcur⟩ := s.moveState_processes pid
      (fun st => st == .running || st == .standby) .suspended
    refine h.stop_iff hprocs hcur (fun p hp => by simp [hp]) fun p hp => ?_
    split
    · simp
    · exact hp
  | resumeProcess pid =>
    obtain ⟨hprocs, hcur⟩ := s.moveState_processes pid (· == .suspended) .standby
    refine iff_of_true (h.modify hprocs hcur fun p => ?_) trivial
    by_cases hw : p.state = .suspended <;> simp [hw]
  | setPriority pid priority =>
    exact iff_of_true (h.modify rfl rfl fun _ => Iff.rfl) trivial
  | setNice pid nice =>
    exact iff_of_true (h.modify rfl rfl fun _ => Iff.rfl) trivial

theorem runState_new : new.RunState := by
  refine ⟨fun p q hp _ => ?_, fun p => ⟨fun hp => ?_, fun hp => ?_⟩⟩ <;> cases hp

/-! ## The life of a process -/

/-- No process is in a state that the operations do not set. -/
def NoneIdle (s : Scheduler) : Prop :=
  ∀ pid p, s.processes pid = some p → p.state ≠ .new ∧ p.state ≠ .zombie

theorem EdgeOf.same {op : SchedOp} {pid : ℕ} {p p' : ProcessControlBlock}
    (hs : p'.state = p.state) (hcode : p'.exitCode = p.exitCode) : EdgeOf op pid p p' where
  edge := Or.inl hs
  terminated ht := by
    rw [hs, ht]
    exact ⟨by decide, by decide, hcode⟩
  suspended ht := Or.inl (hs.trans ht)
  waiting ht := Or.inl (hs.trans ht)

/-- A process that runs or is ready may go along every edge. -/
theorem EdgeOf.of_edge {op : SchedOp} {pid : ℕ} {p p' : ProcessControlBlock}
    (hs : p.state = .running ∨ p.state = .standby) (he : Edge p.state p'.state) :
    EdgeOf op pid p p' := by
  rcases hs with hs | hs <;> refine ⟨Or.inr he, fun h => ?_, fun h => ?_, fun h => ?_⟩ <;>
    (rw [hs] at h; cases h)

/-- The end of a process, once with every exit code and again with the same one. -/
theorem EdgeOf.terminate_iff {op : SchedOp} {pid : ℕ} {p : ProcessControlBlock} {exitCode : Int}
    (hidle : p.state ≠ .zombie) :
    EdgeOf op pid p (p.terminate exitCode) ↔
      (p.state = .terminated → p.exitCode = some exitCode) := by
  constructor
  · intro h ht
    exact (h.terminated ht).2.2.symm
  · intro h
    by_cases ht : p.state = .terminated
    · exact .same ht.symm (h ht).symm
    · exact ⟨Or.inr (.terminate ht hidle), fun h => absurd h ht, fun _ => Or.inr (Or.inr rfl),
        fun _ => Or.inr (Or.inr rfl)⟩

/-- A step that changes one process. -/
theorem lifeCycle_modify_iff {s : Scheduler} {i : SchedInput} {pid : ℕ}
    {f : ProcessControlBlock → ProcessControlBlock}
    (hprocs : (s.step i).processes = (s.modifyPid pid f).processes) :
    s.LifeCycle i ↔ ∀ p, s.processes pid = some p → EdgeOf i.op pid p (f p) := by
  constructor
  · intro h p hp
    obtain ⟨p', hp', he⟩ := h pid p hp
    rw [hprocs, modifyPid_some hp, if_pos rfl] at hp'
    cases hp'
    exact he
  · intro h k p hp
    refine ⟨_, by rw [hprocs, modifyPid_some hp], ?_⟩
    split
    · next hk =>
      subst hk
      exact h p hp
    · exact .same rfl rfl

/-- What `schedule` makes of a process after the end of time slices. -/
theorem schedule_some {s : Scheduler} {hz now k : ℕ} {q : ProcessControlBlock}
    (hq : (s.expire hz now).processes k = some q) :
    ∃ p', (s.schedule hz now).processes k = some p' ∧ p'.exitCode = q.exitCode ∧
      (p'.state = q.state ∨ q.state = .standby ∧ p'.state = .running ∨
        q.state = .running ∧ p'.state = .standby) := by
  rcases (s.expire hz now).pick_cases with ⟨hpick, -⟩ | ⟨n, r, hpick, hr, hs, -⟩
  · exact ⟨q, by rw [(schedule_idle hpick).2, hq], rfl, Or.inl rfl⟩
  · set e := s.expire hz now with he
    have hsched : (s.schedule hz now).processes =
        ((if e.currentPid ≠ some n then e.leave else e).modifyPid n
          fun p => { p with state := .running, lastRunTime := some now }).processes := by
      unfold schedule
      dsimp only
      rw [← he, hpick]
    have hleft : ∃ q', (if e.currentPid ≠ some n then e.leave else e).processes k = some q' ∧
        q'.exitCode = q.exitCode ∧
          (q.state = .running ∧ q'.state = .standby ∨ q' = q) := by
      split
      · obtain ⟨q', hq', hcode, ⟨-, hrun, hst⟩ | ⟨-, rfl⟩⟩ := leave_some hq
        · exact ⟨q', hq', hcode, Or.inl ⟨hrun, hst⟩⟩
        · exact ⟨q', hq', rfl, Or.inr rfl⟩
      · exact ⟨q, hq, rfl, Or.inr rfl⟩
    obtain ⟨q', hq', hcode, hcase⟩ := hleft
    refine ⟨_, by rw [hsched, modifyPid_some hq'], ?_⟩
    by_cases hk : k = n
    · subst hk
      rw [hr] at hq
      cases hq
      rw [if_pos rfl]
      exact ⟨hcode, Or.inr (Or.inl ⟨hs, rfl⟩)⟩
    · rw [if_neg hk]
      rcases hcase with ⟨hrun, hst⟩ | rfl
      · exact ⟨hcode, Or.inr (Or.inr ⟨hrun, hst⟩)⟩
      · exact ⟨hcode, Or.inl rfl⟩

theorem lifeCycle_schedule_iff {s : Scheduler} (hidle : s.NoneIdle) (hz now : ℕ) :
    s.LifeCycle ⟨hz, now, .schedule⟩ ↔ s.EndsOnce ⟨hz, now, .schedule⟩ := by
  constructor
  · intro h pid p hcur hp hexp
    obtain ⟨q, hq, -, ⟨-, -, hst⟩ | ⟨hno, -⟩⟩ := expire_some hz now hp
    · obtain ⟨p', hp', -, hcase⟩ := schedule_some hq
      have hback : p'.state = .standby ∨ p'.state = .running := by
        rcases hcase with hcase | ⟨-, hcase⟩ | ⟨hrun, -⟩
        · exact Or.inl (hcase.trans hst)
        · exact Or.inr hcase
        · rw [hst] at hrun
          cases hrun
      obtain ⟨p'', hp'', he⟩ := h pid p hp
      rw [show (s.step ⟨hz, now, .schedule⟩).processes pid = _ from hp'] at hp''
      cases hp''
      obtain ⟨hnew, hzombie⟩ := hidle pid p hp
      cases hstate : p.state with
      | running => exact Or.inl rfl
      | standby => exact Or.inr rfl
      | terminated =>
        obtain ⟨h₁, h₂, -⟩ := he.terminated hstate
        exact (hback.elim h₁ h₂).elim
      | suspended =>
        rcases he.suspended hstate with h' | h' | h' <;> rcases hback with hb | hb <;>
          simp_all
      | waiting =>
        rcases he.waiting hstate with h' | h' | h' <;> rcases hback with hb | hb <;>
          simp_all
      | new => exact absurd hstate hnew
      | zombie => exact absurd hstate hzombie
    · exact absurd ⟨hcur, hexp⟩ hno
  · intro h pid p hp
    obtain ⟨q, hq, hcode, hexp⟩ := expire_some hz now hp
    obtain ⟨p', hp', hcode', hcase⟩ := schedule_some hq
    refine ⟨p', hp', ?_⟩
    rcases hexp with ⟨hcur, hexp, hst⟩ | ⟨-, rfl⟩
    · have hback : p'.state = .standby ∨ p'.state = .running := by
        rcases hcase with hcase | ⟨-, hcase⟩ | ⟨hrun, -⟩
        · exact Or.inl (hcase.trans hst)
        · exact Or.inr hcase
        · rw [hst] at hrun
          cases hrun
      have hlive := h pid p hcur hp hexp
      by_cases hsame : p'.state = p.state
      · exact .same hsame (hcode'.trans hcode)
      · refine .of_edge hlive ?_
        rcases hlive with hl | hl <;> rcases hback with hb | hb <;> rw [hl, hb]
        · exact .expire
        · exact absurd (hb.trans hl.symm) hsame
        · exact absurd (hb.trans hl.symm) hsame
        · exact .run
    · rcases hcase with hs | ⟨hs, hs'⟩ | ⟨hs, hs'⟩
      · exact .same hs hcode'
      · exact .of_edge (Or.inr hs) (by rw [hs, hs']; exact .run)
      · exact .of_edge (Or.inl hs) (by rw [hs, hs']; exact .expire)

/-- A step takes every process along an edge exactly if it takes none back. -/
theorem lifeCycle_iff {s : Scheduler} (hidle : s.NoneIdle) (i : SchedInput) :
    s.LifeCycle i ↔ s.EndsOnce i := by
  obtain ⟨hz, now, op⟩ := i
  cases op with
  | schedule => exact lifeCycle_schedule_iff hidle hz now
  | createProcess priority =>
    refine iff_of_true (fun pid p hp => ⟨p, ?_, .same rfl rfl⟩) trivial
    have hne : pid ≠ s.nextPid := by
      rintro rfl
      rw [s.bounded _ (Nat.le_refl _)] at hp
      cases hp
    exact (s.createProcess_of_ne hne priority).trans hp
  | blockCurrent =>
    cases hc : s.currentPid with
    | none =>
      have hstep : s.step ⟨hz, now, .blockCurrent⟩ = s := by
        change s.blockCurrent = s
        unfold blockCurrent
        rw [hc]
      refine iff_of_true (fun pid p hp => ⟨p, by rw [hstep, hp], .same rfl rfl⟩) ?_
      intro pid p hpid
      rw [hc] at hpid
      cases hpid
    | some c =>
      have hprocs : (s.step ⟨hz, now, .blockCurrent⟩).processes =
          (s.modifyPid c fun p => { p with state := .waiting }).processes := by
        change s.blockCurrent.processes = _
        unfold blockCurrent
        rw [hc]
      rw [lifeCycle_modify_iff hprocs]
      constructor
      · intro h pid p hpid hp
        rw [hc] at hpid
        cases hpid
        rcases (h p hp).edge with hsame | he
        · exact Or.inr hsame.symm
        · cases hs : p.state <;> rw [hs] at he <;> cases he
          exact Or.inl rfl
      · intro h p hp
        rcases h c p hc hp with hs | hs
        · exact .of_edge (Or.inl hs) (by rw [hs]; exact .block)
        · exact .same hs.symm rfl
  | wakeProcess pid =>
    have hprocs : (s.step ⟨hz, now, .wakeProcess pid⟩).processes = _ :=
      (s.moveState_processes pid (· == .waiting) .standby).1
    refine iff_of_true ((lifeCycle_modify_iff hprocs).mpr fun p hp => ?_) trivial
    split
    · next hw =>
      have hs := beq_iff_eq.mp hw
      refine ⟨Or.inr (by rw [hs]; exact .wake), fun h => ?_, fun h => ?_,
        fun _ => Or.inr (Or.inl rfl)⟩ <;> (rw [hs] at h; cases h)
    · exact .same rfl rfl
  | terminateCurrent exitCode =>
    cases hc : s.currentPid with
    | none =>
      have hstep : s.step ⟨hz, now, .terminateCurrent exitCode⟩ = s := by
        change s.terminateCurrent exitCode = s
        unfold terminateCurrent
        rw [hc]
      refine iff_of_true (fun pid p hp => ⟨p, by rw [hstep, hp], .same rfl rfl⟩) ?_
      intro pid p hpid
      rw [hc] at hpid
      cases hpid
    | some c =>
      have hprocs : (s.step ⟨hz, now, .terminateCurrent exitCode⟩).processes =
          (s.modifyPid c fun p => p.terminate exitCode).processes := by
        change (s.terminateCurrent exitCode).processes = _
        unfold terminateCurrent
        rw [hc]
      rw [lifeCycle_modify_iff hprocs]
      constructor
      · intro h pid p hpid hp
        rw [hc] at hpid
        cases hpid
        exact (EdgeOf.terminate_iff (hidle c p hp).2).mp (h p hp)
      · exact fun h p hp => (EdgeOf.terminate_iff (hidle c p hp).2).mpr (h c p hc hp)
  | terminatePid pid exitCode =>
    rw [lifeCycle_modify_iff (f := fun p => p.terminate exitCode) rfl]
    exact forall₂_congr fun p hp => EdgeOf.terminate_iff (hidle pid p hp).2
  | killProcess pid =>
    rw [lifeCycle_modify_iff (f := fun p => p.terminate 137) rfl]
    exact forall₂_congr fun p hp => EdgeOf.terminate_iff (hidle pid p hp).2
  | suspendProcess pid =>
    have hprocs : (s.step ⟨hz, now, .suspendProcess pid⟩).processes = _ :=
      (s.moveState_processes pid 
      (fun st => st == .running || st == .standby) .suspended).1
    refine iff_of_true ((lifeCycle_modify_iff hprocs).mpr fun p hp => ?_) trivial
    split
    · next hw =>
      rw [Bool.or_eq_true, beq_iff_eq, beq_iff_eq] at hw
      refine .of_edge hw ?_
      rcases hw with hs | hs <;> rw [hs]
      · exact .suspend
      · exact .suspendReady
    · exact .same rfl rfl
  | resumeProcess pid =>
    have hprocs : (s.step ⟨hz, now, .resumeProcess pid⟩).processes = _ :=
      (s.moveState_processes pid (· == .suspended) .standby).1
    refine iff_of_true ((lifeCycle_modify_iff hprocs).mpr fun p hp => ?_) trivial
    split
    · next hw =>
      have hs := beq_iff_eq.mp hw
      refine ⟨Or.inr (by rw [hs]; exact .resume), fun h => ?_, fun _ => Or.inr (Or.inl rfl),
        fun h => ?_⟩ <;> (rw [hs] at h; cases h)
    · exact .same rfl rfl
  | setPriority pid priority =>
    have hprocs : (s.step ⟨hz, now, .setPriority pid priority⟩).processes =
        (s.modifyPid pid fun p => { p with priority := priority }.recompute).processes := rfl
    exact iff_of_true ((lifeCycle_modify_iff hprocs).mpr fun _ _ => .same rfl rfl) trivial
  | setNice pid nice =>
    have hprocs : (s.step ⟨hz, now, .setNice pid nice⟩).processes = (s.modifyPid pid fun p =>
        { p with nice := min (max nice (-20)) 19 }.recompute).processes := rfl
    exact iff_of_true ((lifeCycle_modify_iff hprocs).mpr fun _ _ => .same rfl rfl) trivial

theorem NoneIdle.modify {s s' : Scheduler} (h : s.NoneIdle) {pid : ℕ}
    {f : ProcessControlBlock → ProcessControlBlock}
    (hprocs : s'.processes = (s.modifyPid pid f).processes)
    (hf : ∀ p, (f p).state = p.state ∨ (f p).state ≠ .new ∧ (f p).state ≠ .zombie) :
    s'.NoneIdle := by
  intro k p' hp'
  rw [hprocs] at hp'
  cases hp : s.processes k with
  | none =>
    rw [modifyPid_none hp] at hp'
    cases hp'
  | some p =>
    rw [modifyPid_some hp] at hp'
    cases hp'
    split
    · rcases hf p with he | he
      · rw [he]
        exact h k p hp
      · exact he
    · exact h k p hp

theorem schedule_none {s : Scheduler} {hz now k : ℕ} (h : s.processes k = none) :
    (s.schedule hz now).processes k = none := by
  have he := expire_none hz now h
  unfold schedule
  dsimp only
  split
  · exact he
  · refine modifyPid_none ?_ _
    split
    · exact leave_none he
    · exact he

theorem NoneIdle.step {s : Scheduler} (h : s.NoneIdle) (i : SchedInput) :
    (s.step i).NoneIdle := by
  obtain ⟨hz, now, op⟩ := i
  cases op with
  | createProcess priority =>
    intro pid p hp
    by_cases hpid : pid = s.nextPid
    · subst hpid
      obtain rfl := Option.some.inj ((s.createProcess_self priority).symm.trans hp)
      exact ⟨by simp [ProcessControlBlock.create], by simp [ProcessControlBlock.create]⟩
    · exact h pid p ((s.createProcess_of_ne hpid priority).symm.trans hp)
  | schedule =>
    intro pid p' hp'
    cases hp : s.processes pid with
    | none =>
      rw [show (s.step ⟨hz, now, .schedule⟩).processes pid = none from schedule_none hp] at hp'
      cases hp'
    | some p =>
      obtain ⟨q, hq, -, hexp⟩ := expire_some hz now hp
      obtain ⟨p'', hp'', -, hcase⟩ := schedule_some hq
      obtain rfl := Option.some.inj (hp''.symm.trans hp')
      have hqs : q.state ≠ .new ∧ q.state ≠ .zombie := by
        rcases hexp with ⟨-, -, hst⟩ | ⟨-, rfl⟩
        · rw [hst]
          decide
        · exact h pid q hp
      rcases hcase with hs | ⟨-, hs⟩ | ⟨-, hs⟩ <;> rw [hs]
      · exact hqs
      · decide
      · decide
  | blockCurrent =>
    change s.blockCurrent.NoneIdle
    unfold blockCurrent
    split
    · exact h
    · exact h.modify rfl fun _ => Or.inr (by simp)
  | terminateCurrent exitCode =>
    change (s.terminateCurrent exitCode).NoneIdle
    unfold terminateCurrent
    split
    · exact h
    · exact h.modify rfl fun _ => Or.inr (by simp [ProcessControlBlock.terminate])
  | terminatePid pid exitCode =>
    exact h.modify rfl fun _ => Or.inr (by simp [ProcessControlBlock.terminate])
  | killProcess pid =>
    exact h.modify rfl fun _ => Or.inr (by simp [ProcessControlBlock.terminate])
  | wakeProcess pid =>
    refine h.modify (s.moveState_processes pid (· == .waiting) .standby).1 fun p => ?_
    split
    · exact Or.inr (by simp)
    · exact Or.inl rfl
  | suspendProcess pid =>
    refine h.modify (s.moveState_processes pid
      (fun st => st == .running || st == .standby) .suspended).1 fun p => ?_
    split
    · exact Or.inr (by simp)
    · exact Or.inl rfl
  | resumeProcess pid =>
    refine h.modify (s.moveState_processes pid (· == .suspended) .standby).1 fun p => ?_
    split
    · exact Or.inr (by simp)
    · exact Or.inl rfl
  | setPriority pid priority => exact h.modify rfl fun _ => Or.inl rfl
  | setNice pid nice => exact h.modify rfl fun _ => Or.inl rfl

end Scheduler

/-- In every run the cursor names the one process that runs in every state reached, exactly if
every step is `CursorOk`. -/
theorem scheduler_run_state (ops : List SchedInput) :
    After Scheduler.next Scheduler.RunState .new ops ↔
      Along Scheduler.next Scheduler.CursorOk .new ops :=
  after_iff_along (f := Scheduler.step) (fun _ i h => h.step_iff i) ops .new
    Scheduler.runState_new

/-- The process under the cursor is killed, and the cursor stays on it. -/
theorem not_scheduler_run_state_kill :
    ¬ After Scheduler.next Scheduler.RunState .new
      [⟨100, 0, .createProcess 100⟩, ⟨100, 0, .schedule⟩, ⟨100, 0, .killProcess 1⟩] := by
  intro h
  have hrun := (((h.2 _ rfl).2 _ rfl).2 _ rfl).cursor 1
  exact absurd (hrun.mp (by decide)) (by decide)

end VernisOS
