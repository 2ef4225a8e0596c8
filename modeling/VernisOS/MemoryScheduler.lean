import Mathlib.Algebra.Ring.Nat
import VernisOS.SchedulerChoice

/-!
# The scheduler without a cache

`kernel/core/verniskernel/src/memory.rs` has a scheduler of its own, which computes the effective
priority where it is needed and counts ten milliseconds for each tick. At 100 ticks a second the two
schedulers agree as long as no process that was created with a priority above 139 is preferred to an
earlier one at 139 (`schedulers_agree_iff`) : up to the choice, the other forgets the cache
(`Scheduler.forget`).
-/

open Run FirstMax

namespace VernisOS

/-- What the scheduler of `memory.rs` reads of its `ProcessControlBlock`. -/
structure MemProcess where
  state : ProcessState
  priority : UInt8
  nice : Int
  lastRunTime : Option ℕ
  timeQuantum : ℕ
  timeSliceRemaining : ℕ
  exitCode : Option Int

namespace MemProcess

/-- `ProcessControlBlock::new`, in the state that `create_process` sets. -/
def create (priority : UInt8) : MemProcess where
  state := .standby
  priority := priority
  nice := 0
  lastRunTime := none
  timeQuantum := defaultQuantum
  timeSliceRemaining := defaultQuantum
  exitCode := none

/-- `get_effective_priority`. -/
def getEffectivePriority (p : MemProcess) : UInt8 :=
  UInt8.ofNat (min (max (p.priority.toNat + p.nice * 2) 0) 139).toNat

end MemProcess

/-- The scheduler of `memory.rs`. Every process has a PID below `nextPid`. -/
structure MemScheduler where
  processes : ℕ → Option MemProcess
  currentPid : Option ℕ
  nextPid : ℕ
  bounded : ∀ pid, nextPid ≤ pid → processes pid = none

/-- `Instant::duration_since`. -/
def memDurationSince (now earlier : ℕ) : ℕ :=
  (now - earlier) * 10 * 1000000

namespace MemScheduler

/-- Change the process with a PID, if there is one. -/
def modifyPid (s : MemScheduler) (pid : ℕ) (f : MemProcess → MemProcess) : MemScheduler where
  processes := Function.update s.processes pid ((s.processes pid).map f)
  currentPid := s.currentPid
  nextPid := s.nextPid
  bounded k hk := by
    by_cases h : k = pid
    · subst h
      rw [Function.update_self, s.bounded k hk]
      rfl
    · rw [Function.update_of_ne h, s.bounded k hk]

/-- `Scheduler::new`. -/
def new : MemScheduler where
  processes _ := none
  currentPid := none
  nextPid := 1
  bounded _ _ := rfl

/-- `create_process`, with the new PID first. -/
def createProcess (s : MemScheduler) (priority : UInt8) : ℕ × MemScheduler :=
  (s.nextPid,
    { processes := Function.update s.processes s.nextPid (some (.create priority))
      currentPid := s.currentPid
      nextPid := s.nextPid + 1
      bounded := fun k hk => by
        rw [Function.update_of_ne (by omega), s.bounded k (by omega)] })

/-- The first part of `schedule`. -/
def expire (s : MemScheduler) (now : ℕ) : MemScheduler :=
  match s.currentPid with
  | none => s
  | some pid => s.modifyPid pid fun p =>
      match p.lastRunTime with
      | none => p
      | some lastRun =>
        if p.timeSliceRemaining ≤ memDurationSince now lastRun then
          { p with state := .standby, timeSliceRemaining := p.timeQuantum }
        else p

/-- The second part of `schedule` : the first process of the highest priority, above 0,
among those in `Standby`. -/
def pick (s : MemScheduler) : Option ℕ :=
  ((List.range s.nextPid).foldl (fun (best : Option ℕ × UInt8) pid =>
    match s.processes pid with
    | none => best
    | some p =>
      if p.state = .standby ∧ p.getEffectivePriority > best.2 then
        (some pid, p.getEffectivePriority)
      else best) (none, 0)).1

/-- The process that the cursor leaves. -/
def leave (s : MemScheduler) : MemScheduler :=
  match s.currentPid with
  | none => s
  | some pid => s.modifyPid pid fun p =>
      if p.state = .running then { p with state := .standby } else p

/-- `schedule`. -/
def schedule (s : MemScheduler) (now : ℕ) : MemScheduler :=
  let s := s.expire now
  match s.pick with
  | none => { s with currentPid := none }
  | some pid =>
    let s := if s.currentPid ≠ some pid then s.leave else s
    { s.modifyPid pid fun p => { p with state := .running, lastRunTime := some now } with
      currentPid := some pid }

/-- `block_current`. -/
def blockCurrent (s : MemScheduler) : MemScheduler :=
  match s.currentPid with
  | none => s
  | some pid =>
    { s.modifyPid pid fun p => { p with state := .waiting } with currentPid := none }

/-- What `wake_process`, `suspend_process` and `resume_process` share. -/
def moveState (s : MemScheduler) (pid : ℕ) (source : ProcessState → Bool)
    (target : ProcessState) : Bool × MemScheduler :=
  match s.processes pid with
  | none => (false, s)
  | some p =>
    if source p.state then (true, s.modifyPid pid fun p => { p with state := target })
    else (false, s)

/-- `wake_process`. -/
def wakeProcess (s : MemScheduler) (pid : ℕ) : Bool × MemScheduler :=
  s.moveState pid (· == .waiting) .standby

/-- `suspend_process`. -/
def suspendProcess (s : MemScheduler) (pid : ℕ) : Bool × MemScheduler :=
  s.moveState pid (fun st => st == .running || st == .standby) .suspended

/-- `resume_process`. -/
def resumeProcess (s : MemScheduler) (pid : ℕ) : Bool × MemScheduler :=
  s.moveState pid (· == .suspended) .standby

/-- `terminate_current`. -/
def terminateCurrent (s : MemScheduler) (exitCode : Int) : MemScheduler :=
  match s.currentPid with
  | none => s
  | some pid =>
    { s.modifyPid pid fun p => { p with state := .terminated, exitCode := some exitCode } with
      currentPid := none }

/-- `set_priority`. -/
def setPriority (s : MemScheduler) (pid : ℕ) (priority : UInt8) : MemScheduler :=
  s.modifyPid pid fun p => { p with priority := priority }

/-- `set_nice`. -/
def setNice (s : MemScheduler) (pid : ℕ) (nice : Int) : MemScheduler :=
  s.modifyPid pid fun p => { p with nice := min (max nice (-20)) 19 }

/-- The state of a process. -/
def stateOf (s : MemScheduler) (pid : ℕ) : Option ProcessState :=
  (s.processes pid).map MemProcess.state

end MemScheduler

/-! ## Both schedulers -/

/-- The calls that both schedulers are driven with. -/
inductive CommonOp where
  | createProcess (priority : UInt8)
  | schedule
  | blockCurrent
  | wakeProcess (pid : ℕ)
  | terminateCurrent (exitCode : Int)
  | suspendProcess (pid : ℕ)
  | resumeProcess (pid : ℕ)
  | setPriority (pid : ℕ) (priority : UInt8)
  | setNice (pid : ℕ) (nice : Int)

/-- A call, and the tick that the clock has then. -/
structure CommonInput where
  tick : UInt32
  op : CommonOp

/-- A call of the scheduler with a cache. -/
def CommonOp.schedOp : CommonOp → SchedOp
  | .createProcess priority => .createProcess priority
  | .schedule => .schedule
  | .blockCurrent => .blockCurrent
  | .wakeProcess pid => .wakeProcess pid
  | .terminateCurrent exitCode => .terminateCurrent exitCode
  | .suspendProcess pid => .suspendProcess pid
  | .resumeProcess pid => .resumeProcess pid
  | .setPriority pid priority => .setPriority pid priority
  | .setNice pid nice => .setNice pid nice

/-- A call of the scheduler with a cache, at 100 ticks a second. -/
def Scheduler.commonStep (s : Scheduler) (i : CommonInput) : Scheduler :=
  s.step ⟨100, i.tick.toNat, i.op.schedOp⟩

/-- A call of the scheduler without a cache. -/
def MemScheduler.commonStep (s : MemScheduler) (i : CommonInput) : MemScheduler :=
  match i.op with
  | .createProcess priority => (s.createProcess priority).2
  | .schedule => s.schedule i.tick.toNat
  | .blockCurrent => s.blockCurrent
  | .wakeProcess pid => (s.wakeProcess pid).2
  | .terminateCurrent exitCode => s.terminateCurrent exitCode
  | .suspendProcess pid => (s.suspendProcess pid).2
  | .resumeProcess pid => (s.resumeProcess pid).2
  | .setPriority pid priority => s.setPriority pid priority
  | .setNice pid nice => s.setNice pid nice

/-- The two schedulers return the same PIDs and have every process in the same state. -/
structure Agree (s : Scheduler) (t : MemScheduler) : Prop where
  currentPid : s.currentPid = t.currentPid
  nextPid : s.nextPid = t.nextPid
  state : ∀ pid, s.stateOf pid = t.stateOf pid

/-- A call of `schedule` prefers no cached priority above 139. -/
def Scheduler.CommonOk (s : Scheduler) (i : CommonInput) : Prop :=
  match i.op with
  | .schedule => (s.expire 100 i.tick.toNat).TopOk
  | _ => True

/-! ## Forgetting the cache -/

/-- A process without the cache and the signals. -/
def ProcessControlBlock.forget (p : ProcessControlBlock) : MemProcess :=
  ⟨p.state, p.priority, p.nice, p.lastRunTime, p.timeQuantum, p.timeSliceRemaining, p.exitCode⟩

namespace Scheduler

/-- The scheduler without the caches. -/
def forget (s : Scheduler) : MemScheduler where
  processes pid := (s.processes pid).map ProcessControlBlock.forget
  currentPid := s.currentPid
  nextPid := s.nextPid
  bounded pid hpid := by
    rw [s.bounded pid hpid]
    rfl

theorem memScheduler_ext {t t' : MemScheduler} (hprocs : t.processes = t'.processes)
    (hcur : t.currentPid = t'.currentPid) (hnext : t.nextPid = t'.nextPid) : t = t' := by
  cases t
  cases t'
  cases hprocs
  cases hcur
  cases hnext
  rfl

theorem forget_modifyPid (s : Scheduler) (pid : ℕ) {f : ProcessControlBlock → ProcessControlBlock}
    {g : MemProcess → MemProcess} (h : ∀ p, (f p).forget = g p.forget) :
    (s.modifyPid pid f).forget = s.forget.modifyPid pid g := by
  refine memScheduler_ext (funext fun k => ?_) rfl rfl
  change ((s.modifyPid pid f).processes k).map ProcessControlBlock.forget =
    Function.update s.forget.processes pid ((s.forget.processes pid).map g) k
  by_cases hk : k = pid
  · subst hk
    rw [modifyPid_self, Function.update_self]
    change _ = ((s.processes k).map ProcessControlBlock.forget).map g
    cases s.processes k with
    | none => rfl
    | some p => exact congrArg some (h p)
  · rw [modifyPid_of_ne s hk, Function.update_of_ne hk]
    rfl

theorem forget_setCurrent (s : Scheduler) (cur : Option ℕ) :
    ({ s with currentPid := cur } : Scheduler).forget = { s.forget with currentPid := cur } :=
  rfl

theorem forget_createProcess (s : Scheduler) (priority : UInt8) :
    (s.createProcess priority).2.forget = (s.forget.createProcess priority).2 := by
  refine memScheduler_ext (funext fun k => ?_) rfl rfl
  change ((s.createProcess priority).2.processes k).map ProcessControlBlock.forget =
    Function.update s.forget.processes s.nextPid (some (.create priority)) k
  by_cases hk : k = s.nextPid
  · subst hk
    rw [createProcess_self, Function.update_self]
    rfl
  · rw [createProcess_of_ne s hk, Function.update_of_ne hk]
    rfl

theorem forget_moveState (s : Scheduler) (pid : ℕ) (source : ProcessState → Bool)
    (target : ProcessState) :
    (s.moveState pid source target).2.forget = (s.forget.moveState pid source target).2 := by
  rw [Scheduler.moveState, MemScheduler.moveState]
  change _ = (match (s.processes pid).map ProcessControlBlock.forget with
    | none => (false, s.forget)
    | some p =>
      if source p.state then
        (true, s.forget.modifyPid pid fun p => { p with state := target })
      else (false, s.forget)).2
  cases s.processes pid with
  | none => rfl
  | some p =>
    dsimp only [Option.map_some]
    by_cases hsource : source p.state = true
    · rw [if_pos hsource, if_pos (show source p.forget.state = true from hsource)]
      exact s.forget_modifyPid pid fun p => rfl
    · rw [if_neg hsource, if_neg (show ¬ source p.forget.state = true from hsource)]

/-- At 100 ticks a second, a tick is ten milliseconds. -/
theorem durationSince_eq {now : ℕ} (earlier : ℕ) (h : now < 2 ^ 32) :
    durationSince 100 now earlier = memDurationSince now earlier := by
  rw [durationSince, memDurationSince, if_neg (by decide)]
  omega

theorem forget_expire (s : Scheduler) {now : ℕ} (h : now < 2 ^ 32) :
    (s.expire 100 now).forget = s.forget.expire now := by
  rw [Scheduler.expire, MemScheduler.expire]
  change _ = match s.currentPid with
    | none => s.forget
    | some pid => s.forget.modifyPid pid _
  cases s.currentPid with
  | none => rfl
  | some pid =>
    refine s.forget_modifyPid pid fun p => ?_
    obtain ⟨state, priority, nice, cache, lastRunTime, quantum, left, exitCode, signals⟩ := p
    cases lastRunTime with
    | none => rfl
    | some lastRun =>
      change (if left ≤ durationSince 100 now lastRun then _ else _ : ProcessControlBlock).forget =
        if left ≤ memDurationSince now lastRun then (_ : MemProcess) else _
      rw [durationSince_eq lastRun h]
      by_cases hle : left ≤ memDurationSince now lastRun
      · rw [if_pos hle, if_pos hle]
        rfl
      · rw [if_neg hle, if_neg hle]

theorem forget_leave (s : Scheduler) : s.leave.forget = s.forget.leave := by
  rw [Scheduler.leave, MemScheduler.leave]
  change _ = match s.currentPid with
    | none => s.forget
    | some pid => s.forget.modifyPid pid _
  cases s.currentPid with
  | none => rfl
  | some pid =>
    refine s.forget_modifyPid pid fun p => ?_
    change _ = if p.state = .running then _ else _
    split
    · rfl
    · rfl

/-- Without the caches, the walk is over the effective priorities. -/
theorem forget_pick (s : Scheduler) : s.forget.pick = s.pickEffective := by
  have hprio : ∀ p : ProcessControlBlock, p.forget.getEffectivePriority.toNat = p.effective :=
    fun p => UInt8.toNat_ofNat_of_lt' (by
      rw [UInt8.size]
      exact Nat.lt_of_le_of_lt p.effective_le (by decide))
  have hkey : (fun pid => (s.forget.processes pid).bind fun p =>
      if p.state = .standby then some p.getEffectivePriority.toNat else none) =
        s.standbyKey ProcessControlBlock.effective := by
    funext pid
    change ((s.processes pid).map ProcessControlBlock.forget).bind _ = (s.processes pid).bind _
    cases s.processes pid with
    | none => rfl
    | some p =>
      change (if p.state = .standby then some p.forget.getEffectivePriority.toNat else none) = _
      rw [hprio]
      rfl
  have hwalk := fold_walk s.forget.processes MemProcess.state MemProcess.getEffectivePriority
    (List.range s.nextPid) (none, 0)
  rw [hkey] at hwalk
  refine Eq.trans ?_ hwalk
  rw [MemScheduler.pick]
  congr 2
  funext best pid
  cases s.forget.processes pid with
  | none => rfl
  | some p => rfl

/-- The two schedulers choose alike if no cached priority above 139 is preferred. -/
theorem forget_schedule {s : Scheduler} {now : ℕ} (h : now < 2 ^ 32)
    (hpick : (s.expire 100 now).pick = (s.expire 100 now).pickEffective) :
    (s.schedule 100 now).forget = s.forget.schedule now := by
  rw [Scheduler.schedule, MemScheduler.schedule, ← s.forget_expire h]
  dsimp only
  rw [forget_pick, ← hpick]
  cases (s.expire 100 now).pick with
  | none => rfl
  | some pid =>
    have hleft : (if (s.expire 100 now).currentPid ≠ some pid then (s.expire 100 now).leave
        else s.expire 100 now).forget = if (s.expire 100 now).forget.currentPid ≠ some pid then
          (s.expire 100 now).forget.leave else (s.expire 100 now).forget := by
      change _ = if (s.expire 100 now).currentPid ≠ some pid then _ else _
      split
      · exact forget_leave _
      · rfl
    dsimp only
    rw [forget_setCurrent, ← hleft]
    rw [forget_modifyPid]
    exact fun p => rfl

/-- The PID that the scheduler without a cache returns. -/
theorem forget_schedule_currentPid (s : Scheduler) {now : ℕ} (h : now < 2 ^ 32) :
    (s.forget.schedule now).currentPid = (s.expire 100 now).pickEffective := by
  rw [MemScheduler.schedule, ← s.forget_expire h]
  dsimp only
  rw [forget_pick]
  cases (s.expire 100 now).pickEffective with
  | none => rfl
  | some pid => rfl

theorem agree_forget (s : Scheduler) : Agree s s.forget where
  currentPid := rfl
  nextPid := rfl
  state pid := by
    change (s.processes pid).map _ = ((s.processes pid).map ProcessControlBlock.forget).map _
    rw [Option.map_map]
    rfl

/-- What changes the process under the cursor and takes the cursor away. -/
theorem forget_stopCurrent (s : Scheduler) (pid : ℕ)
    {f : ProcessControlBlock → ProcessControlBlock} {g : MemProcess → MemProcess}
    (h : ∀ p, (f p).forget = g p.forget) :
    ({ s.modifyPid pid f with currentPid := none } : Scheduler).forget =
      { s.forget.modifyPid pid g with currentPid := none } := by
  rw [forget_setCurrent, s.forget_modifyPid pid h]

/-- A call that prefers no cached priority above 139 forgets the caches. -/
theorem forget_commonStep {s : Scheduler} (h : s.CachesOk) {i : CommonInput} (hok : s.CommonOk i) :
    (s.commonStep i).forget = s.forget.commonStep i := by
  obtain ⟨tick, op⟩ := i
  cases op with
  | createProcess priority => exact s.forget_createProcess priority
  | schedule =>
    exact forget_schedule tick.toNat_lt ((pick_eq_iff (h.expire 100 tick.toNat)).mpr hok)
  | blockCurrent =>
    change s.blockCurrent.forget = s.forget.blockCurrent
    rw [Scheduler.blockCurrent, MemScheduler.blockCurrent]
    change _ = match s.currentPid with
      | none => s.forget
      | some pid => _
    cases s.currentPid with
    | none => rfl
    | some pid => exact s.forget_stopCurrent pid fun p => rfl
  | wakeProcess pid => exact s.forget_moveState pid _ _
  | terminateCurrent exitCode =>
    change (s.terminateCurrent exitCode).forget = s.forget.terminateCurrent exitCode
    rw [Scheduler.terminateCurrent, MemScheduler.terminateCurrent]
    change _ = match s.currentPid with
      | none => s.forget
      | some pid => _
    cases s.currentPid with
    | none => rfl
    | some pid => exact s.forget_stopCurrent pid fun p => rfl
  | suspendProcess pid => exact s.forget_moveState pid _ _
  | resumeProcess pid => exact s.forget_moveState pid _ _
  | setPriority pid priority => exact s.forget_modifyPid pid fun p => rfl
  | setNice pid nice => exact s.forget_modifyPid pid fun p => rfl

end Scheduler

/-- Driven with the same calls, the two schedulers agree after every step exactly if no call of
`schedule` prefers a cached priority above 139. -/
theorem schedulers_agree_iff (calls : List CommonInput) :
    (∀ pre, pre <+: calls → Agree (pre.foldl Scheduler.commonStep .new)
      (pre.foldl MemScheduler.commonStep .new)) ↔
      Along (fun s i => some (s.commonStep i)) Scheduler.CommonOk .new calls := by
  refine lockstep_iff (I := fun (s : Scheduler) t => s.CachesOk ∧ t = s.forget) ?_ ?_ ?_ calls
    Scheduler.new MemScheduler.new
    ⟨Scheduler.cachesOk_new, Scheduler.memScheduler_ext rfl rfl rfl⟩
  · rintro s t ⟨-, rfl⟩
    exact s.agree_forget
  · rintro s t i ⟨hcaches, rfl⟩ hok
    exact ⟨hcaches.step _, (Scheduler.forget_commonStep hcaches hok).symm⟩
  · rintro s t ⟨tick, op⟩ ⟨hcaches, rfl⟩ hno hagree
    cases op with
    | schedule =>
      have hcur : (s.schedule 100 tick.toNat).currentPid =
          (s.forget.schedule tick.toNat).currentPid := hagree.currentPid
      rw [Scheduler.schedule_currentPid, s.forget_schedule_currentPid tick.toNat_lt] at hcur
      exact hno ((Scheduler.pick_eq_iff (hcaches.expire 100 tick.toNat)).mp hcur)
    | _ => exact hno trivial

/-- A process created with the priority 200 is preferred to an earlier one at 139. -/
theorem not_schedulers_agree : ¬ ∀ calls pre : List CommonInput, pre <+: calls →
    Agree (pre.foldl Scheduler.commonStep .new) (pre.foldl MemScheduler.commonStep .new) := by
  intro h
  have hcur := (h [⟨0, .createProcess 139⟩, ⟨0, .createProcess 200⟩, ⟨0, .schedule⟩] _
    (List.prefix_refl _)).currentPid
  exact absurd hcur (by decide)

end VernisOS
