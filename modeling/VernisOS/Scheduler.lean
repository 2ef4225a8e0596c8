import Mathlib.Data.Nat.Notation
import Mathlib.Logic.Function.Basic

/-!
# The process table

The scheduler of `kernel/core/verniskernel/src/scheduler.rs` : a table of processes under
their PIDs and a cursor `currentPid`, which only `schedule` moves to another process. The
table is ordered by PID, so a walk of it visits the PIDs below `nextPid` from below. Times
are ticks of the timer, durations nanoseconds. What is only counted (`cpu_time`, the idle
time, the context switches) is left out, and so is `wait_reason`, which nothing reads.
-/

namespace VernisOS

/-- `ProcessState`. -/
inductive ProcessState where
  | new
  | standby
  | running
  | waiting
  | suspended
  | terminated
  | zombie
  deriving DecidableEq

/-- What the scheduler reads of a `ProcessControlBlock`, and what it keeps of its end. -/
structure ProcessControlBlock where
  state : ProcessState
  priority : UInt8
  nice : Int
  cachedEffectivePriority : UInt8
  lastRunTime : Option ℕ
  timeQuantum : ℕ
  timeSliceRemaining : ℕ
  exitCode : Option Int
  signalPending : UInt64

/-- 100 ms. -/
def defaultQuantum : ℕ := 100000000

namespace ProcessControlBlock

/-- `ProcessControlBlock::new`, in the state that `create_process` sets. -/
def create (priority : UInt8) : ProcessControlBlock where
  state := .standby
  priority := priority
  nice := 0
  cachedEffectivePriority := priority
  lastRunTime := none
  timeQuantum := defaultQuantum
  timeSliceRemaining := defaultQuantum
  exitCode := none
  signalPending := 0

/-- `recompute_effective_priority`. -/
def recompute (p : ProcessControlBlock) : ProcessControlBlock :=
  { p with
    cachedEffectivePriority := UInt8.ofNat (min (max (p.priority.toNat + p.nice * 2) 0) 139).toNat }

/-- `signal_send`, of a process. -/
def signalSend (p : ProcessControlBlock) (sig : UInt8) : ProcessControlBlock :=
  if sig < 64 then { p with signalPending := p.signalPending ||| (1 <<< sig.toUInt64) } else p

/-- The process has died. -/
def terminate (p : ProcessControlBlock) (exitCode : Int) : ProcessControlBlock :=
  { p with state := .terminated, exitCode := some exitCode }

end ProcessControlBlock

/-- The scheduler. Every process has a PID below `nextPid`. -/
structure Scheduler where
  processes : ℕ → Option ProcessControlBlock
  currentPid : Option ℕ
  nextPid : ℕ
  bounded : ∀ pid, nextPid ≤ pid → processes pid = none

/-- `Instant::duration_since`, at `hz` ticks a second. -/
def durationSince (hz now earlier : ℕ) : ℕ :=
  min ((now - earlier) * 1000000000 / if hz = 0 then 100 else hz) 18446744073709551615

namespace Scheduler

/-- Change the process with a PID, if there is one : what `get_mut` is used for. -/
def modifyPid (s : Scheduler) (pid : ℕ) (f : ProcessControlBlock → ProcessControlBlock) :
    Scheduler where
  processes := Function.update s.processes pid ((s.processes pid).map f)
  currentPid := s.currentPid
  nextPid := s.nextPid
  bounded k hk := by
    by_cases h : k = pid
    · subst h
      rw [Function.update_self, s.bounded k hk]
      rfl
    · rw [Function.update_of_ne h, s.bounded k hk]

/-- `Scheduler::new`. -/
def new : Scheduler where
  processes _ := none
  currentPid := none
  nextPid := 1
  bounded _ _ := rfl

/-- `create_process`, with the new PID first. -/
def createProcess (s : Scheduler) (priority : UInt8) : ℕ × Scheduler :=
  (s.nextPid,
    { processes := Function.update s.processes s.nextPid (some (.create priority))
      currentPid := s.currentPid
      nextPid := s.nextPid + 1
      bounded := fun k hk => by
        rw [Function.update_of_ne (by omega), s.bounded k (by omega)] })

/-- The first part of `schedule` : the process that has used up its time slice waits for
its next turn, whatever its state was. -/
def expire (s : Scheduler) (hz now : ℕ) : Scheduler :=
  match s.currentPid with
  | none => s
  | some pid => s.modifyPid pid fun p =>
      match p.lastRunTime with
      | none => p
      | some lastRun =>
        if p.timeSliceRemaining ≤ durationSince hz now lastRun then
          { p with state := .standby, timeSliceRemaining := p.timeQuantum }
        else p

/-- The second part of `schedule` : the first process of the highest priority, above 0,
among those in `Standby`. -/
def pick (s : Scheduler) : Option ℕ :=
  ((List.range s.nextPid).foldl (fun (best : Option ℕ × UInt8) pid =>
    match s.processes pid with
    | none => best
    | some p =>
      if p.state = .standby ∧ p.cachedEffectivePriority > best.2 then
        (some pid, p.cachedEffectivePriority)
      else best) (none, 0)).1

/-- The process that the cursor leaves. -/
def leave (s : Scheduler) : Scheduler :=
  match s.currentPid with
  | none => s
  | some pid => s.modifyPid pid fun p =>
      if p.state = .running then { p with state := .standby } else p

/-- `schedule`. -/
def schedule (s : Scheduler) (hz now : ℕ) : Scheduler :=
  let s := s.expire hz now
  match s.pick with
  | none => { s with currentPid := none }
  | some pid =>
    let s := if s.currentPid ≠ some pid then s.leave else s
    { s.modifyPid pid fun p => { p with state := .running, lastRunTime := some now } with
      currentPid := some pid }

/-- `block_current`. -/
def blockCurrent (s : Scheduler) : Scheduler :=
  match s.currentPid with
  | none => s
  | some pid =>
    { s.modifyPid pid fun p => { p with state := .waiting } with currentPid := none }

/-- What `wake_process`, `suspend_process` and `resume_process` share : a process in one of
the states of `source` changes to `target`. The result says whether it did. -/
def moveState (s : Scheduler) (pid : ℕ) (source : ProcessState → Bool) (target : ProcessState) :
    Bool × Scheduler :=
  match s.processes pid with
  | none => (false, s)
  | some p =>
    if source p.state then (true, s.modifyPid pid fun p => { p with state := target })
    else (false, s)

/-- `wake_process`. -/
def wakeProcess (s : Scheduler) (pid : ℕ) : Bool × Scheduler :=
  s.moveState pid (· == .waiting) .standby

/-- `suspend_process`. The cursor stays where it is. -/
def suspendProcess (s : Scheduler) (pid : ℕ) : Bool × Scheduler :=
  s.moveState pid (fun st => st == .running || st == .standby) .suspended

/-- `resume_process`. -/
def resumeProcess (s : Scheduler) (pid : ℕ) : Bool × Scheduler :=
  s.moveState pid (· == .suspended) .standby

/-- `terminate_current`. -/
def terminateCurrent (s : Scheduler) (exitCode : Int) : Scheduler :=
  match s.currentPid with
  | none => s
  | some pid => { s.modifyPid pid fun p => p.terminate exitCode with currentPid := none }

/-- `terminate_pid`. -/
def terminatePid (s : Scheduler) (pid : ℕ) (exitCode : Int) : Scheduler :=
  { s.modifyPid pid fun p => p.terminate exitCode with
    currentPid := if s.currentPid = some pid then none else s.currentPid }

/-- `kill_process`. The cursor stays where it is. -/
def killProcess (s : Scheduler) (pid : ℕ) : Scheduler :=
  s.modifyPid pid fun p => p.terminate 137

/-- `signal_send`. -/
def signalSend (s : Scheduler) (pid : ℕ) (sig : UInt8) : Scheduler :=
  s.modifyPid pid fun p => p.signalSend sig

/-- `set_priority`. -/
def setPriority (s : Scheduler) (pid : ℕ) (priority : UInt8) : Scheduler :=
  s.modifyPid pid fun p => { p with priority := priority }.recompute

/-- `set_nice`. -/
def setNice (s : Scheduler) (pid : ℕ) (nice : Int) : Scheduler :=
  s.modifyPid pid fun p => { p with nice := min (max nice (-20)) 19 }.recompute

/-- `scheduler_set_quantum`, in milliseconds. -/
def setQuantum (s : Scheduler) (quantumMs : UInt32) : Scheduler where
  processes pid := (s.processes pid).map fun p =>
    { p with
      timeQuantum := quantumMs.toNat * 1000000
      timeSliceRemaining := quantumMs.toNat * 1000000 }
  currentPid := s.currentPid
  nextPid := s.nextPid
  bounded k hk := by
    rw [s.bounded k hk]
    rfl

/-- `scheduler_get_current_pid`, as the C code declares it. -/
def getCurrentPid (s : Scheduler) : UInt32 :=
  UInt32.ofNat (s.currentPid.getD 0)

/-- The state of a process. -/
def stateOf (s : Scheduler) (pid : ℕ) : Option ProcessState :=
  (s.processes pid).map ProcessControlBlock.state

end Scheduler

end VernisOS
