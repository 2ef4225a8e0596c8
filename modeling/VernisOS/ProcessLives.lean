import Mathlib.Data.List.Induction
import VernisOS.ProcessTracker

/-!
# Lives of processes

The process tracker against the lives of the processes it is told of : a process lives if its
last event is a fork or an exec. A new process under the pid of one that has exited goes
unnoticed while the old profile is there, and a pid that is queued twice for collection takes a
later profile with it. The tracker follows the lives exactly if neither happens, and no process
has pid 0 (`tracks_lives_iff`).
-/

open Bytes Run

namespace VernisOS

/-! ## Live profiles -/

/-- `ProcessProfile::is_alive`. -/
def ProcessProfile.isAlive (p : ProcessProfile) : Bool :=
  p.exitedAt.isNone

/-- All pids, in the order of the map. -/
def allPids : List UInt32 :=
  (List.range UInt32.size).map UInt32.ofNat

namespace ProcessTracker

/-- A pid is reported alive. -/
def alive (t : ProcessTracker) (pid : UInt32) : Bool :=
  (t.procs pid).any ProcessProfile.isAlive

/-- `ProcessTracker::active_count`. -/
def activeCount (t : ProcessTracker) : UInt32 :=
  UInt32.ofNat (allPids.countP t.alive)

end ProcessTracker

/-! ## Lives -/

/-- A PROC event : its data and tick. -/
structure ProcEvent where
  data : List UInt8
  now : UInt64

namespace ProcEvent

def pid (e : ProcEvent) : UInt32 :=
  parseU32 (pipeField e.data 0)

def action (e : ProcEvent) : List UInt8 :=
  pipeField e.data 1

/-- A fork or an exec. -/
def Starts (e : ProcEvent) : Prop :=
  e.action = utf8 "fork" ∨ e.action = utf8 "exec"

/-- An exit or a kill. -/
def Ends (e : ProcEvent) : Prop :=
  e.action = utf8 "exit" ∨ e.action = utf8 "kill"

instance (e : ProcEvent) : Decidable e.Starts :=
  inferInstanceAs (Decidable (_ ∨ _))

instance (e : ProcEvent) : Decidable e.Ends :=
  inferInstanceAs (Decidable (_ ∨ _))

end ProcEvent

/-- The process lives : of its events that start or end one, the last starts it. -/
def livesAfter (evs : List ProcEvent) (pid : UInt32) : Bool :=
  (evs.filter fun e => e.pid = pid ∧ (e.Starts ∨ e.Ends)).getLast?.any fun e => e.Starts

theorem livesAfter_concat (evs : List ProcEvent) (e : ProcEvent) (pid : UInt32) :
    livesAfter (evs ++ [e]) pid =
      if e.pid = pid ∧ (e.Starts ∨ e.Ends) then decide e.Starts else livesAfter evs pid := by
  unfold livesAfter
  rw [List.filter_append]
  split_ifs with h
  · rw [List.filter_cons_of_pos (by simpa using h), List.filter_nil, List.getLast?_concat]
    rfl
  · rw [List.filter_cons_of_neg (by simpa using h), List.filter_nil, List.append_nil]

/-- The tracker after these events. -/
def ProcessTracker.after (evs : List ProcEvent) : ProcessTracker :=
  evs.foldl (fun t e => t.onProcEvent e.data e.now) ProcessTracker.new

/-- At every moment of a run the pids that live are those reported alive, their number is the
active count, and the profile of a pid that goes on living stays. -/
def TracksLives (evs : List ProcEvent) : Prop :=
  ∀ before, before <+: evs →
    (∀ pid, (ProcessTracker.after before).alive pid = livesAfter before pid) ∧
    (ProcessTracker.after before).activeCount.toNat = allPids.countP (livesAfter before) ∧
    ∀ e pid, before ++ [e] <+: evs → livesAfter before pid = true →
      livesAfter (before ++ [e]) pid = true →
      ((ProcessTracker.after before).procs pid).isSome →
        ((ProcessTracker.after (before ++ [e])).procs pid).isSome

namespace ProcessTracker

/-- What a collection after an exit of `pid` takes from the queue. -/
def collected (t : ProcessTracker) (pid : UInt32) : List UInt32 :=
  (t.exitedPids ++ [pid]).take ((t.exitedPids ++ [pid]).length - exitedProcessLimit)

/-- The event starts no process with pid 0 or under the profile of one that exited, and ends none
whose exit makes the collection take the profile of another that is alive. -/
def Noticed (t : ProcessTracker) (e : ProcEvent) : Prop :=
  (e.Starts → e.pid ≠ 0 ∧ ∀ p, t.procs e.pid = some p → p.isAlive = true) ∧
  (e.Ends → (t.procs e.pid).isSome → ∀ pid ∈ t.collected e.pid, pid ≠ e.pid → t.alive pid = false)

/-! ## One event -/

variable {t : ProcessTracker} {pid : UInt32} {evs : List ProcEvent} {e : ProcEvent}

theorem gcLoop_fst (procs : UInt32 → Option ProcessProfile) (exited : List UInt32)
    (pid : UInt32) : (gcLoop procs exited).1 pid =
      if pid ∈ exited.take (exited.length - exitedProcessLimit) then none else procs pid := by
  induction exited generalizing procs with
  | nil => rfl
  | cons oldPid rest ih =>
    rw [gcLoop]
    by_cases hlen : (oldPid :: rest).length > exitedProcessLimit
    · have hsplit : (oldPid :: rest).length - exitedProcessLimit =
          rest.length - exitedProcessLimit + 1 := by
        rw [List.length_cons] at hlen ⊢
        omega
      rw [if_pos hlen, ih, hsplit, List.take_succ_cons]
      simp only [List.mem_cons]
      by_cases hmem : pid ∈ rest.take (rest.length - exitedProcessLimit)
      · rw [if_pos hmem, if_pos (Or.inr hmem)]
      · rw [if_neg hmem]
        by_cases heq : pid = oldPid
        · rw [if_pos (Or.inl heq), heq, Function.update_self]
        · rw [if_neg (not_or.mpr ⟨heq, hmem⟩), Function.update_of_ne heq]
    · rw [if_neg hlen, Nat.sub_eq_zero_of_le (Nat.le_of_not_lt hlen), List.take_zero,
        if_neg List.not_mem_nil]

theorem procs_modify_self (f : ProcessProfile → ProcessProfile) :
    (t.modify pid f).procs pid = (t.procs pid).map f :=
  Function.update_self _ _ _

theorem procs_modify_of_ne {pid' : UInt32} (h : pid' ≠ pid) (f : ProcessProfile → ProcessProfile) :
    (t.modify pid f).procs pid' = t.procs pid' :=
  Function.update_of_ne h _ _

theorem alive_of_some {p : ProcessProfile} (h : t.procs pid = some p) :
    t.alive pid = p.isAlive := by
  rw [alive, h]
  rfl

theorem alive_of_none (h : t.procs pid = none) : t.alive pid = false := by
  rw [alive, h]
  rfl

theorem not_starts_and_ends (e : ProcEvent) : ¬ (e.Starts ∧ e.Ends) := by
  rintro ⟨hstart | hstart, hend | hend⟩ <;>
    exact absurd (hstart.symm.trans hend) (by decide)

/-- A fork or an exec. -/
theorem onProcEvent_starts (t : ProcessTracker) (hstart : e.Starts) (hzero : e.pid ≠ 0) :
    t.onProcEvent e.data e.now =
      if (t.procs e.pid).isNone then
        { t with
          procs := Function.update t.procs e.pid
            (some (ProcessProfile.new e.pid (pipeField e.data 2) 0 e.now)) }
      else if e.action = utf8 "exec" then
        t.modify e.pid (ProcessProfile.rename (pipeField e.data 2))
      else t :=
  (if_neg hzero).trans (if_pos hstart)

/-- An exit or a kill. -/
theorem onProcEvent_ends (t : ProcessTracker) (hend : e.Ends) (hzero : e.pid ≠ 0) :
    t.onProcEvent e.data e.now =
      if (t.procs e.pid).isSome then
        { t.modify e.pid (ProcessProfile.exit e.now) with
          exitedPids := t.exitedPids ++ [e.pid] }.gcExited
      else t :=
  (if_neg hzero).trans ((if_neg fun hstart => not_starts_and_ends e ⟨hstart, hend⟩).trans
    (if_pos hend))

theorem onProcEvent_zero (t : ProcessTracker) (hzero : e.pid = 0) :
    t.onProcEvent e.data e.now = t :=
  if_pos hzero

theorem onProcEvent_other (t : ProcessTracker) (hstart : ¬ e.Starts) (hend : ¬ e.Ends) :
    t.onProcEvent e.data e.now = t := by
  by_cases hzero : e.pid = 0
  · exact t.onProcEvent_zero hzero
  · exact (if_neg hzero).trans ((if_neg hstart).trans (if_neg hend))

/-- A new name leaves a process as alive as it was. -/
theorem alive_rename (t : ProcessTracker) (pid pid' : UInt32) (name : List UInt8) :
    (t.modify pid (ProcessProfile.rename name)).alive pid' = t.alive pid' := by
  unfold alive
  by_cases heq : pid' = pid
  · rw [heq, procs_modify_self]
    cases t.procs pid with
    | none => rfl
    | some p =>
      rw [Option.map_some, Option.any_some, Option.any_some, ProcessProfile.rename]
      split_ifs <;> rfl
  · rw [procs_modify_of_ne heq]

/-- A start leaves a live profile where there was none. -/
theorem alive_of_starts (hstart : e.Starts) (hzero : e.pid ≠ 0) (pid : UInt32) :
    (t.onProcEvent e.data e.now).alive pid =
      if e.pid = pid ∧ t.procs e.pid = none then true else t.alive pid := by
  rw [t.onProcEvent_starts hstart hzero]
  cases hprof : t.procs e.pid with
  | none =>
    rw [Option.isNone_none, if_pos rfl]
    unfold alive
    dsimp only
    by_cases heq : e.pid = pid
    · rw [if_pos ⟨heq, rfl⟩, ← heq, Function.update_self]
      rfl
    · rw [if_neg fun h => heq h.1, Function.update_of_ne (Ne.symm heq)]
  | some p =>
    have hold : ¬ (e.pid = pid ∧ some p = none) := fun h => nomatch h.2
    rw [Option.isNone_some, if_neg Bool.false_ne_true, if_neg hold]
    split_ifs with hexec
    · exact t.alive_rename e.pid pid _
    · rfl

/-- An exit of a process that has a profile ends it, and takes what is collected. -/
theorem alive_of_ends (hend : e.Ends) (hzero : e.pid ≠ 0) (hthere : (t.procs e.pid).isSome)
    (pid : UInt32) : (t.onProcEvent e.data e.now).alive pid =
      if e.pid = pid ∨ pid ∈ t.collected e.pid then false else t.alive pid := by
  rw [t.onProcEvent_ends hend hzero, if_pos hthere]
  unfold gcExited alive
  dsimp only
  rw [gcLoop_fst]
  by_cases hmem : pid ∈ t.collected e.pid
  · rw [if_pos (Or.inr hmem)]
    exact congrArg (Option.any _) (if_pos hmem)
  · refine (congrArg (Option.any _) (if_neg hmem)).trans ?_
    by_cases heq : e.pid = pid
    · rw [if_pos (Or.inl heq), ← heq, procs_modify_self]
      cases t.procs e.pid <;> rfl
    · rw [if_neg (not_or.mpr ⟨heq, hmem⟩), procs_modify_of_ne (Ne.symm heq)]

/-- No profile has pid 0. -/
theorem procs_zero (h : t.procs 0 = none) (e : ProcEvent) :
    (t.onProcEvent e.data e.now).procs 0 = none := by
  by_cases hzero : e.pid = 0
  · rw [t.onProcEvent_zero hzero]
    exact h
  · by_cases hstart : e.Starts
    · rw [t.onProcEvent_starts hstart hzero]
      split_ifs
      · exact (Function.update_of_ne (Ne.symm hzero) _ _).trans h
      · exact (procs_modify_of_ne (Ne.symm hzero) _).trans h
      · exact h
    · by_cases hend : e.Ends
      · rw [t.onProcEvent_ends hend hzero]
        split_ifs
        · refine (gcLoop_fst _ _ 0).trans ?_
          split_ifs
          · rfl
          · exact (procs_modify_of_ne (Ne.symm hzero) _).trans h
        · exact h
      · rw [t.onProcEvent_other hstart hend]
        exact h

/-- A tracker that reports the pids that live. -/
structure Follows (t : ProcessTracker) (evs : List ProcEvent) : Prop where
  alive : ∀ pid, t.alive pid = livesAfter evs pid
  zero : t.procs 0 = none

theorem Follows.starts_iff (h : t.Follows evs) (hstart : e.Starts) :
    (∀ pid, (t.onProcEvent e.data e.now).alive pid = livesAfter (evs ++ [e]) pid) ↔
      e.pid ≠ 0 ∧ ∀ p, t.procs e.pid = some p → p.isAlive = true := by
  have hlives : ∀ pid, livesAfter (evs ++ [e]) pid =
      if e.pid = pid then true else livesAfter evs pid := by
    intro pid
    rw [livesAfter_concat, decide_eq_true hstart]
    exact if_congr (and_iff_left (Or.inl hstart)) rfl rfl
  by_cases hzero : e.pid = 0
  · refine iff_of_false (fun hall => ?_) fun hand => hand.1 hzero
    have hnow := hall 0
    rw [t.onProcEvent_zero hzero, hlives, if_pos hzero, alive_of_none h.zero] at hnow
    cases hnow
  · rw [and_iff_right hzero]
    constructor
    · intro hall p hp
      have hnow := hall e.pid
      have hold : ¬ (e.pid = e.pid ∧ t.procs e.pid = none) := fun hand => by
        rw [hp] at hand
        cases hand.2
      rwa [alive_of_starts hstart hzero, hlives, if_pos rfl, if_neg hold, alive_of_some hp] at hnow
    · intro hprof pid
      rw [alive_of_starts hstart hzero, hlives]
      by_cases heq : e.pid = pid
      · rw [if_pos heq]
        cases hp : t.procs e.pid with
        | none => exact if_pos ⟨heq, rfl⟩
        | some p =>
          rw [if_neg (fun hand => nomatch hand.2), ← heq, alive_of_some hp]
          exact hprof p hp
      · rw [if_neg heq, if_neg fun hand => heq hand.1, h.alive]

theorem Follows.ends_iff (h : t.Follows evs) (hend : e.Ends) :
    (∀ pid, (t.onProcEvent e.data e.now).alive pid = livesAfter (evs ++ [e]) pid) ↔
      ((t.procs e.pid).isSome → ∀ pid ∈ t.collected e.pid, pid ≠ e.pid → t.alive pid = false) := by
  have hlives : ∀ pid, livesAfter (evs ++ [e]) pid =
      if e.pid = pid then false else livesAfter evs pid := by
    intro pid
    rw [livesAfter_concat, decide_eq_false fun hstart => not_starts_and_ends e ⟨hstart, hend⟩]
    exact if_congr (and_iff_left (Or.inr hend)) rfl rfl
  by_cases hthere : (t.procs e.pid).isSome
  · have hzero : e.pid ≠ 0 := fun hzero => by
      rw [hzero, h.zero] at hthere
      cases hthere
    rw [imp_iff_right hthere]
    constructor
    · intro hall pid hmem hne
      have hnow := hall pid
      rw [alive_of_ends hend hzero hthere, if_pos (Or.inr hmem), hlives, if_neg (Ne.symm hne)] at hnow
      rw [h.alive, ← hnow]
    · intro hcollect pid
      rw [alive_of_ends hend hzero hthere, hlives]
      by_cases heq : e.pid = pid
      · rw [if_pos heq, if_pos (Or.inl heq)]
      · rw [if_neg heq, ← h.alive]
        split_ifs with hmem
        · exact (hcollect pid (hmem.resolve_left heq) (Ne.symm heq)).symm
        · rfl
  · refine iff_of_true (fun pid => ?_) fun hsome => absurd hsome hthere
    have hnone : t.procs e.pid = none := Option.not_isSome_iff_eq_none.mp hthere
    have hsame : t.onProcEvent e.data e.now = t := by
      by_cases hzero : e.pid = 0
      · exact t.onProcEvent_zero hzero
      · rw [t.onProcEvent_ends hend hzero, if_neg hthere]
    rw [hsame, hlives, h.alive]
    split_ifs with heq
    · rw [← heq, ← h.alive, alive_of_none hnone]
    · rfl

/-- The tracker still reports the pids that live exactly if it noticed the event. -/
theorem Follows.step_iff (h : t.Follows evs) (e : ProcEvent) :
    (t.onProcEvent e.data e.now).Follows (evs ++ [e]) ↔ t.Noticed e := by
  have hsplit : (t.onProcEvent e.data e.now).Follows (evs ++ [e]) ↔
      ∀ pid, (t.onProcEvent e.data e.now).alive pid = livesAfter (evs ++ [e]) pid :=
    ⟨Follows.alive, fun hall => ⟨hall, procs_zero h.zero e⟩⟩
  rw [hsplit, Noticed]
  by_cases hstart : e.Starts
  · have hend : ¬ e.Ends := fun hend => not_starts_and_ends e ⟨hstart, hend⟩
    rw [h.starts_iff hstart, imp_iff_right hstart]
    exact (and_iff_left fun hend' => absurd hend' hend).symm
  · by_cases hend : e.Ends
    · rw [h.ends_iff hend, imp_iff_right hend]
      exact (and_iff_right fun hstart' => absurd hstart' hstart).symm
    · refine iff_of_true (fun pid => ?_) ⟨fun hs => absurd hs hstart, fun he => absurd he hend⟩
      rw [t.onProcEvent_other hstart hend, livesAfter_concat,
        if_neg fun hand => hand.2.elim hstart hend, h.alive]

/-! ## Runs -/

theorem follows_new : new.Follows [] where
  alive _ := rfl
  zero := rfl

theorem after_concat (evs : List ProcEvent) (e : ProcEvent) :
    after (evs ++ [e]) = (after evs).onProcEvent e.data e.now :=
  List.foldl_append

/-- The active count is right if the pids that live are reported. -/
theorem Follows.activeCount (h : t.Follows evs) :
    t.activeCount.toNat = allPids.countP (livesAfter evs) := by
  have hsame : t.alive = livesAfter evs := funext h.alive
  have hlt : allPids.countP (livesAfter evs) < 2 ^ 32 := by
    have hlen : allPids.length = 2 ^ 32 := by
      rw [allPids, List.length_map, List.length_range]
      rfl
    rw [← hlen]
    refine Nat.lt_of_le_of_ne List.countP_le_length fun hall => ?_
    have hmem : (0 : UInt32) ∈ allPids :=
      List.mem_map.mpr ⟨0, List.mem_range.mpr (by decide), rfl⟩
    have hzero := List.countP_eq_length.mp hall 0 hmem
    rw [← h.alive, alive_of_none h.zero] at hzero
    cases hzero
  rw [ProcessTracker.activeCount, hsame, UInt32.toNat_ofNat_of_lt' hlt]

/-- A tracker that reports the pids that live does so along a run exactly if it notices every
event. -/
theorem follows_run_iff {before evs : List ProcEvent} (h : (after before).Follows before) :
    (∀ front, front <+: evs → (after (before ++ front)).Follows (before ++ front)) ↔
      Along (fun t e => some (t.onProcEvent e.data e.now)) Noticed (after before) evs := by
  induction evs generalizing before with
  | nil =>
    refine iff_of_true (fun front hfront => ?_) trivial
    rw [List.prefix_nil.mp hfront, List.append_nil]
    exact h
  | cons e evs ih =>
    have hstep := h.step_iff e
    rw [← after_concat] at hstep
    rw [along_cons]
    constructor
    · intro hall
      have hnext := hall [e] ⟨evs, rfl⟩
      refine ⟨hstep.mp hnext, ?_⟩
      rintro _ ⟨⟩
      rw [← after_concat]
      refine (ih hnext).mp fun front hfront => ?_
      rw [List.append_assoc]
      exact hall (e :: front) ((List.prefix_cons_inj e).mpr hfront)
    · rintro ⟨hnotice, hrest⟩ front hfront
      have hnext := hstep.mpr hnotice
      have hrun := hrest _ rfl
      rw [← after_concat] at hrun
      cases front with
      | nil =>
        rw [List.append_nil]
        exact h
      | cons e' front =>
        obtain ⟨rfl, hrestPrefix⟩ := List.cons_prefix_cons.mp hfront
        have hlast := (ih hnext).mpr hrun front hrestPrefix
        rwa [List.append_assoc] at hlast

end ProcessTracker

/-- What is asked of every moment of a run comes from what is reported there. -/
theorem tracksLives_iff_follows (evs : List ProcEvent) :
    TracksLives evs ↔ ∀ before, before <+: evs → (ProcessTracker.after before).Follows before := by
  constructor
  · intro h before hbefore
    refine ⟨(h before hbefore).1, ?_⟩
    clear hbefore
    induction before using List.reverseRecOn with
    | nil => rfl
    | append_singleton before e ih =>
      rw [ProcessTracker.after_concat]
      exact ProcessTracker.procs_zero ih e
  · intro h before hbefore
    refine ⟨(h before hbefore).alive, (h before hbefore).activeCount, fun e pid hnext _ hlive _ => ?_⟩
    rw [← (h _ hnext).alive] at hlive
    cases hprof : (ProcessTracker.after (before ++ [e])).procs pid with
    | none =>
      rw [ProcessTracker.alive_of_none hprof] at hlive
      cases hlive
    | some p => rfl

/-- The tracker follows the lives of processes exactly if it notices every event. -/
theorem tracks_lives_iff (evs : List ProcEvent) : TracksLives evs ↔
    Along (fun t e => some (t.onProcEvent e.data e.now)) ProcessTracker.Noticed
      ProcessTracker.new evs := by
  have hnew : (ProcessTracker.after []).Follows [] := ProcessTracker.follows_new
  rw [tracksLives_iff_follows]
  exact ProcessTracker.follows_run_iff hnew

/-- A process that is forked again under its pid is not reported. -/
theorem not_tracks_lives : ¬ ∀ evs, TracksLives evs := by
  intro h
  have hbad := (h [⟨utf8 "7|fork|a", 1⟩, ⟨utf8 "7|exit|a", 2⟩, ⟨utf8 "7|fork|b", 3⟩] _
    (List.prefix_refl _)).1 7
  exact absurd hbad (by decide +kernel)

end VernisOS
