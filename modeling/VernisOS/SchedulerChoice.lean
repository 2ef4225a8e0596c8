import Mathlib.Data.Nat.Find
import VernisOS.Lib.FirstMax
import VernisOS.SchedulerRuns

/-!
# Which process is chosen

`schedule` takes the first process with the greatest cached priority above 0. The cache is the
effective priority, cut off at 139, once the priority or the nice value has been set; before, it is
the priority that the process was created with, which may be above 139. So `schedule` chooses the
first process of the greatest effective priority exactly if that is not 0 and no process in
`Standby` was created with a priority above that of the first one at 139 (`schedule_choice_iff`).
-/

open Run FirstMax

namespace VernisOS

/-- `clamp(priority + 2 * nice, 0, 139)`. -/
def ProcessControlBlock.effective (p : ProcessControlBlock) : ℕ :=
  (min (max (p.priority.toNat + p.nice * 2) 0) 139).toNat

/-- The cache is the effective priority, unless the process was created with one above 139. -/
def ProcessControlBlock.CacheOk (p : ProcessControlBlock) : Prop :=
  min p.cachedEffectivePriority.toNat 139 = p.effective

namespace ProcessControlBlock

variable {p : ProcessControlBlock}

theorem effective_le (p : ProcessControlBlock) : p.effective ≤ 139 := by
  rw [effective]
  omega

theorem cacheOk_create (priority : UInt8) : (create priority).CacheOk := by
  change min priority.toNat 139 = (min (max ((priority.toNat : Int) + 0 * 2) 0) 139).toNat
  omega

theorem recompute_effective (p : ProcessControlBlock) : p.recompute.effective = p.effective :=
  rfl

theorem cacheOk_recompute (p : ProcessControlBlock) : p.recompute.CacheOk := by
  have hle := p.effective_le
  have hcache : p.recompute.cachedEffectivePriority.toNat = p.effective :=
    UInt8.toNat_ofNat_of_lt' (by rw [UInt8.size]; exact Nat.lt_of_le_of_lt hle (by decide))
  rw [CacheOk, hcache, recompute_effective]
  omega

/-- Nothing but the state, the times and the end of a process has changed. -/
theorem CacheOk.congr {q : ProcessControlBlock} (h : p.CacheOk)
    (hcache : q.cachedEffectivePriority = p.cachedEffectivePriority)
    (hpriority : q.priority = p.priority) (hnice : q.nice = p.nice) : q.CacheOk := by
  rw [CacheOk, effective, hcache, hpriority, hnice]
  exact h

theorem CacheOk.effective_lt_iff (h : p.CacheOk) :
    p.effective < 139 ↔ p.cachedEffectivePriority.toNat < 139 := by
  rw [CacheOk] at h
  omega

theorem CacheOk.effective_pos_iff (h : p.CacheOk) :
    0 < p.effective ↔ 0 < p.cachedEffectivePriority.toNat := by
  rw [CacheOk] at h
  omega

end ProcessControlBlock

namespace Scheduler

/-! ## The cache -/

/-- The caches of all processes are in order. -/
def CachesOk (s : Scheduler) : Prop :=
  ∀ pid p, s.processes pid = some p → p.CacheOk

theorem cachesOk_new : new.CachesOk := by
  intro pid p hp
  cases hp

theorem CachesOk.modify {s : Scheduler} (h : s.CachesOk) (pid : ℕ)
    {f : ProcessControlBlock → ProcessControlBlock} (hf : ∀ p, p.CacheOk → (f p).CacheOk) :
    (s.modifyPid pid f).CachesOk := by
  intro k q hq
  by_cases hk : k = pid
  · subst hk
    rw [modifyPid_self] at hq
    obtain ⟨p, hp, rfl⟩ := Option.map_eq_some_iff.mp hq
    exact hf p (h k p hp)
  · rw [modifyPid_of_ne s hk] at hq
    exact h k q hq

theorem CachesOk.congr {s s' : Scheduler} (h : s.CachesOk) (heq : s'.processes = s.processes) :
    s'.CachesOk := by
  intro pid p hp
  rw [heq] at hp
  exact h pid p hp

theorem CachesOk.create {s : Scheduler} (h : s.CachesOk) (priority : UInt8) :
    (s.createProcess priority).2.CachesOk := by
  intro k q hq
  by_cases hk : k = s.nextPid
  · subst hk
    rw [createProcess_self] at hq
    cases hq
    exact ProcessControlBlock.cacheOk_create priority
  · rw [createProcess_of_ne s hk] at hq
    exact h k q hq

theorem CachesOk.moveState {s : Scheduler} (h : s.CachesOk) (pid : ℕ)
    (source : ProcessState → Bool) (target : ProcessState) :
    (s.moveState pid source target).2.CachesOk := by
  unfold Scheduler.moveState
  split
  · exact h
  · split
    · exact h.modify pid fun p hp => hp.congr rfl rfl rfl
    · exact h

theorem CachesOk.expire {s : Scheduler} (h : s.CachesOk) (hz now : ℕ) :
    (s.expire hz now).CachesOk := by
  unfold Scheduler.expire
  split
  · exact h
  · refine h.modify _ fun p hp => ?_
    split
    · exact hp
    · split
      · exact hp.congr rfl rfl rfl
      · exact hp

theorem CachesOk.leave {s : Scheduler} (h : s.CachesOk) : s.leave.CachesOk := by
  unfold Scheduler.leave
  split
  · exact h
  · refine h.modify _ fun p hp => ?_
    split
    · exact hp.congr rfl rfl rfl
    · exact hp

theorem CachesOk.schedule {s : Scheduler} (h : s.CachesOk) (hz now : ℕ) :
    (s.schedule hz now).CachesOk := by
  unfold Scheduler.schedule
  dsimp only
  cases (s.expire hz now).pick with
  | none => exact (h.expire hz now).congr rfl
  | some pid =>
    dsimp only
    split
    · refine ((h.expire hz now).leave.modify pid fun p hp => ?_).congr rfl
      exact hp.congr rfl rfl rfl
    · refine ((h.expire hz now).modify pid fun p hp => ?_).congr rfl
      exact hp.congr rfl rfl rfl

theorem CachesOk.step {s : Scheduler} (h : s.CachesOk) (i : SchedInput) : (s.step i).CachesOk := by
  obtain ⟨hz, now, op⟩ := i
  cases op with
  | createProcess priority => exact h.create priority
  | schedule => exact h.schedule hz now
  | blockCurrent =>
    change s.blockCurrent.CachesOk
    unfold Scheduler.blockCurrent
    split
    · exact h
    · refine (h.modify _ fun p hp => ?_).congr rfl
      exact hp.congr rfl rfl rfl
  | wakeProcess pid => exact h.moveState pid _ _
  | terminateCurrent exitCode =>
    change (s.terminateCurrent exitCode).CachesOk
    unfold Scheduler.terminateCurrent
    split
    · exact h
    · refine (h.modify _ fun p hp => ?_).congr rfl
      exact hp.congr rfl rfl rfl
  | terminatePid pid exitCode =>
    refine (h.modify pid fun p hp => ?_).congr rfl
    exact hp.congr rfl rfl rfl
  | killProcess pid => exact h.modify pid fun p hp => hp.congr rfl rfl rfl
  | suspendProcess pid => exact h.moveState pid _ _
  | resumeProcess pid => exact h.moveState pid _ _
  | setPriority pid priority =>
    exact h.modify pid fun p _ => ProcessControlBlock.cacheOk_recompute _
  | setNice pid nice => exact h.modify pid fun p _ => ProcessControlBlock.cacheOk_recompute _

theorem cachesOk_run (ops : List SchedInput) {s : Scheduler} (h : s.CachesOk) :
    (ops.foldl step s).CachesOk := by
  induction ops generalizing s with
  | nil => exact h
  | cons i ops ih => exact ih (h.step i)

/-! ## The walk over the processes -/

/-- A process waits for its turn. -/
def Standby (s : Scheduler) (pid : ℕ) (p : ProcessControlBlock) : Prop :=
  s.processes pid = some p ∧ p.state = .standby

/-- A number of each process in `Standby`. -/
def standbyKey (s : Scheduler) (f : ProcessControlBlock → ℕ) (pid : ℕ) : Option ℕ :=
  (s.processes pid).bind fun p => if p.state = .standby then some (f p) else none

theorem standbyKey_eq_some {s : Scheduler} {f : ProcessControlBlock → ℕ} {pid v : ℕ} :
    s.standbyKey f pid = some v ↔ ∃ p, s.Standby pid p ∧ f p = v := by
  simp only [standbyKey, Standby]
  cases s.processes pid with
  | none => exact iff_of_false (fun h => by cases h) fun ⟨_, h, _⟩ => by cases h.1
  | some p =>
    dsimp only [Option.bind_some]
    split
    · next hs =>
      constructor
      · intro h
        exact ⟨p, ⟨rfl, hs⟩, Option.some.inj h⟩
      · rintro ⟨q, ⟨hq, -⟩, rfl⟩
        rw [Option.some.inj hq]
    · next hs =>
      refine iff_of_false (fun h => by cases h) ?_
      rintro ⟨q, ⟨hq, hst⟩, -⟩
      rw [← Option.some.inj hq] at hst
      exact hs hst

theorem Standby.lt {s : Scheduler} {pid : ℕ} {p : ProcessControlBlock} (h : s.Standby pid p) :
    pid < s.nextPid := by
  by_contra hge
  have hnone := s.bounded pid (Nat.not_lt.mp hge)
  rw [h.1] at hnone
  cases hnone

/-- The walk of `schedule` over a table of processes with a state and a priority. -/
theorem fold_walk {β : Type} (procs : ℕ → Option β) (state : β → ProcessState) (prio : β → UInt8)
    (pids : List ℕ) (best : Option ℕ × UInt8) :
    (pids.foldl (fun (best : Option ℕ × UInt8) pid =>
      match procs pid with
      | none => best
      | some p => if state p = .standby ∧ prio p > best.2 then (some pid, prio p) else best)
        best).1 =
      (pids.foldl (better fun pid => (procs pid).bind fun p =>
        if state p = .standby then some (prio p).toNat else none) (best.1, best.2.toNat)).1 := by
  induction pids generalizing best with
  | nil => rfl
  | cons k pids ih =>
    rw [List.foldl_cons, List.foldl_cons, ih]
    congr 2
    rw [better]
    cases procs k with
    | none => rfl
    | some p =>
      dsimp only [Option.bind_some]
      by_cases hs : state p = .standby
      · rw [if_pos hs]
        dsimp only
        by_cases hlt : best.2 < prio p
        · rw [if_pos (UInt8.lt_iff_toNat_lt.mp hlt), if_pos ⟨hs, hlt⟩]
        · rw [if_neg fun h => hlt (UInt8.lt_iff_toNat_lt.mpr h), if_neg fun h => hlt h.2]
      · rw [if_neg hs, if_neg fun h => hs h.1]

/-- `pick` walks over the cached priorities. -/
theorem pick_eq_walk (s : Scheduler) :
    s.pick = (walk (s.standbyKey fun p => p.cachedEffectivePriority.toNat) 0 s.nextPid).1 := by
  refine Eq.trans ?_ (fold_walk s.processes ProcessControlBlock.state
    ProcessControlBlock.cachedEffectivePriority (List.range s.nextPid) (none, 0))
  rw [pick]
  congr 2
  funext best pid
  cases s.processes pid with
  | none => rfl
  | some p => rfl

/-- The walk over the effective priorities. -/
def pickEffective (s : Scheduler) : Option ℕ :=
  (walk (s.standbyKey ProcessControlBlock.effective) 0 s.nextPid).1

/-- What the first of the processes in `Standby` with the greatest number is. -/
theorem isFirst_iff {s : Scheduler} {f : ProcessControlBlock → ℕ} {pid : ℕ} :
    (∃ v, IsFirst (s.standbyKey f) 0 s.nextPid pid v) ↔
      ∃ p, s.Standby pid p ∧ 0 < f p ∧
        ∀ k q, s.Standby k q → f q ≤ f p ∧ (k < pid → f q < f p) := by
  constructor
  · rintro ⟨v, hv⟩
    obtain ⟨p, hp, rfl⟩ := standbyKey_eq_some.mp hv.key_eq
    refine ⟨p, hp, hv.above, fun k q hq => ⟨?_, fun hk => ?_⟩⟩
    · exact hv.le k hq.lt (f q) (standbyKey_eq_some.mpr ⟨q, hq, rfl⟩)
    · exact hv.before k hk (f q) (standbyKey_eq_some.mpr ⟨q, hq, rfl⟩)
  · rintro ⟨p, hp, hpos, hall⟩
    refine ⟨f p, hp.lt, standbyKey_eq_some.mpr ⟨p, hp, rfl⟩, hpos, ?_, ?_⟩
    · intro k _ w hw
      obtain ⟨q, hq, rfl⟩ := standbyKey_eq_some.mp hw
      exact (hall k q hq).1
    · intro k hk w hw
      obtain ⟨q, hq, rfl⟩ := standbyKey_eq_some.mp hw
      exact (hall k q hq).2 hk

/-- The first process in `Standby` with the effective priority 139 has the greatest cached one. -/
def TopOk (s : Scheduler) : Prop :=
  ∀ pid p, s.Standby pid p → p.effective = 139 →
    (∀ k < pid, ∀ q, s.Standby k q → q.effective < 139) →
      ∀ k q, s.Standby k q → q.cachedEffectivePriority ≤ p.cachedEffectivePriority

/-- The two walks find the same process exactly if no cached priority above 139 is preferred. -/
theorem pick_eq_iff {s : Scheduler} (h : s.CachesOk) : s.pick = s.pickEffective ↔ s.TopOk := by
  constructor
  · intro heq pid p hp h139 hbefore k q hq
    have heff : s.pickEffective = some pid := by
      refine walk_eq_some_iff.mpr (isFirst_iff.mpr ⟨p, hp, by omega, fun j r hr => ?_⟩)
      exact ⟨h139 ▸ r.effective_le, fun hj => h139 ▸ hbefore j hj r hr⟩
    rw [heff, pick_eq_walk, walk_eq_some_iff, isFirst_iff] at heq
    obtain ⟨p', hp', -, hall⟩ := heq
    obtain rfl : p' = p := Option.some.inj (hp'.1.symm.trans hp.1)
    exact UInt8.le_iff_toNat_le.mpr (hall k q hq).1
  · intro htop
    by_cases hmax : ∃ pid p, s.Standby pid p ∧ p.effective = 139
    · classical
      obtain ⟨p, hp, h139⟩ := Nat.find_spec hmax
      set pid := Nat.find hmax
      have hbefore : ∀ k < pid, ∀ q, s.Standby k q → q.effective < 139 := fun k hk q hq =>
        Nat.lt_of_le_of_ne q.effective_le fun hq' => Nat.find_min hmax hk ⟨q, hq, hq'⟩
      have heff : s.pickEffective = some pid := by
        refine walk_eq_some_iff.mpr (isFirst_iff.mpr ⟨p, hp, by omega, fun j r hr => ?_⟩)
        exact ⟨h139 ▸ r.effective_le, fun hj => h139 ▸ hbefore j hj r hr⟩
      have hcache : 139 ≤ p.cachedEffectivePriority.toNat := by
        have hlt := (h pid p hp.1).effective_lt_iff
        omega
      rw [heff, pick_eq_walk, walk_eq_some_iff, isFirst_iff]
      refine ⟨p, hp, by omega, fun k q hq => ⟨?_, fun hk => ?_⟩⟩
      · exact UInt8.le_iff_toNat_le.mp (htop pid p hp h139 hbefore k q hq)
      · have hlt := (h k q hq.1).effective_lt_iff.mp (hbefore k hk q hq)
        omega
    · have hkey : (s.standbyKey fun p => p.cachedEffectivePriority.toNat) =
          s.standbyKey ProcessControlBlock.effective := by
        funext pid
        rw [standbyKey, standbyKey]
        cases hp : s.processes pid with
        | none => rfl
        | some p =>
          dsimp only [Option.bind_some]
          split
          · next hs =>
            have hne : p.effective ≠ 139 := fun h139 => hmax ⟨pid, p, ⟨hp, hs⟩, h139⟩
            have hle := p.effective_le
            have hcache := h pid p hp
            rw [ProcessControlBlock.CacheOk] at hcache
            congr 1
            omega
          · rfl
      rw [pick_eq_walk, hkey]
      rfl

/-! ## `schedule` -/

/-- The first of the processes in `Standby` with the greatest effective priority. -/
def First (s : Scheduler) (pid : ℕ) : Prop :=
  ∃ p, s.Standby pid p ∧
    ∀ k q, s.Standby k q → q.effective ≤ p.effective ∧ (k < pid → q.effective < p.effective)

/-- `schedule` chooses the first process of the greatest effective priority, which alone runs then,
or none if there is none in `Standby`. -/
structure Chooses (s : Scheduler) (hz now : ℕ) : Prop where
  first : ∀ pid, (s.schedule hz now).currentPid = some pid → (s.expire hz now).First pid
  running : ∀ pid, (s.schedule hz now).currentPid = some pid →
    ∀ k, (s.schedule hz now).stateOf k = some .running ↔ k = pid
  none_iff : (s.schedule hz now).currentPid = none ↔ ∀ pid p, ¬ (s.expire hz now).Standby pid p

/-- If a process is in `Standby` after the end of a time slice, then one has an effective priority
above 0, no cached priority above 139 is preferred, and no process runs but that under the cursor. -/
structure ChoiceOk (s : Scheduler) (hz now : ℕ) : Prop where
  positive : ∀ pid p, (s.expire hz now).Standby pid p →
    ∃ k q, (s.expire hz now).Standby k q ∧ 0 < q.effective
  top : (s.expire hz now).TopOk
  cursor : ∀ pid p, (s.expire hz now).Standby pid p →
    ∀ k, s.stateOf k = some .running → s.currentPid = some k

theorem schedule_currentPid (s : Scheduler) (hz now : ℕ) :
    (s.schedule hz now).currentPid = (s.expire hz now).pick := by
  unfold schedule
  dsimp only
  cases (s.expire hz now).pick with
  | none => rfl
  | some pid => rfl

/-- A process that neither is under the cursor nor is chosen keeps its state. -/
theorem schedule_other {s : Scheduler} {hz now k : ℕ} {p : ProcessControlBlock}
    (hp : s.processes k = some p) (hcur : s.currentPid ≠ some k)
    (hpick : (s.expire hz now).pick ≠ some k) :
    (s.schedule hz now).stateOf k = some p.state := by
  have hexp : (s.expire hz now).processes k = some p := by
    obtain ⟨q, hq, -, ⟨hk, -⟩ | ⟨-, rfl⟩⟩ := expire_some hz now hp
    · exact absurd hk hcur
    · exact hq
  refine stateOf_some ?_
  unfold schedule
  dsimp only
  cases hfound : (s.expire hz now).pick with
  | none => exact hexp
  | some n =>
    have hne : k ≠ n := fun hk => hpick (by rw [hfound, hk])
    refine (modifyPid_of_ne _ hne _).trans ?_
    split
    · obtain ⟨r, hr, -, ⟨hk, -⟩ | ⟨-, rfl⟩⟩ := leave_some hexp
      · rw [expire_currentPid] at hk
        exact absurd hk hcur
      · exact hr
    · exact hexp

theorem pickEffective_some {s : Scheduler} {pid : ℕ} (h : s.pickEffective = some pid) :
    s.First pid := by
  obtain ⟨p, hp, -, hall⟩ := isFirst_iff.mp (walk_eq_some_iff.mp h)
  exact ⟨p, hp, hall⟩

theorem pickEffective_eq_none_iff {s : Scheduler} :
    s.pickEffective = none ↔ ∀ pid p, s.Standby pid p → p.effective = 0 := by
  rw [pickEffective, walk_eq_none_iff]
  constructor
  · intro h pid p hp
    exact Nat.le_zero.mp (h pid hp.lt _ (standbyKey_eq_some.mpr ⟨p, hp, rfl⟩))
  · intro h pid _ w hw
    obtain ⟨p, hp, rfl⟩ := standbyKey_eq_some.mp hw
    exact (h pid p hp).le

theorem pick_eq_none_iff {s : Scheduler} (h : s.CachesOk) :
    s.pick = none ↔ ∀ pid p, s.Standby pid p → p.effective = 0 := by
  rw [pick_eq_walk, walk_eq_none_iff]
  constructor
  · intro hnone pid p hp
    have hle := hnone pid hp.lt _ (standbyKey_eq_some.mpr ⟨p, hp, rfl⟩)
    have hpos := (h pid p hp.1).effective_pos_iff
    omega
  · intro hzero pid _ w hw
    obtain ⟨p, hp, rfl⟩ := standbyKey_eq_some.mp hw
    have hpos := (h pid p hp.1).effective_pos_iff
    have hp0 := hzero pid p hp
    omega

theorem chooses_iff {s : Scheduler} (h : s.CachesOk) (hz now : ℕ) :
    s.Chooses hz now ↔ s.ChoiceOk hz now := by
  have hcaches := h.expire hz now
  have hcur := s.schedule_currentPid hz now
  constructor
  · intro hch
    have hsome : ∀ pid p, (s.expire hz now).Standby pid p →
        ∃ n, (s.expire hz now).pick = some n := by
      intro pid p hp
      rw [← Option.ne_none_iff_exists']
      intro hnone
      exact hch.none_iff.mp (hcur.trans hnone) pid p hp
    refine ⟨fun pid p hp => ?_, ?_, fun pid p hp k hk => ?_⟩
    · obtain ⟨n, hn⟩ := hsome pid p hp
      by_contra hno
      have hnone := (pick_eq_none_iff hcaches).mpr fun k q hq => by
        by_contra hpos
        exact hno ⟨k, q, hq, Nat.pos_of_ne_zero hpos⟩
      rw [hn] at hnone
      cases hnone
    · refine (pick_eq_iff hcaches).mp ?_
      cases hpick : (s.expire hz now).pick with
      | none =>
        exact (pickEffective_eq_none_iff.mpr ((pick_eq_none_iff hcaches).mp hpick)).symm
      | some n =>
        obtain ⟨p, hp, hall⟩ := hch.first n (hcur.trans hpick)
        have hpos : 0 < p.effective := by
          by_contra hzero
          have hnone := (pick_eq_none_iff hcaches).mpr fun k q hq => by
            have hle := (hall k q hq).1
            omega
          rw [hpick] at hnone
          cases hnone
        exact (walk_eq_some_iff.mpr (isFirst_iff.mpr ⟨p, hp, hpos, hall⟩)).symm
    · obtain ⟨n, hn⟩ := hsome pid p hp
      by_contra hne
      obtain ⟨q, hq, hrun⟩ := stateOf_eq hk
      -- the process in the state `Running` is not the one chosen
      have hkn : k ≠ n := by
        rintro rfl
        obtain ⟨r, hr, -⟩ := hch.first k (hcur.trans hn)
        obtain ⟨q', hq', -, ⟨hk', -⟩ | ⟨-, rfl⟩⟩ := expire_some hz now hq
        · exact hne hk'
        · rw [hr.1] at hq'
          cases hq'
          rw [hr.2] at hrun
          cases hrun
      have hafter := schedule_other hq hne (by rw [hn]; exact fun h => hkn (Option.some.inj h).symm)
      rw [hrun] at hafter
      exact hkn ((hch.running n (hcur.trans hn) k).mp hafter)
  · intro hok
    have hpick := (pick_eq_iff hcaches).mpr hok.top
    refine ⟨fun pid hpid => ?_, fun pid hpid => ?_, ?_⟩
    · exact pickEffective_some (hpick.symm.trans (hcur.symm.trans hpid))
    · have hn := hcur.symm.trans hpid
      obtain ⟨p, hp, -⟩ := pickEffective_some (hpick.symm.trans hn)
      exact (schedule_running (hok.cursor pid p hp) hn hp.1 hp.2).2
    · rw [hcur, pick_eq_none_iff hcaches]
      constructor
      · intro hzero pid p hp
        obtain ⟨k, q, hq, hpos⟩ := hok.positive pid p hp
        exact hpos.ne' (hzero k q hq)
      · exact fun hno pid p hp => absurd hp (hno pid p)

end Scheduler

/-- In every state reached, `schedule` chooses the first process of the greatest effective priority
exactly if the choice is in order. -/
theorem schedule_choice_iff (ops : List SchedInput) (hz now : ℕ) :
    (ops.foldl Scheduler.step .new).Chooses hz now ↔
      (ops.foldl Scheduler.step .new).ChoiceOk hz now :=
  Scheduler.chooses_iff (Scheduler.cachesOk_run ops Scheduler.cachesOk_new) hz now

/-- A process of priority 0 is not chosen. -/
theorem not_schedule_choice : ¬ ∀ (ops : List SchedInput) (hz now : ℕ),
    (ops.foldl Scheduler.step .new).Chooses hz now := by
  intro h
  have hidle := (h [⟨100, 0, .createProcess 0⟩] 100 0).none_iff.mp (by decide) 1 (.create 0)
  exact hidle ⟨rfl, rfl⟩

end VernisOS
