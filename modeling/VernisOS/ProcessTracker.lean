import VernisOS.Lib.Run
import VernisOS.Policy

/-!
# Trust of processes

`ai/process_tracker.rs`. Trust never rises while a profile stays in the tracker exactly if no
step recomputes the trust of an untrusted profile whose counters reach a threshold for
suspicion and none for distrust (`trust_never_rises`). A policy reload can bring this about,
and so can a counter that wraps around ; without either the law holds
(`trust_never_rises_of_lowered`).
-/

open Bytes Run

namespace VernisOS

/-! ## Profiles -/

/-- `TrustLevel`, in the order of its discriminants. -/
inductive TrustLevel
  | untrusted
  | suspicious
  | normal
  | trusted
  deriving DecidableEq

namespace TrustLevel

def rank : TrustLevel → ℕ
  | untrusted => 0
  | suspicious => 1
  | normal => 2
  | trusted => 3

instance : LE TrustLevel :=
  ⟨fun a b => a.rank ≤ b.rank⟩

instance (a b : TrustLevel) : Decidable (a ≤ b) :=
  inferInstanceAs (Decidable (a.rank ≤ b.rank))

@[simp] theorem le_refl (a : TrustLevel) : a ≤ a :=
  Nat.le_refl a.rank

theorem le_trans {a b c : TrustLevel} (h : a ≤ b) (h' : b ≤ c) : a ≤ c :=
  Nat.le_trans h h'

@[simp] theorem untrusted_le (a : TrustLevel) : untrusted ≤ a :=
  Nat.zero_le a.rank

theorem suspicious_le_iff {a : TrustLevel} : suspicious ≤ a ↔ a ≠ untrusted := by
  cases a <;> decide

end TrustLevel

structure ProcessProfile where
  pid : UInt32
  name : List UInt8
  parentPid : UInt32
  createdAt : UInt64
  exitedAt : Option UInt64
  syscallCount : UInt32
  failureCount : UInt32
  denialCount : UInt32
  exceptionCount : UInt32
  anomalyCount : UInt32
  trust : TrustLevel
  anomalyFlags : UInt32

/-- A threshold for distrust is reached. -/
def TrustConfig.distrusts (tc : TrustConfig) (failures denials anomalies : UInt32) : Prop :=
  failures ≥ tc.failuresToUntrusted ∨ denials ≥ tc.denialsToUntrusted ∨
    anomalies ≥ tc.anomaliesToUntrusted

/-- A threshold for suspicion is reached. -/
def TrustConfig.suspects (tc : TrustConfig) (failures denials anomalies : UInt32) : Prop :=
  failures ≥ tc.failuresToSuspicious ∨ denials ≥ tc.denialsToSuspicious ∨
    anomalies ≥ tc.anomaliesToSuspicious

instance (tc : TrustConfig) (f d a : UInt32) : Decidable (tc.distrusts f d a) :=
  inferInstanceAs (Decidable (_ ∨ _ ∨ _))

instance (tc : TrustConfig) (f d a : UInt32) : Decidable (tc.suspects f d a) :=
  inferInstanceAs (Decidable (_ ∨ _ ∨ _))

namespace ProcessProfile

/-- `ProcessProfile::new`. -/
def new (pid : UInt32) (name : List UInt8) (parentPid : UInt32) (now : UInt64) :
    ProcessProfile where
  pid := pid
  name := name
  parentPid := parentPid
  createdAt := now
  exitedAt := none
  syscallCount := 0
  failureCount := 0
  denialCount := 0
  exceptionCount := 0
  anomalyCount := 0
  trust := .normal
  anomalyFlags := 0

/-- `ProcessProfile::recompute_trust`. -/
def recomputeTrust (p : ProcessProfile) (tc : TrustConfig) : ProcessProfile :=
  if tc.distrusts p.failureCount p.denialCount p.anomalyCount then { p with trust := .untrusted }
  else if tc.suspects p.failureCount p.denialCount p.anomalyCount then
    { p with trust := .suspicious }
  else p

/-- The name given by an exec, unless it is empty. -/
def rename (name : List UInt8) (p : ProcessProfile) : ProcessProfile :=
  if name.isEmpty then p else { p with name := name }

@[simp] theorem trust_rename (name : List UInt8) (p : ProcessProfile) :
    (p.rename name).trust = p.trust := by
  unfold rename
  split_ifs <;> rfl

/-- The end of the process. -/
def exit (now : UInt64) (p : ProcessProfile) : ProcessProfile :=
  { p with exitedAt := some now }

/-- What `on_exception` counts. -/
def countException (p : ProcessProfile) : ProcessProfile :=
  { p with exceptionCount := p.exceptionCount + 1
           failureCount := p.failureCount + 1 }

/-- What `on_denial` counts. -/
def countDenial (p : ProcessProfile) : ProcessProfile :=
  { p with denialCount := p.denialCount + 1 }

/-- What `record_anomaly` counts. -/
def countAnomaly (flag : UInt32) (p : ProcessProfile) : ProcessProfile :=
  { p with anomalyCount := p.anomalyCount + 1
           anomalyFlags := p.anomalyFlags ||| flag }

/-- Recomputing lifts the trust : it was lost, and now counts as suspicion only. -/
def Lifted (p : ProcessProfile) (tc : TrustConfig) : Prop :=
  p.trust = .untrusted ∧ ¬ tc.distrusts p.failureCount p.denialCount p.anomalyCount ∧
    tc.suspects p.failureCount p.denialCount p.anomalyCount

instance (p : ProcessProfile) (tc : TrustConfig) : Decidable (p.Lifted tc) :=
  inferInstanceAs (Decidable (_ ∧ _ ∧ _))

theorem trust_recomputeTrust_le_iff (p : ProcessProfile) (tc : TrustConfig) :
    (p.recomputeTrust tc).trust ≤ p.trust ↔ ¬ p.Lifted tc := by
  unfold recomputeTrust Lifted
  split_ifs with hlost hsuspect
  · simp [hlost]
  · simp [hlost, hsuspect, TrustLevel.suspicious_le_iff]
  · simp [hsuspect]

end ProcessProfile

/-! ## The tracker -/

/-- `config::EXITED_PROCESS_LIMIT`. -/
def exitedProcessLimit : ℕ := 64

structure ProcessTracker where
  procs : UInt32 → Option ProcessProfile
  exitedPids : List UInt32
  trustCfg : TrustConfig

namespace ProcessTracker

/-- `ProcessTracker::new`. -/
def new : ProcessTracker where
  procs _ := none
  exitedPids := []
  trustCfg := PolicyConfig.default.trust

/-- `get_mut` and an update of the profile, if there is one. -/
def modify (t : ProcessTracker) (pid : UInt32) (f : ProcessProfile → ProcessProfile) :
    ProcessTracker :=
  { t with procs := Function.update t.procs pid ((t.procs pid).map f) }

/-- The loop of `gc_exited`. -/
def gcLoop (procs : UInt32 → Option ProcessProfile) :
    List UInt32 → (UInt32 → Option ProcessProfile) × List UInt32
  | [] => (procs, [])
  | oldPid :: rest =>
    if (oldPid :: rest).length > exitedProcessLimit then
      gcLoop (Function.update procs oldPid none) rest
    else (procs, oldPid :: rest)

/-- `ProcessTracker::gc_exited`. -/
def gcExited (t : ProcessTracker) : ProcessTracker :=
  { t with procs := (gcLoop t.procs t.exitedPids).1
           exitedPids := (gcLoop t.procs t.exitedPids).2 }

/-- `ProcessTracker::on_proc_event`. -/
def onProcEvent (t : ProcessTracker) (data : List UInt8) (now : UInt64) : ProcessTracker :=
  let pid := parseU32 (pipeField data 0)
  let action := pipeField data 1
  let name := pipeField data 2
  if pid = 0 then t
  else if action = utf8 "fork" ∨ action = utf8 "exec" then
    if (t.procs pid).isNone then
      { t with procs := Function.update t.procs pid (some (ProcessProfile.new pid name 0 now)) }
    else if action = utf8 "exec" then
      t.modify pid (ProcessProfile.rename name)
    else t
  else if action = utf8 "exit" ∨ action = utf8 "kill" then
    if (t.procs pid).isSome then
      let t := t.modify pid (ProcessProfile.exit now)
      { t with exitedPids := t.exitedPids ++ [pid] }.gcExited
    else t
  else t

/-- `ProcessTracker::on_exception`. -/
def onException (t : ProcessTracker) (data : List UInt8) : ProcessTracker :=
  t.modify (parseU32 (pipeField data 2)) fun p => p.countException.recomputeTrust t.trustCfg

/-- `ProcessTracker::on_denial`. -/
def onDenial (t : ProcessTracker) (data : List UInt8) : ProcessTracker :=
  t.modify (parseU32 (pipeField data 0)) fun p => p.countDenial.recomputeTrust t.trustCfg

/-- `ProcessTracker::on_syscall`. -/
def onSyscall (t : ProcessTracker) (data : List UInt8) : ProcessTracker :=
  t.modify (parseU32 (pipeField data 0)) fun p => { p with syscallCount := p.syscallCount + 1 }

/-- `ProcessTracker::record_anomaly`. -/
def recordAnomaly (t : ProcessTracker) (pid flag : UInt32) : ProcessTracker :=
  t.modify pid fun p => (p.countAnomaly flag).recomputeTrust t.trustCfg

/-- `ProcessTracker::reload_config`. -/
def reloadConfig (t : ProcessTracker) (cfg : TrustConfig) : ProcessTracker :=
  { t with trustCfg := cfg }

end ProcessTracker

inductive TrackerOp
  | procEvent (data : List UInt8) (now : UInt64)
  | exception (data : List UInt8)
  | denial (data : List UInt8)
  | syscall (data : List UInt8)
  | anomaly (pid flag : UInt32)
  | reload (cfg : TrustConfig)

def ProcessTracker.step (t : ProcessTracker) : TrackerOp → ProcessTracker
  | .procEvent data now => t.onProcEvent data now
  | .exception data => t.onException data
  | .denial data => t.onDenial data
  | .syscall data => t.onSyscall data
  | .anomaly pid flag => t.recordAnomaly pid flag
  | .reload cfg => t.reloadConfig cfg

namespace ProcessTracker

/-- What a run of events leaves. -/
def run (t : ProcessTracker) (ops : List TrackerOp) : ProcessTracker :=
  ops.foldl step t

/-- No profile that is there before and after has more trust afterwards. -/
def TrustKept (t t' : ProcessTracker) : Prop :=
  ∀ pid p p', t.procs pid = some p → t'.procs pid = some p' → p'.trust ≤ p.trust

/-- The profile of `pid` is there in every state of the run. -/
def Stays (pid : UInt32) (t : ProcessTracker) (ops : List TrackerOp) : Prop :=
  After (fun t op => some (step t op)) (fun t => (t.procs pid).isSome) t ops

/-- Between two moments of a run the trust of a profile that stays in the tracker does not
rise. -/
def TrustNeverRises (t : ProcessTracker) (ops : List TrackerOp) : Prop :=
  ∀ pid before between after p p', ops = before ++ between ++ after →
    Stays pid (t.run before) between → (t.run before).procs pid = some p →
    (t.run (before ++ between)).procs pid = some p' → p'.trust ≤ p.trust

/-- The event does not lift the trust that it makes the tracker recompute. -/
def NoLift (t : ProcessTracker) : TrackerOp → Prop
  | .exception data => ∀ p, t.procs (parseU32 (pipeField data 2)) = some p →
      ¬ p.countException.Lifted t.trustCfg
  | .denial data => ∀ p, t.procs (parseU32 (pipeField data 0)) = some p →
      ¬ p.countDenial.Lifted t.trustCfg
  | .anomaly pid flag => ∀ p, t.procs pid = some p → ¬ (p.countAnomaly flag).Lifted t.trustCfg
  | .procEvent _ _ | .syscall _ | .reload _ => True

/-! ## One event -/

variable {t : ProcessTracker} {pid : UInt32} {p p' : ProcessProfile}

theorem trustKept_refl (t : ProcessTracker) : TrustKept t t := by
  intro pid p p' h h'
  rw [Option.some.inj (h.symm.trans h')]
  exact TrustLevel.le_refl _

theorem trustKept_modify_iff {f : ProcessProfile → ProcessProfile} :
    TrustKept t (t.modify pid f) ↔ ∀ p, t.procs pid = some p → (f p).trust ≤ p.trust := by
  constructor
  · intro h p hp
    refine h pid p (f p) hp ?_
    simp [modify, hp]
  · intro h pid' p p' hp hp'
    by_cases heq : pid' = pid
    · subst heq
      simp only [modify, Function.update_self, hp, Option.map_some, Option.some.injEq] at hp'
      exact hp' ▸ h p hp
    · simp only [modify, Function.update_of_ne heq] at hp'
      exact trustKept_refl t pid' p p' hp hp'

theorem gcLoop_of_some {procs : UInt32 → Option ProcessProfile} {exited : List UInt32}
    (h : (gcLoop procs exited).1 pid = some p) : procs pid = some p := by
  induction exited generalizing procs with
  | nil => exact h
  | cons oldPid rest ih =>
    rw [gcLoop] at h
    split_ifs at h with hlen
    · have hrest := ih h
      by_cases heq : pid = oldPid
      · rw [heq, Function.update_self] at hrest
        cases hrest
      · rwa [Function.update_of_ne heq] at hrest
    · exact h

theorem procs_gcExited_of_some {exited : List UInt32}
    (h : { t with exitedPids := exited }.gcExited.procs pid = some p) : t.procs pid = some p :=
  gcLoop_of_some h

/-- The events of a process leave its trust alone. -/
theorem trustKept_onProcEvent (data : List UInt8) (now : UInt64) :
    TrustKept t (t.onProcEvent data now) := by
  unfold onProcEvent
  dsimp only
  split_ifs with hzero hstart hnew hexec hend hthere
  · exact trustKept_refl t
  · intro pid' p p' hp hp'
    by_cases heq : pid' = parseU32 (pipeField data 0)
    · subst heq
      rw [hp] at hnew
      cases hnew
    · simp only [Function.update_of_ne heq] at hp'
      exact trustKept_refl t pid' p p' hp hp'
  · exact trustKept_modify_iff.mpr fun p _ => by simp
  · exact trustKept_refl t
  · intro pid' p p' hp hp'
    have hexit : TrustKept t (t.modify (parseU32 (pipeField data 0)) (ProcessProfile.exit now)) :=
      trustKept_modify_iff.mpr fun p _ => TrustLevel.le_refl _
    exact hexit pid' p p' hp (procs_gcExited_of_some hp')
  · exact trustKept_refl t
  · exact trustKept_refl t

/-- One event lifts no trust exactly if it recomputes none that it lifts. -/
theorem trustKept_step_iff (op : TrackerOp) : TrustKept t (t.step op) ↔ NoLift t op := by
  cases op with
  | procEvent data now => exact iff_of_true (trustKept_onProcEvent data now) trivial
  | exception data =>
    exact trustKept_modify_iff.trans (forall₂_congr fun p _ =>
      p.countException.trust_recomputeTrust_le_iff t.trustCfg)
  | denial data =>
    exact trustKept_modify_iff.trans (forall₂_congr fun p _ =>
      p.countDenial.trust_recomputeTrust_le_iff t.trustCfg)
  | syscall data =>
    exact iff_of_true (trustKept_modify_iff.mpr fun p _ => TrustLevel.le_refl _) trivial
  | anomaly pid flag =>
    exact trustKept_modify_iff.trans (forall₂_congr fun p _ =>
      (p.countAnomaly flag).trust_recomputeTrust_le_iff t.trustCfg)
  | reload cfg => exact iff_of_true (trustKept_refl t) trivial

/-! ## Runs -/

theorem run_append (t : ProcessTracker) (ops ops' : List TrackerOp) :
    t.run (ops ++ ops') = (t.run ops).run ops' :=
  List.foldl_append

/-- Along a run without lifts a profile that stays loses trust or keeps it. -/
theorem trust_le_of_stays {ops : List TrackerOp}
    (hops : Along (fun t op => some (step t op)) NoLift t ops) (hstays : Stays pid t ops)
    (hp : t.procs pid = some p) (hp' : (t.run ops).procs pid = some p') :
    p'.trust ≤ p.trust := by
  induction ops generalizing t p with
  | nil => exact trustKept_refl t pid p p' hp hp'
  | cons op ops ih =>
    have hnext := hstays.2 _ rfl
    have hthere : ((t.step op).procs pid).isSome := by
      cases ops with
      | nil => exact hnext
      | cons => exact hnext.1
    obtain ⟨q, hq⟩ := Option.isSome_iff_exists.mp hthere
    have hfirst := (trustKept_step_iff op).mpr hops.1 pid p q hp hq
    exact TrustLevel.le_trans (ih (hops.2 _ rfl) hnext hq hp') hfirst

/-- Trust never rises exactly if no event of the run lifts it. -/
theorem trust_never_rises (t : ProcessTracker) (ops : List TrackerOp) :
    TrustNeverRises t ops ↔ Along (fun t op => some (step t op)) NoLift t ops := by
  constructor
  · induction ops generalizing t with
    | nil => exact fun _ => trivial
    | cons op ops ih =>
      intro h
      refine ⟨(trustKept_step_iff op).mp fun pid p p' hp hp' => ?_, ?_⟩
      · refine h pid [] [op] ops p p' rfl ⟨?_, ?_⟩ hp hp'
        · exact Option.isSome_iff_exists.mpr ⟨p, hp⟩
        · rintro _ ⟨⟩
          exact Option.isSome_iff_exists.mpr ⟨p', hp'⟩
      · rintro _ ⟨⟩
        refine ih (t.step op) fun pid before between after p p' heq => ?_
        exact h pid (op :: before) between after p p' (congrArg (op :: ·) heq)
  · rintro h pid before between after p p' rfl hstays hp hp'
    rw [run_append] at hp'
    rw [List.append_assoc, Along.append_iff] at h
    exact trust_le_of_stays (Along.append_iff.mp h.2).1 hstays hp hp'

/-! ## Policies that only lower the thresholds -/

/-- Every threshold for distrust is at most the old one. -/
structure TrustLowered (tc tc' : TrustConfig) : Prop where
  failures : tc'.failuresToUntrusted ≤ tc.failuresToUntrusted
  denials : tc'.denialsToUntrusted ≤ tc.denialsToUntrusted
  anomalies : tc'.anomaliesToUntrusted ≤ tc.anomaliesToUntrusted

/-- No counter that the event increments is about to wrap around, and a new policy lowers the
thresholds. -/
def Lowers (t : ProcessTracker) : TrackerOp → Prop
  | .exception data => ∀ p, t.procs (parseU32 (pipeField data 2)) = some p →
      p.failureCount.toNat + 1 < 2 ^ 32
  | .denial data => ∀ p, t.procs (parseU32 (pipeField data 0)) = some p →
      p.denialCount.toNat + 1 < 2 ^ 32
  | .anomaly pid _ => ∀ p, t.procs pid = some p → p.anomalyCount.toNat + 1 < 2 ^ 32
  | .reload cfg => TrustLowered t.trustCfg cfg
  | .procEvent _ _ | .syscall _ => True

/-- Every untrusted process reaches a threshold for distrust. -/
def Earned (t : ProcessTracker) : Prop :=
  ∀ pid p, t.procs pid = some p → p.trust = .untrusted →
    t.trustCfg.distrusts p.failureCount p.denialCount p.anomalyCount

theorem earned_new : Earned new := by
  intro pid p hp
  cases hp

theorem distrusts_mono {tc : TrustConfig} {f d a f' d' a' : UInt32} (h : tc.distrusts f d a)
    (hf : f ≤ f') (hd : d ≤ d') (ha : a ≤ a') : tc.distrusts f' d' a' :=
  h.imp (UInt32.le_trans · hf) (Or.imp (UInt32.le_trans · hd) (UInt32.le_trans · ha))

theorem le_add_one {n : UInt32} (h : n.toNat + 1 < 2 ^ 32) : n ≤ n + 1 := by
  rw [UInt32.le_iff_toNat_le, UInt32.toNat_add, UInt32.toNat_one, Nat.mod_eq_of_lt h]
  exact Nat.le_succ _

theorem TrustLowered.distrusts {tc tc' : TrustConfig} (h : TrustLowered tc tc')
    {f d a : UInt32} (hlost : tc.distrusts f d a) : tc'.distrusts f d a :=
  hlost.imp (UInt32.le_trans h.failures) (Or.imp (UInt32.le_trans h.denials)
    (UInt32.le_trans h.anomalies))

theorem earned_modify (h : Earned t) {f : ProcessProfile → ProcessProfile}
    (hf : ∀ p, t.procs pid = some p → (f p).trust = .untrusted →
      t.trustCfg.distrusts (f p).failureCount (f p).denialCount (f p).anomalyCount) :
    Earned (t.modify pid f) := by
  intro pid' p' hp' hlost
  by_cases heq : pid' = pid
  · subst heq
    simp only [modify, Function.update_self, Option.map_eq_some_iff] at hp'
    obtain ⟨p, hp, rfl⟩ := hp'
    exact hf p hp hlost
  · simp only [modify, Function.update_of_ne heq] at hp'
    exact h pid' p' hp' hlost

/-- Recomputing finds an untrusted profile untrusted. -/
theorem distrusts_of_recomputeTrust {tc : TrustConfig}
    (hkept : p.trust = .untrusted → tc.distrusts p.failureCount p.denialCount p.anomalyCount)
    (h : (p.recomputeTrust tc).trust = .untrusted) :
    tc.distrusts (p.recomputeTrust tc).failureCount (p.recomputeTrust tc).denialCount
      (p.recomputeTrust tc).anomalyCount := by
  unfold ProcessProfile.recomputeTrust at h ⊢
  split_ifs at h ⊢ with hlost hsuspect
  · exact hlost
  · exact hkept h

theorem earned_onProcEvent (h : Earned t) (data : List UInt8) (now : UInt64) :
    Earned (t.onProcEvent data now) := by
  unfold onProcEvent
  dsimp only
  split_ifs with hzero hstart hnew hexec hend hthere
  · exact h
  · intro pid' p' hp' hlost
    by_cases heq : pid' = parseU32 (pipeField data 0)
    · subst heq
      simp only [Function.update_self, Option.some.injEq] at hp'
      subst hp'
      cases hlost
    · simp only [Function.update_of_ne heq] at hp'
      exact h pid' p' hp' hlost
  · refine earned_modify h fun p hp hlost => ?_
    rw [ProcessProfile.trust_rename] at hlost
    unfold ProcessProfile.rename
    split_ifs <;> exact h _ p hp hlost
  · exact h
  · intro pid' p' hp' hlost
    have hexit : Earned (t.modify (parseU32 (pipeField data 0)) (ProcessProfile.exit now)) :=
      earned_modify h fun p hp hlost => h _ p hp hlost
    exact hexit pid' p' (procs_gcExited_of_some hp') hlost
  · exact h
  · exact h

/-- What such an event keeps, and that it lifts no trust. -/
theorem earned_step (h : Earned t) (op : TrackerOp) (hop : Lowers t op) :
    NoLift t op ∧ Earned (t.step op) := by
  cases op with
  | procEvent data now => exact ⟨trivial, earned_onProcEvent h data now⟩
  | exception data =>
    have hkept : ∀ p, t.procs (parseU32 (pipeField data 2)) = some p → p.trust = .untrusted →
        t.trustCfg.distrusts (p.failureCount + 1) p.denialCount p.anomalyCount := fun p hp hlost =>
      distrusts_mono (h _ p hp hlost) (le_add_one (hop p hp)) UInt32.le_rfl UInt32.le_rfl
    exact ⟨fun p hp hlift => hlift.2.1 (hkept p hp hlift.1),
      earned_modify h fun p hp => distrusts_of_recomputeTrust (hkept p hp)⟩
  | denial data =>
    have hkept : ∀ p, t.procs (parseU32 (pipeField data 0)) = some p → p.trust = .untrusted →
        t.trustCfg.distrusts p.failureCount (p.denialCount + 1) p.anomalyCount := fun p hp hlost =>
      distrusts_mono (h _ p hp hlost) UInt32.le_rfl (le_add_one (hop p hp)) UInt32.le_rfl
    exact ⟨fun p hp hlift => hlift.2.1 (hkept p hp hlift.1),
      earned_modify h fun p hp => distrusts_of_recomputeTrust (hkept p hp)⟩
  | syscall data => exact ⟨trivial, earned_modify h fun p hp hlost => h _ p hp hlost⟩
  | anomaly pid flag =>
    have hkept : ∀ p, t.procs pid = some p → p.trust = .untrusted →
        t.trustCfg.distrusts p.failureCount p.denialCount (p.anomalyCount + 1) := fun p hp hlost =>
      distrusts_mono (h _ p hp hlost) UInt32.le_rfl UInt32.le_rfl (le_add_one (hop p hp))
    exact ⟨fun p hp hlift => hlift.2.1 (hkept p hp hlift.1),
      earned_modify h fun p hp => distrusts_of_recomputeTrust (hkept p hp)⟩
  | reload cfg => exact ⟨trivial, fun pid p hp hlost => hop.distrusts (h pid p hp hlost)⟩

/-- From a new tracker trust never rises while policies only lower the thresholds and no
counter wraps around. -/
theorem trust_never_rises_of_lowered (ops : List TrackerOp)
    (h : Along (fun t op => some (step t op)) Lowers new ops) : TrustNeverRises new ops := by
  refine (trust_never_rises new ops).mpr (Along.mono_inv (I := Earned) ?_ ?_ ops new earned_new h)
  · rintro t op _ hearned hlow ⟨⟩
    exact (earned_step hearned op hlow).2
  · exact fun t op hearned hlow => (earned_step hearned op hlow).1

/-! ## A reload -/

/-- A process loses its trust by six exceptions, and a policy then asks for a hundred. -/
def liftOps : List TrackerOp :=
  .procEvent (utf8 "7|fork|sh") 0 :: (List.replicate 6 (.exception (utf8 "14|0|7")) ++
    [.reload { PolicyConfig.default.trust with failuresToUntrusted := 100 },
      .exception (utf8 "14|0|7")])

/-- Another exception makes this process suspicious only. -/
theorem not_trust_never_rises : ¬ ∀ ops : List TrackerOp, TrustNeverRises new ops := by
  intro hall
  have hruns : Along (fun t op => some (step t op)) NoLift new
      (liftOps.take 8 ++ [.exception (utf8 "14|0|7")]) :=
    (trust_never_rises new liftOps).mp (hall liftOps)
  have hlast := (Along.append_iff.mp hruns).2.1
  have hlift : ∃ p ∈ (new.run (liftOps.take 8)).procs (parseU32 (pipeField (utf8 "14|0|7") 2)),
      p.countException.Lifted (new.run (liftOps.take 8)).trustCfg := by
    decide
  obtain ⟨p, hp, hlifted⟩ := hlift
  exact hlast p hp hlifted

end ProcessTracker

end VernisOS
