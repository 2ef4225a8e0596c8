import VernisOS.AnomalyDetectors
import VernisOS.Lib.Cooldown
import VernisOS.Lib.Run

/-!
# The auto-tuner

`ai/auto_tuner.rs`. What the tuner computes with floating-point numbers is an input here : the
load level, and the event rate as an integer. Each action has the tick of its last decision,
and a branch waits until the cooldown has passed since then. The critical branch waits for
another action than the one it decides on, and so decisions keep their distance exactly if that
never matters (`decisions_spaced_iff`).
-/

open Bytes Cooldown Run

namespace VernisOS

/-! ## The tuner -/

inductive LoadLevel
  | low
  | normal
  | high
  | critical

inductive TuneAction
  | schedQuantum
  | schedPrio
  | memPressure
  | throttle
  | idle
  deriving DecidableEq

/-- `TuneAction::as_str`. -/
def TuneAction.asStr : TuneAction → String
  | schedQuantum => "SCHED_QUANTUM"
  | schedPrio => "SCHED_PRIO"
  | memPressure => "MEM_PRESSURE"
  | throttle => "THROTTLE"
  | idle => "IDLE"

structure TuningDecision where
  action : TuneAction
  target : String
  value : UInt32
  load : LoadLevel
  timestamp : UInt64

/-- `cooldowns` has the tick of the last decision for each action. -/
structure AutoTuner where
  timestamps : List UInt64
  processCount : UInt32
  exceptionCount : UInt32
  decisions : List TuningDecision
  cooldowns : TuneAction → UInt64
  config : TunerConfig

namespace AutoTuner

/-- `AutoTuner::new`. -/
def new : AutoTuner where
  timestamps := []
  processCount := 0
  exceptionCount := 0
  decisions := []
  cooldowns _ := 0
  config := PolicyConfig.default.tuner

/-- `AutoTuner::reload_config`. -/
def reloadConfig (t : AutoTuner) (cfg : TunerConfig) : AutoTuner :=
  { t with config := cfg }

/-- `RateWindow::push`, with a window of 1000 ticks. -/
def pushTick (timestamps : List UInt64) (tick : UInt64) : List UInt64 :=
  (timestamps ++ [tick]).dropWhile fun front => front < saturatingSub tick 1000

/-- What `feed_event` does with the number of processes. -/
def countProcess (count : UInt32) (action : List UInt8) : UInt32 :=
  if action = utf8 "fork" then
    if count = 4294967295 then count else count + 1
  else if action = utf8 "exit" ∨ action = utf8 "kill" then
    if count = 0 then count else count - 1
  else count

/-- `AutoTuner::feed_event`. -/
def feedEvent (t : AutoTuner) (eventType : EventType) (data : List UInt8) (now : UInt64) :
    AutoTuner :=
  let t := { t with timestamps := pushTick t.timestamps now }
  match eventType with
  | .stat =>
    if pipeField data 0 = utf8 "process_count" then
      { t with processCount := parseU32 (pipeField data 1) }
    else t
  | .exception => { t with exceptionCount := t.exceptionCount + 1 }
  | .process => { t with processCount := countProcess t.processCount (pipeField data 1) }
  | _ => t

/-- `AutoTuner::on_cooldown`. -/
def onCooldown (t : AutoTuner) (action : TuneAction) (now : UInt64) : Bool :=
  saturatingSub now (t.cooldowns action) < t.config.cooldownTicks

/-- The branches of `compute_decision`. -/
def propose (t : AutoTuner) (load : LoadLevel) (rate : UInt32) (now : UInt64) :
    Option TuningDecision × AutoTuner :=
  match load with
  | .critical =>
    if t.onCooldown .throttle now then (none, t)
    else (some ⟨.schedQuantum, "scheduler", 20 + min rate 30, load, now⟩, t)
  | .high =>
    if t.onCooldown .schedQuantum now then (none, t)
    else (some ⟨.schedQuantum, "scheduler", 15 + min (rate / 2) 15, load, now⟩, t)
  | .low =>
    if t.onCooldown .schedQuantum now then (none, t)
    else (some ⟨.schedQuantum, "scheduler", 5, load, now⟩, t)
  | .normal =>
    if 0 < t.exceptionCount ∧ ¬ t.onCooldown .schedPrio now then
      (some ⟨.schedPrio, "scheduler", t.config.defaultQuantum, load, now⟩,
        { t with exceptionCount := 0 })
    else (none, t)

/-- A decision is written down. The tuner keeps the last 32. -/
def record (t : AutoTuner) (now : UInt64) (d : TuningDecision) : AutoTuner :=
  { t with
    cooldowns := Function.update t.cooldowns d.action now
    decisions := (if t.decisions.length ≥ 32 then t.decisions.tail else t.decisions) ++ [d] }

/-- `AutoTuner::compute_decision`, for what `assess_load` returns and the rate as a `u32`. -/
def computeDecision (t : AutoTuner) (load : LoadLevel) (rate : UInt32) (now : UInt64) :
    Option TuningDecision × AutoTuner :=
  let (decision, t) := t.propose load rate now
  match decision with
  | some d => (some d, t.record now d)
  | none => (none, t)

end AutoTuner

/-! ## Runs -/

inductive TunerOp
  | event (eventType : EventType) (data : List UInt8) (now : UInt64)
  | compute (load : LoadLevel) (rate : UInt32) (now : UInt64)

/-- The operation is no decision before the tick. -/
def TunerOp.NotBefore (tick : ℕ) : TunerOp → Prop
  | event _ _ _ => True
  | compute _ _ now => tick ≤ now.toNat

/-- The ticks of the decisions do not fall. -/
def TunerOp.Ordered (ops : List TunerOp) : Prop :=
  ops.Pairwise fun
    | event _ _ _, _ => True
    | compute _ _ now, op => op.NotBefore now.toNat

namespace AutoTuner

def step (t : AutoTuner) : TunerOp → AutoTuner
  | .event eventType data now => t.feedEvent eventType data now
  | .compute load rate now => (t.computeDecision load rate now).2

/-- The decision that an operation returns. -/
def decided (t : AutoTuner) : TunerOp → List TuningDecision
  | .event _ _ _ => []
  | .compute load rate now => (t.computeDecision load rate now).1.toList

/-- The decisions of a run. -/
def runDecisions (t : AutoTuner) : List TunerOp → List TuningDecision
  | [] => []
  | op :: ops => t.decided op ++ (t.step op).runDecisions ops

end AutoTuner

/-- In a run with this configuration two decisions for an action are at least the cooldown
apart. -/
def DecisionsSpaced (cfg : TunerConfig) (ops : List TunerOp) : Prop :=
  ((AutoTuner.new.reloadConfig cfg).runDecisions ops).Pairwise fun d d' =>
    d.action = d'.action → cfg.cooldownTicks.toNat ≤ d'.timestamp.toNat - d.timestamp.toNat

/-- At a critical load a quantum is not decided on while its own cooldown lasts. -/
def AutoTuner.WaitsForQuantum (t : AutoTuner) : TunerOp → Prop
  | .compute .critical _ now =>
    t.onCooldown .throttle now = false → t.onCooldown .schedQuantum now = false
  | _ => True

/-! ## One step -/

namespace AutoTuner

variable {t : AutoTuner} {past : List (Firing TuneAction)}

/-- What is known of the past : the last tick of each action, and that none was throttled. -/
structure Tracks (t : AutoTuner) (past : List (Firing TuneAction)) : Prop where
  ordered : Chronological past
  last : ∀ a f, lastTime past a = some f → f = (t.cooldowns a).toNat
  zero : ∀ a, lastTime past a = none → t.cooldowns a = 0
  throttle : lastTime past .throttle = none

/-- How a decision counts. -/
def firing (cooldown : UInt64) (d : TuningDecision) : Firing TuneAction :=
  ⟨d.action, d.timestamp.toNat, cooldown.toNat⟩

theorem onCooldown_eq_false {a : TuneAction} {now : UInt64} : t.onCooldown a now = false ↔
    t.config.cooldownTicks.toNat ≤ now.toNat - (t.cooldowns a).toNat := by
  rw [onCooldown, decide_eq_false_iff_not, UInt64.lt_iff_toNat_lt, toNat_saturatingSub, not_lt]

/-- An action whose cooldown is over is ready, and the other way round once the cooldown has
passed at all. -/
theorem Tracks.ready_iff (h : t.Tracks past) {a : TuneAction} {now : UInt64}
    (hstart : t.config.cooldownTicks.toNat ≤ now.toNat) :
    Cooled past a t.config.cooldownTicks.toNat now.toNat ↔ t.onCooldown a now = false := by
  rw [onCooldown_eq_false]
  cases hlast : lastTime past a with
  | none =>
    refine iff_of_true (fun f hf => by rw [hlast] at hf; cases hf) ?_
    rw [h.zero a hlast]
    exact hstart
  | some f =>
    rw [← h.last a f hlast]
    exact ⟨fun hready => hready f hlast,
      fun hgap f' hf' => Option.some.inj (hlast.symm.trans hf') ▸ hgap⟩

/-- A call that decides waited for its own action, unless the load is critical. -/
theorem decided_cases (t : AutoTuner) (load : LoadLevel) (rate : UInt32) (now : UInt64) :
    ((t.computeDecision load rate now).1 = none ∧
        (t.computeDecision load rate now).2.cooldowns = t.cooldowns ∧
        (load = .critical → t.onCooldown .throttle now = true)) ∨
      ∃ d, (t.computeDecision load rate now).1 = some d ∧ d.timestamp = now ∧
        (t.computeDecision load rate now).2.cooldowns = Function.update t.cooldowns d.action now ∧
        d.action ≠ .throttle ∧ (load ≠ .critical ∧ t.onCooldown d.action now = false ∨
          load = .critical ∧ d.action = .schedQuantum ∧ t.onCooldown .throttle now = false) := by
  unfold computeDecision propose
  cases load with
  | critical =>
    dsimp only
    split_ifs with h
    · exact Or.inl ⟨rfl, rfl, fun _ => h⟩
    · exact Or.inr ⟨_, rfl, rfl, rfl, nofun, Or.inr ⟨rfl, rfl, Bool.eq_false_of_not_eq_true h⟩⟩
  | high =>
    dsimp only
    split_ifs with h
    · exact Or.inl ⟨rfl, rfl, nofun⟩
    · exact Or.inr ⟨_, rfl, rfl, rfl, nofun, Or.inl ⟨nofun, Bool.eq_false_of_not_eq_true h⟩⟩
  | low =>
    dsimp only
    split_ifs with h
    · exact Or.inl ⟨rfl, rfl, nofun⟩
    · exact Or.inr ⟨_, rfl, rfl, rfl, nofun, Or.inl ⟨nofun, Bool.eq_false_of_not_eq_true h⟩⟩
  | normal =>
    dsimp only
    split_ifs with h
    · exact Or.inr ⟨_, rfl, rfl, rfl, nofun, Or.inl ⟨nofun, Bool.eq_false_of_not_eq_true h.2⟩⟩
    · exact Or.inl ⟨rfl, rfl, nofun⟩

theorem config_step (t : AutoTuner) (op : TunerOp) : (t.step op).config = t.config := by
  cases op with
  | event eventType data now =>
    unfold step feedEvent
    cases eventType <;> try rfl
    dsimp only
    split_ifs <;> rfl
  | compute load rate now =>
    unfold step computeDecision propose
    cases load <;> dsimp only <;> split_ifs <;> rfl

theorem cooldowns_event (t : AutoTuner) (eventType : EventType) (data : List UInt8)
    (now : UInt64) : (t.feedEvent eventType data now).cooldowns = t.cooldowns := by
  unfold feedEvent
  cases eventType <;> try rfl
  dsimp only
  split_ifs <;> rfl

theorem Tracks.of_cooldowns {t' : AutoTuner} (h : t.Tracks past)
    (heq : t'.cooldowns = t.cooldowns) : t'.Tracks past where
  ordered := h.ordered
  last := heq ▸ h.last
  zero := heq ▸ h.zero
  throttle := h.throttle

/-- What is known after a decision. -/
theorem Tracks.concat {t' : AutoTuner} {d : TuningDecision} (h : t.Tracks past)
    (hpast : ∀ f ∈ past, f.time ≤ d.timestamp.toNat) (hne : d.action ≠ .throttle)
    (heq : t'.cooldowns = Function.update t.cooldowns d.action d.timestamp) (c : UInt64) :
    t'.Tracks (past ++ [firing c d]) := by
  have hself : lastTime (past ++ [firing c d]) d.action = some d.timestamp.toNat :=
    lastTime_concat_self _ _
  have hother : ∀ a, d.action ≠ a → lastTime (past ++ [firing c d]) a = lastTime past a ∧
      t'.cooldowns a = t.cooldowns a := by
    intro a ha
    rw [heq]
    exact ⟨lastTime_concat_of_ne ha, Function.update_of_ne (Ne.symm ha) _ _⟩
  refine ⟨chronological_concat.mpr ⟨h.ordered, hpast⟩, fun a f hf => ?_, fun a hf => ?_, ?_⟩
  · by_cases ha : d.action = a
    · rw [← ha, hself] at hf
      rw [← ha, heq, Function.update_self]
      exact (Option.some.inj hf).symm
    · rw [(hother a ha).1] at hf
      rw [(hother a ha).2]
      exact h.last a f hf
  · by_cases ha : d.action = a
    · rw [← ha, hself] at hf
      cases hf
    · rw [(hother a ha).1] at hf
      rw [(hother a ha).2]
      exact h.zero a hf
  · rw [(hother .throttle hne).1]
    exact h.throttle

/-- The decisions of a call fit behind the past exactly if a critical load waits for the quantum,
and are known afterwards. -/
theorem Tracks.step (h : t.Tracks past) (op : TunerOp)
    (hpast : ∀ f ∈ past, op.NotBefore f.time) :
    (Spaced (past ++ (t.decided op).map (firing t.config.cooldownTicks)) ↔
        Spaced past ∧ t.WaitsForQuantum op) ∧
      (t.step op).Tracks (past ++ (t.decided op).map (firing t.config.cooldownTicks)) := by
  cases op with
  | event eventType data now =>
    rw [decided, List.map_nil, List.append_nil]
    exact ⟨(and_iff_left trivial).symm, h.of_cooldowns (cooldowns_event t eventType data now)⟩
  | compute load rate now =>
    have hstart : ∀ {a}, t.onCooldown a now = false →
        t.config.cooldownTicks.toNat ≤ now.toNat := by
      intro a ha
      have := onCooldown_eq_false.mp ha
      omega
    rcases t.decided_cases load rate now with ⟨hnone, hcool, hload⟩ |
      ⟨d, hsome, rfl, hcool, hne, hwait⟩
    · rw [decided, hnone, Option.toList_none, List.map_nil, List.append_nil]
      refine ⟨(and_iff_left ?_).symm, h.of_cooldowns hcool⟩
      cases load with
      | critical => exact fun hno => absurd (hload rfl) (by rw [hno]; exact Bool.false_ne_true)
      | high | low | normal => exact trivial
    · rw [decided, hsome, Option.toList_some, List.map_singleton]
      refine ⟨?_, h.concat hpast hne hcool _⟩
      rw [spaced_concat_iff h.ordered]
      refine and_congr_right fun _ => ?_
      rcases hwait with ⟨hload, hown⟩ | ⟨rfl, haction, hthrottle⟩
      · refine iff_of_true ((h.ready_iff (hstart hown)).mpr hown) ?_
        cases load with
        | critical => exact absurd rfl hload
        | high | low | normal => exact trivial
      · rw [firing, haction]
        exact (h.ready_iff (hstart hthrottle)).trans
          ⟨fun hquantum _ => hquantum, fun hquantum => hquantum hthrottle⟩

/-! ## Runs -/

theorem tracks_new (cfg : TunerConfig) : (new.reloadConfig cfg).Tracks [] where
  ordered := List.Pairwise.nil
  last _ _ hf := nomatch hf
  zero _ _ := rfl
  throttle := rfl

theorem timestamp_of_decided {load : LoadLevel} {rate : UInt32} {now : UInt64}
    {d : TuningDecision} (hd : d ∈ t.decided (.compute load rate now)) : d.timestamp = now := by
  rw [decided] at hd
  rcases t.decided_cases load rate now with ⟨hnone, -⟩ | ⟨d', hsome, htime, -⟩
  · rw [hnone] at hd
    cases hd
  · rw [hsome, Option.toList_some, List.mem_singleton] at hd
    rw [hd, htime]

/-- The decisions of a run fit behind the past exactly if every call at a critical load waits for
the quantum. -/
theorem Tracks.run (h : t.Tracks past) (hspaced : Spaced past) {ops : List TunerOp}
    (hops : TunerOp.Ordered ops) (hpast : ∀ f ∈ past, ∀ op ∈ ops, op.NotBefore f.time) :
    Spaced (past ++ (t.runDecisions ops).map (firing t.config.cooldownTicks)) ↔
      Along (fun t op => some (t.step op)) WaitsForQuantum t ops := by
  induction ops generalizing t past with
  | nil =>
    rw [runDecisions, List.map_nil, List.append_nil]
    exact iff_of_true hspaced trivial
  | cons op ops ih =>
    obtain ⟨hnow, hops⟩ := List.pairwise_cons.mp hops
    have hstep := h.step op fun f hf => hpast f hf op List.mem_cons_self
    have hnext : ∀ f ∈ past ++ (t.decided op).map (firing t.config.cooldownTicks),
        ∀ op' ∈ ops, op'.NotBefore f.time := by
      intro f hf op' hop'
      rcases List.mem_append.mp hf with hf | hf
      · exact hpast f hf op' (List.mem_cons_of_mem op hop')
      · obtain ⟨d, hd, rfl⟩ := List.mem_map.mp hf
        cases op with
        | event eventType data now => cases hd
        | compute load rate now =>
          rw [firing, timestamp_of_decided hd]
          exact hnow op' hop'
    rw [runDecisions, List.map_append, ← List.append_assoc, along_cons]
    by_cases hwait : t.WaitsForQuantum op
    · have hrest := ih hstep.2 (hstep.1.mpr ⟨hspaced, hwait⟩) hops hnext
      rw [config_step] at hrest
      refine hrest.trans ⟨fun h => ⟨hwait, ?_⟩, fun h => h.2 _ rfl⟩
      rintro _ ⟨⟩
      exact h
    · refine iff_of_false (fun hall => ?_) fun hall => hwait hall.1
      exact hwait (hstep.1.mp (hall.sublist (List.sublist_append_left _ _))).2

end AutoTuner

/-- Decisions for one action keep the cooldown exactly if no quantum is decided on at a critical
load while its own cooldown lasts. -/
theorem decisions_spaced_iff (cfg : TunerConfig) (ops : List TunerOp)
    (hops : TunerOp.Ordered ops) : DecisionsSpaced cfg ops ↔
      Along (fun t op => some (t.step op)) AutoTuner.WaitsForQuantum
        (AutoTuner.new.reloadConfig cfg) ops := by
  have hrun := (AutoTuner.tracks_new cfg).run List.Pairwise.nil hops nofun
  rw [Spaced, List.nil_append, List.pairwise_map] at hrun
  exact hrun

/-- A decision at a normal load after an exception. -/
theorem decisions_spaced_normal : DecisionsSpaced PolicyConfig.default.tuner
    [.event .exception [] 1600, .compute .normal 0 1600, .compute .critical 60 1700] := by
  rw [decisions_spaced_iff _ _ (by simp [TunerOp.Ordered, TunerOp.NotBefore])]
  refine ⟨trivial, ?_⟩
  rintro _ ⟨⟩
  refine ⟨trivial, ?_⟩
  rintro _ ⟨⟩
  exact ⟨fun _ => by decide, fun _ _ => trivial⟩

/-- Two calls at a critical load decide on the quantum a tick apart. -/
theorem not_decisions_spaced : ¬ ∀ (cfg : TunerConfig) (ops : List TunerOp),
    TunerOp.Ordered ops → DecisionsSpaced cfg ops := by
  intro h
  have hbad := h PolicyConfig.default.tuner [.compute .critical 60 1500, .compute .critical 60 1501]
    (by simp [TunerOp.Ordered, TunerOp.NotBefore])
  have hgap := (List.pairwise_cons.mp hbad).1 ⟨.schedQuantum, "scheduler", 50, .critical, 1501⟩
    (List.mem_singleton_self _) rfl
  exact absurd hgap (by decide)

end VernisOS
