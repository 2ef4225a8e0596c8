import VernisOS.AnomalyDetectors
import VernisOS.Lib.Cooldown
import VernisOS.Lib.Run

/-!
# Remediation

`ai/response_handler.rs`. The history has one number for an action and a pid, `action * 100000 +
pid`, and the collector drops what is 12000 ticks old, whatever the cooldown. Executions keep
their cooldown, and the anomalies of one process have no influence on what is decided for
another, in every run in which no process finds the record of another and no record is missed
that still counts (`remediation_limited`).
-/

open Cooldown Run

namespace VernisOS

/-! ## The handler -/

/-- The severities in the order of their discriminants. -/
def Severity.rank : Severity → ℕ
  | low => 0
  | medium => 1
  | high => 2
  | critical => 3

/-- The discriminant of an action. -/
def RemediationAction.index : RemediationAction → UInt64
  | log => 0
  | throttle => 1
  | kill => 2
  | revoke => 3
  | suspend => 4

/-- `RemediationAction::as_str`. -/
def RemediationAction.asStr : RemediationAction → String
  | log => "log"
  | throttle => "throttle"
  | kill => "kill"
  | revoke => "revoke"
  | suspend => "suspend"

/-- A call of the remediation callback. -/
structure RemediateCall where
  action : String
  pid : UInt32
  param : UInt32

/-- What the execution of an action calls. -/
def RemediationAction.call (action : RemediationAction) (pid param : UInt32) :
    Option RemediateCall :=
  match action with
  | kill => some ⟨action.asStr, pid, 0⟩
  | throttle => some ⟨action.asStr, pid, param⟩
  | log => none
  | revoke | suspend => some ⟨action.asStr, pid, param⟩

/-- An action on a process. -/
abbrev Remedy := RemediationAction × UInt32

/-- The key of the history. -/
def Remedy.code (k : Remedy) : UInt64 :=
  k.1.index * 100000 + k.2.toUInt64

/-- `BTreeMap::get`. -/
def historyGet (history : List (UInt64 × ActionRecord)) (key : UInt64) : Option ActionRecord :=
  (history.find? fun entry => entry.1 = key).map Prod.snd

/-- The entry of a key is replaced. -/
def historySet (history : List (UInt64 × ActionRecord)) (key : UInt64) (record : ActionRecord) :
    List (UInt64 × ActionRecord) :=
  (key, record) :: history.filter fun entry => entry.1 ≠ key

/-- The rule lets no execution happen : the cooldown runs, or there were too many. -/
def RemediationRule.Blocked (rule : RemediationRule) (record : ActionRecord) (now : UInt64) :
    Prop :=
  saturatingSub now record.lastTick < rule.cooldownTicks ∨ rule.repeatLimit ≤ record.count

instance (rule : RemediationRule) (record : ActionRecord) (now : UInt64) :
    Decidable (rule.Blocked record now) :=
  inferInstanceAs (Decidable (_ ∨ _))

namespace ResponseHandler

/-- A handler with these rules, as `new` and `reload_config` leave it. -/
def ofRules (rules : List RemediationRule) : ResponseHandler :=
  ⟨rules, []⟩

/-- The first rule for an anomaly. -/
def ruleFor (h : ResponseHandler) (anomaly : Anomaly) : Option RemediationRule :=
  h.rules.find? fun r => r.minSeverity.rank ≤ anomaly.severity.rank

/-- The record of an execution. -/
def record (h : ResponseHandler) (key now : UInt64) : ResponseHandler :=
  let count := ((historyGet h.history key).map ActionRecord.count).getD 0
  { h with history := historySet h.history key ⟨now, count + 1⟩ }

/-- `ResponseHandler::handle_anomaly`. It returns the action taken, with its call. -/
def handleAnomaly (h : ResponseHandler) (anomaly : Anomaly) (now : UInt64) :
    Option (RemediationAction × Option RemediateCall) × ResponseHandler :=
  match h.ruleFor anomaly with
  | none => (none, h)
  | some rule =>
    let key := Remedy.code (rule.action, anomaly.sourcePid)
    let blocked := (historyGet h.history key).any fun record => rule.Blocked record now
    if blocked then (none, h)
    else (some (rule.action, rule.action.call anomaly.sourcePid rule.param), h.record key now)

/-- `ResponseHandler::gc`. -/
def gc (h : ResponseHandler) (now : UInt64) : ResponseHandler :=
  { h with history := h.history.filter fun entry => saturatingSub now entry.2.lastTick < 12000 }

end ResponseHandler

/-! ## Runs -/

inductive HandlerOp
  | anomaly (a : Anomaly) (now : UInt64)
  | gc (now : UInt64)

def HandlerOp.now : HandlerOp → UInt64
  | anomaly _ now => now
  | gc now => now

/-- The ticks of a run do not fall. -/
def HandlerOp.Ordered (ops : List HandlerOp) : Prop :=
  ops.Pairwise fun op op' => op.now ≤ op'.now

/-- The operation is no anomaly of another process. -/
def HandlerOp.concerns (pid : UInt32) : HandlerOp → Bool
  | anomaly a _ => a.sourcePid = pid
  | gc _ => true

/-- A handler, and the executions so far with the cooldowns of their rules. -/
structure HandlerRun where
  handler : ResponseHandler
  log : List (Firing Remedy)

namespace HandlerRun

/-- Nothing has happened. -/
def start (rules : List RemediationRule) : HandlerRun :=
  ⟨ResponseHandler.ofRules rules, []⟩

/-- The execution that an anomaly triggers. -/
def fired (s : HandlerRun) (a : Anomaly) (now : UInt64) : List (Firing Remedy) :=
  match s.handler.ruleFor a, (s.handler.handleAnomaly a now).1 with
  | some rule, some (action, _) => [⟨(action, a.sourcePid), now.toNat, rule.cooldownTicks.toNat⟩]
  | _, _ => []

def step (s : HandlerRun) : HandlerOp → HandlerRun
  | .anomaly a now => ⟨(s.handler.handleAnomaly a now).2, s.log ++ s.fired a now⟩
  | .gc now => ⟨s.handler.gc now, s.log⟩

end HandlerRun

/-- The decisions for the anomalies of a process. -/
def ResponseHandler.decisionsFor (pid : UInt32) (h : ResponseHandler) :
    List HandlerOp → List (Option (RemediationAction × Option RemediateCall))
  | [] => []
  | .anomaly a now :: ops =>
    let (decision, h) := h.handleAnomaly a now
    if a.sourcePid = pid then decision :: decisionsFor pid h ops else decisionsFor pid h ops
  | .gc now :: ops => decisionsFor pid (h.gc now) ops

/-- Executions of one action on one process keep the cooldown of the rule that triggers the later
one, and what is decided for a process is decided without the anomalies of the others too. -/
def RemediationLimited (rules : List RemediationRule) (ops : List HandlerOp) : Prop :=
  Spaced (ops.foldl .step (HandlerRun.start rules)).log ∧
    ∀ pid, (ResponseHandler.ofRules rules).decisionsFor pid ops =
      (ResponseHandler.ofRules rules).decisionsFor pid (ops.filter (HandlerOp.concerns pid))

/-- The last execution with a key. -/
def lastUnder (log : List (Firing Remedy)) (code : UInt64) : Option (Firing Remedy) :=
  log.reverse.find? fun f => f.key.code = code

/-- An anomaly finds the record of its own process or, if the cooldown has passed, none. -/
def HandlerRun.Meets (s : HandlerRun) : HandlerOp → Prop
  | .anomaly a now => ∀ rule, s.handler.ruleFor a = some rule →
    if (historyGet s.handler.history (Remedy.code (rule.action, a.sourcePid))).isSome then
      ∀ f, lastUnder s.log (Remedy.code (rule.action, a.sourcePid)) = some f →
        f.key.2 = a.sourcePid
    else Cooled s.log (rule.action, a.sourcePid) rule.cooldownTicks.toNat now.toNat
  | .gc _ => True

/-! ## The history -/

section
variable {history : List (UInt64 × ActionRecord)} {key key' : UInt64} {record : ActionRecord}

theorem historyGet_set_self : historyGet (historySet history key record) key = some record := by
  unfold historyGet historySet
  rw [List.find?_cons_of_pos (by simp)]
  rfl

theorem historyGet_set_of_ne (h : key' ≠ key) :
    historyGet (historySet history key record) key' = historyGet history key' := by
  unfold historyGet historySet
  rw [List.find?_cons_of_neg (by simpa using Ne.symm h), List.find?_filter]
  congr 2
  funext entry
  by_cases hentry : entry.1 = key'
  · simp [hentry, h]
  · simp [hentry]

theorem nodup_historySet (h : (history.map Prod.fst).Nodup) :
    ((historySet history key record).map Prod.fst).Nodup := by
  unfold historySet
  rw [List.map_cons, List.nodup_cons]
  refine ⟨fun hmem => ?_, (List.filter_sublist.map _).nodup h⟩
  obtain ⟨entry, hentry, hkey⟩ := List.mem_map.mp hmem
  exact absurd hkey (by simpa using (List.mem_filter.mp hentry).2)

theorem historyGet_filter (h : (history.map Prod.fst).Nodup) (p : ActionRecord → Bool) :
    historyGet (history.filter fun entry => p entry.2) key = (historyGet history key).filter p := by
  induction history with
  | nil => rfl
  | cons entry history ih =>
    rw [List.map_cons, List.nodup_cons] at h
    unfold historyGet at ih ⊢
    by_cases hkey : entry.1 = key
    · have hgone : ∀ e ∈ history.filter fun entry => p entry.2, ¬ decide (e.1 = key) = true := by
        intro e he
        rw [decide_eq_true_iff, ← hkey]
        exact fun hsame => h.1 (List.mem_map.mpr ⟨e, List.mem_of_mem_filter he, hsame⟩)
      rw [List.find?_cons_of_pos (by simpa using hkey)]
      by_cases hp : p entry.2 = true
      · rw [List.filter_cons, if_pos hp, List.find?_cons_of_pos (by simpa using hkey)]
        simp [Option.filter, hp]
      · rw [List.filter_cons, if_neg hp, List.find?_eq_none.mpr hgone]
        simp [Option.filter, hp]
    · rw [List.find?_cons_of_neg (by simpa using hkey), ← ih h.2]
      by_cases hp : p entry.2 = true
      · rw [List.filter_cons, if_pos hp, List.find?_cons_of_neg (by simpa using hkey)]
      · rw [List.filter_cons, if_neg hp]

end

/-! ## Keys -/

theorem toNat_code (k : Remedy) :
    k.code.toNat = k.1.index.toNat * 100000 + k.2.toNat := by
  obtain ⟨action, pid⟩ := k
  have hpid := pid.toNat_lt
  have hindex : action.index.toNat ≤ 4 := by cases action <;> decide
  unfold Remedy.code
  rw [UInt64.toNat_add, UInt64.toNat_mul, UInt32.toNat_toUInt64]
  have hmul : action.index.toNat * (100000 : UInt64).toNat % 2 ^ 64 =
      action.index.toNat * 100000 := Nat.mod_eq_of_lt (by
    change action.index.toNat * 100000 < 2 ^ 64
    omega)
  dsimp only
  rw [hmul, Nat.mod_eq_of_lt (by omega)]

theorem index_injective : Function.Injective fun a : RemediationAction => a.index.toNat := by
  intro a b h
  cases a <;> cases b <;> first | rfl | exact absurd h (by decide)

/-- For one process the key tells the action. -/
theorem code_inj {a a' : RemediationAction} {pid : UInt32}
    (h : Remedy.code (a, pid) = Remedy.code (a', pid)) : a = a' := by
  refine index_injective ?_
  have hcode := congrArg UInt64.toNat h
  rw [toNat_code, toNat_code] at hcode
  dsimp only at hcode ⊢
  omega

/-! ## The log -/

section
variable {log : List (Firing Remedy)} {f : Firing Remedy} {code : UInt64} {k : Remedy}

theorem lastUnder_concat (log : List (Firing Remedy)) (f : Firing Remedy) (code : UInt64) :
    lastUnder (log ++ [f]) code = if f.key.code = code then some f else lastUnder log code := by
  unfold lastUnder
  rw [List.reverse_append, List.reverse_singleton, List.singleton_append, List.find?_cons]
  by_cases h : f.key.code = code
  · simp [h]
  · simp [h]

theorem mem_of_lastUnder (h : lastUnder log code = some f) : f ∈ log ∧ f.key.code = code := by
  unfold lastUnder at h
  exact ⟨List.mem_reverse.mp (List.mem_of_find?_eq_some h), by simpa using List.find?_some h⟩

/-- The last execution with a key is the last of its own action and process. -/
theorem lastTime_of_lastUnder (h : lastUnder log k.code = some f) (hkey : f.key = k) :
    lastTime log k = some f.time := by
  induction log using List.reverseRecOn with
  | nil => cases h
  | append_singleton log g ih =>
    rw [lastUnder_concat] at h
    rw [lastTime_concat]
    by_cases hcode : g.key.code = k.code
    · rw [if_pos hcode] at h
      obtain rfl := Option.some.inj h
      rw [if_pos hkey]
    · rw [if_neg hcode] at h
      rw [if_neg fun hsame => hcode (congrArg Remedy.code hsame)]
      exact ih h

end

/-! ## One operation -/

/-- No record blocks an anomaly. -/
def ResponseHandler.Free (h : ResponseHandler) (rule : RemediationRule) (a : Anomaly)
    (now : UInt64) : Prop :=
  ∀ record, historyGet h.history (Remedy.code (rule.action, a.sourcePid)) = some record →
    ¬ rule.Blocked record now

theorem handleAnomaly_cases (h : ResponseHandler) (a : Anomaly) (now : UInt64) :
    (h.handleAnomaly a now = (none, h) ∧
        ∀ rule, h.ruleFor a = some rule → ¬ h.Free rule a now) ∨
      ∃ rule, h.ruleFor a = some rule ∧ h.Free rule a now ∧
        h.handleAnomaly a now = (some (rule.action, rule.action.call a.sourcePid rule.param),
          h.record (Remedy.code (rule.action, a.sourcePid)) now) := by
  unfold ResponseHandler.handleAnomaly
  cases hrule : h.ruleFor a with
  | none => exact Or.inl ⟨rfl, nofun⟩
  | some rule =>
    have hfree : ((historyGet h.history (Remedy.code (rule.action, a.sourcePid))).any
        fun record => decide (rule.Blocked record now)) = true ↔ ¬ h.Free rule a now := by
      unfold ResponseHandler.Free
      cases historyGet h.history (Remedy.code (rule.action, a.sourcePid)) with
      | none => simp
      | some record => simp
    dsimp only
    split_ifs with hblocked
    · refine Or.inl ⟨rfl, fun rule' hsame => ?_⟩
      obtain rfl := Option.some.inj hsame
      exact hfree.mp hblocked
    · exact Or.inr ⟨rule, rfl, not_not.mp fun hno => hblocked (hfree.mpr hno), rfl⟩

/-- What an anomaly makes of a run : nothing, or an execution. -/
theorem step_anomaly_cases (s : HandlerRun) (a : Anomaly) (now : UInt64) :
    (s.handler.handleAnomaly a now = (none, s.handler) ∧ s.step (.anomaly a now) = s ∧
        ∀ rule, s.handler.ruleFor a = some rule → ¬ s.handler.Free rule a now) ∨
      ∃ rule, s.handler.ruleFor a = some rule ∧ s.handler.Free rule a now ∧
        s.handler.handleAnomaly a now =
          (some (rule.action, rule.action.call a.sourcePid rule.param),
            s.handler.record (Remedy.code (rule.action, a.sourcePid)) now) ∧
        s.step (.anomaly a now) =
          ⟨s.handler.record (Remedy.code (rule.action, a.sourcePid)) now,
            s.log ++ [⟨(rule.action, a.sourcePid), now.toNat, rule.cooldownTicks.toNat⟩]⟩ := by
  rw [HandlerRun.step, HandlerRun.fired]
  rcases handleAnomaly_cases s.handler a now with ⟨heq, hblocked⟩ | ⟨rule, hrule, hfree, heq⟩
  · refine Or.inl ⟨heq, ?_, hblocked⟩
    rw [heq]
    cases s.handler.ruleFor a with
    | none => simp
    | some rule => simp
  · refine Or.inr ⟨rule, hrule, hfree, heq, ?_⟩
    rw [heq, hrule]

/-! ## Cooldowns -/

section
variable {s : HandlerRun}

/-- The executions so far keep their cooldowns, and a record has the tick of the last with its
key. -/
structure HandlerRun.Sound (s : HandlerRun) : Prop where
  nodup : (s.handler.history.map Prod.fst).Nodup
  ordered : Chronological s.log
  spaced : Spaced s.log
  last : ∀ code record, historyGet s.handler.history code = some record →
    ∃ f, lastUnder s.log code = some f ∧ f.time = record.lastTick.toNat

theorem sound_start (rules : List RemediationRule) : (HandlerRun.start rules).Sound where
  nodup := List.nodup_nil
  ordered := List.Pairwise.nil
  spaced := List.Pairwise.nil
  last _ _ h := nomatch h

/-- A free anomaly that finds its own record, or misses none, is ready. -/
theorem HandlerRun.Sound.ready (h : s.Sound) {a : Anomaly} {now : UInt64}
    (hmeets : s.Meets (.anomaly a now)) {rule : RemediationRule}
    (hrule : s.handler.ruleFor a = some rule) (hfree : s.handler.Free rule a now) :
    Cooled s.log (rule.action, a.sourcePid) rule.cooldownTicks.toNat now.toNat := by
  have hown := hmeets rule hrule
  cases hget : historyGet s.handler.history (Remedy.code (rule.action, a.sourcePid)) with
  | none =>
    rw [hget] at hown
    exact hown
  | some record =>
    rw [hget, Option.isSome_some, if_pos rfl] at hown
    obtain ⟨f, hf, htime⟩ := h.last _ record hget
    have hkey : f.key = (rule.action, a.sourcePid) := by
      have hpid := hown f hf
      have hcode := (mem_of_lastUnder hf).2
      obtain ⟨⟨action, pid⟩, time, gap⟩ := f
      dsimp only at hpid hcode ⊢
      rw [hpid] at hcode ⊢
      rw [code_inj hcode]
    intro t ht
    rw [lastTime_of_lastUnder hf hkey] at ht
    obtain rfl := Option.some.inj ht
    have hcool : ¬ saturatingSub now record.lastTick < rule.cooldownTicks := fun hlt =>
      hfree record hget (Or.inl hlt)
    rwa [UInt64.lt_iff_toNat_lt, toNat_saturatingSub, not_lt, ← htime] at hcool

theorem HandlerRun.Sound.step (h : s.Sound) {op : HandlerOp} (hmeets : s.Meets op)
    (hnow : ∀ f ∈ s.log, f.time ≤ op.now.toNat) : (s.step op).Sound := by
  cases op with
  | gc now =>
    refine ⟨(List.filter_sublist.map _).nodup h.nodup, h.ordered, h.spaced, fun code record hget => ?_⟩
    refine h.last code record ?_
    simp only [HandlerRun.step, ResponseHandler.gc] at hget
    rw [historyGet_filter h.nodup fun record => saturatingSub now record.lastTick < 12000] at hget
    exact (Option.filter_eq_some_iff.mp hget).1
  | anomaly a now =>
    rcases step_anomaly_cases s a now with ⟨-, hstep, -⟩ | ⟨rule, hrule, hfree, -, hstep⟩
    · rw [hstep]
      exact h
    · rw [hstep]
      refine ⟨nodup_historySet h.nodup, chronological_concat.mpr ⟨h.ordered, hnow⟩,
        (spaced_concat_iff h.ordered).mpr ⟨h.spaced, h.ready hmeets hrule hfree⟩, ?_⟩
      intro code record hget
      rw [lastUnder_concat]
      by_cases hcode : Remedy.code (rule.action, a.sourcePid) = code
      · subst hcode
        obtain rfl := Option.some.inj (historyGet_set_self.symm.trans hget)
        exact ⟨_, if_pos rfl, rfl⟩
      · rw [if_neg hcode]
        exact h.last code record ((historyGet_set_of_ne (Ne.symm hcode)).symm.trans hget)

/-! ## Without the others -/

/-- A handler that only saw the anomalies of `pid` : it has the records of `pid`, where the run
has not left one of another process. -/
structure Alike (pid : UInt32) (s : HandlerRun) (h : ResponseHandler) : Prop where
  rules : h.rules = s.handler.rules
  nodup : (h.history.map Prod.fst).Nodup
  own : ∀ action, (∀ f, lastUnder s.log (Remedy.code (action, pid)) = some f → f.key.2 = pid) →
    historyGet h.history (Remedy.code (action, pid)) =
      historyGet s.handler.history (Remedy.code (action, pid))
  other : ∀ action f, lastUnder s.log (Remedy.code (action, pid)) = some f → f.key.2 ≠ pid →
    historyGet h.history (Remedy.code (action, pid)) = none

variable {pid : UInt32} {h : ResponseHandler}

theorem Alike.ruleFor (hlike : Alike pid s h) (a : Anomaly) :
    h.ruleFor a = s.handler.ruleFor a := by
  rw [ResponseHandler.ruleFor, ResponseHandler.ruleFor, hlike.rules]

/-- Where the run has no record, the other handler has none either. -/
theorem Alike.get_none (hlike : Alike pid s h) {action : RemediationAction}
    (hnone : historyGet s.handler.history (Remedy.code (action, pid)) = none) :
    historyGet h.history (Remedy.code (action, pid)) = none := by
  by_cases hown : ∀ f, lastUnder s.log (Remedy.code (action, pid)) = some f → f.key.2 = pid
  · rw [hlike.own action hown, hnone]
  · push Not at hown
    obtain ⟨f, hf, hpid⟩ := hown
    exact hlike.other action f hf hpid

/-- For an anomaly of `pid` both find the same record. -/
theorem Alike.get_eq (hlike : Alike pid s h) {a : Anomaly} {now : UInt64}
    (hmeets : s.Meets (.anomaly a now)) (hpid : a.sourcePid = pid) {rule : RemediationRule}
    (hrule : s.handler.ruleFor a = some rule) :
    historyGet h.history (Remedy.code (rule.action, pid)) =
      historyGet s.handler.history (Remedy.code (rule.action, pid)) := by
  have hown := hmeets rule hrule
  rw [hpid] at hown
  cases hget : historyGet s.handler.history (Remedy.code (rule.action, pid)) with
  | none => exact hlike.get_none hget
  | some record =>
    rw [hget, Option.isSome_some, if_pos rfl] at hown
    rw [hlike.own rule.action hown, hget]

theorem Alike.gc (hlike : Alike pid s h) (hnodup : (s.handler.history.map Prod.fst).Nodup)
    (now : UInt64) : Alike pid (s.step (.gc now)) (h.gc now) := by
  have hkeep : ∀ (h : ResponseHandler) code, (h.history.map Prod.fst).Nodup →
      historyGet (h.gc now).history code = (historyGet h.history code).filter fun record =>
        saturatingSub now record.lastTick < 12000 :=
    fun h code hnodup => historyGet_filter hnodup fun record =>
      decide (saturatingSub now record.lastTick < 12000)
  refine ⟨hlike.rules, (List.filter_sublist.map _).nodup hlike.nodup, ?_, ?_⟩
  · intro action hown
    refine (hkeep h _ hlike.nodup).trans ?_
    rw [hlike.own action hown]
    exact (hkeep s.handler _ hnodup).symm
  · intro action f hf hpid
    refine (hkeep h _ hlike.nodup).trans ?_
    rw [hlike.other action f hf hpid]
    rfl

/-- An execution for another process leaves the other handler as it should be. -/
theorem Alike.step_other (hlike : Alike pid s h) (hsound : s.Sound) {a : Anomaly} {now : UInt64}
    (hmeets : s.Meets (.anomaly a now)) (hpid : a.sourcePid ≠ pid) :
    Alike pid (s.step (.anomaly a now)) h := by
  rcases step_anomaly_cases s a now with ⟨-, hstep, -⟩ | ⟨rule, hrule, -, -, hstep⟩
  · rw [hstep]
    exact hlike
  · rw [hstep]
    have hown := hmeets rule hrule
    refine ⟨hlike.rules, hlike.nodup, fun action => ?_, fun action => ?_⟩
    · dsimp only
      rw [lastUnder_concat]
      by_cases hcode : Remedy.code (rule.action, a.sourcePid) = Remedy.code (action, pid)
      · rw [if_pos hcode]
        exact fun hall => absurd (hall _ rfl) hpid
      · rw [if_neg hcode]
        intro hall
        rw [hlike.own action hall]
        exact (historyGet_set_of_ne (Ne.symm hcode)).symm
    · dsimp only
      rw [lastUnder_concat]
      by_cases hcode : Remedy.code (rule.action, a.sourcePid) = Remedy.code (action, pid)
      · intro _ _ _
        rw [hcode] at hown
        cases hget : historyGet s.handler.history (Remedy.code (action, pid)) with
        | none => exact hlike.get_none hget
        | some record =>
          rw [hget, Option.isSome_some, if_pos rfl] at hown
          obtain ⟨g, hg, -⟩ := hsound.last _ record hget
          exact hlike.other action g hg (hown g hg ▸ hpid)
      · rw [if_neg hcode]
        exact hlike.other action

/-- An anomaly of `pid` is handled alike, and leaves the other handler as it should be. -/
theorem Alike.step_own (hlike : Alike pid s h) {a : Anomaly} {now : UInt64}
    (hmeets : s.Meets (.anomaly a now)) (hpid : a.sourcePid = pid) :
    (h.handleAnomaly a now).1 = (s.handler.handleAnomaly a now).1 ∧
      Alike pid (s.step (.anomaly a now)) (h.handleAnomaly a now).2 := by
  have hfree : ∀ rule, s.handler.ruleFor a = some rule →
      (h.Free rule a now ↔ s.handler.Free rule a now) := by
    intro rule hrule
    unfold ResponseHandler.Free
    rw [hpid, hlike.get_eq hmeets hpid hrule]
  rcases handleAnomaly_cases h a now with ⟨heq, hblocked⟩ | ⟨rule, hrule, hown, heq⟩
  · rcases step_anomaly_cases s a now with ⟨hsame, hstep, -⟩ | ⟨rule, hrule, hrun, -, -⟩
    · rw [heq, hsame, hstep]
      exact ⟨rfl, hlike⟩
    · exact absurd ((hfree rule hrule).mpr hrun) (hblocked rule (hlike.ruleFor a ▸ hrule))
  · have hrule' := hlike.ruleFor a ▸ hrule
    rcases step_anomaly_cases s a now with ⟨-, -, hblocked⟩ | ⟨rule', hrun, -, hsame, hstep⟩
    · exact absurd ((hfree rule hrule').mp hown) (hblocked rule hrule')
    · obtain rfl := Option.some.inj (hrule'.symm.trans hrun)
      rw [heq, hsame, hstep]
      refine ⟨rfl, hlike.rules, nodup_historySet hlike.nodup, fun action => ?_, fun action => ?_⟩
      · dsimp only
        rw [lastUnder_concat, hpid]
        by_cases hcode : Remedy.code (rule.action, pid) = Remedy.code (action, pid)
        · intro _
          unfold ResponseHandler.record
          dsimp only
          rw [hlike.get_eq hmeets hpid hrule', ← hcode, historyGet_set_self, historyGet_set_self]
        · rw [if_neg hcode]
          intro hall
          have hbefore := hlike.own action hall
          unfold ResponseHandler.record
          dsimp only
          rw [historyGet_set_of_ne (Ne.symm hcode), historyGet_set_of_ne (Ne.symm hcode), hbefore]
      · dsimp only
        rw [lastUnder_concat, hpid]
        by_cases hcode : Remedy.code (rule.action, pid) = Remedy.code (action, pid)
        · rw [if_pos hcode]
          intro f hf hne
          obtain rfl := Option.some.inj hf
          exact absurd rfl hne
        · rw [if_neg hcode]
          intro f hf hne
          exact (historyGet_set_of_ne (Ne.symm hcode)).trans (hlike.other action f hf hne)

/-! ## Runs -/

theorem log_le {s : HandlerRun} {op : HandlerOp} {f : Firing Remedy} (hf : f ∈ (s.step op).log) :
    f ∈ s.log ∨ f.time = op.now.toNat := by
  cases op with
  | gc now => exact Or.inl hf
  | anomaly a now =>
    rcases step_anomaly_cases s a now with ⟨-, hstep, -⟩ | ⟨rule, -, -, -, hstep⟩
    · rw [hstep] at hf
      exact Or.inl hf
    · rw [hstep] at hf
      rcases List.mem_append.mp hf with hf | hf
      · exact Or.inl hf
      · rw [List.mem_singleton.mp hf]
        exact Or.inr rfl

/-- What one operation leaves of the past of a run. -/
theorem past_step {s : HandlerRun} {op : HandlerOp} {ops : List HandlerOp}
    (hops : HandlerOp.Ordered (op :: ops))
    (hpast : ∀ f ∈ s.log, ∀ op' ∈ op :: ops, f.time ≤ op'.now.toNat) :
    ∀ f ∈ (s.step op).log, ∀ op' ∈ ops, f.time ≤ op'.now.toNat := by
  intro f hf op' hop'
  rcases log_le hf with hf | htime
  · exact hpast f hf op' (List.mem_cons_of_mem op hop')
  · rw [htime]
    exact UInt64.le_iff_toNat_le.mp ((List.pairwise_cons.mp hops).1 op' hop')

theorem HandlerRun.Sound.run (h : s.Sound) {ops : List HandlerOp} (hops : HandlerOp.Ordered ops)
    (hpast : ∀ f ∈ s.log, ∀ op ∈ ops, f.time ≤ op.now.toNat)
    (hmeets : Along (fun s op => some (s.step op)) HandlerRun.Meets s ops) :
    (ops.foldl .step s).Sound := by
  induction ops generalizing s with
  | nil => exact h
  | cons op ops ih =>
    have hnow := fun f hf => hpast f hf op List.mem_cons_self
    exact ih (h.step hmeets.1 hnow) (List.pairwise_cons.mp hops).2 (past_step hops hpast)
      (hmeets.2 _ rfl)

theorem Alike.run (hlike : Alike pid s h) (hsound : s.Sound) {ops : List HandlerOp}
    (hops : HandlerOp.Ordered ops) (hpast : ∀ f ∈ s.log, ∀ op ∈ ops, f.time ≤ op.now.toNat)
    (hmeets : Along (fun s op => some (s.step op)) HandlerRun.Meets s ops) :
    s.handler.decisionsFor pid ops = h.decisionsFor pid (ops.filter (HandlerOp.concerns pid)) := by
  induction ops generalizing s h with
  | nil => rfl
  | cons op ops ih =>
    have hnow := fun f hf => hpast f hf op List.mem_cons_self
    have hnext := hsound.step hmeets.1 hnow
    have htail := (List.pairwise_cons.mp hops).2
    have hrest := past_step hops hpast
    cases op with
    | gc now =>
      rw [List.filter_cons_of_pos rfl]
      exact ih (hlike.gc hsound.nodup now) hnext htail hrest (hmeets.2 _ rfl)
    | anomaly a now =>
      rw [ResponseHandler.decisionsFor]
      dsimp only
      by_cases hpid : a.sourcePid = pid
      · obtain ⟨hsame, hstep⟩ := hlike.step_own hmeets.1 hpid
        rw [if_pos hpid, List.filter_cons_of_pos (by simpa [HandlerOp.concerns] using hpid),
          ResponseHandler.decisionsFor]
        dsimp only
        rw [if_pos hpid, hsame]
        exact congrArg _ (ih hstep hnext htail hrest (hmeets.2 _ rfl))
      · rw [if_neg hpid, List.filter_cons_of_neg (by simpa [HandlerOp.concerns] using hpid)]
        exact ih (hlike.step_other hsound hmeets.1 hpid) hnext htail hrest (hmeets.2 _ rfl)

end

theorem alike_start (rules : List RemediationRule) (pid : UInt32) :
    Alike pid (HandlerRun.start rules) (ResponseHandler.ofRules rules) where
  rules := rfl
  nodup := List.nodup_nil
  own _ _ := rfl
  other _ _ hf := nomatch hf

/-- Remediation is limited per action and process only in every run in which no anomaly finds the
record of another process, or misses one that counts. -/
theorem remediation_limited (rules : List RemediationRule) (ops : List HandlerOp)
    (hops : HandlerOp.Ordered ops)
    (hmeets : Along (fun s op => some (s.step op)) HandlerRun.Meets (HandlerRun.start rules) ops) :
    RemediationLimited rules ops := by
  have hpast : ∀ f ∈ (HandlerRun.start rules).log, ∀ op ∈ ops, f.time ≤ op.now.toNat := nofun
  exact ⟨((sound_start rules).run hops hpast hmeets).spaced,
    fun pid => (alike_start rules pid).run (sound_start rules) hops hpast hmeets⟩

/-- Anomalies are logged, and high ones throttle their process. -/
def throttleOrLog : List RemediationRule :=
  [⟨.high, .throttle, 25, 3, 3000⟩, ⟨.low, .log, 0, 20, 500⟩]

/-- An anomaly of a process. -/
def anomalyOf (severity : Severity) (pid : UInt32) : Anomaly :=
  ⟨.rate, severity, "PROC rate exceeded", "", 0, pid⟩

theorem remediation_limited_throttle : RemediationLimited throttleOrLog
    [.anomaly (anomalyOf .high 5) 10, .gc 20, .anomaly (anomalyOf .high 5) 3010] := by
  refine remediation_limited throttleOrLog _ ?_ ⟨?_, ?_⟩
  · simp [HandlerOp.Ordered, HandlerOp.now]
  · rintro rule hrule t ht
    cases ht
  · rintro _ ⟨⟩
    refine ⟨trivial, ?_⟩
    rintro _ ⟨⟩
    refine ⟨?_, fun _ _ => trivial⟩
    intro rule hrule
    obtain rfl : ⟨.high, .throttle, 25, 3, 3000⟩ = rule := Option.some.inj hrule
    rw [if_pos (by decide)]
    intro f hf
    obtain rfl : ⟨(.throttle, 5), 10, 3000⟩ = f := Option.some.inj hf
    rfl

/-- Logging an anomaly of process 100005 keeps process 5 from being throttled. -/
theorem not_remediation_limited : ¬ ∀ (rules : List RemediationRule) (ops : List HandlerOp),
    HandlerOp.Ordered ops → RemediationLimited rules ops := by
  intro h
  have hbad := (h throttleOrLog [.anomaly (anomalyOf .low 100005) 10,
    .anomaly (anomalyOf .high 5) 20] (by simp [HandlerOp.Ordered, HandlerOp.now])).2 5
  exact absurd (congrArg (List.map Option.isSome) hbad) (by decide)

end VernisOS
