import VernisOS.Policy

/-!
# The AI engine

`ai/mod.rs` : what `load_policy` gives to the components, and the access rules. A component is
what its `reload_config` writes. Of the events that were fed to the engine only the times in
the rate windows and the action history are kept here, which a reload clears.
-/

open Bytes

namespace VernisOS

/-! ## Components -/

structure RateWindow where
  timestamps : List UInt64
  eventType : EventType
  maxCount : UInt32
  windowTicks : UInt64
  severity : Severity

/-- `RateWindow::new`. -/
def RateWindow.new (eventType : EventType) (maxCount : UInt32) (windowTicks : UInt64)
    (severity : Severity) : RateWindow :=
  ⟨[], eventType, maxCount, windowTicks, severity⟩

structure AnomalyDetector where
  rateWindows : List RateWindow
  patternRules : List PatternRuleConfig
  thresholdRules : List ThresholdRuleConfig

/-- `AnomalyDetector::reload_config`. -/
def AnomalyDetector.reloadConfig (rateRules : List RateRuleConfig)
    (patternRules : List PatternRuleConfig) (thresholdRules : List ThresholdRuleConfig) :
    AnomalyDetector where
  rateWindows := rateRules.map fun r =>
    RateWindow.new r.eventType r.maxCount r.windowTicks r.severity
  patternRules := patternRules
  thresholdRules := thresholdRules

structure RemediationRule where
  minSeverity : Severity
  action : RemediationAction
  param : UInt32
  repeatLimit : UInt32
  cooldownTicks : UInt64

structure ActionRecord where
  lastTick : UInt64
  count : UInt32

structure ResponseHandler where
  rules : List RemediationRule
  history : List (UInt64 × ActionRecord)

/-- `ResponseHandler::reload_config`. -/
def ResponseHandler.reloadConfig (rules : List RemediationRuleConfig) : ResponseHandler where
  rules := rules.map fun r =>
    ⟨r.minSeverity, r.action, r.param.toUInt32, r.repeatLimit, r.cooldownTicks⟩
  history := []

structure AiEngine where
  anomalyDetector : AnomalyDetector
  autoTuner : TunerConfig
  responseHandler : ResponseHandler
  alertDedup : DedupConfig
  processTracker : TrustConfig
  policyVer : UInt16
  accessRules : List AccessRuleConfig

namespace AiEngine

/-! ## Loading a policy -/

/-- `AiEngine::load_policy`. -/
def loadPolicy (e : AiEngine) (config : PolicyConfig) : AiEngine :=
  { e with
    anomalyDetector := AnomalyDetector.reloadConfig config.rateRules config.patternRules
      config.thresholdRules
    autoTuner := config.tuner
    responseHandler := ResponseHandler.reloadConfig config.remediationRules
    alertDedup := config.dedup
    processTracker := config.trust
    accessRules := config.accessRules }

/-- `ai_engine_load_policy`, of an engine and a blob that are not null. -/
def aiEngineLoadPolicy (e : AiEngine) (blob : List UInt8) : UInt32 × AiEngine :=
  if blob.length < headerSize then (0, e)
  else
    match parsePolicyBlob blob with
    | some cfg => (1, { e.loadPolicy cfg with policyVer := cfg.version })
    | none => (0, e)

/-! ## Access rules -/

/-- `AiEngine::cmd_matches`. -/
def cmdMatches (cmd pattern : List UInt8) : Bool :=
  if cmd.length < pattern.length then false
  else if cmd.take pattern.length ≠ pattern then false
  else cmd.length == pattern.length || byteAt cmd pattern.length == 32

/-- The alternatives of a pattern, which a '|' separates. -/
def alternatives (pattern : List UInt8) : List (List UInt8) :=
  pattern.splitOn 124

/-- `AiEngine::check_access`. -/
def checkAccess (e : AiEngine) (command : List UInt8) : UInt8 :=
  match e.accessRules.find? fun rule =>
    (alternatives (rule.pattern.take rule.patternLen.toNat)).any (cmdMatches command) with
  | some rule => rule.minPrivilege
  | none => 255

/-- `ai_engine_check_access`. -/
def aiEngineCheckAccess (e : AiEngine) (command : List UInt8) : UInt8 :=
  if command.length = 0 then 255 else e.checkAccess command

end AiEngine

/-- An engine with the default policy. -/
def defaultEngine : AiEngine where
  anomalyDetector := AnomalyDetector.reloadConfig PolicyConfig.default.rateRules
    PolicyConfig.default.patternRules PolicyConfig.default.thresholdRules
  autoTuner := PolicyConfig.default.tuner
  responseHandler := ResponseHandler.reloadConfig PolicyConfig.default.remediationRules
  alertDedup := PolicyConfig.default.dedup
  processTracker := PolicyConfig.default.trust
  policyVer := 1
  accessRules := []

end VernisOS
