import VernisOS.Policy

/-!
# The policy compiler

`ai/tools/policy_compile.py`. The source is what `load_yaml` returns : a key that is absent
and one whose value is empty are the same to the compiler, and so are they here. A number of
seconds, a rate or a threshold is a `float`, which is Lean's own, and `int(x)` of another
number is an integer. The compiler fails where `struct.pack` raises : its number is not in
the range of the field.
-/

open Bytes

namespace VernisOS

/-! ## The source -/

structure RateRuleSource where
  eventType : String
  maxCount : ℤ
  windowSec : Float
  severity : String

structure PatternRuleSource where
  name : String
  sequence : List String
  windowSec : Float
  severity : String

structure ThresholdRuleSource where
  metric : String
  maxVal : Float
  severity : String

structure TunerSource where
  highRate : Float
  criticalRate : Float
  highProcCount : ℤ
  criticalProcCount : ℤ
  defaultQuantum : ℤ
  cooldownSec : Float

structure RemediationRuleSource where
  minSeverity : String
  action : String
  param : Option ℤ
  repeatLimit : Option ℤ
  cooldownSec : Float

structure DedupSource where
  windowSec : Float

structure TrustSource where
  failuresToSuspicious : ℤ
  failuresToUntrusted : ℤ
  denialsToSuspicious : ℤ
  denialsToUntrusted : ℤ
  anomaliesToSuspicious : ℤ
  anomaliesToUntrusted : ℤ

structure AccessRuleSource where
  pattern : String
  minPrivilege : ℤ

structure PolicySource where
  version : Option ℤ
  rateRules : List RateRuleSource
  patternRules : List PatternRuleSource
  thresholdRules : List ThresholdRuleSource
  tuner : Option TunerSource
  remediationRules : List RemediationRuleSource
  dedup : Option DedupSource
  trust : Option TrustSource
  accessRules : List AccessRuleSource

/-! ## Fields -/

/-- `struct.pack` of "B". -/
def packB (n : ℤ) : Option UInt8 :=
  if 0 ≤ n ∧ n < 256 then some (UInt8.ofNat n.toNat) else none

/-- `struct.pack` of "H". -/
def packH (n : ℤ) : Option UInt16 :=
  if 0 ≤ n ∧ n < 65536 then some (UInt16.ofNat n.toNat) else none

/-- `struct.pack` of "I". -/
def packI (n : ℤ) : Option UInt32 :=
  if 0 ≤ n ∧ n < 4294967296 then some (UInt32.ofNat n.toNat) else none

/-- `struct.pack` of "I", of the integer part of a `float`. -/
def packFloatI (x : Float) : Option UInt32 :=
  if -1 < x ∧ x < 4294967296 then some x.toUInt32 else none

/-- `struct.pack` of "Q", of the integer part of a `float`. -/
def packFloatQ (x : Float) : Option UInt64 :=
  if -1 < x ∧ x < 18446744073709551616 then some x.toUInt64 else none

/-- `pad_bytes`. Encoding to ASCII replaces what is not. -/
def padBytes (s : String) (size : ℕ) : List UInt8 :=
  let b := (s.toList.map asciiByte).take size
  b ++ List.replicate (size - b.length) 0

/-- `sec_to_ticks`, packed. -/
def secToTicks (sec : Float) : Option UInt64 :=
  packFloatQ (sec * 100)

/-- `int(float(x) * 100)`, packed. -/
def x100 (x : Float) : Option UInt32 :=
  packFloatI (x * 100)

/-- `str.upper`, as far as `SEVERITY_MAP` can tell. Of the letters outside ASCII only the
dotless i becomes a letter of one of its keys. -/
def upper (s : String) : String :=
  s.map fun c => if c = Char.ofNat 0x131 then 'I' else c.toUpper

/-- `str.lower`, as far as `ACTION_MAP` can tell. Of the letters outside ASCII only the Kelvin
sign becomes a letter of one of its keys. -/
def lower (s : String) : String :=
  s.map fun c => if c = Char.ofNat 0x212a then 'k' else c.toLower

/-- `SEVERITY_MAP.get(s.upper(), 0)`. -/
def severityMap (s : String) : UInt8 :=
  if upper s = "LOW" then 0 else if upper s = "MEDIUM" then 1 else if upper s = "HIGH" then 2
  else if upper s = "CRITICAL" then 3 else 0

/-- `ACTION_MAP.get(s.lower(), 2)`. -/
def actionMap (s : String) : UInt8 :=
  if lower s = "kill" then 0 else if lower s = "throttle" then 1 else if lower s = "log" then 2
  else if lower s = "revoke" then 3 else if lower s = "suspend" then 4 else 2

/-! ## Sections -/

def encodeRateRule (r : RateRuleSource) : Option (List UInt8) := do
  let maxCount ← packI r.maxCount
  let window ← secToTicks r.windowSec
  return padBytes r.eventType 4 ++ le32 maxCount ++ le64 window ++
    [severityMap r.severity, 0, 0, 0]

def encodePatternRule (r : PatternRuleSource) : Option (List UInt8) := do
  let window ← secToTicks r.windowSec
  return padBytes r.name 16 ++
    [UInt8.ofNat (min r.sequence.length 5), severityMap r.severity, 0, 0] ++
    ((List.range 5).flatMap fun i =>
      if i < min r.sequence.length 5 then padBytes (r.sequence.getD i "") 4 else [0, 0, 0, 0]) ++
    le64 window

def encodeThresholdRule (r : ThresholdRuleSource) : Option (List UInt8) := do
  let maxVal ← x100 r.maxVal
  return padBytes r.metric 16 ++ le32 maxVal ++ [severityMap r.severity, 0, 0, 0]

def encodeTunerConfig (cfg : TunerSource) : Option (List UInt8) := do
  let highRate ← x100 cfg.highRate
  let criticalRate ← x100 cfg.criticalRate
  let highProcCount ← packI cfg.highProcCount
  let criticalProcCount ← packI cfg.criticalProcCount
  let defaultQuantum ← packI cfg.defaultQuantum
  let cooldown ← secToTicks cfg.cooldownSec
  return le32 highRate ++ le32 criticalRate ++ le32 highProcCount ++ le32 criticalProcCount ++
    le32 defaultQuantum ++ [0, 0, 0, 0] ++ le64 cooldown

def encodeRemediationRule (r : RemediationRuleSource) : Option (List UInt8) := do
  let param ← packH (r.param.getD 0)
  let repeatLimit ← packI (r.repeatLimit.getD 1)
  let cooldown ← secToTicks r.cooldownSec
  return [severityMap r.minSeverity, actionMap r.action] ++ le16 param ++ le32 repeatLimit ++
    le64 cooldown

def encodeDedupConfig (cfg : DedupSource) : Option (List UInt8) := do
  let window ← secToTicks cfg.windowSec
  return le64 window

def encodeTrustConfig (cfg : TrustSource) : Option (List UInt8) := do
  let failuresToSuspicious ← packI cfg.failuresToSuspicious
  let failuresToUntrusted ← packI cfg.failuresToUntrusted
  let denialsToSuspicious ← packI cfg.denialsToSuspicious
  let denialsToUntrusted ← packI cfg.denialsToUntrusted
  let anomaliesToSuspicious ← packI cfg.anomaliesToSuspicious
  let anomaliesToUntrusted ← packI cfg.anomaliesToUntrusted
  return le32 failuresToSuspicious ++ le32 failuresToUntrusted ++ le32 denialsToSuspicious ++
    le32 denialsToUntrusted ++ le32 anomaliesToSuspicious ++ le32 anomaliesToUntrusted

def encodeAccessRule (r : AccessRuleSource) : Option (List UInt8) := do
  let privLevel ← packB r.minPrivilege
  return padBytes r.pattern 32 ++ [privLevel, 0, 0, 0]

/-- What an `encode_*` function returns : type, number of entries, entries. -/
structure PolicySection where
  secType : UInt8
  entryCount : ℕ
  entries : List UInt8

/-- A section of rules, left out where there are none. -/
def encodeRules {α : Type} (secType : UInt8) (encode : α → Option (List UInt8)) (rules : List α) :
    Option (List PolicySection) :=
  if rules.isEmpty then some []
  else (rules.mapM encode).map fun data => [⟨secType, rules.length, data.flatten⟩]

/-- A section of one entry, left out where it is not given. -/
def encodeConfig {α : Type} (secType : UInt8) (encode : α → Option (List UInt8))
    (cfg : Option α) : Option (List PolicySection) :=
  match cfg with
  | none => some []
  | some cfg => (encode cfg).map fun data => [⟨secType, 1, data⟩]

/-- The sections of `compile_policy`. -/
def policySections (cfg : PolicySource) : Option (List PolicySection) := do
  let rate ← encodeRules secRateRules encodeRateRule cfg.rateRules
  let pattern ← encodeRules secPatternRules encodePatternRule cfg.patternRules
  let threshold ← encodeRules secThresholdRules encodeThresholdRule cfg.thresholdRules
  let tuner ← encodeConfig secTunerConfig encodeTunerConfig cfg.tuner
  let remediation ← encodeRules secRemediationRules encodeRemediationRule cfg.remediationRules
  let dedup ← encodeConfig secDedupConfig encodeDedupConfig cfg.dedup
  let trust ← encodeConfig secTrustConfig encodeTrustConfig cfg.trust
  let access ← encodeRules secAccessRules encodeAccessRule cfg.accessRules
  return rate ++ pattern ++ threshold ++ tuner ++ remediation ++ dedup ++ trust ++ access

/-- A section with its header. -/
def packSection (s : PolicySection) : Option (List UInt8) := do
  let entryCount ← packH s.entryCount
  let dataSize ← packI s.entries.length
  return [s.secType, 0] ++ le16 entryCount ++ le32 dataSize ++ s.entries

/-- `compile_policy` : the blob it writes. -/
def compilePolicy (cfg : PolicySource) : Option (List UInt8) := do
  let sections ← policySections cfg
  let version ← packH (cfg.version.getD 1)
  let sectionCount ← packH sections.length
  let body ← sections.mapM packSection
  return utf8 "VPOL" ++ le16 version ++ le16 sectionCount ++ body.flatten

end VernisOS
