import VernisOS.Lib.Bytes

/-!
# Policy blobs

`ai/types.rs` and `ai/policy.rs` : the configuration of the AI engine, its defaults, and the
parser of the VPOL format. A `&str` and a slice are the list of their bytes, an array `[u8; n]`
is a list of `n` bytes, and an `f32` is Lean's own.

The five loops over the entries of a section are `parseEntries` with the size and the reader
of one entry.
-/

open Bytes

namespace VernisOS

/-! ## Types -/

inductive EventType
  | boot
  | stat
  | exception
  | process
  | module
  | deny
  | fail
  | syscall
  | unknown
  deriving DecidableEq

namespace EventType

def fromStr (s : List UInt8) : EventType :=
  if s = utf8 "BOOT" then boot
  else if s = utf8 "STAT" then stat
  else if s = utf8 "EXCP" then exception
  else if s = utf8 "PROC" then process
  else if s = utf8 "MOD" then module
  else if s = utf8 "DENY" then deny
  else if s = utf8 "FAIL" then fail
  else if s = utf8 "SYSCALL" then syscall
  else unknown

def asStr : EventType → String
  | boot => "BOOT"
  | stat => "STAT"
  | exception => "EXCP"
  | process => "PROC"
  | module => "MOD"
  | deny => "DENY"
  | fail => "FAIL"
  | syscall => "SYSCALL"
  | unknown => "UNK"

/-- Every name is read back as its type. -/
theorem fromStr_asStr (t : EventType) : fromStr (utf8 t.asStr) = t := by
  cases t <;> decide

end EventType

inductive Severity
  | low
  | medium
  | high
  | critical
  deriving DecidableEq

inductive RemediationAction
  | log
  | throttle
  | kill
  | revoke
  | suspend
  deriving DecidableEq

/-! ## Fields of an event -/

/-- `parse_pipe_fields` into a buffer of 4 : the field `i`. -/
def pipeField (data : List UInt8) (i : ℕ) : List UInt8 :=
  ((data.splitOn 124).take 4).getD i []

/-- `parse_u32` of a digit behind `result`, with saturation. -/
def pushDigit (result : UInt32) (b : UInt8) : UInt32 :=
  UInt32.ofNat (min (min (result.toNat * 10) 4294967295 + (b.toNat - 48)) 4294967295)

/-- `parse_u32`. -/
def parseU32 (s : List UInt8) : UInt32 :=
  (s.takeWhile fun b => 48 ≤ b && b ≤ 57).foldl pushDigit 0

/-! ## The parsed policy -/

structure RateRuleConfig where
  eventType : EventType
  maxCount : UInt32
  windowTicks : UInt64
  severity : Severity

structure PatternRuleConfig where
  name : List UInt8
  nameLen : UInt8
  sequence : List EventType
  seqLen : UInt8
  windowTicks : UInt64
  severity : Severity

structure ThresholdRuleConfig where
  metric : List UInt8
  metricLen : UInt8
  maxVal : Float32
  severity : Severity

structure TunerConfig where
  highRate : Float32
  criticalRate : Float32
  highProcCount : UInt32
  criticalProcCount : UInt32
  defaultQuantum : UInt32
  cooldownTicks : UInt64

structure RemediationRuleConfig where
  minSeverity : Severity
  action : RemediationAction
  param : UInt16
  repeatLimit : UInt32
  cooldownTicks : UInt64

structure DedupConfig where
  windowTicks : UInt64

structure TrustConfig where
  failuresToSuspicious : UInt32
  failuresToUntrusted : UInt32
  denialsToSuspicious : UInt32
  denialsToUntrusted : UInt32
  anomaliesToSuspicious : UInt32
  anomaliesToUntrusted : UInt32

structure AccessRuleConfig where
  pattern : List UInt8
  patternLen : UInt8
  minPrivilege : UInt8

structure PolicyConfig where
  rateRules : List RateRuleConfig
  patternRules : List PatternRuleConfig
  thresholdRules : List ThresholdRuleConfig
  tuner : TunerConfig
  remediationRules : List RemediationRuleConfig
  dedup : DedupConfig
  trust : TrustConfig
  accessRules : List AccessRuleConfig
  version : UInt16

/-- `PatternRuleConfig::name_str`. -/
def PatternRuleConfig.nameStr (r : PatternRuleConfig) : List UInt8 :=
  r.name.take r.nameLen.toNat

/-- `PatternRuleConfig::sequence_slice`. -/
def PatternRuleConfig.sequenceSlice (r : PatternRuleConfig) : List EventType :=
  r.sequence.take r.seqLen.toNat

/-- `ThresholdRuleConfig::metric_str`. -/
def ThresholdRuleConfig.metricStr (r : ThresholdRuleConfig) : List UInt8 :=
  r.metric.take r.metricLen.toNat

/-- `AccessRuleConfig::pattern_str`. -/
def AccessRuleConfig.patternStr (r : AccessRuleConfig) : List UInt8 :=
  r.pattern.take r.patternLen.toNat

/-! ## Defaults -/

/-- `config::RATE_RULES`. -/
def configRateRules : List (String × UInt32 × UInt64 × Severity) :=
  [("EXCP", 5, 1000, .high), ("PROC", 20, 500, .medium), ("DENY", 10, 500, .medium),
    ("FAIL", 5, 1000, .high), ("MOD", 8, 1000, .medium)]

/-- `config::PATTERN_RULES`. -/
def configPatternRules : List (String × List String × UInt64 × Severity) :=
  [("exception-storm", ["EXCP", "EXCP", "EXCP"], 300, .critical),
    ("bad-module", ["MOD", "EXCP"], 200, .high),
    ("denial-cascade", ["DENY", "DENY", "DENY", "DENY"], 300, .high),
    ("fork-bomb", ["PROC", "PROC", "PROC", "PROC", "PROC"], 200, .critical)]

/-- `config::THRESHOLD_RULES`. -/
def configThresholdRules : List (String × Float32 × Severity) :=
  [("process_count", 32, .medium), ("process_count", 64, .critical),
    ("ipc_queue_len", 100, .medium), ("exception_rate", 5, .high)]

/-- Bytes copied to the front of a zeroed array `[u8; n]`. -/
def nameBuf (n : ℕ) (bytes : List UInt8) : List UInt8 :=
  bytes.take n ++ List.replicate (n - bytes.length) 0

/-- `PolicyConfig::default`. -/
def PolicyConfig.default : PolicyConfig where
  rateRules := configRateRules.map fun (evt, max, window, sev) =>
    ⟨EventType.fromStr (utf8 evt), max, window, sev⟩
  patternRules := configPatternRules.map fun (name, seq, window, sev) =>
    { name := nameBuf 16 (utf8 name)
      nameLen := UInt8.ofNat (min (utf8 name).length 16)
      sequence := (seq.take 5).map (fun s => EventType.fromStr (utf8 s)) ++
        List.replicate (5 - seq.length) .unknown
      seqLen := UInt8.ofNat (min seq.length 5)
      windowTicks := window
      severity := sev }
  thresholdRules := configThresholdRules.map fun (metric, maxVal, sev) =>
    { metric := nameBuf 16 (utf8 metric)
      metricLen := UInt8.ofNat (min (utf8 metric).length 16)
      maxVal := maxVal
      severity := sev }
  tuner :=
    { highRate := 20
      criticalRate := 50
      highProcCount := 8
      criticalProcCount := 16
      defaultQuantum := 10
      cooldownTicks := 1500 }
  remediationRules :=
    [⟨.critical, .kill, 0, 1, 6000⟩, ⟨.high, .throttle, 25, 3, 3000⟩,
      ⟨.medium, .log, 0, 10, 1000⟩, ⟨.low, .log, 0, 20, 500⟩]
  dedup := ⟨3000⟩
  trust :=
    { failuresToSuspicious := 3
      failuresToUntrusted := 6
      denialsToSuspicious := 2
      denialsToUntrusted := 5
      anomaliesToSuspicious := 2
      anomaliesToUntrusted := 4 }
  accessRules := []
  version := 1

/-! ## Reading a blob -/

/-- `read_u16_le`. -/
def readU16Le (data : List UInt8) (offset : ℕ) : UInt16 :=
  if offset + 2 > data.length then 0 else leAt16 (byteAt data) offset

/-- `read_u32_le`. -/
def readU32Le (data : List UInt8) (offset : ℕ) : UInt32 :=
  if offset + 4 > data.length then 0 else leAt32 (byteAt data) offset

/-- `read_u64_le`. -/
def readU64Le (data : List UInt8) (offset : ℕ) : UInt64 :=
  if offset + 8 > data.length then 0 else leAt64 (byteAt data) offset

/-- `&data[a..a + n]`. -/
def slice (data : List UInt8) (a n : ℕ) : List UInt8 :=
  (data.drop a).take n

def severityFromU8 (v : UInt8) : Severity :=
  if v = 0 then .low else if v = 1 then .medium else if v = 2 then .high
  else if v = 3 then .critical else .low

def actionFromU8 (v : UInt8) : RemediationAction :=
  if v = 0 then .kill else if v = 1 then .throttle else if v = 2 then .log
  else if v = 3 then .revoke else if v = 4 then .suspend else .log

/-- The bytes before the first NUL. -/
def untilNul (bytes : List UInt8) : List UInt8 :=
  bytes.takeWhile (· ≠ 0)

/-- `event_type_from_4bytes`. Bytes that are no UTF-8 are no name either. -/
def eventTypeFrom4bytes (buf : List UInt8) : EventType :=
  EventType.fromStr (untilNul buf)

/-! ## Sections -/

/-- `SEC_RATE_RULES`. -/
def secRateRules : UInt8 := 1

/-- `SEC_PATTERN_RULES`. -/
def secPatternRules : UInt8 := 2

/-- `SEC_THRESHOLD_RULES`. -/
def secThresholdRules : UInt8 := 3

/-- `SEC_TUNER_CONFIG`. -/
def secTunerConfig : UInt8 := 4

/-- `SEC_REMEDIATION_RULES`. -/
def secRemediationRules : UInt8 := 5

/-- `SEC_DEDUP_CONFIG`. -/
def secDedupConfig : UInt8 := 6

/-- `SEC_TRUST_CONFIG`. -/
def secTrustConfig : UInt8 := 7

/-- `SEC_ACCESS_RULES`. -/
def secAccessRules : UInt8 := 8

/-- `RATE_RULE_SIZE`. -/
def rateRuleSize : ℕ := 20

/-- `PATTERN_RULE_SIZE`. -/
def patternRuleSize : ℕ := 48

/-- `THRESHOLD_RULE_SIZE`. -/
def thresholdRuleSize : ℕ := 28

/-- `TUNER_CONFIG_SIZE`. -/
def tunerConfigSize : ℕ := 32

/-- `REMEDIATION_RULE_SIZE`. -/
def remediationRuleSize : ℕ := 16

/-- `DEDUP_CONFIG_SIZE`. -/
def dedupConfigSize : ℕ := 8

/-- `TRUST_CONFIG_SIZE`. -/
def trustConfigSize : ℕ := 24

/-- `ACCESS_RULE_SIZE`. -/
def accessRuleSize : ℕ := 36

/-- The entries from the `i`-th on, as long as they fit into `len` bytes. -/
def parseEntries {α : Type} (size : ℕ) (read : ℕ → α) (len : ℕ) : ℕ → ℕ → List α
  | 0, _ => []
  | count + 1, i =>
    if i * size + size > len then [] else read (i * size) :: parseEntries size read len count (i + 1)

def parseRateRule (secData : List UInt8) (base : ℕ) : RateRuleConfig where
  eventType := eventTypeFrom4bytes (slice secData base 4)
  maxCount := readU32Le secData (base + 4)
  windowTicks := readU64Le secData (base + 8)
  severity := severityFromU8 (byteAt secData (base + 16))

def parsePatternRule (secData : List UInt8) (base : ℕ) : PatternRuleConfig :=
  let name := slice secData base 16
  let seqCount := if byteAt secData (base + 16) < 5 then byteAt secData (base + 16) else 5
  { name := name
    nameLen := UInt8.ofNat (untilNul name).length
    sequence := (List.range 5).map fun s =>
      if s < seqCount.toNat then eventTypeFrom4bytes (slice secData (base + 20 + s * 4) 4)
      else .unknown
    seqLen := seqCount
    windowTicks := readU64Le secData (base + 40)
    severity := severityFromU8 (byteAt secData (base + 17)) }

def parseThresholdRule (secData : List UInt8) (base : ℕ) : ThresholdRuleConfig :=
  let metric := slice secData base 16
  { metric := metric
    metricLen := UInt8.ofNat (untilNul metric).length
    maxVal := (readU32Le secData (base + 16)).toFloat32 / 100
    severity := severityFromU8 (byteAt secData (base + 20)) }

def parseTunerConfig (secData : List UInt8) : TunerConfig where
  highRate := (readU32Le secData 0).toFloat32 / 100
  criticalRate := (readU32Le secData 4).toFloat32 / 100
  highProcCount := readU32Le secData 8
  criticalProcCount := readU32Le secData 12
  defaultQuantum := readU32Le secData 16
  cooldownTicks := readU64Le secData 24

def parseRemediationRule (secData : List UInt8) (base : ℕ) : RemediationRuleConfig where
  minSeverity := severityFromU8 (byteAt secData base)
  action := actionFromU8 (byteAt secData (base + 1))
  param := readU16Le secData (base + 2)
  repeatLimit := readU32Le secData (base + 4)
  cooldownTicks := readU64Le secData (base + 8)

def parseTrustConfig (secData : List UInt8) : TrustConfig where
  failuresToSuspicious := readU32Le secData 0
  failuresToUntrusted := readU32Le secData 4
  denialsToSuspicious := readU32Le secData 8
  denialsToUntrusted := readU32Le secData 12
  anomaliesToSuspicious := readU32Le secData 16
  anomaliesToUntrusted := readU32Le secData 20

def parseAccessRule (secData : List UInt8) (base : ℕ) : AccessRuleConfig :=
  let pattern := slice secData base 32
  { pattern := pattern
    patternLen := UInt8.ofNat (untilNul pattern).length
    minPrivilege := byteAt secData (base + 32) }

/-- What a section of this type does to the configuration. -/
def PolicyConfig.parseSection (config : PolicyConfig) (secType : UInt8) (entryCount : ℕ)
    (secData : List UInt8) : PolicyConfig :=
  let len := secData.length
  if secType = secRateRules then
    { config with rateRules :=
        parseEntries rateRuleSize (parseRateRule secData) len entryCount 0 }
  else if secType = secPatternRules then
    { config with patternRules :=
        parseEntries patternRuleSize (parsePatternRule secData) len entryCount 0 }
  else if secType = secThresholdRules then
    { config with thresholdRules :=
        parseEntries thresholdRuleSize (parseThresholdRule secData) len entryCount 0 }
  else if secType = secTunerConfig then
    if len ≥ tunerConfigSize then { config with tuner := parseTunerConfig secData }
    else config
  else if secType = secRemediationRules then
    { config with remediationRules :=
        parseEntries remediationRuleSize (parseRemediationRule secData) len entryCount 0 }
  else if secType = secDedupConfig then
    if len ≥ dedupConfigSize then { config with dedup := ⟨readU64Le secData 0⟩ }
    else config
  else if secType = secTrustConfig then
    if len ≥ trustConfigSize then { config with trust := parseTrustConfig secData }
    else config
  else if secType = secAccessRules then
    { config with accessRules :=
        parseEntries accessRuleSize (parseAccessRule secData) len entryCount 0 }
  else config

/-- `HEADER_SIZE`. -/
def headerSize : ℕ := 8

/-- `SECTION_HEADER_SIZE`. -/
def sectionHeaderSize : ℕ := 8

/-- `count` sections from `offset` on, until one does not fit. -/
def parseSections (data : List UInt8) : ℕ → ℕ → PolicyConfig → PolicyConfig
  | 0, _, config => config
  | count + 1, offset, config =>
    if offset + sectionHeaderSize > data.length then config
    else
      let secType := byteAt data offset
      let entryCount := (readU16Le data (offset + 2)).toNat
      let dataSize := (readU32Le data (offset + 4)).toNat
      let offset := offset + sectionHeaderSize
      if offset + dataSize > data.length then config
      else parseSections data count (offset + dataSize)
        (config.parseSection secType entryCount (slice data offset dataSize))

/-- `VPOL_MAGIC`. -/
def vpolMagic : List UInt8 :=
  utf8 "VPOL"

/-- `parse_policy_blob`. -/
def parsePolicyBlob (data : List UInt8) : Option PolicyConfig :=
  if data.length < headerSize then none
  else if slice data 0 4 ≠ vpolMagic then none
  else
    let version := readU16Le data 4
    if version = 0 then none
    else some (parseSections data (readU16Le data 6).toNat headerSize
      { PolicyConfig.default with version := version })

end VernisOS
