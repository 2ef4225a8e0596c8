import Mathlib.Data.List.ReduceOption
import VernisOS.AiEngine

/-!
# The anomaly detectors

`ai/anomaly_detector.rs` in the kernel, and the detectors of `ai/anomaly_detector.py` that it
ports. What a loop over rules does for one rule is kept apart from what it does for the
others : a detector gives an optional anomaly for each rule. The times of the Python side are
in ticks, and an anomaly there is without its detail and time.
-/

open Bytes

namespace VernisOS

/-! ## The detector in the kernel -/

inductive DetectorKind
  | rate
  | pattern
  | threshold
  deriving DecidableEq

structure Anomaly where
  detector : DetectorKind
  severity : Severity
  title : String
  detail : String
  timestamp : UInt64
  sourcePid : UInt32

/-- `u64::saturating_sub`. -/
def saturatingSub (a b : UInt64) : UInt64 :=
  if a < b then 0 else a - b

theorem toNat_saturatingSub (a b : UInt64) :
    (saturatingSub a b).toNat = a.toNat - b.toNat := by
  unfold saturatingSub
  split_ifs with h
  · rw [UInt64.lt_iff_toNat_lt] at h
    simp only [UInt64.toNat_zero]
    omega
  · rw [UInt64.lt_iff_toNat_lt, not_lt] at h
    exact UInt64.toNat_sub_of_le a b (UInt64.le_iff_toNat_le.mpr h)

/-- `EventStore::extract_pid_static`. -/
def extractPidStatic (eventType : EventType) (data : List UInt8) : UInt32 :=
  match eventType with
  | .process | .deny | .syscall => parseU32 (pipeField data 0)
  | .exception => parseU32 (pipeField data 2)
  | _ => 0

namespace RateWindow

/-- `RateWindow::feed`. -/
def feed (w : RateWindow) (now : UInt64) : Bool × RateWindow :=
  let cutoff := saturatingSub now w.windowTicks
  let timestamps := (w.timestamps ++ [now]).dropWhile fun front => front < cutoff
  (w.maxCount < UInt32.ofNat timestamps.length, { w with timestamps := timestamps })

/-- `RateWindow::count`. -/
def count (w : RateWindow) : UInt32 :=
  UInt32.ofNat w.timestamps.length

/-- The rate detection of `feed_event`, for one window. -/
def detect (w : RateWindow) (eventType : EventType) (data : List UInt8) (now : UInt64) :
    Option Anomaly × RateWindow :=
  if w.eventType = eventType then
    let (exceeded, w) := w.feed now
    if exceeded then
      (some
        { detector := .rate
          severity := w.severity
          title := eventType.asStr ++ " rate exceeded"
          detail := toString w.count ++ " events in window (max " ++ toString w.maxCount ++ ")"
          timestamp := now
          sourcePid := extractPidStatic eventType data }, w)
    else (none, w)
  else (none, w)

end RateWindow

/-- The entries of a `PatternHistory` : tick and type. -/
abbrev PatternHistory := List (UInt64 × EventType)

namespace PatternHistory

/-- `PatternHistory::push`. -/
def push (entries : PatternHistory) (tick : UInt64) (evt : EventType) : PatternHistory :=
  (if entries.length ≥ 64 then entries.tail else entries) ++ [(tick, evt)]

/-- The loop of `matches`. An index outside the sequence is a panic. -/
def matchesFrom (seq : List EventType) (cutoff : UInt64) : PatternHistory → ℕ → Option Bool
  | [], _ => some false
  | (tick, evt) :: rest, seqIdx =>
    if tick < cutoff then matchesFrom seq cutoff rest seqIdx
    else
      match seq[seqIdx]? with
      | none => none
      | some e =>
        if evt = e then
          if seqIdx + 1 ≥ seq.length then some true else matchesFrom seq cutoff rest (seqIdx + 1)
        else matchesFrom seq cutoff rest seqIdx

/-- `PatternHistory::matches`. -/
def «matches» (entries : PatternHistory) (rule : PatternRuleConfig) (now : UInt64) :
    Option Bool :=
  if rule.seqLen.toNat > rule.sequence.length then none
  else matchesFrom rule.sequenceSlice (saturatingSub now rule.windowTicks) entries 0

end PatternHistory

/-- `&name[..name_len]` as a text, "?" if it is no UTF-8 ; a length above 16 is a panic. -/
def PatternRuleConfig.title (rule : PatternRuleConfig) : Option String :=
  if rule.nameLen.toNat > rule.name.length then none
  else some ((String.fromUTF8? ⟨rule.nameStr.toArray⟩).getD "?")

/-- The pattern detection of `feed_event`, for one rule. -/
def PatternRuleConfig.detect (rule : PatternRuleConfig) (entries : PatternHistory)
    (eventType : EventType) (data : List UInt8) (now : UInt64) : Option (Option Anomaly) := do
  if ← entries.matches rule now then
    let rname ← rule.title
    some (some
      { detector := .pattern
        severity := rule.severity
        title := rname
        detail := "Pattern detected: " ++ rname
        timestamp := now
        sourcePid := extractPidStatic eventType data })
  else some none

/-- `AnomalyDetector` with the events and the anomalies that it remembers. -/
structure DetectorState where
  detector : AnomalyDetector
  patternHistory : PatternHistory
  anomalyHistory : List Anomaly

/-- An event as `feed_event` gets it. -/
structure DetectorEvent where
  eventType : EventType
  data : List UInt8
  now : UInt64

/-- What is detected at one event : an optional anomaly for each rule. -/
structure Detected (α : Type) where
  rates : List (Option α)
  patterns : List (Option α)

namespace DetectorState

/-- `AnomalyDetector::new`, and `reload_config` with these rules. -/
def new (rateRules : List RateRuleConfig) (patternRules : List PatternRuleConfig) :
    DetectorState :=
  ⟨AnomalyDetector.reloadConfig rateRules patternRules [], [], []⟩

/-- An anomaly goes to a history of at most 200. -/
def remember (history : List Anomaly) (a : Anomaly) : List Anomaly :=
  (if history.length ≥ 200 then history.tail else history) ++ [a]

/-- `AnomalyDetector::feed_event`. It returns the anomalies among what is detected. -/
def feedEvent (s : DetectorState) (e : DetectorEvent) :
    Option (Detected Anomaly × DetectorState) := do
  let rates := s.detector.rateWindows.map fun w => w.detect e.eventType e.data e.now
  let entries := s.patternHistory.push e.now e.eventType
  let patterns ← s.detector.patternRules.mapM fun rule =>
    rule.detect entries e.eventType e.data e.now
  let detected := ⟨rates.map Prod.fst, patterns⟩
  some (detected,
    { detector := { s.detector with rateWindows := rates.map Prod.snd }
      patternHistory := entries
      anomalyHistory :=
        (detected.rates ++ detected.patterns).reduceOption.foldl remember s.anomalyHistory })

/-- What is detected at each event of a sequence. -/
def feedAll : DetectorState → List DetectorEvent → Option (List (Detected Anomaly))
  | _, [] => some []
  | s, e :: es => do
    let (detected, s) ← s.feedEvent e
    let rest ← s.feedAll es
    some (detected :: rest)

end DetectorState

/-! ## The detectors in Python -/

structure PyAnomaly where
  detector : String
  severity : Severity
  title : String

structure PyRateRule where
  eventType : String
  maxCount : ℤ
  windowSec : ℤ
  severity : Severity
  title : String

/-- `RateRule.make_title`. -/
def PyRateRule.makeTitle (rule : PyRateRule) : String :=
  if rule.title = "" then "Rate limit exceeded: " ++ rule.eventType else rule.title

/-- `RateDetector` : the rules, and the deque for each event type of a rule. -/
structure PyRateDetector where
  rules : List PyRateRule
  windows : String → Option (List (ℤ × List UInt8))

namespace PyRateDetector

/-- `RateDetector.__init__`. -/
def init (rules : List PyRateRule) : PyRateDetector where
  rules := rules
  windows eventType := if rules.any (·.eventType == eventType) then some [] else none

/-- The loop of `feed` over the rules, all of which trim the same deque. -/
def feedRules (eventType : String) (now : ℤ) :
    List PyRateRule → List (ℤ × List UInt8) → List (Option PyAnomaly) × List (ℤ × List UInt8)
  | [], q => ([], q)
  | rule :: rules, q =>
    if rule.eventType ≠ eventType then
      let (emitted, q) := feedRules eventType now rules q
      (none :: emitted, q)
    else
      let cutoff := now - rule.windowSec
      let q := q.dropWhile fun entry => entry.1 < cutoff
      let first : Option PyAnomaly :=
        if (q.length : ℤ) > rule.maxCount then some ⟨"rate", rule.severity, rule.makeTitle⟩
        else none
      let (emitted, q) := feedRules eventType now rules q
      (first :: emitted, q)

/-- `RateDetector.feed`. -/
def feed (d : PyRateDetector) (eventType : String) (data : List UInt8) (now : ℤ) :
    List (Option PyAnomaly) × PyRateDetector :=
  match d.windows eventType with
  | none => (d.rules.map fun _ => none, d)
  | some q =>
    let (emitted, q) := feedRules eventType now d.rules (q ++ [(now, data)])
    (emitted, { d with windows := Function.update d.windows eventType (some q) })

end PyRateDetector

structure PyPatternRule where
  name : String
  sequence : List String
  windowSec : ℤ
  severity : Severity

/-- `PatternRule.title`. -/
def PyPatternRule.title (rule : PyPatternRule) : String :=
  "Suspicious sequence: " ++ rule.name

/-- `PatternDetector` : the rules, and a deque of at most 64 events. -/
structure PyPatternDetector where
  rules : List PyPatternRule
  history : List (ℤ × String × List UInt8)

namespace PyPatternDetector

/-- `PatternDetector.__init__`. -/
def init (rules : List PyPatternRule) : PyPatternDetector :=
  ⟨rules, []⟩

/-- `append` to a deque with `maxlen`. -/
def appendMaxlen {α : Type*} (maxlen : ℕ) (q : List α) (a : α) : List α :=
  (q ++ [a]).drop ((q ++ [a]).length - maxlen)

/-- The loop of `_check_pattern`. -/
def checkLoop : List String → List (ℤ × String × List UInt8) → Bool
  | _, [] => false
  | [], _ :: recent => checkLoop [] recent
  | next :: needed, (_, ev, _) :: recent =>
    if ev = next then if needed.isEmpty then true else checkLoop needed recent
    else checkLoop (next :: needed) recent

/-- `PatternDetector._check_pattern`. -/
def checkPattern (rule : PyPatternRule) (now : ℤ) (history : List (ℤ × String × List UInt8)) :
    Option PyAnomaly :=
  let cutoff := now - rule.windowSec
  let recent := history.filter fun entry => entry.1 ≥ cutoff
  if checkLoop rule.sequence recent then some ⟨"pattern", rule.severity, rule.title⟩ else none

/-- `PatternDetector.feed`. -/
def feed (d : PyPatternDetector) (eventType : String) (data : List UInt8) (now : ℤ) :
    List (Option PyAnomaly) × PyPatternDetector :=
  let history := appendMaxlen 64 d.history (now, eventType, data)
  (d.rules.map fun rule => checkPattern rule now history, { d with history := history })

end PyPatternDetector

/-- The two detectors side by side, as `AnomalyDetector.feed_event` feeds them. -/
structure PyDetectors where
  rate : PyRateDetector
  pattern : PyPatternDetector

namespace PyDetectors

def init (rateRules : List PyRateRule) (patternRules : List PyPatternRule) : PyDetectors :=
  ⟨PyRateDetector.init rateRules, PyPatternDetector.init patternRules⟩

def feedEvent (d : PyDetectors) (eventType : String) (data : List UInt8) (now : ℤ) :
    Detected PyAnomaly × PyDetectors :=
  let (rates, rate) := d.rate.feed eventType data now
  let (patterns, pattern) := d.pattern.feed eventType data now
  (⟨rates, patterns⟩, ⟨rate, pattern⟩)

/-- What is detected at each event of a sequence. -/
def feedAll : PyDetectors → List DetectorEvent → List (Detected PyAnomaly)
  | _, [] => []
  | d, e :: es =>
    let (detected, d) := d.feedEvent e.eventType.asStr e.data e.now.toNat
    detected :: d.feedAll es

end PyDetectors

/-! ## The same rules on both sides -/

/-- A rate rule of the kernel as one of Python's. -/
def RateRuleConfig.toPy (r : RateRuleConfig) : PyRateRule where
  eventType := r.eventType.asStr
  maxCount := r.maxCount.toNat
  windowSec := r.windowTicks.toNat
  severity := r.severity
  title := ""

/-- A pattern rule of the kernel as one of Python's. -/
def PatternRuleConfig.toPy (r : PatternRuleConfig) : PyPatternRule where
  name := (String.fromUTF8? ⟨r.nameStr.toArray⟩).getD "?"
  sequence := r.sequenceSlice.map EventType.asStr
  windowSec := r.windowTicks.toNat
  severity := r.severity

/-- For which rules an anomaly is reported. -/
def Detected.reported {α : Type} (d : Detected α) : List Bool × List Bool :=
  (d.rates.map Option.isSome, d.patterns.map Option.isSome)

end VernisOS
