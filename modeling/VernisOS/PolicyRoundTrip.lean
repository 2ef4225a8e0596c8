import Mathlib.Data.List.Forall2
import Mathlib.Data.List.TakeWhile
import VernisOS.PolicySections

/-!
# From the policy compiler to the parser

What a policy says (`PolicySource.Means`), and for which policies the parser yields it
(`policy_round_trip`) : `SYSCALL` does not fit the four bytes of an event type, a text that is
longer than its field or not ASCII is changed, version 0 is refused, and threshold rules are
never read back.
-/

open Bytes

namespace VernisOS

/-! ## What a policy says -/

/-- The severity a text names. Any other text is the lowest. -/
def severityOf (s : String) : Severity :=
  if upper s = "LOW" then .low else if upper s = "MEDIUM" then .medium
  else if upper s = "HIGH" then .high else if upper s = "CRITICAL" then .critical else .low

/-- The action a text names. Any other text is to log. -/
def actionOf (s : String) : RemediationAction :=
  if lower s = "kill" then .kill else if lower s = "throttle" then .throttle
  else if lower s = "log" then .log else if lower s = "revoke" then .revoke
  else if lower s = "suspend" then .suspend else .log

/-- A number in hundredths. -/
def AtHundredths (x : Float) (y : Float32) : Prop :=
  ∃ n, x100 x = some n ∧ y = n.toFloat32 / 100

structure RateRuleSource.Means (r : RateRuleSource) (c : RateRuleConfig) : Prop where
  eventType : c.eventType = EventType.fromStr (utf8 r.eventType)
  maxCount : (c.maxCount.toNat : ℤ) = r.maxCount
  windowTicks : secToTicks r.windowSec = some c.windowTicks
  severity : c.severity = severityOf r.severity

structure PatternRuleSource.Means (r : PatternRuleSource) (c : PatternRuleConfig) : Prop where
  name : c.nameStr = utf8 r.name
  sequence : c.sequenceSlice = r.sequence.map fun e => EventType.fromStr (utf8 e)
  windowTicks : secToTicks r.windowSec = some c.windowTicks
  severity : c.severity = severityOf r.severity

structure ThresholdRuleSource.Means (r : ThresholdRuleSource) (c : ThresholdRuleConfig) :
    Prop where
  metric : c.metricStr = utf8 r.metric
  maxVal : AtHundredths r.maxVal c.maxVal
  severity : c.severity = severityOf r.severity

structure TunerSource.Means (t : TunerSource) (c : TunerConfig) : Prop where
  highRate : AtHundredths t.highRate c.highRate
  criticalRate : AtHundredths t.criticalRate c.criticalRate
  highProcCount : (c.highProcCount.toNat : ℤ) = t.highProcCount
  criticalProcCount : (c.criticalProcCount.toNat : ℤ) = t.criticalProcCount
  defaultQuantum : (c.defaultQuantum.toNat : ℤ) = t.defaultQuantum
  cooldownTicks : secToTicks t.cooldownSec = some c.cooldownTicks

structure RemediationRuleSource.Means (r : RemediationRuleSource) (c : RemediationRuleConfig) :
    Prop where
  minSeverity : c.minSeverity = severityOf r.minSeverity
  action : c.action = actionOf r.action
  param : (c.param.toNat : ℤ) = r.param.getD 0
  repeatLimit : (c.repeatLimit.toNat : ℤ) = r.repeatLimit.getD 1
  cooldownTicks : secToTicks r.cooldownSec = some c.cooldownTicks

structure TrustSource.Means (t : TrustSource) (c : TrustConfig) : Prop where
  failuresToSuspicious : (c.failuresToSuspicious.toNat : ℤ) = t.failuresToSuspicious
  failuresToUntrusted : (c.failuresToUntrusted.toNat : ℤ) = t.failuresToUntrusted
  denialsToSuspicious : (c.denialsToSuspicious.toNat : ℤ) = t.denialsToSuspicious
  denialsToUntrusted : (c.denialsToUntrusted.toNat : ℤ) = t.denialsToUntrusted
  anomaliesToSuspicious : (c.anomaliesToSuspicious.toNat : ℤ) = t.anomaliesToSuspicious
  anomaliesToUntrusted : (c.anomaliesToUntrusted.toNat : ℤ) = t.anomaliesToUntrusted

structure AccessRuleSource.Means (r : AccessRuleSource) (c : AccessRuleConfig) : Prop where
  pattern : c.patternStr = utf8 r.pattern
  minPrivilege : (c.minPrivilege.toNat : ℤ) = r.minPrivilege

/-- The rules of the source in order, or the default where none are given. -/
def Yields {α β : Type} (means : α → β → Prop) (rules : List α) (default read : List β) : Prop :=
  if rules.isEmpty then read = default else List.Forall₂ means rules read

/-- The values of the source, or the default where they are not given. -/
def YieldsConfig {α β : Type} (means : α → β → Prop) (cfg : Option α) (default read : β) : Prop :=
  match cfg with
  | none => read = default
  | some cfg => means cfg read

/-- The configuration is what the source says. -/
structure PolicySource.Means (p : PolicySource) (c : PolicyConfig) : Prop where
  rateRules : Yields RateRuleSource.Means p.rateRules PolicyConfig.default.rateRules c.rateRules
  patternRules :
    Yields PatternRuleSource.Means p.patternRules PolicyConfig.default.patternRules c.patternRules
  thresholdRules : Yields ThresholdRuleSource.Means p.thresholdRules
    PolicyConfig.default.thresholdRules c.thresholdRules
  tuner : YieldsConfig TunerSource.Means p.tuner PolicyConfig.default.tuner c.tuner
  remediationRules : Yields RemediationRuleSource.Means p.remediationRules
    PolicyConfig.default.remediationRules c.remediationRules
  dedup : YieldsConfig (fun cfg read => secToTicks cfg.windowSec = some read.windowTicks) p.dedup
    PolicyConfig.default.dedup c.dedup
  trust : YieldsConfig TrustSource.Means p.trust PolicyConfig.default.trust c.trust
  accessRules :
    Yields AccessRuleSource.Means p.accessRules PolicyConfig.default.accessRules c.accessRules
  version : (c.version.toNat : ℤ) = p.version.getD 1

/-- Every event type of the rules has a name. -/
structure PolicySource.Named (p : PolicySource) : Prop where
  rateRules : ∀ r ∈ p.rateRules, ∃ t : EventType, r.eventType = t.asStr
  patternRules : ∀ r ∈ p.patternRules, ∀ e ∈ r.sequence, ∃ t : EventType, e = t.asStr

/-- A text is kept by a field of `n` bytes : it is ASCII, has no NUL and is not longer. -/
def Fits (s : String) (n : ℕ) : Prop :=
  s.toList.length ≤ n ∧ ∀ c ∈ s.toList, 0 < c.toNat ∧ c.toNat < 128

instance (s : String) (n : ℕ) : Decidable (Fits s n) :=
  @instDecidableAnd _ _ _ (List.decidableBAll _ _)

/-- What a policy has to meet. -/
structure PolicySource.Kept (p : PolicySource) : Prop where
  version : p.version.getD 1 ≠ 0
  rateRules : ∀ r ∈ p.rateRules, r.eventType ≠ "SYSCALL"
  patternRules : ∀ r ∈ p.patternRules, Fits r.name 16 ∧ r.sequence.length ≤ 5 ∧
    ∀ e ∈ r.sequence, e ≠ "SYSCALL"
  thresholdRules : p.thresholdRules = []
  accessRules : ∀ r ∈ p.accessRules, Fits r.pattern 32

/-! ## Texts -/

/-- A text comes back from its field exactly if it fits. -/
theorem untilNul_padBytes_iff (s : String) (n : ℕ) :
    untilNul (padBytes s n) = utf8 s ↔ Fits s n := by
  constructor
  · intro h
    have hmem : ∀ x ∈ utf8 s, x ≠ 0 ∧ x.toNat < 128 := by
      intro x hx
      rw [← h] at hx
      refine ⟨by simpa using List.mem_takeWhile_imp hx, ?_⟩
      have hpad := (List.takeWhile_subset _) hx
      unfold padBytes at hpad
      rcases List.mem_append.mp hpad with htake | hzero
      · obtain ⟨c, -, rfl⟩ := List.mem_map.mp (List.mem_of_mem_take htake)
        exact asciiByte_lt c
      · rw [List.eq_of_mem_replicate hzero]
        decide
    have hascii : ∀ c ∈ s.toList, c.toNat < 128 := by
      intro c hc
      by_contra hge
      obtain ⟨x, hx, hxge⟩ := exists_byte_ge (not_lt.mp hge)
      have := (hmem x (List.mem_flatMap.mpr ⟨c, hc, hx⟩)).2
      omega
    refine ⟨?_, fun c hc => ⟨?_, hascii c hc⟩⟩
    · have hlen := congrArg List.length h
      rw [utf8_ascii hascii, List.length_map] at hlen
      have hle := ( List.takeWhile_prefix (p := (· ≠ (0 : UInt8))) (l := padBytes s n)).length_le
      rw [length_padBytes] at hle
      rw [← hlen]
      exact hle
    · rw [Nat.pos_iff_ne_zero]
      intro hzero
      refine (hmem 0 (List.mem_flatMap.mpr ⟨c, hc, ?_⟩)).1 rfl
      rw [encodeChar_ascii (hascii c hc), hzero]
      exact List.mem_singleton.mpr rfl
  · rintro ⟨hlen, hfits⟩
    have hne : ∀ x ∈ s.toList.map asciiByte, decide (x ≠ 0) = true := by
      intro x hx
      obtain ⟨c, hc, rfl⟩ := List.mem_map.mp hx
      obtain ⟨hpos, hlt⟩ := hfits c hc
      rw [decide_eq_true_eq, asciiByte, if_pos hlt]
      intro hzero
      have hval := congrArg UInt8.toNat hzero
      rw [UInt8.toNat_ofNat_of_lt' (by rw [UInt8.size]; omega)] at hval
      change c.toNat = 0 at hval
      omega
    rw [utf8_ascii fun c hc => (hfits c hc).2, padBytes,
      List.take_of_length_le (by rw [List.length_map]; exact hlen), untilNul,
      List.takeWhile_append_of_pos hne]
    cases n - (s.toList.map asciiByte).length with
    | zero => simp
    | succ k => simp [List.replicate_succ]

/-- The text of an array that holds it up to the first NUL. -/
theorem take_untilNul {bytes : List UInt8} {n : ℕ} (hlen : bytes.length = n) (hn : n < 256) :
    bytes.take (UInt8.ofNat (untilNul bytes).length).toNat = untilNul bytes := by
  have hpre := List.takeWhile_prefix (p := (· ≠ (0 : UInt8))) (l := bytes)
  have hle := hpre.length_le
  change (untilNul bytes).length ≤ _ at hle
  rw [UInt8.toNat_ofNat_of_lt' (by rw [UInt8.size]; omega)]
  exact (List.prefix_iff_eq_take.mp hpre).symm

/-! ## Numbers -/

theorem packI_cast {n : ℤ} {v : UInt32} (h : packI n = some v) : (v.toNat : ℤ) = n := by
  unfold packI at h
  split at h
  · cases h
    rw [UInt32.toNat_ofNat_of_lt' (by rw [UInt32.size]; omega)]
    omega
  · cases h

theorem packH_cast {n : ℤ} {v : UInt16} (h : packH n = some v) : (v.toNat : ℤ) = n := by
  unfold packH at h
  split at h
  · cases h
    rw [UInt16.toNat_ofNat_of_lt' (by rw [UInt16.size]; omega)]
    omega
  · cases h

theorem packB_cast {n : ℤ} {v : UInt8} (h : packB n = some v) : (v.toNat : ℤ) = n := by
  unfold packB at h
  split at h
  · cases h
    rw [UInt8.toNat_ofNat_of_lt' (by rw [UInt8.size]; omega)]
    omega
  · cases h

theorem severityFromU8_severityMap (s : String) :
    severityFromU8 (severityMap s) = severityOf s := by
  unfold severityMap severityOf
  repeat' split
  all_goals rfl

theorem actionFromU8_actionMap (s : String) : actionFromU8 (actionMap s) = actionOf s := by
  unfold actionMap actionOf
  repeat' split
  all_goals rfl

/-! ## Rules -/

/-- The four bytes of an event type name it, except for the longest. -/
theorem eventTypeFrom4bytes_iff {e : String} (h : ∃ t : EventType, e = t.asStr) :
    eventTypeFrom4bytes (padBytes e 4) = EventType.fromStr (utf8 e) ↔ e ≠ "SYSCALL" := by
  obtain ⟨t, rfl⟩ := h
  cases t <;> decide

theorem RateRuleSource.means_parsed_iff {r : RateRuleSource} {e : List UInt8}
    (h : encodeRateRule r = some e) (hnamed : ∃ t : EventType, r.eventType = t.asStr) :
    r.Means r.parsed ↔ r.eventType ≠ "SYSCALL" := by
  simp only [encodeRateRule, Option.bind_eq_bind, Option.bind_eq_some_iff] at h
  obtain ⟨v, hv, w, hw, -⟩ := h
  rw [← eventTypeFrom4bytes_iff hnamed]
  refine ⟨fun hmeans => hmeans.eventType, fun hevent => ⟨hevent, ?_, ?_, ?_⟩⟩
  · rw [RateRuleSource.parsed, packI_eq hv]
    exact packI_cast hv
  · rw [RateRuleSource.parsed, hw]
    rfl
  · exact severityFromU8_severityMap r.severity

theorem PatternRuleSource.sequenceSlice_parsed (r : PatternRuleSource) :
    r.parsed.sequenceSlice =
      (r.sequence.take 5).map fun e => eventTypeFrom4bytes (padBytes e 4) := by
  have hle : min r.sequence.length 5 ≤ 5 := Nat.min_le_right _ _
  have hnat : (UInt8.ofNat (min r.sequence.length 5)).toNat = min r.sequence.length 5 :=
    UInt8.toNat_ofNat_of_lt' (by rw [UInt8.size]; omega)
  simp only [PatternRuleConfig.sequenceSlice, PatternRuleSource.parsed, hnat]
  refine List.ext_getElem (by simp [min_comm]) fun i hi hi' => ?_
  have hlt : i < min r.sequence.length 5 := by
    rw [List.length_map, List.length_take] at hi'
    omega
  rw [List.getElem_take, List.getElem_map, List.getElem_range, if_pos hlt, List.getElem_map,
    List.getElem_take, List.getD_eq_getElem _ _ (by omega)]

theorem PatternRuleSource.means_parsed_iff {r : PatternRuleSource} {e : List UInt8}
    (h : encodePatternRule r = some e)
    (hnamed : ∀ e ∈ r.sequence, ∃ t : EventType, e = t.asStr) :
    r.Means r.parsed ↔
      Fits r.name 16 ∧ r.sequence.length ≤ 5 ∧ ∀ e ∈ r.sequence, e ≠ "SYSCALL" := by
  simp only [encodePatternRule, Option.bind_eq_bind, Option.bind_eq_some_iff] at h
  obtain ⟨w, hw, -⟩ := h
  have hname : r.parsed.nameStr = utf8 r.name ↔ Fits r.name 16 := by
    rw [← untilNul_padBytes_iff, ← take_untilNul (length_padBytes r.name 16) (by decide)]
    rfl
  have hsequence : r.parsed.sequenceSlice =
      (r.sequence.map fun e => EventType.fromStr (utf8 e)) ↔
        r.sequence.length ≤ 5 ∧ ∀ e ∈ r.sequence, e ≠ "SYSCALL" := by
    rw [r.sequenceSlice_parsed]
    constructor
    · intro heq
      have hlen := congrArg List.length heq
      rw [List.length_map, List.length_map, List.length_take] at hlen
      rw [List.take_of_length_le (by omega), List.map_inj_left] at heq
      exact ⟨by omega, fun e he => (eventTypeFrom4bytes_iff (hnamed e he)).mp (heq e he)⟩
    · rintro ⟨hlen, hall⟩
      rw [List.take_of_length_le hlen]
      exact List.map_congr_left fun e he =>
        (eventTypeFrom4bytes_iff (hnamed e he)).mpr (hall e he)
  rw [← hname, ← hsequence]
  constructor
  · exact fun hmeans => ⟨hmeans.name, hmeans.sequence⟩
  · rintro ⟨hn, hs⟩
    refine ⟨hn, hs, ?_, severityFromU8_severityMap r.severity⟩
    rw [PatternRuleSource.parsed, hw]
    rfl

theorem TunerSource.means_parsed {t : TunerSource} {e : List UInt8}
    (h : encodeTunerConfig t = some e) : t.Means t.parsed := by
  simp only [encodeTunerConfig, Option.bind_eq_bind, Option.bind_eq_some_iff] at h
  obtain ⟨v₁, h₁, v₂, h₂, v₃, h₃, v₄, h₄, v₅, h₅, w, hw, -⟩ := h
  simp only [TunerSource.parsed, h₁, h₂, hw, Option.getD_some, packI_eq h₃, packI_eq h₄,
    packI_eq h₅]
  exact ⟨⟨v₁, h₁, rfl⟩, ⟨v₂, h₂, rfl⟩, packI_cast h₃, packI_cast h₄, packI_cast h₅, hw⟩

theorem RemediationRuleSource.means_parsed {r : RemediationRuleSource} {e : List UInt8}
    (h : encodeRemediationRule r = some e) : r.Means r.parsed := by
  simp only [encodeRemediationRule, Option.bind_eq_bind, Option.bind_eq_some_iff] at h
  obtain ⟨p, hp, v, hv, w, hw, -⟩ := h
  simp only [RemediationRuleSource.parsed, hw, Option.getD_some, packI_eq hv, packH_eq hp]
  exact ⟨severityFromU8_severityMap _, actionFromU8_actionMap _, packH_cast hp, packI_cast hv, hw⟩

theorem TrustSource.means_parsed {t : TrustSource} {e : List UInt8}
    (h : encodeTrustConfig t = some e) : t.Means t.parsed := by
  simp only [encodeTrustConfig, Option.bind_eq_bind, Option.bind_eq_some_iff] at h
  obtain ⟨v₁, h₁, v₂, h₂, v₃, h₃, v₄, h₄, v₅, h₅, v₆, h₆, -⟩ := h
  simp only [TrustSource.parsed, packI_eq h₁, packI_eq h₂, packI_eq h₃, packI_eq h₄, packI_eq h₅,
    packI_eq h₆]
  exact ⟨packI_cast h₁, packI_cast h₂, packI_cast h₃, packI_cast h₄, packI_cast h₅, packI_cast h₆⟩

theorem AccessRuleSource.means_parsed_iff {r : AccessRuleSource} {e : List UInt8}
    (h : encodeAccessRule r = some e) : r.Means r.parsed ↔ Fits r.pattern 32 := by
  simp only [encodeAccessRule, Option.bind_eq_bind, Option.bind_eq_some_iff] at h
  obtain ⟨v, hv, -⟩ := h
  have hpattern : r.parsed.patternStr = utf8 r.pattern ↔ Fits r.pattern 32 := by
    rw [← untilNul_padBytes_iff, ← take_untilNul (length_padBytes r.pattern 32) (by decide)]
    rfl
  rw [← hpattern]
  refine ⟨fun hmeans => hmeans.pattern, fun hp => ⟨hp, ?_⟩⟩
  rw [AccessRuleSource.parsed, packB_eq hv]
  exact packB_cast hv

/-! ## The round trip -/

theorem mem_of_mapM {α β : Type} {f : α → Option β} {l : List α} {l' : List β}
    (h : l.mapM f = some l') : ∀ a ∈ l, ∃ b, f a = some b := by
  induction l generalizing l' with
  | nil => exact fun a ha => absurd ha List.not_mem_nil
  | cons x l ih =>
    rw [List.mapM_cons] at h
    simp only [Option.bind_eq_bind, Option.bind_eq_some_iff] at h
    obtain ⟨b, hb, bs, hbs, -⟩ := h
    rintro a ha
    rcases List.mem_cons.mp ha with rfl | hmem
    · exact ⟨b, hb⟩
    · exact ih hbs a hmem

theorem encodeRules_some {α : Type} {secType : UInt8} {encode : α → Option (List UInt8)}
    {rules : List α} {sections : List PolicySection}
    (h : encodeRules secType encode rules = some sections) :
    ∀ a ∈ rules, ∃ e, encode a = some e := by
  unfold encodeRules at h
  split at h
  · next hempty =>
    rw [List.isEmpty_iff.mp hempty]
    exact fun a ha => absurd ha List.not_mem_nil
  · obtain ⟨entries, hentries, -⟩ := Option.map_eq_some_iff.mp h
    exact mem_of_mapM hentries

theorem yields_given_iff {α β : Type} {means : α → β → Prop} {parsed : α → β} {rules : List α}
    {default : List β} :
    Yields means rules default (given rules parsed default) ↔ ∀ a ∈ rules, means a (parsed a) := by
  unfold Yields given
  split
  · next hempty =>
    rw [List.isEmpty_iff.mp hempty]
    simp
  · rw [List.forall₂_map_right_iff, List.forall₂_same]

theorem yieldsConfig_getD {α β : Type} {secType : UInt8} {encode : α → Option (List UInt8)}
    {means : α → β → Prop} {parsed : α → β} {cfg : Option α} {default : β}
    {sections : List PolicySection} (h : encodeConfig secType encode cfg = some sections)
    (hmeans : ∀ a e, encode a = some e → means a (parsed a)) :
    YieldsConfig means cfg default ((cfg.map parsed).getD default) := by
  cases cfg with
  | none => rfl
  | some a =>
    obtain ⟨e, he, -⟩ := Option.map_eq_some_iff.mp h
    exact hmeans a e he

/-- What the parser yields is what the policy says exactly if the policy meets the
conditions. -/
theorem policy_round_trip (p : PolicySource) (blob : List UInt8) (h : compilePolicy p = some blob)
    (hnamed : p.Named) :
    (∃ config, parsePolicyBlob blob = some config ∧ p.Means config) ↔ p.Kept := by
  obtain ⟨version, thresholds, hversion, hnone, hsome, hparse⟩ := parse_compilePolicy h
  simp only [compilePolicy, policySections, Option.bind_eq_bind, Option.bind_eq_some_iff,
    Option.pure_def, Option.some.injEq] at h
  obtain ⟨sections, ⟨_, hrate, _, hpattern, _, -, _, htuner, _, hremediation, _, hdedup, _,
    htrust, _, haccess, -⟩, -⟩ := h
  have hzero : version = 0 ↔ p.version.getD 1 = 0 := by
    rw [← packH_cast hversion, ← UInt16.toNat_inj]
    exact Int.natCast_eq_zero.symm
  have hrules : Yields RateRuleSource.Means p.rateRules PolicyConfig.default.rateRules
      (p.parsed version thresholds).rateRules ↔ ∀ r ∈ p.rateRules, r.eventType ≠ "SYSCALL" := by
    refine yields_given_iff.trans (forall₂_congr fun r hr => ?_)
    obtain ⟨e, he⟩ := encodeRules_some hrate r hr
    exact RateRuleSource.means_parsed_iff he (hnamed.rateRules r hr)
  have hpatterns : Yields PatternRuleSource.Means p.patternRules
      PolicyConfig.default.patternRules (p.parsed version thresholds).patternRules ↔
        ∀ r ∈ p.patternRules, Fits r.name 16 ∧ r.sequence.length ≤ 5 ∧
          ∀ e ∈ r.sequence, e ≠ "SYSCALL" := by
    refine yields_given_iff.trans (forall₂_congr fun r hr => ?_)
    obtain ⟨e, he⟩ := encodeRules_some hpattern r hr
    exact PatternRuleSource.means_parsed_iff he (hnamed.patternRules r hr)
  have hthresholds : Yields ThresholdRuleSource.Means p.thresholdRules
      PolicyConfig.default.thresholdRules (p.parsed version thresholds).thresholdRules ↔
        p.thresholdRules = [] := by
    unfold Yields
    constructor
    · intro hyields
      by_contra hne
      rw [if_neg (by rwa [List.isEmpty_iff])] at hyields
      exact hsome hne hyields.length_eq.symm
    · intro hnil
      rw [if_pos (by rw [hnil]; rfl)]
      exact hnone hnil
  have haccesses : Yields AccessRuleSource.Means p.accessRules PolicyConfig.default.accessRules
      (p.parsed version thresholds).accessRules ↔ ∀ r ∈ p.accessRules, Fits r.pattern 32 := by
    refine yields_given_iff.trans (forall₂_congr fun r hr => ?_)
    obtain ⟨e, he⟩ := encodeRules_some haccess r hr
    exact AccessRuleSource.means_parsed_iff he
  constructor
  · rintro ⟨config, hconfig, hmeans⟩
    rw [hparse] at hconfig
    split at hconfig
    · cases hconfig
    · next hne =>
      cases hconfig
      exact ⟨fun he => hne (hzero.mpr he), hrules.mp hmeans.rateRules,
        hpatterns.mp hmeans.patternRules, hthresholds.mp hmeans.thresholdRules,
        haccesses.mp hmeans.accessRules⟩
  · intro hkept
    refine ⟨p.parsed version thresholds, ?_, hrules.mpr hkept.rateRules,
      hpatterns.mpr hkept.patternRules, hthresholds.mpr hkept.thresholdRules,
      yieldsConfig_getD htuner fun _ _ => TunerSource.means_parsed,
      yields_given_iff.mpr fun r hr => ?_, yieldsConfig_getD hdedup fun cfg e he => ?_,
      yieldsConfig_getD htrust fun _ _ => TrustSource.means_parsed,
      haccesses.mpr hkept.accessRules, packH_cast hversion⟩
    · rw [hparse, if_neg fun he => hkept.version (hzero.mp he)]
    · obtain ⟨e, he⟩ := encodeRules_some hremediation r hr
      exact RemediationRuleSource.means_parsed he
    · simp only [encodeDedupConfig, Option.bind_eq_bind, Option.bind_eq_some_iff] at he
      obtain ⟨w, hw, -⟩ := he
      rw [hw]
      rfl

/-- A policy with every section but the thresholds. -/
def basicPolicy : PolicySource where
  version := some 1
  rateRules := [⟨"EXCP", 5, 10, "HIGH"⟩, ⟨"MOD", 8, 10, "medium"⟩]
  patternRules := [⟨"bad-module", ["MOD", "EXCP"], 2, "HIGH"⟩]
  thresholdRules := []
  tuner := some ⟨20, 50, 8, 16, 10, 15⟩
  remediationRules := [⟨"CRITICAL", "kill", some 0, some 1, 60⟩, ⟨"LOW", "log", none, none, 5⟩]
  dedup := some ⟨30⟩
  trust := some ⟨3, 6, 2, 5, 2, 4⟩
  accessRules := [⟨"shutdown|restart|halt", 0⟩, ⟨"policy reload", 0⟩]

theorem policy_round_trip_basicPolicy : ∃ blob config, compilePolicy basicPolicy = some blob ∧
    parsePolicyBlob blob = some config ∧ basicPolicy.Means config := by
  obtain ⟨blob, h⟩ := Option.isSome_iff_exists.mp
    (by decide : (compilePolicy basicPolicy).isSome = true)
  have hnamed : basicPolicy.Named := by
    constructor
    · rintro r (_ | ⟨_, _ | ⟨_, ⟨⟩⟩⟩)
      · exact ⟨.exception, rfl⟩
      · exact ⟨.module, rfl⟩
    · rintro r (_ | ⟨_, ⟨⟩⟩) e (_ | ⟨_, _ | ⟨_, ⟨⟩⟩⟩)
      · exact ⟨.module, rfl⟩
      · exact ⟨.exception, rfl⟩
  have hkept : basicPolicy.Kept := by
    refine ⟨by decide, ?_, ?_, rfl, ?_⟩
    · decide
    · decide
    · decide
  obtain ⟨config, hparse, hmeans⟩ := (policy_round_trip basicPolicy blob h hnamed).mpr hkept
  exact ⟨blob, config, h, hparse, hmeans⟩

/-- A policy with one threshold rule. -/
def thresholdPolicy : PolicySource where
  version := some 1
  rateRules := []
  patternRules := []
  thresholdRules := [⟨"process_count", 32, "MEDIUM"⟩]
  tuner := none
  remediationRules := []
  dedup := none
  trust := none
  accessRules := []

/-- The rule is written, and the parser reads none. -/
theorem not_policy_round_trip : ¬ ∀ (p : PolicySource) (blob : List UInt8),
    compilePolicy p = some blob → blob.length ≤ 2048 → p.Named →
      ∃ config, parsePolicyBlob blob = some config ∧ p.Means config := by
  intro hall
  have hrun : ((compilePolicy thresholdPolicy).bind fun blob =>
      if blob.length ≤ 2048 then (parsePolicyBlob blob).map fun c => c.thresholdRules.length
      else none) = some 0 := by
    decide
  obtain ⟨blob, h, hread⟩ := Option.bind_eq_some_iff.mp hrun
  rw [Option.ite_none_right_eq_some] at hread
  obtain ⟨hlen, hread⟩ := hread
  have hnamed : thresholdPolicy.Named :=
    ⟨fun r hr => absurd hr List.not_mem_nil, fun r hr => absurd hr List.not_mem_nil⟩
  obtain ⟨config, hparse, hmeans⟩ := hall thresholdPolicy blob h hlen hnamed
  rw [hparse, Option.map_some, Option.some.injEq] at hread
  have hyields := hmeans.thresholdRules
  rw [Yields, if_neg (by decide)] at hyields
  have hone := hyields.length_eq
  rw [hread] at hone
  cases hone

end VernisOS
