import VernisOS.PolicyCompile

/-!
# Sections of a policy blob

Every section but one is read as it was written : the entries have the size the parser steps
by, and each field stands where it is looked for. The entry of a threshold rule has 24 bytes
and is read as 28, so that some of the rules are lost (`foldl_encodeThresholds`). What the
parser makes of a compiled policy is `parse_compilePolicy`.
-/

open Bytes

namespace VernisOS

variable {d : List UInt8} {o b : ℕ}

/-! ## Reading what was written -/

theorem readU16Le_of_holds {n : UInt16} (h : Holds (byteAt d) o (le16 n))
    (hlen : o + 2 ≤ d.length) : readU16Le d o = n := by
  rw [readU16Le, if_neg (by omega), h.le16]

theorem readU32Le_of_holds {n : UInt32} (h : Holds (byteAt d) o (le32 n))
    (hlen : o + 4 ≤ d.length) : readU32Le d o = n := by
  rw [readU32Le, if_neg (by omega), h.le32]

theorem readU64Le_of_holds {n : UInt64} (h : Holds (byteAt d) o (le64 n))
    (hlen : o + 8 ≤ d.length) : readU64Le d o = n := by
  rw [readU64Le, if_neg (by omega), h.le64]

theorem slice_of_holds {xs : List UInt8} {n : ℕ} (h : Holds (byteAt d) o xs)
    (hlen : o + xs.length ≤ d.length) (hn : xs.length = n) : slice d o n = xs := by
  refine List.ext_getElem ?_ fun k hk hk' => ?_
  · rw [slice, List.length_take, List.length_drop]
    omega
  · have hbyte := h k hk'
    rw [byteAt, List.getD_eq_getElem _ _ (by omega), List.getD_eq_getElem _ _ hk'] at hbyte
    simp only [slice, List.getElem_take, List.getElem_drop]
    exact hbyte

theorem holds_cons {x : UInt8} {xs : List UInt8} :
    Holds (byteAt d) o (x :: xs) ↔ byteAt d o = x ∧ Holds (byteAt d) (o + 1) xs := by
  rw [← List.singleton_append, holds_append]
  refine and_congr ⟨fun h => h 0 Nat.one_pos, fun h k hk => ?_⟩ Iff.rfl
  obtain rfl : k = 0 := by
    simpa using hk
  exact h

@[simp] theorem length_padBytes (s : String) (n : ℕ) : (padBytes s n).length = n := by
  simp only [padBytes, List.length_append, List.length_replicate, List.length_take]
  omega

/-- Entries of one size, written behind each other, are read one by one. -/
theorem parseEntries_of_encode {α β : Type} {encode : α → Option (List UInt8)} {size : ℕ}
    {parse : List UInt8 → ℕ → β} {decoded : α → β}
    (hsize : ∀ a e, encode a = some e → e.length = size)
    (hparse : ∀ a e d b, encode a = some e → Holds (byteAt d) b e → b + size ≤ d.length →
      parse d b = decoded a) :
    ∀ (rules : List α) (entries : List (List UInt8)) (before : List UInt8) (i : ℕ),
      rules.mapM encode = some entries → before.length = i * size →
      parseEntries size (parse (before ++ entries.flatten)) (before ++ entries.flatten).length
        rules.length i = rules.map decoded
  | [], _, _, _, _, _ => rfl
  | a :: rules, entries, before, i, hmap, hbefore => by
    rw [List.mapM_cons] at hmap
    simp only [Option.bind_eq_bind, Option.bind_eq_some_iff, Option.pure_def,
      Option.some.injEq] at hmap
    obtain ⟨e, he, es, hes, rfl⟩ := hmap
    have hlen := hsize a e he
    have hdata : before ++ (e :: es).flatten = before ++ e ++ es.flatten := by
      rw [List.flatten_cons, List.append_assoc]
    have hnext : (before ++ e).length = (i + 1) * size := by
      rw [List.length_append, hbefore, hlen, Nat.succ_mul]
    rw [List.length_cons, parseEntries, if_neg, List.map_cons, hdata]
    · congr 1
      · rw [← hbefore]
        refine hparse a e _ _ he (holds_byteAt before e es.flatten) ?_
        rw [List.length_append, List.length_append]
        omega
      · exact parseEntries_of_encode hsize hparse rules es (before ++ e) (i + 1) hes hnext
    · rw [hdata, List.length_append, hnext, Nat.succ_mul]
      omega

/-! ## Entries -/

theorem packI_eq {n : ℤ} {v : UInt32} (h : packI n = some v) : UInt32.ofNat n.toNat = v := by
  unfold packI at h
  split at h
  · exact Option.some.inj h
  · cases h

theorem packH_eq {n : ℤ} {v : UInt16} (h : packH n = some v) : UInt16.ofNat n.toNat = v := by
  unfold packH at h
  split at h
  · exact Option.some.inj h
  · cases h

theorem packB_eq {n : ℤ} {v : UInt8} (h : packB n = some v) : UInt8.ofNat n.toNat = v := by
  unfold packB at h
  split at h
  · exact Option.some.inj h
  · cases h

/-- What the parser makes of an entry. -/
def RateRuleSource.parsed (r : RateRuleSource) : RateRuleConfig where
  eventType := eventTypeFrom4bytes (padBytes r.eventType 4)
  maxCount := UInt32.ofNat r.maxCount.toNat
  windowTicks := (secToTicks r.windowSec).getD 0
  severity := severityFromU8 (severityMap r.severity)

theorem length_encodeRateRule {r : RateRuleSource} {e : List UInt8}
    (h : encodeRateRule r = some e) : e.length = rateRuleSize := by
  simp only [encodeRateRule, Option.bind_eq_bind, Option.bind_eq_some_iff, Option.pure_def,
    Option.some.injEq] at h
  obtain ⟨v, -, w, -, rfl⟩ := h
  simp [rateRuleSize]

theorem parseRateRule_encode {r : RateRuleSource} {e : List UInt8}
    (h : encodeRateRule r = some e) (hb : Holds (byteAt d) b e)
    (hlen : b + rateRuleSize ≤ d.length) : parseRateRule d b = r.parsed := by
  simp only [encodeRateRule, Option.bind_eq_bind, Option.bind_eq_some_iff, Option.pure_def,
    Option.some.injEq] at h
  obtain ⟨v, hv, w, hw, rfl⟩ := h
  simp only [holds_append, List.length_append, length_padBytes, length_le32, length_le64,
    holds_cons, and_assoc, Nat.reduceAdd] at hb
  obtain ⟨hevent, hcount, hwindow, hsev, -⟩ := hb
  simp only [rateRuleSize] at hlen
  simp only [parseRateRule, RateRuleSource.parsed, hw, Option.getD_some, packI_eq hv]
  rw [slice_of_holds hevent (by simp; omega) (length_padBytes _ _),
    readU32Le_of_holds hcount (by omega), readU64Le_of_holds hwindow (by omega), hsev]

/-- What the parser makes of an entry. -/
def PatternRuleSource.parsed (r : PatternRuleSource) : PatternRuleConfig where
  name := padBytes r.name 16
  nameLen := UInt8.ofNat (untilNul (padBytes r.name 16)).length
  sequence := (List.range 5).map fun i =>
    if i < min r.sequence.length 5 then
      eventTypeFrom4bytes (padBytes (r.sequence.getD i "") 4)
    else .unknown
  seqLen := UInt8.ofNat (min r.sequence.length 5)
  windowTicks := (secToTicks r.windowSec).getD 0
  severity := severityFromU8 (severityMap r.severity)

theorem length_sequence (r : PatternRuleSource) (i : ℕ) :
    (if i < min r.sequence.length 5 then padBytes (r.sequence.getD i "") 4
      else [0, 0, 0, 0]).length = 4 := by
  split
  · exact length_padBytes _ _
  · rfl

theorem length_flatMap_sequence (r : PatternRuleSource) :
    ((List.range 5).flatMap fun i => if i < min r.sequence.length 5 then
      padBytes (r.sequence.getD i "") 4 else [0, 0, 0, 0]).length = 20 := by
  rw [List.length_flatMap, List.map_congr_left fun i _ => length_sequence r i]
  rfl

theorem length_encodePatternRule {r : PatternRuleSource} {e : List UInt8}
    (h : encodePatternRule r = some e) : e.length = patternRuleSize := by
  simp only [encodePatternRule, Option.bind_eq_bind, Option.bind_eq_some_iff, Option.pure_def,
    Option.some.injEq] at h
  obtain ⟨w, -, rfl⟩ := h
  simp only [List.length_append, length_padBytes, length_flatMap_sequence, length_le64,
    List.length_cons, List.length_nil, patternRuleSize]

theorem parsePatternRule_encode {r : PatternRuleSource} {e : List UInt8}
    (h : encodePatternRule r = some e) (hb : Holds (byteAt d) b e)
    (hlen : b + patternRuleSize ≤ d.length) : parsePatternRule d b = r.parsed := by
  simp only [encodePatternRule, Option.bind_eq_bind, Option.bind_eq_some_iff, Option.pure_def,
    Option.some.injEq] at h
  obtain ⟨w, hw, rfl⟩ := h
  simp only [holds_append, List.length_append, length_padBytes, length_flatMap_sequence,
    List.length_cons, List.length_nil, holds_cons, and_assoc, Nat.reduceAdd] at hb
  obtain ⟨hname, hcount, hsev, -, -, -, hseq, hwindow⟩ := hb
  simp only [patternRuleSize] at hlen
  have hle : min r.sequence.length 5 ≤ 5 := Nat.min_le_right _ _
  have hnat : (UInt8.ofNat (min r.sequence.length 5)).toNat = min r.sequence.length 5 :=
    UInt8.toNat_ofNat_of_lt' (by rw [UInt8.size]; omega)
  have hmin : (if UInt8.ofNat (min r.sequence.length 5) < 5 then
      UInt8.ofNat (min r.sequence.length 5) else 5) = UInt8.ofNat (min r.sequence.length 5) := by
    have hfive : (5 : UInt8).toNat = 5 := rfl
    split
    · rfl
    · next hnot =>
      rw [UInt8.lt_iff_toNat_lt, hnat, hfive] at hnot
      rw [show min r.sequence.length 5 = 5 by omega]
      rfl
  have hevent : ∀ i < 5, i < min r.sequence.length 5 →
      slice d (b + 20 + i * 4) 4 = padBytes (r.sequence.getD i "") 4 := by
    intro i hi hlt
    have hone := hseq.flatMap (length_sequence r) (List.getElem?_range hi)
    rw [if_pos hlt] at hone
    exact slice_of_holds hone (by rw [length_padBytes]; omega) (length_padBytes _ _)
  unfold parsePatternRule
  simp only [slice_of_holds hname (by simp; omega) (length_padBytes _ _), hcount, hmin, hnat,
    readU64Le_of_holds hwindow (by omega), hsev, PatternRuleSource.parsed, hw, Option.getD_some]
  congr 1
  refine List.map_congr_left fun i hi => ?_
  by_cases hlt : i < min r.sequence.length 5
  · rw [if_pos hlt, if_pos hlt, hevent i (List.mem_range.mp hi) hlt]
  · rw [if_neg hlt, if_neg hlt]

/-- What the parser makes of an entry. -/
def TunerSource.parsed (cfg : TunerSource) : TunerConfig where
  highRate := ((x100 cfg.highRate).getD 0).toFloat32 / 100
  criticalRate := ((x100 cfg.criticalRate).getD 0).toFloat32 / 100
  highProcCount := UInt32.ofNat cfg.highProcCount.toNat
  criticalProcCount := UInt32.ofNat cfg.criticalProcCount.toNat
  defaultQuantum := UInt32.ofNat cfg.defaultQuantum.toNat
  cooldownTicks := (secToTicks cfg.cooldownSec).getD 0

theorem length_encodeTunerConfig {cfg : TunerSource} {e : List UInt8}
    (h : encodeTunerConfig cfg = some e) : e.length = tunerConfigSize := by
  simp only [encodeTunerConfig, Option.bind_eq_bind, Option.bind_eq_some_iff, Option.pure_def,
    Option.some.injEq] at h
  obtain ⟨v₁, -, v₂, -, v₃, -, v₄, -, v₅, -, w, -, rfl⟩ := h
  rfl

theorem parseTunerConfig_encode {cfg : TunerSource} {e : List UInt8}
    (h : encodeTunerConfig cfg = some e) : parseTunerConfig e = cfg.parsed := by
  have hlen := length_encodeTunerConfig h
  have hb : Holds (byteAt e) 0 e := fun k _ => by rw [Nat.zero_add, byteAt]
  simp only [encodeTunerConfig, Option.bind_eq_bind, Option.bind_eq_some_iff, Option.pure_def,
    Option.some.injEq] at h
  obtain ⟨v₁, h₁, v₂, h₂, v₃, h₃, v₄, h₄, v₅, h₅, w, hw, he⟩ := h
  simp only [tunerConfigSize] at hlen
  nth_rewrite 2 [← he] at hb
  simp only [holds_append, List.length_append, length_le32, List.length_cons, List.length_nil,
    and_assoc, Nat.reduceAdd, Nat.zero_add] at hb
  obtain ⟨hb₁, hb₂, hb₃, hb₄, hb₅, -, hbw⟩ := hb
  simp only [parseTunerConfig, TunerSource.parsed, h₁, h₂, hw, Option.getD_some, packI_eq h₃,
    packI_eq h₄, packI_eq h₅]
  rw [readU32Le_of_holds hb₁ (by omega), readU32Le_of_holds hb₂ (by omega),
    readU32Le_of_holds hb₃ (by omega), readU32Le_of_holds hb₄ (by omega),
    readU32Le_of_holds hb₅ (by omega), readU64Le_of_holds hbw (by omega)]

/-- What the parser makes of an entry. -/
def RemediationRuleSource.parsed (r : RemediationRuleSource) : RemediationRuleConfig where
  minSeverity := severityFromU8 (severityMap r.minSeverity)
  action := actionFromU8 (actionMap r.action)
  param := UInt16.ofNat (r.param.getD 0).toNat
  repeatLimit := UInt32.ofNat (r.repeatLimit.getD 1).toNat
  cooldownTicks := (secToTicks r.cooldownSec).getD 0

theorem length_encodeRemediationRule {r : RemediationRuleSource} {e : List UInt8}
    (h : encodeRemediationRule r = some e) : e.length = remediationRuleSize := by
  simp only [encodeRemediationRule, Option.bind_eq_bind, Option.bind_eq_some_iff,
    Option.pure_def, Option.some.injEq] at h
  obtain ⟨p, -, v, -, w, -, rfl⟩ := h
  rfl

theorem parseRemediationRule_encode {r : RemediationRuleSource} {e : List UInt8}
    (h : encodeRemediationRule r = some e) (hb : Holds (byteAt d) b e)
    (hlen : b + remediationRuleSize ≤ d.length) : parseRemediationRule d b = r.parsed := by
  simp only [encodeRemediationRule, Option.bind_eq_bind, Option.bind_eq_some_iff,
    Option.pure_def, Option.some.injEq] at h
  obtain ⟨p, hp, v, hv, w, hw, rfl⟩ := h
  simp only [holds_append, List.length_append, length_le32, length_le16, List.length_cons,
    List.length_nil, holds_cons, and_assoc, Nat.reduceAdd] at hb
  obtain ⟨hsev, hact, -, hparam, hrepeat, hwindow⟩ := hb
  simp only [remediationRuleSize] at hlen
  simp only [parseRemediationRule, RemediationRuleSource.parsed, hw, Option.getD_some,
    packI_eq hv, packH_eq hp, hsev, hact]
  rw [readU16Le_of_holds hparam (by omega), readU32Le_of_holds hrepeat (by omega),
    readU64Le_of_holds hwindow (by omega)]

theorem readU64Le_encodeDedupConfig {cfg : DedupSource} {e : List UInt8}
    (h : encodeDedupConfig cfg = some e) :
    e.length = dedupConfigSize ∧ readU64Le e 0 = (secToTicks cfg.windowSec).getD 0 := by
  have hb : Holds (byteAt e) 0 e := fun k _ => by rw [Nat.zero_add, byteAt]
  simp only [encodeDedupConfig, Option.bind_eq_bind, Option.bind_eq_some_iff, Option.pure_def,
    Option.some.injEq] at h
  obtain ⟨w, hw, rfl⟩ := h
  refine ⟨rfl, ?_⟩
  rw [readU64Le_of_holds hb (by simp), hw, Option.getD_some]

/-- What the parser makes of an entry. -/
def TrustSource.parsed (cfg : TrustSource) : TrustConfig where
  failuresToSuspicious := UInt32.ofNat cfg.failuresToSuspicious.toNat
  failuresToUntrusted := UInt32.ofNat cfg.failuresToUntrusted.toNat
  denialsToSuspicious := UInt32.ofNat cfg.denialsToSuspicious.toNat
  denialsToUntrusted := UInt32.ofNat cfg.denialsToUntrusted.toNat
  anomaliesToSuspicious := UInt32.ofNat cfg.anomaliesToSuspicious.toNat
  anomaliesToUntrusted := UInt32.ofNat cfg.anomaliesToUntrusted.toNat

theorem parseTrustConfig_encode {cfg : TrustSource} {e : List UInt8}
    (h : encodeTrustConfig cfg = some e) :
    e.length = trustConfigSize ∧ parseTrustConfig e = cfg.parsed := by
  have hb : Holds (byteAt e) 0 e := fun k _ => by rw [Nat.zero_add, byteAt]
  simp only [encodeTrustConfig, Option.bind_eq_bind, Option.bind_eq_some_iff, Option.pure_def,
    Option.some.injEq] at h
  obtain ⟨v₁, h₁, v₂, h₂, v₃, h₃, v₄, h₄, v₅, h₅, v₆, h₆, he⟩ := h
  have hlen : e.length = 24 := by
    rw [← he]
    rfl
  nth_rewrite 2 [← he] at hb
  simp only [holds_append, List.length_append, length_le32, and_assoc, Nat.reduceAdd,
    Nat.zero_add] at hb
  obtain ⟨hb₁, hb₂, hb₃, hb₄, hb₅, hb₆⟩ := hb
  refine ⟨hlen, ?_⟩
  simp only [parseTrustConfig, TrustSource.parsed, packI_eq h₁, packI_eq h₂, packI_eq h₃,
    packI_eq h₄, packI_eq h₅, packI_eq h₆]
  rw [readU32Le_of_holds hb₁ (by omega), readU32Le_of_holds hb₂ (by omega),
    readU32Le_of_holds hb₃ (by omega), readU32Le_of_holds hb₄ (by omega),
    readU32Le_of_holds hb₅ (by omega), readU32Le_of_holds hb₆ (by omega)]

/-- What the parser makes of an entry. -/
def AccessRuleSource.parsed (r : AccessRuleSource) : AccessRuleConfig where
  pattern := padBytes r.pattern 32
  patternLen := UInt8.ofNat (untilNul (padBytes r.pattern 32)).length
  minPrivilege := UInt8.ofNat r.minPrivilege.toNat

theorem length_encodeAccessRule {r : AccessRuleSource} {e : List UInt8}
    (h : encodeAccessRule r = some e) : e.length = accessRuleSize := by
  simp only [encodeAccessRule, Option.bind_eq_bind, Option.bind_eq_some_iff, Option.pure_def,
    Option.some.injEq] at h
  obtain ⟨v, -, rfl⟩ := h
  simp [accessRuleSize]

theorem parseAccessRule_encode {r : AccessRuleSource} {e : List UInt8}
    (h : encodeAccessRule r = some e) (hb : Holds (byteAt d) b e)
    (hlen : b + accessRuleSize ≤ d.length) : parseAccessRule d b = r.parsed := by
  simp only [encodeAccessRule, Option.bind_eq_bind, Option.bind_eq_some_iff, Option.pure_def,
    Option.some.injEq] at h
  obtain ⟨v, hv, rfl⟩ := h
  simp only [holds_append, length_padBytes, holds_cons] at hb
  obtain ⟨hpattern, hpriv, -⟩ := hb
  simp only [accessRuleSize] at hlen
  unfold parseAccessRule
  simp only [slice_of_holds hpattern (by simp; omega) (length_padBytes _ _), hpriv,
    AccessRuleSource.parsed, packB_eq hv]

/-! ## Sections -/

theorem packH_toNat {n : ℕ} {v : UInt16} (h : packH n = some v) : v.toNat = n := by
  unfold packH at h
  split at h
  · next hn =>
    cases h
    exact UInt16.toNat_ofNat_of_lt' (by rw [UInt16.size]; omega)
  · cases h

theorem packI_toNat {n : ℕ} {v : UInt32} (h : packI n = some v) : v.toNat = n := by
  unfold packI at h
  split at h
  · next hn =>
    cases h
    exact UInt32.toNat_ofNat_of_lt' (by rw [UInt32.size]; omega)
  · cases h

/-- What a section of the compiler does to the configuration. -/
def PolicyConfig.install (config : PolicyConfig) (s : PolicySection) : PolicyConfig :=
  config.parseSection s.secType s.entryCount s.entries

/-- A section is read as it was written, and the parser goes on behind it. -/
theorem parseSections_cons {s : PolicySection} {e : List UInt8} (h : packSection s = some e)
    (before after : List UInt8) (count : ℕ) (config : PolicyConfig) :
    parseSections (before ++ e ++ after) (count + 1) before.length config =
      parseSections (before ++ e ++ after) count (before ++ e).length (config.install s) := by
  have hb := holds_byteAt before e after
  simp only [packSection, Option.bind_eq_bind, Option.bind_eq_some_iff, Option.pure_def,
    Option.some.injEq] at h
  obtain ⟨n, hn, size, hsize, he⟩ := h
  have hlen : e.length = 8 + s.entries.length := by
    rw [← he]
    simp only [List.length_append, List.length_cons, List.length_nil, length_le16, length_le32]
  have hnext : before.length + 8 + s.entries.length = (before ++ e).length := by
    rw [List.length_append, hlen]
    omega
  generalize hd : before ++ e ++ after = d at hb ⊢
  have hdlen : (before ++ e).length ≤ d.length := by
    rw [← hd]
    exact (List.prefix_append (before ++ e) after).length_le
  rw [← he] at hb
  simp only [holds_append, List.length_append, List.length_cons, List.length_nil, length_le16,
    length_le32, holds_cons, and_assoc, Nat.reduceAdd] at hb
  obtain ⟨htype, -, -, hbcount, hbsize, hbentries⟩ := hb
  rw [parseSections, if_neg (by rw [sectionHeaderSize]; omega)]
  dsimp only
  rw [htype, readU16Le_of_holds hbcount (by omega), readU32Le_of_holds hbsize (by omega),
    packH_toNat hn, packI_toNat hsize, sectionHeaderSize, if_neg (by omega),
    slice_of_holds hbentries (by omega) rfl, hnext]
  rfl

/-- The parser walks through the sections in order. -/
theorem parseSections_of_pack {sections : List PolicySection} {bodies : List (List UInt8)}
    (before : List UInt8) (config : PolicyConfig) (hmap : sections.mapM packSection = some bodies) :
    parseSections (before ++ bodies.flatten) sections.length before.length config =
      sections.foldl PolicyConfig.install config := by
  induction sections generalizing bodies before config with
  | nil => rfl
  | cons s sections ih =>
    rw [List.mapM_cons] at hmap
    simp only [Option.bind_eq_bind, Option.bind_eq_some_iff, Option.pure_def,
      Option.some.injEq] at hmap
    obtain ⟨e, he, es, hes, rfl⟩ := hmap
    rw [List.length_cons, List.flatten_cons, ← List.append_assoc, parseSections_cons he,
      List.foldl_cons]
    exact ih (before ++ e) (config.install s) hes

/-- The blob is read as its version and the configuration its sections install. -/
theorem parsePolicyBlob_compile {cfg : PolicySource} {blob : List UInt8}
    (h : compilePolicy cfg = some blob) : ∃ sections version,
      policySections cfg = some sections ∧ packH (cfg.version.getD 1) = some version ∧
      parsePolicyBlob blob = if version = 0 then none else
        some (sections.foldl PolicyConfig.install
          { PolicyConfig.default with version := version }) := by
  simp only [compilePolicy, Option.bind_eq_bind, Option.bind_eq_some_iff, Option.pure_def,
    Option.some.injEq] at h
  obtain ⟨sections, hsections, version, hversion, count, hcount, body, hbody, rfl⟩ := h
  refine ⟨sections, version, hsections, hversion, ?_⟩
  generalize hheader : utf8 "VPOL" ++ le16 version ++ le16 count = header
  have hlen : header.length = 8 := by
    rw [← hheader]
    rfl
  have hb := holds_byteAt [] header body.flatten
  rw [List.nil_append, List.length_nil] at hb
  nth_rewrite 2 [← hheader] at hb
  have hmagic : (utf8 "VPOL").length = 4 := rfl
  simp only [holds_append, List.length_append, length_le16, hmagic, and_assoc, Nat.reduceAdd,
    Nat.zero_add] at hb
  obtain ⟨hbmagic, hbversion, hbcount⟩ := hb
  have hdlen : 8 ≤ (header ++ body.flatten).length := by
    rw [List.length_append]
    omega
  have hsecs := parseSections_of_pack header
    { PolicyConfig.default with version := version } hbody
  rw [hlen] at hsecs
  rw [parsePolicyBlob, if_neg (by rw [headerSize]; omega), vpolMagic,
    slice_of_holds hbmagic (by omega) hmagic, if_neg (not_not.mpr rfl)]
  dsimp only
  rw [readU16Le_of_holds hbversion (by omega), readU16Le_of_holds hbcount (by omega),
    packH_toNat hcount, headerSize, hsecs]

/-- A list that is given replaces what stood there. -/
def given {α β : Type} (rules : List α) (parsed : α → β) (default : List β) : List β :=
  if rules.isEmpty then default else rules.map parsed

/-- A section of rules that are read as they were written. -/
theorem foldl_encodeRules {α β : Type} {secType : UInt8} {encode : α → Option (List UInt8)}
    {size : ℕ} {parse : List UInt8 → ℕ → β} {decoded : α → β} {rules : List α}
    {sections : List PolicySection} {config : PolicyConfig} {f : List β → PolicyConfig}
    {old : List β} (h : encodeRules secType encode rules = some sections)
    (hsize : ∀ a e, encode a = some e → e.length = size)
    (hparse : ∀ a e d b, encode a = some e → Holds (byteAt d) b e → b + size ≤ d.length →
      parse d b = decoded a)
    (hold : f old = config)
    (hsection : ∀ count data, config.parseSection secType count data =
      f (parseEntries size (parse data) data.length count 0)) :
    sections.foldl PolicyConfig.install config = f (given rules decoded old) := by
  unfold encodeRules at h
  unfold given
  split at h
  · next hempty =>
    cases h
    rw [if_pos hempty]
    exact hold.symm
  · next hempty =>
    rw [if_neg hempty]
    obtain ⟨entries, hentries, rfl⟩ := Option.map_eq_some_iff.mp h
    have hlist := parseEntries_of_encode hsize hparse rules entries [] 0 hentries (by simp)
    rw [List.nil_append] at hlist
    rw [List.foldl_cons, List.foldl_nil, PolicyConfig.install, hsection, hlist]

/-- A section of one entry that is read as it was written. -/
theorem foldl_encodeConfig {α β : Type} {secType : UInt8} {encode : α → Option (List UInt8)}
    {decoded : α → β} {cfg : Option α} {sections : List PolicySection} {config : PolicyConfig}
    {f : β → PolicyConfig} {old : β} (h : encodeConfig secType encode cfg = some sections)
    (hold : f old = config)
    (hsection : ∀ a e, encode a = some e →
      config.parseSection secType 1 e = f (decoded a)) :
    sections.foldl PolicyConfig.install config = f ((cfg.map decoded).getD old) := by
  unfold encodeConfig at h
  cases cfg with
  | none =>
    cases h
    exact hold.symm
  | some a =>
    obtain ⟨e, he, rfl⟩ := Option.map_eq_some_iff.mp h
    exact hsection a e he

theorem length_parseEntries {α : Type} {size len : ℕ} {read : ℕ → α} :
    ∀ {count i : ℕ}, (parseEntries size read len count i).length = count → 0 < count →
      (i + count) * size ≤ len
  | 0, _, _, h => absurd h (Nat.lt_irrefl 0)
  | count + 1, i, h, _ => by
    rw [parseEntries] at h
    split at h
    · cases h
    · next hfits =>
      rw [List.length_cons, Nat.succ_inj] at h
      rcases Nat.eq_zero_or_pos count with rfl | hpos
      · rw [Nat.zero_add, Nat.succ_mul]
        omega
      · have hrest := length_parseEntries h hpos
        rwa [show i + (count + 1) = i + 1 + count by omega]

theorem length_flatten_mapM {α : Type} {encode : α → Option (List UInt8)} {size : ℕ}
    (hsize : ∀ a e, encode a = some e → e.length = size) {rules : List α}
    {entries : List (List UInt8)} (h : rules.mapM encode = some entries) :
    entries.flatten.length = rules.length * size := by
  induction rules generalizing entries with
  | nil =>
    cases h
    simp
  | cons a rules ih =>
    rw [List.mapM_cons] at h
    simp only [Option.bind_eq_bind, Option.bind_eq_some_iff, Option.pure_def,
      Option.some.injEq] at h
    obtain ⟨e, he, es, hes, rfl⟩ := h
    rw [List.flatten_cons, List.length_append, ih hes, hsize a e he, List.length_cons,
      Nat.succ_mul]
    omega

theorem length_encodeThresholdRule {r : ThresholdRuleSource} {e : List UInt8}
    (h : encodeThresholdRule r = some e) : e.length = 24 := by
  simp only [encodeThresholdRule, Option.bind_eq_bind, Option.bind_eq_some_iff, Option.pure_def,
    Option.some.injEq] at h
  obtain ⟨v, -, rfl⟩ := h
  simp

/-- Of the threshold rules that were written, some are not read. -/
theorem foldl_encodeThresholds {rules : List ThresholdRuleSource} {sections : List PolicySection}
    (config : PolicyConfig)
    (h : encodeRules secThresholdRules encodeThresholdRule rules = some sections) :
    ∃ thresholds, sections.foldl PolicyConfig.install config =
        { config with thresholdRules := thresholds } ∧
      (rules = [] → thresholds = config.thresholdRules) ∧
      (rules ≠ [] → thresholds.length ≠ rules.length) := by
  unfold encodeRules at h
  split at h
  · next hempty =>
    cases h
    exact ⟨config.thresholdRules, rfl, fun _ => rfl,
      fun hne => absurd (List.isEmpty_iff.mp hempty) hne⟩
  · next hempty =>
    obtain ⟨entries, hentries, rfl⟩ := Option.map_eq_some_iff.mp h
    refine ⟨_, rfl, fun hnil => absurd (List.isEmpty_iff.mpr hnil) hempty, fun hne hlen => ?_⟩
    have hfits := length_parseEntries hlen (List.length_pos_iff.mpr hne)
    have hwritten := length_flatten_mapM (fun _ _ => length_encodeThresholdRule) hentries
    have hpos := List.length_pos_iff.mpr hne
    rw [Nat.zero_add, thresholdRuleSize] at hfits
    change rules.length * 28 ≤ entries.flatten.length at hfits
    omega

/-- The configuration that the parser makes of a compiled policy, but for the thresholds. -/
def PolicySource.parsed (p : PolicySource) (version : UInt16)
    (thresholds : List ThresholdRuleConfig) : PolicyConfig where
  rateRules := given p.rateRules RateRuleSource.parsed PolicyConfig.default.rateRules
  patternRules := given p.patternRules PatternRuleSource.parsed PolicyConfig.default.patternRules
  thresholdRules := thresholds
  tuner := (p.tuner.map TunerSource.parsed).getD PolicyConfig.default.tuner
  remediationRules :=
    given p.remediationRules RemediationRuleSource.parsed PolicyConfig.default.remediationRules
  dedup := (p.dedup.map fun cfg => ⟨(secToTicks cfg.windowSec).getD 0⟩).getD
    PolicyConfig.default.dedup
  trust := (p.trust.map TrustSource.parsed).getD PolicyConfig.default.trust
  accessRules := given p.accessRules AccessRuleSource.parsed PolicyConfig.default.accessRules
  version := version

theorem parse_compilePolicy {p : PolicySource} {blob : List UInt8}
    (h : compilePolicy p = some blob) : ∃ version thresholds,
      packH (p.version.getD 1) = some version ∧
      (p.thresholdRules = [] → thresholds = PolicyConfig.default.thresholdRules) ∧
      (p.thresholdRules ≠ [] → thresholds.length ≠ p.thresholdRules.length) ∧
      parsePolicyBlob blob =
        if version = 0 then none else some (p.parsed version thresholds) := by
  obtain ⟨sections, version, hsections, hversion, hparse⟩ := parsePolicyBlob_compile h
  simp only [policySections, Option.bind_eq_bind, Option.bind_eq_some_iff, Option.pure_def,
    Option.some.injEq] at hsections
  obtain ⟨rate, hrate, pattern, hpattern, threshold, hthreshold, tuner, htuner, remediation,
    hremediation, dedup, hdedup, trust, htrust, access, haccess, rfl⟩ := hsections
  have hrate' : ∀ config : PolicyConfig, rate.foldl PolicyConfig.install config =
      { config with rateRules := given p.rateRules RateRuleSource.parsed config.rateRules } :=
    fun config => foldl_encodeRules (f := fun l => { config with rateRules := l }) hrate
      (fun _ _ => length_encodeRateRule) (fun _ _ _ _ => parseRateRule_encode) rfl fun _ _ => rfl
  have hpattern' : ∀ config : PolicyConfig, pattern.foldl PolicyConfig.install config =
      { config with
        patternRules := given p.patternRules PatternRuleSource.parsed config.patternRules } :=
    fun config => foldl_encodeRules (f := fun l => { config with patternRules := l }) hpattern
      (fun _ _ => length_encodePatternRule) (fun _ _ _ _ => parsePatternRule_encode) rfl
      fun _ _ => rfl
  have htuner' : ∀ config : PolicyConfig, tuner.foldl PolicyConfig.install config =
      { config with tuner := (p.tuner.map TunerSource.parsed).getD config.tuner } := by
    refine fun config => foldl_encodeConfig (f := fun t => { config with tuner := t }) htuner rfl
      fun cfg e he => ?_
    have hfits : e.length ≥ tunerConfigSize := (length_encodeTunerConfig he).ge
    change (if e.length ≥ tunerConfigSize then _ else _) = _
    rw [if_pos hfits, parseTunerConfig_encode he]
  have hremediation' : ∀ config : PolicyConfig, remediation.foldl PolicyConfig.install config =
      { config with
        remediationRules := given p.remediationRules RemediationRuleSource.parsed
          config.remediationRules } :=
    fun config => foldl_encodeRules (f := fun l => { config with remediationRules := l })
      hremediation (fun _ _ => length_encodeRemediationRule)
      (fun _ _ _ _ => parseRemediationRule_encode) rfl fun _ _ => rfl
  have hdedup' : ∀ config : PolicyConfig, dedup.foldl PolicyConfig.install config =
      { config with
        dedup := (p.dedup.map fun cfg => ⟨(secToTicks cfg.windowSec).getD 0⟩).getD
          config.dedup } := by
    refine fun config => foldl_encodeConfig (f := fun t => { config with dedup := t }) hdedup rfl
      fun cfg e he => ?_
    obtain ⟨hlen, hread⟩ := readU64Le_encodeDedupConfig he
    change (if e.length ≥ dedupConfigSize then _ else _) = _
    rw [if_pos hlen.ge, hread]
  have htrust' : ∀ config : PolicyConfig, trust.foldl PolicyConfig.install config =
      { config with trust := (p.trust.map TrustSource.parsed).getD config.trust } := by
    refine fun config => foldl_encodeConfig (f := fun t => { config with trust := t }) htrust rfl
      fun cfg e he => ?_
    obtain ⟨hlen, hread⟩ := parseTrustConfig_encode he
    change (if e.length ≥ trustConfigSize then _ else _) = _
    rw [if_pos hlen.ge, hread]
  have haccess' : ∀ config : PolicyConfig, access.foldl PolicyConfig.install config =
      { config with
        accessRules := given p.accessRules AccessRuleSource.parsed config.accessRules } :=
    fun config => foldl_encodeRules (f := fun l => { config with accessRules := l }) haccess
      (fun _ _ => length_encodeAccessRule) (fun _ _ _ _ => parseAccessRule_encode) rfl
      fun _ _ => rfl
  rw [hparse]
  simp only [List.foldl_append, hrate', hpattern']
  obtain ⟨thresholds, hinstall, hnone, hsome⟩ := foldl_encodeThresholds
    { PolicyConfig.default with
      version := version
      rateRules := given p.rateRules RateRuleSource.parsed PolicyConfig.default.rateRules
      patternRules := given p.patternRules PatternRuleSource.parsed
        PolicyConfig.default.patternRules }
    hthreshold
  refine ⟨version, thresholds, hversion, hnone, hsome, ?_⟩
  rw [hinstall]
  simp only [htuner', hremediation', hdedup', htrust', haccess']
  rfl

end VernisOS
