import VernisOS.AiEngine

/-!
# Policy blobs that were cut short

The parser stops at the first section that is not whole and returns what it has, on top of the
defaults. A blob that was cut is refused only if its header is cut as well
(`policy_update_prefix`). Otherwise the sections in front of the cut are installed, and the
rules of those behind it are lost (`loadPolicy_cut`).
-/

open Bytes

namespace VernisOS

/-- Where the sections end, if they fit. -/
def sectionsEnd (data : List UInt8) : ℕ → ℕ → Option ℕ
  | 0, offset => some offset
  | count + 1, offset =>
    if offset + sectionHeaderSize > data.length then none
    else
      let offset' := offset + sectionHeaderSize + (readU32Le data (offset + 4)).toNat
      if offset' > data.length then none else sectionsEnd data count offset'

/-- A blob with a header, and sections that end where it ends. -/
structure ValidBlob (b : List UInt8) : Prop where
  header : headerSize ≤ b.length
  magic : slice b 0 4 = vpolMagic
  version : readU16Le b 4 ≠ 0
  sections : sectionsEnd b (readU16Le b 6).toNat headerSize = some b.length

variable {p b : List UInt8} {o n : ℕ}

/-! ## Reading a prefix -/

theorem byteAt_cut (h : p <+: b) (ho : o < p.length) : byteAt p o = byteAt b o := by
  obtain ⟨t, rfl⟩ := h
  exact (List.getD_append _ _ _ _ ho).symm

theorem readU16Le_cut (h : p <+: b) (ho : o + 2 ≤ p.length) : readU16Le p o = readU16Le b o := by
  have hle := h.length_le
  rw [readU16Le, readU16Le, if_neg (by omega), if_neg (by omega)]
  exact leAt16_eq fun k hk => byteAt_cut h (by omega)

theorem readU32Le_cut (h : p <+: b) (ho : o + 4 ≤ p.length) : readU32Le p o = readU32Le b o := by
  have hle := h.length_le
  rw [readU32Le, readU32Le, if_neg (by omega), if_neg (by omega)]
  exact leAt32_eq fun k hk => byteAt_cut h (by omega)

theorem slice_cut (h : p <+: b) (ho : o + n ≤ p.length) : slice p o n = slice b o n := by
  obtain ⟨t, rfl⟩ := h
  rw [slice, slice, List.drop_append_of_le_length (by omega),
    List.take_append_of_le_length (by rw [List.length_drop]; omega)]

/-- A prefix is read as the blob with fewer sections. -/
theorem parseSections_prefix (h : p <+: b) (count offset : ℕ) (config : PolicyConfig) :
    ∃ k ≤ count, parseSections p count offset config = parseSections b k offset config ∧
      (p.length < b.length → offset ≤ p.length → sectionsEnd b count offset = some b.length →
        k < count) := by
  induction count generalizing offset config with
  | zero =>
    refine ⟨0, le_rfl, rfl, fun hlt hoffset hend => ?_⟩
    cases hend
    omega
  | succ count ih =>
    have hle := h.length_le
    rw [parseSections]
    split
    · exact ⟨0, Nat.zero_le _, rfl, fun _ _ _ => Nat.succ_pos _⟩
    · next hheader =>
      rw [sectionHeaderSize] at hheader
      dsimp only
      rw [readU16Le_cut h (by omega), readU32Le_cut h (by omega),
        byteAt_cut h (by omega)]
      split
      · exact ⟨0, Nat.zero_le _, rfl, fun _ _ _ => Nat.succ_pos _⟩
      · next hdata =>
        rw [slice_cut h (not_lt.mp hdata)]
        obtain ⟨k, hk, hparse, hless⟩ := ih (offset + sectionHeaderSize +
          (readU32Le b (offset + 4)).toNat) (config.parseSection (byteAt b offset)
            (readU16Le b (offset + 2)).toNat (slice b (offset + sectionHeaderSize)
              (readU32Le b (offset + 4)).toNat))
        rw [sectionHeaderSize] at hdata
        refine ⟨k + 1, Nat.succ_le_succ hk, ?_, fun hlt _ hend => ?_⟩
        · rw [hparse, parseSections, if_neg (by rw [sectionHeaderSize]; omega)]
          dsimp only
          rw [if_neg (by rw [sectionHeaderSize]; omega)]
        · rw [sectionsEnd, if_neg (by rw [sectionHeaderSize]; omega)] at hend
          dsimp only at hend
          rw [if_neg (by rw [sectionHeaderSize]; omega)] at hend
          exact Nat.succ_lt_succ (hless hlt (by rw [sectionHeaderSize]; omega) hend)

/-! ## Loading a prefix -/

theorem aiEngineLoadPolicy_short (e : AiEngine) (h : p.length < headerSize) :
    e.aiEngineLoadPolicy p = (0, e) := by
  rw [AiEngine.aiEngineLoadPolicy, if_pos h]

/-- A blob that was cut behind its header replaces the policy by the defaults and the sections
in front of the cut. At least one is lost. -/
theorem aiEngineLoadPolicy_cut (e : AiEngine) (hb : ValidBlob b) (h : p <+: b)
    (hlt : p.length < b.length) (hheader : headerSize ≤ p.length) :
    ∃ k < (readU16Le b 6).toNat,
      let config := parseSections b k headerSize
        { PolicyConfig.default with version := readU16Le b 4 }
      e.aiEngineLoadPolicy p = (1, { e.loadPolicy config with policyVer := config.version }) := by
  have hsize : headerSize = 8 := rfl
  obtain ⟨k, -, hparse, hless⟩ := parseSections_prefix h (readU16Le b 6).toNat headerSize
    { PolicyConfig.default with version := readU16Le b 4 }
  refine ⟨k, hless hlt hheader hb.sections, ?_⟩
  rw [AiEngine.aiEngineLoadPolicy, if_neg (not_lt.mpr hheader), parsePolicyBlob,
    if_neg (not_lt.mpr hheader), slice_cut h (by omega), if_neg (not_not.mpr hb.magic),
    readU16Le_cut h (by omega), readU16Le_cut h (by omega), ← hparse]
  dsimp only
  rw [if_neg hb.version]

/-- A proper prefix is refused, and the engine stays as it was, exactly if it is shorter than
the header. -/
theorem policy_update_prefix (e : AiEngine) (hb : ValidBlob b) (h : p <+: b)
    (hlt : p.length < b.length) : e.aiEngineLoadPolicy p = (0, e) ↔ p.length < headerSize := by
  constructor
  · intro hload
    by_contra hheader
    obtain ⟨k, -, hcut⟩ := aiEngineLoadPolicy_cut e hb h hlt (not_lt.mp hheader)
    rw [hload] at hcut
    exact absurd (congrArg Prod.fst hcut) (by decide : (0 : UInt32) ≠ 1)
  · exact aiEngineLoadPolicy_short e

/-- Version 2 with an empty section of access rules. -/
def accessBlob : List UInt8 :=
  utf8 "VPOL" ++ [2, 0, 1, 0] ++ [8, 0, 0, 0, 0, 0, 0, 0]

theorem validBlob_accessBlob : ValidBlob accessBlob := by
  constructor <;> decide

theorem policy_update_prefix_accessBlob :
    defaultEngine.aiEngineLoadPolicy (accessBlob.take 4) = (0, defaultEngine) :=
  ( policy_update_prefix defaultEngine validBlob_accessBlob ( List.take_prefix 4 accessBlob)
    (by decide)).mpr (by decide)

/-- The header alone is accepted : the version in force becomes 2. -/
theorem not_policy_update_prefix : ¬ ∀ (e : AiEngine) (b p : List UInt8), ValidBlob b →
    p <+: b → p.length < b.length → e.aiEngineLoadPolicy p = (0, e) := by
  intro hall
  have h := hall defaultEngine accessBlob (accessBlob.take 8) validBlob_accessBlob
    ( List.take_prefix 8 accessBlob) (by decide)
  exact absurd (congrArg Prod.fst h) (by decide)

end VernisOS
