import Mathlib.Data.List.DropRight
import VernisOS.DetectorAgreement

/-!
# What the detectors report

The rate windows and the pattern history of the kernel against the whole past : a rate rule
should report an event if too many of its type are in the window that ends with it, and a
pattern rule if its sequence is a subsequence of what the last 64 events have in its window.
The greedy scan finds every subsequence (`matchesFrom_eq_sublist`). The windows are counted in
32 bits, and so the reports are right exactly if no rule is hidden by that
(`detection_exact_iff`).
-/

open Window

namespace VernisOS

/-! ## What should be reported -/

/-- The events in a window that ends at `now`. -/
def lately (windowTicks now : UInt64) (evs : List DetectorEvent) : List DetectorEvent :=
  evs.filter fun x => now.toNat - windowTicks.toNat ≤ x.now.toNat

/-- How many events of the type of `e` are in the window of a rule that ends with `e`. -/
def RateRuleConfig.windowCount (r : RateRuleConfig) (past : List DetectorEvent)
    (e : DetectorEvent) : ℕ :=
  ((lately r.windowTicks e.now (past ++ [e])).filter fun x => x.eventType = e.eventType).length

/-- The rule is one for `e`, which makes too many events. -/
def RateRuleConfig.Exceeded (r : RateRuleConfig) (past : List DetectorEvent) (e : DetectorEvent) :
    Prop :=
  r.eventType = e.eventType ∧ r.maxCount.toNat < r.windowCount past e

instance (r : RateRuleConfig) (past : List DetectorEvent) (e : DetectorEvent) :
    Decidable (r.Exceeded past e) :=
  inferInstanceAs (Decidable (_ ∧ _))

/-- The sequence of the rule is a subsequence of the types of the last 64 events in its window,
of which `e` is the last. -/
def PatternRuleConfig.Occurs (r : PatternRuleConfig) (past : List DetectorEvent)
    (e : DetectorEvent) : Prop :=
  r.sequenceSlice.Sublist
    ((lately r.windowTicks e.now ((past ++ [e]).rtake 64)).map DetectorEvent.eventType)

instance (r : PatternRuleConfig) (past : List DetectorEvent) (e : DetectorEvent) :
    Decidable (r.Occurs past e) :=
  inferInstanceAs (Decidable (List.Sublist _ _))

/-- What `report` makes of each event, which comes after those before it. -/
def alongPast {α : Type} (report : List DetectorEvent → DetectorEvent → α) :
    List DetectorEvent → List DetectorEvent → List α
  | _, [] => []
  | past, e :: evs => report past e :: alongPast report (past ++ [e]) evs

/-- For which rules `e` should be reported. -/
def due (rateRules : List RateRuleConfig) (patternRules : List PatternRuleConfig)
    (past : List DetectorEvent) (e : DetectorEvent) : List Bool × List Bool :=
  (rateRules.map fun r => decide (r.Exceeded past e),
    patternRules.map fun r => decide (r.Occurs past e))

/-- At every event the rules that are reported are those that should be. -/
def DetectionExact (rateRules : List RateRuleConfig) (patternRules : List PatternRuleConfig)
    (evs : List DetectorEvent) : Prop :=
  ((DetectorState.new rateRules patternRules).feedAll evs).map (·.map Detected.reported) =
    some (alongPast (due rateRules patternRules) [] evs)

/-- No rule is hidden by the count in 32 bits. -/
def CountsFit (rateRules : List RateRuleConfig) (evs : List DetectorEvent) : Prop :=
  ∀ past e rest, evs = past ++ e :: rest → ∀ r ∈ rateRules, r.Exceeded past e →
    r.maxCount.toNat < r.windowCount past e % 2 ^ 32

/-! ## The greedy scan -/

/-- The scan finds a sequence exactly if it is a subsequence. -/
theorem matchesFrom_eq_sublist {seq : List EventType} {cutoff : UInt64} {entries : PatternHistory}
    {seqIdx : ℕ} (hidx : seqIdx < seq.length) :
    PatternHistory.matchesFrom seq cutoff entries seqIdx =
      some (decide ((seq.drop seqIdx).Sublist
        ((entries.filter fun entry => ¬ entry.1 < cutoff).map Prod.snd))) := by
  induction entries generalizing seqIdx with
  | nil =>
    have hne : ¬ (seq.drop seqIdx).Sublist ([] : List EventType) := by
      rw [List.sublist_nil, List.drop_eq_nil_iff]
      omega
    exact congrArg some (decide_eq_false hne).symm
  | cons entry entries ih =>
    obtain ⟨tick, evt⟩ := entry
    rw [PatternHistory.matchesFrom]
    by_cases hold : tick < cutoff
    · rw [if_pos hold, ih hidx, List.filter_cons_of_neg (by simpa using hold)]
    · rw [if_neg hold, List.filter_cons_of_pos (by simpa using hold),
        List.getElem?_eq_getElem hidx, List.map_cons, List.drop_eq_getElem_cons hidx]
      dsimp only
      by_cases heq : evt = seq[seqIdx]
      · rw [if_pos heq, heq]
        simp only [List.cons_sublist_cons]
        by_cases hdone : seqIdx + 1 ≥ seq.length
        · rw [if_pos hdone, List.drop_eq_nil_of_le hdone]
          exact congrArg some (decide_eq_true (List.nil_sublist _)).symm
        · rw [if_neg hdone, ih (not_le.mp hdone)]
      · rw [if_neg heq, ih hidx, List.drop_eq_getElem_cons hidx]
        refine congrArg some (decide_eq_decide.mpr ?_)
        rw [List.cons_sublist_cons', or_iff_left fun h => heq h.1.symm]

/-! ## One event -/

section
variable {past : List DetectorEvent} {e : DetectorEvent} {rateRules : List RateRuleConfig}
  {patternRules : List PatternRuleConfig} {s : DetectorState}

/-- What the history keeps of an event. -/
def DetectorEvent.mark (e : DetectorEvent) : UInt64 × EventType :=
  (e.now, e.eventType)

theorem push_rtake (past : List DetectorEvent) (e : DetectorEvent) :
    PatternHistory.push ((past.rtake 64).map DetectorEvent.mark) e.now e.eventType =
      ((past ++ [e]).rtake 64).map DetectorEvent.mark := by
  unfold PatternHistory.push List.rtake
  rw [List.length_map, List.length_drop, List.length_append, List.length_singleton]
  split_ifs with hfull
  · rw [show past.length + 1 - 64 = past.length - 64 + 1 by omega,
      List.drop_append_of_le_length (by omega), List.map_append, ← List.drop_drop, List.map_drop,
      List.map_drop, List.map_drop, List.tail_drop]
    rw [List.drop_drop]
    rfl
  · rw [show past.length - 64 = 0 by omega, show past.length + 1 - 64 = 0 by omega,
      List.drop_zero, List.drop_zero, List.map_append]
    rfl

/-- The pattern detection for one rule. -/
theorem detect_occurs {r : PatternRuleConfig} (hr : r.WellFormed) (past : List DetectorEvent)
    (e : DetectorEvent) :
    ∃ found, r.detect (((past ++ [e]).rtake 64).map DetectorEvent.mark) e.eventType e.data e.now =
      some found ∧ found.isSome = decide (r.Occurs past e) := by
  have hlen : 0 < r.sequenceSlice.length := by
    have := hr.sequence
    have := hr.nonempty
    simp only [PatternRuleConfig.sequenceSlice, List.length_take]
    omega
  have hmatches : PatternHistory.matches (((past ++ [e]).rtake 64).map DetectorEvent.mark) r
      e.now = some (decide (r.Occurs past e)) := by
    rw [PatternHistory.matches, if_neg (not_lt.mpr hr.sequence), matchesFrom_eq_sublist hlen,
      List.drop_zero, List.filter_map, List.map_map]
    have hfilter : ((past ++ [e]).rtake 64).filter ((fun entry : UInt64 × EventType =>
        decide (¬ entry.1 < saturatingSub e.now r.windowTicks)) ∘ DetectorEvent.mark) =
        lately r.windowTicks e.now ((past ++ [e]).rtake 64) := by
      refine List.filter_congr fun x _ => decide_eq_decide.mpr ?_
      rw [UInt64.lt_iff_toNat_lt, toNat_saturatingSub, not_lt]
      rfl
    rw [hfilter]
    rfl
  have htitle : ∃ rname, r.title = some rname := by
    rw [PatternRuleConfig.title, if_neg (not_lt.mpr hr.name)]
    exact ⟨_, rfl⟩
  obtain ⟨rname, hrname⟩ := htitle
  exact isSome_detect hmatches hrname e.eventType e.data

theorem detect_all_occurs (hrules : ∀ r ∈ patternRules, r.WellFormed) (past : List DetectorEvent)
    (e : DetectorEvent) :
    ∃ found, (patternRules.mapM fun r =>
        r.detect (((past ++ [e]).rtake 64).map DetectorEvent.mark) e.eventType e.data e.now) =
      some found ∧
      found.map Option.isSome = patternRules.map fun r => decide (r.Occurs past e) := by
  induction patternRules with
  | nil => exact ⟨[], rfl, rfl⟩
  | cons r patternRules ih =>
    obtain ⟨found, hfound, hsame⟩ := ih fun r' hr' => hrules r' (List.mem_cons_of_mem r hr')
    obtain ⟨first, hfirst, hoccurs⟩ := detect_occurs (hrules r List.mem_cons_self) past e
    refine ⟨first :: found, ?_, ?_⟩
    · simp only [List.mapM_cons, hfirst, hfound, Option.bind_eq_bind, Option.bind_some,
        Option.pure_def]
    · simp only [List.map_cons, hoccurs, hsame]

theorem windowCount_eq (r : RateRuleConfig) (past : List DetectorEvent) (e : DetectorEvent) :
    r.windowCount past e = (inWindow past e r).length := by
  unfold RateRuleConfig.windowCount lately inWindow eventsOf
  rw [List.filter_filter, List.filter_filter]
  refine congrArg List.length (List.filter_congr fun x _ => ?_)
  rw [Bool.and_comm]
  congr 1
  exact decide_eq_decide.mpr Nat.sub_le_iff_le_add

/-- For which rules `e` is reported. -/
def counted (rateRules : List RateRuleConfig) (patternRules : List PatternRuleConfig)
    (past : List DetectorEvent) (e : DetectorEvent) : List Bool × List Bool :=
  (rateRules.map fun r => decide (r.eventType = e.eventType ∧
      r.maxCount.toNat < r.windowCount past e % 2 ^ 32),
    patternRules.map fun r => decide (r.Occurs past e))

/-- The detector after these events. -/
structure DetectorFollows (rateRules : List RateRuleConfig) (patternRules : List PatternRuleConfig)
    (past : List DetectorEvent) (s : DetectorState) : Prop where
  windows : List.Forall₂ (WindowOf past) rateRules s.detector.rateWindows
  configured : s.detector.patternRules = patternRules
  history : s.patternHistory = (past.rtake 64).map DetectorEvent.mark

theorem detectorFollows_new (rateRules : List RateRuleConfig) (patternRules : List PatternRuleConfig) :
    DetectorFollows rateRules patternRules [] (DetectorState.new rateRules patternRules) where
  windows := by
    refine List.forall₂_map_right_iff.mpr (List.forall₂_same.mpr fun r _ => ?_)
    exact ⟨rfl, rfl, rfl, rfl⟩
  configured := rfl
  history := rfl

theorem DetectorFollows.step (h : DetectorFollows rateRules patternRules past s)
    (hrules : ∀ r ∈ patternRules, r.WellFormed) (hpast : Ordered past)
    (hle : ∀ p ∈ past, p.now.toNat ≤ e.now.toNat) :
    ∃ detected s', s.feedEvent e = some (detected, s') ∧
      DetectorFollows rateRules patternRules (past ++ [e]) s' ∧
      detected.reported = counted rateRules patternRules past e := by
  obtain ⟨hreports, hwindows⟩ := detect_windows h.windows hpast hle
  obtain ⟨found, hfound, hoccurs⟩ := detect_all_occurs hrules past e
  have hhistory : s.patternHistory.push e.now e.eventType =
      ((past ++ [e]).rtake 64).map DetectorEvent.mark := by
    rw [h.history, push_rtake]
  rw [← hhistory, ← h.configured] at hfound
  unfold DetectorState.feedEvent
  dsimp only
  rw [hfound]
  refine ⟨_, _, rfl, ⟨hwindows, h.configured, hhistory⟩, ?_⟩
  unfold Detected.reported counted
  dsimp only
  rw [hreports, hoccurs]
  simp only [windowCount_eq]

/-! ## Runs -/

theorem DetectorFollows.run (h : DetectorFollows rateRules patternRules past s)
    (hrules : ∀ r ∈ patternRules, r.WellFormed) {evs : List DetectorEvent}
    (hevs : Ordered (past ++ evs)) :
    (s.feedAll evs).map (·.map Detected.reported) =
      some (alongPast (counted rateRules patternRules) past evs) := by
  induction evs generalizing past s with
  | nil => rfl
  | cons e evs ih =>
    obtain ⟨hpast, -, hbefore⟩ := List.pairwise_append.mp hevs
    have hle : ∀ p ∈ past, p.now.toNat ≤ e.now.toNat := fun p hp =>
      hbefore p hp e List.mem_cons_self
    obtain ⟨detected, s', hfeed, hnext, hreported⟩ := h.step hrules hpast hle
    have hrest := ih hnext (by rwa [List.append_assoc, List.singleton_append])
    obtain ⟨rest, hrun, hmap⟩ := Option.map_eq_some_iff.mp hrest
    rw [DetectorState.feedAll, hfeed]
    simp only [Option.bind_eq_bind, Option.bind_some, hrun, Option.map_some, List.map_cons,
      hreported, hmap]
    rfl

theorem alongPast_eq_iff {α : Type} {f g : List DetectorEvent → DetectorEvent → α}
    {past evs : List DetectorEvent} : alongPast f past evs = alongPast g past evs ↔
      ∀ front e rest, evs = front ++ e :: rest → f (past ++ front) e = g (past ++ front) e := by
  induction evs generalizing past with
  | nil => simp [alongPast]
  | cons e evs ih =>
    rw [alongPast, alongPast, List.cons.injEq, ih]
    constructor
    · rintro ⟨hfirst, hrest⟩ front e' rest heq
      cases front with
      | nil =>
        obtain ⟨rfl, -⟩ := List.cons.inj heq
        rw [List.append_nil]
        exact hfirst
      | cons e₀ front =>
        obtain ⟨rfl, rfl⟩ := List.cons.inj heq
        have hlater := hrest front e' rest rfl
        rwa [List.append_assoc, List.singleton_append] at hlater
    · intro hall
      have hfirst := hall [] e evs rfl
      rw [List.append_nil] at hfirst
      refine ⟨hfirst, ?_⟩
      rintro front e' rest rfl
      have hlater := hall (e :: front) e' rest rfl
      rwa [List.append_assoc, List.singleton_append]

theorem counted_eq_due_iff : counted rateRules patternRules past e =
    due rateRules patternRules past e ↔ ∀ r ∈ rateRules, r.Exceeded past e →
      r.maxCount.toNat < r.windowCount past e % 2 ^ 32 := by
  unfold counted due
  rw [Prod.mk.injEq, and_iff_left rfl, List.map_inj_left]
  refine forall₂_congr fun r _ => ?_
  rw [decide_eq_decide, RateRuleConfig.Exceeded]
  have hmod := Nat.mod_le (r.windowCount past e) (2 ^ 32)
  constructor
  · exact fun h hdue => (h.mpr hdue).2
  · exact fun h => ⟨fun hnow => ⟨hnow.1, by omega⟩, fun hdue => ⟨hdue.1, h hdue⟩⟩

end

/-- With fewer than 2^32 events no rule is hidden. -/
theorem countsFit_of_lt (rateRules : List RateRuleConfig) {evs : List DetectorEvent}
    (hlen : evs.length < 2 ^ 32) : CountsFit rateRules evs := by
  rintro past e rest rfl r - hdue
  have hcount : r.windowCount past e ≤ (past ++ [e]).length :=
    (List.length_filter_le _ _).trans (List.length_filter_le _ _)
  simp only [List.length_append, List.length_cons, List.length_nil] at hcount hlen
  rw [Nat.mod_eq_of_lt (by omega)]
  exact hdue.2

theorem windowCount_replicate (r : RateRuleConfig) (n : ℕ) (e : DetectorEvent) :
    r.windowCount (List.replicate n e) e = n + 1 := by
  have hall : ∀ x ∈ List.replicate (n + 1) e, x = e := fun x hx => List.eq_of_mem_replicate hx
  unfold RateRuleConfig.windowCount lately
  rw [← List.replicate_succ', List.filter_eq_self.mpr, List.filter_eq_self.mpr,
    List.length_replicate]
  · intro x hx
    rw [hall x hx]
    exact decide_eq_true (Nat.sub_le _ _)
  · intro x hx
    exact decide_eq_true (congrArg DetectorEvent.eventType (hall x (List.mem_of_mem_filter hx)))

/-- Of exceptions at one time the last is reported only if the count in 32 bits is too high. -/
theorem lt_mod_of_exact {n : ℕ} (hmany : 2 < n + 1)
    (h : DetectionExact [exceptionRule] [] (List.replicate (n + 1) ⟨.exception, [], 0⟩)) :
    2 < (n + 1) % 2 ^ 32 := by
  have hevs : Ordered ([] ++ List.replicate (n + 1) ⟨.exception, [], 0⟩) :=
    List.pairwise_replicate.mpr (Or.inr (Nat.le_refl _))
  rw [DetectionExact, (detectorFollows_new [exceptionRule] []).run nofun hevs,
    Option.some.injEq, alongPast_eq_iff] at h
  have hlast := counted_eq_due_iff.mp (h _ _ [] List.replicate_succ') exceptionRule
    (List.mem_singleton_self _)
  rw [RateRuleConfig.Exceeded, List.nil_append, windowCount_replicate] at hlast
  exact hlast ⟨rfl, hmany⟩

end VernisOS
