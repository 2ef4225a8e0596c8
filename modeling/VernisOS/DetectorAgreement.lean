import Mathlib.Data.List.Forall2
import VernisOS.AnomalyDetectors
import VernisOS.Lib.Window

/-!
# The detectors of the kernel against those in Python

The pattern detectors agree at every event. The kernel has a window for each rate rule, while
in Python all the rules for an event type trim one deque, and the kernel counts in 32 bits. The
rate detectors agree exactly if neither shows : whenever a rule has too many events in its
window, too many of them are in the deque exactly if the count in 32 bits is too high as well
(`detectors_agree`).
-/

open Window

namespace VernisOS

theorem asStr_injective : Function.Injective EventType.asStr := by
  intro a b h
  rw [← EventType.fromStr_asStr a, h, EventType.fromStr_asStr]

/-! ## Patterns -/

/-- An entry of the kernel's history and one of Python's for the same event. -/
def SameEntry (a : UInt64 × EventType) (b : ℤ × String × List UInt8) : Prop :=
  b.1 = a.1.toNat ∧ b.2.1 = a.2.asStr

/-- Both keep the same at most 64 events. -/
structure SameHistory (entries : PatternHistory) (history : List (ℤ × String × List UInt8)) :
    Prop where
  same : List.Forall₂ SameEntry entries history
  length_le : entries.length ≤ 64

theorem SameHistory.push {entries : PatternHistory} {history : List (ℤ × String × List UInt8)}
    (h : SameHistory entries history) (e : DetectorEvent) :
    SameHistory (entries.push e.now e.eventType)
      (PyPatternDetector.appendMaxlen 64 history (e.now.toNat, e.eventType.asStr, e.data)) := by
  have hlen := h.same.length_eq
  have hle := h.length_le
  have hlast : List.Forall₂ SameEntry [(e.now, e.eventType)]
      [((e.now.toNat : ℤ), e.eventType.asStr, e.data)] :=
    .cons ⟨rfl, rfl⟩ .nil
  unfold PatternHistory.push PyPatternDetector.appendMaxlen
  split_ifs with hfull
  · have hone : (history ++ [((e.now.toNat : ℤ), e.eventType.asStr, e.data)]).length - 64 = 1 := by
      simp only [List.length_append, List.length_singleton]
      omega
    rw [hone, List.drop_append_of_le_length (by omega), List.drop_one]
    refine ⟨List.rel_append ?_ hlast, ?_⟩
    · have hdrop := List.forall₂_drop 1 h.same
      rwa [List.drop_one, List.drop_one] at hdrop
    · simp only [List.length_append, List.length_tail, List.length_singleton]
      omega
  · have hnone : (history ++ [((e.now.toNat : ℤ), e.eventType.asStr, e.data)]).length - 64 = 0 := by
      simp only [List.length_append, List.length_singleton]
      omega
    rw [hnone, List.drop_zero]
    refine ⟨List.rel_append h.same hlast, ?_⟩
    simp only [List.length_append, List.length_singleton]
    omega

/-- Both loops match the rest of a sequence in the same way. -/
theorem matchesFrom_eq {seq : List EventType} {cutoff : UInt64} {bound : ℤ}
    (hbound : ∀ tick : UInt64, bound ≤ tick.toNat ↔ ¬ tick < cutoff)
    {entries : PatternHistory} {history : List (ℤ × String × List UInt8)}
    (h : List.Forall₂ SameEntry entries history) {seqIdx : ℕ} (hidx : seqIdx < seq.length) :
    PatternHistory.matchesFrom seq cutoff entries seqIdx =
      some (PyPatternDetector.checkLoop ((seq.drop seqIdx).map EventType.asStr)
        (history.filter fun entry => entry.1 ≥ bound)) := by
  induction h generalizing seqIdx with
  | nil =>
    rw [List.drop_eq_getElem_cons hidx]
    rfl
  | @cons a b entries history hab _ ih =>
    obtain ⟨tick, evt⟩ := a
    obtain ⟨t, ev, data⟩ := b
    obtain ⟨rfl, rfl⟩ := hab
    rw [PatternHistory.matchesFrom]
    by_cases hold : tick < cutoff
    · have hout : ¬ bound ≤ tick.toNat := fun hle => (hbound tick).mp hle hold
      rw [if_pos hold, ih hidx, List.filter_cons_of_neg (by simpa using hout)]
    · have hin : bound ≤ tick.toNat := (hbound tick).mpr hold
      rw [if_neg hold, List.filter_cons_of_pos (by simpa using hin),
        List.getElem?_eq_getElem hidx]
      dsimp only
      rw [List.drop_eq_getElem_cons hidx, List.map_cons, PyPatternDetector.checkLoop]
      by_cases heq : evt = seq[seqIdx]
      · rw [if_pos heq, if_pos (congrArg EventType.asStr heq)]
        by_cases hdone : seqIdx + 1 ≥ seq.length
        · rw [if_pos hdone, if_pos (by simp [List.drop_eq_nil_of_le hdone])]
        · rw [if_neg hdone, if_neg (by simpa using hdone), ih (not_le.mp hdone)]
      · rw [if_neg heq, if_neg fun hev => heq (asStr_injective hev), ih hidx,
          List.drop_eq_getElem_cons hidx, List.map_cons]

theorem isSome_checkPattern (rule : PyPatternRule) (now : ℤ)
    (history : List (ℤ × String × List UInt8)) :
    (PyPatternDetector.checkPattern rule now history).isSome =
      PyPatternDetector.checkLoop rule.sequence
        (history.filter fun entry => entry.1 ≥ now - rule.windowSec) := by
  unfold PyPatternDetector.checkPattern
  dsimp only
  split_ifs with hfound
  · exact hfound.symm
  · exact (Bool.eq_false_iff.mpr hfound).symm

theorem isSome_detect {r : PatternRuleConfig} {entries : PatternHistory} {found : Bool}
    {rname : String} {now : UInt64} (hfound : entries.matches r now = some found)
    (hrname : r.title = some rname) (eventType : EventType) (data : List UInt8) :
    ∃ a, r.detect entries eventType data now = some a ∧ a.isSome = found := by
  unfold PatternRuleConfig.detect
  rw [hfound, hrname]
  cases found
  · exact ⟨none, rfl, rfl⟩
  · exact ⟨some _, rfl, rfl⟩

/-- What the arrays and lengths of a pattern rule guarantee. -/
structure PatternRuleConfig.WellFormed (r : PatternRuleConfig) : Prop where
  name : r.nameLen.toNat ≤ r.name.length
  sequence : r.seqLen.toNat ≤ r.sequence.length
  nonempty : 0 < r.seqLen.toNat

/-- A pattern rule is detected on both sides or on neither. -/
theorem detect_pattern {r : PatternRuleConfig} (hr : r.WellFormed) {entries : PatternHistory}
    {history : List (ℤ × String × List UInt8)} (h : SameHistory entries history)
    (e : DetectorEvent) :
    ∃ found, r.detect entries e.eventType e.data e.now = some found ∧
      found.isSome =
        (PyPatternDetector.checkPattern r.toPy (e.now.toNat : ℤ) history).isSome := by
  have hlen : 0 < r.sequenceSlice.length := by
    have := hr.sequence
    have := hr.nonempty
    simp only [PatternRuleConfig.sequenceSlice, List.length_take]
    omega
  have hbound : ∀ tick : UInt64, (e.now.toNat : ℤ) - (r.windowTicks.toNat : ℤ) ≤ tick.toNat ↔
      ¬ tick < saturatingSub e.now r.windowTicks := by
    intro tick
    rw [UInt64.lt_iff_toNat_lt, toNat_saturatingSub]
    omega
  have hmatch := matchesFrom_eq hbound h.same hlen
  rw [List.drop_zero] at hmatch
  have hmatches : entries.matches r e.now = some (PyPatternDetector.checkLoop
      (r.sequenceSlice.map EventType.asStr)
      (history.filter fun entry => entry.1 ≥ (e.now.toNat : ℤ) - (r.windowTicks.toNat : ℤ))) := by
    rw [PatternHistory.matches, if_neg (not_lt.mpr hr.sequence), hmatch]
  have htitle : ∃ rname, r.title = some rname := by
    rw [PatternRuleConfig.title, if_neg (not_lt.mpr hr.name)]
    exact ⟨_, rfl⟩
  obtain ⟨rname, hrname⟩ := htitle
  rw [isSome_checkPattern]
  exact isSome_detect hmatches hrname e.eventType e.data

/-! ## Rates -/

/-- At the time of `p` the event `x` is in the window of the rule. -/
def RateRuleConfig.Keeps (r : RateRuleConfig) (p x : DetectorEvent) : Prop :=
  p.now.toNat ≤ x.now.toNat + r.windowTicks.toNat

instance (r : RateRuleConfig) (p x : DetectorEvent) : Decidable (r.Keeps p x) :=
  inferInstanceAs (Decidable (_ ≤ _))

/-- The events of a type. -/
def eventsOf (t : EventType) (evs : List DetectorEvent) : List DetectorEvent :=
  evs.filter fun x => x.eventType = t

/-- The events with the type of `e` in the window of the rule at `e`, which comes after `past`. -/
def inWindow (past : List DetectorEvent) (e : DetectorEvent) (r : RateRuleConfig) :
    List DetectorEvent :=
  (eventsOf e.eventType (past ++ [e])).filter fun x => r.Keeps e x

/-- The events of a type that every rule for it had in its window at every event of the type. -/
def untrimmed (rules : List RateRuleConfig) (past : List DetectorEvent) (t : EventType) :
    List DetectorEvent :=
  (eventsOf t past).filter fun x =>
    ∀ p ∈ past, p.eventType = t → ∀ r ∈ rules, r.eventType = t → r.Keeps p x

/-- Of `base`, the events in the windows of these rules at `e`. -/
def inWindows (base : List DetectorEvent) (e : DetectorEvent) (rules : List RateRuleConfig) :
    List DetectorEvent :=
  base.filter fun x => ∀ r ∈ rules, r.eventType = e.eventType → r.Keeps e x

/-- At `e`, where a rule has too many events in its window, too many of them were in the window
of every other rule whenever those were trimmed before, exactly if their number in 32 bits is
too high. -/
def TrimsHarmless (rules : List RateRuleConfig) (past : List DetectorEvent) (e : DetectorEvent) :
    Prop :=
  ∀ before r behind, rules = before ++ r :: behind → r.eventType = e.eventType →
    r.maxCount.toNat < (inWindow past e r).length →
    (r.maxCount.toNat <
        (inWindows (untrimmed rules past e.eventType ++ [e]) e (before ++ [r])).length ↔
      r.maxCount.toNat < (inWindow past e r).length % 2 ^ 32)

/-- The events come in the order of their times. -/
def Ordered (evs : List DetectorEvent) : Prop :=
  InOrder (fun e => e.now.toNat) evs

section
variable {past : List DetectorEvent} {e : DetectorEvent} {r : RateRuleConfig}
  {w : RateWindow} {rules : List RateRuleConfig}

theorem eventsOf_append_self : eventsOf e.eventType (past ++ [e]) =
    eventsOf e.eventType past ++ [e] := by
  simp [eventsOf, List.filter_append]

theorem eventsOf_append_of_ne {t : EventType} (h : e.eventType ≠ t) :
    eventsOf t (past ++ [e]) = eventsOf t past := by
  simp [eventsOf, List.filter_append, h]

/-! ### The kernel's windows -/

/-- The window of a rule holds the events that it kept at every event of its type. -/
structure WindowOf (past : List DetectorEvent) (r : RateRuleConfig) (w : RateWindow) : Prop where
  eventType : w.eventType = r.eventType
  maxCount : w.maxCount = r.maxCount
  windowTicks : w.windowTicks = r.windowTicks
  timestamps : w.timestamps = ((eventsOf r.eventType past).filter fun x =>
    ∀ p ∈ eventsOf r.eventType past, r.Keeps p x).map DetectorEvent.now

/-- What `e` leaves in a window : the events in it at `e`. -/
theorem inWindow_eq (hle : ∀ p ∈ past, p.now.toNat ≤ e.now.toNat)
    (htype : r.eventType = e.eventType) :
    (((eventsOf r.eventType past).filter fun x =>
        ∀ p ∈ eventsOf r.eventType past, r.Keeps p x) ++ [e]).filter (fun x => r.Keeps e x) =
      inWindow past e r ∧
    ((eventsOf r.eventType (past ++ [e])).filter fun x =>
        ∀ p ∈ eventsOf r.eventType (past ++ [e]), r.Keeps p x) = inWindow past e r := by
  have hlater : ∀ p ∈ past, ∀ x, r.Keeps e x → r.Keeps p x := fun p hp x hx =>
    (hle p hp).trans hx
  rw [inWindow, htype, eventsOf_append_self]
  constructor
  · rw [List.filter_append, List.filter_append, List.filter_filter]
    congr 1
    refine List.filter_congr fun x _ => ?_
    rw [← Bool.decide_and, decide_eq_decide]
    exact and_iff_left_of_imp fun hx p hp => hlater p (List.mem_of_mem_filter hp) x hx
  · refine List.filter_congr fun x _ => decide_eq_decide.mpr ⟨?_, ?_⟩
    · exact fun h => h e (List.mem_append_right _ (List.mem_singleton_self e))
    · intro hx p hp
      rcases List.mem_append.mp hp with hp | hp
      · exact hlater p (List.mem_of_mem_filter hp) x hx
      · rw [List.mem_singleton.mp hp]
        exact hx

/-- One event at one window. -/
theorem detect_window (h : WindowOf past r w) (hpast : Ordered past)
    (hle : ∀ p ∈ past, p.now.toNat ≤ e.now.toNat) :
    ((w.detect e.eventType e.data e.now).1.isSome =
      decide (r.eventType = e.eventType ∧
        r.maxCount.toNat < (inWindow past e r).length % 2 ^ 32)) ∧
    WindowOf (past ++ [e]) r (w.detect e.eventType e.data e.now).2 := by
  unfold RateWindow.detect
  rw [h.eventType]
  by_cases htype : r.eventType = e.eventType
  · obtain ⟨hkept, hall⟩ := inWindow_eq hle htype
    have hordered : Ordered (((eventsOf r.eventType past).filter fun x =>
        ∀ p ∈ eventsOf r.eventType past, r.Keeps p x) ++ [e]) := by
      refine InOrder.append ((hpast.filter _).filter _) fun b hb => ?_
      exact hle b (List.mem_of_mem_filter (List.mem_of_mem_filter hb))
    have hfeed : (w.timestamps ++ [e.now]).dropWhile
        (fun front => front < saturatingSub e.now w.windowTicks) =
          (inWindow past e r).map DetectorEvent.now := by
      have hback : [e.now] = [e].map DetectorEvent.now := rfl
      rw [h.timestamps, hback, ← List.map_append, List.dropWhile_map, h.windowTicks]
      rw [dropWhile_eq_filter hordered (e.now.toNat - r.windowTicks.toNat), ← hkept]
      · refine congrArg _ (List.filter_congr fun x _ => decide_eq_decide.mpr ?_)
        exact Nat.sub_le_iff_le_add
      · intro x
        rw [Function.comp, decide_eq_true_eq, UInt64.lt_iff_toNat_lt, toNat_saturatingSub]
    rw [if_pos htype, RateWindow.feed]
    dsimp only
    rw [hfeed]
    have hnext : WindowOf (past ++ [e]) r
        { w with timestamps := (inWindow past e r).map DetectorEvent.now } :=
      ⟨h.eventType, h.maxCount, h.windowTicks, by rw [hall]⟩
    have hcount : w.maxCount < UInt32.ofNat ((inWindow past e r).map DetectorEvent.now).length ↔
        r.maxCount.toNat < (inWindow past e r).length % 2 ^ 32 := by
      rw [h.maxCount, UInt32.lt_iff_toNat_lt, List.length_map, UInt32.toNat_ofNat']
    by_cases hmore : r.maxCount.toNat < (inWindow past e r).length % 2 ^ 32
    · rw [if_pos (decide_eq_true (hcount.mpr hmore))]
      exact ⟨(decide_eq_true ⟨htype, hmore⟩).symm, hnext⟩
    · rw [if_neg (by simpa using mt hcount.mp hmore)]
      exact ⟨(decide_eq_false fun hand => hmore hand.2).symm, hnext⟩
  · rw [if_neg htype]
    refine ⟨(decide_eq_false fun hand => htype hand.1).symm, ?_⟩
    refine ⟨h.eventType, h.maxCount, h.windowTicks, ?_⟩
    rw [eventsOf_append_of_ne (Ne.symm htype)]
    exact h.timestamps

/-! ### The deques in Python -/

/-- An event in a deque. -/
def DetectorEvent.entry (x : DetectorEvent) : ℤ × List UInt8 :=
  (x.now.toNat, x.data)

/-- For which of the rules after `before` there are too many events left, when all the rules
trim `base` in turn. -/
def reportsFrom (base : List DetectorEvent) (e : DetectorEvent) :
    List RateRuleConfig → List RateRuleConfig → List Bool
  | _, [] => []
  | before, r :: rest =>
    decide (r.eventType = e.eventType ∧
      r.maxCount.toNat < (inWindows base e (before ++ [r])).length) ::
        reportsFrom base e (before ++ [r]) rest

theorem inWindows_append_of_ne {base : List DetectorEvent} {before : List RateRuleConfig}
    (h : r.eventType ≠ e.eventType) :
    inWindows base e (before ++ [r]) = inWindows base e before := by
  refine List.filter_congr fun x _ => decide_eq_decide.mpr ⟨?_, ?_⟩
  · exact fun hall r' hr' => hall r' (List.mem_append_left _ hr')
  · intro hall r' hr' htype
    rcases List.mem_append.mp hr' with hr' | hr'
    · exact hall r' hr' htype
    · exact absurd (List.mem_singleton.mp hr' ▸ htype) h

theorem inWindows_append {base : List DetectorEvent} {before : List RateRuleConfig}
    (h : r.eventType = e.eventType) :
    inWindows base e (before ++ [r]) =
      (inWindows base e before).filter fun x => r.Keeps e x := by
  rw [inWindows, inWindows, List.filter_filter]
  refine List.filter_congr fun x _ => ?_
  rw [← Bool.decide_and, decide_eq_decide]
  constructor
  · exact fun hall => ⟨hall r (List.mem_append_right _ (List.mem_singleton_self r)) h,
      fun r' hr' => hall r' (List.mem_append_left _ hr')⟩
  · rintro ⟨hlast, hall⟩ r' hr' htype
    rcases List.mem_append.mp hr' with hr' | hr'
    · exact hall r' hr' htype
    · rw [List.mem_singleton.mp hr']
      exact hlast

/-- The loop over the rules. -/
theorem feedRules_eq {base : List DetectorEvent} (hbase : Ordered base)
    (before rest : List RateRuleConfig) :
    (PyRateDetector.feedRules e.eventType.asStr e.now.toNat (rest.map RateRuleConfig.toPy)
        ((inWindows base e before).map DetectorEvent.entry)).1.map Option.isSome =
      reportsFrom base e before rest ∧
    (PyRateDetector.feedRules e.eventType.asStr e.now.toNat (rest.map RateRuleConfig.toPy)
        ((inWindows base e before).map DetectorEvent.entry)).2 =
      (inWindows base e (before ++ rest)).map DetectorEvent.entry := by
  induction rest generalizing before with
  | nil =>
    rw [List.append_nil]
    exact ⟨rfl, rfl⟩
  | cons r rest ih =>
    obtain ⟨hreports, hdeque⟩ := ih (before ++ [r])
    rw [List.append_assoc, List.singleton_append] at hdeque
    rw [List.map_cons, PyRateDetector.feedRules, reportsFrom]
    by_cases htype : r.eventType = e.eventType
    · have hordered : Ordered (inWindows base e before) := hbase.filter _
      have htrim : ((inWindows base e before).map DetectorEvent.entry).dropWhile
          (fun entry => entry.1 < (e.now.toNat : ℤ) - r.toPy.windowSec) =
            (inWindows base e (before ++ [r])).map DetectorEvent.entry := by
        rw [inWindows_append htype, List.dropWhile_map,
          dropWhile_eq_filter hordered (e.now.toNat - r.windowTicks.toNat)]
        · refine congrArg _ (List.filter_congr fun x _ => decide_eq_decide.mpr ?_)
          exact Nat.sub_le_iff_le_add
        · intro x
          rw [Function.comp, decide_eq_true_eq]
          simp only [DetectorEvent.entry, RateRuleConfig.toPy]
          omega
      have hcount : (((inWindows base e (before ++ [r])).map DetectorEvent.entry).length : ℤ) >
          r.toPy.maxCount ↔ r.maxCount.toNat < (inWindows base e (before ++ [r])).length := by
        rw [List.length_map]
        exact Int.ofNat_lt
      have hstr : ¬ r.toPy.eventType ≠ e.eventType.asStr :=
        not_not.mpr (congrArg EventType.asStr htype)
      rw [if_neg hstr]
      dsimp only
      rw [htrim]
      refine ⟨?_, hdeque⟩
      rw [List.map_cons, hreports]
      congr 1
      by_cases hmore : r.maxCount.toNat < (inWindows base e (before ++ [r])).length
      · rw [if_pos (hcount.mpr hmore)]
        exact (decide_eq_true ⟨htype, hmore⟩).symm
      · rw [if_neg (mt hcount.mp hmore)]
        exact (decide_eq_false fun hand => hmore hand.2).symm
    · have hstr : r.toPy.eventType ≠ e.eventType.asStr := fun h => htype (asStr_injective h)
      rw [if_pos hstr]
      dsimp only
      rw [inWindows_append_of_ne htype] at hreports hdeque ⊢
      refine ⟨?_, hdeque⟩
      rw [List.map_cons, hreports]
      congr 1
      exact (decide_eq_false fun hand => htype hand.1).symm

/-- What the rules leave of a deque at `e` is what it holds at the next event of the type. -/
theorem untrimmed_append_self (hle : ∀ p ∈ past, p.now.toNat ≤ e.now.toNat) :
    untrimmed rules (past ++ [e]) e.eventType =
      inWindows (untrimmed rules past e.eventType ++ [e]) e rules := by
  have hearlier : ∀ p ∈ past, ∀ r ∈ rules, r.Keeps p e := fun p hp r _ =>
    (hle p hp).trans (Nat.le_add_right _ _)
  have hsplit : ∀ x, (∀ p ∈ past ++ [e], p.eventType = e.eventType → ∀ r ∈ rules,
      r.eventType = e.eventType → r.Keeps p x) ↔
      (∀ r ∈ rules, r.eventType = e.eventType → r.Keeps e x) ∧
        ∀ p ∈ past, p.eventType = e.eventType → ∀ r ∈ rules, r.eventType = e.eventType →
          r.Keeps p x := by
    intro x
    constructor
    · exact fun hall => ⟨hall e (List.mem_append_right _ (List.mem_singleton_self e)) rfl,
        fun p hp => hall p (List.mem_append_left _ hp)⟩
    · rintro ⟨hnow, hall⟩ p hp
      rcases List.mem_append.mp hp with hp | hp
      · exact hall p hp
      · rw [List.mem_singleton.mp hp]
        exact fun _ => hnow
  rw [untrimmed, eventsOf_append_self, inWindows, untrimmed, List.filter_append,
    List.filter_append, List.filter_filter]
  congr 1
  · refine List.filter_congr fun x _ => ?_
    rw [← Bool.decide_and, decide_eq_decide]
    exact hsplit x
  · refine List.filter_congr fun x hx => decide_eq_decide.mpr ?_
    rw [hsplit, List.mem_singleton.mp hx]
    exact and_iff_left fun p hp _ r hr _ => hearlier p hp r hr

theorem untrimmed_append_of_ne {t : EventType} (h : e.eventType ≠ t) :
    untrimmed rules (past ++ [e]) t = untrimmed rules past t := by
  rw [untrimmed, eventsOf_append_of_ne h]
  refine List.filter_congr fun x _ => decide_eq_decide.mpr ⟨?_, ?_⟩
  · exact fun hall p hp => hall p (List.mem_append_left _ hp)
  · intro hall p hp htype
    rcases List.mem_append.mp hp with hp | hp
    · exact hall p hp htype
    · exact absurd (List.mem_singleton.mp hp ▸ htype) h

/-- The deque of each type of a rule. -/
def DequesOf (rules : List RateRuleConfig) (past : List DetectorEvent) (d : PyRateDetector) :
    Prop :=
  d.rules = rules.map RateRuleConfig.toPy ∧ ∀ t : EventType, d.windows t.asStr =
    if ∃ r ∈ rules, r.eventType = t then
      some ((untrimmed rules past t).map DetectorEvent.entry) else none

/-- Without a rule for the type nothing is reported. -/
theorem reportsFrom_of_not_mem {base : List DetectorEvent} (before : List RateRuleConfig)
    (h : ¬ ∃ r ∈ rules, r.eventType = e.eventType) :
    reportsFrom base e before rules = rules.map fun _ => false := by
  induction rules generalizing before with
  | nil => rfl
  | cons r rules ih =>
    rw [reportsFrom, List.map_cons, ih (before ++ [r]) fun ⟨r', hr', htype⟩ =>
      h ⟨r', List.mem_cons_of_mem r hr', htype⟩]
    congr 1
    exact decide_eq_false fun hand => h ⟨r, List.mem_cons_self, hand.1⟩

/-- One event at the deques. -/
theorem feed_deques {d : PyRateDetector} (h : DequesOf rules past d) (hpast : Ordered past)
    (hle : ∀ p ∈ past, p.now.toNat ≤ e.now.toNat) :
    (d.feed e.eventType.asStr e.data e.now.toNat).1.map Option.isSome =
      reportsFrom (untrimmed rules past e.eventType ++ [e]) e [] rules ∧
    DequesOf rules (past ++ [e]) (d.feed e.eventType.asStr e.data e.now.toNat).2 := by
  obtain ⟨hrules, hdeques⟩ := h
  unfold PyRateDetector.feed
  by_cases hany : ∃ r ∈ rules, r.eventType = e.eventType
  · rw [hdeques e.eventType, if_pos hany]
    dsimp only
    have hordered : Ordered (untrimmed rules past e.eventType ++ [e]) := by
      refine InOrder.append ((hpast.filter _).filter _) fun b hb => ?_
      exact hle b (List.mem_of_mem_filter (List.mem_of_mem_filter hb))
    have hbase : inWindows (untrimmed rules past e.eventType ++ [e]) e [] =
        untrimmed rules past e.eventType ++ [e] :=
      List.filter_eq_self.mpr fun x _ => decide_eq_true fun r hr => absurd hr List.not_mem_nil
    obtain ⟨hreports, hdeque⟩ := feedRules_eq hordered [] rules
    rw [hbase, List.map_append, List.map_singleton] at hreports hdeque
    rw [hrules]
    refine ⟨hreports, rfl, fun t => ?_⟩
    dsimp only
    by_cases htype : e.eventType = t
    · subst htype
      rw [Function.update_self, if_pos hany, untrimmed_append_self hle]
      exact congrArg some hdeque
    · rw [Function.update_of_ne fun hstr => htype (asStr_injective hstr).symm,
        untrimmed_append_of_ne htype]
      exact hdeques t
  · rw [hdeques e.eventType, if_neg hany]
    dsimp only
    rw [reportsFrom_of_not_mem [] hany, hrules]
    refine ⟨by rw [List.map_map, List.map_map]; rfl, hrules, fun t => ?_⟩
    rw [hdeques t]
    by_cases htype : e.eventType = t
    · subst htype
      rw [if_neg hany, if_neg hany]
    · rw [untrimmed_append_of_ne htype]

/-! ### Both sides -/

/-- The reports of the kernel are those of Python exactly if each of them agrees. -/
theorem map_eq_reportsFrom_iff {base : List DetectorEvent} {f : RateRuleConfig → Bool}
    (before : List RateRuleConfig) :
    rules.map f = reportsFrom base e before rules ↔
      ∀ front r behind, rules = front ++ r :: behind →
        f r = decide (r.eventType = e.eventType ∧
          r.maxCount.toNat < (inWindows base e (before ++ front ++ [r])).length) := by
  induction rules generalizing before with
  | nil => simp [reportsFrom]
  | cons r rules ih =>
    rw [List.map_cons, reportsFrom, List.cons.injEq, ih (before ++ [r])]
    constructor
    · rintro ⟨hfirst, hrest⟩ front r' behind heq
      cases front with
      | nil =>
        obtain ⟨rfl, rfl⟩ := List.cons.inj heq
        rw [List.append_nil]
        exact hfirst
      | cons r₀ front =>
        obtain ⟨rfl, rfl⟩ := List.cons.inj heq
        have hlater := hrest front r' behind rfl
        rwa [List.append_assoc before [r] front] at hlater
    · intro hall
      constructor
      · have hfirst := hall [] r rules rfl
        rwa [List.append_nil] at hfirst
      · rintro front r' behind rfl
        have hlater := hall (r :: front) r' behind rfl
        rwa [List.append_assoc before [r] front]

theorem length_inWindows_le (rules before : List RateRuleConfig) (past : List DetectorEvent)
    (h : r.eventType = e.eventType) :
    (inWindows (untrimmed rules past e.eventType ++ [e]) e (before ++ [r])).length ≤
      (inWindow past e r).length := by
  rw [inWindows_append h, inWindow, eventsOf_append_self]
  refine List.Sublist.length_le (List.Sublist.filter _ ?_)
  exact List.filter_sublist.trans (List.filter_sublist.append_right [e])

/-- The two sides report the same rules at `e` exactly if the trims of the deques are
harmless. -/
theorem reports_eq_iff :
    (rules.map fun r => decide (r.eventType = e.eventType ∧
        r.maxCount.toNat < (inWindow past e r).length % 2 ^ 32)) =
      reportsFrom (untrimmed rules past e.eventType ++ [e]) e [] rules ↔
    TrimsHarmless rules past e := by
  rw [map_eq_reportsFrom_iff]
  refine forall_congr' fun front => forall_congr' fun r => forall_congr' fun behind =>
    forall_congr' fun _ => ?_
  rw [List.nil_append, decide_eq_decide]
  constructor
  · intro h htype _
    have hand := h
    simp only [htype, true_and] at hand
    exact hand.symm
  · intro h
    refine and_congr_right fun htype => ?_
    have hle := length_inWindows_le rules front past htype
    have hmod := Nat.mod_le (inWindow past e r).length (2 ^ 32)
    by_cases hmore : r.maxCount.toNat < (inWindow past e r).length
    · exact (h htype hmore).symm
    · constructor <;> intro hlt <;> omega

/-- Both sides after the same events. -/
structure Track (rateRules : List RateRuleConfig) (patternRules : List PatternRuleConfig)
    (past : List DetectorEvent) (s : DetectorState) (d : PyDetectors) : Prop where
  windows : List.Forall₂ (WindowOf past) rateRules s.detector.rateWindows
  deques : DequesOf rateRules past d.rate
  configured : s.detector.patternRules = patternRules
  pyConfigured : d.pattern.rules = patternRules.map PatternRuleConfig.toPy
  history : SameHistory s.patternHistory d.pattern.history

theorem track_new (rateRules : List RateRuleConfig) (patternRules : List PatternRuleConfig) :
    Track rateRules patternRules [] (DetectorState.new rateRules patternRules)
      (PyDetectors.init (rateRules.map RateRuleConfig.toPy)
        (patternRules.map PatternRuleConfig.toPy)) where
  windows := by
    refine List.forall₂_map_right_iff.mpr (List.forall₂_same.mpr fun r _ => ?_)
    exact ⟨rfl, rfl, rfl, rfl⟩
  deques := by
    refine ⟨rfl, fun t => ?_⟩
    have hany : (rateRules.map RateRuleConfig.toPy).any (·.eventType == t.asStr) = true ↔
        ∃ r ∈ rateRules, r.eventType = t := by
      simp only [List.any_map, List.any_eq_true, Function.comp_apply, beq_iff_eq]
      exact exists_congr fun r => and_congr_right fun _ => asStr_injective.eq_iff
    exact if_congr hany rfl rfl
  configured := rfl
  pyConfigured := rfl
  history := ⟨.nil, Nat.zero_le _⟩

/-- The rate windows at one event. -/
theorem detect_windows {windows : List RateWindow}
    (h : List.Forall₂ (WindowOf past) rules windows) (hpast : Ordered past)
    (hle : ∀ p ∈ past, p.now.toNat ≤ e.now.toNat) :
    ((windows.map fun w => w.detect e.eventType e.data e.now).map Prod.fst).map Option.isSome =
      (rules.map fun r => decide (r.eventType = e.eventType ∧
        r.maxCount.toNat < (inWindow past e r).length % 2 ^ 32)) ∧
    List.Forall₂ (WindowOf (past ++ [e])) rules
      ((windows.map fun w => w.detect e.eventType e.data e.now).map Prod.snd) := by
  induction h with
  | nil => exact ⟨rfl, .nil⟩
  | cons hw _ ih =>
    obtain ⟨hreport, hnext⟩ := detect_window hw hpast hle
    simp only [List.map_cons, hreport, ih.1]
    exact ⟨trivial, .cons hnext ih.2⟩

/-- The pattern rules at one event. -/
theorem detect_patterns {patternRules : List PatternRuleConfig}
    (hrules : ∀ r ∈ patternRules, r.WellFormed) {entries : PatternHistory}
    {history : List (ℤ × String × List UInt8)} (h : SameHistory entries history)
    (e : DetectorEvent) :
    ∃ found, (patternRules.mapM fun r => r.detect entries e.eventType e.data e.now) =
        some found ∧
      found.map Option.isSome = ((patternRules.map PatternRuleConfig.toPy).map fun rule =>
        PyPatternDetector.checkPattern rule (e.now.toNat : ℤ) history).map Option.isSome := by
  induction patternRules with
  | nil => exact ⟨[], rfl, rfl⟩
  | cons r patternRules ih =>
    obtain ⟨found, hfound, hsame⟩ := ih fun r' hr' => hrules r' (List.mem_cons_of_mem r hr')
    obtain ⟨first, hfirst, hfirstSame⟩ := detect_pattern (hrules r List.mem_cons_self) h e
    refine ⟨first :: found, ?_, ?_⟩
    · simp only [List.mapM_cons, hfirst, hfound, Option.bind_eq_bind, Option.bind_some,
        Option.pure_def]
    · simp only [List.map_cons, hfirstSame, hsame]

/-- One event on both sides. -/
theorem Track.step {rateRules : List RateRuleConfig} {patternRules : List PatternRuleConfig}
    {s : DetectorState} {d : PyDetectors} (h : Track rateRules patternRules past s d)
    (hrules : ∀ r ∈ patternRules, r.WellFormed) (hpast : Ordered past)
    (hle : ∀ p ∈ past, p.now.toNat ≤ e.now.toNat) :
    ∃ detected s', s.feedEvent e = some (detected, s') ∧
      Track rateRules patternRules (past ++ [e]) s'
        (d.feedEvent e.eventType.asStr e.data e.now.toNat).2 ∧
      (detected.reported = (d.feedEvent e.eventType.asStr e.data e.now.toNat).1.reported ↔
        TrimsHarmless rateRules past e) := by
  obtain ⟨hreports, hwindows⟩ := detect_windows h.windows hpast hle
  obtain ⟨hpyReports, hdeques⟩ := feed_deques h.deques hpast hle
  have hhistory := h.history.push e
  obtain ⟨found, hfound, hsame⟩ := detect_patterns hrules hhistory e
  have hfeed : s.feedEvent e = some
      (⟨(s.detector.rateWindows.map fun w => w.detect e.eventType e.data e.now).map Prod.fst, found⟩,
        { detector := { s.detector with
            rateWindows := (s.detector.rateWindows.map fun w =>
              w.detect e.eventType e.data e.now).map Prod.snd }
          patternHistory := s.patternHistory.push e.now e.eventType
          anomalyHistory := ((((s.detector.rateWindows.map fun w =>
            w.detect e.eventType e.data e.now).map Prod.fst) ++ found).reduceOption).foldl
              DetectorState.remember s.anomalyHistory }) := by
    unfold DetectorState.feedEvent
    dsimp only
    rw [h.configured, hfound]
    rfl
  refine ⟨_, _, hfeed, ⟨hwindows, hdeques, h.configured, h.pyConfigured, hhistory⟩, ?_⟩
  rw [← reports_eq_iff, ← hreports, ← hpyReports]
  unfold Detected.reported PyDetectors.feedEvent PyPatternDetector.feed
  dsimp only
  rw [h.pyConfigured, ← hsame, Prod.mk.injEq, and_iff_left rfl]

end

/-- The events of a run from which the deques are trimmed harmlessly. -/
def AllTrimsHarmless (rules : List RateRuleConfig) (evs : List DetectorEvent) : Prop :=
  ∀ past e rest, evs = past ++ e :: rest → TrimsHarmless rules past e

/-- From two states after the same events. -/
theorem Track.run {rateRules : List RateRuleConfig} {patternRules : List PatternRuleConfig}
    (hrules : ∀ r ∈ patternRules, r.WellFormed) {past evs : List DetectorEvent}
    {s : DetectorState} {d : PyDetectors} (h : Track rateRules patternRules past s d)
    (hevs : Ordered (past ++ evs)) :
    (s.feedAll evs).map (·.map Detected.reported) =
        some ((d.feedAll evs).map Detected.reported) ↔
      ∀ front e rest, evs = front ++ e :: rest → TrimsHarmless rateRules (past ++ front) e := by
  induction evs generalizing past s d with
  | nil => simp [DetectorState.feedAll, PyDetectors.feedAll]
  | cons e evs ih =>
    obtain ⟨hpast, -, hbefore⟩ := List.pairwise_append.mp hevs
    have hle : ∀ p ∈ past, p.now.toNat ≤ e.now.toNat := fun p hp =>
      hbefore p hp e List.mem_cons_self
    obtain ⟨detected, s', hfeed, htrack, hreported⟩ := h.step hrules hpast hle
    have hrest := ih htrack (by rwa [List.append_assoc, List.singleton_append])
    have hruns : (s.feedAll (e :: evs)).map (·.map Detected.reported) =
        ((s'.feedAll evs).map (·.map Detected.reported)).map (detected.reported :: ·) := by
      rw [DetectorState.feedAll, hfeed]
      simp only [Option.bind_eq_bind, Option.bind_some]
      cases s'.feedAll evs <;> rfl
    rw [hruns, PyDetectors.feedAll, List.map_cons, Option.map_eq_some_iff]
    constructor
    · rintro ⟨reports, hreports, hcons⟩ front e' rest heq
      obtain ⟨hfirst, rfl⟩ := List.cons.inj hcons
      cases front with
      | nil =>
        obtain ⟨rfl, rfl⟩ := List.cons.inj heq
        rw [List.append_nil]
        exact hreported.mp hfirst
      | cons e₀ front =>
        obtain ⟨rfl, rfl⟩ := List.cons.inj heq
        have hlater := hrest.mp hreports front e' rest rfl
        rwa [List.append_assoc, List.singleton_append] at hlater
    · intro hall
      have hfirst := hall [] e evs rfl
      rw [List.append_nil] at hfirst
      refine ⟨_, hrest.mpr ?_, congrArg (· :: _) (hreported.mpr hfirst)⟩
      rintro front e' rest rfl
      have hlater := hall (e :: front) e' rest rfl
      rwa [List.append_assoc, List.singleton_append]

/-- The two sides report the same rules at every event exactly if all trims are harmless. -/
theorem detectors_agree (rateRules : List RateRuleConfig)
    (patternRules : List PatternRuleConfig) (evs : List DetectorEvent)
    (hrules : ∀ r ∈ patternRules, r.WellFormed) (hevs : Ordered evs) :
    ((DetectorState.new rateRules patternRules).feedAll evs).map (·.map Detected.reported) =
        some (((PyDetectors.init (rateRules.map RateRuleConfig.toPy)
          (patternRules.map PatternRuleConfig.toPy)).feedAll evs).map Detected.reported) ↔
      AllTrimsHarmless rateRules evs :=
  (track_new rateRules patternRules).run hrules hevs

/-! ## Rules for one event type -/

/-- If no two rules for one event type have different windows, all trims are harmless, as long
as there are fewer than 2^32 events. -/
theorem allTrimsHarmless_of_same_windows {rules : List RateRuleConfig}
    {evs : List DetectorEvent} (hevs : Ordered evs) (hlen : evs.length < 2 ^ 32)
    (hsame : ∀ r ∈ rules, ∀ r' ∈ rules, r.eventType = r'.eventType →
      r.windowTicks = r'.windowTicks) : AllTrimsHarmless rules evs := by
  rintro past e rest rfl before r behind rfl htype _
  have hle : ∀ p ∈ past, p.now.toNat ≤ e.now.toNat := fun p hp =>
    (List.pairwise_append.mp hevs).2.2 p hp e List.mem_cons_self
  have hmem : r ∈ before ++ r :: behind := List.mem_append_right _ List.mem_cons_self
  have hkeeps : ∀ r' ∈ before ++ r :: behind, r'.eventType = e.eventType → ∀ p x,
      r.Keeps p x → r'.Keeps p x := by
    intro r' hr' htype' p x hx
    rwa [RateRuleConfig.Keeps, hsame r' hr' r hmem (htype'.trans htype.symm)]
  have hall : inWindows (untrimmed (before ++ r :: behind) past e.eventType ++ [e]) e
      (before ++ [r]) = inWindow past e r := by
    rw [inWindows_append htype, inWindows, untrimmed, inWindow, eventsOf_append_self,
      List.filter_filter, List.filter_append, List.filter_append, List.filter_filter]
    congr 1
    · refine List.filter_congr fun x _ => ?_
      rw [← Bool.decide_and, ← Bool.decide_and, decide_eq_decide]
      refine ⟨fun h => h.1.1, fun hx => ⟨⟨hx, fun r' hr' htype' => ?_⟩, ?_⟩⟩
      · exact hkeeps r' (List.mem_append_left _ hr') htype' e x hx
      · exact fun p hp _ r' hr' htype' => hkeeps r' hr' htype' p x ((hle p hp).trans hx)
    · refine List.filter_congr fun x hx => ?_
      rw [← Bool.decide_and, decide_eq_decide, List.mem_singleton.mp hx]
      exact and_iff_left fun r' hr' htype' => Nat.le_add_right _ _
  have hcount : (inWindow past e r).length < 2 ^ 32 := by
    have hwindow : (inWindow past e r).length ≤ (past ++ [e]).length :=
      (List.length_filter_le _ _).trans (List.length_filter_le _ _)
    simp only [List.length_append, List.length_cons, List.length_nil] at hwindow hlen
    omega
  rw [hall, Nat.mod_eq_of_lt hcount]

/-! ## Two windows for one event type -/

/-- More than two exceptions in ten seconds. -/
def exceptionRule : RateRuleConfig :=
  ⟨.exception, 2, 1000, .high⟩

/-- Three exceptions in a row. -/
def exceptionStorm : PatternRuleConfig where
  name := nameBuf 16 (Bytes.utf8 "storm")
  nameLen := 5
  sequence := [.exception, .exception, .exception, .unknown, .unknown]
  seqLen := 3
  windowTicks := 300
  severity := .critical

/-- Exceptions at these ticks. -/
def exceptionsAt (ticks : List UInt64) : List DetectorEvent :=
  ticks.map fun now => ⟨.exception, [], now⟩

theorem detectors_agree_storm :
    ((DetectorState.new [exceptionRule] [exceptionStorm]).feedAll (exceptionsAt [0, 1, 2])).map
        (·.map Detected.reported) =
      some (((PyDetectors.init ([exceptionRule].map RateRuleConfig.toPy)
        ([exceptionStorm].map PatternRuleConfig.toPy)).feedAll (exceptionsAt [0, 1, 2])).map
          Detected.reported) := by
  have hevs : Ordered (exceptionsAt [0, 1, 2]) := by
    unfold Ordered Window.InOrder
    decide
  refine (detectors_agree [exceptionRule] [exceptionStorm] (exceptionsAt [0, 1, 2]) ?_ hevs).mpr
    (allTrimsHarmless_of_same_windows hevs (by decide) ?_)
  · intro r hr
    rw [List.mem_singleton.mp hr]
    constructor <;> decide
  · intro r hr r' hr' _
    rw [List.mem_singleton.mp hr, List.mem_singleton.mp hr']

/-- Of three exceptions one second apart the kernel reports the third ; in Python the second
rule has dropped the first of them. -/
theorem not_detectors_agree : ¬ ∀ (rateRules : List RateRuleConfig)
    (patternRules : List PatternRuleConfig) (evs : List DetectorEvent),
    (∀ r ∈ patternRules, r.WellFormed) → Ordered evs →
    ((DetectorState.new rateRules patternRules).feedAll evs).map (·.map Detected.reported) =
      some (((PyDetectors.init (rateRules.map RateRuleConfig.toPy)
        (patternRules.map PatternRuleConfig.toPy)).feedAll evs).map Detected.reported) := by
  intro hall
  have h := hall [exceptionRule, ⟨.exception, 5, 10, .critical⟩] [] (exceptionsAt [0, 100, 200])
    (fun r hr => absurd hr List.not_mem_nil) (by unfold Ordered Window.InOrder; decide)
  revert h
  decide

end VernisOS
