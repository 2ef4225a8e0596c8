import VernisOS.AnomalyDetectors
import VernisOS.Lib.Cooldown

/-!
# Duplicate alerts

`ai/alert_dedup.rs`. An alert goes through unless one of the same detector and title went
through less than a window before. The collector forgets what went through two windows ago,
and computes the two windows in 64 bits : the alerts of a run are suppressed as they should be
exactly if it forgets none too early (`alerts_exact_iff`), which cannot happen with a window
below 2^63 (`remembers_of_lt`).
-/

open Cooldown

namespace VernisOS

/-! ## The deduplicator -/

/-- `DetectorKind::as_str`. -/
def DetectorKind.asStr : DetectorKind → String
  | rate => "rate"
  | pattern => "pattern"
  | threshold => "threshold"

/-- What tells alerts apart : detector and title. -/
abbrev AlertKey := DetectorKind × String

def Anomaly.alertKey (a : Anomaly) : AlertKey :=
  (a.detector, a.title)

/-- The text that stands for a key. -/
def alertText (k : AlertKey) : String :=
  k.1.asStr ++ ":" ++ k.2

theorem alertText_injective : Function.Injective alertText := by
  rintro ⟨d, title⟩ ⟨d', title'⟩ h
  have hlist := congrArg String.toList h
  cases d <;> cases d' <;>
    simp [alertText, DetectorKind.asStr, String.toList_append] at hlist <;>
    simp [String.ext_iff, hlist]

structure AlertDeduplicator where
  windowTicks : UInt64
  lastSent : String → Option UInt64
  suppressed : String → Option UInt32
  totalSuppressed : UInt64

namespace AlertDeduplicator

/-- `AlertDeduplicator::new`. -/
def new (windowTicks : UInt64) : AlertDeduplicator :=
  ⟨windowTicks, fun _ => none, fun _ => none, 0⟩

/-- `AlertDeduplicator::should_alert`. -/
def shouldAlert (d : AlertDeduplicator) (anomaly : Anomaly) (now : UInt64) :
    Bool × AlertDeduplicator :=
  let key := alertText anomaly.alertKey
  let duplicate := (d.lastSent key).any fun lastTick => saturatingSub now lastTick < d.windowTicks
  if duplicate then
    (false, { d with
      suppressed := Function.update d.suppressed key (some ((d.suppressed key).getD 0 + 1))
      totalSuppressed := d.totalSuppressed + 1 })
  else
    (true, { d with
      lastSent := Function.update d.lastSent key (some now)
      suppressed := Function.update d.suppressed key none })

/-- `AlertDeduplicator::gc`. -/
def gc (d : AlertDeduplicator) (now : UInt64) : AlertDeduplicator :=
  let lastSent key :=
    (d.lastSent key).filter fun tick => saturatingSub now tick < d.windowTicks * 2
  { d with
    lastSent := lastSent
    suppressed := fun key => if (lastSent key).isSome then d.suppressed key else none }

/-- `AlertDeduplicator::reload_config`. -/
def reloadConfig (d : AlertDeduplicator) (windowTicks : UInt64) : AlertDeduplicator :=
  { d with windowTicks := windowTicks }

end AlertDeduplicator

/-! ## Runs -/

inductive DedupOp
  | alert (anomaly : Anomaly) (now : UInt64)
  | gc (now : UInt64)

def DedupOp.isAlert : DedupOp → Bool
  | alert _ _ => true
  | gc _ => false

def DedupOp.now : DedupOp → UInt64
  | alert _ now => now
  | gc now => now

/-- The ticks of a run do not fall. -/
def DedupOp.Ordered (ops : List DedupOp) : Prop :=
  ops.Pairwise fun op op' => op.now ≤ op'.now

/-- The operation is no alert of the key. -/
def DedupOp.Spares (k : AlertKey) : DedupOp → Prop
  | alert anomaly _ => anomaly.alertKey ≠ k
  | gc _ => True

namespace AlertDeduplicator

def step (d : AlertDeduplicator) : DedupOp → AlertDeduplicator
  | .alert anomaly now => (d.shouldAlert anomaly now).2
  | .gc now => d.gc now

/-- The answers to the alerts of a run. -/
def decisions (d : AlertDeduplicator) : List DedupOp → List Bool
  | [] => []
  | .alert anomaly now :: ops =>
    (d.shouldAlert anomaly now).1 :: (d.step (.alert anomaly now)).decisions ops
  | .gc now :: ops => (d.step (.gc now)).decisions ops

end AlertDeduplicator

/-! ## What should go through -/

/-- The alerts that went through, with one more if it lies a window behind the last of its
key. -/
def letThrough (window : UInt64) (log : List (Firing AlertKey)) : DedupOp → List (Firing AlertKey)
  | .alert anomaly now =>
    if Cooled log anomaly.alertKey window.toNat now.toNat then
      log ++ [⟨anomaly.alertKey, now.toNat, window.toNat⟩]
    else log
  | .gc _ => log

/-- What goes through in a run. -/
def passed (window : UInt64) (ops : List DedupOp) : List (Firing AlertKey) :=
  ops.foldl (letThrough window) []

/-- The answers that the alerts should get : those at least a window after the last that went
through for the key go through. A collection has no say. -/
def expected (window : UInt64) : List (Firing AlertKey) → List DedupOp → List Bool
  | _, [] => []
  | log, .alert anomaly now :: ops =>
    decide (Cooled log anomaly.alertKey window.toNat now.toNat) ::
      expected window (letThrough window log (.alert anomaly now)) ops
  | log, .gc _ :: ops => expected window log ops

/-- The alerts of a run are let through as they should be, and as without collections. -/
def AlertsExact (window : UInt64) (ops : List DedupOp) : Prop :=
  let d := (AlertDeduplicator.new PolicyConfig.default.dedup.windowTicks).reloadConfig window
  d.decisions ops = expected window [] ops ∧ d.decisions ops = d.decisions (ops.filter (·.isAlert))

/-- Between an alert that goes through and the next one of its key, less than a window later,
no collection lies twice the window or more behind the first, the double taken modulo 2^64. -/
def Remembers (window : UInt64) (ops : List DedupOp) : Prop :=
  ∀ before g between anomaly now after t,
    ops = before ++ .gc g :: between ++ .alert anomaly now :: after →
    (∀ op ∈ between, op.Spares anomaly.alertKey) →
    lastTime (passed window before) anomaly.alertKey = some t →
    now.toNat - t < window.toNat → g.toNat - t < 2 * window.toNat % 2 ^ 64

/-! ## One operation -/

variable {d : AlertDeduplicator} {window : UInt64} {log : List (Firing AlertKey)}
  {ops before : List DedupOp} {k : AlertKey}

theorem decisions_append (d : AlertDeduplicator) (ops ops' : List DedupOp) :
    d.decisions (ops ++ ops') = d.decisions ops ++ (ops.foldl .step d).decisions ops' := by
  induction ops generalizing d with
  | nil => rfl
  | cons op ops ih =>
    cases op with
    | alert anomaly now => exact congrArg _ (ih _)
    | gc now => exact ih _

theorem expected_append (window : UInt64) (log : List (Firing AlertKey)) (ops ops' : List DedupOp) :
    expected window log (ops ++ ops') =
      expected window log ops ++ expected window (ops.foldl (letThrough window) log) ops' := by
  induction ops generalizing log with
  | nil => rfl
  | cons op ops ih =>
    cases op with
    | alert anomaly now => exact congrArg _ (ih _)
    | gc now => exact ih _

theorem passed_concat (window : UInt64) (ops : List DedupOp) (op : DedupOp) :
    passed window (ops ++ [op]) = letThrough window (passed window ops) op :=
  List.foldl_append

@[simp] theorem windowTicks_step (d : AlertDeduplicator) (op : DedupOp) :
    (d.step op).windowTicks = d.windowTicks := by
  cases op with
  | alert anomaly now =>
    unfold AlertDeduplicator.step AlertDeduplicator.shouldAlert
    dsimp only
    split_ifs <;> rfl
  | gc now => rfl

@[simp] theorem windowTicks_foldl (d : AlertDeduplicator) (ops : List DedupOp) :
    (ops.foldl .step d).windowTicks = d.windowTicks := by
  induction ops generalizing d with
  | nil => rfl
  | cons op ops ih => rw [List.foldl_cons, ih, windowTicks_step]

/-- An alert of another key leaves what went through for this one. -/
theorem lastTime_letThrough {op : DedupOp} (h : op.Spares k) :
    lastTime (letThrough window log op) k = lastTime log k := by
  cases op with
  | alert anomaly now =>
    rw [letThrough]
    split_ifs with hready
    · exact lastTime_concat_of_ne h
    · rfl
  | gc now => rfl

theorem lastTime_foldl (h : ∀ op ∈ ops, op.Spares k) :
    lastTime (ops.foldl (letThrough window) log) k = lastTime log k := by
  induction ops generalizing log with
  | nil => rfl
  | cons op ops ih =>
    rw [List.foldl_cons, ih fun op' h' => h op' (List.mem_cons_of_mem op h'),
      lastTime_letThrough (h op List.mem_cons_self)]

/-- What goes through has a tick of 64 bits. -/
theorem lt_of_mem_passed {f : Firing AlertKey} (hf : f ∈ passed window ops) : f.time < 2 ^ 64 := by
  induction ops using List.reverseRecOn with
  | nil => cases hf
  | append_singleton ops op ih =>
    rw [passed_concat] at hf
    cases op with
    | gc now => exact ih hf
    | alert anomaly now =>
      rw [letThrough] at hf
      split_ifs at hf with hready
      · rcases List.mem_append.mp hf with h | h
        · exact ih h
        · rw [List.mem_singleton.mp h]
          exact now.toNat_lt
      · exact ih hf

/-! ## What a collection forgets -/

/-- Since the last alert of the key a collection came too late to keep its last time. -/
def Forgotten (window : UInt64) (ops : List DedupOp) (k : AlertKey) : Prop :=
  ∃ before g between t, ops = before ++ .gc g :: between ∧ (∀ op ∈ between, op.Spares k) ∧
    lastTime (passed window before) k = some t ∧ 2 * window.toNat % 2 ^ 64 ≤ g.toNat - t

/-- The decomposition of a list with one more operation. -/
theorem concat_eq_split {op : DedupOp} {g : UInt64} {between : List DedupOp} :
    ops ++ [op] = before ++ .gc g :: between ↔
      (between = [] ∧ op = .gc g ∧ ops = before) ∨
        ∃ between', between = between' ++ [op] ∧ ops = before ++ .gc g :: between' := by
  rcases List.eq_nil_or_concat between with rfl | ⟨between', last, rfl⟩
  · rw [List.append_singleton_inj]
    simp [and_comm]
  · rw [List.concat_eq_append, ← List.cons_append, ← List.append_assoc, List.append_singleton_inj]
    constructor
    · rintro ⟨hops, rfl⟩
      exact Or.inr ⟨between', rfl, hops⟩
    · rintro (⟨hnil, -⟩ | ⟨between'', hlast, hops⟩)
      · simp at hnil
      · obtain ⟨rfl, rfl⟩ := List.append_singleton_inj.mp hlast
        exact ⟨hops, rfl⟩

theorem forgotten_gc {now : UInt64} : Forgotten window (ops ++ [.gc now]) k ↔
    Forgotten window ops k ∨
      ∃ t, lastTime (passed window ops) k = some t ∧
        2 * window.toNat % 2 ^ 64 ≤ now.toNat - t := by
  constructor
  · rintro ⟨before, g, between, t, hops, hspare, hlast, hlate⟩
    rcases concat_eq_split.mp hops with ⟨rfl, hg, rfl⟩ | ⟨between', rfl, rfl⟩
    · cases hg
      exact Or.inr ⟨t, hlast, hlate⟩
    · exact Or.inl ⟨before, g, between', t, rfl,
        fun op hop => hspare op (List.mem_append_left _ hop), hlast, hlate⟩
  · rintro (⟨before, g, between, t, rfl, hspare, hlast, hlate⟩ | ⟨t, hlast, hlate⟩)
    · refine ⟨before, g, between ++ [.gc now], t, by simp, fun op hop => ?_, hlast, hlate⟩
      rcases List.mem_append.mp hop with h | h
      · exact hspare op h
      · rw [List.mem_singleton.mp h]
        exact trivial
    · exact ⟨ops, now, [], t, rfl, fun op hop => absurd hop List.not_mem_nil, hlast, hlate⟩

theorem forgotten_alert {anomaly : Anomaly} {now : UInt64} :
    Forgotten window (ops ++ [.alert anomaly now]) k ↔
      anomaly.alertKey ≠ k ∧ Forgotten window ops k := by
  constructor
  · rintro ⟨before, g, between, t, hops, hspare, hlast, hlate⟩
    rcases concat_eq_split.mp hops with ⟨-, hg, -⟩ | ⟨between', rfl, rfl⟩
    · cases hg
    · exact ⟨hspare (.alert anomaly now) (List.mem_append_right _ (List.mem_singleton.mpr rfl)),
        before, g, between', t, rfl, fun op hop => hspare op (List.mem_append_left _ hop), hlast,
        hlate⟩
  · rintro ⟨hne, before, g, between, t, rfl, hspare, hlast, hlate⟩
    refine ⟨before, g, between ++ [.alert anomaly now], t, by simp, fun op hop => ?_, hlast, hlate⟩
    rcases List.mem_append.mp hop with h | h
    · exact hspare op h
    · rw [List.mem_singleton.mp h]
      exact hne

/-- The times that the deduplicator has are those it should have, but for the forgotten. -/
def Tracks (d : AlertDeduplicator) (window : UInt64) (ops : List DedupOp) : Prop :=
  ∀ k t, d.lastSent (alertText k) = some t ↔
    lastTime (passed window ops) k = some t.toNat ∧ ¬ Forgotten window ops k

/-! ## One step -/

theorem shouldAlert_iff (hwindow : d.windowTicks = window) (anomaly : Anomaly) (now : UInt64) :
    (d.shouldAlert anomaly now).1 = true ↔
      ∀ t, d.lastSent (alertText anomaly.alertKey) = some t →
        window.toNat ≤ now.toNat - t.toNat := by
  have hdup : ∀ t, saturatingSub now t < window ↔ now.toNat - t.toNat < window.toNat := by
    intro t
    rw [UInt64.lt_iff_toNat_lt, toNat_saturatingSub]
  unfold AlertDeduplicator.shouldAlert
  dsimp only
  rw [hwindow]
  cases d.lastSent (alertText anomaly.alertKey) with
  | none => simp
  | some lastTick =>
    simp only [Option.any_some, decide_eq_true_eq, Option.some.injEq, forall_eq', hdup]
    split_ifs with h
    · simpa using h
    · simpa using h

theorem lastSent_shouldAlert (anomaly : Anomaly) (now : UInt64) :
    (d.step (.alert anomaly now)).lastSent =
      if (d.shouldAlert anomaly now).1 then
        Function.update d.lastSent (alertText anomaly.alertKey) (some now)
      else d.lastSent := by
  unfold AlertDeduplicator.step AlertDeduplicator.shouldAlert
  dsimp only
  split_ifs with h h' h'
  · cases h'
  · rfl
  · rfl
  · exact absurd rfl h'

/-- The answer to an alert is as it should be exactly if nothing that matters is forgotten. -/
theorem shouldAlert_eq_iff (hwindow : d.windowTicks = window) (htracks : Tracks d window ops)
    (anomaly : Anomaly) (now : UInt64) :
    (d.shouldAlert anomaly now).1 =
        decide (Cooled (passed window ops) anomaly.alertKey window.toNat now.toNat) ↔
      (Forgotten window ops anomaly.alertKey →
        Cooled (passed window ops) anomaly.alertKey window.toNat now.toNat) := by
  rw [Bool.eq_iff_iff, decide_eq_true_iff, shouldAlert_iff hwindow]
  by_cases hforgot : Forgotten window ops anomaly.alertKey
  · have hnone : ∀ t, d.lastSent (alertText anomaly.alertKey) ≠ some t :=
      fun t ht => ((htracks _ t).mp ht).2 hforgot
    constructor
    · exact fun h _ => h.mp fun t ht => absurd ht (hnone t)
    · exact fun h => iff_of_true (fun t ht => absurd ht (hnone t)) (h hforgot)
  · refine iff_of_true ⟨fun h t ht => ?_, fun h t ht => h _ ((htracks _ t).mp ht).1⟩
      fun h => absurd h hforgot
    obtain ⟨f, hf, -, rfl⟩ := mem_of_lastTime ht
    have hsize : f.time < 2 ^ 64 := lt_of_mem_passed hf
    have htick : (UInt64.ofNat f.time).toNat = f.time := UInt64.toNat_ofNat_of_lt' hsize
    have hsent := h (UInt64.ofNat f.time) ((htracks _ _).mpr ⟨by rw [htick]; exact ht, hforgot⟩)
    rwa [htick] at hsent

theorem tracks_new (windowTicks window : UInt64) :
    Tracks ((AlertDeduplicator.new windowTicks).reloadConfig window) window [] := by
  intro k t
  exact ⟨fun h => (nomatch h), fun h => (nomatch h.1)⟩

/-- A collection forgets the times that it should not have. -/
theorem tracks_gc (hwindow : d.windowTicks = window) (htracks : Tracks d window ops)
    (now : UInt64) : Tracks (d.step (.gc now)) window (ops ++ [.gc now]) := by
  intro k t
  have hkept : saturatingSub now t < window * 2 ↔
      now.toNat - t.toNat < 2 * window.toNat % 2 ^ 64 := by
    rw [UInt64.lt_iff_toNat_lt, toNat_saturatingSub, UInt64.toNat_mul, Nat.mul_comm 2]
    rfl
  have hsent : (d.step (.gc now)).lastSent (alertText k) = some t ↔
      d.lastSent (alertText k) = some t ∧ saturatingSub now t < window * 2 := by
    rw [← hwindow]
    exact Option.filter_eq_some_iff.trans (and_congr_right fun _ => decide_eq_true_iff)
  rw [hsent, htracks, hkept, passed_concat, forgotten_gc, not_or, and_assoc]
  refine and_congr_right fun hlast => and_congr_right fun _ => ⟨?_, fun h => ?_⟩
  · rintro h ⟨t', hlast', hlate⟩
    obtain rfl := Option.some.inj (hlast.symm.trans hlast')
    omega
  · by_contra hlate
    exact h ⟨t.toNat, hlast, by omega⟩

/-- An alert with the right answer leaves the right times. -/
theorem tracks_alert (hwindow : d.windowTicks = window) (htracks : Tracks d window ops)
    {anomaly : Anomaly} {now : UInt64} (hanswer : (d.shouldAlert anomaly now).1 =
      decide (Cooled (passed window ops) anomaly.alertKey window.toNat now.toNat)) :
    Tracks (d.step (.alert anomaly now)) window (ops ++ [.alert anomaly now]) := by
  intro k t
  rw [lastSent_shouldAlert, passed_concat, forgotten_alert, letThrough]
  by_cases hready : Cooled (passed window ops) anomaly.alertKey window.toNat now.toNat
  · rw [hanswer, if_pos (decide_eq_true hready), if_pos hready, lastTime_concat]
    by_cases hkey : anomaly.alertKey = k
    · subst hkey
      rw [Function.update_self, if_pos rfl, Option.some.injEq, Option.some.injEq,
        UInt64.toNat_inj]
      simp
    · rw [Function.update_of_ne fun h => hkey (alertText_injective h).symm, if_neg hkey, htracks]
      simp [hkey]
  · have hno : ¬ (d.shouldAlert anomaly now).1 = true := by
      rw [hanswer, decide_eq_true_iff]
      exact hready
    rw [if_neg hno, if_neg hready, htracks]
    by_cases hkey : anomaly.alertKey = k
    · subst hkey
      have hkept : ¬ Forgotten window ops anomaly.alertKey := fun hforgot =>
        hno (by
          rw [shouldAlert_iff hwindow]
          exact fun t ht => absurd hforgot ((htracks _ t).mp ht).2)
      simp [hkept]
    · simp [hkey]

/-! ## Runs -/

/-- What remembering means for one more operation. -/
theorem remembers_concat {op : DedupOp} : Remembers window (ops ++ [op]) ↔
    Remembers window ops ∧ ∀ anomaly now, op = .alert anomaly now →
      Forgotten window ops anomaly.alertKey →
        Cooled (passed window ops) anomaly.alertKey window.toNat now.toNat := by
  constructor
  · intro h
    refine ⟨fun before g between anomaly now after t hops => ?_, ?_⟩
    · refine h before g between anomaly now (after ++ [op]) t ?_
      rw [hops]
      simp
    · rintro anomaly now rfl ⟨before, g, between, t, rfl, hspare, hlast, hlate⟩ t' ht'
      rw [passed, List.foldl_append, List.foldl_cons, lastTime_foldl hspare] at ht'
      obtain rfl := Option.some.inj (hlast.symm.trans ht')
      by_contra hsoon
      have := h before g between anomaly now [] t rfl hspare hlast (by omega)
      omega
  · rintro ⟨hops, hop⟩ before g between anomaly now after t heq hspare hlast hsoon
    rcases List.eq_nil_or_concat after with rfl | ⟨after, last, rfl⟩
    · obtain ⟨rfl, rfl⟩ := List.append_singleton_inj.mp heq
      by_contra hlate
      have hready := hop anomaly now rfl ⟨before, g, between, t, rfl, hspare, hlast, by omega⟩ t
        (by rw [passed, List.foldl_append, List.foldl_cons, lastTime_foldl hspare]; exact hlast)
      omega
    · rw [List.concat_eq_append, ← List.cons_append, ← List.append_assoc] at heq
      obtain ⟨rfl, -⟩ := List.append_singleton_inj.mp heq
      exact hops before g between anomaly now after t rfl hspare hlast hsoon

/-- The answers of a run are the right ones exactly if nothing that matters is forgotten, and
then the times are. -/
theorem decisions_eq_iff (hwindow : d.windowTicks = window) (hnew : Tracks d window [])
    (ops : List DedupOp) :
    (d.decisions ops = expected window [] ops ↔ Remembers window ops) ∧
      (d.decisions ops = expected window [] ops → Tracks (ops.foldl .step d) window ops) := by
  induction ops using List.reverseRecOn with
  | nil =>
    refine ⟨iff_of_true rfl ?_, fun _ => hnew⟩
    intro before g between anomaly now after t hops
    simp at hops
  | append_singleton ops op ih =>
    obtain ⟨hiff, htracks⟩ := ih
    have hw : (ops.foldl .step d).windowTicks = window := by rw [windowTicks_foldl, hwindow]
    rw [decisions_append, expected_append, remembers_concat, ← hiff, List.foldl_append]
    cases op with
    | gc now =>
      simp only [AlertDeduplicator.decisions, expected, List.append_nil, reduceCtorEq,
        false_implies, implies_true, and_true, true_and]
      exact fun h => tracks_gc hw (htracks h) now
    | alert anomaly now =>
      have hsplit : d.decisions ops ++ [((ops.foldl .step d).shouldAlert anomaly now).1] =
          expected window [] ops ++ [decide (Cooled (passed window ops) anomaly.alertKey
            window.toNat now.toNat)] ↔ d.decisions ops = expected window [] ops ∧
          ((ops.foldl .step d).shouldAlert anomaly now).1 =
            decide (Cooled (passed window ops) anomaly.alertKey window.toNat now.toNat) :=
        List.append_singleton_inj
      refine ⟨hsplit.trans (and_congr_right fun h => ?_), fun h => ?_⟩
      · rw [shouldAlert_eq_iff hw (htracks h)]
        exact ⟨fun hready anomaly' now' heq => by cases heq; exact hready,
          fun hready => hready anomaly now rfl⟩
      · obtain ⟨hops, hop⟩ := hsplit.mp h
        exact tracks_alert hw (htracks hops) hop

theorem remembers_of_alerts (h : ∀ op ∈ ops, op.isAlert = true) : Remembers window ops := by
  rintro before g between anomaly now after t rfl
  exact absurd (h (.gc g) (by simp)) Bool.false_ne_true

theorem expected_filter (window : UInt64) (log : List (Firing AlertKey)) (ops : List DedupOp) :
    expected window log (ops.filter (·.isAlert)) = expected window log ops := by
  induction ops generalizing log with
  | nil => rfl
  | cons op ops ih =>
    cases op with
    | alert anomaly now => exact congrArg (_ :: ·) (ih _)
    | gc now => exact ih log

/-- Whatever is computed twice the window, alerts are let through as they should be exactly if
no time is forgotten while its window lasts. -/
theorem alerts_exact_iff (window : UInt64) (ops : List DedupOp) :
    AlertsExact window ops ↔ Remembers window ops := by
  have hnew := tracks_new PolicyConfig.default.dedup.windowTicks window
  have hiff := (decisions_eq_iff rfl hnew ops).1
  have hfilter := (decisions_eq_iff rfl hnew (ops.filter (·.isAlert))).1.mpr
    (remembers_of_alerts fun op hop => (List.mem_filter.mp hop).2)
  rw [expected_filter] at hfilter
  exact ⟨fun h => hiff.mp h.1, fun h => ⟨hiff.mpr h, (hiff.mpr h).trans hfilter.symm⟩⟩

/-- With a window below 2^63 no time is forgotten while its window lasts. -/
theorem remembers_of_lt (hwindow : window.toNat < 2 ^ 63) (hops : DedupOp.Ordered ops) :
    Remembers window ops := by
  rintro before g between anomaly now after t rfl - - hsoon
  have hle : g ≤ now := by
    rw [DedupOp.Ordered, List.append_assoc, List.pairwise_append] at hops
    exact (List.pairwise_cons.mp hops.2.1).1 (.alert anomaly now) (by simp)
  rw [UInt64.le_iff_toNat_le] at hle
  omega

/-- An alert. -/
def rateAlert : Anomaly :=
  ⟨.rate, .high, "EXCP rate exceeded", "", 10, 1⟩

/-- With a window of 2^63 ticks a collection forgets every alert. -/
theorem not_alerts_exact :
    ¬ ∀ window ops, DedupOp.Ordered ops → AlertsExact window ops := by
  intro h
  have hbad := (h 9223372036854775808 [.alert rateAlert 10, .gc 11, .alert rateAlert 12] (by
    simp [DedupOp.Ordered, DedupOp.now])).1
  exact absurd hbad (by decide)

end VernisOS
