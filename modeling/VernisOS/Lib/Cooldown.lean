import Mathlib.Data.List.Induction

/-!
# Cooldowns

A log of firings, the latest one last. `Spaced` says that two firings of one key are at least
the gap of the later one apart, `lastTime` is when a key fired last, and `Cooled` says that the
gap has passed since then. In a log whose times do not fall a firing keeps the log spaced
exactly if its key had cooled (`spaced_concat_iff`).
-/

namespace Cooldown

variable {κ : Type*}

/-- What fired under `key` at `time`. The one before it must lie `gap` back. -/
structure Firing (κ : Type*) where
  key : κ
  time : ℕ
  gap : ℕ

/-- Two firings of a key are at least the gap of the later one apart. -/
def Spaced (log : List (Firing κ)) : Prop :=
  log.Pairwise fun f g => f.key = g.key → g.gap ≤ g.time - f.time

/-- The times of a log do not fall. -/
def Chronological (log : List (Firing κ)) : Prop :=
  log.Pairwise fun f g => f.time ≤ g.time

variable [DecidableEq κ]

/-- When `k` fired last. -/
def lastTime (log : List (Firing κ)) (k : κ) : Option ℕ :=
  (log.reverse.find? fun f => f.key = k).map Firing.time

/-- The gap has passed since `k` fired last. -/
def Cooled (log : List (Firing κ)) (k : κ) (gap now : ℕ) : Prop :=
  ∀ t, lastTime log k = some t → gap ≤ now - t

instance (log : List (Firing κ)) (k : κ) (gap now : ℕ) : Decidable (Cooled log k gap now) :=
  match h : lastTime log k with
  | none => isTrue fun t ht => by rw [h] at ht; cases ht
  | some t =>
    decidable_of_iff (gap ≤ now - t)
      ⟨fun hgap t' ht => by rw [h] at ht; cases ht; exact hgap, fun hready => hready t h⟩

variable {log : List (Firing κ)} {f : Firing κ} {k : κ} {t gap now : ℕ}

@[simp] theorem lastTime_nil (k : κ) : lastTime [] k = none :=
  rfl

theorem lastTime_concat (log : List (Firing κ)) (f : Firing κ) (k : κ) :
    lastTime (log ++ [f]) k = if f.key = k then some f.time else lastTime log k := by
  unfold lastTime
  rw [List.reverse_append, List.reverse_singleton, List.singleton_append, List.find?_cons]
  by_cases h : f.key = k
  · simp [h]
  · simp [h]

@[simp] theorem lastTime_concat_self (log : List (Firing κ)) (f : Firing κ) :
    lastTime (log ++ [f]) f.key = some f.time := by
  rw [lastTime_concat, if_pos rfl]

theorem lastTime_concat_of_ne (h : f.key ≠ k) : lastTime (log ++ [f]) k = lastTime log k := by
  rw [lastTime_concat, if_neg h]

/-- The last time of a key is the time of a firing. -/
theorem mem_of_lastTime (h : lastTime log k = some t) : ∃ f ∈ log, f.key = k ∧ f.time = t := by
  unfold lastTime at h
  obtain ⟨f, hf, rfl⟩ := Option.map_eq_some_iff.mp h
  refine ⟨f, List.mem_reverse.mp (List.mem_of_find?_eq_some hf), ?_, rfl⟩
  simpa using List.find?_some hf

theorem chronological_concat :
    Chronological (log ++ [f]) ↔ Chronological log ∧ ∀ g ∈ log, g.time ≤ f.time := by
  unfold Chronological
  simp [List.pairwise_append]

/-- No firing of a key is later than its last one. -/
theorem exists_lastTime (horder : Chronological log) (hf : f ∈ log) :
    ∃ t, lastTime log f.key = some t ∧ f.time ≤ t := by
  induction log using List.reverseRecOn with
  | nil => cases hf
  | append_singleton log g ih =>
    obtain ⟨hlog, hle⟩ := chronological_concat.mp horder
    by_cases hkey : g.key = f.key
    · refine ⟨g.time, by rw [lastTime_concat, if_pos hkey], ?_⟩
      rcases List.mem_append.mp hf with h | h
      · exact hle f h
      · exact (List.mem_singleton.mp h) ▸ Nat.le_refl _
    · rw [lastTime_concat_of_ne hkey]
      rcases List.mem_append.mp hf with h | h
      · exact ih hlog h
      · exact absurd (congrArg Firing.key (List.mem_singleton.mp h).symm) hkey

/-- A firing keeps the log spaced exactly if its key had cooled. -/
theorem spaced_concat_iff (horder : Chronological log) :
    Spaced (log ++ [f]) ↔ Spaced log ∧ Cooled log f.key f.gap f.time := by
  unfold Spaced
  rw [List.pairwise_append]
  simp only [List.pairwise_singleton, List.mem_singleton, forall_eq, true_and]
  refine and_congr_right fun _ => ⟨fun h t ht => ?_, fun h g hg hkey => ?_⟩
  · obtain ⟨g, hg, hkey, rfl⟩ := mem_of_lastTime ht
    exact h g hg hkey
  · obtain ⟨t, ht, hle⟩ := exists_lastTime horder hg
    have hgap := h t (hkey ▸ ht)
    omega

end Cooldown
