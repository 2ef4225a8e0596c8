import Mathlib.Data.Option.Basic
import Mathlib.Logic.Basic

/-!
# Runs of a step function

A machine is a partial step function : `step s i` is the state after the input `i`,
`none` if the machine has no successor there. `Along P` says that every step of a run
satisfies `P` in the state it starts from, and `After P` that every state reached,
the first one included, satisfies `P`. An invariant that every guarded step preserves
holds along every run whose steps meet the guard (`Along.mono_inv`, `After.of_along`).
-/

namespace Run

variable {σ ι : Type*} {step : σ → ι → Option σ}

/-- Every step of the run from `s` satisfies `P` in the state it starts from. -/
def Along (step : σ → ι → Option σ) (P : σ → ι → Prop) : σ → List ι → Prop
  | _, [] => True
  | s, i :: is => P s i ∧ ∀ s', step s i = some s' → Along step P s' is

/-- Every state of the run from `s`, `s` included, satisfies `P`. -/
def After (step : σ → ι → Option σ) (P : σ → Prop) : σ → List ι → Prop
  | s, [] => P s
  | s, i :: is => P s ∧ ∀ s', step s i = some s' → After step P s' is

@[simp] theorem along_nil (P : σ → ι → Prop) (s : σ) : Along step P s [] :=
  trivial

@[simp] theorem along_cons (P : σ → ι → Prop) (s : σ) (i : ι) (is : List ι) :
    Along step P s (i :: is) ↔ P s i ∧ ∀ s', step s i = some s' → Along step P s' is :=
  Iff.rfl

/-- A guarded invariant turns a run that meets the guard into a run with `P`. -/
theorem Along.mono_inv {I : σ → Prop} {G P : σ → ι → Prop}
    (hinv : ∀ s i s', I s → G s i → step s i = some s' → I s')
    (hP : ∀ s i, I s → G s i → P s i) :
    ∀ (is : List ι) (s : σ), I s → Along step G s is → Along step P s is
  | [], _, _, _ => trivial
  | i :: is, s, hs, hG =>
    ⟨hP s i hs hG.1, fun s' h' =>
      Along.mono_inv hinv hP is s' (hinv s i s' hs hG.1 h') (hG.2 s' h')⟩

theorem along_true : ∀ (is : List ι) (s : σ), Along step (fun _ _ => True) s is
  | [], _ => trivial
  | _ :: is, _ => ⟨trivial, fun s' _ => along_true is s'⟩

/-- A run that meets two guards meets both at every step. -/
theorem Along.and {P Q : σ → ι → Prop} :
    ∀ {is : List ι} {s : σ}, Along step P s is → Along step Q s is →
      Along step (fun s i => P s i ∧ Q s i) s is
  | [], _, _, _ => trivial
  | _ :: _, _, hP, hQ => ⟨⟨hP.1, hQ.1⟩, fun s' h' => Along.and (hP.2 s' h') (hQ.2 s' h')⟩

/-- A run of a total step function in two parts. -/
theorem Along.append_iff {f : σ → ι → σ} {P : σ → ι → Prop} {is js : List ι} {s : σ} :
    Along (fun s i => some (f s i)) P s (is ++ js) ↔
      Along (fun s i => some (f s i)) P s is ∧
        Along (fun s i => some (f s i)) P (is.foldl f s) js := by
  induction is generalizing s with
  | nil => exact (and_iff_right trivial).symm
  | cons i is ih => simp only [List.cons_append, along_cons, Option.some.injEq, forall_eq',
      List.foldl_cons, ih, and_assoc]

/-- A guarded invariant holds in every state of a run that meets the guard. -/
theorem After.of_along {I : σ → Prop} {G : σ → ι → Prop}
    (hinv : ∀ s i s', I s → G s i → step s i = some s' → I s') :
    ∀ (is : List ι) (s : σ), I s → Along step G s is → After step I s is
  | [], _, hs, _ => hs
  | i :: is, s, hs, hG =>
    ⟨hs, fun s' h' => After.of_along hinv is s' (hinv s i s' hs hG.1 h') (hG.2 s' h')⟩

/-- An invariant of a total step function holds in every state of a run. -/
theorem After.of_inv {f : σ → ι → σ} {I : σ → Prop} (hinv : ∀ s i, I s → I (f s i)) :
    ∀ (is : List ι) (s : σ), I s → After (fun s i => some (f s i)) I s is
  | [], _, hs => hs
  | i :: is, s, hs => by
    refine ⟨hs, ?_⟩
    rintro s' ⟨⟩
    exact After.of_inv hinv is (f s i) (hinv s i hs)

/-- A run all of whose states satisfy two properties. -/
theorem After.and {P Q : σ → Prop} :
    ∀ {is : List ι} {s : σ}, After step P s is → After step Q s is →
      After step (fun s => P s ∧ Q s) s is
  | [], _, hP, hQ => ⟨hP, hQ⟩
  | _ :: _, _, hP, hQ => ⟨⟨hP.1, hQ.1⟩, fun s' h' => After.and (hP.2 s' h') (hQ.2 s' h')⟩

theorem After.mono {P Q : σ → Prop} (h : ∀ s, P s → Q s) :
    ∀ (is : List ι) (s : σ), After step P s is → After step Q s is
  | [], s, hs => h s hs
  | _ :: is, s, hs => ⟨h s hs.1, fun s' h' => After.mono h is s' (hs.2 s' h')⟩

/-- Guards that agree wherever the invariant holds, and keep it, agree along every run. -/
theorem Along.iff_of_inv {I : σ → Prop} {G P : σ → ι → Prop}
    (hiff : ∀ s i, I s → (P s i ↔ G s i))
    (hinv : ∀ s i s', I s → P s i → step s i = some s' → I s') (is : List ι) (s : σ)
    (hs : I s) : Along step P s is ↔ Along step G s is := by
  refine ⟨Along.mono_inv hinv (fun s i h => (hiff s i h).mp) is s hs,
    Along.mono_inv ?_ (fun s i h => (hiff s i h).mpr) is s hs⟩
  intro s i s' h hG
  exact hinv s i s' h ((hiff s i h).mpr hG)

theorem After.head {P : σ → Prop} : ∀ {is : List ι} {s : σ}, After step P s is → P s
  | [], _, h => h
  | _ :: _, _, h => h.1

/-- The last state of a run all of whose states satisfy a property. -/
theorem After.foldl {f : σ → ι → σ} {P : σ → Prop} :
    ∀ (is : List ι) (s : σ), After (fun s i => some (f s i)) P s is → P (is.foldl f s)
  | [], _, h => h
  | i :: is, s, h => After.foldl is (f s i) (h.2 _ rfl)

/-- The state that a run ends in. -/
theorem After.last {P : σ → Prop} :
    ∀ {is : List ι} {s s' : σ}, After step P s is → is.foldlM step s = some s' → P s'
  | [], _, _, h, hs => Option.some.inj hs ▸ h
  | i :: is, s, s', h, hs => by
    rw [List.foldlM_cons] at hs
    obtain ⟨s₁, hs₁, hs⟩ := Option.bind_eq_some_iff.mp hs
    exact After.last (h.2 s₁ hs₁) hs

/-- A property that a step keeps exactly if it meets the guard holds in every state of a run
exactly if every step meets it. -/
theorem after_iff_along {f : σ → ι → σ} {I : σ → Prop} {G : σ → ι → Prop}
    (h : ∀ s i, I s → (I (f s i) ↔ G s i)) :
    ∀ (is : List ι) (s : σ), I s →
      (After (fun s i => some (f s i)) I s is ↔ Along (fun s i => some (f s i)) G s is)
  | [], _, hs => ⟨fun _ => trivial, fun _ => hs⟩
  | i :: is, s, hs => by
    constructor
    · rintro ⟨-, hrest⟩
      have hnext := hrest (f s i) rfl
      refine ⟨(h s i hs).mp hnext.head, ?_⟩
      rintro s' ⟨⟩
      exact (after_iff_along h is (f s i) hnext.head).mp hnext
    · rintro ⟨hG, hrest⟩
      refine ⟨hs, ?_⟩
      rintro s' ⟨⟩
      exact (after_iff_along h is (f s i) ((h s i hs).mpr hG)).mpr (hrest (f s i) rfl)

/-- The same for inputs of a kind, where the property needs an invariant to be kept exactly if the
guard is met. -/
theorem After.iff_along {f : σ → ι → σ} {I P : σ → Prop} {A : ι → Prop} {G : σ → ι → Prop}
    (hP : ∀ s, I s → P s) (hstep : ∀ s i, I s → A i → (P (f s i) ↔ G s i))
    (hinv : ∀ s i, I s → A i → P (f s i) → I (f s i)) :
    ∀ (is : List ι) (s : σ), (∀ i ∈ is, A i) → I s →
      (After (fun s i => some (f s i)) P s is ↔ Along (fun s i => some (f s i)) G s is)
  | [], s, _, hs => ⟨fun _ => trivial, fun _ => hP s hs⟩
  | i :: is, s, hA, hs => by
    have hi := hA i List.mem_cons_self
    have hrest := fun j hj => hA j (List.mem_cons_of_mem i hj)
    constructor
    · rintro ⟨-, hafter⟩
      have hnext := hafter (f s i) rfl
      refine ⟨(hstep s i hs hi).mp hnext.head, ?_⟩
      rintro s' ⟨⟩
      exact (After.iff_along hP hstep hinv is _ hrest (hinv s i hs hi hnext.head)).mp hnext
    · rintro ⟨hG, halong⟩
      refine ⟨hP s hs, ?_⟩
      rintro s' ⟨⟩
      have hnext := hinv s i hs hi ((hstep s i hs hi).mpr hG)
      exact (After.iff_along hP hstep hinv is _ hrest hnext).mpr (halong _ rfl)

/-- Two machines in lockstep : what a step that meets the guard keeps, and any other step breaks,
holds between the states of two runs exactly if every step meets the guard. -/
theorem lockstep_iff {τ : Type*} {f : σ → ι → σ} {f' : τ → ι → τ} {I T : σ → τ → Prop}
    {G : σ → ι → Prop} (hT : ∀ s t, I s t → T s t)
    (hkeep : ∀ s t i, I s t → G s i → I (f s i) (f' t i))
    (hbreak : ∀ s t i, I s t → ¬ G s i → ¬ T (f s i) (f' t i)) :
    ∀ (is : List ι) (s : σ) (t : τ), I s t →
      ((∀ pre, pre <+: is → T (pre.foldl f s) (pre.foldl f' t)) ↔
        Along (fun s i => some (f s i)) G s is)
  | [], s, t, hI => by
    refine ⟨fun _ => trivial, fun _ pre hpre => ?_⟩
    rw [List.prefix_nil.mp hpre]
    exact hT s t hI
  | i :: is, s, t, hI => by
    constructor
    · intro h
      have hG : G s i := by
        by_contra hG
        exact hbreak s t i hI hG (h [i] ⟨is, rfl⟩)
      refine ⟨hG, ?_⟩
      rintro s' ⟨⟩
      refine (lockstep_iff hT hkeep hbreak is (f s i) (f' t i) (hkeep s t i hI hG)).mp ?_
      exact fun pre hpre => h (i :: pre) ((List.prefix_cons_inj i).mpr hpre)
    · rintro ⟨hG, hrest⟩ pre hpre
      cases pre with
      | nil => exact hT s t hI
      | cons j pre =>
        obtain ⟨rfl, htail⟩ := List.cons_prefix_cons.mp hpre
        exact (lockstep_iff hT hkeep hbreak is (f s j) (f' t j) (hkeep s t j hI hG)).mpr
          (hrest _ rfl) pre htail

end Run
