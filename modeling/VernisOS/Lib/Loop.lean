import Mathlib.Data.Fintype.Pigeonhole
import Mathlib.Data.List.Basic

/-!
# Loops that log what they read

A computation with a log, and with a result once it has come to one. `run` makes a bounded number of
turns of a loop. Loops may be nested : the turns of the outer one then depend on the bound too, and
everything only has to keep its results when it grows (`Stable`). A computation ends if some bound
is enough (`Ends`), and then with one log and one result. A loop with an invariant and a measure
that falls in every turn ends, and reads only what its turns may read (`ends_of_measure`). A loop
that follows the links of a finite graph ends exactly if it comes to no place twice
(`ends_iff_halts`, `halts_iff`). Any loop reads only what its turns may read from the states of its
invariant, whether it ends or not (`log_of_invariant`).
-/

namespace Loop

variable {σ ρ ε α β : Type*}

/-! ## Logged computations -/

/-- What has been read, and the result unless the bound was too small. -/
abbrev Logged (ε α : Type*) := List ε × Option α

/-- A result after some reads. -/
def reads (log : List ε) (a : α) : Logged ε α :=
  (log, some a)

@[simp] theorem reads_fst (log : List ε) (a : α) : (reads log a).1 = log :=
  rfl

/-- One computation after another. -/
def bind (x : Logged ε α) (f : α → Logged ε β) : Logged ε β :=
  match x with
  | (log, none) => (log, none)
  | (log, some a) => (log ++ (f a).1, (f a).2)

theorem bind_reads (log : List ε) (a : α) (f : α → Logged ε β) :
    bind (reads log a) f = (log ++ (f a).1, (f a).2) :=
  rfl

/-- A sequence has a result if both parts have one. -/
theorem bind_eq_reads {x : Logged ε α} {f : α → Logged ε β} {log : List ε} {b : β} :
    bind x f = reads log b ↔
      ∃ l a l', x = reads l a ∧ f a = reads l' b ∧ log = l ++ l' := by
  obtain ⟨l, _ | a⟩ := x
  · constructor
    · intro h
      exact absurd (congrArg Prod.snd h) (Option.some_ne_none b).symm
    · rintro ⟨_, a, _, h, _⟩
      exact absurd (congrArg Prod.snd h) (Option.some_ne_none a).symm
  · constructor
    · intro h
      obtain ⟨hlog, hb⟩ := Prod.mk.inj h
      exact ⟨l, a, (f a).1, rfl, Prod.ext rfl hb, hlog.symm⟩
    · rintro ⟨l', a', l'', h, hf, rfl⟩
      obtain ⟨rfl, ha⟩ := Prod.mk.inj h
      obtain rfl := Option.some.inj ha
      rw [bind, hf]
      rfl

/-- A sequence whose first part reads. -/
theorem bind_reads_eq {f : α → Logged ε β} {l log : List ε} {a : α} {b : β} :
    bind (reads l a) f = reads log b ↔ ∃ l', f a = reads l' b ∧ log = l ++ l' := by
  rw [bind_eq_reads]
  constructor
  · rintro ⟨l₁, a₁, l', h, hf, hlog⟩
    obtain ⟨rfl, ha⟩ := Prod.mk.inj h
    obtain rfl := Option.some.inj ha
    exact ⟨l', hf, hlog⟩
  · rintro ⟨l', hf, hlog⟩
    exact ⟨l, a, l', rfl, hf, hlog⟩

/-- At most `n` turns. -/
def run (turn : σ → Logged ε (σ ⊕ ρ)) : ℕ → σ → Logged ε ρ
  | 0, _ => ([], none)
  | n + 1, s => bind (turn s) fun next =>
    match next with
    | .inl s' => run turn n s'
    | .inr r => reads [] r

/-! ## Larger bounds -/

/-- A result stays when the bound grows. -/
def Stable (x : ℕ → Logged ε α) : Prop :=
  ∀ n m log a, n ≤ m → x n = reads log a → x m = reads log a

/-- Some bound is enough. -/
def Ends (x : ℕ → Logged ε α) (log : List ε) (a : α) : Prop :=
  ∃ n, x n = reads log a

theorem stable_const (x : Logged ε α) : Stable fun _ => x :=
  fun _ _ _ _ _ h => h

theorem Stable.bind {x : ℕ → Logged ε α} {f : ℕ → α → Logged ε β} (hx : Stable x)
    (hf : ∀ a, Stable fun n => f n a) : Stable fun n => bind (x n) (f n) := by
  intro n m log b hle h
  obtain ⟨l, a, l', hl, hl', rfl⟩ := bind_eq_reads.1 h
  exact bind_eq_reads.2 ⟨l, a, l', hx n m l a hle hl, hf a n m l' b hle hl', rfl⟩

theorem run_mono {turn : ℕ → σ → Logged ε (σ ⊕ ρ)} (hturn : ∀ s, Stable fun n => turn n s)
    {k n m : ℕ} {s : σ} {log : List ε} {r : ρ} (hle : n ≤ m) {k' : ℕ} (hk : k ≤ k')
    (h : run (turn k) n s = reads log r) : run (turn k') m s = reads log r := by
  induction n generalizing m s log with
  | zero => exact absurd (congrArg Prod.snd h) (Option.some_ne_none r).symm
  | succ n ih =>
    obtain ⟨m, rfl⟩ := Nat.exists_eq_add_of_le' (Nat.le_trans n.succ_pos hle)
    obtain ⟨l, next, l', hl, hl', rfl⟩ := bind_eq_reads.1 h
    refine bind_eq_reads.2 ⟨l, next, l', hturn s k k' l next hk hl, ?_, rfl⟩
    cases next with
    | inl s' => exact ih (Nat.le_of_succ_le_succ hle) hl'
    | inr r' => exact hl'

/-- A loop whose turns are stable is stable. -/
theorem stable_run {turn : ℕ → σ → Logged ε (σ ⊕ ρ)} (hturn : ∀ s, Stable fun n => turn n s)
    (s : σ) : Stable fun n => run (turn n) n s :=
  fun _ _ _ _ hle h => run_mono hturn hle hle h

/-! ## Computations that end -/

namespace Ends

variable {x : ℕ → Logged ε α} {f : ℕ → α → Logged ε β} {log log' : List ε} {a a' : α} {b : β}

theorem reads (h : ∀ n, x n = reads log a) : Ends x log a :=
  ⟨0, h 0⟩

theorem unique (hx : Stable x) (h : Ends x log a) (h' : Ends x log' a') :
    log = log' ∧ a = a' := by
  obtain ⟨n, hn⟩ := h
  obtain ⟨m, hm⟩ := h'
  have heq := (hx n _ _ _ (Nat.le_max_left n m) hn).symm.trans
    (hx m _ _ _ (Nat.le_max_right n m) hm)
  exact ⟨congrArg Prod.fst heq, Option.some.inj (congrArg Prod.snd heq)⟩

/-- A computation that ends, and then what ends at once. -/
theorem bind_reads {g : α → Logged ε β} (h : Ends x log a) (hg : g a = Loop.reads log' b) :
    Ends (fun n => bind (x n) g) (log ++ log') b := by
  obtain ⟨n, hn⟩ := h
  exact ⟨n, bind_eq_reads.2 ⟨log, a, log', hn, hg, rfl⟩⟩

/-- A sequence ends if both parts end. -/
theorem bind_iff (hx : Stable x) (hf : ∀ a, Stable fun n => f n a) :
    Ends (fun n => bind (x n) (f n)) log b ↔
      ∃ l a l', Ends x l a ∧ Ends (fun n => f n a) l' b ∧ log = l ++ l' := by
  constructor
  · rintro ⟨n, hn⟩
    obtain ⟨l, a, l', hl, hl', rfl⟩ := bind_eq_reads.1 hn
    exact ⟨l, a, l', ⟨n, hl⟩, ⟨n, hl'⟩, rfl⟩
  · rintro ⟨l, a, l', ⟨n, hn⟩, ⟨m, hm⟩, rfl⟩
    exact ⟨max n m, bind_eq_reads.2 ⟨l, a, l', hx n _ l a (Nat.le_max_left n m) hn,
      hf a m _ l' b (Nat.le_max_right n m) hm, rfl⟩⟩

end Ends

section Loops

variable {turn : ℕ → σ → Logged ε (σ ⊕ ρ)} {s s' : σ} {log : List ε} {r : ρ}

/-- A loop ends if its first turn ends it, or ends and the loop ends from there. -/
theorem ends_run_iff (hturn : ∀ s, Stable fun n => turn n s) :
    Ends (fun n => run (turn n) n s) log r ↔
      Ends (fun n => turn n s) log (.inr r) ∨
        ∃ l s' l', Ends (fun n => turn n s) l (.inl s') ∧
          Ends (fun n => run (turn n) n s') l' r ∧ log = l ++ l' := by
  constructor
  · rintro ⟨n, hn⟩
    cases n with
    | zero => exact absurd (congrArg Prod.snd hn) (Option.some_ne_none r).symm
    | succ n =>
      obtain ⟨l, next, l', hl, hl', rfl⟩ := bind_eq_reads.1 hn
      cases next with
      | inl s' =>
        exact Or.inr ⟨l, s', l', ⟨n + 1, hl⟩,
          ⟨n + 1, run_mono hturn n.le_succ (Nat.le_refl _) hl'⟩, rfl⟩
      | inr r' =>
        obtain ⟨rfl, hr⟩ := Prod.mk.inj hl'
        obtain rfl := Option.some.inj hr
        exact Or.inl ⟨n + 1, by rw [List.append_nil]; exact hl⟩
  · rintro (⟨n, hn⟩ | ⟨l, s', l', ⟨n, hn⟩, ⟨m, hm⟩, rfl⟩)
    · refine ⟨n + 1, bind_eq_reads.2 ⟨log, .inr r, [], hturn s n _ log _ n.le_succ hn, rfl, ?_⟩⟩
      rw [List.append_nil]
    · refine ⟨max n m + 1, bind_eq_reads.2 ⟨l, .inl s', l', hturn s n _ l _ ?_ hn, ?_, rfl⟩⟩
      · omega
      · exact run_mono hturn (Nat.le_max_right n m) (by omega) hm

theorem Ends.done (hturn : ∀ s, Stable fun n => turn n s)
    (h : Ends (fun n => turn n s) log (.inr r)) : Ends (fun n => run (turn n) n s) log r :=
  (ends_run_iff hturn).mpr (Or.inl h)

theorem Ends.next (hturn : ∀ s, Stable fun n => turn n s) {l l' : List ε}
    (h : Ends (fun n => turn n s) l (.inl s')) (h' : Ends (fun n => run (turn n) n s') l' r) :
    Ends (fun n => run (turn n) n s) (l ++ l') r :=
  (ends_run_iff hturn).mpr (Or.inr ⟨l, s', l', h, h', rfl⟩)

/-- Induction over the turns of a loop that ends. -/
theorem Ends.run_induction {motive : σ → List ε → ρ → Prop}
    (hturn : ∀ s, Stable fun n => turn n s)
    (hdone : ∀ s log r, Ends (fun n => turn n s) log (.inr r) → motive s log r)
    (hnext : ∀ s s' l l' r, Ends (fun n => turn n s) l (.inl s') →
      Ends (fun n => run (turn n) n s') l' r → motive s' l' r → motive s (l ++ l') r)
    (h : Ends (fun n => run (turn n) n s) log r) : motive s log r := by
  obtain ⟨m, hm⟩ := h
  suffices hk : ∀ k ≤ m, ∀ s log, run (turn m) k s = Loop.reads log r → motive s log r from
    hk m (Nat.le_refl m) s log hm
  intro k
  induction k with
  | zero => exact fun _ _ _ hk => absurd (congrArg Prod.snd hk) (Option.some_ne_none r).symm
  | succ k ih =>
    intro hle s log hk
    obtain ⟨l, next, l', hl, hl', rfl⟩ := bind_eq_reads.1 hk
    cases next with
    | inl s' =>
      have hle' := Nat.le_of_succ_le hle
      exact hnext s s' l l' r ⟨m, hl⟩ ⟨m, run_mono hturn hle' (Nat.le_refl m) hl'⟩
        (ih hle' s' l' hl')
    | inr r' =>
      obtain ⟨rfl, hr⟩ := Prod.mk.inj hl'
      obtain rfl := Option.some.inj hr
      rw [List.append_nil]
      exact hdone s l r' ⟨m, hl⟩

/-- What a turn of a loop with an invariant and a measure has to do : to end, to read what `P`
allows, and to lower the measure or to stop with a result that `Q` allows. -/
def TurnOk (turn : ℕ → σ → Logged ε (σ ⊕ ρ)) (I : σ → Prop) (P : ε → Prop) (Q : ρ → Prop)
    (μ : σ → ℕ) (s : σ) : Prop :=
  ∃ log next, Ends (fun n => turn n s) log next ∧ (∀ e ∈ log, P e) ∧
    (∀ s', next = .inl s' → I s' ∧ μ s' < μ s) ∧ ∀ r, next = .inr r → Q r

/-- A loop whose measure falls in every turn ends. -/
theorem ends_of_measure (hturn : ∀ s, Stable fun n => turn n s) {I : σ → Prop} {P : ε → Prop}
    {Q : ρ → Prop} (μ : σ → ℕ) (hok : ∀ s, I s → TurnOk turn I P Q μ s) (s : σ) (hs : I s) :
    ∃ log r, Ends (fun n => run (turn n) n s) log r ∧ (∀ e ∈ log, P e) ∧ Q r := by
  induction hm : μ s using Nat.strongRecOn generalizing s with
  | ind m ih =>
    obtain ⟨l, next, hends, hl, hnext, hdone⟩ := hok s hs
    cases next with
    | inl s' =>
      obtain ⟨hs', hlt⟩ := hnext s' rfl
      obtain ⟨l', r, hends', hl', hr⟩ := ih (μ s') (hm ▸ hlt) s' hs' rfl
      refine ⟨l ++ l', r, .next hturn hends hends', fun e he => ?_, hr⟩
      exact (List.mem_append.mp he).elim (hl e) (hl' e)
    | inr r =>
      exact ⟨l, r, .done hturn hends, hl, hdone r rfl⟩

end Loops

/-! ## Logs of loops that may not end -/

section Logs

variable {turn : σ → Logged ε (σ ⊕ ρ)} {P : ε → Prop}

theorem mem_bind {x : Logged ε α} {f : α → Logged ε β} {e : ε} :
    e ∈ (bind x f).1 ↔ e ∈ x.1 ∨ ∃ a, x.2 = some a ∧ e ∈ (f a).1 := by
  obtain ⟨log, _ | a⟩ := x
  · simp [bind]
  · simp [bind]

/-- A sequence reads what `P` allows if both parts do. -/
theorem forall_mem_bind {x : Logged ε α} {f : α → Logged ε β} (hx : ∀ e ∈ x.1, P e)
    (hf : ∀ log a, x = reads log a → ∀ e ∈ (f a).1, P e) : ∀ e ∈ (bind x f).1, P e := by
  intro e he
  rcases mem_bind.1 he with he | ⟨a, ha, he⟩
  · exact hx e he
  · exact hf x.1 a (Prod.ext rfl ha) e he

/-- What the turns of a loop may read from the states of an invariant, the loop may. -/
theorem log_of_invariant {I : σ → Prop}
    (hok : ∀ s, I s → (∀ e ∈ (turn s).1, P e) ∧
      ∀ log s', turn s = reads log (.inl s') → I s') (n : ℕ) {s : σ} (hs : I s) :
    ∀ e ∈ (run turn n s).1, P e := by
  induction n generalizing s with
  | zero => exact fun e he => absurd he List.not_mem_nil
  | succ n ih =>
    obtain ⟨hlog, hnext⟩ := hok s hs
    refine forall_mem_bind hlog fun log next hturn => ?_
    cases next with
    | inl s' => exact ih (hnext log s' hturn)
    | inr r => exact fun e he => absurd he List.not_mem_nil

theorem mem_run_head {n : ℕ} {s : σ} {e : ε} (h : e ∈ (turn s).1) :
    e ∈ (run turn (n + 1) s).1 :=
  mem_bind.2 (Or.inl h)

theorem mem_run_next {n : ℕ} {s s' : σ} {log : List ε} {e : ε}
    (hturn : turn s = reads log (.inl s')) (h : e ∈ (run turn n s').1) :
    e ∈ (run turn (n + 1) s).1 :=
  mem_bind.2 (Or.inr ⟨.inl s', by rw [hturn]; rfl, h⟩)

/-- What is read stays read when the bound grows. -/
def Grows (x : ℕ → Logged ε α) : Prop :=
  ∀ n m e, n ≤ m → e ∈ (x n).1 → e ∈ (x m).1

/-- The computation reads `e` if the bound is large enough. -/
def Logs (x : ℕ → Logged ε α) (e : ε) : Prop :=
  ∃ n, e ∈ (x n).1

/-- What a loop reads after a turn it reads. -/
theorem logs_run_next {s s' : σ} {log : List ε} {e : ε} (hturn : turn s = reads log (.inl s'))
    (h : Logs (fun n => run turn n s') e) : Logs (fun n => run turn n s) e := by
  obtain ⟨n, h⟩ := h
  exact ⟨n + 1, mem_run_next hturn h⟩

theorem grows_const (x : Logged ε α) : Grows fun _ => x :=
  fun _ _ _ _ h => h

theorem not_logs_nil {a : α} {e : ε} : ¬ Logs (fun _ => reads [] a) e :=
  fun ⟨_, h⟩ => List.not_mem_nil h

theorem Grows.bind {x : ℕ → Logged ε α} {f : ℕ → α → Logged ε β} (hx : Stable x) (hgrows : Grows x)
    (hf : ∀ a, Grows fun n => f n a) : Grows fun n => bind (x n) (f n) := by
  intro n m e hle h
  rcases mem_bind.1 h with h | ⟨a, ha, h⟩
  · exact mem_bind.2 (Or.inl (hgrows n m e hle h))
  · have heq := hx n m (x n).1 a hle (Prod.ext rfl ha)
    exact mem_bind.2 (Or.inr ⟨a, congrArg Prod.snd heq, hf a n m e hle h⟩)

/-- A sequence reads what its first part reads, and what the second does if the first ends. -/
theorem logs_bind_iff {x : ℕ → Logged ε α} {f : ℕ → α → Logged ε β} {e : ε} (hx : Stable x)
    (hf : ∀ a, Grows fun n => f n a) :
    Logs (fun n => bind (x n) (f n)) e ↔
      Logs x e ∨ ∃ l a, Ends x l a ∧ Logs (fun n => f n a) e := by
  constructor
  · rintro ⟨n, h⟩
    rcases mem_bind.1 h with h | ⟨a, ha, h⟩
    · exact Or.inl ⟨n, h⟩
    · exact Or.inr ⟨(x n).1, a, ⟨n, Prod.ext rfl ha⟩, n, h⟩
  · rintro (⟨n, h⟩ | ⟨l, a, ⟨n, hn⟩, m, h⟩)
    · exact ⟨n, mem_bind.2 (Or.inl h)⟩
    · have heq := hx n (max n m) l a (Nat.le_max_left n m) hn
      exact ⟨max n m, mem_bind.2 (Or.inr ⟨a, congrArg Prod.snd heq,
        hf a m _ e (Nat.le_max_right n m) h⟩)⟩

/-- A loop whose turns do not depend on the bound reads more under a larger one. -/
theorem grows_run (s : σ) : Grows fun n => run turn n s := by
  intro n
  induction n generalizing s with
  | zero => exact fun m e _ h => absurd h List.not_mem_nil
  | succ n ih =>
    intro m e hle h
    obtain ⟨m, rfl⟩ := Nat.exists_eq_add_of_le' (Nat.le_trans n.succ_pos hle)
    rcases mem_bind.1 h with h | ⟨next, hnext, h⟩
    · exact mem_bind.2 (Or.inl h)
    · refine mem_bind.2 (Or.inr ⟨next, hnext, ?_⟩)
      cases next with
      | inl s' => exact ih s' m e (Nat.le_of_succ_le_succ hle) h
      | inr r => exact absurd h List.not_mem_nil

end Logs

/-! ## Following links -/

section Links

variable {κ : Type*} {f : κ → Option κ} {a x : κ} {i j n : ℕ}

/-- The place after `n` links, unless there are fewer. -/
def orbit (f : κ → Option κ) : ℕ → κ → Option κ
  | 0, a => some a
  | n + 1, a => (f a).bind (orbit f n)

theorem orbit_add (i j : ℕ) (a : κ) : orbit f (i + j) a = (orbit f i a).bind (orbit f j) := by
  induction i generalizing a with
  | zero => rw [Nat.zero_add]; rfl
  | succ i ih =>
    rw [Nat.add_right_comm, orbit, orbit, Option.bind_assoc]
    exact congrArg _ (funext ih)

theorem orbit_succ (n : ℕ) (a : κ) : orbit f (n + 1) a = (orbit f n a).bind f := by
  have hone : orbit f 1 = f := funext fun a => Option.bind_fun_some (f a)
  rw [orbit_add, hone]

theorem orbit_none_of_le (h : orbit f i a = none) (hle : i ≤ j) : orbit f j a = none := by
  rw [← Nat.add_sub_cancel' hle, orbit_add, h]
  rfl

/-- The links come to a place twice. -/
def Repeats (f : κ → Option κ) (a : κ) : Prop :=
  ∃ i j x, i < j ∧ orbit f i a = some x ∧ orbit f j a = some x

/-- In a finite graph the links end exactly if they come to no place twice. -/
theorem halts_iff [Finite κ] : (∃ n, orbit f n a = none) ↔ ¬ Repeats f a := by
  constructor
  · rintro ⟨n, hn⟩ ⟨i, j, x, hlt, hi, hj⟩
    -- from the place that comes back the links go round and round
    have hround : ∀ k, orbit f (i + k * (j - i)) a = some x := by
      intro k
      induction k with
      | zero => rw [Nat.zero_mul, Nat.add_zero, hi]
      | succ k ih =>
        have hturn : orbit f (j - i) x = some x := by
          rw [← Nat.add_sub_cancel' hlt.le, orbit_add, hi] at hj
          exact hj
        rw [Nat.succ_mul, ← Nat.add_assoc, orbit_add, ih]
        exact hturn
    have hle : n ≤ i + n * (j - i) :=
      Nat.le_add_left_of_le (Nat.le_mul_of_pos_right n (Nat.sub_pos_of_lt hlt))
    exact absurd ((hround n).symm.trans (orbit_none_of_le hn hle)) (Option.some_ne_none x)
  · intro hno
    by_contra hall
    have hsome : ∀ n, ∃ x, orbit f n a = some x :=
      fun n => Option.ne_none_iff_exists'.mp (not_exists.mp hall n)
    choose x hx using hsome
    obtain ⟨i, j, hne, heq⟩ := Finite.exists_ne_map_eq_of_infinite x
    rcases Nat.lt_or_gt_of_ne hne with hlt | hlt
    · exact hno ⟨i, j, x i, hlt, hx i, heq ▸ hx j⟩
    · exact hno ⟨j, i, x j, hlt, hx j, heq ▸ hx i⟩

/-- A loop whose turns follow the links, from place to place, ends exactly if the links do. -/
theorem ends_iff_halts {turn : ℕ → σ → Logged ε (σ ⊕ ρ)} (hturn : ∀ s, Stable fun n => turn n s)
    {I : σ → Prop} (place : σ → κ)
    (hok : ∀ s, I s → ∃ log next, Ends (fun n => turn n s) log next ∧
      (∀ s', next = .inl s' → I s' ∧ f (place s) = some (place s')) ∧
      ∀ r, next = .inr r → f (place s) = none) {s : σ} (hs : I s) :
    (∃ log r, Ends (fun n => run (turn n) n s) log r) ↔ ∃ n, orbit f n (place s) = none := by
  constructor
  · rintro ⟨log, r, m, hm⟩
    suffices h : ∀ k log s, I s → run (turn m) k s = reads log r → orbit f k (place s) = none from
      ⟨m, h m log s hs hm⟩
    intro k
    induction k with
    | zero => exact fun _ _ _ hk => absurd (congrArg Prod.snd hk) (Option.some_ne_none r).symm
    | succ k ih =>
      intro log s hs hk
      obtain ⟨log', next, hends, hnext, hdone⟩ := hok s hs
      obtain ⟨l, next', l', hl, hl', -⟩ := bind_eq_reads.1 hk
      obtain ⟨-, rfl⟩ := Ends.unique (hturn s) hends ⟨m, hl⟩
      cases next with
      | inl s' =>
        obtain ⟨hs', hf⟩ := hnext s' rfl
        rw [orbit, hf]
        exact ih l' s' hs' hl'
      | inr r' =>
        rw [orbit, hdone r' rfl]
        rfl
  · rintro ⟨n, hn⟩
    induction n generalizing s with
    | zero => exact absurd hn (Option.some_ne_none _)
    | succ n ih =>
      obtain ⟨log, next, hends, hnext, -⟩ := hok s hs
      cases next with
      | inl s' =>
        obtain ⟨hs', hf⟩ := hnext s' rfl
        rw [orbit, hf] at hn
        obtain ⟨log', r, hends'⟩ := ih hs' hn
        exact ⟨log ++ log', r, .next hturn hends hends'⟩
      | inr r => exact ⟨log, r, .done hturn hends⟩

end Links

end Loop
