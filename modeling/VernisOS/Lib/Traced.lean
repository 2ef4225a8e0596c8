import Mathlib.Data.List.Basic

/-!
# Programs that record what they do

A program over a state `σ` either ends with a value or stays where it is for ever, and it
records events on its way. Three kinds of facts are carried through a program from the
state it starts in : every event is good (`Emits`), a program that ends relates its last
state to the first (`Keeps`), and two runs from related states go the same way as long as
the events of the first are good (`Agrees`). Each holds of a sequence if it holds of the
parts.
-/

namespace Traced

/-- What a program does : its value, `none` if it does not end, the state it leaves and the
events, the first one first. -/
structure Outcome (σ ε α : Type) where
  value : Option α
  state : σ
  trace : List ε

/-- A program over `σ` with events `ε`. -/
def Prog (σ ε α : Type) : Type :=
  σ → Outcome σ ε α

variable {σ ε α β : Type}

/-- Run `m`, then `f` of its value if it ends. -/
def seq (m : Prog σ ε α) (f : α → Prog σ ε β) : Prog σ ε β := fun s =>
  match (m s).value with
  | none => ⟨none, (m s).state, (m s).trace⟩
  | some a =>
    ⟨(f a (m s).state).value, (f a (m s).state).state, (m s).trace ++ (f a (m s).state).trace⟩

instance : Monad (Prog σ ε) where
  pure a := fun s => ⟨some a, s, []⟩
  bind := seq

/-- The state. -/
def state : Prog σ ε σ :=
  fun s => ⟨some s, s, []⟩

/-- Change the state. -/
def update (f : σ → σ) : Prog σ ε Unit :=
  fun s => ⟨some (), f s, []⟩

/-- Record an event. -/
def record (e : ε) : Prog σ ε Unit :=
  fun s => ⟨some (), s, [e]⟩

/-- Stay here for ever. -/
def stuck : Prog σ ε α :=
  fun s => ⟨none, s, []⟩

/-- Run `m` with its events renamed. -/
def relabel (g : ε → ε) (m : Prog σ ε α) : Prog σ ε α :=
  fun s => ⟨(m s).value, (m s).state, (m s).trace.map g⟩

theorem pure_apply (a : α) (s : σ) : (pure a : Prog σ ε α) s = ⟨some a, s, []⟩ :=
  rfl

/-- A sequence whose first part ends. -/
theorem bind_some {m : Prog σ ε α} {f : α → Prog σ ε β} {s : σ} {a : α}
    (h : (m s).value = some a) :
    (m >>= f) s = ⟨(f a (m s).state).value, (f a (m s).state).state,
      (m s).trace ++ (f a (m s).state).trace⟩ := by
  change seq m f s = _
  simp only [seq, h]

theorem bind_none {m : Prog σ ε α} {f : α → Prog σ ε β} {s : σ} (h : (m s).value = none) :
    (m >>= f) s = ⟨none, (m s).state, (m s).trace⟩ := by
  change seq m f s = _
  simp only [seq, h]

/-- A sequence ends if both parts do. -/
theorem value_bind {m : Prog σ ε α} {f : α → Prog σ ε β} {s : σ} {b : β}
    (h : ((m >>= f) s).value = some b) :
    ∃ a, (m s).value = some a ∧ (f a (m s).state).value = some b := by
  cases hm : (m s).value with
  | none => rw [bind_none hm] at h; cases h
  | some a => exact ⟨a, rfl, by rwa [bind_some hm] at h⟩

@[simp] theorem state_bind (f : σ → Prog σ ε β) (s : σ) : (state >>= f) s = f s s :=
  bind_some rfl

@[simp] theorem update_bind (g : σ → σ) (f : Unit → Prog σ ε β) (s : σ) :
    (update g >>= f) s = f () (g s) :=
  bind_some rfl

@[simp] theorem pure_bind (a : α) (f : α → Prog σ ε β) (s : σ) : (pure a >>= f) s = f a s :=
  bind_some rfl

@[simp] theorem record_bind (e : ε) (f : Unit → Prog σ ε β) (s : σ) :
    (record e >>= f) s = ⟨(f () s).value, (f () s).state, e :: (f () s).trace⟩ :=
  bind_some rfl

theorem bind_assoc {γ : Type} (m : Prog σ ε α) (f : α → Prog σ ε β) (g : β → Prog σ ε γ) (s : σ) :
    (m >>= f >>= g) s = (m >>= fun a => f a >>= g) s := by
  cases hm : (m s).value with
  | none =>
    have hf : ((m >>= f) s).value = none := by rw [bind_none hm]
    rw [bind_none hf, bind_none hm, bind_none hm]
  | some a =>
    cases hf : (f a (m s).state).value with
    | none =>
      have hmf : ((m >>= f) s).value = none := by rw [bind_some hm]; exact hf
      rw [bind_none hmf, bind_some hm, bind_some hm, bind_none hf]
    | some b =>
      have hmf : ((m >>= f) s).value = some b := by rw [bind_some hm]; exact hf
      rw [bind_some hmf, bind_some hm, bind_some hm, bind_some hf, List.append_assoc]

theorem bind_congr_left {m m' : Prog σ ε α} {s : σ} (h : m s = m' s) (f : α → Prog σ ε β) :
    (m >>= f) s = (m' >>= f) s := by
  change seq m f s = seq m' f s
  simp only [seq, h]

/-- Two programs that go on alike from where `m` ends. -/
theorem bind_congr {m : Prog σ ε α} {f f' : α → Prog σ ε β} {s : σ}
    (h : ∀ a, (m s).value = some a → f a (m s).state = f' a (m s).state) :
    (m >>= f) s = (m >>= f') s := by
  cases hm : (m s).value with
  | none => rw [bind_none hm, bind_none hm]
  | some a => rw [bind_some hm, bind_some hm, h a hm]

/-! ## Events -/

/-- Every event of `m` from `s` has `P`. -/
def Emits (P : ε → Prop) (m : Prog σ ε α) (s : σ) : Prop :=
  ∀ e ∈ (m s).trace, P e

variable {P : ε → Prop} {m : Prog σ ε α} {s : σ}

theorem Emits.of_nil (h : (m s).trace = []) : Emits P m s := by
  rw [Emits, h]
  simp

theorem Emits.bind {f : α → Prog σ ε β} (hm : Emits P m s)
    (hf : ∀ a, (m s).value = some a → Emits P (f a) (m s).state) : Emits P (m >>= f) s := by
  intro e he
  cases hv : (m s).value with
  | none =>
    rw [bind_none hv] at he
    exact hm e he
  | some a =>
    rw [bind_some hv] at he
    rcases List.mem_append.mp he with he | he
    · exact hm e he
    · exact hf a hv e he

theorem Emits.record_bind {e : ε} {f : Unit → Prog σ ε β} (he : P e)
    (hf : Emits P (f ()) s) : Emits P (record e >>= f) s := by
  refine Emits.bind (fun e' he' => ?_) fun _ _ => hf
  rw [List.mem_singleton.mp he']
  exact he

theorem Emits.relabel {g : ε → ε} (h : Emits (fun e => P (g e)) m s) :
    Emits P (relabel g m) s := by
  intro e he
  obtain ⟨e', he', rfl⟩ := List.mem_map.mp he
  exact h e' he'

/-! ## States -/

/-- If `m` ends from `s`, the events and the last state are in the relation `R` to `s`. -/
def Keeps (R : σ → List ε → σ → Prop) (m : Prog σ ε α) (s : σ) : Prop :=
  ∀ a, (m s).value = some a → R s (m s).trace (m s).state

variable {R : σ → List ε → σ → Prop}

/-- Relations that hold of a sequence of steps if they hold of each. -/
structure Composes (R : σ → List ε → σ → Prop) : Prop where
  refl : ∀ s, R s [] s
  trans : ∀ {s s' s'' t t'}, R s t s' → R s' t' s'' → R s (t ++ t') s''

theorem Keeps.bind {f : α → Prog σ ε β} (hR : Composes R) (hm : Keeps R m s)
    (hf : ∀ a, (m s).value = some a → Keeps R (f a) (m s).state) : Keeps R (m >>= f) s := by
  intro b hb
  obtain ⟨a, ha, hb'⟩ := value_bind hb
  rw [bind_some ha]
  exact hR.trans (hm a ha) (hf a ha b hb')

theorem Keeps.state_bind {f : σ → Prog σ ε α} (h : Keeps R (f s) s) :
    Keeps R (Traced.state >>= f) s := by
  rw [Keeps, Traced.state_bind]
  exact h

theorem Keeps.stuck : Keeps R (stuck : Prog σ ε α) s :=
  fun _ h => by cases h

/-! ## Two runs -/

/-- As long as the events of `m` from `s` are good, `m'` ends from `s'` as `m` does from `s`, with
the same value, and leaves a related state. -/
def Agrees (E : σ → σ → Prop) (G : ε → Prop) (m m' : Prog σ ε α) (s s' : σ) : Prop :=
  (∀ e ∈ (m s).trace, G e) → (m' s').value = (m s).value ∧ E (m s).state (m' s').state

variable {E : σ → σ → Prop} {G : ε → Prop} {m' : Prog σ ε α} {s' : σ}

theorem Agrees.pure (a : α) (h : E s s') :
    Agrees E G (Pure.pure a : Prog σ ε α) (Pure.pure a) s s' :=
  fun _ => ⟨rfl, h⟩

theorem Agrees.stuck (h : E s s') : Agrees E G (stuck : Prog σ ε α) stuck s s' :=
  fun _ => ⟨rfl, h⟩

theorem Agrees.bind {f f' : α → Prog σ ε β} (hm : Agrees E G m m' s s')
    (hf : ∀ a, (m s).value = some a → E (m s).state (m' s').state →
      Agrees E G (f a) (f' a) (m s).state (m' s').state) :
    Agrees E G (m >>= f) (m' >>= f') s s' := by
  intro hG
  cases hv : (m s).value with
  | none =>
    rw [bind_none hv] at hG
    obtain ⟨hv', hE⟩ := hm hG
    rw [bind_none hv, bind_none (hv'.trans hv)]
    exact ⟨rfl, hE⟩
  | some a =>
    rw [bind_some hv] at hG
    obtain ⟨hv', hE⟩ := hm fun e he => hG e (List.mem_append_left _ he)
    obtain ⟨hw, hE'⟩ := hf a hv hE fun e he => hG e (List.mem_append_right _ he)
    rw [bind_some hv, bind_some (hv'.trans hv)]
    exact ⟨hw, hE'⟩

theorem Agrees.state_bind {f f' : σ → Prog σ ε β} (h : Agrees E G (f s) (f' s') s s') :
    Agrees E G (state >>= f) (state >>= f') s s' := by
  rw [Agrees, Traced.state_bind, Traced.state_bind]
  exact h

theorem Agrees.update_bind {g g' : σ → σ} {f f' : Unit → Prog σ ε β}
    (h : Agrees E G (f ()) (f' ()) (g s) (g' s')) :
    Agrees E G (update g >>= f) (update g' >>= f') s s' := by
  rw [Agrees, Traced.update_bind, Traced.update_bind]
  exact h

/-- The first run records a good event. -/
theorem Agrees.record_bind {e e' : ε} {f f' : Unit → Prog σ ε β}
    (h : G e → Agrees E G (f ()) (f' ()) s s') :
    Agrees E G (record e >>= f) (record e' >>= f') s s' := by
  rw [Agrees, Traced.record_bind, Traced.record_bind]
  intro hG
  exact h (hG e List.mem_cons_self) fun e he => hG e (List.mem_cons_of_mem _ he)

end Traced
