import Mathlib.Logic.Basic

/-!
# Preconditions of programs that may halt

A program over a state `σ` is `StateT σ Option α` : `none` is the end of the machine. The
weakest precondition `Wp m s Q` says that `m` comes to an end from `s` and that `Q` holds
of its result there. All rules are equivalences, so that a precondition can be computed
by rewriting.
-/

namespace Halting

universe u

variable {σ α β : Type u}

/-- From `s` the program ends, with `Q`. -/
def Wp (m : StateT σ Option α) (s : σ) (Q : α → σ → Prop) : Prop :=
  ∃ a s', m s = some (a, s') ∧ Q a s'

variable {m : StateT σ Option α} {s : σ}

theorem wp_iff {a : α} {s' : σ} (h : m s = some (a, s')) (Q : α → σ → Prop) :
    Wp m s Q ↔ Q a s' := by
  refine ⟨fun ⟨b, t, hm, hQ⟩ => ?_, fun hQ => ⟨a, s', h, hQ⟩⟩
  obtain ⟨rfl, rfl⟩ := Prod.mk.inj (Option.some.inj (h.symm.trans hm))
  exact hQ

theorem not_wp (h : m s = none) (Q : α → σ → Prop) : ¬ Wp m s Q :=
  fun ⟨_, _, hm, _⟩ => by rw [h] at hm; cases hm

@[simp] theorem wp_pure (a : α) (Q : α → σ → Prop) :
    Wp (pure a : StateT σ Option α) s Q ↔ Q a s :=
  wp_iff rfl Q

@[simp] theorem wp_bind (f : α → StateT σ Option β) (Q : β → σ → Prop) :
    Wp (m >>= f) s Q ↔ Wp m s fun a s' => Wp (f a) s' Q := by
  cases h : m s with
  | none =>
    have hb : (m >>= f) s = none := by
      change (m s).bind _ = none
      rw [h]
      rfl
    exact ⟨fun hw => absurd hw (not_wp hb Q), fun hw => absurd hw (not_wp h _)⟩
  | some r =>
    obtain ⟨a, s'⟩ := r
    have hb : (m >>= f) s = f a s' := by
      change (m s).bind _ = _
      rw [h]
      rfl
    rw [wp_iff h]
    unfold Wp
    rw [hb]

@[simp] theorem wp_get (Q : σ → σ → Prop) : Wp (get : StateT σ Option σ) s Q ↔ Q s s :=
  wp_iff rfl Q

@[simp] theorem wp_modify (f : σ → σ) (Q : PUnit → σ → Prop) :
    Wp (modify f : StateT σ Option PUnit) s Q ↔ Q ⟨⟩ (f s) :=
  wp_iff rfl Q

end Halting
