import Mathlib.Data.List.Basic

/-!
# Machines that reply

A machine replies to each input and goes to its next state. Two machines whose states are related
so that related states reply alike, and stay related, reply alike to whole lists of inputs
(`replies_eq`) : what one of them does is the specification of the other.
-/

namespace Replies

variable {σ τ ι ρ : Type*}

/-- The replies to a list of inputs. -/
def replies (step : σ → ι → ρ × σ) : σ → List ι → List ρ
  | _, [] => []
  | s, i :: is => (step s i).1 :: replies step (step s i).2 is

/-- The state after a list of inputs. -/
def after (step : σ → ι → ρ × σ) : σ → List ι → σ
  | s, [] => s
  | s, i :: is => after step (step s i).2 is

/-- Related states reply alike to the inputs of a kind, and their successors are related. -/
def Simulates (step : σ → ι → ρ × σ) (step' : τ → ι → ρ × τ) (R : σ → τ → Prop)
    (A : ι → Prop) : Prop :=
  ∀ s t i, R s t → A i → (step s i).1 = (step' t i).1 ∧ R (step s i).2 (step' t i).2

variable {step : σ → ι → ρ × σ} {step' : τ → ι → ρ × τ} {R : σ → τ → Prop} {A : ι → Prop}

theorem Simulates.replies_eq (h : Simulates step step' R A) :
    ∀ {is : List ι} {s : σ} {t : τ}, R s t → (∀ i ∈ is, A i) →
      replies step s is = replies step' t is ∧ R (after step s is) (after step' t is)
  | [], _, _, hR, _ => ⟨rfl, hR⟩
  | i :: is, s, t, hR, hA => by
    obtain ⟨hreply, hnext⟩ := h s t i hR (hA i List.mem_cons_self)
    obtain ⟨hrest, hlast⟩ := h.replies_eq hnext fun j hj => hA j (List.mem_cons_of_mem i hj)
    exact ⟨by rw [replies, replies, hreply, hrest], hlast⟩

end Replies
