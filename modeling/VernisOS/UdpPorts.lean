import VernisOS.UdpFifo

/-!
# Ephemeral ports

Runs of `udp_bind` and `udp_close`. The sockets in use always have ports of their own. For port 0
`udp_bind` tries one port, the one that `g_next_ephemeral` is at, so while a socket is free it
fails exactly if that port is bound already, although thousands of other ports are not
(`udp_ephemeral`).
-/

open Run Slots

namespace VernisOS

/-- The calls that bind and release ports. -/
inductive PortCall where
  | bind (port : UInt16)
  | close (sock : Int)
  deriving DecidableEq

namespace UdpStack

/-- The sockets after a call. -/
def portStep (s : UdpStack) : PortCall → UdpStack
  | .bind port => (s.udpBind port).2
  | .close sock => (s.udpClose sock).2

/-- Some socket is not in use. -/
def HasFree (s : UdpStack) : Prop :=
  ∃ i, (s.socks i).inUse = false

/-- The call is no `udp_bind(0)` that fails although a socket is free. -/
def EphemeralOk (s : UdpStack) (call : PortCall) : Prop :=
  call = .bind 0 → s.HasFree → (s.udpBind 0).1 ≠ none

/-- The call is no `udp_bind(0)` with a free socket while `g_next_ephemeral` is at a bound port. -/
def CounterFree (s : UdpStack) (call : PortCall) : Prop :=
  call = .bind 0 → s.HasFree →
    ∀ i, (s.socks i).inUse = true → (s.socks i).port ≠ s.nextEphemeral

/-- A socket that is closed leaves the others as they are. -/
theorem OnePort.close {s : UdpStack} (h : s.OnePort) (sock : Int) :
    (s.udpClose sock).2.OnePort := by
  unfold udpClose
  cases socket sock with
  | none => exact h
  | some k =>
    intro i j hi hj hport
    simp only [setSock, Function.update_apply] at hi hj hport
    split at hi
    · exact absurd hi Bool.noConfusion
    · next hik =>
      split at hj
      · exact absurd hj Bool.noConfusion
      · next hjk =>
        rw [if_neg hik, if_neg hjk] at hport
        exact h i j hi hj hport

/-- A socket that is bound has a port that no other one has. -/
theorem OnePort.bind {s : UdpStack} (h : s.OnePort) (port : UInt16) :
    (s.udpBind port).2.OnePort := by
  rcases s.udpBind_cases port with ⟨_, hsocks⟩ | ⟨k, p, _, _, hnew, hsocks⟩
  · unfold OnePort
    rwa [hsocks]
  · intro i j hi hj hport
    rw [hsocks] at hi hj hport
    simp only [Function.update_apply] at hi hj hport
    by_cases hik : i = k
    · by_cases hjk : j = k
      · rw [hik, hjk]
      · rw [if_neg hjk] at hj
        rw [if_pos hik, if_neg hjk] at hport
        exact absurd hport.symm (hnew j hj)
    · rw [if_neg hik] at hi
      by_cases hjk : j = k
      · rw [if_neg hik, if_pos hjk] at hport
        exact absurd hport (hnew i hi)
      · rw [if_neg hjk] at hj
        rw [if_neg hik, if_neg hjk] at hport
        exact h i j hi hj hport

theorem OnePort.step {s : UdpStack} (h : s.OnePort) (call : PortCall) :
    (s.portStep call).OnePort := by
  cases call with
  | bind port => exact h.bind port
  | close sock => exact h.close sock

theorem onePort_init : udpInit.OnePort :=
  fun _ _ hi => absurd hi Bool.noConfusion

/-- With a free socket `udp_bind(0)` fails exactly if the port of its counter is bound. -/
theorem udpBind_zero_iff {s : UdpStack} (hfree : s.HasFree) :
    (s.udpBind 0).1 ≠ none ↔
      ∀ i, (s.socks i).inUse = true → (s.socks i).port ≠ s.nextEphemeral := by
  have hport : ∀ i, ((s.choosePort 0).2.socks i) = s.socks i :=
    fun i => congrFun (s.choosePort_socks 0) i
  have hchoose : (s.choosePort 0).1 = s.nextEphemeral := rfl
  unfold udpBind
  generalize s.choosePort 0 = r at hport hchoose ⊢
  obtain ⟨p, s'⟩ := r
  dsimp only at hport hchoose ⊢
  subst hchoose
  cases hp : s'.onPort s.nextEphemeral with
  | some k =>
    obtain ⟨huse, heq⟩ := onPort_some hp
    rw [hport] at huse heq
    exact ⟨fun h => absurd rfl h, fun h => absurd heq (h k huse)⟩
  | none =>
    have hbound := fun i hi => onPort_none hp i hi
    simp only [hport] at hbound
    refine ⟨fun _ => hbound, fun _ => ?_⟩
    obtain ⟨i, hi⟩ := hfree
    cases hsome : first fun i => !(s'.socks i).inUse with
    | none =>
      have hno := first_none.mp hsome i
      rw [hport, hi] at hno
      exact absurd hno Bool.noConfusion
    | some k => exact Option.some_ne_none k

theorem ephemeralOk_iff (s : UdpStack) (call : PortCall) :
    s.EphemeralOk call ↔ s.CounterFree call :=
  forall₂_congr fun _ hfree => udpBind_zero_iff hfree

end UdpStack

open UdpStack

/-- In every run of `udp_bind` and `udp_close` the sockets in use have ports of their own, and
`udp_bind(0)` succeeds whenever a socket is free exactly if the counter is never at a bound port
then. -/
theorem udp_ephemeral (calls : List PortCall) :
    After (fun s call => some (portStep s call)) OnePort udpInit calls ∧
      (Along (fun s call => some (portStep s call)) EphemeralOk udpInit calls ↔
        Along (fun s call => some (portStep s call)) CounterFree udpInit calls) := by
  refine ⟨After.of_inv (fun s call h => h.step call) calls udpInit onePort_init, ?_⟩
  exact Along.iff_of_inv (fun s call _ => ephemeralOk_iff s call)
    (fun _ _ _ _ _ _ => trivial) calls udpInit trivial

/-- The first ephemeral port is bound explicitly, and `udp_bind(0)` fails with seven sockets
free. -/
theorem not_udp_ephemeral :
    ¬ Along (fun s call => some (portStep s call)) EphemeralOk udpInit
      [.bind 50000, .bind 0] := by
  intro h
  refine (h.2 _ rfl).1 rfl ⟨1, ?_⟩ ?_ <;> decide +kernel

end VernisOS
