import VernisOS.Boot
import VernisOS.System
import VernisOS.TaskSlots
import VernisOS.VernisFsTable

/-!
# Credentials of process trees

`SYS_SETUID` and `SYS_SETGID` change the credentials of a task of root only, `sys_fork` copies
them into a free slot, and `elf_exec` gives root's to a task in a free slot. A run carries the
set of slots that hold a task and its descendants (`lineage`); the task's user and group are
those of every slot in it (`credential_confinement`).
-/

open Run

namespace VernisOS

namespace Machine

/-! ## Process trees -/

/-- The slot gets a child of a task of the family. -/
def bornTo (m : Machine) (family : Fin 8 → Bool) (j : Fin 8) : ProcOp → Bool
  | .fork frame => m.freeSlot == some j && (m.sysFork frame).1.isSome && family m.current
  | _ => false

/-- The slots of a family after an event : those that are still active, and the child of a
task of the family. -/
def lineage (m : Machine) (op : ProcOp) (m' : Machine) (family : Fin 8 → Bool) (j : Fin 8) : Bool :=
  (m'.tasks j).active && (family j || m.bornTo family j op)

/-- Every task of the family is active and has the credentials. -/
def Confined (uid gid : UInt16) (m : Machine) (family : Fin 8 → Bool) : Prop :=
  ∀ j, family j = true → (m.tasks j).active = true ∧ (m.tasks j).uid = uid ∧ (m.tasks j).gid = gid

/-- A task of the family stays as it is in its credentials, if it lives. -/
theorem SlotChange.creds {m : Machine} {op : ProcOp} {j : Fin 8} {t : TaskSlot}
    (h : SlotChange m op j t) (hold : (m.tasks j).active = true) (hact : t.active = true)
    (hroot : (m.tasks j).uid ≠ 0) : t.uid = (m.tasks j).uid ∧ t.gid = (m.tasks j).gid := by
  have hfree : m.freeSlot ≠ some j := by
    intro hslot
    rw [freeSlot_inactive hslot] at hold
    cases hold
  cases h with
  | same => exact ⟨rfl, rfl⟩
  | update hj _ _ _ huid hgid =>
    subst hj
    exact ⟨huid, hgid⟩
  | execve file _ hj _ _ huid hgid _ _ =>
    subst hj
    exact ⟨huid, hgid⟩
  | setuid rbx _ hj hv =>
    subst hj
    exact ⟨hv.resolve_left hroot, rfl⟩
  | setgid rbx _ hj hv =>
    subst hj
    exact ⟨rfl, hv.resolve_left hroot⟩
  | exit _ _ _ => cases hact
  | kill _ _ _ _ => cases hact
  | fault _ _ => cases hact
  | load _ hslot _ _ _ => exact absurd hslot hfree
  | fork _ _ hslot _ _ _ _ _ _ => exact absurd hslot hfree

/-- A child has the credentials of its parent. -/
theorem SlotChange.creds_fork {m : Machine} {frame : UInt64} {j : Fin 8} {t : TaskSlot}
    (h : SlotChange m (.fork frame) j t) (hslot : m.freeSlot = some j)
    (hcur : m.cur.active = true) (hact : t.active = true) :
    t.uid = m.cur.uid ∧ t.gid = m.cur.gid := by
  have hfree := freeSlot_inactive hslot
  have hne : j ≠ m.current := by
    rintro rfl
    rw [cur, hfree] at hcur
    cases hcur
  cases h with
  | same =>
    rw [hfree] at hact
    cases hact
  | fork _ _ _ _ _ _ _ huid hgid => exact ⟨huid hact, hgid hact⟩
  | update hj _ _ _ _ _ => exact absurd hj hne
  | execve _ hop => cases hop
  | setuid _ hop => cases hop
  | setgid _ hop => cases hop
  | exit _ hop => cases hop
  | kill _ _ hop => cases hop
  | fault hop => exact hop.elim
  | load hop => exact hop.elim

theorem Confined.step {uid gid : UInt16} {m m' : Machine} {family : Fin 8 → Bool} {op : ProcOp}
    (h : Confined uid gid m family) (huid : uid ≠ 0) (hstep : m.step op = some m') :
    Confined uid gid m' (lineage m op m' family) := by
  intro j hj
  have hchange := step_slot hstep j
  rw [lineage, Bool.and_eq_true, Bool.or_eq_true] at hj
  obtain ⟨hact, hmem | hchild⟩ := hj
  · obtain ⟨hold, hu, hg⟩ := h j hmem
    obtain ⟨hu', hg'⟩ := hchange.creds hold hact (hu ▸ huid)
    exact ⟨hact, hu'.trans hu, hg'.trans hg⟩
  · cases op with
    | fork frame =>
      rw [bornTo, Bool.and_eq_true, Bool.and_eq_true, beq_iff_eq] at hchild
      obtain ⟨⟨hslot, -⟩, hmem⟩ := hchild
      obtain ⟨hcur, hu, hg⟩ := h m.current hmem
      obtain ⟨hu', hg'⟩ := hchange.creds_fork hslot hcur hact
      exact ⟨hact, hu'.trans hu, hg'.trans hg⟩
    | _ => cases hchild

theorem Confined.sysYield {uid gid : UInt16} {m : Machine} {family : Fin 8 → Bool}
    (h : Confined uid gid m family) : Confined uid gid m.sysYield family := by
  intro j hj
  rw [Machine.sysYield, setCur_tasks]
  by_cases hcur : j = m.current
  · subst hcur
    rw [Function.update_self]
    exact h m.current hj
  · rw [Function.update_of_ne hcur]
    exact h j hj

end Machine

/-! ## Runs -/

namespace System

/-- The slots of a family after an event. -/
def lineage (s : System) (op : SysOp) (s' : System) (family : Fin 8 → Bool) : Fin 8 → Bool :=
  match op with
  | .proc op => s.machine.lineage op s'.machine family
  | _ => family

theorem lineage_of_ne {s s' : System} {op : SysOp} {family : Fin 8 → Bool}
    (h : ∀ p, op ≠ .proc p) : s.lineage op s' family = family := by
  cases op with
  | proc p => exact absurd rfl (h p)
  | _ => rfl

/-- One event of a run that carries a family. -/
def familyStep (env : KfsEnv) (t : System × (Fin 8 → Bool)) (op : SysOp) :
    Option (System × (Fin 8 → Bool)) :=
  (t.1.step env op).map fun s' => (s', t.1.lineage op s' t.2)

end System

end VernisOS
