import Mathlib.Data.Fintype.Sigma
import Mathlib.Data.Fintype.Sum
import Mathlib.Logic.Equiv.Basic
import Mathlib.Tactic.DeriveFintype
import VernisOS.PagingFrames

/-!
# The page tables as trees

Who holds a frame : the kernel, a function that has just allocated it, or a node of the
page table of an address space. A `Ghost` says what every holder has, and `Inv` that
physical memory, the free list and the reference counts are as it says. A frame with two
holders is mapped read-only by both, in two address spaces.
-/

namespace VernisOS

/-! ## Holders -/

/-- The places of a page table for the first gigabyte : the three upper tables, the tables
of 4 KB pages, and the pages. -/
inductive Node where
  | pml4
  | pdpt
  | pd
  | pt (i : Fin 512)
  | page (i j : Fin 512)
  deriving DecidableEq, Fintype

namespace Node

/-- The table and the index where the entry for a node stands. User tables start at 64. -/
def parent : Node → Option (Node × Fin 512)
  | pml4 => none
  | pdpt => some (pml4, 0)
  | pd => some (pdpt, 0)
  | pt i => if 64 ≤ i then some (pd, i) else none
  | page i j => some (pt i, j)

/-- The node is a page, not a table. -/
def isPage : Node → Bool
  | page _ _ => true
  | _ => false

theorem parent_inj {c c' : Node} {p : Node × Fin 512} (h : c.parent = some p)
    (h' : c'.parent = some p) : c = c' := by
  cases c <;> cases c' <;> simp only [parent] at h h' <;> grind

theorem isPage_of_parent {c n : Node} {k : Fin 512} (h : c.parent = some (n, k)) :
    n.isPage = false := by
  cases c with
  | pml4 => exact absurd h.symm (Option.some_ne_none _)
  | pt i =>
    obtain ⟨-, hp⟩ := Option.ite_none_right_eq_some.mp h
    obtain ⟨rfl, -⟩ := Prod.mk.inj (Option.some.inj hp)
    rfl
  | _ =>
    obtain ⟨rfl, -⟩ := Prod.mk.inj (Option.some.inj h)
    rfl

theorem ne_pml4_of_parent {c n : Node} {k : Fin 512} (h : c.parent = some (n, k)) :
    c ≠ pml4 := by
  rintro rfl
  exact Option.some_ne_none _ h.symm

theorem not_isPage_parent {c n : Node} {k : Fin 512} (hc : c.isPage = true)
    (h : n.parent = some (c, k)) : False := by
  rw [isPage_of_parent h] at hc
  exact Bool.noConfusion hc

end Node

/-- An address space : that of a task slot, or one that is being built or taken down. -/
abbrev SpaceId := Option (Fin 8)

/-- Who may refer to a frame. -/
inductive Holder where
  | boot (k : Fin 1024)
  | hand (k : Fin 3)
  | node (s : SpaceId) (n : Node)
  deriving DecidableEq, Fintype

namespace Holder

/-- What a frame is shared between. -/
def side : Holder → Option (Fin 3 ⊕ SpaceId)
  | boot _ => none
  | hand k => some (Sum.inl k)
  | node s _ => some (Sum.inr s)

/-- The holder is a table of an address space. -/
def isTable : Holder → Bool
  | node _ n => !n.isPage
  | _ => false

end Holder

open Holder

/-- How a frame is mapped : writable, copy-on-write, or for reading only. -/
inductive Mode where
  | writable
  | cow
  | fixed
  deriving DecidableEq

namespace Mode

/-- The flags of an entry. -/
def flags : Mode → UInt64
  | writable => 0x7
  | cow => 0x205
  | fixed => 0x5

/-- The mode of a page that `paging_clone_user_pages` has shared. -/
def shared : Mode → Mode
  | fixed => fixed
  | _ => cow

end Mode

/-- A reference to a frame. -/
structure Ref where
  frame : UInt64
  mode : Mode

/-- User code cannot write through the reference. -/
def Ref.readOnly (r : Ref) : Bool :=
  r.mode != .writable

/-- The reference to a page that `paging_clone_user_pages` has shared. -/
def Ref.shared (r : Ref) : Ref :=
  ⟨r.frame, r.mode.shared⟩

theorem Ref.readOnly_shared (r : Ref) : r.shared.readOnly = true := by
  unfold Ref.readOnly Ref.shared
  cases r.mode <;> rfl

theorem Ref.shared_eq {r : Ref} (h : r.mode ≠ .writable) : r.shared = r := by
  obtain ⟨f, mode⟩ := r
  cases mode
  · exact absurd rfl h
  · rfl
  · rfl

/-- The entry of a table for a reference. -/
def Ref.entry (r : Ref) : UInt64 :=
  r.frame ||| r.mode.flags

/-- The entry of a table, 0 for nothing. -/
def entryOf : Option Ref → UInt64
  | none => 0
  | some r => r.entry

/-- What every holder has. -/
abbrev Ghost := Holder → Option Ref

/-- The frames that the holders have. -/
def Ghost.frames (G : Ghost) : Holder → Option UInt64 :=
  Option.map Ref.frame ∘ G

theorem Ghost.frames_eq {G : Ghost} {w : Holder} {r : Ref} (h : G w = some r) :
    G.frames w = some r.frame := by
  simp [Ghost.frames, h]

theorem Ghost.frames_none {G : Ghost} {w : Holder} (h : G w = none) : G.frames w = none := by
  simp [Ghost.frames, h]

theorem Ghost.of_frames {G : Ghost} {w : Holder} {f : UInt64} (h : G.frames w = some f) :
    ∃ r, G w = some r ∧ r.frame = f := by
  simpa [Ghost.frames] using h

theorem Ghost.frames_update (G : Ghost) (w : Holder) (x : Option Ref) :
    Ghost.frames (Function.update G w x) = Function.update G.frames w (x.map Ref.frame) :=
  Function.comp_update _ _ _ _

/-! ## Sharing -/

/-- Only pages are read-only, and only read-only frames have two holders, which are in
different address spaces then. -/
structure Separate (G : Ghost) : Prop where
  page : ∀ w r, G w = some r → r.readOnly = true →
    (∃ s i j, w = node s (.page i j)) ∨ ∃ k, w = hand k
  sep : ∀ w w' r r', G w = some r → G w' = some r' → r.frame = r'.frame → w ≠ w' →
    r.readOnly = true ∧ r'.readOnly = true ∧ w.side ≠ w'.side

namespace Separate

variable {G : Ghost} {w w' : Holder} {r r' x : Ref}

/-- A writable frame has one holder. -/
theorem exclusive (h : Separate G) (hw : G w = some r) (hcow : r.readOnly = false)
    (hw' : G w' = some r') (he : r'.frame = r.frame) : w' = w := by
  by_contra hne
  have hr := (h.sep w' w r' r hw' hw he hne).2.1
  rw [hcow] at hr
  exact Bool.noConfusion hr

theorem writable_of_isTable (h : Separate G) (hw : G w = some r) (ht : w.isTable = true) :
    r.readOnly = false := by
  cases hc : r.readOnly with
  | false => rfl
  | true =>
    rcases h.page w r hw hc with ⟨s, i, j, rfl⟩ | ⟨k, rfl⟩
    · exact absurd ht Bool.noConfusion
    · exact absurd ht Bool.noConfusion

theorem writable_of_boot (h : Separate G) {k : Fin 1024} (hw : G (boot k) = some r) :
    r.readOnly = false := by
  cases hc : r.readOnly with
  | false => rfl
  | true =>
    rcases h.page _ r hw hc with ⟨s, i, j, he⟩ | ⟨k, he⟩
    · exact absurd he Holder.noConfusion
    · exact absurd he Holder.noConfusion

/-- A holder takes a frame that nobody has. -/
theorem take (h : Separate G) (hcow : x.readOnly = false)
    (hunused : ∀ v r, G v = some r → r.frame ≠ x.frame) :
    Separate (Function.update G w (some x)) := by
  refine ⟨fun v r hv hc => ?_, fun v v' r r' hv hv' he hne => ?_⟩
  · by_cases hvw : v = w
    · subst hvw
      rw [Function.update_self, Option.some.injEq] at hv
      rw [← hv, hcow] at hc
      exact absurd hc Bool.noConfusion
    · rw [Function.update_of_ne hvw] at hv
      exact h.page v r hv hc
  · by_cases hvw : v = w
    · subst hvw
      rw [Function.update_self, Option.some.injEq] at hv
      rw [Function.update_of_ne (Ne.symm hne)] at hv'
      exact absurd (hv ▸ he.symm) (hunused v' r' hv')
    · rw [Function.update_of_ne hvw] at hv
      by_cases hvw' : v' = w
      · subst hvw'
        rw [Function.update_self, Option.some.injEq] at hv'
        exact absurd (hv' ▸ he) (hunused v r hv)
      · rw [Function.update_of_ne hvw'] at hv'
        exact h.sep v v' r r' hv hv' he hne

/-- A holder gives its frame up. -/
theorem clear (h : Separate G) : Separate (Function.update G w none) := by
  have hold : ∀ v r, Function.update G w none v = some r → G v = some r := by
    intro v r hv
    by_cases hvw : v = w
    · subst hvw
      simp at hv
    · rwa [Function.update_of_ne hvw] at hv
  exact ⟨fun v r hv => h.page v r (hold v r hv),
    fun v v' r r' hv hv' => h.sep v v' r r' (hold v r hv) (hold v' r' hv')⟩

/-- What `w'` held goes to `w` and back. `w` held a frame of its own. -/
theorem swap (h : Separate G) {k : Fin 3} (hw : G (hand k) = some x) (hcow : x.readOnly = false) :
    Separate (G ∘ Equiv.swap (hand k) w) := by
  have hsep : ∀ v v' r r', (G ∘ Equiv.swap (hand k) w) v = some r →
      (G ∘ Equiv.swap (hand k) w) v' = some r' → r.frame = r'.frame → v ≠ v' →
      r.readOnly = true ∧ r'.readOnly = true ∧
        (Equiv.swap (hand k) w v).side ≠ (Equiv.swap (hand k) w v').side :=
    fun v v' r r' hv hv' he hne =>
      h.sep _ _ r r' hv hv' he fun heq => hne ((Equiv.swap (hand k) w).injective heq)
  have hnew : ∀ r, (G ∘ Equiv.swap (hand k) w) w = some r → r.readOnly = false := by
    intro r hr
    rw [Function.comp_apply, Equiv.swap_apply_right, hw, Option.some.injEq] at hr
    rw [← hr, hcow]
  have hfix : ∀ v, v ≠ hand k → v ≠ w → (Equiv.swap (hand k) w v).side = v.side := by
    intro v hk hvw
    rw [Equiv.swap_apply_of_ne_of_ne hk hvw]
  have hpage : ∀ v r, (G ∘ Equiv.swap (hand k) w) v = some r → r.readOnly = true →
      (∃ s i j, v = node s (.page i j)) ∨ ∃ k, v = hand k := by
    intro v r hv hc
    by_cases hvk : v = hand k
    · exact Or.inr ⟨k, hvk⟩
    · by_cases hvw : v = w
      · subst hvw
        rw [hnew r hv] at hc
        exact absurd hc Bool.noConfusion
      · rw [Function.comp_apply, Equiv.swap_apply_of_ne_of_ne hvk hvw] at hv
        exact h.page v r hv hc
  -- a read-only frame in the hand is shared with pages and with no other hand
  have hhand : ∀ v r, (G ∘ Equiv.swap (hand k) w) v = some r → r.readOnly = true → v ≠ hand k →
      (hand k).side ≠ v.side := by
    intro v r hv hc hne
    rcases hpage v r hv hc with ⟨s, i, j, rfl⟩ | ⟨l, rfl⟩
    · simp [side]
    · simpa [side, eq_comm] using hne
  refine ⟨hpage, fun v v' r r' hv hv' he hne => ?_⟩
  obtain ⟨hc, hc', hside⟩ := hsep v v' r r' hv hv' he hne
  refine ⟨hc, hc', ?_⟩
  by_cases hvk : v = hand k
  · subst hvk
    exact hhand v' r' hv' hc' (Ne.symm hne)
  · by_cases hvk' : v' = hand k
    · subst hvk'
      exact (hhand v r hv hc hne).symm
    · have hvw : v ≠ w := by
        rintro rfl
        rw [hnew r hv] at hc
        exact Bool.noConfusion hc
      have hvw' : v' ≠ w := by
        rintro rfl
        rw [hnew r' hv'] at hc'
        exact Bool.noConfusion hc'
      rwa [hfix v hvk hvw, hfix v' hvk' hvw'] at hside

/-- A page changes its mode, to writable only with no other holder of its frame. -/
theorem setMode (h : Separate G) {s : SpaceId} {i j : Fin 512}
    (hw : G (node s (.page i j)) = some r) {c : Mode}
    (hsole : c = .writable → ∀ v r', G v = some r' → r'.frame = r.frame → v = node s (.page i j)) :
    Separate (Function.update G (node s (.page i j)) (some ⟨r.frame, c⟩)) := by
  refine ⟨fun v r' hv hc => ?_, fun v v' r₁ r₂ hv hv' he hne => ?_⟩
  · by_cases hvw : v = node s (.page i j)
    · exact Or.inl ⟨s, i, j, hvw⟩
    · rw [Function.update_of_ne hvw] at hv
      exact h.page v r' hv hc
  · by_cases hvw : v = node s (.page i j)
    · subst hvw
      rw [Function.update_self, Option.some.injEq] at hv
      rw [Function.update_of_ne (Ne.symm hne)] at hv'
      subst hv
      obtain ⟨_, hc', hside⟩ := h.sep _ v' r r₂ hw hv' he hne
      by_cases hc : c = .writable
      · exact absurd (hsole hc v' r₂ hv' he.symm) (Ne.symm hne)
      · exact ⟨by simp [Ref.readOnly, hc], hc', hside⟩
    · rw [Function.update_of_ne hvw] at hv
      by_cases hvw' : v' = node s (.page i j)
      · subst hvw'
        rw [Function.update_self, Option.some.injEq] at hv'
        subst hv'
        obtain ⟨hc', _, hside⟩ := h.sep v _ r₁ r hv hw he hne
        by_cases hc : c = .writable
        · exact absurd (hsole hc v r₁ hv he) hne
        · exact ⟨hc', by simp [Ref.readOnly, hc], hside⟩
      · rw [Function.update_of_ne hvw'] at hv'
        exact h.sep v v' r₁ r₂ hv hv' he hne

/-- A read-only page is mapped in a further address space. -/
theorem share (h : Separate G) {s : SpaceId} {i j : Fin 512} (hw : G w = some r)
    (hcow : r.readOnly = true) (hnew : ∀ n r', G (node s n) = some r' → r'.frame ≠ r.frame) :
    Separate (Function.update G (node s (.page i j)) (some r)) := by
  have hside : ∀ v r', G v = some r' → r'.frame = r.frame →
      r'.readOnly = true ∧ v.side ≠ (node s (.page i j)).side := by
    intro v r' hv he
    have hc : r'.readOnly = true := by
      by_cases hvw : v = w
      · subst hvw
        rw [hw, Option.some.injEq] at hv
        rw [← hv, hcow]
      · exact (h.sep v w r' r hv hw he hvw).1
    refine ⟨hc, fun hs => ?_⟩
    rcases h.page v r' hv hc with ⟨s', i', j', rfl⟩ | ⟨k, rfl⟩
    · simp only [side, Option.some.injEq, Sum.inr.injEq] at hs
      subst hs
      exact hnew _ r' hv he
    · simp [side] at hs
  refine ⟨fun v r' hv hc => ?_, fun v v' r₁ r₂ hv hv' he hne => ?_⟩
  · by_cases hvw : v = node s (.page i j)
    · exact Or.inl ⟨s, i, j, hvw⟩
    · rw [Function.update_of_ne hvw] at hv
      exact h.page v r' hv hc
  · by_cases hvw : v = node s (.page i j)
    · subst hvw
      rw [Function.update_self, Option.some.injEq] at hv
      rw [Function.update_of_ne (Ne.symm hne)] at hv'
      subst hv
      obtain ⟨hc', hs⟩ := hside v' r₂ hv' he.symm
      exact ⟨hcow, hc', hs.symm⟩
    · rw [Function.update_of_ne hvw] at hv
      by_cases hvw' : v' = node s (.page i j)
      · subst hvw'
        rw [Function.update_self, Option.some.injEq] at hv'
        subst hv'
        obtain ⟨hc', hs⟩ := hside v r₁ hv he
        exact ⟨hc', hcow, hs⟩
      · rw [Function.update_of_ne hvw'] at hv'
        exact h.sep v v' r₁ r₂ hv hv' he hne

/-- Each address space maps a frame once, so the count of a frame stays small. -/
theorem uses_lt (h : Separate G) (f : UInt64) : Ledger.uses G.frames f < 255 := by
  have hle : Ledger.uses G.frames f ≤ Fintype.card (Option (Fin 3 ⊕ SpaceId)) := by
    refine Ledger.uses_le_card side fun v v' hv hv' hs => ?_
    obtain ⟨r, hr, hf⟩ := Ghost.of_frames hv
    obtain ⟨r', hr', hf'⟩ := Ghost.of_frames hv'
    by_contra hne
    exact (h.sep v v' r r' hr hr' (hf.trans hf'.symm) hne).2.2 hs
  have hcard : Fintype.card (Option (Fin 3 ⊕ SpaceId)) = 13 := by simp
  omega

end Separate

/-! ## The tables in memory -/

/-- The tables of every address space have the entries that `G` says, and their other
entries are closed to user code. -/
structure Shape (mem : UInt64 → Page) (G : Ghost) : Prop where
  entry : ∀ s c n k r, Node.parent c = some (n, k) → G (node s n) = some r →
    mem r.frame k = entryOf (G (node s c))
  rooted : ∀ s c r, G (node s c) = some r → c ≠ .pml4 →
    ∃ n k r', Node.parent c = some (n, k) ∧ G (node s n) = some r'
  full : ∀ s r, G (node s .pml4) = some r → ∃ r', G (node s .pd) = some r'
  closed : ∀ s n k r, G (node s n) = some r → n.isPage = false →
    (∀ c, Node.parent c ≠ some (n, k)) → mem r.frame k &&& pageUser = 0

namespace Shape

variable {mem mem' : UInt64 → Page} {G G' : Ghost} {s : SpaceId} {c n : Node} {k : Fin 512}
  {r x : Ref}

theorem congr (h : Shape mem G) (hG : ∀ s n, G' (node s n) = G (node s n))
    (hmem : ∀ s n r, G (node s n) = some r → n.isPage = false → mem' r.frame = mem r.frame) :
    Shape mem' G' where
  entry s c n k r hp hn := by
    rw [hG] at hn ⊢
    rw [hmem s n r hn (Node.isPage_of_parent hp), h.entry s c n k r hp hn]
  rooted s c r hc hne := by
    rw [hG] at hc
    obtain ⟨n, k, r', hp, hn⟩ := h.rooted s c r hc hne
    exact ⟨n, k, r', hp, (hG s n).trans hn⟩
  full s r hr := by
    rw [hG] at hr ⊢
    exact h.full s r hr
  closed s n k r hn hpage hc := by
    rw [hG] at hn
    rw [hmem s n r hn hpage, h.closed s n k r hn hpage hc]

/-- Under a node that is not there, there is nothing. -/
theorem orphan (h : Shape mem G) {k : Fin 512} (hp : c.parent = some (n, k))
    (hn : G (node s n) = none) : G (node s c) = none := by
  cases hc : G (node s c) with
  | none => rfl
  | some r =>
    obtain ⟨n', k', r', hp', hn'⟩ := h.rooted s c r hc (Node.ne_pml4_of_parent hp)
    rw [hp, Option.some.injEq, Prod.mk.injEq] at hp'
    rw [← hp'.1, hn] at hn'
    simp at hn'

/-- Write the entry for a node : a page, or a table whose frame is zeroed. -/
theorem link (h : Shape mem G) (hp : c.parent = some (n, k)) (hn : G (node s n) = some r)
    (hother : ∀ s' n', (s', n') ≠ (s, c) → G' (node s' n') = G (node s' n'))
    (hself : G' (node s c) = some x)
    (htables : ∀ s' n' r', G (node s' n') = some r' → n'.isPage = false →
      r'.frame = r.frame → s' = s ∧ n' = n)
    (hchild : c.isPage = true ∨
      G (node s c) = none ∧ (mem x.frame = fun _ => 0) ∧ x.frame ≠ r.frame) :
    Shape (Function.update mem r.frame (Function.update (mem r.frame) k x.entry)) G' := by
  have hcn : n ≠ c := by
    rintro rfl
    cases n <;> simp [Node.parent] at hp
  have hold : ∀ s' n', (s', n') ≠ (s, c) → ∀ r', G' (node s' n') = some r' →
      G (node s' n') = some r' := fun s' n' hne r' h' => (hother s' n' hne).symm.trans h'
  refine ⟨fun s' c' n' k' r' hp' hn' => ?_, fun s' c' r' hc' hne => ?_, fun s' r' hr' => ?_,
    fun s' n' k' r' hn' hpage hc' => ?_⟩
  · by_cases hsn : (s', n') = (s, c)
    · -- the new node itself : a table without children
      obtain ⟨rfl, rfl⟩ := Prod.mk.inj hsn
      rcases hchild with hpage | ⟨hnone, hzero, hne⟩
      · exact (Node.not_isPage_parent hpage hp').elim
      · rw [hself, Option.some.injEq] at hn'
        have hcc : c' ≠ n' := by
          rintro rfl
          cases c' <;> simp [Node.parent] at hp'
        rw [← hn', Function.update_of_ne hne, hzero,
          hother _ _ (fun he => hcc (Prod.mk.inj he).2), h.orphan hp' hnone]
        rfl
    · have hn'' := hold s' n' hsn r' hn'
      by_cases hfr : r'.frame = r.frame
      · obtain ⟨rfl, rfl⟩ := htables s' n' r' hn'' (Node.isPage_of_parent hp') hfr
        rw [hfr, Function.update_self]
        by_cases hk : k' = k
        · subst hk
          rw [Function.update_self, Node.parent_inj hp' hp, hself]
          rfl
        · have hcc : c' ≠ c := by
            rintro rfl
            rw [hp, Option.some.injEq, Prod.mk.injEq] at hp'
            exact hk hp'.2.symm
          rw [Function.update_of_ne hk, hother _ _ (fun he => hcc (Prod.mk.inj he).2), ← hfr]
          exact h.entry _ c' _ k' r' hp' hn''
      · have hcc : (s', c') ≠ (s, c) := by
          rintro he
          obtain ⟨rfl, rfl⟩ := Prod.mk.inj he
          rw [hp, Option.some.injEq, Prod.mk.injEq] at hp'
          rw [← hp'.1, hn, Option.some.injEq] at hn''
          exact hfr (congrArg Ref.frame hn''.symm)
        rw [Function.update_of_ne hfr, hother s' c' hcc]
        exact h.entry s' c' n' k' r' hp' hn''
  · by_cases hsc : (s', c') = (s, c)
    · obtain ⟨rfl, rfl⟩ := Prod.mk.inj hsc
      exact ⟨n, k, r, hp, (hother _ n (fun he => hcn (Prod.mk.inj he).2)).trans hn⟩
    · obtain ⟨n', k', r'', hp', hn'⟩ := h.rooted s' c' r' (hold s' c' hsc r' hc') hne
      by_cases hsn : (s', n') = (s, c)
      · obtain ⟨rfl, rfl⟩ := Prod.mk.inj hsn
        exact ⟨n', k', x, hp', hself⟩
      · exact ⟨n', k', r'', hp', (hother s' n' hsn).trans hn'⟩
  · have hne : (s', Node.pml4) ≠ (s, c) := fun he =>
      Node.ne_pml4_of_parent hp (Prod.mk.inj he).2.symm
    obtain ⟨r'', hr''⟩ := h.full s' r' (hold s' .pml4 hne r' hr')
    by_cases hsc : (s', Node.pd) = (s, c)
    · obtain ⟨rfl, rfl⟩ := Prod.mk.inj hsc
      exact ⟨x, hself⟩
    · exact ⟨r'', (hother s' .pd hsc).trans hr''⟩
  · by_cases hsn : (s', n') = (s, c)
    · obtain ⟨rfl, rfl⟩ := Prod.mk.inj hsn
      rcases hchild with hpg | ⟨_, hzero, hne⟩
      · rw [hpg] at hpage
        exact absurd hpage Bool.noConfusion
      · rw [hself, Option.some.injEq] at hn'
        rw [← hn', Function.update_of_ne hne, hzero, UInt64.zero_and]
    · have hn'' := hold s' n' hsn r' hn'
      by_cases hfr : r'.frame = r.frame
      · obtain ⟨rfl, rfl⟩ := htables s' n' r' hn'' hpage hfr
        have hk : k' ≠ k := by
          rintro rfl
          exact hc' c hp
        rw [hfr, Function.update_self, Function.update_of_ne hk, ← hfr]
        exact h.closed _ _ k' r' hn'' hpage hc'
      · rw [Function.update_of_ne hfr]
        exact h.closed s' n' k' r' hn'' hpage hc'

end Shape

/-! ## The invariant -/

/-- Memory and allocator are as `G` says. What the kernel holds is what it held in `b`, and
its memory has not changed. -/
structure Inv (b m : PagingState) (G : Ghost) : Prop where
  accounts : Accounts b m G.frames
  separate : Separate G
  shape : Shape m.mem G
  kernel_mem : ∀ k r, G (boot k) = some r → m.mem r.frame = b.mem r.frame
  kernel_iff : ∀ f, (∃ k r, G (boot k) = some r ∧ r.frame = f) ↔ Known b f

namespace Inv

variable {b m m' : PagingState} {G G' : Ghost} {s : SpaceId} {c n : Node} {k : Fin 512}
  {l : Fin 3} {r x : Ref} {w : Holder}

theorem isFrame (h : Inv b m G) (hw : G w = some r) : IsFrame r.frame :=
  h.accounts.isFrame (Ghost.frames_eq hw)

theorem ne_zero (h : Inv b m G) (hw : G w = some r) : r.frame ≠ 0 :=
  h.accounts.ne_zero (Ghost.frames_eq hw)

/-- A table of an address space is nobody else's. -/
theorem table_unique (h : Inv b m G) (hn : G (node s n) = some r) (hpage : n.isPage = false)
    {v : Holder} {r' : Ref} (hv : G v = some r') (he : r'.frame = r.frame) : v = node s n :=
  h.separate.exclusive hn (h.separate.writable_of_isTable hn (by simp [isTable, hpage])) hv he

/-- A frame is found in the hand of a function that allocates. -/
theorem alloc (h : Inv b m G) (hl : G (hand l) = none)
    (hok : (frameAlloc m).2.outOfFrames = false) :
    Inv b (frameAlloc m).2 (Function.update G (hand l) (some ⟨(frameAlloc m).1, .writable⟩)) ∧
      (∀ w r, G w = some r → r.frame ≠ (frameAlloc m).1) ∧
      (frameAlloc m).2.mem = Function.update m.mem (frameAlloc m).1 fun _ => 0 := by
  obtain ⟨hacc, hunused, hmem⟩ := h.accounts.alloc (Ghost.frames_none hl) hok
  have hnew : ∀ w r, G w = some r → r.frame ≠ (frameAlloc m).1 := by
    intro w r hw he
    exact hunused w (he ▸ Ghost.frames_eq hw)
  refine ⟨⟨?_, h.separate.take rfl hnew, ?_, fun k r hk => ?_, fun f => ?_⟩, hnew, hmem⟩
  · rw [Ghost.frames_update]
    exact hacc
  · refine h.shape.congr (fun s n => Function.update_of_ne Holder.noConfusion _ _) ?_
    intro s n r hn _
    rw [hmem, Function.update_of_ne (hnew _ r hn)]
  · rw [Function.update_of_ne Holder.noConfusion] at hk
    rw [hmem, Function.update_of_ne (hnew _ r hk), h.kernel_mem k r hk]
  · rw [← h.kernel_iff f]
    simp only [Function.update_of_ne (Holder.noConfusion : boot _ ≠ hand l)]

/-- A frame that one holder has for itself, and that is no table, may be written. -/
theorem writeData (h : Inv b m G) (hw : G w = some x) (hcow : x.readOnly = false)
    (htable : w.isTable = false) (hkernel : ∀ k, w ≠ boot k) (p : Page) :
    Inv b (m.writePage x.frame p) G := by
  have hne : ∀ v r, G v = some r → v ≠ w → r.frame ≠ x.frame := fun v r hv hvw he =>
    hvw (h.separate.exclusive hw hcow hv he)
  refine ⟨h.accounts.writePage x.frame p, h.separate, h.shape.congr (fun _ _ => rfl) ?_,
    fun k r hk => ?_, h.kernel_iff⟩
  · intro s n r hn hpage
    refine Function.update_of_ne (hne _ r hn ?_) _ _
    rintro rfl
    simp [isTable, hpage] at htable
  · rw [← h.kernel_mem k r hk]
    exact Function.update_of_ne (hne _ r hk (hkernel k).symm) _ _

/-- The frame in the hand is filled. -/
theorem writeHand (h : Inv b m G) (hl : G (hand l) = some x) (hcow : x.readOnly = false) (p : Page) :
    Inv b (m.writePage x.frame p) G :=
  h.writeData hl hcow rfl (fun _ => Holder.noConfusion) p

/-- The frame in the hand is given up. -/
theorem freeHand (h : Inv b m G) (hl : G (hand l) = some x) :
    Inv b (frameFree m x.frame) (Function.update G (hand l) none) := by
  refine ⟨?_, h.separate.clear, h.shape.congr ?_ ?_, fun k r hk => ?_, fun f => ?_⟩
  · rw [Ghost.frames_update]
    exact h.accounts.free (Ghost.frames_eq hl)
  · exact fun s n => Function.update_of_ne Holder.noConfusion _ _
  · intro s n r _ _
    rw [frameFree_mem]
  · rw [Function.update_of_ne Holder.noConfusion] at hk
    rw [frameFree_mem, h.kernel_mem k r hk]
  · rw [← h.kernel_iff f]
    simp only [Function.update_of_ne (Holder.noConfusion : boot _ ≠ hand l)]

/-- The entry for the node `c` is written, whatever happens to the hands. -/
theorem link (h : Inv b m G) (hp : c.parent = some (n, k)) (hn : G (node s n) = some r)
    (hacc : Accounts b m' G'.frames) (hsep : Separate G')
    (hmem : m'.mem = Function.update m.mem r.frame (Function.update (m.mem r.frame) k x.entry))
    (hother : ∀ v, v ≠ node s c → (∀ l, v ≠ hand l) → G' v = G v)
    (hself : G' (node s c) = some x)
    (hchild : c.isPage = true ∨
      G (node s c) = none ∧ (m.mem x.frame = fun _ => 0) ∧ x.frame ≠ r.frame) :
    Inv b m' G' := by
  have hpage := Node.isPage_of_parent hp
  refine ⟨hacc, hsep, ?_, fun k' r' hk' => ?_, fun f => ?_⟩
  · rw [hmem]
    refine h.shape.link hp hn (fun s' n' hne => ?_) hself (fun s' n' r' hn' _ he => ?_) hchild
    · refine hother _ (fun he => hne ?_) fun _ => Holder.noConfusion
      rw [Holder.node.injEq] at he
      rw [he.1, he.2]
    · have he' := h.table_unique hn hpage hn' he
      rwa [Holder.node.injEq] at he'
  · rw [hother _ Holder.noConfusion fun _ => Holder.noConfusion] at hk'
    have hne : r'.frame ≠ r.frame := fun he =>
      Holder.noConfusion (h.table_unique hn hpage hk' he)
    rw [hmem, Function.update_of_ne hne, h.kernel_mem k' r' hk']
  · rw [← h.kernel_iff f]
    have hk : ∀ k', G' (boot k') = G (boot k') := fun k' =>
      hother _ Holder.noConfusion fun _ => Holder.noConfusion
    simp only [hk]

/-- The frame in the hand becomes the node `c`, and what was there goes to the hand. -/
theorem linkHand (h : Inv b m G) (hp : c.parent = some (n, k)) (hn : G (node s n) = some r)
    (hl : G (hand l) = some x) (hcow : x.readOnly = false)
    (hchild : c.isPage = true ∨ G (node s c) = none ∧ m.mem x.frame = fun _ => 0) :
    Inv b (m.writeEntry r.frame k x.entry) (G ∘ Equiv.swap (hand l) (node s c)) := by
  refine h.link hp hn ?_ (h.separate.swap hl hcow) rfl (fun v hv hv' => ?_) ?_ ?_
  · obtain ⟨hpool, hbase, hkernel, hledger⟩ := h.accounts.writeEntry r.frame k x.entry
    exact ⟨hpool, hbase, hkernel, hledger.comp _⟩
  · rw [Function.comp_apply, Equiv.swap_apply_of_ne_of_ne (hv' l) hv]
  · rw [Function.comp_apply, Equiv.swap_apply_right, hl]
  · refine hchild.imp_right fun hc => ⟨hc.1, hc.2, fun he => ?_⟩
    exact Holder.noConfusion (h.table_unique hn (Node.isPage_of_parent hp) hl he)

/-- A page changes its mode, to writable only if its frame has no other holder. -/
theorem setMode (h : Inv b m G) {i j : Fin 512} (hn : G (node s (.pt i)) = some r)
    (hx : G (node s (.page i j)) = some x) {a : Mode}
    (hsole : a = .writable → ∀ v r', G v = some r' → r'.frame = x.frame → v = node s (.page i j)) :
    Inv b (m.writeEntry r.frame j (Ref.entry ⟨x.frame, a⟩))
      (Function.update G (node s (.page i j)) (some ⟨x.frame, a⟩)) := by
  refine h.link (c := .page i j) (x := ⟨x.frame, a⟩) rfl hn ?_ (h.separate.setMode hx hsole) rfl
    (fun v hv _ => Function.update_of_ne hv _ _) (Function.update_self _ _ _) (Or.inl rfl)
  have hframes : Ghost.frames (Function.update G (node s (.page i j)) (some ⟨x.frame, a⟩))
      = G.frames := by
    rw [Ghost.frames_update]
    exact Function.update_eq_self_iff.mpr (Ghost.frames_eq hx).symm
  rw [hframes]
  exact h.accounts.writeEntry _ _ _

/-- The frame in the hand becomes a page that was not there, in any mode. -/
theorem linkNew (h : Inv b m G) {i j : Fin 512} (mode : Mode) {f : UInt64}
    (hn : G (node s (.pt i)) = some r) (hl : G (hand l) = some ⟨f, .writable⟩)
    (hnone : G (node s (.page i j)) = none) :
    ∃ G', Inv b (m.writeEntry r.frame j (Ref.entry ⟨f, mode⟩)) G' ∧
      G' (node s (.page i j)) = some ⟨f, mode⟩ ∧ G' (hand l) = none ∧
      ∀ w, w ≠ hand l → w ≠ node s (.page i j) → G' w = G w := by
  have h₁ := h.linkHand (c := .page i j) rfl hn hl rfl (Or.inl rfl)
  set G₁ := G ∘ Equiv.swap (hand l) (node s (.page i j)) with hG₁
  have hswap : ∀ w, w ≠ hand l → w ≠ node s (.page i j) → G₁ w = G w := by
    intro w hw hw'
    rw [hG₁, Function.comp_apply, Equiv.swap_apply_of_ne_of_ne hw hw']
  have hself : G₁ (node s (.page i j)) = some ⟨f, .writable⟩ := by
    rw [hG₁, Function.comp_apply, Equiv.swap_apply_right, hl]
  have hhand : G₁ (hand l) = none := by
    rw [hG₁, Function.comp_apply, Equiv.swap_apply_left, hnone]
  have h₂ := h₁.setMode (a := mode) ((hswap _ Holder.noConfusion (by simp)).trans hn) hself
    fun _ v r' hv he => h₁.separate.exclusive hself rfl hv he
  have hmem : (m.writeEntry r.frame j (Ref.entry ⟨f, .writable⟩)).writeEntry r.frame j
      (Ref.entry ⟨f, mode⟩) = m.writeEntry r.frame j (Ref.entry ⟨f, mode⟩) := by
    simp [PagingState.writeEntry, PagingState.writePage]
  rw [hmem] at h₂
  refine ⟨_, h₂, Function.update_self _ _ _, ?_, fun w hw hw' => ?_⟩
  · rw [Function.update_of_ne Holder.noConfusion, hhand]
  · rw [Function.update_of_ne hw', hswap w hw hw']

/-- A read-only page is mapped in a further address space, and counted. -/
theorem share (h : Inv b m G) {i j : Fin 512} (hn : G (node s (.pt i)) = some r)
    (hnone : G (node s (.page i j)) = none) (hw : G w = some x) (hcow : x.readOnly = true)
    (hnew : ∀ n r', G (node s n) = some r' → r'.frame ≠ x.frame) :
    Inv b (frameRefInc (m.writeEntry r.frame j x.entry) x.frame)
      (Function.update G (node s (.page i j)) (some x)) := by
  refine h.link (c := .page i j) (x := x) rfl hn ?_ (h.separate.share hw hcow hnew) ?_
    (fun v hv _ => Function.update_of_ne hv _ _) (Function.update_self _ _ _) (Or.inl rfl)
  · rw [Ghost.frames_update]
    exact (h.accounts.writeEntry r.frame j x.entry).refInc (Ghost.frames_none hnone)
      (Ghost.frames_eq hw) (h.separate.uses_lt x.frame)
  · rw [frameRefInc_mem]
    rfl

end Inv

end VernisOS
