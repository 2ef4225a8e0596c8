import Mathlib.Data.Finset.Card
import Mathlib.Data.Nat.Notation
import VernisOS.Lib.Halting

/-!
# User memory as the kernel sees it

The part of `kernel/arch/x86_64/kernel_x64.c` through which a system call touches the
memory of the task that made it : the range checks on its pointers, and the page faults
that ring 0 takes. A page is what the walk of the task's page tables finds. A fault that
`interrupt_dispatch` does not resolve ends in `cli; hlt`, which is the `none` of the
program. Every user address that is dereferenced is kept in `accessed`.
-/

open Halting

namespace VernisOS

/-- `USER_VADDR_MIN_64`. -/
def userVaddrMin64 : UInt64 := 0x10000000

/-- `USER_VADDR_MAX_64`. -/
def userVaddrMax64 : UInt64 := 0x40000000

/-- `SYS_IO_PATH_MAX`. -/
abbrev sysIoPathMax : ℕ := 64

/-- `SYS_IO_BUF_MAX`. -/
abbrev sysIoBufMax : ℕ := 4096

/-- What the walk of the page tables finds for a page : nothing present, a page without
write permission, a writable one, or a copy-on-write one that has its frame alone
(reference count 1) or shares it. -/
inductive PageStatus where
  | unmapped
  | readOnly
  | writable
  | cowSole
  | cowShared
  deriving DecidableEq

/-- The memory of a task : its pages by number, its bytes, and the page frames left. -/
structure UserMemory where
  page : UInt64 → PageStatus
  byte : UInt64 → UInt8
  frames : ℕ

namespace UserMemory

/-- The page of an address. -/
def pageOf (va : UInt64) : UInt64 :=
  va >>> 12

/-- The address is mapped present. -/
def Present (m : UserMemory) (va : UInt64) : Prop :=
  m.page (pageOf va) ≠ .unmapped

instance (m : UserMemory) (va : UInt64) : Decidable (m.Present va) :=
  inferInstanceAs (Decidable (_ ≠ _))

/-- Make a page writable. -/
def makeWritable (m : UserMemory) (p : UInt64) : UserMemory :=
  { m with page := Function.update m.page p .writable }

/-- Take a page frame. -/
def takeFrame (m : UserMemory) : UserMemory :=
  { m with frames := m.frames - 1 }

/-- Resolve a write fault on a copy-on-write page; `none` if it is not one, or if there is
no frame for the private copy. -/
def pagingHandleCowFault (m : UserMemory) (va : UInt64) : Option UserMemory :=
  match m.page (pageOf va) with
  | .cowSole => some (m.makeWritable (pageOf va))
  | .cowShared => if m.frames = 0 then none else some (m.takeFrame.makeWritable (pageOf va))
  | _ => none

/-- A write in ring 0. `CR0.WP` is set, so that a page without write permission faults;
the handler resolves copy-on-write faults and no others. -/
def write (m : UserMemory) (va : UInt64) (b : UInt8) : Option UserMemory :=
  let m' := if m.page (pageOf va) = .writable then some m else m.pagingHandleCowFault va
  m'.map fun m => { m with byte := Function.update m.byte va b }

end UserMemory

/-- `user_ptr_range_valid_64`. -/
def userPtrRangeValid64 (addr len : UInt64) : Bool :=
  if addr = 0 ∨ len = 0 then false
  else if addr + len < addr then false
  else userVaddrMin64 ≤ addr && addr + len ≤ userVaddrMax64

/-- The address lies in the user range. -/
def InUserRange (va : UInt64) : Prop :=
  userVaddrMin64 ≤ va ∧ va < userVaddrMax64

instance (va : UInt64) : Decidable (InUserRange va) :=
  inferInstanceAs (Decidable (_ ∧ _))

/-- A NUL-terminated string in a `char [n]`, without its NUL. -/
abbrev CString (n : ℕ) : Type :=
  { l : List UInt8 // l.length < n }

/-- The empty path. -/
def emptyPath : CString sysIoPathMax :=
  ⟨[], by decide⟩

/-! ## Access -/

/-- User memory beside the state `κ` of the kernel, with the addresses dereferenced. -/
structure UserState (κ : Type) where
  mem : UserMemory
  accessed : List UInt64
  kernel : κ

/-- Code that runs in ring 0 and touches user memory. -/
abbrev UserM (κ α : Type) : Type :=
  StateT (UserState κ) Option α

section

variable {κ : Type}

/-- Note that addresses are dereferenced. -/
def UserState.access (s : UserState κ) (l : List UInt64) : UserState κ :=
  { s with accessed := s.accessed ++ l }

/-- Read a byte of user memory. -/
def readUser (va : UInt64) : UserM κ UInt8 := fun s =>
  if s.mem.page (UserMemory.pageOf va) = .unmapped then none
  else some (s.mem.byte va, s.access [va])

/-- Write a byte of user memory. -/
def writeUser (va : UInt64) (b : UInt8) : UserM κ Unit := fun s =>
  (s.mem.write va b).map fun m => ((), { s.access [va] with mem := m })

/-- Read bytes of user memory in order. -/
def readUserBytes (va : UInt64) : ℕ → UserM κ (List UInt8)
  | 0 => pure []
  | n + 1 => do
    let b ← readUser va
    let rest ← readUserBytes (va + 1) n
    pure (b :: rest)

/-- Write bytes of user memory in order. -/
def writeUserBytes (va : UInt64) : List UInt8 → UserM κ Unit
  | [] => pure ()
  | b :: rest => do
    writeUser va b
    writeUserBytes (va + 1) rest

/-- The loop of `copy_user_path_64` : `none` if there is no NUL among `n` bytes. -/
def copyUserString (va : UInt64) : (n : ℕ) → UserM κ (Option (CString n))
  | 0 => pure none
  | n + 1 => do
    let c ← readUser va
    if c = 0 then pure (some ⟨[], Nat.succ_pos n⟩)
    else do
      let rest ← copyUserString (va + 1) n
      pure (rest.map fun l => ⟨c :: l.val, Nat.succ_lt_succ l.property⟩)

/-- `copy_user_path_64`. Only the first address is checked. -/
def copyUserPath64 (userPtr : UInt64) : UserM κ (Option (CString sysIoPathMax)) :=
  if userPtr = 0 then pure none
  else if userPtr < userVaddrMin64 ∨ userVaddrMax64 ≤ userPtr then pure none
  else copyUserString userPtr sysIoPathMax

/-! ## When an access is resolved -/

/-- The `n` addresses from `va` on. -/
def addresses (va : UInt64) : ℕ → List UInt64
  | 0 => []
  | n + 1 => va :: addresses (va + 1) n

/-- The addresses a string of at most `n` bytes is read from. -/
def stringAddresses (m : UserMemory) (va : UInt64) : ℕ → List UInt64
  | 0 => []
  | n + 1 => va :: if m.byte va = 0 then [] else stringAddresses m (va + 1) n

/-- The string in memory, if it ends within `n` bytes. -/
def stringAt (m : UserMemory) (va : UInt64) : (n : ℕ) → Option (CString n)
  | 0 => none
  | n + 1 =>
    if m.byte va = 0 then some ⟨[], Nat.succ_pos n⟩
    else (stringAt m (va + 1) n).map fun l =>
      ⟨m.byte va :: l.val, Nat.succ_lt_succ l.property⟩

/-- The bytes in memory. -/
def bytesAt (m : UserMemory) (va : UInt64) : ℕ → List UInt8
  | 0 => []
  | n + 1 => m.byte va :: bytesAt m (va + 1) n

theorem forall_addresses (P : UInt64 → Prop) (va : UInt64) (n : ℕ) :
    (∀ a ∈ addresses va n, P a) ↔ ∀ i < n, P (va + UInt64.ofNat i) := by
  induction n generalizing va with
  | zero => simp [addresses]
  | succ n ih =>
    rw [addresses, List.forall_mem_cons, ih]
    constructor
    · rintro ⟨h0, h⟩ i hi
      cases i with
      | zero => simpa using h0
      | succ i =>
        have := h i (by omega)
        rwa [UInt64.add_assoc, UInt64.add_comm 1, ← UInt64.ofNat_one, ← UInt64.ofNat_add] at this
    · intro h
      refine ⟨by simpa using h 0 (by omega), fun i hi => ?_⟩
      have := h (i + 1) (by omega)
      rwa [UInt64.add_assoc, UInt64.add_comm 1, ← UInt64.ofNat_one, ← UInt64.ofNat_add]

@[simp] theorem access_access (s : UserState κ) (l l' : List UInt64) :
    (s.access l).access l' = s.access (l ++ l') := by
  simp [UserState.access]

@[simp] theorem access_nil (s : UserState κ) : s.access [] = s := by
  simp [UserState.access]

@[simp] theorem mem_access (s : UserState κ) (l : List UInt64) : (s.access l).mem = s.mem :=
  rfl

theorem wp_readUser (s : UserState κ) (va : UInt64) (Q : UInt8 → UserState κ → Prop) :
    Wp (readUser va) s Q ↔ s.mem.Present va ∧ Q (s.mem.byte va) (s.access [va]) := by
  by_cases h : s.mem.page (UserMemory.pageOf va) = .unmapped
  · have hm : readUser va s = none := if_pos h
    exact ⟨fun hw => absurd hw (not_wp hm Q), fun hw => absurd h hw.1⟩
  · have hm : readUser va s = some (s.mem.byte va, s.access [va]) := if_neg h
    rw [wp_iff hm]
    exact ⟨fun hQ => ⟨h, hQ⟩, fun hQ => hQ.2⟩

theorem wp_readUserBytes (s : UserState κ) (va : UInt64) (n : ℕ)
    (Q : List UInt8 → UserState κ → Prop) :
    Wp (readUserBytes va n) s Q ↔
      (∀ a ∈ addresses va n, s.mem.Present a) ∧
        Q (bytesAt s.mem va n) (s.access (addresses va n)) := by
  induction n generalizing s va Q with
  | zero => simp [readUserBytes, addresses, bytesAt]
  | succ n ih =>
    rw [readUserBytes, wp_bind, wp_readUser]
    simp only [wp_bind, wp_pure]
    rw [ih]
    simp only [mem_access, access_access, addresses, bytesAt, List.forall_mem_cons,
      List.singleton_append, and_assoc]

theorem wp_copyUserString (s : UserState κ) (va : UInt64) (n : ℕ)
    (Q : Option (CString n) → UserState κ → Prop) :
    Wp (copyUserString va n) s Q ↔
      (∀ a ∈ stringAddresses s.mem va n, s.mem.Present a) ∧
        Q (stringAt s.mem va n) (s.access (stringAddresses s.mem va n)) := by
  induction n generalizing s va with
  | zero => simp [copyUserString, stringAddresses, stringAt]
  | succ n ih =>
    rw [copyUserString, wp_bind, wp_readUser, stringAddresses, stringAt, List.forall_mem_cons,
      and_assoc]
    refine and_congr_right fun _ => ?_
    by_cases hz : s.mem.byte va = 0
    · simp [hz]
    · simp only [if_neg hz, wp_bind, wp_pure]
      rw [ih]
      simp only [mem_access, access_access, List.singleton_append]

/-- The path is read from mapped addresses. -/
theorem wp_copyUserPath64 (s : UserState κ) (ptr : UInt64)
    (Q : Option (CString sysIoPathMax) → UserState κ → Prop) :
    Wp (copyUserPath64 ptr) s Q ↔
      (¬ InUserRange ptr → Q none s) ∧
      (InUserRange ptr →
        (∀ a ∈ stringAddresses s.mem ptr sysIoPathMax, s.mem.Present a) ∧
          Q (stringAt s.mem ptr sysIoPathMax)
            (s.access (stringAddresses s.mem ptr sysIoPathMax))) := by
  have hiff : ¬ InUserRange ptr ↔ ptr = 0 ∨ ptr < userVaddrMin64 ∨ userVaddrMax64 ≤ ptr := by
    rw [InUserRange, not_and_or, UInt64.not_le, UInt64.not_lt]
    refine ⟨Or.inr, fun h => ?_⟩
    rcases h with rfl | h
    · exact Or.inl (by decide)
    · exact h
  by_cases h : InUserRange ptr
  · have h' := mt hiff.mpr (not_not.mpr h)
    rw [not_or] at h'
    rw [copyUserPath64, if_neg h'.1, if_neg h'.2, wp_copyUserString]
    exact ⟨fun hQ => ⟨fun hn => absurd h hn, fun _ => hQ⟩, fun hQ => hQ.2 h⟩
  · have hm : (copyUserPath64 ptr : UserM κ _) = pure none := by
      rw [copyUserPath64]
      rcases hiff.mp h with h0 | hr
      · rw [if_pos h0]
      · rw [if_pos hr, ite_self]
    rw [hm, wp_pure]
    exact ⟨fun hQ => ⟨fun _ => hQ, fun hn => absurd hn h⟩, fun hQ => hQ.1 h⟩

/-! ## Writes -/

/-- A write to the page is resolved, given a frame where one is needed. -/
def PageStatus.Writes (p : PageStatus) : Prop :=
  p ≠ .unmapped ∧ p ≠ .readOnly

instance (p : PageStatus) : Decidable p.Writes :=
  inferInstanceAs (Decidable (_ ∧ _))

/-- The pages among these addresses that share their frame. -/
def UserMemory.sharedPages (m : UserMemory) (l : List UInt64) : Finset UInt64 :=
  (l.map UserMemory.pageOf).toFinset.filter fun p => m.page p = .cowShared

/-- Writes to these addresses are resolved : every page has write permission or is
copy-on-write, and there is a frame for every page that shares its own. -/
def UserMemory.Writable (m : UserMemory) (l : List UInt64) : Prop :=
  (∀ a ∈ l, (m.page (UserMemory.pageOf a)).Writes) ∧ (m.sharedPages l).card ≤ m.frames

instance (m : UserMemory) (l : List UInt64) : Decidable (m.Writable l) :=
  inferInstanceAs (Decidable (_ ∧ _))

namespace UserMemory

variable {m m' : UserMemory} {va : UInt64} {b : UInt8}

/-- The pages after a write. -/
theorem page_write (h : m.write va b = some m') :
    m'.page = Function.update m.page (pageOf va) .writable := by
  unfold write at h
  obtain ⟨m₁, h₁, rfl⟩ := Option.map_eq_some_iff.mp h
  change m₁.page = _
  split at h₁
  · next hw =>
    obtain rfl := Option.some.inj h₁
    rw [← hw, Function.update_eq_self]
  · unfold pagingHandleCowFault at h₁
    split at h₁
    · obtain rfl := Option.some.inj h₁
      rfl
    · split at h₁
      · cases h₁
      · obtain rfl := Option.some.inj h₁
        rfl
    · cases h₁

/-- The frames left after a write. -/
theorem frames_write (h : m.write va b = some m') :
    m.frames = m'.frames + if m.page (pageOf va) = .cowShared then 1 else 0 := by
  unfold write at h
  obtain ⟨m₁, h₁, rfl⟩ := Option.map_eq_some_iff.mp h
  change m.frames = m₁.frames + _
  split at h₁
  · next hw =>
    obtain rfl := Option.some.inj h₁
    rw [hw]
    rfl
  · unfold pagingHandleCowFault at h₁
    split at h₁
    · next hs =>
      obtain rfl := Option.some.inj h₁
      rw [hs]
      rfl
    · next hs =>
      split at h₁
      · cases h₁
      · next hf =>
        obtain rfl := Option.some.inj h₁
        rw [hs, if_pos rfl]
        change m.frames = m.frames - 1 + 1
        omega
    · cases h₁

/-- When a write is resolved. -/
theorem write_isSome (m : UserMemory) (va : UInt64) (b : UInt8) :
    (m.write va b).isSome = true ↔
      (m.page (pageOf va)).Writes ∧ (m.page (pageOf va) = .cowShared → m.frames ≠ 0) := by
  unfold write pagingHandleCowFault PageStatus.Writes
  rw [Option.isSome_map]
  cases m.page (pageOf va) <;> simp

theorem mem_sharedPages {l : List UInt64} {p : UInt64} :
    p ∈ m.sharedPages l ↔ (∃ a ∈ l, pageOf a = p) ∧ m.page p = .cowShared := by
  simp [sharedPages]

/-- A write takes its page out of those that still need a frame. -/
theorem sharedPages_write (h : m.write va b = some m') (l : List UInt64) :
    m'.sharedPages l = (m.sharedPages l).erase (pageOf va) := by
  ext p
  rw [Finset.mem_erase, mem_sharedPages, mem_sharedPages, page_write h]
  by_cases hp : p = pageOf va
  · simp [hp]
  · rw [Function.update_of_ne hp]
    tauto

/-- Writes to a sequence of addresses are resolved one after the other. -/
theorem writable_cons (h : m.write va b = some m') (l : List UInt64) :
    m.Writable (va :: l) ↔ m'.Writable l := by
  have hv := (write_isSome m va b).mp (by rw [h]; rfl)
  have hpages : (∀ a ∈ va :: l, (m.page (pageOf a)).Writes) ↔
      ∀ a ∈ l, (m'.page (pageOf a)).Writes := by
    rw [List.forall_mem_cons, page_write h]
    have hiff : ∀ a, (Function.update m.page (pageOf va) .writable (pageOf a)).Writes ↔
        (m.page (pageOf a)).Writes := by
      intro a
      by_cases ha : pageOf a = pageOf va
      · rw [ha, Function.update_self]
        exact ⟨fun _ => hv.1, fun _ => by decide⟩
      · rw [Function.update_of_ne ha]
    simp only [hiff]
    exact ⟨fun h => h.2, fun h => ⟨hv.1, h⟩⟩
  have hcard : (m.sharedPages (va :: l)).card ≤ m.frames ↔
      (m'.sharedPages l).card ≤ m'.frames := by
    rw [sharedPages_write h, frames_write h]
    split
    · next hs =>
      have hins : m.sharedPages (va :: l) =
          insert (pageOf va) ((m.sharedPages l).erase (pageOf va)) := by
        ext p
        rw [Finset.mem_insert, Finset.mem_erase, mem_sharedPages, mem_sharedPages]
        constructor
        · rintro ⟨⟨a, ha, rfl⟩, hp⟩
          by_cases hpa : pageOf a = pageOf va
          · exact Or.inl hpa
          · rcases List.mem_cons.mp ha with rfl | ha
            · exact Or.inl rfl
            · exact Or.inr ⟨hpa, ⟨a, ha, rfl⟩, hp⟩
        · rintro (rfl | ⟨-, ⟨a, ha, rfl⟩, hp⟩)
          · exact ⟨⟨va, List.mem_cons_self, rfl⟩, hs⟩
          · exact ⟨⟨a, List.mem_cons_of_mem _ ha, rfl⟩, hp⟩
      rw [hins, Finset.card_insert_of_notMem (by simp)]
      omega
    · next hs =>
      have hsame : m.sharedPages (va :: l) = (m.sharedPages l).erase (pageOf va) := by
        ext p
        rw [Finset.mem_erase, mem_sharedPages, mem_sharedPages]
        constructor
        · rintro ⟨⟨a, ha, rfl⟩, hp⟩
          have hne : pageOf a ≠ pageOf va := fun he => hs (he ▸ hp)
          rcases List.mem_cons.mp ha with rfl | ha
          · exact absurd rfl hne
          · exact ⟨hne, ⟨a, ha, rfl⟩, hp⟩
        · rintro ⟨-, ⟨a, ha, rfl⟩, hp⟩
          exact ⟨⟨a, List.mem_cons_of_mem _ ha, rfl⟩, hp⟩
      rw [hsame, Nat.add_zero]
  exact and_congr hpages hcard

/-- A first write that is not resolved makes the sequence fail. -/
theorem not_writable_cons (h : m.write va b = none) (l : List UInt64) : ¬ m.Writable (va :: l) := by
  rintro ⟨hw, hcard⟩
  have hnone : ¬ (m.write va b).isSome = true := by
    rw [h]
    decide
  rw [write_isSome, not_and] at hnone
  refine hnone (hw va List.mem_cons_self) fun hs hf => ?_
  rw [hf] at hcard
  have hmem : pageOf va ∈ m.sharedPages (va :: l) :=
    mem_sharedPages.mpr ⟨⟨va, List.mem_cons_self, rfl⟩, hs⟩
  rw [Finset.card_eq_zero.mp (Nat.le_zero.mp hcard)] at hmem
  cases hmem

end UserMemory

/-- Bytes are written if the range is writable; what matters afterwards is what was
dereferenced. -/
theorem wp_writeUserBytes (s : UserState κ) (va : UInt64) (bytes : List UInt8)
    (R : List UInt64 → Prop) :
    Wp (writeUserBytes va bytes) s (fun _ s' => R s'.accessed) ↔
      s.mem.Writable (addresses va bytes.length) ∧
        R (s.accessed ++ addresses va bytes.length) := by
  induction bytes generalizing s va R with
  | nil => simp [writeUserBytes, addresses, UserMemory.Writable, UserMemory.sharedPages]
  | cons b rest ih =>
    rw [writeUserBytes, wp_bind, List.length_cons, addresses]
    cases hw : s.mem.write va b with
    | none =>
      have hm : writeUser va b s = none := by rw [writeUser, hw]; rfl
      exact ⟨fun h => absurd h (not_wp hm _),
        fun h => absurd h.1 (UserMemory.not_writable_cons hw _)⟩
    | some m' =>
      have hm : writeUser va b s = some ((), { s.access [va] with mem := m' }) := by
        rw [writeUser, hw]
        rfl
      rw [wp_iff hm, ih, UserMemory.writable_cons hw]
      simp [UserState.access]

end

end VernisOS
