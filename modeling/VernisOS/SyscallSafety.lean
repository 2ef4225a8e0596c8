import VernisOS.Syscall

/-!
# What a system call needs of its pointers

A call survives if it comes to an end, with every page fault of ring 0 resolved, and if
every user address it has dereferenced lies in the user range and is mapped present. The
handlers check the range of a buffer, of a path only its first byte, and never whether
anything is mapped. `syscall_survives_iff` says exactly when a call survives, and
`syscall_halts` is one that does not.
-/

open Bytes Halting Slots

namespace VernisOS

/-- All these addresses lie in the user range and are mapped present. -/
def Sound (m : UserMemory) (l : List UInt64) : Prop :=
  ∀ a ∈ l, InUserRange a ∧ m.Present a

/-- The call ends, and has dereferenced nothing outside the mapped user range. -/
def Survives (env : SysEnv) (call : PointerCall) (r : SysArgs) (m : UserMemory) (k : Kernel) :
    Prop :=
  Wp (interruptDispatch env call r) ⟨m, [], k⟩ fun _ s => Sound m s.accessed

/-! ## The condition -/

/-- If the pointer is in range, so is every byte up to the NUL, or 64 of them, and they are
mapped. -/
def PathOk (m : UserMemory) (ptr : UInt64) : Prop :=
  InUserRange ptr → ∀ i < sysIoPathMax, (∀ j < i, m.byte (ptr + UInt64.ofNat j) ≠ 0) →
    InUserRange (ptr + UInt64.ofNat i) ∧ m.Present (ptr + UInt64.ofNat i)

/-- The `n` bytes from `buf` on are in range and mapped. -/
def ReadsOk (m : UserMemory) (buf : UInt64) (n : ℕ) : Prop :=
  ∀ i < n, InUserRange (buf + UInt64.ofNat i) ∧ m.Present (buf + UInt64.ofNat i)

/-- The `n` bytes from `buf` on are in range, and writes to them are resolved. -/
def WritesOk (m : UserMemory) (buf : UInt64) (n : ℕ) : Prop :=
  m.Writable (addresses buf n) ∧ ∀ i < n, InUserRange (buf + UInt64.ofNat i)

/-- The path at a pointer, if there is one. -/
def userPath (m : UserMemory) (ptr : UInt64) : Option (CString sysIoPathMax) :=
  if InUserRange ptr then stringAt m ptr sysIoPathMax else none

/-- How many bytes a descriptor has for a reader that asks for `count`. -/
def FdEntry.readable (e : FdEntry) (env : SysEnv) (k : Kernel) (count : ℕ) : ℕ :=
  match e.type with
  | .tty => min count k.tty.length
  | .pipeR => (k.activePipe e.pipeIdx).elim 0 fun p => min count (k.pipes p).data.length
  | .file => (env.readFile e.path.val sysIoBufMax).elim 0 fun content =>
      min count (content.length - cInt e.offset).toNat
  | .sockTcp => if e.pipeIdx = 0xFF then 0
      else (TcpStack.socket e.pipeIdx.toNat).elim 0 fun i => min count (k.tcp.tcbs i).rxBuf.length
  | .sockUdp => if e.pipeIdx = 0xFF then 0
      else (k.udpSocket e.pipeIdx).elim 0 fun i =>
        (k.udp i).rx.head?.elim 0 fun d => min count d.length
  | _ => 0

/-- How many of `count` bytes a descriptor takes from a writer. -/
def FdEntry.takes (e : FdEntry) (k : Kernel) (count : ℕ) : ℕ :=
  match e.type with
  | .tty | .file => count
  | .pipeW => (k.activePipe e.pipeIdx).elim 0 fun p =>
      min count (pipeBufSize - (k.pipes p).data.length)
  | .sockTcp => if e.pipeIdx = 0xFF then 0 else k.tcp.sendRoom e.pipeIdx.toNat count
  | .sockUdp => if e.pipeIdx = 0xFF then 0
      else (k.udpSocket e.pipeIdx).elim 0 fun _ =>
        if k.udpOutput ∧ count ≤ udpMaxPayload then count else 0
  | _ => 0

/-- What a call needs of its pointers, by the checks the handler makes before it uses them. -/
def PointersOk (env : SysEnv) (call : PointerCall) (r : SysArgs) (m : UserMemory) (k : Kernel) :
    Prop :=
  match call with
  | .read => r.rdx ≠ 0 → r.rdx ≤ UInt64.ofNat sysIoBufMax →
      userPtrRangeValid64 r.rcx r.rdx = true →
      PathOk m r.rbx ∧ ∀ path bytes, userPath m r.rbx = some path →
        env.readFile path.val r.rdx.toNat = some bytes → WritesOk m r.rcx bytes.length
  | .write => r.rdx ≠ 0 → r.rdx ≤ UInt64.ofNat sysIoBufMax →
      userPtrRangeValid64 r.rcx r.rdx = true →
      PathOk m r.rbx ∧ ((userPath m r.rbx).isSome = true → ReadsOk m r.rcx r.rdx.toNat)
  | .open => k.fdAlloc.isSome = true → PathOk m r.rbx
  | .readFd => ∀ i, k.openFd (cInt r.rbx.toUInt32) = some i → r.rdx ≠ 0 →
      userPtrRangeValid64 r.rcx (min r.rdx (UInt64.ofNat sysIoBufMax)) = true →
      WritesOk m r.rcx
        ((k.fdTable i).readable env k (min r.rdx (UInt64.ofNat sysIoBufMax)).toNat)
  | .writeFd => ∀ i, k.openFd (cInt r.rbx.toUInt32) = some i → r.rdx ≠ 0 →
      userPtrRangeValid64 r.rcx (min r.rdx (UInt64.ofNat sysIoBufMax)) = true →
      ReadsOk m r.rcx ((k.fdTable i).takes k (min r.rdx (UInt64.ofNat sysIoBufMax)).toNat)
  | .pipe => userPtrRangeValid64 r.rbx 8 = true → (∃ p, (k.pipes p).active = false) →
      (∃ i j, i ≠ j ∧ (k.fdTable i).type = .none ∧ (k.fdTable j).type = .none) →
      WritesOk m r.rbx 8
  | .execve => PathOk m r.rbx
  | .mmap =>
      (r.rbx + 0xFFF) &&& ~~~(0xFFF : UInt64) ≠ 0 →
      (r.rbx + 0xFFF) &&& ~~~(0xFFF : UInt64) ≤ 0x1000000 →
      (∃ i, (k.vmaList i).type = .none) → r.rdx ≠ 0 →
      ((r.rcx >>> 8) &&& 0xFF).toUInt8 &&& mapAnonymous = 0 → PathOk m r.rdx
  | .chdir => PathOk m r.rbx
  | .getcwd => UInt64.ofNat k.cwd.val.length < r.rcx →
      userPtrRangeValid64 r.rbx (UInt64.ofNat k.cwd.val.length + 1) = true →
      WritesOk m r.rbx (k.cwd.val.length + 1)
  | .auth => PathOk m r.rbx ∧ ((userPath m r.rbx).isSome = true → PathOk m r.rcx)

/-! ## Rules -/

variable {m : UserMemory} {k : Kernel} {α β : Type}

theorem sound_append (l l' : List UInt64) : Sound m (l ++ l') ↔ Sound m l ∧ Sound m l' :=
  List.forall_mem_append

theorem sound_addresses (buf : UInt64) (n : ℕ) : Sound m (addresses buf n) ↔ ReadsOk m buf n :=
  forall_addresses _ buf n

theorem forall_stringAddresses (P : UInt64 → Prop) (va : UInt64) (n : ℕ) :
    (∀ a ∈ stringAddresses m va n, P a) ↔
      ∀ i < n, (∀ j < i, m.byte (va + UInt64.ofNat j) ≠ 0) → P (va + UInt64.ofNat i) := by
  induction n generalizing va with
  | zero => simp [stringAddresses]
  | succ n ih =>
    have hshift : ∀ i, va + 1 + UInt64.ofNat i = va + UInt64.ofNat (i + 1) := by
      intro i
      rw [UInt64.add_assoc, UInt64.add_comm 1, ← UInt64.ofNat_one, ← UInt64.ofNat_add]
    have hzero : va + UInt64.ofNat 0 = va := by simp
    rw [stringAddresses, List.forall_mem_cons]
    constructor
    · rintro ⟨h0, h⟩ i hi hne
      cases i with
      | zero => rwa [hzero]
      | succ i =>
        have hva : m.byte va ≠ 0 := by simpa using hne 0 (by omega)
        rw [if_neg hva, ih] at h
        have := h i (by omega) fun j hj => by rw [hshift]; exact hne (j + 1) (by omega)
        rwa [hshift] at this
    · intro h
      refine ⟨by simpa using h 0 (by omega) (by simp), ?_⟩
      split
      · simp
      · next hva =>
        rw [ih]
        intro i hi hne
        rw [hshift]
        refine h (i + 1) (by omega) fun j hj => ?_
        cases j with
        | zero => rwa [hzero]
        | succ j => rw [← hshift]; exact hne j (by omega)

theorem pathOk_iff (m : UserMemory) (ptr : UInt64) :
    PathOk m ptr ↔ (InUserRange ptr → Sound m (stringAddresses m ptr sysIoPathMax)) := by
  rw [PathOk, Sound, forall_stringAddresses]

/-- Writes that are resolved go to mapped addresses. -/
theorem writesOk_iff (m : UserMemory) (buf : UInt64) (n : ℕ) :
    WritesOk m buf n ↔ m.Writable (addresses buf n) ∧ Sound m (addresses buf n) := by
  refine and_congr_right fun hw => ?_
  rw [sound_addresses]
  constructor
  · exact fun h i hi => ⟨h i hi, ((forall_addresses _ buf n).mp hw.1 i hi).1⟩
  · exact fun h i hi => (h i hi).1

/-- From memory `m` and kernel `k` the program survives if and only if `C`. -/
def Needs (p : SysM α) (m : UserMemory) (k : Kernel) (C : Prop) : Prop :=
  ∀ l, Wp p ⟨m, l, k⟩ (fun _ s => Sound m s.accessed) ↔ Sound m l ∧ C

theorem needs_congr {p : SysM α} {C C' : Prop} (h : Needs p m k C) (hC : C ↔ C') :
    Needs p m k C' :=
  fun l => (h l).trans (and_congr_right fun _ => hC)

theorem needs_pure (a : α) : Needs (pure a) m k True := by
  intro l
  rw [wp_pure, and_true]

/-- A condition that the code checks before it goes on. -/
theorem needs_ite {c : Prop} [Decidable c] {p q : SysM α} {C D : Prop}
    (hp : c → Needs p m k C) (hq : ¬ c → Needs q m k D) :
    Needs (if c then p else q) m k ((c → C) ∧ (¬ c → D)) := by
  by_cases h : c
  · rw [if_pos h]
    exact needs_congr (hp h) (by simp [h])
  · rw [if_neg h]
    exact needs_congr (hq h) (by simp [h])

theorem needs_kernel {f : Kernel → SysM α} {C : Prop} (h : Needs (f k) m k C) :
    Needs (kernel >>= f) m k C := by
  intro l
  rw [wp_bind, kernel, wp_bind, wp_get]
  simp only [wp_pure]
  exact h l

theorem needs_modifyKernel {g : Kernel → Kernel} {f : Unit → SysM α} {C : Prop}
    (h : Needs (f ()) m (g k) C) : Needs (modifyKernel g >>= f) m k C := by
  intro l
  rw [wp_bind, modifyKernel, wp_modify]
  exact h l

/-- A path is copied. -/
theorem needs_path {ptr : UInt64} {f : Option (CString sysIoPathMax) → SysM α}
    {C : CString sysIoPathMax → Prop} (hnone : Needs (f none) m k True)
    (hsome : ∀ path, Needs (f (some path)) m k (C path)) :
    Needs (copyUserPath64 ptr >>= f) m k
      (PathOk m ptr ∧ ∀ path, userPath m ptr = some path → C path) := by
  intro l
  rw [wp_bind, wp_copyUserPath64, pathOk_iff, userPath]
  dsimp only
  by_cases hr : InUserRange ptr
  · simp only [hr, not_true, false_imp_iff, true_imp_iff, true_and, if_true]
    have hacc : (UserState.access ⟨m, l, k⟩ (stringAddresses m ptr sysIoPathMax)) =
        ⟨m, l ++ stringAddresses m ptr sysIoPathMax, k⟩ := rfl
    rw [hacc]
    have hpres : Sound m (stringAddresses m ptr sysIoPathMax) →
        ∀ a ∈ stringAddresses m ptr sysIoPathMax, m.Present a := fun h a ha => (h a ha).2
    cases hs : stringAt m ptr sysIoPathMax with
    | none =>
      rw [hnone, sound_append]
      simp only [and_true, reduceCtorEq, false_imp_iff, implies_true]
      exact ⟨fun h => h.2, fun h => ⟨hpres h.2, h⟩⟩
    | some path =>
      rw [hsome, sound_append]
      simp only [Option.some.injEq, forall_eq']
      rw [and_assoc]
      exact ⟨fun h => h.2, fun h => ⟨hpres h.2.1, h⟩⟩
  · simp only [hr, not_false_eq_true, true_imp_iff, false_imp_iff, and_true, if_false,
      reduceCtorEq, implies_true]
    exact (hnone l).trans (and_iff_left trivial)

/-- Bytes are read. -/
theorem needs_read {buf : UInt64} {n : ℕ} {f : List UInt8 → SysM α} {C : Prop}
    (h : Needs (f (bytesAt m buf n)) m k C) :
    Needs (readUserBytes buf n >>= f) m k (ReadsOk m buf n ∧ C) := by
  intro l
  rw [wp_bind, wp_readUserBytes]
  have hacc : (UserState.access ⟨m, l, k⟩ (addresses buf n)) = ⟨m, l ++ addresses buf n, k⟩ := rfl
  rw [hacc, h, sound_append, and_assoc, ← sound_addresses]
  exact ⟨fun h => h.2, fun h => ⟨fun a ha => (h.2.1 a ha).2, h⟩⟩

/-- The program does not touch user memory. -/
def Silent (p : SysM α) : Prop :=
  ∀ s (R : List UInt64 → Prop), Wp p s (fun _ s' => R s'.accessed) ↔ R s.accessed

/-- Bytes are written, and then nothing else touches user memory. -/
theorem needs_write {buf : UInt64} {bytes : List UInt8} {f : Unit → SysM α}
    (h : Silent (f ())) :
    Needs (writeUserBytes buf bytes >>= f) m k (WritesOk m buf bytes.length) := by
  intro l
  rw [wp_bind]
  simp only [h _ (Sound m)]
  rw [wp_writeUserBytes, writesOk_iff, sound_append]
  tauto

theorem silent_pure (a : α) : Silent (pure a) :=
  fun _ _ => wp_pure _ _

theorem silent_modifyKernel {g : Kernel → Kernel} {f : Unit → SysM α} (h : Silent (f ())) :
    Silent (modifyKernel g >>= f) := by
  intro s R
  rw [wp_bind, modifyKernel, wp_modify]
  exact h _ R

theorem silent_ite {c : Prop} [Decidable c] {p q : SysM α} (hp : Silent p) (hq : Silent q) :
    Silent (if c then p else q) := by
  split
  · exact hp
  · exact hq

/-! ## The handlers -/

variable (env : SysEnv)

theorem needs_syscallVfsRead64 (path buf len : UInt64) :
    Needs (syscallVfsRead64 env path buf len) m k
      (len ≠ 0 → len ≤ UInt64.ofNat sysIoBufMax → userPtrRangeValid64 buf len = true →
        PathOk m path ∧ ∀ p bytes, userPath m path = some p →
          env.readFile p.val len.toNat = some bytes → WritesOk m buf bytes.length) := by
  refine needs_congr (needs_ite (fun _ => needs_pure _) fun _ => needs_ite (fun _ => needs_pure _)
    fun _ => needs_path (C := fun p => ∀ bytes, env.readFile p.val len.toNat = some bytes →
      WritesOk m buf bytes.length) (needs_pure _) fun p => ?_) ?_
  · dsimp only
    cases env.readFile p.val len.toNat with
    | none => exact needs_congr (needs_pure _) (by simp)
    | some bytes => exact needs_congr (needs_write (silent_pure _)) (by simp)
  simp only [not_or, Bool.not_eq_true', Bool.not_eq_false, UInt64.not_lt, implies_true, true_and,
    and_imp]
  refine imp_congr_right fun _ => imp_congr_right fun _ => imp_congr_right fun _ =>
    and_congr_right fun _ => forall_congr' fun p => ?_
  exact ⟨fun h bytes hp => h hp bytes, fun h hp bytes => h bytes hp⟩

theorem needs_syscallVfsWrite64 (path buf len : UInt64) :
    Needs (syscallVfsWrite64 env path buf len) m k
      (len ≠ 0 → len ≤ UInt64.ofNat sysIoBufMax → userPtrRangeValid64 buf len = true →
        PathOk m path ∧ ((userPath m path).isSome = true → ReadsOk m buf len.toNat)) := by
  refine needs_congr (needs_ite (fun _ => needs_pure _) fun h => needs_ite (fun _ => needs_pure _) fun h' =>
    needs_path (needs_pure _) fun p => needs_read (needs_pure _)) ?_
  simp only [not_or, Bool.not_eq_true', Bool.not_eq_false, UInt64.not_lt, implies_true, true_and,
    and_imp, and_true, Option.isSome_iff_exists, forall_exists_index, ne_eq]

theorem needs_sysOpen (path flags : UInt64) :
    Needs (sysOpen env path flags) m k (k.fdAlloc.isSome = true → PathOk m path) := by
  refine needs_kernel ?_
  cases k.fdAlloc with
  | none => exact needs_congr (needs_pure _) (by simp)
  | some fd =>
    refine needs_congr (needs_path (needs_pure _) fun p => needs_ite (fun _ => needs_pure _) fun _ =>
      needs_modifyKernel (needs_pure _)) ?_
    simp

theorem needs_sysChdir (path : UInt64) : Needs (sysChdir env path) m k (PathOk m path) := by
  refine needs_congr (needs_path (needs_pure _) fun p => needs_ite
    (fun _ => needs_modifyKernel (needs_pure _)) fun _ => needs_pure _) ?_
  simp

theorem needs_sysExecve (path : UInt64) : Needs (sysExecve env path) m k (PathOk m path) := by
  refine needs_congr (needs_path (C := fun _ => True) (needs_pure _) fun p => ?_) (by simp)
  dsimp only
  cases env.load p.val with
  | none => exact needs_pure _
  | some mem =>
    intro l
    rw [wp_bind, wp_modify, wp_pure, and_true]

theorem needs_sysAuth (user pass : UInt64) :
    Needs (sysAuth env user pass) m k
      (PathOk m user ∧ ((userPath m user).isSome = true → PathOk m pass)) := by
  have hzero : pass = 0 → PathOk m pass := by
    rintro rfl h
    exact absurd h (by decide)
  refine needs_congr (needs_path (needs_pure _) fun u => (needs_ite (fun _ => needs_pure _) fun _ =>
    needs_path (needs_pure _) fun p => needs_pure _)) ?_
  simp only [implies_true, true_and, and_true, Option.isSome_iff_exists, forall_exists_index]
  refine and_congr_right fun _ => ⟨fun h u hu => ?_, fun h u hu _ => h u hu⟩
  by_cases h0 : pass = 0
  · exact hzero h0
  · exact h u hu h0

theorem needs_sysGetcwd (buf size : UInt64) :
    Needs (sysGetcwd buf size) m k
      (UInt64.ofNat k.cwd.val.length < size →
        userPtrRangeValid64 buf (UInt64.ofNat k.cwd.val.length + 1) = true →
        WritesOk m buf (k.cwd.val.length + 1)) := by
  refine needs_kernel ?_
  refine needs_congr (needs_ite (fun _ => needs_write (silent_pure _)) fun _ => needs_pure _) ?_
  simp only [List.length_append, List.length_singleton, implies_true, and_true, and_imp]

theorem needs_sysMmap (length prot path : UInt64) :
    Needs (sysMmap length prot path) m k
      ((length + 0xFFF) &&& ~~~(0xFFF : UInt64) ≠ 0 →
        (length + 0xFFF) &&& ~~~(0xFFF : UInt64) ≤ 0x1000000 →
        (∃ i, (k.vmaList i).type = .none) → path ≠ 0 →
        ((prot >>> 8) &&& 0xFF).toUInt8 &&& mapAnonymous = 0 → PathOk m path) := by
  have hslot : (∃ i, (k.vmaList i).type = .none) ↔
      (first fun i => (k.vmaList i).type == .none).isSome = true := by
    rw [first_isSome]
    simp
  rw [hslot]
  unfold sysMmap
  dsimp only
  refine needs_congr (needs_ite (D := (first fun i => (k.vmaList i).type == .none).isSome = true →
    path ≠ 0 → ((prot >>> 8) &&& 0xFF).toUInt8 &&& mapAnonymous = 0 → PathOk m path)
    (fun _ => needs_pure _) fun _ => needs_kernel ?_) ?_
  · cases first fun i => (k.vmaList i).type == .none with
    | none => exact needs_congr (needs_pure _) (by simp)
    | some slot =>
      refine needs_congr (needs_ite (fun _ => needs_modifyKernel (needs_pure _)) fun _ =>
        needs_path (needs_modifyKernel (needs_pure _)) fun p =>
          needs_modifyKernel (needs_pure _)) ?_
      simp only [not_or, not_not, implies_true, true_and, and_true, and_imp, Option.isSome_some,
        true_imp_iff, ne_eq]
  · simp only [not_or, UInt64.not_lt, implies_true, true_and, and_imp, ne_eq]

/-! ## Descriptors -/

theorem writesOk_zero (m : UserMemory) (buf : UInt64) : WritesOk m buf 0 := by
  simp [WritesOk, addresses, UserMemory.Writable, UserMemory.sharedPages]

theorem readsOk_zero (m : UserMemory) (buf : UInt64) : ReadsOk m buf 0 :=
  fun i h => absurd h (Nat.not_lt_zero i)

/-- A write of no bytes, or none at all, needs nothing. -/
theorem needs_of_zero {p : SysM α} {n : ℕ} {buf : UInt64} (h : Needs p m k True) (hn : n = 0) :
    Needs p m k (WritesOk m buf n) :=
  needs_congr h (by rw [hn]; exact ⟨fun _ => writesOk_zero m buf, fun _ => trivial⟩)

theorem needs_of_zero_reads {p : SysM α} {n : ℕ} {buf : UInt64} (h : Needs p m k True)
    (hn : n = 0) : Needs p m k (ReadsOk m buf n) :=
  needs_congr h (by rw [hn]; exact ⟨fun _ => readsOk_zero m buf, fun _ => trivial⟩)

/-- What `tcp_recv` returns is the front of the receive buffer. -/
theorem length_tcpRecv (st : TcpStack) (now : UInt32) (sock : Int) (count : ℕ) :
    (st.tcpRecv now sock count).2.1.length =
      (TcpStack.socket sock).elim 0 fun i => min count (st.tcbs i).rxBuf.length := by
  unfold TcpStack.tcpRecv
  cases TcpStack.socket sock with
  | none => rfl
  | some i =>
    dsimp only [Option.elim]
    unfold TcpControlBlock.tcpRecv
    rw [if_neg (by omega)]
    split
    · next h => rw [h]; simp
    · dsimp only
      rw [Int.toNat_natCast]
      split
      · rw [List.length_take]
        omega
      · rw [List.length_take]
        omega

variable (e : FdEntry) (buf : UInt64) (count : ℕ)

theorem needs_readTty :
    Needs (readTty buf count) m k (WritesOk m buf (min count k.tty.length)) := by
  refine needs_kernel (needs_modifyKernel ?_)
  by_cases h : 0 < (k.tty.take count).length
  · rw [if_pos h]
    exact needs_congr (needs_write (silent_pure _)) (by rw [List.length_take])
  · rw [if_neg h]
    refine needs_of_zero (needs_modifyKernel (needs_pure _)) ?_
    rwa [List.length_take, Nat.pos_iff_ne_zero, not_not] at h

theorem needs_readPipe :
    Needs (readPipe e buf count) m k (WritesOk m buf
      ((k.activePipe e.pipeIdx).elim 0 fun p => min count (k.pipes p).data.length)) := by
  refine needs_kernel ?_
  cases k.activePipe e.pipeIdx with
  | none => exact needs_of_zero (needs_pure _) rfl
  | some p =>
    refine needs_congr (needs_modifyKernel (needs_write (silent_pure _))) ?_
    rw [List.length_take]
    rfl

theorem needs_readFileAt (fd : Fin fdMax) :
    Needs (readFileAt env fd e buf count) m k (WritesOk m buf
      ((env.readFile e.path.val sysIoBufMax).elim 0 fun content =>
        min count (content.length - cInt e.offset).toNat)) := by
  unfold readFileAt
  cases env.readFile e.path.val sysIoBufMax with
  | none => exact needs_of_zero (needs_pure _) rfl
  | some content =>
    dsimp only [Option.elim]
    by_cases h : (content.length : Int) - cInt e.offset ≤ 0
    · rw [if_pos h]
      exact needs_of_zero (needs_pure _) (by omega)
    · rw [if_neg h]
      refine needs_congr (needs_write (silent_modifyKernel (silent_pure _))) ?_
      rw [List.length_map, List.length_range]

theorem needs_readTcp :
    Needs (readTcp env e buf count) m k (WritesOk m buf
      (if e.pipeIdx = 0xFF then 0 else (TcpStack.socket e.pipeIdx.toNat).elim 0 fun i =>
        min count (k.tcp.tcbs i).rxBuf.length)) := by
  unfold readTcp
  by_cases h : e.pipeIdx = 0xFF
  · rw [if_pos h, if_pos h]
    exact needs_of_zero (needs_pure _) rfl
  · rw [if_neg h, if_neg h, ← length_tcpRecv _ env.now]
    refine needs_kernel (needs_modifyKernel (needs_write ?_))
    exact silent_ite (silent_modifyKernel (silent_pure _)) (silent_pure _)

theorem needs_readUdp :
    Needs (readUdp e buf count) m k (WritesOk m buf
      (if e.pipeIdx = 0xFF then 0 else (k.udpSocket e.pipeIdx).elim 0 fun i =>
        (k.udp i).rx.head?.elim 0 fun d => min count d.length)) := by
  unfold readUdp
  by_cases h : e.pipeIdx = 0xFF
  · rw [if_pos h, if_pos h]
    exact needs_of_zero (needs_pure _) rfl
  · rw [if_neg h, if_neg h]
    refine needs_kernel ?_
    cases k.udpSocket e.pipeIdx with
    | none => exact needs_of_zero (needs_pure _) rfl
    | some i =>
      dsimp only [Option.elim]
      cases (k.udp i).rx with
      | nil => exact needs_of_zero (needs_modifyKernel (needs_pure _)) rfl
      | cons d rest =>
        refine needs_congr (needs_modifyKernel (needs_write ?_)) ?_
        · exact silent_ite (silent_modifyKernel (silent_pure _)) (silent_pure _)
        · rw [List.length_take]
          rfl

/-- `count` as both handlers cut it. -/
theorem cut_count (count : UInt64) :
    (if UInt64.ofNat sysIoBufMax < count then UInt64.ofNat sysIoBufMax else count) =
      min count (UInt64.ofNat sysIoBufMax) := by
  change _ = if count ≤ UInt64.ofNat sysIoBufMax then count else UInt64.ofNat sysIoBufMax
  by_cases h : UInt64.ofNat sysIoBufMax < count
  · rw [if_pos h, if_neg (UInt64.not_le.mpr h)]
  · rw [if_neg h, if_pos (UInt64.not_lt.mp h)]

theorem needs_sysReadFd (fd : Int) (count : UInt64) :
    Needs (sysReadFd env fd buf count) m k
      (∀ i, k.openFd fd = some i → count ≠ 0 →
        userPtrRangeValid64 buf (min count (UInt64.ofNat sysIoBufMax)) = true →
        WritesOk m buf
          ((k.fdTable i).readable env k (min count (UInt64.ofNat sysIoBufMax)).toNat)) := by
  refine needs_kernel ?_
  cases k.openFd fd with
  | none => exact needs_congr (needs_pure _) (by simp)
  | some i =>
    dsimp only
    rw [cut_count]
    refine needs_congr (needs_ite (fun _ => needs_pure _) fun _ => needs_ite
      (D := WritesOk m buf
        ((k.fdTable i).readable env k (min count (UInt64.ofNat sysIoBufMax)).toNat))
      (fun _ => needs_pure _) fun _ => ?_) ?_
    · unfold FdEntry.readable
      cases (k.fdTable i).type with
      | tty => exact needs_readTty _ _
      | pipeR => exact needs_readPipe _ _ _
      | file => exact needs_readFileAt _ _ _ _ _
      | sockTcp => exact needs_readTcp _ _ _ _
      | sockUdp => exact needs_readUdp _ _ _
      | none => exact needs_of_zero (needs_pure _) rfl
      | pipeW => exact needs_of_zero (needs_pure _) rfl
    · simp only [Option.some.injEq, forall_eq', implies_true, true_and, Bool.not_eq_true',
        Bool.not_eq_false, ne_eq]

theorem needs_writePipe :
    Needs (writePipe e buf count) m k (ReadsOk m buf
      ((k.activePipe e.pipeIdx).elim 0 fun p =>
        min count (pipeBufSize - (k.pipes p).data.length))) := by
  refine needs_kernel ?_
  cases k.activePipe e.pipeIdx with
  | none => exact needs_of_zero_reads (needs_pure _) rfl
  | some p =>
    exact needs_congr (needs_read (needs_modifyKernel (needs_pure _))) (and_iff_left trivial)

theorem needs_writeTcp :
    Needs (writeTcp env e buf count) m k (ReadsOk m buf
      (if e.pipeIdx = 0xFF then 0 else k.tcp.sendRoom e.pipeIdx.toNat count)) := by
  unfold writeTcp
  by_cases h : e.pipeIdx = 0xFF
  · rw [if_pos h, if_pos h]
    exact needs_of_zero_reads (needs_pure _) rfl
  · rw [if_neg h, if_neg h]
    refine needs_kernel (needs_congr (needs_read ?_) (and_iff_left trivial))
    exact needs_modifyKernel (needs_pure _)

theorem needs_writeUdp :
    Needs (writeUdp env e buf count) m k (ReadsOk m buf
      (if e.pipeIdx = 0xFF then 0 else (k.udpSocket e.pipeIdx).elim 0 fun _ =>
        if k.udpOutput ∧ count ≤ udpMaxPayload then count else 0)) := by
  unfold writeUdp
  by_cases h : e.pipeIdx = 0xFF
  · rw [if_pos h, if_pos h]
    exact needs_of_zero_reads (needs_pure _) rfl
  · rw [if_neg h, if_neg h]
    refine needs_kernel ?_
    cases k.udpSocket e.pipeIdx with
    | none => exact needs_of_zero_reads (needs_pure _) rfl
    | some j =>
      dsimp only [Option.elim]
      by_cases hsend : k.udpOutput = true ∧ count ≤ udpMaxPayload
      · rw [if_pos hsend, if_neg (by simp [hsend.1, hsend.2])]
        exact needs_congr (needs_read (needs_pure _)) (and_iff_left trivial)
      · rw [if_neg hsend, if_pos (by
          rw [not_and_or, not_le] at hsend
          simpa using hsend)]
        exact needs_of_zero_reads (needs_pure _) rfl

theorem needs_sysWriteFd (fd : Int) (count : UInt64) :
    Needs (sysWriteFd env fd buf count) m k
      (∀ i, k.openFd fd = some i → count ≠ 0 →
        userPtrRangeValid64 buf (min count (UInt64.ofNat sysIoBufMax)) = true →
        ReadsOk m buf
          ((k.fdTable i).takes k (min count (UInt64.ofNat sysIoBufMax)).toNat)) := by
  refine needs_kernel ?_
  cases k.openFd fd with
  | none => exact needs_congr (needs_pure _) (by simp)
  | some i =>
    dsimp only
    rw [cut_count]
    refine needs_congr (needs_ite (fun _ => needs_pure _) fun _ => needs_ite
      (D := ReadsOk m buf ((k.fdTable i).takes k (min count (UInt64.ofNat sysIoBufMax)).toNat))
      (fun _ => needs_pure _) fun _ => ?_) ?_
    · unfold FdEntry.takes
      cases (k.fdTable i).type with
      | tty => exact needs_congr (needs_read (needs_pure _)) (and_iff_left trivial)
      | file => exact needs_congr (needs_read (needs_pure _)) (and_iff_left trivial)
      | pipeW => exact needs_writePipe _ _ _
      | sockTcp => exact needs_writeTcp _ _ _ _
      | sockUdp => exact needs_writeUdp _ _ _ _
      | none => exact needs_of_zero_reads (needs_pure _) rfl
      | pipeR => exact needs_of_zero_reads (needs_pure _) rfl
    · simp only [Option.some.injEq, forall_eq', implies_true, true_and, Bool.not_eq_true',
        Bool.not_eq_false, ne_eq]

/-- With the first free descriptor taken there is another one. -/
theorem fdAlloc_pipeEnd {rfd : Fin fdMax} (p : Fin maxPipes) (h : k.fdAlloc = some rfd) :
    (k.pipeEnd rfd .pipeR p).fdAlloc.isSome = true ↔
      ∃ i j, i ≠ j ∧ (k.fdTable i).type = .none ∧ (k.fdTable j).type = .none := by
  have hfree : (k.fdTable rfd).type = .none := by
    have := first_some h
    rwa [beq_iff_eq] at this
  have hne : ∀ i, i ≠ rfd → (k.pipeEnd rfd .pipeR p).fdTable i = k.fdTable i :=
    fun i hi => Function.update_of_ne hi ..
  have hself : ((k.pipeEnd rfd .pipeR p).fdTable rfd).type = .pipeR := by
    change (Function.update k.fdTable rfd _ rfd).type = .pipeR
    rw [Function.update_self]
  rw [Kernel.fdAlloc, first_isSome]
  simp only [beq_iff_eq]
  constructor
  · rintro ⟨i, hi⟩
    have hir : i ≠ rfd := by
      rintro rfl
      rw [hself] at hi
      cases hi
    rw [hne i hir] at hi
    exact ⟨i, rfd, hir, hi, hfree⟩
  · rintro ⟨i, j, hij, hi, hj⟩
    by_cases hir : i = rfd
    · have hjr : j ≠ rfd := fun h => hij (hir.trans h.symm)
      exact ⟨j, by rw [hne j hjr]; exact hj⟩
    · exact ⟨i, by rw [hne i hir]; exact hi⟩

theorem needs_sysPipe :
    Needs (sysPipe buf) m k
      (userPtrRangeValid64 buf 8 = true → (∃ p, (k.pipes p).active = false) →
        (∃ i j, i ≠ j ∧ (k.fdTable i).type = .none ∧ (k.fdTable j).type = .none) →
        WritesOk m buf 8) := by
  have hpipe : (∃ p, (k.pipes p).active = false) ↔
      (first fun p => !(k.pipes p).active).isSome = true := by
    rw [first_isSome]
    simp
  rw [hpipe]
  refine needs_congr (needs_ite (D := (first fun p => !(k.pipes p).active).isSome = true →
    (∃ i j, i ≠ j ∧ (k.fdTable i).type = .none ∧ (k.fdTable j).type = .none) → WritesOk m buf 8)
    (fun _ => needs_pure _) fun _ => needs_kernel ?_) (by simp)
  cases first fun p => !(k.pipes p).active with
  | none => exact needs_congr (needs_pure _) (by simp)
  | some p =>
    dsimp only
    cases hr : k.fdAlloc with
    | none =>
      refine needs_congr (needs_pure _) ?_
      have hfull : ∀ i, (k.fdTable i).type ≠ .none := by
        intro i
        have := first_none.mp hr i
        rwa [beq_eq_false_iff_ne] at this
      simp [hfull]
    | some rfd =>
      rw [← fdAlloc_pipeEnd p hr]
      dsimp only
      cases (k.pipeEnd rfd .pipeR p).fdAlloc with
      | none => exact needs_congr (needs_modifyKernel (needs_pure _)) (by simp)
      | some wfd =>
        refine needs_congr (needs_modifyKernel (needs_write (silent_pure _))) ?_
        simp [le32]

/-- A system call comes to an end, and has dereferenced mapped addresses of the user range
only, if and only if its pointers meet the condition. -/
theorem syscall_survives_iff (env : SysEnv) (call : PointerCall) (r : SysArgs) (m : UserMemory)
    (k : Kernel) : Survives env call r m k ↔ PointersOk env call r m k := by
  have hneeds : Needs (interruptDispatch env call r) m k (PointersOk env call r m k) := by
    cases call with
    | read => exact needs_syscallVfsRead64 env r.rbx r.rcx r.rdx
    | write => exact needs_syscallVfsWrite64 env r.rbx r.rcx r.rdx
    | «open» => exact needs_sysOpen env r.rbx r.rcx
    | readFd => exact needs_sysReadFd env r.rcx (cInt r.rbx.toUInt32) r.rdx
    | writeFd => exact needs_sysWriteFd env r.rcx (cInt r.rbx.toUInt32) r.rdx
    | pipe => exact needs_sysPipe r.rbx
    | execve => exact needs_sysExecve env r.rbx
    | mmap => exact needs_sysMmap r.rbx r.rcx r.rdx
    | chdir => exact needs_sysChdir env r.rbx
    | getcwd => exact needs_sysGetcwd r.rbx r.rcx
    | auth => exact needs_sysAuth env r.rbx r.rcx
  have hnil : Sound m [] := fun a h => by cases h
  exact (hneeds []).trans (and_iff_right hnil)

/-- A task as the loader makes it : a page of code at the bottom of the user range, the
stack, and nothing else. -/
def loadedMemory : UserMemory where
  page p := if p = 0x10000 ∨ 0x107FC ≤ p ∧ p < 0x10800 then .writable else .unmapped
  byte _ := 0
  frames := 900

/-- The kernel at that time : descriptors 0 to 2 are the terminal. -/
def loadedKernel : Kernel where
  fdTable i := ⟨if i.val < 3 then .tty else .none, 1, emptyPath, 0, 0, 0, 0⟩
  pipes _ := ⟨[], false, false, false⟩
  tty := []
  tcp := TcpStack.tcpInit
  udp _ := ⟨false, 0, []⟩
  udpOutput := false
  cwd := ⟨[47], by decide⟩
  vmaList _ := ⟨0, 0, .none, 0, 0, emptyPath⟩
  mmapNext := 0
  ticksRemaining := 4

/-- A file system without files. -/
def noFiles : SysEnv :=
  ⟨0, fun _ => false, fun _ _ => none, fun _ _ => -1, fun _ _ => -1, fun _ _ => false, fun _ => -1,
    fun _ => none⟩

/-- `chdir` of a pointer that is in range but not mapped ends in `cli; hlt`. -/
theorem syscall_halts :
    ¬ Survives noFiles .chdir ⟨0x30000000, 0, 0⟩ loadedMemory loadedKernel := by
  intro h
  obtain ⟨-, hpath⟩ := (needs_sysChdir noFiles 0x30000000 []).mp h
  have hat := hpath (by decide) 0 (by decide) (fun j hj => absurd hj (Nat.not_lt_zero j))
  exact hat.2 (by decide)

end VernisOS
