import VernisOS.Boot
import VernisOS.System
import VernisOS.VernisFsIsolation

/-!
# Files against user programs

`kfs_check_perm` decides from the mode of a file, but no system call asks it : only the
commands of the shell do. A call reads and writes the file of its path or of its descriptor
whatever the mode says, and `sys_write_fd` does not look at the flags of the descriptor. Files
are protected in runs where every call would have been let through (`file_protection`).
-/

open Run Slots

namespace VernisOS

namespace System

/-! ## What a call does to files -/

/-- The file that a call hands to `kfs_read_file`, with the room in the buffer. -/
def readsFile (s : System) : SysOp → Option (CStr × ℕ)
  | .read path buf len =>
    if len = 0 ∨ UInt64.ofNat sysIoBufMax < len then none
    else if !userPtrRangeValid64 buf len then none
    else path.map fun p => (p.path, len.toNat)
  | .readFd fd buf count =>
    match s.kernel.openFd fd with
    | none => none
    | some fd =>
      if count = 0 then none
      else if !userPtrRangeValid64 buf (UInt64.ofNat (ioCount count)) then none
      else if (s.fds fd).type = .file then some ((s.fds fd).path.path, sysIoBufMax)
      else none
  | _ => none

/-- The file that a call hands to `kfs_write_file`, with the bytes. -/
def writesFile (s : System) : SysOp → Option (CStr × List UInt8)
  | .write path buf len mem =>
    if len = 0 ∨ UInt64.ofNat sysIoBufMax < len then none
    else if !userPtrRangeValid64 buf len then none
    else path.map fun p => (p.path, (List.range len.toNat).map mem)
  | .writeFd fd buf count mem _ =>
    match s.kernel.openFd fd with
    | none => none
    | some fd =>
      if count = 0 then none
      else if !userPtrRangeValid64 buf (UInt64.ofNat (ioCount count)) then none
      else if (s.fds fd).type = .file then
        some ((s.fds fd).path.path, (List.range (ioCount count)).map mem)
      else none
  | _ => none

/-- The descriptor through which a call writes. -/
def writesThrough (s : System) : SysOp → Option FdEntry
  | .writeFd fd _ _ _ _ => (s.kernel.openFd fd).map s.fds
  | _ => none

/-- The bytes of a file that reach the running task, with the path of the file. -/
def delivered (env : KfsEnv) (s : System) : SysOp → Option (CStr × List UInt8)
  | .read path buf len =>
    match path, (s.sysRead env path buf len).1 with
    | some path, some bytes => some (path.path, bytes)
    | _, _ => none
  | .readFd fd buf count =>
    match s.kernel.openFd fd, (s.sysReadFd env fd buf count).1 with
    | some i, some bytes =>
      if (s.fds i).type = .file then some ((s.fds i).path.path, bytes) else none
    | _, _ => none
  | _ => none

/-- The user of the running task. -/
def uid (s : System) : UInt16 :=
  s.machine.cur.uid

/-- What a call of a task that is not root may do. The content of a file changes only if a
user task may write it, bytes of a file reach the caller only if it may read them, and a
descriptor for reading leaves its file alone. -/
structure Protects (env : KfsEnv) (s : System) (op : SysOp) : Prop where
  written : ∀ s' path, s.step env op = some s' → ¬ ReadsSame s.fs s'.fs path →
    ∃ i, (s.machine.tasks i).active = true ∧ (s.machine.tasks i).uid ≠ 0 ∧
      kfsCheckPerm env s.fs path (s.machine.tasks i).uid 'w' = 0
  read : ∀ path bytes, s.delivered env op = some (path, bytes) → bytes ≠ [] →
    kfsCheckPerm env s.fs path s.uid 'r' = 0
  readOnly : ∀ s' e, s.step env op = some s' → s.writesThrough op = some e → e.type = .file →
    e.flags = 1 → ReadsSame s.fs s'.fs e.path.path

/-- Files are protected against the call, if the caller is a task that is not root. -/
def FileSafe (env : KfsEnv) (s : System) (op : SysOp) : Prop :=
  s.uid ≠ 0 → Protects env s op

/-- The call would have been let through : a caller that is not root may read what it reads and
write what it writes, and writes through no descriptor for reading. What is written stays apart
from the other files, and a new directory hides none. -/
structure Permitted (env : KfsEnv) (s : System) (op : SysOp) : Prop where
  readable : ∀ r, s.readsFile op = some r → s.uid ≠ 0 → kfsCheckPerm env s.fs r.1 s.uid 'r' = 0
  writable : ∀ w, s.writesFile op = some w → s.uid ≠ 0 → kfsCheckPerm env s.fs w.1 s.uid 'w' = 0
  forWriting : ∀ w e, s.writesFile op = some w → s.writesThrough op = some e → s.uid ≠ 0 →
    e.flags ≠ 1
  apart : ∀ w, s.writesFile op = some w → kfsOutside w.1.chars = false →
    WriteApart s.fs w.1 (UInt64.ofNat w.2.length).toUInt32
  visible : ∀ path, op = .mkdir (some path) → kfsOutside path.path.chars = false →
    KeepsApart s.fs (.mkdir path.path)

/-! ## The files after a call -/

/-- The files after an event. -/
def fsAfter (env : KfsEnv) (s : System) (op : SysOp) : VernisFs :=
  match s.writesFile op with
  | some w => (kfsWriteFile s.fs w.1 w.2).2
  | none =>
    match s.readsFile op with
    | some r => (kfsReadFile env s.fs r.1 r.2).2
    | none =>
      match op with
      | .mkdir (some path) => (kfsMkdir s.fs path.path).2
      | _ => s.fs

theorem fs_of_base {s s' : System} (h : s'.base = s.base) : s'.fs = s.fs :=
  congrArg Prod.snd h

theorem sysRead_fs (env : KfsEnv) (s : System) (path : Option (CString sysIoPathMax))
    (buf len : UInt64) :
    (s.sysRead env path buf len).2.fs = fsAfter env s (.read path buf len) := by
  unfold sysRead fsAfter readsFile writesFile
  dsimp only
  split
  · rfl
  · split
    · rfl
    · cases path <;> rfl

theorem sysWrite_fs (env : KfsEnv) (s : System) (path : Option (CString sysIoPathMax))
    (buf len : UInt64) (mem : ℕ → UInt8) :
    (s.sysWrite path buf len mem).2.fs = fsAfter env s (.write path buf len mem) := by
  unfold sysWrite fsAfter readsFile writesFile
  dsimp only
  split
  · rfl
  · split
    · rfl
    · cases path <;> rfl

theorem readFileAt_fs (env : KfsEnv) (s : System) (fd : Fin fdMax) (count : ℕ) :
    (s.readFileAt env fd count).2.fs =
      (kfsReadFile env s.fs (s.fds fd).path.path sysIoBufMax).2 := by
  unfold readFileAt
  dsimp only
  split
  · rfl
  · split <;> rfl

theorem sysReadFd_fs (env : KfsEnv) (s : System) (fd : Int) (buf count : UInt64) :
    (s.sysReadFd env fd buf count).2.fs = fsAfter env s (.readFd fd buf count) := by
  unfold sysReadFd fsAfter readsFile writesFile
  dsimp only
  cases s.kernel.openFd fd with
  | none => rfl
  | some i =>
    dsimp only
    split
    · rfl
    · split
      · rfl
      · cases htype : (s.fds i).type with
        | file => exact s.readFileAt_fs env i _
        | tty =>
          dsimp only
          split <;> rfl
        | pipeR =>
          dsimp only
          split <;> rfl
        | sockTcp =>
          dsimp only
          split
          · rfl
          · dsimp only
            generalize s.tcp.tcpRecv _ _ _ = r
            by_cases h : r.1 = 0
            · rw [if_pos h]
              rfl
            · rw [if_neg h]
              rfl
        | sockUdp =>
          dsimp only
          split
          · rfl
          · split <;> rfl
        | _ => rfl

theorem sysWriteFd_fs (env : KfsEnv) (s : System) (fd : Int) (buf count : UInt64)
    (mem : ℕ → UInt8) (ipOutput : Int) :
    (s.sysWriteFd fd buf count mem ipOutput).2.fs =
      fsAfter env s (.writeFd fd buf count mem ipOutput) := by
  unfold sysWriteFd fsAfter readsFile writesFile
  dsimp only
  cases s.kernel.openFd fd with
  | none => rfl
  | some i =>
    dsimp only
    split
    · rfl
    · split
      · rfl
      · cases htype : (s.fds i).type with
        | file => rfl
        | pipeW =>
          dsimp only
          split <;> rfl
        | sockTcp =>
          dsimp only
          split <;> rfl
        | sockUdp =>
          dsimp only
          split <;> rfl
        | _ => rfl

theorem call_fs (env : KfsEnv) (s : System) (op : SysOp) :
    (s.call env op).fs = fsAfter env s op := by
  cases op with
  | read path buf len => exact s.sysRead_fs env path buf len
  | write path buf len mem => exact s.sysWrite_fs env path buf len mem
  | readFd fd buf count => exact s.sysReadFd_fs env fd buf count
  | writeFd fd buf count mem ipOutput => exact s.sysWriteFd_fs env fd buf count mem ipOutput
  | «open» path flags => exact fs_of_base (s.sysOpen_base env path flags)
  | close fd => exact fs_of_base (s.sysClose_base fd)
  | dup oldfd => exact fs_of_base (s.sysDup_base oldfd)
  | dup2 oldfd newfd => exact fs_of_base (s.sysDup2_base oldfd newfd)
  | pipe fdsPtr => exact fs_of_base (s.sysPipe_base fdsPtr)
  | socket type => exact fs_of_base (s.sysSocket_base type)
  | connect fd ip port => exact fs_of_base (s.sysConnect_base fd ip port)
  | bind fd port => exact fs_of_base (s.sysBind_base fd port)
  | listen fd => exact fs_of_base (s.sysListen_base fd)
  | accept fd => exact fs_of_base (s.sysAccept_base fd)
  | chdir path => exact fs_of_base (s.sysChdir_base env path)
  | mkdir path => cases path <;> rfl
  | _ => rfl

/-- Files change by `kfs_write_file`, `kfs_read_file` and `kfs_mkdir` only. -/
theorem step_fs {env : KfsEnv} {s s' : System} {op : SysOp} (h : s.step env op = some s') :
    s'.fs = fsAfter env s op := by
  cases op with
  | proc p =>
    obtain ⟨m', -, rfl⟩ := Option.map_eq_some_iff.mp h
    exact (fs_of_base (taskFds_base { s with machine := m' } s.machine p)).trans rfl
  | input bytes =>
    obtain rfl := Option.some.inj h
    rfl
  | tcpPacket srcIp packet =>
    obtain rfl := Option.some.inj h
    rfl
  | tcpTick =>
    obtain rfl := Option.some.inj h
    rfl
  | udpPacket port payload =>
    obtain rfl := Option.some.inj h
    exact fs_of_base (s.udpReceive_base port payload)
  | _ =>
    obtain ⟨-, h⟩ := Option.ite_none_right_eq_some.mp h
    obtain rfl := Option.some.inj h
    exact call_fs env s _

/-- What reaches a task was read by `kfs_read_file`. -/
theorem readsFile_of_delivered {env : KfsEnv} {s : System} {op : SysOp} {path : CStr}
    {bytes : List UInt8} (h : s.delivered env op = some (path, bytes)) (hne : bytes ≠ []) :
    ∃ r, s.readsFile op = some r ∧ r.1 = path := by
  cases op with
  | read p buf len =>
    unfold delivered at h
    unfold readsFile
    cases p with
    | none => cases h
    | some p =>
      cases hread : (s.sysRead env (some p) buf len).1 with
      | none => simp [hread] at h
      | some b =>
        simp only [hread, Option.some.injEq, Prod.mk.injEq] at h
        unfold sysRead at hread
        dsimp only
        split at hread
        · cases hread
        · split at hread
          · cases hread
          · rename_i hlen hbuf
            rw [if_neg hlen, if_neg hbuf]
            exact ⟨_, rfl, h.1⟩
  | readFd fd buf count =>
    unfold delivered at h
    unfold readsFile
    cases hfd : s.kernel.openFd fd with
    | none => simp [hfd] at h
    | some i =>
      cases hread : (s.sysReadFd env fd buf count).1 with
      | none => simp [hfd, hread] at h
      | some b =>
        simp only [hfd, hread, Option.ite_none_right_eq_some, Option.some.injEq,
          Prod.mk.injEq] at h
        obtain ⟨htype, hpath, rfl⟩ := h
        unfold sysReadFd at hread
        rw [hfd] at hread
        dsimp only at hread ⊢
        rw [hfd]
        dsimp only
        split at hread
        · exact absurd (Option.some.inj hread).symm hne
        · split at hread
          · cases hread
          · rename_i hcount hbuf
            rw [if_neg hcount, if_neg hbuf, if_pos htype]
            exact ⟨_, rfl, hpath⟩
  | _ => cases h

/-! ## Protection -/

theorem kfsReadFile_fs (env : KfsEnv) (fs : VernisFs) (path : CStr) (maxLen : ℕ) :
    ∃ d, (kfsReadFile env fs path maxLen).2 = fs.setDisk d ∧
      Backend.Wrote fs.disk d fun _ => False := by
  have hsame : ∃ d, fs = fs.setDisk d ∧ Backend.Wrote fs.disk d fun _ => False :=
    ⟨fs.disk, rfl, Backend.Wrote.refl _ _⟩
  unfold kfsReadFile
  split_ifs
  · exact hsame
  · exact hsame
  · exact hsame
  · exact hsame
  · exact hsame
  · exact hsame
  · split
    · exact hsame
    · split
      · exact hsame
      · exact fs.vfsReadFile_fs path _ _

/-- A write to a path leaves the files of the other paths. -/
theorem kfsWriteFile_keeps {fs : VernisFs} (h : IsolationInv fs) (path : CStr) (data : List UInt8)
    (hap : kfsOutside path.chars = false →
      WriteApart fs path (UInt64.ofNat data.length).toUInt32) :
    KeepsOthers fs (kfsWriteFile fs path data).2 path := by
  have hsame : KeepsOthers fs fs path := ⟨h, fun other _ => ReadsSame.refl fs other⟩
  unfold kfsWriteFile
  split
  · exact hsame
  · cases hout : kfsOutside path.chars with
    | true => exact hsame
    | false => exact h.write path _ _ (hap hout)

/-- A new directory leaves all files. -/
theorem kfsMkdir_keeps {fs : VernisFs} (h : IsolationInv fs) (path : CStr)
    (hvis : kfsOutside path.chars = false → KeepsApart fs (.mkdir path)) :
    IsolationInv (kfsMkdir fs path).2 ∧ ∀ other, ReadsSame fs (kfsMkdir fs path).2 other := by
  unfold kfsMkdir
  cases hout : kfsOutside path.chars with
  | true => exact ⟨h, fun other => ReadsSame.refl fs other⟩
  | false =>
    obtain ⟨fs', hstep, hinv, hothers⟩ := h.step (.mkdir path) (hvis hout)
    obtain rfl := Option.some.inj hstep
    refine ⟨hinv, fun other => ?_⟩
    by_cases hne : other.chars = path.chars
    · rcases fs.vfsMkdir_cases path with ⟨-, he⟩ | ⟨i, d, hr, hfind, -⟩
      · rw [if_neg (by simp), he]
        exact ReadsSame.refl fs other
      · intro hsome
        obtain rfl : other = path := by
          cases other
          cases path
          simpa using hne
        simp [VernisFs.vfsFindFile, hr, hfind] at hsome
    · exact hothers other hne

/-- The invariant of the files, and which of them a call leaves. -/
theorem Permitted.keeps {env : KfsEnv} {s s' : System} {op : SysOp} (hp : Permitted env s op)
    (h : IsolationInv s.fs) (hstep : s.step env op = some s') :
    IsolationInv s'.fs ∧ ∀ other, (∀ w, s.writesFile op = some w → other.chars ≠ w.1.chars) →
      ReadsSame s.fs s'.fs other := by
  rw [step_fs hstep]
  unfold fsAfter
  cases hw : s.writesFile op with
  | some w =>
    dsimp only
    obtain ⟨hinv, hothers⟩ := kfsWriteFile_keeps h w.1 w.2 (hp.apart w hw)
    exact ⟨hinv, fun other hne => hothers other (hne w rfl)⟩
  | none =>
    cases hr : s.readsFile op with
    | some r =>
      dsimp only
      obtain ⟨d, he, hd⟩ := kfsReadFile_fs env s.fs r.1 r.2
      rw [he]
      exact ⟨h.setDisk hd, fun other _ =>
        h.readsSame_setDisk other hd fun _ _ _ _ hfalse => hfalse⟩
    | none =>
      dsimp only
      split
      · rename_i path
        obtain ⟨hinv, hall⟩ := kfsMkdir_keeps h path.path (hp.visible path rfl)
        exact ⟨hinv, fun other _ => hall other⟩
      · exact ⟨h, fun other _ => ReadsSame.refl s.fs other⟩

theorem active_of_writes {env : KfsEnv} {s s' : System} {op : SysOp} {w : CStr × List UInt8}
    (hstep : s.step env op = some s') (hw : s.writesFile op = some w) :
    s.machine.cur.active = true := by
  cases op with
  | write path buf len mem => exact (Option.ite_none_right_eq_some.mp hstep).1.1
  | writeFd fd buf count mem ipOutput => exact (Option.ite_none_right_eq_some.mp hstep).1.1
  | _ => cases hw

theorem Permitted.fileSafe {env : KfsEnv} {s : System} {op : SysOp} (hp : Permitted env s op)
    (h : IsolationInv s.fs) : FileSafe env s op := by
  intro huid
  refine ⟨fun s' path hstep hchange => ?_, fun path bytes hread hne => ?_,
    fun s' e hstep hthrough htype hflags => ?_⟩
  · obtain ⟨-, hothers⟩ := hp.keeps h hstep
    by_contra hnone
    refine hchange (hothers path fun w hw hchars => hnone ?_)
    refine ⟨s.machine.current, active_of_writes hstep hw, huid, ?_⟩
    obtain rfl : path = w.1 := by
      obtain ⟨⟨chars, hnul⟩, data⟩ := w
      cases path
      simpa using hchars
    exact hp.writable w hw huid
  · obtain ⟨r, hr, rfl⟩ := readsFile_of_delivered hread hne
    exact hp.readable r hr huid
  · obtain ⟨-, hothers⟩ := hp.keeps h hstep
    exact hothers _ fun w hw _ => hp.forWriting w e hw hthrough huid hflags

end System

/-! ## Runs -/

/-- On a volume whose files have sectors of their own, and whose disk does not fail, files are
protected against user programs in every run in which all calls would have been let through. -/
theorem file_protection (env : KfsEnv) (s : System) (hext : Extents s.fs)
    (hdisk : s.fs.disk.NeverFails) (hfits : 5125 + s.fs.superblock.firstFreeSector.toNat ≤ 2 ^ 32)
    (ops : List SysOp) (hperm : Along (System.step env) (System.Permitted env) s ops) :
    Along (System.step env) (System.FileSafe env) s ops := by
  refine Along.mono_inv (I := fun s => IsolationInv s.fs) ?_ ?_ ops s ⟨hext, hfits, hdisk⟩ hperm
  · intro s op s' h hp hstep
    exact (hp.keeps h hstep).1
  · intro s op h hp
    exact hp.fileSafe h

/-- The path `/a` in a `char` array. -/
def namePathA : CString sysIoPathMax :=
  ⟨[47, 97], by decide⟩

/-- User 1000 overwrites a file that has no mode. -/
theorem file_protection_twoFiles :
    Along (System.step noMounts) (System.FileSafe noMounts) (System.boot userMachine twoFiles)
      [.write (some namePathA) 0x10000000 1 fun _ => 1] := by
  refine file_protection noMounts (System.boot userMachine twoFiles) extents_twoFiles
    (fun _ => rfl) (by decide) _ ⟨⟨?_, ?_, ?_, ?_, ?_⟩, fun _ _ => trivial⟩
  · intro r hr
    cases hr
  · intro w hw _
    obtain rfl := Option.some.inj hw
    decide +kernel
  · intro w e _ he
    cases he
  · intro w hw _
    obtain rfl := Option.some.inj hw
    exact writeApart_twoFiles
  · intro path hpath
    cases hpath

/-- A volume whose file `/a` only root may read or write. -/
def privateVolume : VernisFs :=
  twoFiles.setEntry 0 { twoFiles.filetable 0 with mode := 0o600 }

/-- User 1000 reads the byte of root's file and overwrites it, and overwrites a file through a
descriptor for reading. -/
theorem not_file_protection_private :
    ¬ Along (System.step noMounts) (System.FileSafe noMounts)
        (System.boot userMachine privateVolume) [.read (some namePathA) 0x10000000 1] ∧
      ¬ Along (System.step noMounts) (System.FileSafe noMounts)
        (System.boot userMachine privateVolume)
        [.write (some namePathA) 0x10000000 1 fun _ => 1] ∧
      ¬ Along (System.step noMounts) (System.FileSafe noMounts) (System.boot userMachine twoFiles)
        [.open (some namePathA) 1, .writeFd 3 0x10000000 1 (fun _ => 1) 0] := by
  have hperm : ∀ i, (userMachine.tasks i).uid ≠ 0 →
      kfsCheckPerm noMounts privateVolume namePathA.path (userMachine.tasks i).uid 'r' ≠ 0 ∧
        kfsCheckPerm noMounts privateVolume namePathA.path (userMachine.tasks i).uid 'w' ≠ 0 := by
    decide +kernel
  refine ⟨fun h => ?_, fun h => ?_, fun h => ?_⟩
  · have hbytes : ((System.boot userMachine privateVolume).sysRead noMounts (some namePathA)
        0x10000000 1).1 = some [0] := by
      decide +kernel
    have hread := (h.1 (by decide)).read namePathA.path [0]
      (by simp only [System.delivered, hbytes]) (by decide)
    exact (hperm 3 (by decide)).1 hread
  · obtain ⟨i, -, hi, hcheck⟩ := (h.1 (by decide)).written _ namePathA.path rfl fun hsame => by
      have hbyte := congrFun (congrFun ((hsame (by decide +kernel)).2 (fun _ _ => 0) 1).2 0) 0
      revert hbyte
      decide +kernel
    exact (hperm i hi).2 hcheck
  · have hfd : ((System.call noMounts (System.boot userMachine twoFiles)
        (.open (some namePathA) 1)).writesThrough (.writeFd 3 0x10000000 1 (fun _ => 1) 0)).map
        (fun e => (e.type, e.flags, e.path)) = some (.file, 1, namePathA) := by
      decide +kernel
    obtain ⟨e, he, hfields⟩ := Option.map_eq_some_iff.mp hfd
    simp only [Prod.mk.injEq] at hfields
    obtain ⟨htype, hflags, hpath⟩ := hfields
    have hsame := ((h.2 _ rfl).1 (by decide +kernel)).readOnly _ e (if_pos (by decide +kernel)) he
      htype hflags
    rw [hpath] at hsame
    have hbyte := congrFun (congrFun ((hsame (by decide +kernel)).2 (fun _ _ => 0) 1).2 0) 0
    revert hbyte
    decide +kernel

end VernisOS
