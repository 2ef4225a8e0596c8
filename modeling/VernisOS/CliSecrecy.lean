import VernisOS.CliSteps
import VernisOS.VernisFsSecrecy

/-!
# What a session learns of a file

The builtins for files show a session the same in two file systems that look the same to its
user. `grep` and `wc` do not ask whether their path may be read (`not_files_secret`). A line that
gives them no hidden file prints the same and leaves the file systems looking the same
(`files_secret`).
-/

open Traced

namespace VernisOS

/-- The shells differ in the file systems only, which look the same to the user. -/
structure SameShell (env : CliEnv) (uid : UInt16) (D : UInt32 → Fin 512 → Prop)
    (s s' : Shell) : Prop where
  shell : s' = s.setFs s'.fs
  user : s.session.uid.toUInt16 = uid
  files : SameToUser env.kfs uid D s.fs s'.fs

/-- The call of a handler reads no hidden file. A file that it creates in vain has no byte in
`D`. -/
def KeepsSecret (env : CliEnv) (D : UInt32 → Fin 512 → Prop) : ShellEvent → Prop
  | .subCommand _ _ => False
  | .ran b cmd s _ =>
    match b.handler with
    | .echo | .ls | .cat | .rm => True
    | .write | .append => ∀ content ∈ writeContent s cmd,
      kfsOutside (cPath (cmd.arg 1)).chars = false →
        CreationKeeps D s.fs (cPath (cmd.arg 1)) (UInt64.ofNat content.length).toUInt32
    | .grep => 2 < cmd.argc → MayRead env.kfs s.session.uid.toUInt16 s.fs (cPath (cmd.arg 2))
    | .wc => 1 < cmd.argc → MayRead env.kfs s.session.uid.toUInt16 s.fs (cPath (cmd.arg 1))
    | .login | .su | .logout | .other => False

namespace SameShell

variable {env : CliEnv} {uid : UInt16} {D : UInt32 → Fin 512 → Prop} {s s' : Shell}

theorem session (h : SameShell env uid D s s') : s'.session = s.session := by
  rw [h.shell]
  rfl

theorem pipeInput (h : SameShell env uid D s s') : s'.pipeInput = s.pipeInput := by
  rw [h.shell]
  rfl

theorem engine (h : SameShell env uid D s s') : s'.engine = s.engine := by
  rw [h.shell]
  rfl

theorem captureBuf (h : SameShell env uid D s s') : s'.captureBuf = s.captureBuf := by
  rw [h.shell]
  rfl

theorem psGuiLive (h : SameShell env uid D s s') : s'.psGuiLive = s.psGuiLive := by
  rw [h.shell]
  rfl

/-- A change of the shell that does not look at the files. -/
theorem update (h : SameShell env uid D s s') {f : Shell → Shell}
    (hf : ∀ fs, f (s.setFs fs) = (f s).setFs fs) (hfs : (f s).fs = s.fs)
    (huid : (f s).session.uid = s.session.uid) : SameShell env uid D (f s) (f s') := by
  have hs : f s' = (f s).setFs s'.fs := by
    rw [h.shell]
    exact hf s'.fs
  refine ⟨?_, ?_, ?_⟩
  · rw [hs]
    rfl
  · rw [huid]
    exact h.user
  · rw [hs, hfs]
    exact h.files

theorem setFs (h : SameShell env uid D s s') {g g' : VernisFs}
    (hg : SameToUser env.kfs uid D g g') : SameShell env uid D (s.setFs g) (s'.setFs g') := by
  refine ⟨?_, h.user, hg⟩
  rw [h.shell]
  rfl

end SameShell

variable {env : CliEnv} {uid : UInt16} {D : UInt32 → Fin 512 → Prop} {s s' : Shell}
  {G : ShellEvent → Prop}

/-! ## Handlers -/

theorem agrees_print (h : SameShell env uid D s s') (text : List UInt8) :
    Agrees (SameShell env uid D) G (cliPrint text) (cliPrint text) s s' :=
  fun _ => ⟨rfl, h.update (f := Shell.writeRaw text) (fun _ => rfl) rfl rfl⟩

theorem agrees_reply (h : SameShell env uid D s s') (text : List UInt8) (rc : Int) :
    Agrees (SameShell env uid D) G (cliReply text rc) (cliReply text rc) s s' :=
  Agrees.bind (agrees_print h text) fun _ _ h => Agrees.pure rc h

theorem agrees_readFile (h : SameShell env uid D s s') {path : List UInt8}
    (hread : MayRead env.kfs uid s.fs (cPath path)) (maxLen : ℕ) :
    Agrees (SameShell env uid D) G (cliReadFile env path maxLen) (cliReadFile env path maxLen)
      s s' := by
  obtain ⟨htext, hfs⟩ := h.files.kfsRead hread maxLen
  refine Agrees.state_bind (Agrees.update_bind ?_)
  rw [htext]
  exact Agrees.pure _ (h.setFs hfs)

theorem agrees_readTextSource (h : SameShell env uid D s s') (cmd : ParsedCommand) (i : ℕ)
    (usage : List UInt8)
    (hread : i < cmd.argc → MayRead env.kfs uid s.fs (cPath (cmd.arg i))) :
    Agrees (SameShell env uid D) G (cliReadTextSource env cmd i usage)
      (cliReadTextSource env cmd i usage) s s' := by
  refine Agrees.state_bind ?_
  rw [h.pipeInput]
  split_ifs with hi hpipe
  · refine Agrees.bind (agrees_readFile h (hread hi) 4095) fun text _ h => ?_
    split_ifs
    · exact Agrees.bind (agrees_print h _) fun _ _ h => Agrees.pure _ h
    · exact Agrees.pure _ h
  · exact Agrees.pure _ h
  · exact Agrees.bind (agrees_print h _) fun _ _ h => Agrees.pure _ h

theorem agrees_echo (h : SameShell env uid D s s') (cmd : ParsedCommand) :
    Agrees (SameShell env uid D) G (cliCmdEcho cmd) (cliCmdEcho cmd) s s' := by
  refine Agrees.state_bind ?_
  rw [h.pipeInput]
  split_ifs
  · exact agrees_reply h _ _
  · exact agrees_reply h _ _

theorem agrees_ls (h : SameShell env uid D s s') (cmd : ParsedCommand) :
    Agrees (SameShell env uid D) G (cliCmdLs env cmd) (cliCmdLs env cmd) s s' := by
  have hlist : ∀ dir, kfsListDir env s'.fs dir vfsMaxFiles = kfsListDir env s.fs dir vfsMaxFiles := by
    intro dir
    rw [h.files.metadata]
    rfl
  refine Agrees.state_bind ?_
  simp only [hlist, h.files.findFile]
  split
  · exact agrees_reply h _ _
  · exact agrees_reply h _ _

theorem kfsCheckPerm_cases (env : KfsEnv) (fs : VernisFs) (path : CStr) (uid : UInt16) (op : Char) :
    kfsCheckPerm env fs path uid op = 0 ∨ kfsCheckPerm env fs path uid op = -1 := by
  unfold kfsCheckPerm
  cases kfsFindFile env fs path with
  | none =>
    dsimp only
    split_ifs <;> simp
  | some e =>
    dsimp only
    split_ifs <;> simp

theorem agrees_cat (h : SameShell env uid D s s') (cmd : ParsedCommand) :
    Agrees (SameShell env uid D) G (cliCmdCat env cmd) (cliCmdCat env cmd) s s' := by
  refine Agrees.state_bind ?_
  rw [h.pipeInput, h.session, h.files.checkPerm, h.user]
  split_ifs with hargc hpipe hperm
  · exact agrees_reply h _ _
  · exact agrees_reply h _ _
  · exact agrees_reply h _ _
  · have hread : MayRead env.kfs uid s.fs (cPath (cmd.arg 1)) := by
      intro _ _ _
      rcases kfsCheckPerm_cases env.kfs s.fs (cPath (cmd.arg 1)) uid 'r' with hc | hc
      · exact hc
      · rw [hc] at hperm
        exact absurd (by decide) hperm
    refine Agrees.bind (agrees_readFile h hread 511) fun text _ h => ?_
    cases text with
    | none => exact agrees_reply h _ _
    | some text => exact agrees_reply h _ _

theorem writeDenied_eq (h : SameShell env uid D s s') (path : List UInt8) :
    writeDenied env s' path = writeDenied env s path := by
  unfold writeDenied
  rw [h.files.findFile, h.files.checkPerm, h.session]

theorem writeContent_eq (h : SameShell env uid D s s') (cmd : ParsedCommand) :
    writeContent s' cmd = writeContent s cmd := by
  unfold writeContent
  rw [h.pipeInput]

theorem agrees_write (h : SameShell env uid D s s') (cmd : ParsedCommand)
    (hkeeps : ∀ content ∈ writeContent s cmd, kfsOutside (cPath (cmd.arg 1)).chars = false →
      CreationKeeps D s.fs (cPath (cmd.arg 1)) (UInt64.ofNat content.length).toUInt32) :
    Agrees (SameShell env uid D) G (cliCmdWrite env cmd) (cliCmdWrite env cmd) s s' := by
  refine Agrees.state_bind ?_
  rw [writeDenied_eq h, writeContent_eq h]
  split_ifs
  · exact agrees_reply h _ _
  · exact agrees_reply h _ _
  · cases hc : writeContent s cmd with
    | none => exact agrees_reply h _ _
    | some content =>
      obtain ⟨hrc, hfs⟩ := h.files.kfsWrite (cPath (cmd.arg 1)) content (hkeeps content hc)
      refine Agrees.update_bind ?_
      rw [hrc]
      have h' := h.setFs hfs
      split_ifs
      · exact agrees_reply h' _ _
      · exact agrees_reply h' _ _

theorem agrees_append (h : SameShell env uid D s s') (cmd : ParsedCommand)
    (hkeeps : ∀ content ∈ writeContent s cmd, kfsOutside (cPath (cmd.arg 1)).chars = false →
      CreationKeeps D s.fs (cPath (cmd.arg 1)) (UInt64.ofNat content.length).toUInt32) :
    Agrees (SameShell env uid D) G (cliCmdAppend env cmd) (cliCmdAppend env cmd) s s' := by
  refine Agrees.state_bind ?_
  rw [writeDenied_eq h, writeContent_eq h]
  split_ifs
  · exact agrees_reply h _ _
  · exact agrees_reply h _ _
  · cases hc : writeContent s cmd with
    | none => exact agrees_reply h _ _
    | some content =>
      dsimp only
      rcases h.files.kfsAppend (cPath (cmd.arg 1)) content (hkeeps content hc) with
        ⟨hr, hr'⟩ | ⟨r, r', hr, hr', hrc, hfs⟩
      · rw [hr, hr']
        exact Agrees.stuck h
      · rw [hr, hr']
        refine Agrees.update_bind ?_
        rw [hrc]
        have h' := h.setFs hfs
        split_ifs
        · exact agrees_reply h' _ _
        · exact agrees_reply h' _ _

theorem agrees_rm (h : SameShell env uid D s s') (cmd : ParsedCommand) :
    Agrees (SameShell env uid D) G (cliCmdRm env cmd) (cliCmdRm env cmd) s s' := by
  obtain ⟨hrc, hfs⟩ := h.files.kfsDelete (cPath (cmd.arg 1))
  refine Agrees.state_bind ?_
  rw [h.files.checkPerm, h.session]
  split_ifs
  · exact agrees_reply h _ _
  · exact agrees_reply h _ _
  · refine Agrees.update_bind ?_
    rw [hrc]
    have h' := h.setFs hfs
    split_ifs
    · exact agrees_reply h' _ _
    · exact agrees_reply h' _ _

theorem agrees_grep (h : SameShell env uid D s s') (cmd : ParsedCommand)
    (hread : 2 < cmd.argc → MayRead env.kfs uid s.fs (cPath (cmd.arg 2))) :
    Agrees (SameShell env uid D) G (cliCmdGrep env cmd) (cliCmdGrep env cmd) s s' := by
  unfold cliCmdGrep
  split_ifs
  · exact agrees_reply h _ _
  · refine Agrees.bind (agrees_readTextSource h cmd 2 _ hread) fun text _ h => ?_
    cases text with
    | none => exact Agrees.pure _ h
    | some text => exact agrees_reply h _ _

theorem agrees_wc (h : SameShell env uid D s s') (cmd : ParsedCommand)
    (hread : 1 < cmd.argc → MayRead env.kfs uid s.fs (cPath (cmd.arg 1))) :
    Agrees (SameShell env uid D) G (cliCmdWc env cmd) (cliCmdWc env cmd) s s' := by
  refine Agrees.bind (agrees_readTextSource h cmd 1 _ hread) fun text _ h => ?_
  cases text with
  | none => exact Agrees.pure _ h
  | some text => exact agrees_reply h _ _

/-- Every handler that keeps the secret. -/
theorem agrees_run (h : SameShell env uid D s s') (exec : ParsedCommand → ShellProg Int)
    (b : CliBuiltinCommand) (cmd : ParsedCommand) {u : Option Shell}
    (hkeeps : KeepsSecret env D (.ran b cmd s u)) :
    Agrees (SameShell env uid D) G (b.run env exec cmd) (b.run env exec cmd) s s' := by
  unfold CliBuiltinCommand.run
  cases hb : b.handler <;> simp only [KeepsSecret, hb] at hkeeps
  case echo => exact agrees_echo h cmd
  case ls => exact agrees_ls h cmd
  case cat => exact agrees_cat h cmd
  case write => exact agrees_write h cmd hkeeps
  case append => exact agrees_append h cmd hkeeps
  case rm => exact agrees_rm h cmd
  case grep => exact agrees_grep h cmd (h.user ▸ hkeeps)
  case wc => exact agrees_wc h cmd (h.user ▸ hkeeps)

/-! ## Lines -/

theorem agrees_single (h : SameShell env uid D s s') (exec : ParsedCommand → ShellProg Int)
    (cmd : ParsedCommand) :
    Agrees (SameShell env uid D) (KeepsSecret env D) (cliExecuteSingleCommand env exec cmd)
      (cliExecuteSingleCommand env exec cmd) s s' := by
  unfold cliExecuteSingleCommand
  split_ifs
  · exact Agrees.pure _ h
  cases cliFindBuiltin (cmd.arg 0) with
  | none => exact agrees_reply h _ _
  | some b =>
    refine Agrees.state_bind ?_
    rw [h.session, h.engine]
    split_ifs
    · exact agrees_reply h _ _
    · exact agrees_reply h _ _
    · have hcounted : SameShell env uid D s.counted s'.counted :=
        h.update (f := Shell.counted) (fun _ => rfl) rfl rfl
      refine Agrees.update_bind (Agrees.state_bind (Agrees.record_bind fun hkeeps => ?_))
      exact agrees_run hcounted exec b cmd hkeeps

theorem agrees_execute (n : ℕ) : ∀ {s s' : Shell}, SameShell env uid D s s' →
    ∀ cmd, Agrees (SameShell env uid D) (KeepsSecret env D) (cliExecute env n cmd)
      (cliExecute env n cmd) s s' := by
  induction n with
  | zero => exact fun h cmd => Agrees.stuck h
  | succ n ih =>
    intro s s' h cmd
    rcases execute_cases env n cmd with ⟨text, rc, he⟩ | he | he | ⟨p, next, -, -, -, he⟩
    · rw [he]
      exact agrees_reply h text rc
    · rw [he]
      exact Agrees.pure _ h
    · rw [he]
      exact agrees_single h _ cmd
    · rw [he, cliPipeline]
      refine Agrees.update_bind ?_
      refine Agrees.bind (agrees_single (h.update (fun _ => rfl) rfl rfl) _ cmd) fun leftRc _ h => ?_
      refine Agrees.update_bind (Agrees.state_bind ?_)
      replace h := h.update (f := Shell.captureEnd) (fun _ => rfl) rfl rfl
      rw [h.captureBuf]
      split_ifs
      · exact agrees_reply h _ _
      · refine Agrees.update_bind ?_
        refine Agrees.bind (ih (h.update (fun _ => rfl) rfl rfl) next) fun rc _ h => ?_
        exact Agrees.update_bind (Agrees.pure _ (h.update (fun _ => rfl) rfl rfl))

theorem agrees_segments (segs : List (CliSep × List UInt8)) :
    ∀ (status : Int) {s s' : Shell}, SameShell env uid D s s' →
      Agrees (SameShell env uid D) (KeepsSecret env D) (cliRunSegments env status segs)
        (cliRunSegments env status segs) s s' := by
  induction segs with
  | nil => exact fun status _ _ h => Agrees.pure status h
  | cons seg segs ih =>
    intro status s s' h
    unfold cliRunSegments
    split_ifs
    · exact ih status h
    · exact ih status h
    · exact ih status h
    · refine Agrees.bind ?_ fun rc _ h => ih rc h
      unfold cliProcessSingle
      cases cliParseCommand (seg.2.dropWhile isBlank) with
      | none => exact agrees_reply h _ _
      | some cmd => exact agrees_execute _ h cmd

theorem agrees_line (h : SameShell env uid D s s') (line : List UInt8) :
    Agrees (SameShell env uid D) (KeepsSecret env D) (cliProcessLine env line)
      (cliProcessLine env line) s s' := by
  refine Agrees.state_bind ?_
  rw [h.psGuiLive]
  split_ifs
  · have hquit := h.update (f := fun s => { s with psGuiLive := false }) (fun _ => rfl) rfl rfl
    exact Agrees.update_bind (agrees_reply hquit _ _)
  · exact agrees_segments _ _ h

/-! ## Two states -/

/-- The user finds the same files with the same contents, and reads the same. -/
structure SameContents (env : KfsEnv) (uid : UInt16) (fs fs' : VernisFs) : Prop where
  metadata : fs' = fs.setDisk fs'.disk
  bytes : ∀ path i, fs.vfsFindFile path = some i → kfsCheckPerm env fs path uid 'r' = 0 →
    ∀ a j, (fs.filetable i).HasByte a j → fs'.disk.disk a j = fs.disk.disk a j
  read : ∀ path, kfsCheckPerm env fs path uid 'r' = 0 → ∀ maxLen,
    (kfsReadFile env fs' path maxLen).1 = (kfsReadFile env fs path maxLen).1

theorem SameToUser.contents {env : KfsEnv} {fs fs' : VernisFs}
    (h : SameToUser env uid D fs fs') : SameContents env uid fs fs' := by
  refine ⟨h.metadata, fun path i hpath hperm a j hbyte => ?_, fun path hperm maxLen => ?_⟩
  · obtain ⟨k, hk, rfl, rfl⟩ := hbyte
    exact h.shown i (occupied_of_found hpath) ((shownTo_iff hpath uid).mp hperm) k hk
  · exact (h.kfsRead (fun _ _ _ => hperm) maxLen).1

/-- The line prints the same in both states, returns the same, and leaves what the user can read
the same. -/
structure SameLine (env : CliEnv) (line : List UInt8) (s s' : Shell) : Prop where
  status : (cliProcessLine env line s').value = (cliProcessLine env line s).value
  screen : (cliProcessLine env line s').state.screen = (cliProcessLine env line s).state.screen
  contents : SameContents env.kfs s.session.uid.toUInt16 (cliProcessLine env line s).state.fs
    (cliProcessLine env line s').state.fs

/-- Two states that differ in hidden files only show the user the same in every line whose calls
keep the secret. -/
theorem files_secret (env : CliEnv) (s s' : Shell) (line : List UInt8)
    (hshell : s' = s.setFs s'.fs)
    (hdiffer : DifferInHidden env.kfs s.session.uid.toUInt16 s.fs s'.fs)
    (hkeeps : ∀ e ∈ (cliProcessLine env line s).trace,
      KeepsSecret env (HiddenByte env.kfs s.session.uid.toUInt16 s.fs) e) :
    SameLine env line s s' := by
  obtain ⟨hvalue, hend⟩ := agrees_line ⟨hshell, rfl, hdiffer.same⟩ line hkeeps
  refine ⟨hvalue, ?_, hend.files.contents⟩
  rw [hend.shell]
  rfl

/-! ## A hidden file -/

/-- A volume with one file `/s` of root, which others may not read, and its only byte. -/
def secretVolume (c : UInt8) : VernisFs where
  superblock := ⟨0x53465600, 1, 1, 2048, 1, Vector.replicate 16 0⟩
  filetable i :=
    if i.val = 0 then
      { VfsFileEntry.zero with
        filename := VfsFilename.ofPath (cPath [47, 115])
        size := 1
        type := vfsTypeRegular
        mode := 0o600 }
    else VfsFileEntry.zero
  ready := true
  disk := { zeroDisk with disk := fun a j => if a = 5125 ∧ j.val = 0 then c else 0 }

theorem noUsers_fits : ([] : List UserRecord).length ≤ userdbMaxUsers :=
  Nat.zero_le _

/-- A user on this volume. -/
def secretShell (c : UInt8) : Shell :=
  (newShell ⟨[], true, noUsers_fits⟩ 1 (Bytes.utf8 "ann") cliPrivUser).setFs (secretVolume c)

theorem hidden_secretVolume (c : UInt8) : HiddenFrom noMounts 1 (secretVolume c) 0 := by
  have hfind : (secretVolume 0).vfsFindFile (cPath [47, 115]) = some 0 := by
    decide +kernel
  have hperm : kfsCheckPerm noMounts (secretVolume 0) (cPath [47, 115]) 1 'r' ≠ 0 := by
    decide +kernel
  exact ⟨_, hfind, hperm⟩

theorem differ_secretVolume (c c' : UInt8) :
    DifferInHidden noMounts 1 (secretVolume c) (secretVolume c') := by
  refine ⟨rfl, ⟨rfl, rfl⟩, fun a j hne => ⟨0, hidden_secretVolume c, 0, Nat.one_pos, ?_⟩,
    fun i hocc hshown => ?_⟩
  · by_cases haj : a = 5125 ∧ j.val = 0
    · obtain ⟨rfl, hj⟩ := haj
      exact ⟨rfl, Fin.ext hj.symm⟩
    · simp only [secretVolume, if_neg haj] at hne
      exact absurd rfl hne
  · by_cases hi : i.val = 0
    · rw [show i = 0 from Fin.ext hi] at hshown
      exact absurd (hidden_secretVolume c) hshown
    · have hentry : (secretVolume c).filetable i = VfsFileEntry.zero := if_neg hi
      rw [Occupied, hentry] at hocc
      exact absurd rfl hocc

/-- `cat` does not show the byte. -/
theorem files_secret_cat : SameLine bareEnv (Bytes.utf8 "echo a ; cat /s") (secretShell 97)
    (secretShell 98) := by
  refine files_secret bareEnv (secretShell 97) (secretShell 98) _ rfl
    (differ_secretVolume 97 98) fun e he => ?_
  have hhandler : ∀ e ∈ (cliProcessLine bareEnv (Bytes.utf8 "echo a ; cat /s")
      (secretShell 97)).trace, e.handler = some .echo ∨ e.handler = some .cat := by
    decide +kernel
  cases e with
  | ran b cmd s under =>
    rcases hhandler _ he with hb | hb <;> simp [KeepsSecret, Option.some.inj hb]
  | subCommand t s => rcases hhandler _ he with hb | hb <;> cases hb

/-- The handlers of the commands for files. -/
def OnFiles : ShellEvent → Prop
  | .ran b _ _ _ => b.handler ∈ [.echo, .ls, .cat, .write, .append, .rm, .grep, .wc]
  | .subCommand _ _ => False

instance : DecidablePred OnFiles := fun e =>
  match e with
  | .subCommand _ _ => .isFalse not_false
  | .ran _ _ _ _ => inferInstanceAs (Decidable (_ ∈ _))

/-- `grep a /s` shows whether the byte is an `a`. -/
theorem not_files_secret : ¬ ∀ (env : CliEnv) (s s' : Shell) (line : List UInt8),
    s' = s.setFs s'.fs → s.session.uid ≠ 0 →
    DifferInHidden env.kfs s.session.uid.toUInt16 s.fs s'.fs →
    (∀ e ∈ (cliProcessLine env line s).trace, OnFiles e) →
    (∀ e ∈ (cliProcessLine env line s').trace, OnFiles e) → SameLine env line s s' := by
  intro hall
  have hsame := hall bareEnv (secretShell 97) (secretShell 98) (Bytes.utf8 "grep a /s") rfl
    (by decide) (differ_secretVolume 97 98) (by decide +kernel) (by decide +kernel)
  have hstatus := hsame.status
  revert hstatus
  decide +kernel

end VernisOS
