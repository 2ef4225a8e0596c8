import VernisOS.CliDepth

/-!
# Pipelines

`cli_execute_command` runs the stages of a pipeline inside each other, over one capture buffer
and one input buffer. A program that prints with `cli_write_raw` and looks at neither buffer
nor screen does the same whether it is captured or not (`WritesRaw`), and all handlers but
`su` are such programs (`writesRaw_run`). So a pipeline shows what its last stage prints on
what the stages before it print, and a stage that fails ends it (`pipeline_shows`).
-/

open Traced

namespace VernisOS

/-! ## Where text goes -/

theorem take_take_append {α : Type} (n : ℕ) (a y : List α) :
    (a.take n ++ y).take n = (a ++ y).take n := by
  have hroom : n - min n a.length = n - a.length := by omega
  rw [List.take_append, List.take_append, List.take_take, Nat.min_self, List.length_take, hroom]

/-- `CLI_PIPE_BUF_SIZE`. -/
def cliPipeBufSize : ℕ := 8192

namespace Shell

/-- The same with nothing captured and nothing printed. -/
def unshown (s : Shell) : Shell :=
  { s with captureActive := false, captureEcho := true, captureBuf := [], screen := [] }

/-- The state `t` with what is printed there shown, or captured, as in `s`. -/
def shows (s t : Shell) : Shell :=
  { t with
    captureActive := s.captureActive
    captureEcho := s.captureEcho
    captureBuf := (s.writeRaw t.screen).captureBuf
    screen := (s.writeRaw t.screen).screen }

/-- The buffers and the screen left out. -/
def bare (s : Shell) : Shell :=
  { s.unshown with pipeInput := [] }

/-- What is captured is in the buffer. -/
def Fits (s : Shell) : Prop :=
  s.captureActive = true → s.captureBuf.length < cliPipeBufSize

variable {s t u : Shell}

theorem fits_of_inactive (h : s.captureActive = false) : s.Fits :=
  fun hact => by simp [h] at hact

theorem writeRaw_nil (h : s.Fits) : s.writeRaw [] = s := by
  unfold Fits cliPipeBufSize at h
  cases s with
  | mk session db engine fs keys captureActive captureEcho captureBuf =>
    cases captureActive with
    | false => simp [writeRaw]
    | true => simp [writeRaw, List.take_of_length_le (Nat.le_of_lt_succ (h rfl))]

theorem fits_writeRaw (text : List UInt8) (s : Shell) : (s.writeRaw text).Fits := by
  intro hact
  simp only [writeRaw] at hact ⊢
  rw [if_pos hact]
  exact (List.length_take_le _ _).trans_lt (by decide)

theorem fits_shows (s t : Shell) : (s.shows t).Fits :=
  fits_writeRaw t.screen s

theorem writeRaw_writeRaw (x y : List UInt8) (s : Shell) :
    (s.writeRaw x).writeRaw y = s.writeRaw (x ++ y) := by
  cases s with
  | mk session db engine fs keys captureActive captureEcho captureBuf =>
    have htake := take_take_append 8191 (captureBuf ++ x) y
    cases captureActive <;> cases captureEcho <;> simp [writeRaw, htake]

theorem shows_shows (ht : t.captureActive = false) : (s.shows t).shows u = s.shows (t.shows u) := by
  have hscreen : (t.shows u).screen = t.screen ++ u.screen := by
    simp [shows, writeRaw, ht]
  have hwrite := writeRaw_writeRaw t.screen u.screen s
  simp only [shows] at hscreen ⊢
  rw [hscreen, ← hwrite]
  rfl

end Shell

/-! ## Programs that write with `cli_write_raw` -/

/-- The command of a call. -/
def ShellEvent.command : ShellEvent → Option ParsedCommand
  | .ran _ cmd _ _ => some cmd
  | .subCommand _ _ => none

variable {α β : Type}

/-- From `s` the program does what it does on an empty screen without a capture, and its text
goes where `s` sends it. -/
structure WritesRawAt (m : ShellProg α) (s : Shell) : Prop where
  value : (m s).value = (m s.unshown).value
  state : (m s).state = s.shows (m s.unshown).state
  calls : (m s).trace.map ShellEvent.command = (m s.unshown).trace.map ShellEvent.command
  pipeInput : (m s).state.pipeInput = s.pipeInput

/-- The program writes only with `cli_write_raw`, and looks neither at what is captured nor at
the screen. -/
def WritesRaw (m : ShellProg α) : Prop :=
  ∀ s : Shell, s.Fits → WritesRawAt m s

theorem WritesRaw.pure (a : α) : WritesRaw (Pure.pure a : ShellProg α) := by
  refine fun s hs => ⟨rfl, ?_, rfl, rfl⟩
  change s = { s.unshown with
    captureActive := s.captureActive
    captureEcho := s.captureEcho
    captureBuf := (s.writeRaw []).captureBuf
    screen := (s.writeRaw []).screen }
  rw [Shell.writeRaw_nil hs]
  rfl

theorem WritesRaw.stuck : WritesRaw (Traced.stuck : ShellProg α) :=
  fun s hs => ⟨rfl, (WritesRaw.pure () s hs).state, rfl, rfl⟩

theorem WritesRaw.bind {m : ShellProg α} {f : α → ShellProg β} (hm : WritesRaw m)
    (hf : ∀ a, WritesRaw (f a)) : WritesRaw (m >>= f) := by
  intro s hs
  obtain ⟨hvalue, hstate, hcalls, hinput⟩ := hm s hs
  cases hv : (m s.unshown).value with
  | none =>
    have hv' := hvalue.trans hv
    refine ⟨?_, ?_, ?_, ?_⟩ <;> rw [bind_none hv']
    · rw [bind_none hv]
    · rw [bind_none hv]
      exact hstate
    · rw [bind_none hv]
      exact hcalls
    · exact hinput
  | some a =>
    have hv' := hvalue.trans hv
    have hquiet : (m s.unshown).state.captureActive = false := by
      rw [(hm s.unshown (Shell.fits_of_inactive rfl)).state]
      rfl
    have hlow := hf a _ (Shell.fits_of_inactive hquiet)
    have hhigh := hf a (m s).state (by rw [hstate]; exact Shell.fits_shows _ _)
    have hsame : (m s).state.unshown = (m s.unshown).state.unshown := by
      rw [hstate]
      rfl
    refine ⟨?_, ?_, ?_, ?_⟩ <;> rw [bind_some hv']
    · rw [bind_some hv, hhigh.value, hsame, hlow.value]
    · rw [bind_some hv, hhigh.state, hsame, hlow.state, ← Shell.shows_shows hquiet, ← hstate]
    · rw [bind_some hv, List.map_append, List.map_append, hcalls, hhigh.calls, hsame, hlow.calls]
    · exact hhigh.pipeInput.trans hinput

/-- A program that looks only at the rest of the state. -/
theorem WritesRaw.state {f : Shell → ShellProg α} (hsame : ∀ s, f s = f s.unshown)
    (hf : ∀ s, WritesRaw (f s)) : WritesRaw (Traced.state >>= f) := by
  intro s hs
  have hrun := hf s.unshown s hs
  refine ⟨?_, ?_, ?_, ?_⟩ <;> rw [state_bind, hsame s]
  · exact hrun.value
  · exact hrun.state
  · exact hrun.calls
  · exact hrun.pipeInput

theorem WritesRaw.update {f : Shell → Shell}
    (hstate : ∀ s : Shell, s.Fits → f s = s.shows (f s.unshown))
    (hinput : ∀ s, (f s).pipeInput = s.pipeInput) :
    WritesRaw (Traced.update f : ShellProg Unit) :=
  fun s hs => ⟨rfl, hstate s hs, rfl, hinput s⟩

/-- An update of something other than the buffers and the screen. -/
theorem WritesRaw.put {f : Shell → Shell} (hf : ∀ s, f s = { f s.unshown with
      captureActive := s.captureActive
      captureEcho := s.captureEcho
      captureBuf := s.captureBuf
      screen := s.screen })
    (hscreen : ∀ s, (f s).screen = s.screen) (hinput : ∀ s, (f s).pipeInput = s.pipeInput) :
    WritesRaw (Traced.update f : ShellProg Unit) := by
  refine WritesRaw.update (fun s hs => ?_) hinput
  have hnil : (f s.unshown).screen = [] := hscreen s.unshown
  rw [Shell.shows, hnil, Shell.writeRaw_nil hs]
  exact hf s

theorem writesRaw_print (text : List UInt8) : WritesRaw (cliPrint text) :=
  WritesRaw.update (fun _ _ => rfl) fun _ => rfl

theorem writesRaw_reply (text : List UInt8) (rc : Int) : WritesRaw (cliReply text rc) :=
  WritesRaw.bind (writesRaw_print text) fun _ => WritesRaw.pure rc

/-- A call of a handler is recorded. -/
theorem WritesRaw.ran {b : CliBuiltinCommand} {cmd : ParsedCommand} {m : ShellProg α}
    (hm : WritesRaw m) :
    WritesRaw (do let s ← Traced.state; Traced.record (.ran b cmd s none); m) := by
  intro s hs
  obtain ⟨hvalue, hstate, hcalls, hinput⟩ := hm s hs
  refine ⟨?_, ?_, ?_, ?_⟩ <;> rw [state_bind, record_bind]
  · exact hvalue
  · exact hstate
  · rw [state_bind, record_bind, List.map_cons, List.map_cons, hcalls]
    rfl
  · exact hinput

/-! ## Handlers -/

/-- The handlers of other modules look at neither buffer nor at the screen. -/
def CliEnv.WritesRaw (env : CliEnv) : Prop :=
  ∀ name cmd s, env.other name cmd s = env.other name cmd s.unshown

section Handlers

variable {env : CliEnv}

theorem writesRaw_setFs (fs : VernisFs) :
    WritesRaw (Traced.update (Shell.setFs fs) : ShellProg Unit) :=
  WritesRaw.put (fun _ => rfl) (fun _ => rfl) fun _ => rfl

theorem writesRaw_readPassword : WritesRaw cliReadPassword := by
  refine WritesRaw.state (fun _ => rfl) fun s => ?_
  refine WritesRaw.bind (WritesRaw.put (fun _ => rfl) (fun _ => rfl) fun _ => rfl) fun _ => ?_
  refine WritesRaw.bind (writesRaw_print _) fun _ => ?_
  split
  · exact WritesRaw.stuck
  · exact WritesRaw.pure _

theorem writesRaw_readFile (path : List UInt8) (maxLen : ℕ) :
    WritesRaw (cliReadFile env path maxLen) :=
  WritesRaw.state (fun _ => rfl) fun _ =>
    WritesRaw.bind (writesRaw_setFs _) fun _ => WritesRaw.pure _

theorem writesRaw_readTextSource (cmd : ParsedCommand) (i : ℕ) (usage : List UInt8) :
    WritesRaw (cliReadTextSource env cmd i usage) := by
  refine WritesRaw.state (fun _ => rfl) fun s => ?_
  split_ifs
  · refine WritesRaw.bind (writesRaw_readFile _ _) fun text => ?_
    split_ifs
    · exact WritesRaw.bind (writesRaw_print _) fun _ => WritesRaw.pure _
    · exact WritesRaw.pure _
  · exact WritesRaw.pure _
  · exact WritesRaw.bind (writesRaw_print _) fun _ => WritesRaw.pure _

theorem writesRaw_switchUser (username : List UInt8) (user : UserRecord) :
    WritesRaw (cliSwitchUser username user) :=
  WritesRaw.bind (WritesRaw.put (fun _ => rfl) (fun _ => rfl) fun _ => rfl) fun _ =>
    writesRaw_reply _ _

theorem writesRaw_login (cmd : ParsedCommand) : WritesRaw (cliCmdLogin cmd) := by
  refine WritesRaw.state (fun _ => rfl) fun s => ?_
  split_ifs
  · exact writesRaw_reply _ _
  split
  · exact writesRaw_reply _ _
  split_ifs
  · exact writesRaw_reply _ _
  · exact writesRaw_reply _ _
  · exact writesRaw_switchUser _ _
  refine WritesRaw.bind (writesRaw_print _) fun _ => ?_
  refine WritesRaw.bind writesRaw_readPassword fun password => ?_
  split_ifs
  · exact writesRaw_reply _ _
  · exact writesRaw_reply _ _
  · exact writesRaw_switchUser _ _

/-- All handlers but `su`, which calls `cli_execute_command` again. -/
theorem writesRaw_run (henv : env.WritesRaw) (exec : ParsedCommand → ShellProg Int)
    {b : CliBuiltinCommand} (hsu : b.handler ≠ .su) (cmd : ParsedCommand) :
    WritesRaw (b.run env exec cmd) := by
  unfold CliBuiltinCommand.run
  split
  · refine WritesRaw.state (fun _ => rfl) fun s => ?_
    split_ifs <;> exact writesRaw_reply _ _
  · exact writesRaw_login cmd
  · contradiction
  · refine WritesRaw.state (fun _ => rfl) fun s => ?_
    split_ifs
    · exact writesRaw_reply _ _
    · exact WritesRaw.bind (WritesRaw.put (fun _ => rfl) (fun _ => rfl) fun _ => rfl) fun _ =>
        writesRaw_reply _ _
  · refine WritesRaw.state (fun _ => rfl) fun s => ?_
    dsimp only
    split <;> exact writesRaw_reply _ _
  · refine WritesRaw.state (fun _ => rfl) fun s => ?_
    split_ifs
    · exact writesRaw_reply _ _
    · exact writesRaw_reply _ _
    · exact writesRaw_reply _ _
    · refine WritesRaw.bind (writesRaw_readFile _ _) fun text => ?_
      split <;> exact writesRaw_reply _ _
  · refine WritesRaw.state (fun _ => rfl) fun s => ?_
    split_ifs
    · exact writesRaw_reply _ _
    · exact writesRaw_reply _ _
    · split
      · exact writesRaw_reply _ _
      · refine WritesRaw.bind (writesRaw_setFs _) fun _ => ?_
        split_ifs <;> exact writesRaw_reply _ _
  · refine WritesRaw.state (fun _ => rfl) fun s => ?_
    split_ifs
    · exact writesRaw_reply _ _
    · exact writesRaw_reply _ _
    · split
      · exact writesRaw_reply _ _
      · split
        · exact WritesRaw.stuck
        · refine WritesRaw.bind (writesRaw_setFs _) fun _ => ?_
          split_ifs <;> exact writesRaw_reply _ _
  · refine WritesRaw.state (fun _ => rfl) fun s => ?_
    split_ifs
    · exact writesRaw_reply _ _
    · exact writesRaw_reply _ _
    · refine WritesRaw.bind (writesRaw_setFs _) fun _ => ?_
      split_ifs <;> exact writesRaw_reply _ _
  · unfold cliCmdGrep
    split_ifs
    · exact writesRaw_reply _ _
    · refine WritesRaw.bind (writesRaw_readTextSource _ _ _) fun text => ?_
      split
      · exact WritesRaw.pure _
      · exact writesRaw_reply _ _
  · refine WritesRaw.bind (writesRaw_readTextSource _ _ _) fun text => ?_
    split
    · exact WritesRaw.pure _
    · exact writesRaw_reply _ _
  · unfold cliCmdOther
    refine WritesRaw.state (fun s => by rw [henv b.name cmd s]) fun s => ?_
    refine WritesRaw.bind (WritesRaw.update (fun _ _ => rfl) fun _ => rfl) fun _ => ?_
    split
    · exact WritesRaw.stuck
    · exact WritesRaw.pure _

/-- The command does not call `su`. -/
def ParsedCommand.NotSu (cmd : ParsedCommand) : Prop :=
  ∀ b, cliFindBuiltin (cmd.arg 0) = some b → b.handler ≠ .su

theorem writesRaw_single (henv : env.WritesRaw) (exec : ParsedCommand → ShellProg Int)
    {cmd : ParsedCommand} (hsu : cmd.NotSu) : WritesRaw (cliExecuteSingleCommand env exec cmd) := by
  unfold cliExecuteSingleCommand
  split_ifs
  · exact WritesRaw.pure _
  split
  · exact writesRaw_reply _ _
  rename_i b hb
  refine WritesRaw.state (fun _ => rfl) fun s => ?_
  split_ifs
  · exact writesRaw_reply _ _
  · exact writesRaw_reply _ _
  · exact WritesRaw.bind (WritesRaw.put (fun _ => rfl) (fun _ => rfl) fun _ => rfl) fun _ =>
      WritesRaw.ran (writesRaw_run henv exec (hsu b hb) cmd)

end Handlers

/-! ## Stages -/

/-- What a stage does alone, with this piped text and on an empty screen. -/
def stageAlone (env : CliEnv) (cmd : ParsedCommand) (input : List UInt8) (s : Shell) :
    Outcome Shell ShellEvent Int :=
  cliExecuteSingleCommand env (cliExecuteCommand env) cmd { s.bare with pipeInput := input }

/-- What the buffer holds of a text. -/
def buffered (text : List UInt8) : List UInt8 :=
  text.take (cliPipeBufSize - 1)

/-- The buffer holds the whole of a text that is shorter than it. -/
theorem buffered_of_lt {text : List UInt8} (h : text.length < cliPipeBufSize) :
    buffered text = text :=
  List.take_of_length_le (Nat.le_pred_of_lt h)

theorem buffered_buffered (text : List UInt8) : buffered (buffered text) = buffered text := by
  rw [buffered, buffered, List.take_take, Nat.min_self]

/-- The stages `cmds`, one after the other and each on what the one before it printed, all end
with `CLI_OK` : from the piped text `input` and the state `s` they come to the text `input'` and
the state `s'`. -/
inductive Feeds (env : CliEnv) :
    List ParsedCommand → List UInt8 → Shell → List UInt8 → Shell → Prop
  | nil (input : List UInt8) (s : Shell) : Feeds env [] input s input s
  | cons {cmd : ParsedCommand} {cmds : List ParsedCommand} {input input' : List UInt8}
      {s s' : Shell} :
    (stageAlone env cmd input s).value = some cliOk →
    Feeds env cmds (buffered (stageAlone env cmd input s).state.screen)
      (stageAlone env cmd input s).state input' s' →
    Feeds env (cmd :: cmds) input s input' s'

/-- The stages behind `cmd` : the text behind its pipe is parsed into the next one, and the last
has no text behind a pipe. -/
inductive Stages : ParsedCommand → List ParsedCommand → Prop
  | last {cmd : ParsedCommand} : cmd.pipeTo = none ∨ cmd.pipeTo = some [] → Stages cmd []
  | pipe {cmd next : ParsedCommand} {p : List UInt8} {rest : List ParsedCommand} :
    cmd.pipeTo = some p → p ≠ [] → cliParseCommand p = some next → Stages next rest →
      Stages cmd (next :: rest)

/-- The command is a builtin that may stand in front of a pipe. -/
def PipeSafeBuiltin (cmd : ParsedCommand) : Prop :=
  (cliFindBuiltin (cmd.arg 0)).isSome = true ∧ cliCommandPipeSafe (cmd.arg 0) = true

/-- The pipeline ended as its stage `stage` did, with this text on the screen, and the commands
called were those in front of the stage and its own. -/
structure EndsAs (o stage : Outcome Shell ShellEvent Int) (screen : List UInt8)
    (front : List ParsedCommand) : Prop where
  value : o.value = stage.value
  screen : o.state.screen = screen
  state : o.state.bare = stage.state.bare
  calls : o.trace.map ShellEvent.command =
    front.map some ++ stage.trace.map ShellEvent.command

section Stages

variable {env : CliEnv} {cmd next : ParsedCommand} {s s₀ t : Shell} {input : List UInt8} {n : ℕ}

theorem notSu_of_pipeSafe (h : PipeSafeBuiltin cmd) : cmd.NotSu := by
  intro b hb hsu
  have hon := onUser_of_pipeSafe hb h.2
  rw [hsu] at hon
  cases hon

/-- A stage inside a pipeline does what it does alone. -/
theorem single_stage (henv : env.WritesRaw) (hsafe : PipeSafeBuiltin cmd) (hn : cmd.weight ≤ n)
    (hs : s.Fits) (hbare : s.bare = s₀.bare) (hinput : s.pipeInput = input) :
    (cliExecuteSingleCommand env (cliExecute env n) cmd s).value =
      (stageAlone env cmd input s₀).value ∧
    (cliExecuteSingleCommand env (cliExecute env n) cmd s).state =
      s.shows (stageAlone env cmd input s₀).state ∧
    (cliExecuteSingleCommand env (cliExecute env n) cmd s).trace.map ShellEvent.command =
      (stageAlone env cmd input s₀).trace.map ShellEvent.command := by
  have hexec : cliExecuteSingleCommand env (cliExecute env n) cmd =
      cliExecuteSingleCommand env (cliExecuteCommand env) cmd :=
    single_congr fun sub hsub => execute_eq_executeCommand env (hsub.trans_le hn)
  have hview : s.unshown = { s₀.bare with pipeInput := input } := by
    rw [← hbare, ← hinput]
    rfl
  obtain ⟨hvalue, hstate, hcalls, -⟩ :=
    writesRaw_single henv (cliExecuteCommand env) (notSu_of_pipeSafe hsafe) s hs
  rw [hexec, stageAlone, ← hview]
  exact ⟨hvalue, hstate, hcalls⟩

theorem argc_of_builtin (h : PipeSafeBuiltin cmd) : cmd.argc ≠ 0 := by
  intro hargc
  have hargv : cmd.argv = [] := List.length_eq_zero_iff.mp hargc
  have hname := h.1
  rw [ParsedCommand.arg, hargv] at hname
  exact absurd hname (by decide)

theorem execute_pipe {p : List UInt8} (hsafe : PipeSafeBuiltin cmd) (hp : cmd.pipeTo = some p)
    (hne : p ≠ []) (hnext : cliParseCommand p = some next) :
    cliExecute env (n + 1) cmd = cliPipeline env n cmd next := by
  obtain ⟨c, p, rfl⟩ := List.exists_cons_of_ne_nil hne
  unfold cliExecute
  rw [if_neg (argc_of_builtin hsafe), hp]
  dsimp only
  rw [hsafe.2, hnext]
  rfl

theorem execute_last (hsafe : PipeSafeBuiltin cmd)
    (hp : cmd.pipeTo = none ∨ cmd.pipeTo = some []) :
    cliExecute env (n + 1) cmd = cliExecuteSingleCommand env (cliExecute env n) cmd := by
  unfold cliExecute
  rw [if_neg (argc_of_builtin hsafe)]
  rcases hp with hp | hp <;> rw [hp]

/-- A stage that ends with `CLI_OK` was called. -/
theorem calls_of_ok (hsafe : PipeSafeBuiltin cmd)
    (hok : (stageAlone env cmd input s).value = some cliOk) :
    (stageAlone env cmd input s).trace.map ShellEvent.command = [some cmd] := by
  obtain ⟨b, hb⟩ := Option.isSome_iff_exists.mp hsafe.1
  have hargc := argc_of_builtin hsafe
  have hon := onUser_of_pipeSafe hb hsafe.2
  unfold stageAlone cliExecuteSingleCommand at hok ⊢
  simp only [if_neg hargc, hb, state_bind] at hok ⊢
  split_ifs at hok ⊢
  · cases hok
  · cases hok
  · have hcall : ((b.call env (cliExecuteCommand env) cmd
        (Shell.counted { s.bare with pipeInput := input })).trace.map ShellEvent.command) =
        [some cmd] := by
      rw [CliBuiltinCommand.call_eq, (quiet_of_onUser env _ hon cmd _).1]
      rfl
    exact hcall

/-- The state in which the stage behind one that came to `t` starts. -/
def Shell.fed (s t : Shell) : Shell :=
  (s.captureBegin.shows t).captureEnd.pipeSetInput (buffered t.screen)

/-- A first stage that fails ends the pipeline, and its output is shown. -/
theorem pipeline_fails (henv : env.WritesRaw) (hsafe : PipeSafeBuiltin cmd) (hn : cmd.weight ≤ n)
    (hbare : s.bare = s₀.bare) (hinput : s.pipeInput = input) {rc : Int} (hrc : rc ≠ cliOk)
    (hvalue : (stageAlone env cmd input s₀).value = some rc) :
    (cliPipeline env n cmd next s).value = some rc ∧
    (cliPipeline env n cmd next s).state =
      ((s.captureBegin.shows (stageAlone env cmd input s₀).state).captureEnd).writeRaw
        (buffered (stageAlone env cmd input s₀).state.screen) ∧
    (cliPipeline env n cmd next s).trace.map ShellEvent.command =
      (stageAlone env cmd input s₀).trace.map ShellEvent.command := by
  obtain ⟨hval, hstate, hcalls⟩ := single_stage (s := s.captureBegin) henv hsafe hn
    (fun _ => by simp [Shell.captureBegin, cliPipeBufSize]) hbare hinput
  have hok := hval.trans hvalue
  simp only [cliPipeline, update_bind]
  rw [bind_some hok, hstate]
  simp only [update_bind, state_bind, if_pos hrc]
  refine ⟨rfl, rfl, ?_⟩
  rw [← hcalls]
  exact congrArg (List.map ShellEvent.command) (List.append_nil _)

/-- Behind a first stage that succeeds the rest of the pipeline runs on what it printed. -/
theorem pipeline_feeds (henv : env.WritesRaw) (next : ParsedCommand) (hsafe : PipeSafeBuiltin cmd)
    (hn : cmd.weight ≤ n) (hbare : s.bare = s₀.bare) (hinput : s.pipeInput = input)
    (hvalue : (stageAlone env cmd input s₀).value = some cliOk) :
    (cliPipeline env n cmd next s).value =
      (cliExecute env n next (s.fed (stageAlone env cmd input s₀).state)).value ∧
    ((cliPipeline env n cmd next s).state =
        (cliExecute env n next (s.fed (stageAlone env cmd input s₀).state)).state ∧
        (cliPipeline env n cmd next s).value = none ∨
      (cliPipeline env n cmd next s).state =
        (cliExecute env n next (s.fed (stageAlone env cmd input s₀).state)).state.pipeSetInput []) ∧
    (cliPipeline env n cmd next s).trace.map ShellEvent.command =
      (stageAlone env cmd input s₀).trace.map ShellEvent.command ++
        (cliExecute env n next (s.fed (stageAlone env cmd input s₀).state)).trace.map
          ShellEvent.command := by
  obtain ⟨hval, hstate, hcalls⟩ := single_stage (s := s.captureBegin) henv hsafe hn
    (fun _ => by simp [Shell.captureBegin, cliPipeBufSize]) hbare hinput
  have hok := hval.trans hvalue
  simp only [cliPipeline, update_bind]
  rw [bind_some hok, hstate]
  simp only [update_bind, state_bind, if_neg (not_not_intro (rfl : cliOk = cliOk))]
  have hfed : Shell.pipeSetInput
      (s.captureBegin.shows (stageAlone env cmd input s₀).state).captureEnd.captureBuf
      (s.captureBegin.shows (stageAlone env cmd input s₀).state).captureEnd =
        s.fed (stageAlone env cmd input s₀).state := rfl
  rw [hfed, ← hcalls, List.map_append]
  cases hrest : (cliExecute env n next (s.fed (stageAlone env cmd input s₀).state)).value with
  | none =>
    rw [bind_none hrest]
    exact ⟨rfl, Or.inl ⟨rfl, rfl⟩, rfl⟩
  | some rc =>
    rw [bind_some hrest]
    exact ⟨rfl, Or.inr rfl, congrArg _ (congrArg _ (List.append_nil _))⟩

theorem stages_pipe {rest : List ParsedCommand} (h : Stages cmd (next :: rest)) :
    ∃ p, cmd.pipeTo = some p ∧ p ≠ [] ∧ cliParseCommand p = some next ∧ Stages next rest := by
  cases h with
  | pipe hp hne hnext hrest => exact ⟨_, hp, hne, hnext, hrest⟩

/-- A pipeline ends as its last stage, or as the first that fails. -/
theorem execute_ends (henv : env.WritesRaw) (front : List ParsedCommand) :
    ∀ {first : ParsedCommand} {rest behind : List ParsedCommand} {n : ℕ} {s s₀ : Shell},
    Stages first rest → (∀ c ∈ first :: rest, PipeSafeBuiltin c) → first.weight < n →
    s.captureActive = false → s.bare = s₀.bare → Feeds env front s.pipeInput s₀ input t →
    first :: rest = front ++ cmd :: behind →
    (behind = [] ∨ ∃ rc, (stageAlone env cmd input t).value = some rc ∧ rc ≠ cliOk) →
    EndsAs (cliExecute env n first s) (stageAlone env cmd input t)
      (s.screen ++ if behind = [] then (stageAlone env cmd input t).state.screen
        else buffered (stageAlone env cmd input t).state.screen) front := by
  induction front with
  | nil =>
    intro first rest behind n s s₀ hstages hsafe hn hidle hbare hfeeds heq hend
    obtain ⟨rfl, rfl⟩ := List.cons.inj heq
    have hfirst := hsafe first List.mem_cons_self
    obtain ⟨n, rfl⟩ := Nat.exists_eq_succ_of_ne_zero (Nat.ne_zero_of_lt hn)
    cases hfeeds
    cases hstages with
    | last hp =>
      obtain ⟨hvalue, hstate, hcalls⟩ := single_stage henv hfirst (Nat.le_of_lt_succ hn)
        (Shell.fits_of_inactive hidle) hbare rfl
      rw [Nat.succ_eq_add_one, execute_last hfirst hp]
      refine ⟨hvalue, ?_, ?_, hcalls⟩ <;> rw [hstate]
      · simp [Shell.shows, Shell.writeRaw, hidle]
      · rfl
    | pipe hp hne hnext hrest =>
      obtain ⟨rc, hvalue, hrc⟩ := hend.resolve_left (by simp)
      obtain ⟨hval, hstate, hcalls⟩ := pipeline_fails henv hfirst (Nat.le_of_lt_succ hn) hbare rfl
        hrc hvalue
      rw [Nat.succ_eq_add_one, execute_pipe hfirst hp hne hnext]
      refine ⟨hval.trans hvalue.symm, ?_, ?_, hcalls⟩ <;> rw [hstate]
      · simp [Shell.shows, Shell.writeRaw, Shell.captureEnd, Shell.captureBegin]
      · rfl
  | cons c front ih =>
    intro first rest behind n s s₀ hstages hsafe hn hidle hbare hfeeds heq hend
    obtain ⟨rfl, hrest⟩ := List.cons.inj heq
    obtain ⟨n, rfl⟩ := Nat.exists_eq_succ_of_ne_zero (Nat.ne_zero_of_lt hn)
    obtain ⟨next, rest, rfl⟩ : ∃ next rest', rest = next :: rest' := by
      rw [hrest]
      cases front <;> simp
    have hfirst := hsafe first List.mem_cons_self
    obtain ⟨p, hp, hne, hnext, hstages⟩ := stages_pipe hstages
    cases hfeeds with
    | cons hok hfeeds =>
      obtain ⟨hval, hstate, hcalls⟩ := pipeline_feeds henv next hfirst
        (Nat.le_of_lt_succ hn) hbare rfl hok
      have hin : (s.fed (stageAlone env first s.pipeInput s₀).state).pipeInput =
          buffered (stageAlone env first s.pipeInput s₀).state.screen := buffered_buffered _
      have hscreen : (s.fed (stageAlone env first s.pipeInput s₀).state).screen = s.screen := by
        simp [Shell.fed, Shell.shows, Shell.writeRaw, Shell.captureBegin, Shell.captureEnd,
          Shell.pipeSetInput]
      have hweight := weight_next (argc_of_builtin hfirst) hp hnext
      have hidle : (s.fed (stageAlone env first s.pipeInput s₀).state).captureActive = false := rfl
      have hbare : (s.fed (stageAlone env first s.pipeInput s₀).state).bare =
          (stageAlone env first s.pipeInput s₀).state.bare := rfl
      rw [← hin] at hfeeds
      have hends := ih hstages (fun c hc => hsafe c (List.mem_cons_of_mem _ hc))
        (by omega : next.weight < n) hidle hbare hfeeds hrest hend
      rw [hscreen] at hends
      rw [Nat.succ_eq_add_one, execute_pipe hfirst hp hne hnext]
      refine ⟨hval.trans hends.value, ?_, ?_, ?_⟩
      · rw [← hends.screen]
        rcases hstate with ⟨hstate, -⟩ | hstate <;> rw [hstate]
        rfl
      · rw [← hends.state]
        rcases hstate with ⟨hstate, -⟩ | hstate <;> rw [hstate]
        rfl
      · rw [hcalls, calls_of_ok hfirst hok, hends.calls]
        rfl

end Stages

/-! ## After a pipeline -/

/-- No capture is left active, and the piped text is what it was or empty. -/
def Idles (s : Shell) (_ : List ShellEvent) (s' : Shell) : Prop :=
  s.captureActive = false →
    s'.captureActive = false ∧ (s'.pipeInput = s.pipeInput ∨ s'.pipeInput = [])

theorem composes_idles : Composes Idles where
  refl := fun _ h => ⟨h, Or.inl rfl⟩
  trans := by
    intro s s' s'' t t' h h' hidle
    obtain ⟨hidle', hinput⟩ := h hidle
    obtain ⟨hidle'', hinput'⟩ := h' hidle'
    refine ⟨hidle'', ?_⟩
    rcases hinput' with heq | hnil
    · rw [heq]
      exact hinput
    · exact Or.inr hnil

section Idle

variable {env : CliEnv} {exec : ParsedCommand → ShellProg Int}

theorem WritesRaw.idles {m : ShellProg α} (hm : WritesRaw m) (s : Shell) : Keeps Idles m s := by
  intro a _ hidle
  have hrun := hm s (Shell.fits_of_inactive hidle)
  refine ⟨?_, Or.inl hrun.pipeInput⟩
  rw [hrun.state]
  exact hidle

theorem idles_subCommand (hexec : ∀ cmd s, Keeps Idles (exec cmd) s) (before : Shell)
    (cmd : ParsedCommand) (onError : Int) (s : Shell) :
    Keeps Idles (cliSubCommand exec before cmd onError) s := by
  unfold cliSubCommand
  split
  · exact (WritesRaw.pure _).idles s
  · rename_i sub _
    intro a ha
    rw [state_bind, record_bind] at ha ⊢
    exact hexec sub s a ha

theorem idles_elevate (hexec : ∀ cmd s, Keeps Idles (exec cmd) s) (before : Shell)
    (cmd : ParsedCommand) (s : Shell) : Keeps Idles (cliElevate env exec before cmd) s := by
  have hset (privilege : UInt8) (uid : UInt32) (name : List UInt8) : WritesRaw
      (Traced.update fun t : Shell => t.setSession { t.session with
        privilege := privilege
        uid := uid
        username := t.session.username.strcpy name } : ShellProg Unit) :=
    WritesRaw.put (fun _ => rfl) (fun _ => rfl) fun _ => rfl
  refine Keeps.state_bind (Keeps.bind composes_idles ((hset cliPrivRoot 0 strRoot).idles s)
    fun _ _ => ?_)
  refine Keeps.bind composes_idles (idles_subCommand hexec _ _ _ _) fun rc _ => ?_
  exact Keeps.bind composes_idles ((hset s.session.privilege s.session.uid _).idles _)
    fun _ _ => (WritesRaw.pure _).idles _

theorem idles_su (hexec : ∀ cmd s, Keeps Idles (exec cmd) s) (cmd : ParsedCommand) (s : Shell) :
    Keeps Idles (cliCmdSu env exec cmd) s := by
  have hreply : ∀ text rc s, Keeps Idles (cliReply text rc) s :=
    fun text rc s => (writesRaw_reply text rc).idles s
  refine Keeps.state_bind ?_
  split_ifs
  · exact hreply _ _ s
  · exact idles_subCommand hexec _ _ _ s
  split
  · exact hreply _ _ s
  split_ifs
  · exact hreply _ _ s
  · exact idles_elevate hexec _ _ s
  refine Keeps.bind composes_idles ((writesRaw_print _).idles s) fun _ _ => ?_
  refine Keeps.bind composes_idles (writesRaw_readPassword.idles _) fun password _ => ?_
  split_ifs
  · exact hreply _ _ _
  · exact hreply _ _ _
  · exact idles_elevate hexec _ _ _

theorem idles_single (henv : env.WritesRaw) (hexec : ∀ cmd s, Keeps Idles (exec cmd) s)
    (cmd : ParsedCommand) (s : Shell) :
    Keeps Idles (cliExecuteSingleCommand env exec cmd) s := by
  have hrun : ∀ (b : CliBuiltinCommand) s, Keeps Idles (b.run env exec cmd) s := by
    intro b s
    by_cases hsu : b.handler = .su
    · unfold CliBuiltinCommand.run
      rw [hsu]
      exact idles_su hexec cmd s
    · exact (writesRaw_run henv exec hsu cmd).idles s
  unfold cliExecuteSingleCommand
  split_ifs
  · exact (WritesRaw.pure _).idles s
  split
  · exact (writesRaw_reply _ _).idles s
  refine Keeps.state_bind ?_
  split_ifs
  · exact (writesRaw_reply _ _).idles s
  · exact (writesRaw_reply _ _).idles s
  refine Keeps.bind composes_idles ?_ fun _ _ => Keeps.state_bind ?_
  · exact (WritesRaw.put (fun _ => rfl) (fun _ => rfl) fun _ => rfl).idles s
  intro a ha
  rw [record_bind] at ha ⊢
  exact hrun _ _ a ha

theorem idles_pipeline (henv : env.WritesRaw) {n : ℕ} {cmd next : ParsedCommand}
    (hsafe : cliCommandPipeSafe (cmd.arg 0) = true)
    (hnext : ∀ s, Keeps Idles (cliExecute env n next) s) (s : Shell) :
    Keeps Idles (cliPipeline env n cmd next) s := by
  have hsu : cmd.NotSu := by
    intro b hb hsu
    have hon := onUser_of_pipeSafe hb hsafe
    rw [hsu] at hon
    cases hon
  have hleft := writesRaw_single henv (cliExecute env n) hsu s.captureBegin
    fun _ => by simp [Shell.captureBegin, cliPipeBufSize]
  intro rc hrc hidle
  simp only [cliPipeline, update_bind] at hrc ⊢
  obtain ⟨leftRc, hleftRc, hrc⟩ := value_bind hrc
  rw [bind_some hleftRc]
  simp only [update_bind, state_bind] at hrc ⊢
  split_ifs at hrc ⊢
  · exact ⟨rfl, Or.inl hleft.pipeInput⟩
  · rw [update_bind] at hrc ⊢
    obtain ⟨rc', hrc', -⟩ := value_bind hrc
    rw [bind_some hrc']
    exact ⟨(hnext _ rc' hrc' rfl).1, Or.inr rfl⟩

/-- No command leaves a capture active or text in the input buffer. -/
theorem idles_execute (henv : env.WritesRaw) (n : ℕ) :
    ∀ cmd s, Keeps Idles (cliExecute env n cmd) s := by
  induction n with
  | zero => exact fun cmd s => Keeps.stuck
  | succ n ih =>
    intro cmd s
    rcases execute_cases env n cmd with ⟨text, rc, he⟩ | he | he | ⟨p, next, -, hsafe, -, he⟩
    · rw [he]
      exact (writesRaw_reply text rc).idles s
    · rw [he]
      exact (WritesRaw.pure _).idles s
    · rw [he]
      exact idles_single henv ih cmd s
    · rw [he]
      exact idles_pipeline henv hsafe (ih next) s

end Idle

/-! ## Pipelines -/

/-- A pipeline of builtins that may stand in front of a pipe, from a shell that captures nothing
and has no piped text. If the stages in front of one each end with `CLI_OK`, and the stage is the
last or fails, then the pipeline ends as this stage alone does on the text of the one in front of
it, its text comes behind what was on the screen, and no later stage is called. A text goes
through the buffer whole if it is shorter than the buffer (`buffered_of_lt`). And every command
that ends leaves no capture active and no piped text. -/
theorem pipeline_shows (env : CliEnv) (henv : env.WritesRaw) {first : ParsedCommand}
    {rest : List ParsedCommand} (hstages : Stages first rest)
    (hsafe : ∀ cmd ∈ first :: rest, PipeSafeBuiltin cmd) {s : Shell}
    (hidle : s.captureActive = false) (hinput : s.pipeInput = []) :
    (∀ front cmd behind input t, first :: rest = front ++ cmd :: behind →
      Feeds env front [] s input t →
      (behind = [] ∨ ∃ rc, (stageAlone env cmd input t).value = some rc ∧ rc ≠ cliOk) →
      EndsAs (cliExecuteCommand env first s) (stageAlone env cmd input t)
        (s.screen ++ if behind = [] then (stageAlone env cmd input t).state.screen
          else buffered (stageAlone env cmd input t).state.screen) front) ∧
    ∀ cmd rc, (cliExecuteCommand env cmd s).value = some rc →
      (cliExecuteCommand env cmd s).state.captureActive = false ∧
      (cliExecuteCommand env cmd s).state.pipeInput = [] := by
  constructor
  · intro front cmd behind input t heq hfeeds hend
    exact execute_ends henv front hstages hsafe (Nat.lt_succ_self _) hidle rfl (hinput ▸ hfeeds)
      heq hend
  · intro cmd rc hrc
    obtain ⟨hactive, hpiped⟩ := idles_execute henv _ cmd s rc hrc hidle
    exact ⟨hactive, hpiped.elim (fun h => h.trans hinput) id⟩

/-- `echo hi | wc`. -/
theorem pipeline_shows_echo :
    (cliExecuteCommand bareEnv
        ⟨[Bytes.utf8 "echo", Bytes.utf8 "hi"], false, none, none, some (Bytes.utf8 "wc")⟩
        (newShell ⟨[], true, by decide⟩ 1 (Bytes.utf8 "ann") cliPrivUser)).state.screen =
      Bytes.utf8 "1 1 3\n" := by
  let wc : ParsedCommand := ⟨[Bytes.utf8 "wc"], false, none, none, none⟩
  let echo : ParsedCommand :=
    ⟨[Bytes.utf8 "echo", Bytes.utf8 "hi"], false, none, none, some (Bytes.utf8 "wc")⟩
  let s := newShell ⟨[], true, by decide⟩ 1 (Bytes.utf8 "ann") cliPrivUser
  have hstages : Stages echo [wc] :=
    Stages.pipe rfl (by decide) (by rfl) (Stages.last (Or.inl rfl))
  have hsafe : ∀ cmd ∈ [echo, wc], PipeSafeBuiltin cmd := by
    intro cmd hcmd
    simp only [List.mem_cons, List.not_mem_nil, or_false] at hcmd
    rcases hcmd with rfl | rfl <;> exact ⟨by decide, by decide⟩
  have hecho : (stageAlone bareEnv echo [] s).value = some cliOk := by decide
  have hinput : s.pipeInput = [] := rfl
  have hends := (pipeline_shows bareEnv (fun _ _ _ => rfl) hstages hsafe rfl hinput).1 [echo] wc
    [] _ _ rfl (Feeds.cons hecho (Feeds.nil _ _)) (Or.inl rfl)
  refine hends.screen.trans ?_
  decide

end VernisOS
