import VernisOS.CliCommands

/-!
# What a command does

A handler other than `login`, `su` and `logout` leaves the user of the session and records
nothing (`quiet_run`). Every event of a line is a handler that both access checks let
through, or a sub-command of a `su` that was let through (`emits_line`).
-/

open Traced

namespace VernisOS

/-! ## The user of a session -/

/-- The users, and which of them the session is, are the same. -/
structure SameUser (s s' : Shell) : Prop where
  db : s'.db = s.db
  uid : s'.session.uid = s.session.uid
  username : s'.session.username = s.session.username
  privilege : s'.session.privilege = s.session.privilege

theorem SameUser.refl (s : Shell) : SameUser s s :=
  ⟨rfl, rfl, rfl, rfl⟩

theorem SameUser.trans {s s' s'' : Shell} (h : SameUser s s') (h' : SameUser s' s'') :
    SameUser s s'' :=
  ⟨h'.db.trans h.db, h'.uid.trans h.uid, h'.username.trans h.username,
    h'.privilege.trans h.privilege⟩

theorem sameUser_writeRaw (text : List UInt8) (s : Shell) : SameUser s (s.writeRaw text) :=
  ⟨rfl, rfl, rfl, rfl⟩

/-- From `s` the program records nothing and leaves the user. -/
def Quiet {α : Type} (m : ShellProg α) (s : Shell) : Prop :=
  (m s).trace = [] ∧ SameUser s (m s).state

variable {α β : Type} {s : Shell}

theorem Quiet.bind {m : ShellProg α} {f : α → ShellProg β} (hm : Quiet m s)
    (hf : ∀ a, Quiet (f a) (m s).state) : Quiet (m >>= f) s := by
  cases hv : (m s).value with
  | none =>
    rw [Quiet, bind_none hv]
    exact hm
  | some a =>
    rw [Quiet, bind_some hv, hm.1, (hf a).1]
    exact ⟨rfl, hm.2.trans (hf a).2⟩

theorem Quiet.pure (a : α) : Quiet (Pure.pure a : ShellProg α) s :=
  ⟨rfl, SameUser.refl s⟩

theorem Quiet.stuck : Quiet (Traced.stuck : ShellProg α) s :=
  ⟨rfl, SameUser.refl s⟩

theorem Quiet.state : Quiet (Traced.state : ShellProg Shell) s :=
  ⟨rfl, SameUser.refl s⟩

theorem Quiet.update {f : Shell → Shell} (h : SameUser s (f s)) :
    Quiet (Traced.update f : ShellProg Unit) s :=
  ⟨rfl, h⟩

theorem quiet_print (text : List UInt8) : Quiet (cliPrint text) s :=
  Quiet.update (sameUser_writeRaw text s)

theorem quiet_reply (text : List UInt8) (rc : Int) : Quiet (cliReply text rc) s :=
  Quiet.bind (quiet_print text) fun _ => Quiet.pure rc

theorem quiet_setFs (fs : VernisFs) : Quiet (Traced.update (Shell.setFs fs) : ShellProg Unit) s :=
  Quiet.update ⟨rfl, rfl, rfl, rfl⟩

theorem quiet_readFile (env : CliEnv) (path : List UInt8) (maxLen : ℕ) :
    Quiet (cliReadFile env path maxLen) s :=
  Quiet.bind Quiet.state fun _ => Quiet.bind (quiet_setFs _) fun _ => Quiet.pure _

theorem quiet_readTextSource (env : CliEnv) (cmd : ParsedCommand) (i : ℕ) (usage : List UInt8) :
    Quiet (cliReadTextSource env cmd i usage) s := by
  refine Quiet.bind Quiet.state fun a => ?_
  split_ifs
  · refine Quiet.bind (quiet_readFile env _ _) fun text => ?_
    split_ifs
    · exact Quiet.bind (quiet_print _) fun _ => Quiet.pure _
    · exact Quiet.pure _
  · exact Quiet.pure _
  · exact Quiet.bind (quiet_print _) fun _ => Quiet.pure _

/-- The handlers that leave the user. -/
theorem quiet_run (env : CliEnv) (exec : ParsedCommand → ShellProg Int) (b : CliBuiltinCommand)
    (cmd : ParsedCommand) (s : Shell) (h : b.handler ≠ .login) (h' : b.handler ≠ .su)
    (h'' : b.handler ≠ .logout) : Quiet (b.run env exec cmd) s := by
  unfold CliBuiltinCommand.run
  split
  · refine Quiet.bind Quiet.state fun a => ?_
    split_ifs <;> exact quiet_reply _ _
  · contradiction
  · contradiction
  · contradiction
  · refine Quiet.bind Quiet.state fun a => ?_
    dsimp only
    split <;> exact quiet_reply _ _
  · refine Quiet.bind Quiet.state fun a => ?_
    split_ifs
    · exact quiet_reply _ _
    · exact quiet_reply _ _
    · exact quiet_reply _ _
    · refine Quiet.bind (quiet_readFile env _ _) fun text => ?_
      split <;> exact quiet_reply _ _
  · refine Quiet.bind Quiet.state fun a => ?_
    split_ifs
    · exact quiet_reply _ _
    · exact quiet_reply _ _
    · split
      · exact quiet_reply _ _
      · refine Quiet.bind (quiet_setFs _) fun _ => ?_
        split_ifs <;> exact quiet_reply _ _
  · refine Quiet.bind Quiet.state fun a => ?_
    split_ifs
    · exact quiet_reply _ _
    · exact quiet_reply _ _
    · split
      · exact quiet_reply _ _
      · split
        · exact Quiet.stuck
        · refine Quiet.bind (quiet_setFs _) fun _ => ?_
          split_ifs <;> exact quiet_reply _ _
  · refine Quiet.bind Quiet.state fun a => ?_
    split_ifs
    · exact quiet_reply _ _
    · exact quiet_reply _ _
    · refine Quiet.bind (quiet_setFs _) fun _ => ?_
      split_ifs <;> exact quiet_reply _ _
  · unfold cliCmdGrep
    split_ifs
    · exact quiet_reply _ _
    · refine Quiet.bind (quiet_readTextSource env _ _ _) fun text => ?_
      split
      · exact Quiet.pure _
      · exact quiet_reply _ _
  · refine Quiet.bind (quiet_readTextSource env _ _ _) fun text => ?_
    split
    · exact Quiet.pure _
    · exact quiet_reply _ _
  · refine Quiet.bind Quiet.state fun a => Quiet.bind (Quiet.update ?_) fun _ => ?_
    · exact ⟨rfl, rfl, rfl, rfl⟩
    · split
      · exact Quiet.stuck
      · exact Quiet.pure _

/-! ## Logins -/

/-- In the state `s` the user is let in under this name : the record is active, not locked, and
has no password or the hash of the one that is typed. -/
structure AuthenticatedAs (s : Shell) (username : List UInt8) (user : UserRecord) : Prop where
  found : s.db.findUser username = some user
  active : user.active = true
  unlocked : user.locked = false
  password : user.noPassword = true ∨ ∃ password, typedPassword s.keys = some password ∧
    sha256Hash password = user.passwordHash.toList

/-- The password that is typed lets in the user of this name. -/
def passwordAccepted (s : Shell) (username : List UInt8) : Bool :=
  match typedPassword s.keys with
  | none => false
  | some password => password.length ≠ 0 && !decide (s.db.authenticate username password < 0)

theorem exists_of_passwordAccepted {username : List UInt8} {user : UserRecord}
    (h : passwordAccepted s username = true) (hu : s.db.findUser username = some user) :
    AuthenticatedAs s username user := by
  unfold passwordAccepted at h
  cases hp : typedPassword s.keys with
  | none =>
    rw [hp] at h
    cases h
  | some password =>
    rw [hp] at h
    simp only [Bool.and_eq_true, Bool.not_eq_true', decide_eq_false_iff_not] at h
    obtain ⟨ha, hl, hh⟩ := UserDb.authenticate_nonneg hu h.2
    exact ⟨hu, ha, hl, hh.imp_right fun hh => ⟨password, hp, hh⟩⟩

/-- The user that a `login` switches to. -/
def loginUser (s : Shell) (cmd : ParsedCommand) : Option UserRecord :=
  if cmd.argc < 2 then none
  else
    match s.db.findUser (cmd.arg 1) with
    | none => none
    | some user =>
      if !user.active then none
      else if user.locked then none
      else if user.noPassword then some user
      else if passwordAccepted s (cmd.arg 1) then some user
      else none

theorem loginUser_some {cmd : ParsedCommand} {user : UserRecord}
    (h : loginUser s cmd = some user) : AuthenticatedAs s (cmd.arg 1) user := by
  unfold loginUser at h
  split at h
  · cases h
  cases hf : s.db.findUser (cmd.arg 1) with
  | none =>
    rw [hf] at h
    cases h
  | some u =>
    rw [hf] at h
    dsimp only at h
    split_ifs at h with ha hl hn hp
    · obtain rfl := Option.some.inj h
      exact ⟨hf, by simpa using ha, by simpa using hl, Or.inl hn⟩
    · obtain rfl := Option.some.inj h
      exact exists_of_passwordAccepted hp hf

/-- The state once `cli_read_password` has read. -/
def Shell.afterPassword (s : Shell) : Shell :=
  { s with keys := (cliReadKeys [] [] s.keys).2.1 }.writeRaw (cliReadKeys [] [] s.keys).2.2

theorem readPassword_apply (s : Shell) :
    cliReadPassword s = ⟨typedPassword s.keys, s.afterPassword, []⟩ := by
  simp only [cliReadPassword, cliPrint, state_bind, update_bind, typedPassword,
    Shell.afterPassword]
  cases (cliReadKeys [] [] s.keys).1 <;> rfl

/-- The state once a password was asked for and read. -/
def Shell.prompted (s : Shell) : Shell :=
  (s.writeRaw (Bytes.utf8 "Password: ")).afterPassword

theorem sameUser_prompted (s : Shell) : SameUser s s.prompted :=
  ⟨rfl, rfl, rfl, rfl⟩

/-- A program behind a password prompt runs if the password lets in the user of this name. -/
theorem password_cases (username cancelled failed : List UInt8) (go : ShellProg Int) (s : Shell)
    {m : ShellProg Int}
    (hm : m = cliPrint (Bytes.utf8 "Password: ") >>= fun _ => cliReadPassword >>= fun password =>
      if password.length = 0 then cliReply cancelled cliOk
      else if s.db.authenticate username password < 0 then cliReply failed cliOk
      else go) :
    (passwordAccepted s username = false ∧ Quiet m s) ∨
    (passwordAccepted s username = true ∧ m s = go s.prompted) := by
  have hsame := sameUser_prompted s
  have hread := readPassword_apply (s.writeRaw (Bytes.utf8 "Password: "))
  rw [hm, cliPrint, Quiet, update_bind, passwordAccepted]
  cases hp : typedPassword s.keys with
  | none =>
    rw [bind_none (by rw [hread]; exact hp), hread]
    exact Or.inl ⟨rfl, rfl, hsame⟩
  | some password =>
    rw [bind_some (by rw [hread]; exact hp), hread]
    dsimp only
    by_cases hlen : password.length = 0
    · rw [if_pos hlen]
      exact Or.inl ⟨by simp [hlen], rfl, hsame.trans (sameUser_writeRaw _ _)⟩
    · rw [if_neg hlen]
      by_cases hauth : s.db.authenticate username password < 0
      · rw [if_pos hauth]
        exact Or.inl ⟨by simp [hauth], rfl, hsame.trans (sameUser_writeRaw _ _)⟩
      · rw [if_neg hauth]
        exact Or.inr ⟨by simpa [hlen] using hauth, rfl⟩

/-- `login` switches to `loginUser`, or leaves the user. -/
theorem login_cases (cmd : ParsedCommand) (s : Shell) :
    (loginUser s cmd = none ∧ Quiet (cliCmdLogin cmd) s) ∨
    ∃ user s₀, loginUser s cmd = some user ∧ SameUser s s₀ ∧
      cliCmdLogin cmd s = cliSwitchUser (cmd.arg 1) user s₀ := by
  simp only [Quiet, cliCmdLogin, state_bind, loginUser]
  by_cases hargc : cmd.argc < 2
  · rw [if_pos hargc, if_pos hargc]
    exact Or.inl ⟨rfl, quiet_reply _ _⟩
  rw [if_neg hargc, if_neg hargc]
  cases hf : s.db.findUser (cmd.arg 1) with
  | none => exact Or.inl ⟨rfl, quiet_reply _ _⟩
  | some user =>
    dsimp only
    cases ha : user.active with
    | false => exact Or.inl ⟨rfl, quiet_reply _ _⟩
    | true =>
      cases hl : user.locked with
      | true => exact Or.inl ⟨rfl, quiet_reply _ _⟩
      | false =>
        cases hn : user.noPassword with
        | true => exact Or.inr ⟨user, s, rfl, SameUser.refl s, rfl⟩
        | false =>
          rcases password_cases (cmd.arg 1) _ _ (cliSwitchUser (cmd.arg 1) user) s rfl with
            ⟨hp, hq⟩ | ⟨hp, he⟩
          · rw [hp]
            exact Or.inl ⟨rfl, hq⟩
          · rw [hp]
            exact Or.inr ⟨user, s.prompted, rfl, sameUser_prompted s, he⟩

/-- A `su` of a session that is not root runs its sub-command as root. -/
def suElevates (s : Shell) (cmd : ParsedCommand) : Bool :=
  if cmd.argc < 2 then false
  else if s.session.privilege = cliPrivRoot then false
  else
    match s.db.findUser strRoot with
    | none => false
    | some root =>
      if !root.active then false
      else if root.noPassword then true
      else passwordAccepted s strRoot

/-- What `su` checks before it makes the session root : the record is active, and if it has a
password it also is not locked and the password is the one that is typed. -/
theorem suElevates_root {cmd : ParsedCommand} (h : suElevates s cmd = true) :
    ∃ root, s.db.findUser strRoot = some root ∧ root.active = true ∧
      (root.noPassword = true ∨ AuthenticatedAs s strRoot root) := by
  unfold suElevates at h
  split_ifs at h
  cases hf : s.db.findUser strRoot with
  | none =>
    rw [hf] at h
    cases h
  | some root =>
    rw [hf] at h
    dsimp only at h
    split_ifs at h with ha hn
    · exact ⟨root, rfl, by simpa using ha, Or.inl hn⟩
    · exact ⟨root, rfl, by simpa using ha, Or.inr (exists_of_passwordAccepted h hf)⟩

/-- The state in which a `su` makes the session root. -/
def suState (s : Shell) : Shell :=
  if (s.db.findUser strRoot).any UserRecord.noPassword then s else s.prompted

theorem sameUser_suState (s : Shell) : SameUser s (suState s) := by
  unfold suState
  split
  · exact SameUser.refl s
  · exact sameUser_prompted s

/-- `su` leaves the user, runs its sub-command in the session as it is, or makes it root. -/
theorem su_cases (env : CliEnv) (exec : ParsedCommand → ShellProg Int) (cmd : ParsedCommand)
    (s : Shell) :
    (suElevates s cmd = false ∧ Quiet (cliCmdSu env exec cmd) s) ∨
    (suElevates s cmd = false ∧ s.session.privilege = cliPrivRoot ∧
      cliCmdSu env exec cmd s = cliSubCommand exec s cmd cliErrSyntax s) ∨
    (suElevates s cmd = true ∧
      cliCmdSu env exec cmd s = cliElevate env exec s cmd (suState s)) := by
  simp only [Quiet, cliCmdSu, state_bind, suElevates, suState]
  by_cases hargc : cmd.argc < 2
  · rw [if_pos hargc, if_pos hargc]
    exact Or.inl ⟨rfl, quiet_reply _ _⟩
  rw [if_neg hargc, if_neg hargc]
  by_cases hroot : s.session.privilege = cliPrivRoot
  · rw [if_pos hroot, if_pos hroot]
    exact Or.inr (Or.inl ⟨rfl, hroot, rfl⟩)
  rw [if_neg hroot, if_neg hroot]
  cases hf : s.db.findUser strRoot with
  | none => exact Or.inl ⟨rfl, quiet_reply _ _⟩
  | some root =>
    dsimp only
    cases ha : root.active with
    | false => exact Or.inl ⟨rfl, quiet_reply _ _⟩
    | true =>
      cases hn : root.noPassword with
      | true => exact Or.inr (Or.inr ⟨rfl, by simp [hn]⟩)
      | false =>
        rcases password_cases strRoot _ _ (cliElevate env exec s cmd) s rfl with
          ⟨hp, hq⟩ | ⟨hp, he⟩
        · exact Or.inl ⟨hp, hq⟩
        · exact Or.inr (Or.inr ⟨hp, by simpa [hn] using he⟩)

/-- `logout` leaves the default session, or makes the session root but for its number. -/
theorem logout_cases (s : Shell) :
    (s.atDefaultRoot = true ∧ Quiet cliCmdLogout s) ∨
    (s.atDefaultRoot = false ∧ cliCmdLogout s =
      cliReply (Bytes.utf8 "Logged out — returned to root\n") cliOk (s.setSession { s.session with
        username := s.session.username.strcpy strRoot
        privilege := cliPrivRoot })) := by
  simp only [Quiet, cliCmdLogout, state_bind]
  cases hd : s.atDefaultRoot with
  | true => exact Or.inl ⟨rfl, quiet_reply _ _⟩
  | false => exact Or.inr ⟨rfl, rfl⟩

/-! ## Single commands -/

/-- The session with one more command counted. -/
def Shell.counted (s : Shell) : Shell :=
  s.setSession { s.session with commandsExecuted := s.session.commandsExecuted + 1 }

theorem sameUser_counted (s : Shell) : SameUser s s.counted :=
  ⟨rfl, rfl, rfl, rfl⟩

/-- The builtin is the one the first word names, and both access checks let it through. -/
structure Admitted (b : CliBuiltinCommand) (cmd : ParsedCommand) (s : Shell) : Prop where
  found : cliFindBuiltin (cmd.arg 0) = some b
  privilege : s.session.privilege ≤ b.minPrivilege
  policy : policyCheckCommand s.engine (cmd.arg 0) s.session.privilege = true

/-- The call of a handler, with its event. -/
def CliBuiltinCommand.call (env : CliEnv) (exec : ParsedCommand → ShellProg Int)
    (b : CliBuiltinCommand) (cmd : ParsedCommand) (s : Shell) : Outcome Shell ShellEvent Int :=
  (record (.ran b cmd s none) >>= fun _ => b.run env exec cmd) s

theorem CliBuiltinCommand.call_eq (env : CliEnv) (exec : ParsedCommand → ShellProg Int)
    (b : CliBuiltinCommand) (cmd : ParsedCommand) (s : Shell) :
    b.call env exec cmd s = ⟨(b.run env exec cmd s).value, (b.run env exec cmd s).state,
      .ran b cmd s none :: (b.run env exec cmd s).trace⟩ :=
  record_bind _ _ _

/-- A single command leaves the user, or calls the handler of an admitted builtin. -/
theorem single_cases (env : CliEnv) (exec : ParsedCommand → ShellProg Int) (cmd : ParsedCommand)
    (s : Shell) :
    Quiet (cliExecuteSingleCommand env exec cmd) s ∨
    ∃ b, Admitted b cmd s.counted ∧
      cliExecuteSingleCommand env exec cmd s = b.call env exec cmd s.counted := by
  unfold cliExecuteSingleCommand
  by_cases hargc : cmd.argc = 0
  · rw [if_pos hargc]
    exact Or.inl (Quiet.pure _)
  rw [if_neg hargc]
  cases hb : cliFindBuiltin (cmd.arg 0) with
  | none => exact Or.inl (quiet_reply _ _)
  | some b =>
    simp only [Quiet, state_bind]
    by_cases hpriv : b.minPrivilege < s.session.privilege
    · rw [if_pos hpriv]
      exact Or.inl (quiet_reply _ _)
    rw [if_neg hpriv]
    cases hpol : policyCheckCommand s.engine (cmd.arg 0) s.session.privilege with
    | false => exact Or.inl (quiet_reply _ _)
    | true => exact Or.inr ⟨b, ⟨hb, UInt8.not_lt.mp hpriv, hpol⟩, rfl⟩

/-- The handlers that have to do with the user. -/
def CliCommandHandler.onUser (h : CliCommandHandler) : Bool :=
  h = .login || h = .su || h = .logout

theorem CliCommandHandler.onUser_cases {h : CliCommandHandler} (hon : h.onUser = true) :
    h = .login ∨ h = .su ∨ h = .logout := by
  simpa [CliCommandHandler.onUser, or_assoc] using hon

/-- The handler of an event. -/
def ShellEvent.handler : ShellEvent → Option CliCommandHandler
  | .ran b _ _ _ => some b.handler
  | .subCommand _ _ => none

/-- The call of a handler that leaves the user. -/
def Bland : ShellEvent → Prop
  | .ran b _ _ _ => b.handler.onUser = false
  | .subCommand _ _ => False

/-- A builtin that may stand in front of a pipe leaves the user. -/
theorem onUser_of_pipeSafe {name : List UInt8} {b : CliBuiltinCommand}
    (hb : cliFindBuiltin name = some b) (hsafe : cliCommandPipeSafe name = true) :
    b.handler.onUser = false := by
  have htable : ∀ b ∈ builtinCommands, cliCommandPipeSafe b.name = true →
      b.handler.onUser = false := by
    decide
  have hname : b.name = name := by simpa using List.find?_some hb
  exact htable b (List.mem_of_find?_eq_some hb) (hname ▸ hsafe)

theorem quiet_of_onUser (env : CliEnv) (exec : ParsedCommand → ShellProg Int)
    {b : CliBuiltinCommand} (h : b.handler.onUser = false) (cmd : ParsedCommand) (s : Shell) :
    Quiet (b.run env exec cmd) s := by
  refine quiet_run env exec b cmd s ?_ ?_ ?_ <;>
  · intro hb
    rw [hb] at h
    cases h

/-- What stands in front of a pipe leaves the user. -/
theorem single_pipeSafe (env : CliEnv) (exec : ParsedCommand → ShellProg Int)
    {cmd : ParsedCommand} (hsafe : cliCommandPipeSafe (cmd.arg 0) = true) (s : Shell) :
    SameUser s (cliExecuteSingleCommand env exec cmd s).state ∧
      ∀ e ∈ (cliExecuteSingleCommand env exec cmd s).trace, Bland e := by
  rcases single_cases env exec cmd s with hq | ⟨b, hb, he⟩
  · rw [hq.1]
    exact ⟨hq.2, by simp⟩
  · have hon := onUser_of_pipeSafe hb.found hsafe
    have hq := quiet_of_onUser env exec hon cmd s.counted
    rw [he, CliBuiltinCommand.call_eq, hq.1]
    refine ⟨(sameUser_counted s).trans hq.2, fun e he => ?_⟩
    rw [List.mem_singleton.mp he]
    exact hon

/-! ## Pipelines -/

/-- The program of a pipeline once its right side is parsed. -/
def cliPipeline (env : CliEnv) (n : ℕ) (cmd next : ParsedCommand) : ShellProg Int := do
  Traced.update Shell.captureBegin
  let leftRc ← cliExecuteSingleCommand env (cliExecute env n) cmd
  Traced.update Shell.captureEnd
  let s ← Traced.state
  if leftRc ≠ cliOk then cliReply s.captureBuf leftRc
  else do
    Traced.update (Shell.pipeSetInput s.captureBuf)
    let rc ← cliExecute env n next
    Traced.update (Shell.pipeSetInput [])
    return rc

/-- A command is refused, is a single one, or a pipeline whose left side may stand there. -/
theorem execute_cases (env : CliEnv) (n : ℕ) (cmd : ParsedCommand) :
    (∃ text rc, cliExecute env (n + 1) cmd = cliReply text rc) ∨
    cliExecute env (n + 1) cmd = pure cliErrSyntax ∨
    cliExecute env (n + 1) cmd = cliExecuteSingleCommand env (cliExecute env n) cmd ∨
    ∃ p next, cmd.pipeTo = some p ∧ cliCommandPipeSafe (cmd.arg 0) = true ∧
      cliParseCommand p = some next ∧
      cliExecute env (n + 1) cmd = cliPipeline env n cmd next := by
  unfold cliExecute
  by_cases hargc : cmd.argc = 0
  · rw [if_pos hargc]
    exact Or.inr (Or.inl rfl)
  rw [if_neg hargc]
  split
  · rename_i c p hpipe
    cases hsafe : cliCommandPipeSafe (cmd.arg 0) with
    | false => exact Or.inl ⟨_, _, rfl⟩
    | true =>
      cases hnext : cliParseCommand (c :: p) with
      | none => exact Or.inl ⟨_, _, rfl⟩
      | some next => exact Or.inr (Or.inr (Or.inr ⟨c :: p, next, hpipe, rfl, hnext, rfl⟩))
  · exact Or.inr (Or.inr (Or.inl rfl))

/-! ## Relations on the user -/

/-- A relation between the state before, the events and the state after that commands which
leave the user do not spoil. -/
structure UserRelation (R : Shell → List ShellEvent → Shell → Prop) : Prop where
  quiet : ∀ {s s'}, SameUser s s' → R s [] s'
  before : ∀ {s s' s'' t t'}, SameUser s s' → (∀ e ∈ t, Bland e) → R s' t' s'' → R s (t ++ t') s''
  after : ∀ {s s' s'' t}, R s t s' → SameUser s' s'' → R s t s''

theorem Quiet.keeps {m : ShellProg α} {R : Shell → List ShellEvent → Shell → Prop}
    (hR : UserRelation R) (h : Quiet m s) : Keeps R m s := by
  intro a _
  rw [h.1]
  exact hR.quiet h.2

/-- From `s` the program leaves the user and calls only handlers that leave it. -/
def Blandly (m : ShellProg α) (s : Shell) : Prop :=
  SameUser s (m s).state ∧ ∀ e ∈ (m s).trace, Bland e

theorem Quiet.blandly {m : ShellProg α} (h : Quiet m s) : Blandly m s := by
  refine ⟨h.2, ?_⟩
  rw [h.1]
  simp

theorem Keeps.blandly_bind {m : ShellProg α} {f : α → ShellProg β}
    {R : Shell → List ShellEvent → Shell → Prop} (hR : UserRelation R) (hm : Blandly m s)
    (hf : ∀ a, Keeps R (f a) (m s).state) : Keeps R (m >>= f) s := by
  intro b hb
  obtain ⟨a, ha, hb'⟩ := value_bind hb
  rw [bind_some ha]
  exact hR.before hm.1 hm.2 (hf a b hb')

theorem Keeps.bind_quiet {m : ShellProg α} {f : α → ShellProg β}
    {R : Shell → List ShellEvent → Shell → Prop} (hR : UserRelation R) (hm : Keeps R m s)
    (hf : ∀ a, Quiet (f a) (m s).state) : Keeps R (m >>= f) s := by
  intro b hb
  obtain ⟨a, ha, -⟩ := value_bind hb
  rw [bind_some ha, (hf a).1, List.append_nil]
  exact hR.after (hm a ha) (hf a).2

/-- A pipeline keeps what its right side keeps. -/
theorem keeps_pipeline {env : CliEnv} {n : ℕ} {R : Shell → List ShellEvent → Shell → Prop}
    (hR : UserRelation R) {cmd next : ParsedCommand}
    (hsafe : cliCommandPipeSafe (cmd.arg 0) = true)
    (hnext : ∀ s, Keeps R (cliExecute env n next) s) (s : Shell) :
    Keeps R (cliPipeline env n cmd next) s := by
  have hupdate : ∀ {f : Shell → Shell} {t : Shell}, SameUser t (f t) →
      Quiet (Traced.update f : ShellProg Unit) t := Quiet.update
  refine Keeps.blandly_bind hR (hupdate ⟨rfl, rfl, rfl, rfl⟩).blandly fun _ => ?_
  refine Keeps.blandly_bind hR (single_pipeSafe env _ hsafe _) fun leftRc => ?_
  refine Keeps.blandly_bind hR (hupdate ⟨rfl, rfl, rfl, rfl⟩).blandly fun _ => ?_
  refine Keeps.blandly_bind hR Quiet.state.blandly fun t => ?_
  split_ifs
  · exact (quiet_reply _ _).keeps hR
  · refine Keeps.blandly_bind hR (hupdate ⟨rfl, rfl, rfl, rfl⟩).blandly fun _ => ?_
    refine Keeps.bind_quiet hR (hnext _) fun rc => ?_
    exact Quiet.bind (hupdate ⟨rfl, rfl, rfl, rfl⟩) fun _ => Quiet.pure _

/-- Relations that the three handlers on the user keep if the commands they call keep them are
kept by every command. -/
theorem keeps_execute {ι : Type} {env : CliEnv} {R : ι → Shell → List ShellEvent → Shell → Prop}
    (hR : ∀ i, UserRelation (R i))
    (hcall : ∀ exec, (∀ i cmd s, Keeps (R i) (exec cmd) s) → ∀ i b cmd s, Admitted b cmd s →
      b.handler.onUser = true → Keeps (R i) (b.call env exec cmd) s) :
    ∀ n i cmd s, Keeps (R i) (cliExecute env n cmd) s := by
  intro n
  induction n with
  | zero => exact fun i cmd s => Keeps.stuck
  | succ n ih =>
    intro i cmd s
    rcases execute_cases env n cmd with ⟨text, rc, he⟩ | he | he | ⟨p, next, -, hsafe, -, he⟩
    · rw [he]
      exact (quiet_reply text rc).keeps (hR i)
    · rw [he]
      exact (Quiet.pure _).keeps (hR i)
    · rw [he]
      rcases single_cases env (cliExecute env n) cmd s with hq | ⟨b, hb, hs⟩
      · exact hq.keeps (hR i)
      · intro rc hrc
        rw [hs] at hrc ⊢
        cases hon : b.handler.onUser with
        | true =>
          exact (hR i).before (t := []) (sameUser_counted s) (by simp)
            (hcall _ ih i b cmd _ hb hon rc hrc)
        | false =>
          have hq := quiet_of_onUser env (cliExecute env n) hon cmd s.counted
          rw [CliBuiltinCommand.call_eq, hq.1]
          have hbland : ∀ e ∈ [ShellEvent.ran b cmd s.counted none], Bland e := by
            intro e he
            rw [List.mem_singleton.mp he]
            exact hon
          have hkept := (hR i).before (sameUser_counted s) hbland ((hR i).quiet hq.2)
          rwa [List.append_nil] at hkept
    · rw [he]
      exact keeps_pipeline (hR i) hsafe (ih i next) s

/-- A relation that every command keeps, and that composes, is kept by every line. -/
theorem keeps_line {env : CliEnv} {R : Shell → List ShellEvent → Shell → Prop}
    (hR : UserRelation R) (hcomp : Composes R)
    (hexec : ∀ n cmd s, Keeps R (cliExecute env n cmd) s) (line : List UInt8) (s : Shell) :
    Keeps R (cliProcessLine env line) s := by
  have hsegs : ∀ segs status s, Keeps R (cliRunSegments env status segs) s := by
    intro segs
    induction segs with
    | nil => exact fun status s => (Quiet.pure status).keeps hR
    | cons seg segs ih =>
      intro status s
      unfold cliRunSegments
      split_ifs
      · exact ih status s
      · exact ih status s
      · exact ih status s
      · refine Keeps.bind hcomp ?_ fun rc _ => ih rc _
        unfold cliProcessSingle
        split
        · exact (quiet_reply _ _).keeps hR
        · exact hexec _ _ s
  intro rc
  rw [cliProcessLine, state_bind]
  split_ifs
  · refine Quiet.keeps hR (Quiet.bind ?_ fun _ => quiet_reply _ _) rc
    exact Quiet.update ⟨rfl, rfl, rfl, rfl⟩
  · exact hsegs _ _ s rc

/-! ## Events -/

section Events

variable {env : CliEnv} {P : ShellEvent → Prop}
  (hran : ∀ b cmd s, Admitted b cmd s → P (.ran b cmd s none))
  (hsub : ∀ cmd before s, s.session.privilege = cliPrivRoot →
    before.session.privilege = cliPrivRoot ∨ suElevates before cmd = true →
    P (.subCommand before s))
  (hwithin : ∀ before e, P e → P (e.within before))

theorem Quiet.records {m : ShellProg α} (h : Quiet m s) : Emits P m s :=
  Emits.of_nil h.1

include hsub hwithin in
theorem records_subCommand {exec : ParsedCommand → ShellProg Int}
    (hexec : ∀ cmd s, Emits P (exec cmd) s) {before : Shell} {cmd : ParsedCommand}
    (onError : Int) (hroot : s.session.privilege = cliPrivRoot)
    (hbefore : before.session.privilege = cliPrivRoot ∨ suElevates before cmd = true) :
    Emits P (cliSubCommand exec before cmd onError) s := by
  unfold cliSubCommand
  split
  · exact Emits.of_nil rfl
  · rename_i sub _
    rw [Emits, state_bind]
    refine Emits.record_bind (hsub cmd before s hroot hbefore) (Emits.relabel ?_)
    exact fun e he => hwithin before e (hexec sub s e he)

include hsub hwithin in
theorem records_su {exec : ParsedCommand → ShellProg Int}
    (hexec : ∀ cmd s, Emits P (exec cmd) s) (cmd : ParsedCommand) (s : Shell) :
    Emits P (cliCmdSu env exec cmd) s := by
  rcases su_cases env exec cmd s with ⟨-, hq⟩ | ⟨-, hroot, he⟩ | ⟨hel, he⟩
  · exact hq.records
  · rw [Emits, he]
    exact records_subCommand hsub hwithin hexec _ hroot (Or.inl hroot)
  · rw [Emits, he, cliElevate]
    simp only [state_bind, update_bind]
    refine Emits.bind ?_ fun _ _ => Emits.of_nil rfl
    exact records_subCommand hsub hwithin hexec _ rfl (Or.inr hel)

include hran hsub hwithin in
theorem records_single {exec : ParsedCommand → ShellProg Int}
    (hexec : ∀ cmd s, Emits P (exec cmd) s) (cmd : ParsedCommand) (s : Shell) :
    Emits P (cliExecuteSingleCommand env exec cmd) s := by
  rcases single_cases env exec cmd s with hq | ⟨b, hb, he⟩
  · exact hq.records
  rw [Emits, he]
  refine Emits.record_bind (hran b cmd _ hb) ?_
  cases hon : b.handler.onUser with
  | false => exact (quiet_of_onUser env exec hon cmd _).records
  | true =>
    unfold CliBuiltinCommand.run
    rcases CliCommandHandler.onUser_cases hon with hh | hh | hh <;> rw [hh] <;> dsimp only
    · rcases login_cases cmd s.counted with ⟨-, hq⟩ | ⟨user, s₀, -, -, he⟩
      · exact hq.records
      · rw [Emits, he]
        exact Emits.of_nil rfl
    · exact records_su hsub hwithin hexec cmd _
    · rcases logout_cases s.counted with ⟨-, hq⟩ | ⟨-, he⟩
      · exact hq.records
      · rw [Emits, he]
        exact Emits.of_nil rfl

include hran hsub hwithin in
/-- Every event of a command has a property that holds of the handlers both access checks let
through, and of the sub-commands of a `su` that went through. -/
theorem records_execute (n : ℕ) :
    ∀ cmd s, Emits P (cliExecute env n cmd) s := by
  induction n with
  | zero => exact fun cmd s => Emits.of_nil rfl
  | succ n ih =>
    intro cmd s
    have hsingle : ∀ cmd s, Emits P (cliExecuteSingleCommand env (cliExecute env n) cmd) s :=
      records_single hran hsub hwithin ih
    rcases execute_cases env n cmd with ⟨text, rc, he⟩ | he | he | ⟨p, next, -, -, -, he⟩
    · rw [he]
      exact (quiet_reply text rc).records
    · rw [he]
      exact (Quiet.pure _).records
    · rw [he]
      exact hsingle cmd s
    · rw [he, cliPipeline]
      refine Emits.bind (Emits.of_nil rfl) fun _ _ => ?_
      refine Emits.bind (hsingle cmd _) fun leftRc _ => ?_
      refine Emits.bind (Emits.of_nil rfl) fun _ _ => ?_
      refine Emits.bind (Emits.of_nil rfl) fun t _ => ?_
      split_ifs
      · exact (quiet_reply _ _).records
      · refine Emits.bind (Emits.of_nil rfl) fun _ _ => ?_
        refine Emits.bind (ih next _) fun rc _ => ?_
        exact Emits.bind (Emits.of_nil rfl) fun _ _ => (Quiet.pure _).records

include hran hsub hwithin in
theorem records_segments (segs : List (CliSep × List UInt8)) :
    ∀ status s, Emits P (cliRunSegments env status segs) s := by
  induction segs with
  | nil => exact fun status s => Emits.of_nil rfl
  | cons seg segs ih =>
    intro status s
    unfold cliRunSegments
    split_ifs
    · exact ih status s
    · exact ih status s
    · exact ih status s
    · refine Emits.bind ?_ fun rc _ => ih rc _
      unfold cliProcessSingle
      split
      · exact (quiet_reply _ _).records
      · exact records_execute hran hsub hwithin _ _ s

include hran hsub hwithin in
theorem emits_line (line : List UInt8) (s : Shell) : Emits P (cliProcessLine env line) s := by
  rw [cliProcessLine, Emits, state_bind]
  split_ifs
  · rw [update_bind]
    exact (quiet_reply _ _).records
  · exact records_segments hran hsub hwithin _ _ s

end Events

/-! ## Runs -/

/-- A line, and the keys that are typed while it runs. -/
structure TypedLine where
  line : List UInt8
  keys : List UInt8

/-- The state when a line is entered. -/
def Shell.typed (s : Shell) (i : TypedLine) : Shell :=
  { s with keys := s.keys ++ i.keys }

theorem sameUser_typed (s : Shell) (i : TypedLine) : SameUser s (s.typed i) :=
  ⟨rfl, rfl, rfl, rfl⟩

/-- What a line does. -/
def cliTyped (env : CliEnv) (s : Shell) (i : TypedLine) : Outcome Shell ShellEvent Int :=
  cliProcessLine env i.line (s.typed i)

/-- The state after a line, `none` if the line does not return. -/
def cliStep (env : CliEnv) (s : Shell) (i : TypedLine) : Option Shell :=
  (cliTyped env s i).value.map fun _ => (cliTyped env s i).state

/-! ## A session -/

/-- A record with this name. -/
def userRecord (name : List UInt8) (privilege flags : UInt8) : UserRecord where
  username := Vector.ofFn fun k => name.getD k.val 0
  passwordHash := Vector.replicate 32 0
  privilege := privilege
  flags := flags

/-- Nothing is mounted, the stack holds zeros, and the other handlers do nothing. -/
def bareEnv : CliEnv where
  kfs := noMounts
  listMounted := fun _ => none
  savedName := fun _ => CliName.zero
  other := fun _ _ s => ⟨some cliOk, [], s.session.isActive, s.engine, s.fs, s.keys, s.psGuiLive⟩

/-- A new session of a user, without access rules. -/
def newShell (db : UserDb) (uid : UInt32) (name : List UInt8) (privilege : UInt8) : Shell where
  session := ⟨uid, CliName.zero.strcpy name, privilege, 0, true⟩
  db := db
  engine := defaultEngine
  fs := VernisFs.emptyVolume
  keys := []
  captureActive := false
  captureEcho := true
  captureBuf := []
  pipeInput := []
  psGuiLive := false
  screen := []

end VernisOS
