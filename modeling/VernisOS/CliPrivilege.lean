import VernisOS.CliSteps
import VernisOS.Lib.Run

/-!
# Privilege of a session

After a line a session has the privilege it had before, or that of the last user it was
authenticated as, or that of root because it was logged out (`session_privilege`). A `su` runs
its sub-command in a session that is root, or with a root record that lets it in.
-/

open Traced Run

namespace VernisOS

/-- Where a privilege comes from : the login of a user of the database, or a logout. -/
def Grants (db : UserDb) (privilege : UInt8) : ShellEvent → Prop
  | .ran b cmd s _ => s.db = db ∧
    ((b.handler = .login ∧ ∃ user, AuthenticatedAs s (cmd.arg 1) user ∧
      user.privilege = privilege) ∨
    (b.handler = .logout ∧ privilege = cliPrivRoot))
  | .subCommand _ _ => False

/-- A `su` that was called in the state `before` ran its sub-command : the session was root, or
the root record let it in. Of a root record that is locked and has no password nothing is
said. -/
def SuAllowed (before : Shell) : Prop :=
  before.session.privilege = cliPrivRoot ∨
    ∃ root, before.db.findUser strRoot = some root ∧
      (root.locked = true ∧ root.noPassword = true ∨ AuthenticatedAs before strRoot root)

/-- The users stay, and the privilege stays or is granted. -/
def PrivilegeFrom (s : Shell) (t : List ShellEvent) (s' : Shell) : Prop :=
  s'.db = s.db ∧ (s'.session.privilege = s.session.privilege ∨
    ∃ e ∈ t, Grants s.db s'.session.privilege e)

theorem PrivilegeFrom.trans {s s' s'' : Shell} {t t' : List ShellEvent}
    (h : PrivilegeFrom s t s') (h' : PrivilegeFrom s' t' s'') : PrivilegeFrom s (t ++ t') s'' := by
  obtain ⟨hdb, hp⟩ := h
  obtain ⟨hdb', hp'⟩ := h'
  refine ⟨hdb'.trans hdb, ?_⟩
  rcases hp' with hp' | ⟨e, he, hg⟩
  · rw [hp']
    exact hp.imp_right fun ⟨e, he, hg⟩ => ⟨e, List.mem_append_left _ he, hg⟩
  · rw [hdb] at hg
    exact Or.inr ⟨e, List.mem_append_right _ he, hg⟩

theorem PrivilegeFrom.of_sameUser {s s' : Shell} (h : SameUser s s') (t : List ShellEvent) :
    PrivilegeFrom s t s' :=
  ⟨h.db, Or.inl h.privilege⟩

theorem composes_privilegeFrom : Composes PrivilegeFrom :=
  ⟨fun s => PrivilegeFrom.of_sameUser (SameUser.refl s) [], PrivilegeFrom.trans⟩

theorem userRelation_privilegeFrom : UserRelation PrivilegeFrom where
  quiet h := PrivilegeFrom.of_sameUser h []
  before h _ h' := (PrivilegeFrom.of_sameUser h _).trans h'
  after h h' := by
    have hboth := h.trans (PrivilegeFrom.of_sameUser h' [])
    rwa [List.append_nil] at hboth

theorem grants_within {db : UserDb} {p : UInt8} {before : Shell} {e : ShellEvent}
    (h : Grants db p e) : Grants db p (e.within before) := by
  cases e with
  | ran b cmd s under => exact h
  | subCommand t s => exact h

variable {env : CliEnv} {exec : ParsedCommand → ShellProg Int}

/-- A sub-command keeps what commands keep. -/
theorem privilegeFrom_subCommand (hexec : ∀ cmd s, Keeps PrivilegeFrom (exec cmd) s)
    (before : Shell) (cmd : ParsedCommand) (onError : Int) (s : Shell) :
    Keeps PrivilegeFrom (cliSubCommand exec before cmd onError) s := by
  unfold cliSubCommand
  split
  · exact (Quiet.pure _).keeps userRelation_privilegeFrom
  · rename_i sub _
    intro rc hrc
    rw [state_bind, record_bind] at hrc ⊢
    obtain ⟨hdb, hp⟩ := hexec sub s rc hrc
    refine ⟨hdb, hp.imp_right fun ⟨e, he, hg⟩ => ⟨e.within before, ?_, grants_within hg⟩⟩
    exact List.mem_cons_of_mem _ (List.mem_map_of_mem he)

/-- The privilege that `su` gives is taken back. -/
theorem privilegeFrom_elevate (hexec : ∀ cmd s, Keeps PrivilegeFrom (exec cmd) s)
    (cmd : ParsedCommand) {s s₀ : Shell} (hs : SameUser s s₀) {rc : Int}
    (hrc : (cliElevate env exec s cmd s₀).value = some rc) :
    PrivilegeFrom s (cliElevate env exec s cmd s₀).trace (cliElevate env exec s cmd s₀).state := by
  rw [cliElevate, state_bind, update_bind] at hrc ⊢
  obtain ⟨r, hr, -⟩ := value_bind hrc
  rw [bind_some hr, update_bind, pure_apply]
  have hdb := (privilegeFrom_subCommand hexec s cmd _ _ r hr).1
  exact ⟨Eq.trans hdb hs.db, Or.inl hs.privilege⟩

theorem privilegeFrom_su (hexec : ∀ cmd s, Keeps PrivilegeFrom (exec cmd) s)
    (cmd : ParsedCommand) (s : Shell) : Keeps PrivilegeFrom (cliCmdSu env exec cmd) s := by
  rcases su_cases env exec cmd s with ⟨-, hq⟩ | ⟨-, -, he⟩ | ⟨-, he⟩
  · exact hq.keeps userRelation_privilegeFrom
  · rw [Keeps, he]
    exact privilegeFrom_subCommand hexec s cmd _ s
  · intro rc hrc
    have hs := sameUser_suState s
    rw [he] at hrc ⊢
    exact privilegeFrom_elevate hexec cmd hs hrc

theorem privilegeFrom_call (hexec : ∀ cmd s, Keeps PrivilegeFrom (exec cmd) s)
    (b : CliBuiltinCommand) (cmd : ParsedCommand) (s : Shell) (hon : b.handler.onUser = true)
    {rc : Int} (hrc : (b.call env exec cmd s).value = some rc) :
    PrivilegeFrom s (b.call env exec cmd s).trace (b.call env exec cmd s).state := by
  rw [CliBuiltinCommand.call_eq] at hrc ⊢
  unfold CliBuiltinCommand.run at hrc ⊢
  rcases CliCommandHandler.onUser_cases hon with hh | hh | hh <;> rw [hh] at hrc ⊢ <;>
    dsimp only at hrc ⊢
  · rcases login_cases cmd s with ⟨-, hq⟩ | ⟨user, s₀, huser, hs, he⟩
    · exact PrivilegeFrom.of_sameUser hq.2 _
    · rw [he]
      refine ⟨hs.db, Or.inr ⟨_, List.mem_cons_self, rfl, Or.inl ⟨hh, user, ?_, rfl⟩⟩⟩
      exact loginUser_some huser
  · obtain ⟨hdb, hp⟩ := privilegeFrom_su hexec cmd s rc hrc
    exact ⟨hdb, hp.imp_right fun ⟨e, he, hg⟩ => ⟨e, List.mem_cons_of_mem _ he, hg⟩⟩
  · rcases logout_cases s with ⟨-, hq⟩ | ⟨-, he⟩
    · exact PrivilegeFrom.of_sameUser hq.2 _
    · rw [he]
      exact ⟨rfl, Or.inr ⟨_, List.mem_cons_self, rfl, Or.inr ⟨hh, rfl⟩⟩⟩

/-- Every line keeps the privilege or has it granted. -/
theorem privilegeFrom_line (env : CliEnv) (line : List UInt8) (s : Shell) :
    Keeps PrivilegeFrom (cliProcessLine env line) s := by
  refine keeps_line userRelation_privilegeFrom composes_privilegeFrom ?_ line s
  intro n cmd s
  refine keeps_execute (fun _ : Unit => userRelation_privilegeFrom) ?_ n () cmd s
  exact fun exec hexec _ b cmd s _ hon rc hrc => privilegeFrom_call (hexec ()) b cmd s hon hrc

/-! ## Runs -/

/-- A line leaves the session less powerful or as powerful, unless it logged in a user with the
privilege the session has afterwards, or logged out. Every `su` in it was allowed. -/
def PrivilegeEarned (env : CliEnv) (s : Shell) (i : TypedLine) : Prop :=
  (∀ s', cliStep env s i = some s' → s'.session.privilege < s.session.privilege →
    ∃ e ∈ (cliTyped env s i).trace, Grants s.db s'.session.privilege e) ∧
  ∀ before t, .subCommand before t ∈ (cliTyped env s i).trace →
    t.session.privilege = cliPrivRoot ∧ SuAllowed before

theorem suAllowed_of_su {before : Shell} {cmd : ParsedCommand}
    (h : before.session.privilege = cliPrivRoot ∨ suElevates before cmd = true) :
    SuAllowed before := by
  rcases h with h | h
  · exact Or.inl h
  · obtain ⟨root, hf, ha, hp⟩ := suElevates_root h
    refine Or.inr ⟨root, hf, ?_⟩
    rcases hp with hn | hauth
    · cases hl : root.locked with
      | true => exact Or.inl ⟨rfl, hn⟩
      | false => exact Or.inr ⟨hf, ha, hl, Or.inl hn⟩
    · exact Or.inr hauth

theorem privilegeEarned (env : CliEnv) (s : Shell) (i : TypedLine) : PrivilegeEarned env s i := by
  refine ⟨fun s' hs' hlt => ?_, fun before t ht => ?_⟩
  · obtain ⟨rc, hrc, rfl⟩ := Option.map_eq_some_iff.mp hs'
    obtain ⟨-, hsame | hgrant⟩ := privilegeFrom_line env i.line (s.typed i) rc hrc
    · exact absurd hlt (by rw [show (cliTyped env s i).state.session.privilege = _ from hsame]
                           exact UInt8.lt_irrefl _)
    · exact hgrant
  · refine emits_line (P := fun e => ∀ before t, e = .subCommand before t →
      t.session.privilege = cliPrivRoot ∧ SuAllowed before) ?_ ?_ ?_ i.line (s.typed i) _ ht _ _ rfl
    · intro b cmd s _ before t he
      cases he
    · intro cmd before' s hroot hsu before t he
      cases he
      exact ⟨hroot, suAllowed_of_su hsu⟩
    · intro before' e h before t he
      cases e with
      | ran b cmd s under => cases he
      | subCommand t' s => exact h before t he

/-- In every session a line makes it more powerful only by a login or a logout, and every `su`
is let in. -/
theorem session_privilege (env : CliEnv) (s : Shell) (lines : List TypedLine) :
    Along (cliStep env) (PrivilegeEarned env) s lines :=
  Along.mono_inv (I := fun _ => True) (fun _ _ _ _ _ _ => trivial)
    (fun s i _ _ => privilegeEarned env s i) lines s trivial (along_true lines s)

/-! ## Logging out -/

/-- As before, without the logouts and with a root record that lets in every `su`. -/
def PrivilegeAuthenticated (env : CliEnv) (s : Shell) (i : TypedLine) : Prop :=
  (∀ s', cliStep env s i = some s' → s'.session.privilege < s.session.privilege →
    ∃ b cmd t under, .ran b cmd t under ∈ (cliTyped env s i).trace ∧ b.handler = .login ∧
      ∃ user, AuthenticatedAs t (cmd.arg 1) user ∧ user.privilege = s'.session.privilege) ∧
  ∀ before t, .subCommand before t ∈ (cliTyped env s i).trace →
    ∃ root, AuthenticatedAs before strRoot root

/-- A session of the user `ann`, while root has a password. -/
def annShell : Shell :=
  newShell ⟨[userRecord strRoot cliPrivRoot userFlagActive,
    userRecord (Bytes.utf8 "ann") cliPrivUser userFlagActive], true, by decide⟩ 1
    (Bytes.utf8 "ann") cliPrivUser

/-- The line `logout`. -/
def logoutLine : TypedLine :=
  ⟨Bytes.utf8 "logout", []⟩

/-- `ann` becomes root by logging out. -/
theorem not_session_authenticated : ¬ ∀ (env : CliEnv) (s : Shell) (lines : List TypedLine),
    Along (cliStep env) (PrivilegeAuthenticated env) s lines := by
  intro hall
  obtain ⟨⟨hpriv, -⟩, -⟩ := hall bareEnv annShell [logoutLine]
  have hstep : (cliTyped bareEnv annShell logoutLine).value = some cliOk := by decide
  have hroot : (cliTyped bareEnv annShell logoutLine).state.session.privilege <
      annShell.session.privilege := by decide
  obtain ⟨b, cmd, t, under, hmem, hlogin, -⟩ :=
    hpriv _ (by rw [cliStep, hstep]; rfl) hroot
  have hran : (cliTyped bareEnv annShell logoutLine).trace.map ShellEvent.handler =
      [some .logout] := by decide
  have hhandler := List.mem_map_of_mem (f := ShellEvent.handler) hmem
  rw [hran, List.mem_singleton, ShellEvent.handler, hlogin] at hhandler
  cases hhandler

end VernisOS
