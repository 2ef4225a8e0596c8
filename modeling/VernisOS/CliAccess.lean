import VernisOS.CliSteps

/-!
# Access rules of typed commands

`policy_check_command` looks for a rule for two words, but is given the first word of a command
only. A rule for two words therefore binds only where the table of builtins or the rule for the
first word is as strict (`access_rules_bind`).
-/

open Traced

namespace VernisOS

/-- The first two words that were typed. -/
def ParsedCommand.typedWords (cmd : ParsedCommand) : List UInt8 :=
  cmd.arg 0 ++ if cmd.argc < 2 then [] else 32 :: cmd.arg 1

/-- The first rule that has an alternative which these words begin with. -/
def AiEngine.ruleFor (e : AiEngine) (command : List UInt8) : Option AccessRuleConfig :=
  e.accessRules.find? fun rule =>
    (AiEngine.alternatives (rule.pattern.take rule.patternLen.toNat)).any
      (AiEngine.cmdMatches command)

/-- The session may call the handler : by the table of builtins, and by the rule for the words
that were typed. -/
def RulesRespected : ShellEvent → Prop
  | .subCommand _ _ => True
  | .ran b cmd s _ => s.session.privilege ≤ b.minPrivilege ∧
    ∀ rule ∈ s.engine.ruleFor cmd.typedWords,
      s.session.privilege ≤ policyMapPrivilege rule.minPrivilege

instance : DecidablePred RulesRespected := fun e =>
  match e with
  | .subCommand _ _ => .isTrue trivial
  | .ran _ _ _ _ => inferInstanceAs (Decidable (_ ∧ _))

/-- The rule for the words that were typed is not stricter than the table of builtins, or than
the rule for the first word. -/
def RuleReached (e : AiEngine) (b : CliBuiltinCommand) (cmd : ParsedCommand) : Prop :=
  ∀ rule ∈ e.ruleFor cmd.typedWords,
    b.minPrivilege ≤ policyMapPrivilege rule.minPrivilege ∨
    ∃ first ∈ e.ruleFor (cmd.arg 0), first.minPrivilege ≠ 255 ∧
      policyMapPrivilege first.minPrivilege ≤ policyMapPrivilege rule.minPrivilege

/-- The rules reach the call of the handler. -/
def ReachedIn : ShellEvent → Prop
  | .subCommand _ _ => True
  | .ran b cmd s _ => RuleReached s.engine b cmd

/-! ## Single words -/

theorem checkAccess_eq (e : AiEngine) (command : List UInt8) :
    e.checkAccess command = ((e.ruleFor command).map (·.minPrivilege)).getD 255 := by
  unfold AiEngine.checkAccess AiEngine.ruleFor
  split <;> rename_i h <;> rw [h] <;> rfl

/-- A word is checked against the rule for it alone. -/
theorem policyCheckCommand_word {word : List UInt8} (hne : word ≠ []) (hword : 32 ∉ word)
    (e : AiEngine) (privilege : UInt8) :
    policyCheckCommand e word privilege = true ↔ ∀ first ∈ e.ruleFor word,
      first.minPrivilege = 255 ∨ privilege ≤ policyMapPrivilege first.minPrivilege := by
  have htake : word.takeWhile (· ≠ 32) = word :=
    List.takeWhile_eq_self_iff.mpr fun c hc => by
      have hc32 : c ≠ 32 := fun h => hword (h ▸ hc)
      simpa using hc32
  have hlen : word.length ≠ 0 := by simpa using hne
  have haccess : e.aiEngineCheckAccess word = e.checkAccess word := if_neg hlen
  unfold policyCheckCommand
  simp only [htake, hlen, if_false, Nat.lt_irrefl, List.take_length, haccess, ne_eq,
    not_true_eq_false, and_false, checkAccess_eq]
  cases e.ruleFor word with
  | none => simp
  | some first => simp

theorem word_of_builtin {word : List UInt8} {b : CliBuiltinCommand}
    (h : cliFindBuiltin word = some b) : word ≠ [] ∧ 32 ∉ word := by
  have htable : ∀ b ∈ builtinCommands, b.name ≠ [] ∧ 32 ∉ b.name := by
    decide
  have hname : b.name = word := by simpa using List.find?_some h
  exact hname ▸ htable b (List.mem_of_find?_eq_some h)

/-! ## Calls -/

theorem respected_of_reached {b : CliBuiltinCommand} {cmd : ParsedCommand} {s : Shell}
    {u : Option Shell} (h : Admitted b cmd s) (hreached : RuleReached s.engine b cmd) :
    RulesRespected (.ran b cmd s u) := by
  obtain ⟨hne, hword⟩ := word_of_builtin h.found
  have hfirst := (policyCheckCommand_word hne hword s.engine s.session.privilege).mp h.policy
  refine ⟨h.privilege, fun rule hrule => ?_⟩
  rcases hreached rule hrule with hb | ⟨first, hmem, hmin, hle⟩
  · exact UInt8.le_trans h.privilege hb
  · exact UInt8.le_trans ((hfirst first hmem).resolve_left hmin) hle

/-- A command that both checks admit calls its handler. -/
theorem single_of_admitted (env : CliEnv) (exec : ParsedCommand → ShellProg Int)
    {b : CliBuiltinCommand} {cmd : ParsedCommand} {s : Shell} (h : Admitted b cmd s) :
    cliExecuteSingleCommand env exec cmd s = b.call env exec cmd s.counted := by
  have hargc : cmd.argc ≠ 0 := by
    intro hargc
    have hnil : cmd.arg 0 = [] := by
      unfold ParsedCommand.arg
      rw [List.length_eq_zero_iff.mp hargc]
      rfl
    exact (word_of_builtin h.found).1 hnil
  unfold cliExecuteSingleCommand
  rw [if_neg hargc, h.found]
  simp only [state_bind]
  rw [if_neg (UInt8.not_lt.mpr h.privilege), h.policy]
  rfl

/-- A privilege that both checks admit, and that is not below both bounds. -/
theorem exists_admitted {b : CliBuiltinCommand} {word : List UInt8}
    (hb : cliFindBuiltin word = some b) (e : AiEngine) :
    ∃ p : UInt8, p ≤ b.minPrivilege ∧ policyCheckCommand e word p = true ∧
      (p = b.minPrivilege ∨ ∃ first ∈ e.ruleFor word, first.minPrivilege ≠ 255 ∧
        p = policyMapPrivilege first.minPrivilege) := by
  obtain ⟨hne, hword⟩ := word_of_builtin hb
  have hcheck := policyCheckCommand_word hne hword e
  cases hrule : e.ruleFor word with
  | none =>
    refine ⟨b.minPrivilege, UInt8.le_refl _, (hcheck _).mpr ?_, Or.inl rfl⟩
    simp [hrule]
  | some first =>
    by_cases hmin : first.minPrivilege = 255
    · refine ⟨b.minPrivilege, UInt8.le_refl _, (hcheck _).mpr ?_, Or.inl rfl⟩
      simp [hrule, hmin]
    · rcases UInt8.le_total b.minPrivilege (policyMapPrivilege first.minPrivilege) with hle | hle
      · refine ⟨b.minPrivilege, UInt8.le_refl _, (hcheck _).mpr ?_, Or.inl rfl⟩
        simpa [hrule] using Or.inr hle
      · refine ⟨_, hle, (hcheck _).mpr ?_, Or.inr ⟨first, rfl, hmin, rfl⟩⟩
        simp [hrule]

/-- In every session a call of the handler respects the rules, exactly if they reach it. -/
theorem respected_iff_reached (env : CliEnv) (exec : ParsedCommand → ShellProg Int)
    {b : CliBuiltinCommand} {cmd : ParsedCommand} (hb : cliFindBuiltin (cmd.arg 0) = some b)
    (e : AiEngine) :
    (∀ s : Shell, s.engine = e →
      ∀ event ∈ (cliExecuteSingleCommand env exec cmd s).trace.head?, RulesRespected event) ↔
    RuleReached e b cmd := by
  constructor
  · intro hall rule hrule
    obtain ⟨p, hle, hcheck, hp⟩ := exists_admitted hb e
    have hadmitted : Admitted b cmd { newShell ⟨[], true, by decide⟩ 0 strRoot p with engine := e } :=
      ⟨hb, hle, hcheck⟩
    have hcall := hall _ rfl (.ran b cmd _ none) (by
      rw [single_of_admitted env exec hadmitted, CliBuiltinCommand.call_eq]
      rfl)
    have hbound : p ≤ policyMapPrivilege rule.minPrivilege := hcall.2 rule hrule
    rcases hp with rfl | ⟨first, hfirst, hmin, rfl⟩
    · exact Or.inl hbound
    · exact Or.inr ⟨first, hfirst, hmin, hbound⟩
  · rintro hreached s rfl event hevent
    rcases single_cases env exec cmd s with hq | ⟨b', hb', he⟩
    · rw [hq.1] at hevent
      cases hevent
    · obtain rfl := Option.some.inj (hb'.found.symm.trans hb)
      rw [he, CliBuiltinCommand.call_eq] at hevent
      obtain rfl := Option.some.inj hevent
      exact respected_of_reached hb' hreached

/-! ## Lines -/

/-- Every call of a handler in a line respects the rules if they reach it. They reach a command
exactly if every session that calls it respects them. -/
theorem access_rules_bind (env : CliEnv) :
    (∀ line s, (∀ e ∈ (cliProcessLine env line s).trace, ReachedIn e) →
      ∀ e ∈ (cliProcessLine env line s).trace, RulesRespected e) ∧
    ∀ exec cmd b, cliFindBuiltin (cmd.arg 0) = some b → ∀ e,
      ((∀ s : Shell, s.engine = e →
        ∀ event ∈ (cliExecuteSingleCommand env exec cmd s).trace.head?, RulesRespected event) ↔
      RuleReached e b cmd) := by
  refine ⟨fun line s hreached e he => ?_, fun exec cmd b hb e => respected_iff_reached env exec hb e⟩
  refine emits_line (P := fun e => ReachedIn e → RulesRespected e) ?_ ?_ ?_ line s e he
    (hreached e he)
  · exact fun b cmd s hadmitted h => respected_of_reached hadmitted h
  · exact fun _ _ _ _ _ _ => trivial
  · intro before e h
    cases e with
    | ran b cmd s under => exact h
    | subCommand t s => exact h

/-- An administrator, and a rule that `log clear` is for root. -/
def logShell : Shell :=
  { newShell ⟨[], true, by decide⟩ 1 (Bytes.utf8 "admin") cliPrivAdmin with
    engine := { defaultEngine with accessRules := [⟨Bytes.utf8 "log clear", 9, 0⟩] } }

/-- The administrator's `log clear` is called. -/
theorem not_access_rules_bind : ¬ ∀ (env : CliEnv) (line : List UInt8) (s : Shell),
    ∀ e ∈ (cliProcessLine env line s).trace, RulesRespected e := by
  intro hall
  have hlog := hall bareEnv (Bytes.utf8 "log clear") logShell
  revert hlog
  decide

end VernisOS
