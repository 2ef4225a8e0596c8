import VernisOS.CliSteps

/-!
# Commands inside commands

The sub-command of a `su` and the command behind a pipe are shorter than the command they are
in, so that `cliExecute` with one call for each character never runs out of calls
(`execute_eq_executeCommand`).
-/

open Traced

namespace VernisOS

namespace ParsedCommand

/-- The words of a command, each with one character more. -/
def wordWeight (argv : List (List UInt8)) : ℕ :=
  (argv.map fun a => a.length + 1).sum

@[simp] theorem wordWeight_nil : wordWeight [] = 0 := rfl

@[simp] theorem wordWeight_cons (a : List UInt8) (argv : List (List UInt8)) :
    wordWeight (a :: argv) = a.length + 1 + wordWeight argv := by
  simp [wordWeight]

theorem wordWeight_append (as bs : List (List UInt8)) :
    wordWeight (as ++ bs) = wordWeight as + wordWeight bs := by
  simp [wordWeight]

end ParsedCommand

open ParsedCommand

theorem length_join (args : List (List UInt8)) :
    ([32].intercalate args).length + 1 ≤ wordWeight args ∨ args = [] := by
  induction args with
  | nil => exact Or.inr rfl
  | cons a args ih =>
    refine Or.inl ?_
    cases args with
    | nil => simp
    | cons b rest =>
      have hrest := ih.resolve_right (by simp)
      rw [List.intercalate_cons_cons, wordWeight_cons]
      simp only [List.length_append, List.length_singleton]
      omega

/-- The characters that the loop of the parser may still turn into words. -/
def parseRoom (p : List UInt8) : ℕ :=
  if p = [] then 0 else p.length + 1

theorem parseRoom_le (p : List UInt8) : parseRoom p ≤ p.length + 1 := by
  unfold parseRoom
  split <;> omega

theorem length_tail_dropWhile (f : UInt8 → Bool) (p : List UInt8) :
    parseRoom (p.dropWhile f).tail + (p.takeWhile f).length ≤ p.length := by
  have hlen := congrArg List.length (List.takeWhile_append_dropWhile (p := f) (l := p))
  rw [List.length_append] at hlen
  unfold parseRoom
  split
  · omega
  · rename_i hne
    cases hd : p.dropWhile f with
    | nil => rw [hd] at hne; exact absurd rfl hne
    | cons c q =>
      rw [hd] at hlen
      simp only [List.length_cons, List.tail_cons] at hlen ⊢
      omega

theorem weight_of_pipeTo_none {cmd : ParsedCommand} (h : cmd.pipeTo = none) :
    cmd.weight = wordWeight cmd.argv := by
  simp [weight, wordWeight, h]

/-- No character of the input becomes part of two words. -/
theorem weight_parseLoop (n : ℕ) : ∀ (p : List UInt8) (cmd : ParsedCommand), cmd.pipeTo = none →
    (cliParseLoop n p cmd).weight ≤ wordWeight cmd.argv + parseRoom p := by
  induction n with
  | zero => exact fun p cmd h => (weight_of_pipeTo_none h).le.trans (Nat.le_add_right _ _)
  | succ n ih =>
    intro p cmd h
    have hstay : cmd.weight ≤ wordWeight cmd.argv + parseRoom p :=
      (weight_of_pipeTo_none h).le.trans (Nat.le_add_right _ _)
    unfold cliParseLoop
    split_ifs with hend
    · exact hstay
    have hroom : parseRoom p = p.length + 1 := if_neg fun hp => hend (Or.inl hp)
    have hblank := List.length_dropWhile_le isBlank p
    cases hd : p.dropWhile isBlank with
    | nil => exact hstay
    | cons c q =>
      rw [hd, List.length_cons] at hblank
      have hspace := List.length_dropWhile_le (· = 32) q
      have hrest := length_tail_dropWhile (fun c => !isBlank c) (q.dropWhile (· = 32))
      have hq := parseRoom_le q
      dsimp only
      split_ifs
      · refine (ih q { cmd with background := true } h).trans ?_
        dsimp only
        omega
      · refine (ih _ { cmd with inputRedirect := some _ } h).trans ?_
        dsimp only
        omega
      · refine (ih _ { cmd with outputRedirect := some _ } h).trans ?_
        dsimp only
        omega
      · simp only [weight, Option.map_some, Option.getD_some]
        change wordWeight cmd.argv + _ ≤ _
        omega
      · have htoken := length_tail_dropWhile (fun c => !endsToken c) (c :: q)
        refine (ih _ { cmd with argv := cmd.argv ++ [_] } h).trans ?_
        simp only [wordWeight_append, wordWeight_cons, wordWeight_nil, List.length_cons] at htoken ⊢
        omega

/-- `cli_strcpy` into a cleared buffer. -/
theorem cStr_cliStrcpy_zero (src : List UInt8) {max : ℕ} (h : 0 < max) :
    cStr (cliStrcpy (List.replicate max 0) src max) = (cStr src).take (max - 1) := by
  have hle : ((cStr src).take (max - 1)).length ≤ max - 1 := List.length_take_le _ _
  have hnot : 0 ∉ (cStr src).take (max - 1) :=
    fun h0 => zero_notMem_cStr src (List.mem_of_mem_take h0)
  have hrep : (List.replicate max (0 : UInt8)).drop ((cStr src).take (max - 1)).length =
      List.replicate (max - ((cStr src).take (max - 1)).length) 0 := List.drop_replicate
  have hset : (List.replicate (max - ((cStr src).take (max - 1)).length) (0 : UInt8)).set
      (max - 1 - ((cStr src).take (max - 1)).length) 0 =
      List.replicate (max - ((cStr src).take (max - 1)).length) 0 := List.set_replicate_self
  rw [cliStrcpy, hrep, List.set_append_right _ _ hle, hset]
  obtain ⟨k, hk⟩ : ∃ k, max - ((cStr src).take (max - 1)).length = k + 1 :=
    ⟨max - ((cStr src).take (max - 1)).length - 1, by omega⟩
  rw [hk, List.replicate_succ, cStr_append_zero hnot]

theorem weight_parseCommand {input : List UInt8} {cmd : ParsedCommand}
    (h : cliParseCommand input = some cmd) : cmd.weight ≤ input.length + 1 := by
  unfold cliParseCommand at h
  dsimp only at h
  split_ifs at h
  obtain rfl := Option.some.inj h
  have hloop := weight_parseLoop
    (cStr (cliStrcpy (List.replicate cliMaxInputLen 0) input cliMaxInputLen)).length
    (cStr (cliStrcpy (List.replicate cliMaxInputLen 0) input cliMaxInputLen))
    ParsedCommand.empty rfl
  have hroom := parseRoom_le
    (cStr (cliStrcpy (List.replicate cliMaxInputLen 0) input cliMaxInputLen))
  have hcopy : (cStr (cliStrcpy (List.replicate cliMaxInputLen 0) input cliMaxInputLen)).length ≤
      input.length := by
    rw [cStr_cliStrcpy_zero input (by decide)]
    exact (List.length_take_le' _ _).trans (length_cStr_le input)
  have hempty : wordWeight ParsedCommand.empty.argv = 0 := rfl
  omega

/-- The sub-command of a `su` is shorter than the `su`. -/
theorem weight_subCommand {cmd sub : ParsedCommand}
    (h : cliParseCommand (cliJoinArgs (cmd.argv.drop 1) cliMaxInputLen) = some sub) :
    sub.weight < cmd.weight := by
  have hsub := weight_parseCommand h
  have hjoin := length_join (cmd.argv.drop 1)
  have htake : (cliJoinArgs (cmd.argv.drop 1) cliMaxInputLen).length ≤
      ([32].intercalate (cmd.argv.drop 1)).length := List.length_take_le' _ _
  cases hargv : cmd.argv with
  | nil =>
    rw [hargv] at h
    cases h
  | cons a args =>
    have hcmd : wordWeight cmd.argv ≤ cmd.weight := Nat.le_add_right _ _
    rw [hargv, wordWeight_cons] at hcmd
    rw [hargv, List.drop_one, List.tail_cons] at hjoin htake hsub
    rcases hjoin with hjoin | rfl
    · omega
    · rw [hargv] at h
      cases h

/-- The command behind a pipe is shorter than the pipeline. -/
theorem weight_next {cmd next : ParsedCommand} {p : List UInt8} (hargc : cmd.argc ≠ 0)
    (hp : cmd.pipeTo = some p) (h : cliParseCommand p = some next) :
    next.weight < cmd.weight := by
  have hnext := weight_parseCommand h
  have hcmd : cmd.weight = wordWeight cmd.argv + (p.length + 1) := by
    simp [weight, wordWeight, hp]
  cases hargv : cmd.argv with
  | nil => simp [ParsedCommand.argc, hargv] at hargc
  | cons a args =>
    rw [hargv, wordWeight_cons] at hcmd
    omega

/-! ## Enough calls -/

theorem subCommand_congr {exec exec' : ParsedCommand → ShellProg Int} {cmd : ParsedCommand}
    (h : ∀ sub, sub.weight < cmd.weight → exec sub = exec' sub) (before : Shell)
    (onError : Int) :
    cliSubCommand exec before cmd onError = cliSubCommand exec' before cmd onError := by
  unfold cliSubCommand
  cases hsub : cliParseCommand (cliJoinArgs (cmd.argv.drop 1) cliMaxInputLen) with
  | none => rfl
  | some sub => simp only [h sub (weight_subCommand hsub)]

theorem single_congr {env : CliEnv} {exec exec' : ParsedCommand → ShellProg Int}
    {cmd : ParsedCommand} (h : ∀ sub, sub.weight < cmd.weight → exec sub = exec' sub) :
    cliExecuteSingleCommand env exec cmd = cliExecuteSingleCommand env exec' cmd := by
  have hsu : cliCmdSu env exec cmd = cliCmdSu env exec' cmd := by
    unfold cliCmdSu cliElevate
    simp only [subCommand_congr h]
  have hrun : ∀ b : CliBuiltinCommand, b.run env exec cmd = b.run env exec' cmd := by
    intro b
    unfold CliBuiltinCommand.run
    rw [hsu]
  unfold cliExecuteSingleCommand
  simp only [hrun]

/-- A command behaves the same with any number of calls above its weight. -/
theorem execute_congr (env : CliEnv) (n : ℕ) :
    ∀ m cmd, cmd.weight < n → cmd.weight < m → cliExecute env n cmd = cliExecute env m cmd := by
  induction n with
  | zero => exact fun m cmd h _ => absurd h (Nat.not_lt_zero _)
  | succ n ih =>
    intro m cmd hn hm
    obtain ⟨m, rfl⟩ := Nat.exists_eq_succ_of_ne_zero (Nat.ne_zero_of_lt hm)
    have hexec : ∀ sub, sub.weight < cmd.weight → cliExecute env n sub = cliExecute env m sub :=
      fun sub hsub => ih m sub (by omega) (by omega)
    unfold cliExecute
    by_cases hargc : cmd.argc = 0
    · rw [if_pos hargc, if_pos hargc]
    rw [if_neg hargc, if_neg hargc, single_congr hexec]
    cases hp : cmd.pipeTo with
    | none => rfl
    | some p =>
      cases p with
      | nil => rfl
      | cons c p =>
        dsimp only
        cases hnext : cliParseCommand (c :: p) with
        | none => rfl
        | some next => simp only [hexec next (weight_next hargc hp hnext)]

/-- No command runs out of calls. -/
theorem execute_eq_executeCommand (env : CliEnv) {n : ℕ} {cmd : ParsedCommand}
    (h : cmd.weight < n) : cliExecute env n cmd = cliExecuteCommand env cmd :=
  execute_congr env n _ cmd h (Nat.lt_succ_self _)

end VernisOS
