import VernisOS.CliDepth

/-!
# Operators on the command line

`cli_parse_command` of `kernel/shell/cli.c` meets an operator where a word may begin, or behind
a word, which it then ends, or inside the name of a file. `Between` says of the text in front
of an operator that a word may begin behind it : there a blank before or behind the operator
changes nothing (`operators_read`). The text behind the pipe is kept as it is.
-/

open Bytes

namespace VernisOS

/-! ## The parser, character by character -/

/-- `<`, `>`, `&` or `|`. -/
def isOperator (c : UInt8) : Bool :=
  c = 60 || c = 62 || c = 38 || c = 124

/-- The loop of `cli_parse_command` over all of `p`. -/
def cliParseRest (p : List UInt8) (cmd : ParsedCommand) : ParsedCommand :=
  cliParseLoop p.length p cmd

/-- More passes than characters change nothing. -/
theorem parseLoop_congr (n : ℕ) : ∀ (m : ℕ) (p : List UInt8) (cmd : ParsedCommand),
    p.length ≤ n → p.length ≤ m → cliParseLoop n p cmd = cliParseLoop m p cmd := by
  induction n with
  | zero =>
    intro m p cmd hn _
    obtain rfl := List.length_eq_zero_iff.mp (Nat.le_zero.mp hn)
    cases m <;> simp [cliParseLoop]
  | succ n ih =>
    intro m p cmd hn hm
    cases m with
    | zero =>
      obtain rfl := List.length_eq_zero_iff.mp (Nat.le_zero.mp hm)
      simp [cliParseLoop]
    | succ m =>
      unfold cliParseLoop
      split_ifs
      · rfl
      have hblank := List.length_dropWhile_le isBlank p
      cases hd : p.dropWhile isBlank with
      | nil => rfl
      | cons c q =>
        rw [hd, List.length_cons] at hblank
        have hspace := List.length_dropWhile_le (· = 32) q
        have hname := List.length_dropWhile_le (fun c => !isBlank c) (q.dropWhile (· = 32))
        have htoken := List.length_dropWhile_le (fun c => !endsToken c) (c :: q)
        rw [List.length_cons] at htoken
        dsimp only
        split_ifs
        · exact ih m _ _ (by omega) (by omega)
        · exact ih m _ _ (by rw [List.length_tail]; omega) (by rw [List.length_tail]; omega)
        · exact ih m _ _ (by rw [List.length_tail]; omega) (by rw [List.length_tail]; omega)
        · rfl
        · exact ih m _ _ (by rw [List.length_tail]; omega) (by rw [List.length_tail]; omega)

section Rest

variable {p : List UInt8} {cmd : ParsedCommand} {c : UInt8}

theorem parseRest_nil (cmd : ParsedCommand) : cliParseRest [] cmd = cmd :=
  rfl

/-- No more words fit. -/
theorem parseRest_full (h : cliMaxArgs ≤ cmd.argc) (p : List UInt8) : cliParseRest p cmd = cmd := by
  cases p with
  | nil => rfl
  | cons c p => exact if_pos (Or.inr h)

theorem parseRest_blank (hc : isBlank c = true) (p : List UInt8) (cmd : ParsedCommand) :
    cliParseRest (c :: p) cmd = cliParseRest p cmd := by
  by_cases hfull : cliMaxArgs ≤ cmd.argc
  · rw [parseRest_full hfull, parseRest_full hfull]
  have hlong : cliParseRest p cmd = cliParseLoop (p.length + 1) p cmd :=
    parseLoop_congr _ _ _ _ le_rfl (Nat.le_succ _)
  rw [hlong, cliParseRest, List.length_cons]
  unfold cliParseLoop
  rw [if_neg (by simp [hfull]), List.dropWhile_cons_of_pos hc]
  by_cases hp : p = []
  · rw [if_pos (Or.inl hp), hp]
    rfl
  · rw [if_neg (by simp [hfull, hp])]

/-- The loop where a word may begin. -/
theorem parseRest_cons (hroom : cmd.argc < cliMaxArgs) (hc : isBlank c = false) :
    cliParseRest (c :: p) cmd =
      if c = 38 then cliParseRest p { cmd with background := true }
      else if c = 60 then
        cliParseRest ((p.dropWhile (· = 32)).dropWhile fun c => !isBlank c).tail
          { cmd with inputRedirect := some ((p.dropWhile (· = 32)).takeWhile fun c => !isBlank c) }
      else if c = 62 then
        cliParseRest ((p.dropWhile (· = 32)).dropWhile fun c => !isBlank c).tail
          { cmd with outputRedirect := some ((p.dropWhile (· = 32)).takeWhile fun c => !isBlank c) }
      else if c = 124 then { cmd with pipeTo := some (p.dropWhile (· = 32)) }
      else
        cliParseRest ((c :: p).dropWhile fun c => !endsToken c).tail
          { cmd with argv := cmd.argv ++ [(c :: p).takeWhile fun c => !endsToken c] } := by
  have hspace := List.length_dropWhile_le (· = 32) p
  have hname := List.length_dropWhile_le (fun c => !isBlank c) (p.dropWhile (· = 32))
  have htoken := List.length_dropWhile_le (fun c => !endsToken c) (c :: p)
  rw [List.length_cons] at htoken
  rw [cliParseRest, List.length_cons]
  conv_lhs => unfold cliParseLoop
  rw [if_neg (by simp; omega), List.dropWhile_cons_of_neg (by simp [hc])]
  dsimp only
  split_ifs
  · rfl
  · exact parseLoop_congr _ _ _ _ (by rw [List.length_tail]; omega) le_rfl
  · exact parseLoop_congr _ _ _ _ (by rw [List.length_tail]; omega) le_rfl
  · rfl
  · exact parseLoop_congr _ _ _ _ (by rw [List.length_tail]; omega) le_rfl

end Rest

/-! ## Between words -/

/-- A word may begin behind these characters : they are blanks, `&`, redirections with the blank
behind the name, and words with the character that ends them. -/
inductive Between : List UInt8 → Prop
  | nil : Between []
  | blank {c : UInt8} {p : List UInt8} : isBlank c = true → Between p → Between (c :: p)
  | background {p : List UInt8} : Between p → Between (38 :: p)
  | redirect {op b : UInt8} {spaces name p : List UInt8} :
    op = 60 ∨ op = 62 → (∀ c ∈ spaces, c = 32) → (∀ c ∈ name, isBlank c = false) →
      isBlank b = true → (name = [] → b = 9) → Between p →
      Between (op :: (spaces ++ (name ++ b :: p)))
  | word {c e : UInt8} {rest p : List UInt8} :
    isBlank c = false → isOperator c = false → (∀ c ∈ rest, endsToken c = false) →
      endsToken e = true → Between p → Between (c :: (rest ++ e :: p))

theorem redirect_name {spaces name : List UInt8} {b : UInt8} (hspaces : ∀ c ∈ spaces, c = 32)
    (hname : ∀ c ∈ name, isBlank c = false) (hb : isBlank b = true) (hempty : name = [] → b = 9)
    (q : List UInt8) :
    ((spaces ++ (name ++ b :: q)).dropWhile (· = 32)).takeWhile (fun c => !isBlank c) = name ∧
    (((spaces ++ (name ++ b :: q)).dropWhile (· = 32)).dropWhile fun c => !isBlank c).tail = q := by
  have hskip : (spaces ++ (name ++ b :: q)).dropWhile (· = 32) = name ++ b :: q := by
    rw [List.dropWhile_append_of_pos (by simpa using hspaces)]
    cases name with
    | nil =>
      rw [hempty rfl]
      rfl
    | cons c name =>
      refine List.dropWhile_cons_of_neg ?_
      rw [decide_eq_true_eq]
      rintro rfl
      cases hname 32 List.mem_cons_self
  have hread : ∀ c ∈ name, (!isBlank c) = true := by
    intro c hc
    rw [hname c hc]
    rfl
  rw [hskip, List.takeWhile_append_of_pos hread, List.dropWhile_append_of_pos hread,
    List.takeWhile_cons_of_neg (by simp [hb]), List.dropWhile_cons_of_neg (by simp [hb]),
    List.append_nil]
  exact ⟨rfl, rfl⟩

theorem endsToken_of_word {c : UInt8} (hc : isBlank c = false) (hop : isOperator c = false) :
    endsToken c = false ∧ c ≠ 38 ∧ c ≠ 60 ∧ c ≠ 62 ∧ c ≠ 124 := by
  simp only [isOperator, Bool.or_eq_false_iff, decide_eq_false_iff_not] at hop
  obtain ⟨⟨⟨h60, h62⟩, h38⟩, h124⟩ := hop
  exact ⟨by simp [endsToken, hc, h38, h60, h62], h38, h60, h62, h124⟩

theorem word_rest {c e : UInt8} {rest : List UInt8} (hc : endsToken c = false)
    (hrest : ∀ c ∈ rest, endsToken c = false) (he : endsToken e = true) (q : List UInt8) :
    (c :: (rest ++ e :: q)).takeWhile (fun c => !endsToken c) = c :: rest ∧
    ((c :: (rest ++ e :: q)).dropWhile fun c => !endsToken c).tail = q := by
  have hread : ∀ d ∈ c :: rest, (!endsToken d) = true := by
    intro d hd
    rcases List.mem_cons.mp hd with rfl | hd
    · rw [hc]
      rfl
    · rw [hrest d hd]
      rfl
  rw [← List.cons_append, List.takeWhile_append_of_pos hread, List.dropWhile_append_of_pos hread,
    List.takeWhile_cons_of_neg (by simp [he]), List.dropWhile_cons_of_neg (by simp [he]),
    List.append_nil]
  exact ⟨rfl, rfl⟩

/-- Two texts that read alike where a word may begin read alike behind the same text. -/
theorem parseRest_between {p : List UInt8} (hp : Between p) {q q' : List UInt8}
    {R : ParsedCommand → ParsedCommand → Prop} (hrefl : ∀ cmd, cmd.pipeTo = none → R cmd cmd)
    (h : ∀ cmd, cmd.pipeTo = none → cmd.argc < cliMaxArgs →
      R (cliParseRest q cmd) (cliParseRest q' cmd)) :
    ∀ cmd, cmd.pipeTo = none → R (cliParseRest (p ++ q) cmd) (cliParseRest (p ++ q') cmd) := by
  induction hp with
  | nil =>
    intro cmd hpipe
    by_cases hroom : cmd.argc < cliMaxArgs
    · exact h cmd hpipe hroom
    · rw [parseRest_full (not_lt.mp hroom), parseRest_full (not_lt.mp hroom)]
      exact hrefl cmd hpipe
  | blank hc _ ih =>
    intro cmd hpipe
    rw [List.cons_append, List.cons_append, parseRest_blank hc, parseRest_blank hc]
    exact ih cmd hpipe
  | background _ ih =>
    intro cmd hpipe
    by_cases hroom : cmd.argc < cliMaxArgs
    · rw [List.cons_append, List.cons_append, parseRest_cons hroom rfl, parseRest_cons hroom rfl]
      exact ih _ hpipe
    · rw [parseRest_full (not_lt.mp hroom), parseRest_full (not_lt.mp hroom)]
      exact hrefl cmd hpipe
  | @redirect op b spaces name p hop hspaces hname hb hempty _ ih =>
    intro cmd hpipe
    by_cases hroom : cmd.argc < cliMaxArgs
    · have happ : ∀ q, op :: (spaces ++ (name ++ b :: p)) ++ q =
          op :: (spaces ++ (name ++ b :: (p ++ q))) := by simp
      have hread := redirect_name hspaces hname hb hempty
      rw [happ, happ]
      rcases hop with rfl | rfl
      · rw [parseRest_cons hroom rfl, parseRest_cons hroom rfl, if_neg (by decide), if_pos rfl,
          if_neg (by decide), if_pos rfl, (hread _).1, (hread _).2, (hread _).1, (hread _).2]
        exact ih _ hpipe
      · rw [parseRest_cons hroom rfl, parseRest_cons hroom rfl, if_neg (by decide),
          if_neg (by decide), if_pos rfl, if_neg (by decide), if_neg (by decide), if_pos rfl,
          (hread _).1, (hread _).2, (hread _).1, (hread _).2]
        exact ih _ hpipe
    · rw [parseRest_full (not_lt.mp hroom), parseRest_full (not_lt.mp hroom)]
      exact hrefl cmd hpipe
  | @word c e rest p hc hop hrest he _ ih =>
    intro cmd hpipe
    by_cases hroom : cmd.argc < cliMaxArgs
    · obtain ⟨hends, h38, h60, h62, h124⟩ := endsToken_of_word hc hop
      have happ : ∀ q, c :: (rest ++ e :: p) ++ q = c :: (rest ++ e :: (p ++ q)) := by simp
      have hread := word_rest hends hrest he
      rw [happ, happ, parseRest_cons hroom hc, parseRest_cons hroom hc]
      simp only [if_neg h38, if_neg h60, if_neg h62, if_neg h124]
      rw [(hread _).1, (hread _).2, (hread _).1, (hread _).2]
      exact ih _ hpipe
    · rw [parseRest_full (not_lt.mp hroom), parseRest_full (not_lt.mp hroom)]
      exact hrefl cmd hpipe

/-! ## Words -/

/-- Neither a blank nor `&`, `<` or `>` stands in a word. -/
theorem parseLoop_words (n : ℕ) : ∀ (p : List UInt8) (cmd : ParsedCommand),
    ∀ word ∈ (cliParseLoop n p cmd).argv, word ∈ cmd.argv ∨ ∀ c ∈ word, endsToken c = false := by
  induction n with
  | zero => exact fun p cmd word hword => Or.inl hword
  | succ n ih =>
    intro p cmd word hword
    unfold cliParseLoop at hword
    split_ifs at hword
    · exact Or.inl hword
    cases hd : p.dropWhile isBlank with
    | nil =>
      rw [hd] at hword
      exact Or.inl hword
    | cons c q =>
      rw [hd] at hword
      dsimp only at hword
      split_ifs at hword
      · exact ih q { cmd with background := true } word hword
      · exact ih _ { cmd with inputRedirect := some _ } word hword
      · exact ih _ { cmd with outputRedirect := some _ } word hword
      · exact Or.inl hword
      · rcases ih _ _ word hword with hmem | hclean
        · rcases List.mem_append.mp hmem with hmem | hmem
          · exact Or.inl hmem
          · rw [List.mem_singleton.mp hmem]
            exact Or.inr fun d hd => by simpa using List.mem_takeWhile_imp hd
        · exact Or.inr hclean

/-! ## Command lines -/

/-- The pipe text without the blanks in front of it. -/
def ParsedCommand.trimmed (cmd : ParsedCommand) : ParsedCommand :=
  { cmd with pipeTo := cmd.pipeTo.map fun p => p.dropWhile isBlank }

/-- A blank before or behind any operator of the line leaves what the line is parsed into, up to
blanks in front of the pipe text, and no word has a blank or an operator in it. -/
def OperatorsRead (line : List UInt8) : Prop :=
  (∀ p op q, line = p ++ op :: q → isOperator op = true →
    (cliParseCommand (p ++ 32 :: op :: q)).map ParsedCommand.trimmed =
      (cliParseCommand line).map ParsedCommand.trimmed ∧
    (cliParseCommand (p ++ op :: 32 :: q)).map ParsedCommand.trimmed =
      (cliParseCommand line).map ParsedCommand.trimmed) ∧
  ∀ cmd, cliParseCommand line = some cmd →
    ∀ word ∈ cmd.argv, ∀ c ∈ word, isBlank c = false ∧ isOperator c = false

theorem parseCommand_eq {line : List UInt8} (hnul : 0 ∉ line)
    (hfit : line.length < cliMaxInputLen) :
    cliParseCommand line =
      if (cliParseRest line ParsedCommand.empty).argc = 0 then none
      else some (cliParseRest line ParsedCommand.empty) := by
  have hcopy : cStr (cliStrcpy (List.replicate cliMaxInputLen 0) line cliMaxInputLen) = line := by
    rw [cStr_cliStrcpy_zero line (by decide), cStr_eq_self hnul]
    exact List.take_of_length_le (Nat.le_pred_of_lt hfit)
  rw [cliParseCommand, hcopy]
  rfl

theorem isBlank_ne_zero {b : UInt8} (hb : isBlank b = true) : b ≠ 0 := by
  rintro rfl
  cases hb

section Insertion

variable {p q : List UInt8} {op b : UInt8}

/-- A character more that is no NUL. -/
theorem parseCommand_insert (hnul : 0 ∉ p ++ q) (hfit : (p ++ q).length + 1 < cliMaxInputLen)
    (hb : isBlank b = true) :
    cliParseCommand (p ++ b :: q) =
      if (cliParseRest (p ++ b :: q) ParsedCommand.empty).argc = 0 then none
      else some (cliParseRest (p ++ b :: q) ParsedCommand.empty) := by
  refine parseCommand_eq ?_ ?_
  · rw [List.mem_append, not_or] at hnul
    rw [List.mem_append, List.mem_cons]
    exact not_or_intro hnul.1 (not_or_intro (isBlank_ne_zero hb).symm hnul.2)
  · rw [List.length_append] at hfit
    rw [List.length_append, List.length_cons]
    omega

theorem map_trimmed_congr {cmd cmd' : ParsedCommand} (h : cmd.trimmed = cmd'.trimmed) :
    (if cmd.argc = 0 then none else some cmd).map ParsedCommand.trimmed =
      (if cmd'.argc = 0 then none else some cmd').map ParsedCommand.trimmed := by
  have hargc : cmd.argc = cmd'.argc := congrArg (fun cmd => cmd.argv.length) h
  rw [hargc]
  split_ifs
  · rfl
  · rw [Option.map_some, Option.map_some, h]

/-- A blank in front of an operator where a word may begin. -/
theorem parseRest_blank_before (hp : Between p) (hb : isBlank b = true) :
    cliParseRest (p ++ b :: op :: q) ParsedCommand.empty =
      cliParseRest (p ++ op :: q) ParsedCommand.empty :=
  parseRest_between (R := Eq) hp (fun _ _ => rfl) (fun _ _ _ => parseRest_blank hb _ _) _ rfl

/-- A blank behind an operator where a word may begin. -/
theorem parseRest_blank_behind (hp : Between p) (hop : isOperator op = true)
    (hb : isBlank b = true) (hskip : b = 32 ∨ op = 38 ∨ op = 124) :
    (cliParseRest (p ++ op :: b :: q) ParsedCommand.empty).trimmed =
      (cliParseRest (p ++ op :: q) ParsedCommand.empty).trimmed := by
  refine parseRest_between (R := fun cmd cmd' => cmd.trimmed = cmd'.trimmed) hp (fun _ _ => rfl)
    (fun cmd _ hroom => ?_) _ rfl
  simp only [isOperator, Bool.or_eq_true, decide_eq_true_eq] at hop
  rcases hop with ((rfl | rfl) | rfl) | rfl
  · obtain rfl := hskip.resolve_right (by decide)
    rw [parseRest_cons hroom rfl, parseRest_cons hroom rfl]
    rfl
  · obtain rfl := hskip.resolve_right (by decide)
    rw [parseRest_cons hroom rfl, parseRest_cons hroom rfl]
    rfl
  · rw [parseRest_cons hroom rfl, parseRest_cons hroom rfl, if_pos rfl, if_pos rfl,
      parseRest_blank hb]
  · rw [parseRest_cons hroom rfl, parseRest_cons hroom rfl]
    have htrim : ((b :: q).dropWhile (· = 32)).dropWhile isBlank =
        (q.dropWhile (· = 32)).dropWhile isBlank := by
      have hdrop : ∀ r : List UInt8, (r.dropWhile (· = 32)).dropWhile isBlank =
          r.dropWhile isBlank := by
        intro r
        induction r with
        | nil => rfl
        | cons c r ih =>
          by_cases hc : c = 32
          · rw [List.dropWhile_cons_of_pos (by simpa using hc), ih,
              List.dropWhile_cons_of_pos (by rw [hc]; rfl)]
          · rw [List.dropWhile_cons_of_neg (by simpa using hc)]
      rw [hdrop, hdrop, List.dropWhile_cons_of_pos hb]
    exact congrArg (fun t => { cmd with pipeTo := some t }) htrim

/-- The text behind the pipe is kept as it is. -/
theorem parseRest_pipe (hp : Between p) (q q' : List UInt8) :
    cliParseRest (p ++ 124 :: q') ParsedCommand.empty =
      { cliParseRest (p ++ 124 :: q) ParsedCommand.empty with
        pipeTo := (cliParseRest (p ++ 124 :: q) ParsedCommand.empty).pipeTo.map fun _ =>
          q'.dropWhile (· = 32) } := by
  refine parseRest_between (q := 124 :: q) (R := fun cmd cmd' => cmd' =
      { cmd with pipeTo := cmd.pipeTo.map fun _ => q'.dropWhile (· = 32) }) hp
    (fun cmd hpipe => by rw [hpipe, Option.map_none, ← hpipe]) (fun cmd _ hroom => ?_) _ rfl
  rw [parseRest_cons hroom rfl, parseRest_cons hroom rfl]
  rfl

end Insertion

/-! ## Operators -/

/-- Where a word may begin a blank in front of an operator, or behind it, changes nothing : in
front a blank or a tab, behind `<` and `>` a blank. In the text behind the pipe a blank stays
where it is put. No word has a blank or one of `&`, `<` and `>` in it. -/
theorem operators_read (line : List UInt8) (hnul : 0 ∉ line)
    (hfit : line.length + 1 < cliMaxInputLen) :
    (∀ p op q, line = p ++ op :: q → isOperator op = true → Between p →
      ∀ b, isBlank b = true →
        (cliParseCommand (p ++ b :: op :: q)).map ParsedCommand.trimmed =
          (cliParseCommand line).map ParsedCommand.trimmed ∧
        (b = 32 ∨ op = 38 ∨ op = 124 →
          (cliParseCommand (p ++ op :: b :: q)).map ParsedCommand.trimmed =
            (cliParseCommand line).map ParsedCommand.trimmed)) ∧
    (∀ p q r, line = p ++ 124 :: (q ++ r) → Between p → ∀ b, isBlank b = true →
      cliParseCommand (p ++ 124 :: (q ++ b :: r)) = (cliParseCommand line).map fun cmd =>
        { cmd with pipeTo := cmd.pipeTo.map fun _ => (q ++ b :: r).dropWhile (· = 32) }) ∧
    ∀ cmd, cliParseCommand line = some cmd → ∀ word ∈ cmd.argv, ∀ c ∈ word,
      isBlank c = false ∧ c ≠ 38 ∧ c ≠ 60 ∧ c ≠ 62 := by
  refine ⟨?_, ?_, ?_⟩
  · rintro p op q rfl hop hp b hb
    refine ⟨?_, fun hskip => ?_⟩
    · rw [parseCommand_insert hnul hfit hb, parseCommand_eq hnul (by omega),
        parseRest_blank_before hp hb]
    · have hsplit : p ++ op :: b :: q = (p ++ [op]) ++ b :: q := by simp
      have hwhole : p ++ op :: q = (p ++ [op]) ++ q := by simp
      rw [hsplit, parseCommand_insert (hwhole ▸ hnul) (hwhole ▸ hfit) hb, ← hsplit,
        parseCommand_eq hnul (by omega)]
      exact map_trimmed_congr (parseRest_blank_behind hp hop hb hskip)
  · rintro p q r rfl hp b hb
    have hsplit : p ++ 124 :: (q ++ b :: r) = (p ++ 124 :: q) ++ b :: r := by simp
    have hwhole : p ++ 124 :: (q ++ r) = (p ++ 124 :: q) ++ r := by simp
    have hpipe := parseRest_pipe hp (q ++ r) (q ++ b :: r)
    rw [hsplit, parseCommand_insert (hwhole ▸ hnul) (hwhole ▸ hfit) hb, ← hsplit,
      parseCommand_eq hnul (by omega), hpipe]
    by_cases hargc : (cliParseRest (p ++ 124 :: (q ++ r)) ParsedCommand.empty).argc = 0
    · rw [if_pos hargc]
      exact if_pos hargc
    · rw [if_neg hargc]
      exact if_neg hargc
  · intro cmd hcmd word hword c hc
    rw [parseCommand_eq hnul (by omega)] at hcmd
    split_ifs at hcmd
    obtain rfl := Option.some.inj hcmd
    rcases parseLoop_words _ _ _ word hword with hmem | hclean
    · cases hmem
    · simpa [endsToken, and_assoc] using hclean c hc

theorem operators_read_spaced :
    (cliParseCommand (utf8 "ls  > out")).map ParsedCommand.trimmed =
      (cliParseCommand (utf8 "ls > out")).map ParsedCommand.trimmed := by
  have hbetween : Between (108 :: ([115] ++ 32 :: [])) :=
    Between.word rfl rfl (fun c hc => by rw [List.mem_singleton.mp hc]; rfl) rfl Between.nil
  exact ((operators_read (utf8 "ls > out") (by decide) (by decide)).1 _ 62 (utf8 " out") rfl rfl
    hbetween 32 rfl).1

/-- The `>` behind `ls` is lost, and in the text behind a pipe a blank stays. -/
theorem not_operators_read :
    ¬ OperatorsRead (utf8 "ls>out") ∧ ¬ OperatorsRead (utf8 "ls | wc >n") := by
  constructor
  · intro h
    have hread := congrArg (Option.map ParsedCommand.argc)
      (h.1 (utf8 "ls") 62 (utf8 "out") rfl rfl).1
    revert hread
    decide
  · intro h
    have hread := congrArg (Option.map ParsedCommand.pipeTo)
      (h.1 (utf8 "ls | wc ") 62 (utf8 "n") rfl rfl).1
    revert hread
    decide

end VernisOS
