import VernisOS.CliDepth

/-!
# Lists of commands

`cli_process_line` of `kernel/shell/cli.c` splits a line at `;`, `&&` and `||` outside quotes.
A line of two texts with a separator between them splits into the segments of the two
(`split_append`), and the segments run one after the other with the status of the one before
(`runSegments_append`). So a list runs its first text and then its second (`lists_compose`),
where the second begins with a command and the separator is not read as a part of the first.
-/

open Traced Bytes

namespace VernisOS

/-! ## Separators -/

/-- The separators of a text that `cli_process_line` has read up to here. -/
def cliSeparators (inQuote skip : Bool) : List UInt8 → ℕ
  | [] => 0
  | c :: p =>
    if skip then cliSeparators inQuote false p
    else if c = 34 then cliSeparators (!inQuote) false p
    else if inQuote then cliSeparators inQuote false p
    else
      match cliSepAt c p with
      | some (_, two) => 1 + cliSeparators false two p
      | none => cliSeparators inQuote false p

/-- The number of segments of a text. -/
def cliSegmentCount (text : List UInt8) : ℕ :=
  cliSeparators false false text + 1

/-- The characters of a separator. -/
def CliSep.text : CliSep → List UInt8
  | .none => []
  | .seq => [59]
  | .and => [38, 38]
  | .or => [124, 124]

/-- A second character of a separator is there, and is no quote. -/
theorem sepAt_two {c : UInt8} {p : List UInt8} {sep : CliSep}
    (h : cliSepAt c p = some (sep, true)) :
    ∃ d q, p = d :: q ∧ d ≠ 34 := by
  unfold cliSepAt at h
  split_ifs at h with hseq hand hor
  · cases h
  · obtain ⟨d, q, rfl⟩ : ∃ d q, p = d :: q := by
      cases p with
      | nil => simp at hand
      | cons d q => exact ⟨d, q, rfl⟩
    refine ⟨d, q, rfl, ?_⟩
    rintro rfl
    exact absurd hand.2 (by simp)
  · obtain ⟨d, q, rfl⟩ : ∃ d q, p = d :: q := by
      cases p with
      | nil => simp at hor
      | cons d q => exact ⟨d, q, rfl⟩
    refine ⟨d, q, rfl, ?_⟩
    rintro rfl
    exact absurd hor.2 (by simp)

/-- Behind a text that goes on a character is read the same. -/
theorem sepAt_append (c d : UInt8) (p q : List UInt8) :
    cliSepAt c (d :: p ++ q) = cliSepAt c (d :: p) := by
  rfl

/-- A character in front of a separator is read as itself, unless it is the character that the
separator is made of. -/
theorem sepAt_text {sep : CliSep} (hsep : sep ≠ .none) {c : UInt8}
    (hc : sep.text.head? ≠ some c ∨ c = 59) (q : List UInt8) :
    cliSepAt c (sep.text ++ q) = cliSepAt c [] := by
  cases sep with
  | none => exact absurd rfl hsep
  | seq =>
    simp [cliSepAt, CliSep.text]
  | and =>
    have hne : c ≠ 38 := by
      rcases hc with hc | rfl
      · simpa [CliSep.text, eq_comm] using hc
      · decide
    simp [cliSepAt, CliSep.text, hne]
  | or =>
    have hne : c ≠ 124 := by
      rcases hc with hc | rfl
      · simpa [CliSep.text, eq_comm] using hc
      · decide
    simp [cliSepAt, CliSep.text, hne]

/-! ## Segments -/

section Split

variable {inQuote : Bool} {n : ℕ} {pre : CliSep} {seg : List UInt8} {c : UInt8} {p : List UInt8}

theorem split_skip (inQuote : Bool) (n : ℕ) (pre : CliSep) (seg : List UInt8) (c : UInt8)
    (p : List UInt8) :
    cliSplit inQuote true n pre seg (c :: p) = cliSplit inQuote false n pre seg p :=
  rfl

theorem split_quote (inQuote : Bool) (n : ℕ) (pre : CliSep) (seg p : List UInt8) :
    cliSplit inQuote false n pre seg (34 :: p) =
      cliSplit (!inQuote) false n pre (seg ++ [34]) p :=
  rfl

theorem split_quoted (hc : c ≠ 34) (n : ℕ) (pre : CliSep) (seg p : List UInt8) :
    cliSplit true false n pre seg (c :: p) = cliSplit true false n pre (seg ++ [c]) p :=
  if_neg hc

theorem ne_quote_of_sepAt {r : CliSep × Bool} (h : cliSepAt c p = some r) : c ≠ 34 := by
  rintro rfl
  simp [cliSepAt] at h

theorem split_sep {sep : CliSep} {two : Bool} (h : cliSepAt c p = some (sep, two))
    (hn : n < cliMaxSegments) (pre : CliSep) (seg : List UInt8) :
    cliSplit false false n pre seg (c :: p) =
      (pre, seg) :: cliSplit false two (n + 1) sep [] p := by
  refine (if_neg (ne_quote_of_sepAt h)).trans ?_
  rw [if_neg Bool.false_ne_true, h]
  exact if_pos hn

/-- Behind the last segment a separator is text. -/
theorem split_full {sep : CliSep} {two : Bool} (h : cliSepAt c p = some (sep, two))
    (hn : ¬ n < cliMaxSegments) (pre : CliSep) (seg : List UInt8) :
    cliSplit false false n pre seg (c :: p) = [(pre, seg ++ c :: p)] := by
  refine (if_neg (ne_quote_of_sepAt h)).trans ?_
  rw [if_neg Bool.false_ne_true, h]
  exact if_neg hn

theorem split_char (hc : c ≠ 34) (h : cliSepAt c p = none) (n : ℕ) (pre : CliSep)
    (seg : List UInt8) :
    cliSplit false false n pre seg (c :: p) = cliSplit false false n pre (seg ++ [c]) p := by
  refine (if_neg hc).trans ?_
  rw [if_neg Bool.false_ne_true, h]

theorem separators_skip (inQuote : Bool) (c : UInt8) (p : List UInt8) :
    cliSeparators inQuote true (c :: p) = cliSeparators inQuote false p :=
  rfl

theorem separators_quote (inQuote : Bool) (p : List UInt8) :
    cliSeparators inQuote false (34 :: p) = cliSeparators (!inQuote) false p :=
  rfl

theorem separators_quoted (hc : c ≠ 34) (p : List UInt8) :
    cliSeparators true false (c :: p) = cliSeparators true false p :=
  if_neg hc

theorem separators_sep {sep : CliSep} {two : Bool} (h : cliSepAt c p = some (sep, two)) :
    cliSeparators false false (c :: p) = 1 + cliSeparators false two p := by
  refine (if_neg (ne_quote_of_sepAt h)).trans ?_
  rw [if_neg Bool.false_ne_true, h]

theorem separators_char (hc : c ≠ 34) (h : cliSepAt c p = none) :
    cliSeparators false false (c :: p) = cliSeparators false false p := by
  refine (if_neg hc).trans ?_
  rw [if_neg Bool.false_ne_true, h]

end Split

/-- A separator where no quote is open. -/
theorem split_text {sep : CliSep} (hsep : sep ≠ .none) {n : ℕ} (hn : n < cliMaxSegments)
    (pre : CliSep) (seg q : List UInt8) :
    cliSplit false false n pre seg (sep.text ++ q) =
      (pre, seg) :: cliSplit false false (n + 1) sep [] q := by
  cases sep with
  | none => exact absurd rfl hsep
  | seq => exact split_sep rfl hn pre seg
  | and => exact (split_sep rfl hn pre seg).trans (congrArg _ (split_skip _ _ _ _ _ _))
  | or => exact (split_sep rfl hn pre seg).trans (congrArg _ (split_skip _ _ _ _ _ _))

/-- The last segment. -/
def lastSegment (segs : List (CliSep × List UInt8)) : List UInt8 :=
  (segs.getLast?.map Prod.snd).getD []

/-- Only the first segment has to do with the separator in front of the text. -/
theorem split_pre (p : List UInt8) : ∀ (inQuote skip : Bool) (n : ℕ) (seg : List UInt8),
    ∃ first rest, ∀ pre, cliSplit inQuote skip n pre seg p = (pre, first) :: rest := by
  induction p with
  | nil => exact fun _ _ _ seg => ⟨seg, [], fun _ => rfl⟩
  | cons c p ih =>
    intro inQuote skip n seg
    cases skip with
    | true => simpa only [split_skip] using ih inQuote false n seg
    | false =>
      by_cases hc : c = 34
      · subst hc
        simpa only [split_quote] using ih (!inQuote) false n (seg ++ [34])
      cases inQuote with
      | true => simpa only [split_quoted hc] using ih true false n (seg ++ [c])
      | false =>
        cases hsep : cliSepAt c p with
        | none => simpa only [split_char hc hsep] using ih false false n (seg ++ [c])
        | some r =>
          by_cases hn : n < cliMaxSegments
          · exact ⟨seg, _, fun pre => split_sep hsep hn pre seg⟩
          · exact ⟨seg ++ c :: p, [], fun pre => split_full hsep hn pre seg⟩

theorem lastSegment_split_sep {c : UInt8} {p : List UInt8} {sep : CliSep} {two : Bool} (n : ℕ)
    (pre : CliSep) (seg : List UInt8) (h : cliSepAt c p = some (sep, two))
    (hn : n < cliMaxSegments) :
    lastSegment (cliSplit false false n pre seg (c :: p)) =
      lastSegment (cliSplit false two (n + 1) sep [] p) := by
  obtain ⟨first, rest, hsplit⟩ := split_pre p false two (n + 1) []
  rw [split_sep h hn, hsplit]
  rfl

/-- As long as there is room for all segments it does not matter how many came before. -/
theorem split_count (p : List UInt8) : ∀ (inQuote skip : Bool) (n m : ℕ) (pre : CliSep)
    (seg : List UInt8), n + cliSeparators inQuote skip p ≤ cliMaxSegments →
    m + cliSeparators inQuote skip p ≤ cliMaxSegments →
    cliSplit inQuote skip n pre seg p = cliSplit inQuote skip m pre seg p := by
  induction p with
  | nil => exact fun _ _ _ _ _ _ _ _ => rfl
  | cons c p ih =>
    intro inQuote skip n m pre seg hn hm
    cases skip with
    | true =>
      rw [separators_skip] at hn hm
      rw [split_skip, split_skip]
      exact ih inQuote false n m pre seg hn hm
    | false =>
      by_cases hc : c = 34
      · subst hc
        rw [separators_quote] at hn hm
        rw [split_quote, split_quote]
        exact ih _ false n m pre _ hn hm
      cases inQuote with
      | true =>
        rw [separators_quoted hc] at hn hm
        rw [split_quoted hc, split_quoted hc]
        exact ih true false n m pre _ hn hm
      | false =>
        cases hsep : cliSepAt c p with
        | none =>
          rw [separators_char hc hsep] at hn hm
          rw [split_char hc hsep, split_char hc hsep]
          exact ih false false n m pre _ hn hm
        | some r =>
          obtain ⟨sep, two⟩ := r
          rw [separators_sep hsep] at hn hm
          rw [split_sep hsep (by omega), split_sep hsep (by omega),
            ih false two (n + 1) (m + 1) sep [] (by omega) (by omega)]

/-- The segments of a text with a separator and another text behind it. -/
theorem split_append {sep : CliSep} (hsep : sep ≠ .none) (q p : List UInt8) :
    ∀ (inQuote skip : Bool) (n : ℕ) (pre : CliSep) (seg : List UInt8),
    (skip = true → ∃ d r, p = d :: r ∧ d ≠ 34) → p.count 34 % 2 = (if inQuote then 1 else 0) →
    n + cliSeparators inQuote skip p < cliMaxSegments →
    (sep = .seq ∨ (lastSegment (cliSplit inQuote skip n pre seg p)).getLast? ≠ sep.text.head?) →
    cliSplit inQuote skip n pre seg (p ++ (sep.text ++ q)) =
      cliSplit inQuote skip n pre seg p ++
        cliSplit false false (n + cliSeparators inQuote skip p + 1) sep [] q := by
  induction p with
  | nil =>
    intro inQuote skip n pre seg hskip hquote hn _
    have hskip : skip = false := by
      cases skip with
      | false => rfl
      | true =>
        obtain ⟨d, r, h, -⟩ := hskip rfl
        cases h
    have hquote : inQuote = false := by
      cases inQuote with
      | false => rfl
      | true => simp at hquote
    rw [hskip, hquote, List.nil_append,
      split_text hsep (Nat.lt_of_le_of_lt (Nat.le_add_right _ _) hn)]
    rfl
  | cons c p ih =>
    intro inQuote skip n pre seg hskip hquote hn hend
    rw [List.cons_append]
    cases skip with
    | true =>
      obtain ⟨d, r, h, hd⟩ := hskip rfl
      obtain ⟨rfl, rfl⟩ := List.cons.inj h
      rw [List.count_cons_of_ne hd] at hquote
      rw [split_skip] at hend
      rw [separators_skip] at hn
      rw [split_skip, split_skip, separators_skip]
      exact ih inQuote false n pre seg nofun hquote hn hend
    | false =>
      by_cases hc : c = 34
      · subst hc
        rw [split_quote] at hend
        rw [separators_quote] at hn
        rw [List.count_cons_self] at hquote
        rw [split_quote, split_quote, separators_quote]
        refine ih _ false n pre _ nofun ?_ hn hend
        cases inQuote <;> simp at hquote ⊢ <;> omega
      rw [List.count_cons_of_ne hc] at hquote
      cases inQuote with
      | true =>
        rw [split_quoted hc] at hend
        rw [separators_quoted hc] at hn
        rw [split_quoted hc, split_quoted hc, separators_quoted hc]
        exact ih true false n pre _ nofun hquote hn hend
      | false =>
        have hsame : cliSepAt c (p ++ (sep.text ++ q)) = cliSepAt c p := by
          cases p with
          | nil =>
            refine sepAt_text hsep ?_ q
            by_cases h59 : c = 59
            · exact Or.inr h59
            have hplain : cliSepAt c [] = none := by simp [cliSepAt, h59]
            refine Or.inl ?_
            rcases hend with rfl | hend
            · exact fun h => h59 (Option.some.inj h).symm
            · rw [split_char hc hplain] at hend
              intro h
              exact hend (h ▸ List.getLast?_concat)
          | cons d p => exact sepAt_append c d p _
        cases hsepAt : cliSepAt c p with
        | none =>
          rw [split_char hc hsepAt] at hend
          rw [separators_char hc hsepAt] at hn
          rw [split_char hc (hsame.trans hsepAt), split_char hc hsepAt, separators_char hc hsepAt]
          exact ih false false n pre _ nofun hquote hn hend
        | some r =>
          obtain ⟨sep', two⟩ := r
          rw [separators_sep hsepAt] at hn
          have hroom : n < cliMaxSegments := by omega
          rw [lastSegment_split_sep n pre seg hsepAt hroom] at hend
          rw [split_sep (hsame.trans hsepAt) hroom, split_sep hsepAt hroom, separators_sep hsepAt,
            List.cons_append, ← Nat.add_assoc n 1]
          refine congrArg _ (ih false two (n + 1) sep' [] ?_ hquote (by omega) hend)
          rintro rfl
          exact sepAt_two hsepAt

/-! ## Lines -/

/-- The quotes of a text are balanced. -/
def Balanced (text : List UInt8) : Prop :=
  text.count 34 % 2 = 0

/-- A text that is copied whole. -/
theorem cliSegments_eq {text : List UInt8} (hnul : 0 ∉ text) (hfit : text.length < cliMaxInputLen) :
    cliSegments text = cliSplit false false 1 .none [] text := by
  have hwhole : text.take (cliMaxInputLen - 1) = text :=
    List.take_of_length_le (Nat.le_pred_of_lt hfit)
  rw [cliSegments, cStr_cliStrcpy_zero text (by decide), cStr_eq_self hnul, hwhole]

/-- The segments of `a`, a separator and `b`. -/
theorem segments_list {a b : List UInt8} {sep : CliSep} (hsep : sep ≠ .none)
    (hnul : 0 ∉ a) (hnul' : 0 ∉ b) (hquotes : Balanced a)
    (hfit : (a ++ sep.text ++ b).length < cliMaxInputLen)
    (hcount : cliSegmentCount a + cliSegmentCount b ≤ cliMaxSegments)
    (hend : sep = .seq ∨ (lastSegment (cliSegments a)).getLast? ≠ sep.text.head?) :
    ∃ first rest, cliSegments b = (.none, first) :: rest ∧
      cliSegments (a ++ sep.text ++ b) = cliSegments a ++ (sep, first) :: rest := by
  have hlen : a.length < cliMaxInputLen ∧ b.length < cliMaxInputLen := by
    simp only [List.length_append] at hfit
    omega
  have hnul'' : 0 ∉ a ++ sep.text ++ b := by
    simp only [List.mem_append, not_or]
    exact ⟨⟨hnul, by cases sep <;> decide⟩, hnul'⟩
  unfold cliSegmentCount at hcount
  rw [cliSegments_eq hnul hlen.1] at hend ⊢
  rw [cliSegments_eq hnul' hlen.2, cliSegments_eq hnul'' hfit, List.append_assoc,
    split_append hsep b a false false 1 .none [] nofun hquotes (by omega) hend,
    split_count b false false (1 + cliSeparators false false a + 1) 1 sep [] (by omega) (by omega)]
  obtain ⟨first, rest, hsplit⟩ := split_pre b false false 1 []
  exact ⟨first, rest, hsplit .none, by rw [hsplit sep]⟩

/-! ## Running segments -/

section Run

variable {env : CliEnv}

theorem runSegments_cons (env : CliEnv) (status : Int) (sep : CliSep) (seg : List UInt8)
    (rest : List (CliSep × List UInt8)) :
    cliRunSegments env status ((sep, seg) :: rest) =
      if seg.dropWhile isBlank = [] then cliRunSegments env status rest
      else if sep = .and ∧ status ≠ cliOk then cliRunSegments env status rest
      else if sep = .or ∧ status = cliOk then cliRunSegments env status rest
      else cliProcessSingle env (seg.dropWhile isBlank) >>= fun status =>
        cliRunSegments env status rest :=
  rfl

theorem runSegments_append (env : CliEnv) (segs segs' : List (CliSep × List UInt8)) :
    ∀ (status : Int) (s : Shell), cliRunSegments env status (segs ++ segs') s =
      (cliRunSegments env status segs >>= fun status => cliRunSegments env status segs') s := by
  induction segs with
  | nil =>
    intro status s
    exact (Traced.pure_bind status (fun status => cliRunSegments env status segs') s).symm
  | cons seg segs ih =>
    intro status s
    obtain ⟨sep, seg⟩ := seg
    rw [List.cons_append, runSegments_cons, runSegments_cons]
    split_ifs
    · exact ih status s
    · exact ih status s
    · exact ih status s
    · rw [Traced.bind_assoc]
      exact Traced.bind_congr fun status' _ => ih status' _

/-- The first segment that is not blank is there, and is not behind `&&` or `||`. -/
def cliLeads : List (CliSep × List UInt8) → Bool
  | [] => false
  | (sep, seg) :: rest =>
    if seg.dropWhile isBlank = [] then cliLeads rest else sep ≠ .and && sep ≠ .or

/-- Segments that begin with a command do not depend on the status before. -/
theorem runSegments_leads (env : CliEnv) {segs : List (CliSep × List UInt8)}
    (h : cliLeads segs = true) (status status' : Int) :
    cliRunSegments env status segs = cliRunSegments env status' segs := by
  induction segs with
  | nil => cases h
  | cons seg segs ih =>
    obtain ⟨sep, seg⟩ := seg
    unfold cliLeads at h
    rw [runSegments_cons, runSegments_cons]
    by_cases hblank : seg.dropWhile isBlank = []
    · rw [if_pos hblank] at h
      rw [if_pos hblank, if_pos hblank]
      exact ih h
    · rw [if_neg hblank, Bool.and_eq_true, decide_eq_true_eq, decide_eq_true_eq] at h
      rw [if_neg hblank, if_neg hblank, if_neg (not_and_of_not_left _ h.1),
        if_neg (not_and_of_not_left _ h.2), if_neg (not_and_of_not_left _ h.1),
        if_neg (not_and_of_not_left _ h.2)]

/-- A first segment behind `;` runs as one with nothing in front of it. -/
theorem runSegments_seq (env : CliEnv) (status : Int) (seg : List UInt8)
    (rest : List (CliSep × List UInt8)) :
    cliRunSegments env status ((.seq, seg) :: rest) =
      cliRunSegments env status ((.none, seg) :: rest) := by
  simp [cliRunSegments]

/-- The line that stops the `ps` monitor. -/
def cliQuits (line : List UInt8) : Bool :=
  ([[113], [81]] : List (List UInt8)).contains ((cStr line).dropWhile isBlank)

/-- A line that does not stop the monitor runs its segments. -/
theorem processLine_eq {s : Shell} {line : List UInt8}
    (h : s.psGuiLive = false ∨ cliQuits line = false) :
    cliProcessLine env line s = cliRunSegments env cliOk (cliSegments line) s := by
  rw [cliProcessLine, state_bind, if_neg]
  rcases h with h | h
  · rw [h, Bool.false_and]
    exact Bool.false_ne_true
  · rw [cliQuits] at h
    rw [h, Bool.and_false]
    exact Bool.false_ne_true

end Run

/-! ## Lists of commands -/

/-- The second text is one command. -/
def SingleCommand (text : List UInt8) : Prop :=
  cliSegmentCount text = 1 ∧ text.dropWhile isBlank ≠ []

theorem segments_single {b : List UInt8} (hnul : 0 ∉ b) (hfit : b.length < cliMaxInputLen)
    (hsingle : SingleCommand b) : cliSegments b = [(.none, b)] := by
  have hnone : ∀ (p : List UInt8) (inQuote skip : Bool) (seg : List UInt8),
      (skip = true → False) → cliSeparators inQuote skip p = 0 →
      cliSplit inQuote skip 1 .none seg p = [(.none, seg ++ p)] := by
    intro p
    induction p with
    | nil =>
      intro inQuote skip seg _ _
      rw [List.append_nil]
      rfl
    | cons c p ih =>
      intro inQuote skip seg hskip hcount
      obtain rfl : skip = false := Bool.eq_false_of_not_eq_true hskip
      have happ : seg ++ c :: p = (seg ++ [c]) ++ p := by simp
      rw [happ]
      by_cases hc : c = 34
      · subst hc
        rw [separators_quote] at hcount
        rw [split_quote]
        exact ih _ false _ nofun hcount
      cases inQuote with
      | true =>
        rw [separators_quoted hc] at hcount
        rw [split_quoted hc]
        exact ih true false _ nofun hcount
      | false =>
        cases hsep : cliSepAt c p with
        | none =>
          rw [separators_char hc hsep] at hcount
          rw [split_char hc hsep]
          exact ih false false _ nofun hcount
        | some r =>
          obtain ⟨sep, two⟩ := r
          rw [separators_sep hsep] at hcount
          omega
  rw [cliSegments_eq hnul hfit]
  exact hnone b false false [] nofun (Nat.succ_injective hsingle.1)

/-- The law of lists as it stands : `a;b` runs `a` and then `b`, and `a&&b`, `a||b` run a single
`b` behind `a` by its status. -/
def ListsCompose (env : CliEnv) (a b : List UInt8) (s : Shell) : Prop :=
  cliProcessLine env (a ++ CliSep.seq.text ++ b) s =
    (cliProcessLine env a >>= fun _ => cliProcessLine env b) s ∧
  (SingleCommand b →
    cliProcessLine env (a ++ CliSep.and.text ++ b) s =
      (cliProcessLine env a >>= fun status =>
        if status = cliOk then cliProcessLine env b else pure status) s ∧
    cliProcessLine env (a ++ CliSep.or.text ++ b) s =
      (cliProcessLine env a >>= fun status =>
        if status = cliOk then pure status else cliProcessLine env b) s)

section Lists

variable {env : CliEnv} {a b : List UInt8} {s : Shell}

/-- `a;b`. -/
theorem list_seq (hnul : 0 ∉ a) (hnul' : 0 ∉ b) (hquotes : Balanced a)
    (hfit : (a ++ CliSep.seq.text ++ b).length < cliMaxInputLen)
    (hcount : cliSegmentCount a + cliSegmentCount b ≤ cliMaxSegments) (hlive : s.psGuiLive = false)
    (hbehind : ∀ status, (cliProcessLine env a s).value = some status →
      ((cliProcessLine env a s).state.psGuiLive = false ∨ cliQuits b = false) ∧
      (status = cliOk ∨ cliLeads (cliSegments b) = true)) :
    cliProcessLine env (a ++ CliSep.seq.text ++ b) s =
      (cliProcessLine env a >>= fun _ => cliProcessLine env b) s := by
  obtain ⟨first, rest, hb, hlist⟩ :=
    segments_list (by decide) hnul hnul' hquotes hfit hcount (Or.inl rfl)
  have ha : cliProcessLine env a s = cliRunSegments env cliOk (cliSegments a) s :=
    processLine_eq (Or.inl hlive)
  rw [processLine_eq (Or.inl hlive), hlist, runSegments_append, ← Traced.bind_congr_left ha]
  refine Traced.bind_congr fun status hstatus => ?_
  obtain ⟨hquit, hleads⟩ := hbehind status hstatus
  rw [processLine_eq hquit, hb, runSegments_seq]
  rcases hleads with rfl | hleads
  · rfl
  · rw [hb] at hleads
    rw [runSegments_leads env hleads status cliOk]

/-- `a&&b` and `a||b`, with a single command behind the separator. -/
theorem list_single {sep : CliSep} (hsep : sep ≠ .none) (hnul : 0 ∉ a) (hnul' : 0 ∉ b)
    (hquotes : Balanced a) (hfit : (a ++ sep.text ++ b).length < cliMaxInputLen)
    (hcount : cliSegmentCount a + cliSegmentCount b ≤ cliMaxSegments) (hlive : s.psGuiLive = false)
    (hsingle : SingleCommand b)
    (hend : (lastSegment (cliSegments a)).getLast? ≠ sep.text.head?)
    (hbehind : ∀ status, (cliProcessLine env a s).value = some status →
      ((cliProcessLine env a s).state.psGuiLive = false ∨ cliQuits b = false)) :
    cliProcessLine env (a ++ sep.text ++ b) s =
      (cliProcessLine env a >>= fun status =>
        if sep = .and ∧ status ≠ cliOk then pure status
        else if sep = .or ∧ status = cliOk then pure status
        else cliProcessLine env b) s := by
  obtain ⟨first, rest, hb, hlist⟩ :=
    segments_list hsep hnul hnul' hquotes hfit hcount (Or.inr hend)
  have hlen : b.length < cliMaxInputLen := by
    simp only [List.length_append] at hfit
    omega
  have hone := segments_single hnul' hlen hsingle
  have ha : cliProcessLine env a s = cliRunSegments env cliOk (cliSegments a) s :=
    processLine_eq (Or.inl hlive)
  rw [processLine_eq (Or.inl hlive), hlist, runSegments_append, ← Traced.bind_congr_left ha]
  refine Traced.bind_congr fun status hstatus => ?_
  rw [hb] at hone
  obtain ⟨hfirst, rfl⟩ := List.cons.inj hone
  obtain rfl := (Prod.mk.inj hfirst).2
  rw [runSegments_cons, if_neg hsingle.2]
  split_ifs
  · rfl
  · rfl
  · rw [processLine_eq (hbehind status hstatus), hb, runSegments_cons, if_neg hsingle.2,
      if_neg (by simp), if_neg (by simp)]

end Lists

/-- Lists compose, as long as the monitor is not started in front of its stop line : `a;b` where
`a` ends with `CLI_OK` or `b` begins with a command that is not behind `&&` or `||`, `a&&b` and
`a||b` where the last segment of `a` does not end with the character of the separator. -/
theorem lists_compose (env : CliEnv) {a b : List UInt8} {s : Shell} (hnul : 0 ∉ a) (hnul' : 0 ∉ b)
    (hquotes : Balanced a) (hcount : cliSegmentCount a + cliSegmentCount b ≤ cliMaxSegments)
    (hlive : s.psGuiLive = false)
    (hquit : ∀ status, (cliProcessLine env a s).value = some status →
      (cliProcessLine env a s).state.psGuiLive = false ∨ cliQuits b = false) :
    ((a ++ CliSep.seq.text ++ b).length < cliMaxInputLen →
      (∀ status, (cliProcessLine env a s).value = some status →
        status = cliOk ∨ cliLeads (cliSegments b) = true) →
      cliProcessLine env (a ++ CliSep.seq.text ++ b) s =
        (cliProcessLine env a >>= fun _ => cliProcessLine env b) s) ∧
    (SingleCommand b → (a ++ CliSep.and.text ++ b).length < cliMaxInputLen →
      ((lastSegment (cliSegments a)).getLast? ≠ CliSep.and.text.head? →
        cliProcessLine env (a ++ CliSep.and.text ++ b) s =
          (cliProcessLine env a >>= fun status =>
            if status = cliOk then cliProcessLine env b else pure status) s) ∧
      ((lastSegment (cliSegments a)).getLast? ≠ CliSep.or.text.head? →
        cliProcessLine env (a ++ CliSep.or.text ++ b) s =
          (cliProcessLine env a >>= fun status =>
            if status = cliOk then pure status else cliProcessLine env b) s)) := by
  refine ⟨fun hfit hleads => ?_, fun hsingle hfit => ⟨fun hend => ?_, fun hend => ?_⟩⟩
  · exact list_seq hnul hnul' hquotes hfit hcount hlive fun status hstatus =>
      ⟨hquit status hstatus, hleads status hstatus⟩
  · rw [list_single (by decide) hnul hnul' hquotes hfit hcount hlive hsingle hend hquit]
    refine Traced.bind_congr fun status _ => ?_
    by_cases hok : status = cliOk <;> simp [hok]
  · have hfit' : (a ++ CliSep.or.text ++ b).length < cliMaxInputLen := by
      simpa only [CliSep.text, List.length_append, List.length_cons] using hfit
    rw [list_single (by decide) hnul hnul' hquotes hfit' hcount hlive hsingle hend hquit]
    refine Traced.bind_congr fun status _ => ?_
    by_cases hok : status = cliOk <;> simp [hok]

theorem lists_compose_x :
    cliProcessLine bareEnv (utf8 "x" ++ CliSep.seq.text ++ utf8 "ver")
        (newShell ⟨[], true, by decide⟩ 1 (utf8 "ann") cliPrivUser) =
      (cliProcessLine bareEnv (utf8 "x") >>= fun _ => cliProcessLine bareEnv (utf8 "ver"))
        (newShell ⟨[], true, by decide⟩ 1 (utf8 "ann") cliPrivUser) :=
  (lists_compose bareEnv (by decide) (by decide) (rfl : Balanced (utf8 "x")) (by decide) rfl
    fun _ _ => Or.inr (by decide)).1 (by decide) fun _ _ => Or.inr (by decide)

/-- `x;||x` with an unknown command `x` : the second runs behind the first, which failed, but
not alone. -/
theorem not_lists_compose :
    ¬ ∀ env a b s, 0 ∉ a → 0 ∉ b → a.dropWhile isBlank ≠ [] → b.dropWhile isBlank ≠ [] →
      Balanced a → Balanced b → (a ++ CliSep.seq.text ++ b).length < cliMaxInputLen →
      cliSegmentCount a + cliSegmentCount b ≤ cliMaxSegments → s.psGuiLive = false →
        ListsCompose env a b s := by
  intro h
  have hlist := (h bareEnv (utf8 "x") (utf8 "||x")
    (newShell ⟨[], true, by decide⟩ 1 (utf8 "ann") cliPrivUser) (by decide) (by decide) (by decide)
    (by decide) rfl rfl (by decide) (by decide) rfl).1
  have hvalue := congrArg Outcome.value hlist
  revert hvalue
  decide

end VernisOS
