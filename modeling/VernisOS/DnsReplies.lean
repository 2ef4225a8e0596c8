import VernisOS.Dns

/-!
# DNS replies

The loops of `dns_resolve` over a datagram end and read only its bytes, whatever they are. From a
well-formed response they take the address in the first record of type A. `Hops` says that
`dns_skip_name` comes from one offset to another over whole labels : that is how it crosses the
names of a response and the name that the query was built for (`dns_parsing`).
-/

open Bytes Loop

namespace VernisOS

/-! ## Every datagram -/

section Bounds

variable {pkt : ℕ → UInt8} {len : ℕ}

theorem stable_dnsSkipTurn (o : ℕ) : Stable fun _ => dnsSkipTurn pkt len o :=
  stable_const _

theorem stable_dnsSkipName (o : ℕ) : Stable fun n => dnsSkipName pkt len n o :=
  stable_run stable_dnsSkipTurn o

theorem dnsSkipTurn_ok (o : ℕ) :
    TurnOk (fun _ => dnsSkipTurn pkt len) (fun _ => True) (· < len)
      (fun r => ∀ o', r = some o' → 0 < o') (fun o => len - o) o := by
  unfold TurnOk dnsSkipTurn
  by_cases hlt : o < len
  · have hreads : ∀ k ∈ [o], k < len := by simpa using hlt
    simp only [if_pos hlt]
    by_cases hzero : pkt o = 0
    · simp only [if_pos hzero]
      refine ⟨_, _, .reads fun _ => rfl, hreads, fun s' hs' => absurd hs' (by simp), ?_⟩
      rintro _ ⟨⟩ _ ⟨⟩
      exact o.succ_pos
    simp only [if_neg hzero]
    by_cases hptr : pkt o &&& 0xC0 = 0xC0
    · simp only [if_pos hptr]
      refine ⟨_, _, .reads fun _ => rfl, hreads, fun s' hs' => absurd hs' (by simp), ?_⟩
      rintro _ ⟨⟩ _ ⟨⟩
      omega
    · simp only [if_neg hptr]
      refine ⟨_, _, .reads fun _ => rfl, hreads, ?_, fun r hr => absurd hr (by simp)⟩
      rintro _ ⟨⟩
      exact ⟨trivial, by omega⟩
  · simp only [if_neg hlt]
    refine ⟨_, _, .reads fun _ => rfl, by simp, fun s' hs' => absurd hs' (by simp), ?_⟩
    rintro _ ⟨⟩ _ ⟨⟩

/-- `dns_skip_name` ends, and reads inside the message. -/
theorem dnsSkipName_ends (pkt : ℕ → UInt8) (len o : ℕ) :
    ∃ log r, Ends (fun n => dnsSkipName pkt len n o) log r ∧ (∀ k ∈ log, k < len) ∧
      ∀ o', r = some o' → 0 < o' :=
  ends_of_measure stable_dnsSkipTurn _ (fun s _ => dnsSkipTurn_ok s) o trivial

theorem stable_dnsQuestionTurn (qd : ℕ) (s : ℕ × Option ℕ) :
    Stable fun n => dnsQuestionTurn pkt len qd n s := by
  obtain ⟨q, _ | off⟩ := s
  · exact stable_const _
  · unfold dnsQuestionTurn
    by_cases h : q < qd ∧ 0 < off
    · simp only [if_pos h]
      exact (stable_dnsSkipName off).bind fun _ => stable_const _
    · simp only [if_neg h]
      exact stable_const _

theorem dnsQuestionTurn_ok (qd : ℕ) (s : ℕ × Option ℕ) :
    TurnOk (dnsQuestionTurn pkt len qd) (fun _ => True) (· < len) (fun _ => True)
      (fun s => qd - s.1) s := by
  unfold TurnOk
  obtain ⟨q, _ | off⟩ := s
  · exact ⟨_, _, .reads fun _ => rfl, by simp, fun s' hs' => absurd hs' (by simp), fun _ _ => trivial⟩
  unfold dnsQuestionTurn
  by_cases h : q < qd ∧ 0 < off
  · simp only [if_pos h]
    obtain ⟨log, r, hends, hlog, _⟩ := dnsSkipName_ends pkt len off
    refine ⟨log ++ [], _, hends.bind_reads rfl, by simpa using hlog, ?_, fun _ _ => trivial⟩
    rintro _ ⟨⟩
    exact ⟨trivial, by dsimp only; omega⟩
  · simp only [if_neg h]
    exact ⟨_, _, .reads fun _ => rfl, by simp, fun s' hs' => absurd hs' (by simp), fun _ _ => trivial⟩

/-- What the answer loop does behind the name of a record. -/
def dnsRecordTurn (pkt : ℕ → UInt8) (len a : ℕ) (off : Option ℕ) :
    Logged ℕ ((ℕ × ℕ) ⊕ Option UInt32) :=
  match off with
  | none => reads [] (.inr none)
  | some off =>
    if len < off + 10 then reads [] (.inr none)
    else
      bind (reads [off, off + 1, off + 8, off + 9] ()) fun _ =>
        if be16At pkt off = 1 ∧ be16At pkt (off + 8) = 4 ∧ off + 10 + 4 ≤ len then
          reads (four (off + 10)) (.inr (some (be32At pkt (off + 10))))
        else reads [] (.inl (a + 1, off + 10 + (be16At pkt (off + 8)).toNat))

theorem dnsAnswerTurn_eq {an a off n : ℕ} (h : a < an ∧ 0 < off ∧ off + 10 ≤ len) :
    dnsAnswerTurn pkt len an n (a, off) =
      bind (dnsSkipName pkt len n off) (dnsRecordTurn pkt len a) := by
  rw [dnsAnswerTurn, if_pos h]
  rfl

theorem dnsAnswerTurn_done {an a off n : ℕ} (h : ¬ (a < an ∧ 0 < off ∧ off + 10 ≤ len)) :
    dnsAnswerTurn pkt len an n (a, off) = reads [] (.inr none) := by
  rw [dnsAnswerTurn, if_neg h]

theorem stable_dnsAnswerTurn (an : ℕ) (s : ℕ × ℕ) :
    Stable fun n => dnsAnswerTurn pkt len an n s := by
  obtain ⟨a, off⟩ := s
  by_cases h : a < an ∧ 0 < off ∧ off + 10 ≤ len
  · simp only [dnsAnswerTurn_eq h]
    exact (stable_dnsSkipName off).bind fun _ => stable_const _
  · simp only [dnsAnswerTurn_done h]
    exact stable_const _

/-- A record is read inside the message. -/
theorem dnsRecordTurn_ok (a : ℕ) (off : Option ℕ) :
    ∃ log next, dnsRecordTurn pkt len a off = reads log next ∧ (∀ k ∈ log, k < len) ∧
      ∀ s', next = .inl s' → s'.1 = a + 1 := by
  unfold dnsRecordTurn
  cases off with
  | none => exact ⟨[], _, rfl, by simp, fun s' hs' => absurd hs' (by simp)⟩
  | some off =>
    by_cases hlen : len < off + 10
    · simp only [if_pos hlen]
      exact ⟨[], _, rfl, by simp, fun s' hs' => absurd hs' (by simp)⟩
    simp only [if_neg hlen, bind_reads]
    by_cases h : be16At pkt off = 1 ∧ be16At pkt (off + 8) = 4 ∧ off + 10 + 4 ≤ len
    · simp only [if_pos h]
      refine ⟨_, _, rfl, fun k hk => ?_, fun s' hs' => absurd hs' (by simp)⟩
      simp only [reads_fst, four, List.mem_append, List.mem_cons, List.not_mem_nil, or_false] at hk
      omega
    · simp only [if_neg h]
      refine ⟨_, _, rfl, fun k hk => ?_, ?_⟩
      · simp only [reads_fst, List.append_nil, List.mem_cons, List.not_mem_nil, or_false] at hk
        omega
      · rintro _ ⟨⟩
        rfl

theorem dnsAnswerTurn_ok (an : ℕ) (s : ℕ × ℕ) :
    TurnOk (dnsAnswerTurn pkt len an) (fun _ => True) (· < len) (fun _ => True)
      (fun s => an - s.1) s := by
  unfold TurnOk
  obtain ⟨a, off⟩ := s
  by_cases h : a < an ∧ 0 < off ∧ off + 10 ≤ len
  · simp only [dnsAnswerTurn_eq h]
    obtain ⟨log, r, hends, hlog, _⟩ := dnsSkipName_ends pkt len off
    obtain ⟨log', next, hrec, hlog', hnext⟩ := @dnsRecordTurn_ok pkt len a r
    refine ⟨log ++ log', next, hends.bind_reads hrec,
      fun k hk => (List.mem_append.mp hk).elim (hlog k) (hlog' k), fun s' hs' => ?_,
      fun _ _ => trivial⟩
    have hs := hnext s' hs'
    refine ⟨trivial, ?_⟩
    change an - s'.1 < an - a
    omega
  · simp only [dnsAnswerTurn_done h]
    exact ⟨_, _, .reads fun _ => rfl, by simp, fun s' hs' => absurd hs' (by simp), fun _ _ => trivial⟩

/-- The question loop ends, and reads inside the message. -/
theorem dnsQuestions_ends (pkt : ℕ → UInt8) (len qd : ℕ) (s : ℕ × Option ℕ) :
    ∃ log r, Ends (fun n => run (dnsQuestionTurn pkt len qd n) n s) log r ∧ ∀ k ∈ log, k < len := by
  obtain ⟨log, r, hends, hlog, _⟩ :=
    ends_of_measure (stable_dnsQuestionTurn qd) _ (fun s _ => dnsQuestionTurn_ok qd s) s trivial
  exact ⟨log, r, hends, hlog⟩

/-- The answer loop ends, and reads inside the message. -/
theorem dnsAnswers_ends (pkt : ℕ → UInt8) (len an : ℕ) (s : ℕ × ℕ) :
    ∃ log r, Ends (fun n => run (dnsAnswerTurn pkt len an n) n s) log r ∧ ∀ k ∈ log, k < len := by
  obtain ⟨log, r, hends, hlog, _⟩ :=
    ends_of_measure (stable_dnsAnswerTurn an) _ (fun s _ => dnsAnswerTurn_ok an s) s trivial
  exact ⟨log, r, hends, hlog⟩

/-- The two loops over a reply. -/
def dnsLoops (pkt : ℕ → UInt8) (len qd an n : ℕ) : Logged ℕ (Option (Option UInt32)) :=
  bind (run (dnsQuestionTurn pkt len qd n) n (0, some 12)) fun off =>
    match off with
    | none => reads [] (some none)
    | some off =>
      bind (run (dnsAnswerTurn pkt len an n) n (0, off)) fun ip => reads [] (some ip)

theorem dnsReply_eq {qid : UInt16} (hlen : 12 < len) (h₀ : pkt 0 = (qid >>> 8).toUInt8)
    (h₁ : pkt 1 = qid.toUInt8) (n : ℕ) :
    dnsReply pkt len qid n = bind (reads [0, 1, 4, 5, 6, 7] ()) fun _ =>
      dnsLoops pkt len (be16At pkt 4).toNat (be16At pkt 6).toNat n := by
  rw [dnsReply, if_neg (by omega), if_neg (not_not.mpr h₀), if_neg (not_not.mpr h₁)]
  rfl

/-- The loops over a reply do what each of them does. -/
theorem dnsLoops_ends {qd an off : ℕ} {log log' : List ℕ} {ip : Option UInt32}
    (hq : Ends (fun n => run (dnsQuestionTurn pkt len qd n) n (0, some 12)) log (some off))
    (ha : Ends (fun n => run (dnsAnswerTurn pkt len an n) n (0, off)) log' ip) :
    Ends (dnsLoops pkt len qd an) (log ++ log') (some ip) := by
  obtain ⟨n, hn⟩ := hq
  obtain ⟨m, hm⟩ := ha
  have hn' := stable_run (stable_dnsQuestionTurn qd) _ _ _ _ _ (Nat.le_max_left n m) hn
  have hm' := stable_run (stable_dnsAnswerTurn an) _ _ _ _ _ (Nat.le_max_right n m) hm
  refine ⟨max n m, bind_eq_reads.mpr ⟨log, some off, log', hn', ?_, rfl⟩⟩
  exact bind_eq_reads.mpr ⟨log', ip, [], hm', rfl, (List.append_nil log').symm⟩

/-- Whatever a datagram holds, the loops end and read inside it. -/
theorem dnsReply_ends (pkt : ℕ → UInt8) (len : ℕ) (qid : UInt16) :
    ∃ log x, Ends (dnsReply pkt len qid) log x ∧ ∀ k ∈ log, k < len := by
  by_cases hlen : len ≤ 12
  · refine ⟨[], none, .reads fun n => ?_, by simp⟩
    rw [dnsReply, if_pos hlen]
  by_cases h₀ : pkt 0 = (qid >>> 8).toUInt8
  · by_cases h₁ : pkt 1 = qid.toUInt8
    · have hhead : ∀ k ∈ [0, 1, 4, 5, 6, 7], k < len := by
        intro k hk
        simp only [List.mem_cons, List.not_mem_nil, or_false] at hk
        omega
      have hreply : dnsReply pkt len qid = fun n => bind (reads [0, 1, 4, 5, 6, 7] ()) fun _ =>
          dnsLoops pkt len (be16At pkt 4).toNat (be16At pkt 6).toNat n :=
        funext fun n => dnsReply_eq (by omega) h₀ h₁ n
      have hloops : ∃ log x,
          Ends (dnsLoops pkt len (be16At pkt 4).toNat (be16At pkt 6).toNat) log x ∧
            ∀ k ∈ log, k < len := by
        obtain ⟨log, r, hq, hlog⟩ := dnsQuestions_ends pkt len (be16At pkt 4).toNat (0, some 12)
        cases r with
        | none =>
          obtain ⟨n, hn⟩ := hq
          exact ⟨log ++ [], some none, ⟨n, bind_eq_reads.mpr ⟨log, none, [], hn, rfl, rfl⟩⟩,
            by simpa using hlog⟩
        | some off =>
          obtain ⟨log', ip, ha, hlog'⟩ := dnsAnswers_ends pkt len (be16At pkt 6).toNat (0, off)
          exact ⟨log ++ log', some ip, dnsLoops_ends hq ha,
            fun k hk => (List.mem_append.mp hk).elim (hlog k) (hlog' k)⟩
      obtain ⟨log, x, ⟨n, hn⟩, hlog⟩ := hloops
      refine ⟨[0, 1, 4, 5, 6, 7] ++ log, x, ⟨n, ?_⟩,
        fun k hk => (List.mem_append.mp hk).elim (hhead k) (hlog k)⟩
      rw [hreply]
      exact bind_eq_reads.mpr ⟨_, (), log, rfl, hn, rfl⟩
    · refine ⟨[0, 1], none, .reads fun n => ?_, fun k hk => ?_⟩
      · rw [dnsReply, if_neg hlen, if_neg (not_not.mpr h₀), if_pos h₁]
      · simp only [List.mem_cons, List.not_mem_nil, or_false] at hk
        omega
  · refine ⟨[0], none, .reads fun n => ?_, fun k hk => ?_⟩
    · rw [dnsReply, if_neg hlen, if_pos h₀]
    · rw [List.mem_singleton] at hk
      omega

end Bounds

/-! ## Names -/

/-- `dns_skip_name` comes from one offset to another over whole labels. -/
inductive Hops (pkt : ℕ → UInt8) : ℕ → ℕ → Prop
  | refl (o : ℕ) : Hops pkt o o
  | label {o o' : ℕ} (hpos : 0 < (pkt o).toNat) (hle : (pkt o).toNat ≤ 63)
      (hrest : Hops pkt (o + 1 + (pkt o).toNat) o') : Hops pkt o o'

namespace Hops

variable {pkt pkt' : ℕ → UInt8} {len o o' : ℕ}

theorem le (h : Hops pkt o o') : o ≤ o' := by
  induction h with
  | refl o => exact Nat.le_refl o
  | label _ _ _ ih => omega

/-- Only what stands before the end matters. -/
theorem congr (h : Hops pkt o o') (hpkt : ∀ k < o', pkt' k = pkt k) : Hops pkt' o o' := by
  induction h with
  | refl o => exact .refl o
  | @label o o' hpos hle hrest ih =>
    have hle' := hrest.le
    have hsame := hpkt o (by omega)
    refine .label (by rwa [hsame]) (by rwa [hsame]) ?_
    rw [hsame]
    exact ih hpkt

/-- One more label. -/
theorem snoc (h : Hops pkt o o') (hpos : 0 < (pkt o').toNat) (hle : (pkt o').toNat ≤ 63) :
    Hops pkt o (o' + 1 + (pkt o').toNat) := by
  induction h with
  | refl o => exact .label hpos hle (.refl _)
  | label hpos' hle' _ ih => exact .label hpos' hle' (ih hpos hle)

/-- A label is no root label and no pointer. -/
theorem label_bits {l : UInt8} (hpos : 0 < l.toNat) (hle : l.toNat ≤ 63) :
    l ≠ 0 ∧ ¬ l &&& 0xC0 = 0xC0 := by
  refine ⟨?_, fun h => ?_⟩
  · rintro rfl
    exact absurd hpos (by decide)
  · have hnat := congrArg UInt8.toNat h
    rw [UInt8.toNat_and] at hnat
    have hsmall : ∀ n < 64, n &&& 192 ≠ 192 := by decide
    exact hsmall _ (by omega) hnat

end Hops

section Skip

variable {pkt : ℕ → UInt8} {len o o' : ℕ}

/-- `dns_skip_name` crosses a label. -/
theorem dnsSkipName_label (hlt : o < len) (hpos : 0 < (pkt o).toNat) (hle : (pkt o).toNat ≤ 63)
    {log : List ℕ} {r : Option ℕ}
    (h : Ends (fun n => dnsSkipName pkt len n (o + 1 + (pkt o).toNat)) log r) :
    Ends (fun n => dnsSkipName pkt len n o) ([o] ++ log) r := by
  obtain ⟨hzero, hptr⟩ := Hops.label_bits hpos hle
  refine Ends.next stable_dnsSkipTurn (.reads fun _ => ?_) h
  rw [dnsSkipTurn, if_pos hlt]
  simp only [if_neg hzero, if_neg hptr]

/-- `dns_skip_name` ends behind the root label. -/
theorem dnsSkipName_root (hlt : o < len) (hzero : pkt o = 0) :
    Ends (fun n => dnsSkipName pkt len n o) [o] (some (o + 1)) := by
  refine Ends.done stable_dnsSkipTurn (.reads fun _ => ?_)
  rw [dnsSkipTurn, if_pos hlt]
  simp only [if_pos hzero]

/-- `dns_skip_name` ends behind a compression pointer. -/
theorem dnsSkipName_pointer (hlt : o < len) (hptr : pkt o &&& 0xC0 = 0xC0) :
    Ends (fun n => dnsSkipName pkt len n o) [o] (some (o + 2)) := by
  have hzero : pkt o ≠ 0 := by
    intro hzero
    rw [hzero] at hptr
    exact absurd hptr (by decide)
  refine Ends.done stable_dnsSkipTurn (.reads fun _ => ?_)
  rw [dnsSkipTurn, if_pos hlt]
  simp only [if_neg hzero, if_pos hptr]

/-- What `dns_skip_name` finds behind whole labels it finds from their start. -/
theorem Hops.ends (h : Hops pkt o o') (hlt : o' < len) {log : List ℕ} {r : Option ℕ}
    (hends : Ends (fun n => dnsSkipName pkt len n o') log r) :
    ∃ log', Ends (fun n => dnsSkipName pkt len n o) log' r := by
  induction h with
  | refl o => exact ⟨log, hends⟩
  | @label o o' hpos hle hrest ih =>
    obtain ⟨log', h'⟩ := ih hlt hends
    have hle' := hrest.le
    exact ⟨[o] ++ log', dnsSkipName_label (by omega) hpos hle h'⟩

end Skip

/-! ## Well-formed responses -/

/-- A name in a message : labels of at most 63 bytes, ended by the root label or a pointer. -/
inductive DnsName : List UInt8 → Prop
  | root : DnsName [0]
  | pointer (a b : UInt8) (h : a &&& 0xC0 = 0xC0) : DnsName [a, b]
  | label (bytes rest : List UInt8) (hne : bytes ≠ []) (hle : bytes.length ≤ 63)
      (hrest : DnsName rest) : DnsName (UInt8.ofNat bytes.length :: (bytes ++ rest))

/-- A question. -/
structure DnsQuestion where
  name : List UInt8
  qtype : UInt16
  qclass : UInt16
  name_ok : DnsName name

/-- A resource record. -/
structure DnsRecord where
  name : List UInt8
  type : UInt16
  rclass : UInt16
  ttl : UInt32
  rdata : List UInt8
  name_ok : DnsName name
  rdata_lt : rdata.length < 65536

/-- A response, with whatever stands behind its answers. -/
structure DnsMessage where
  qid : UInt16
  flags : UInt16
  questions : List DnsQuestion
  answers : List DnsRecord
  nscount : UInt16
  arcount : UInt16
  rest : List UInt8
  questions_lt : questions.length < 65536
  answers_lt : answers.length < 65536

def DnsQuestion.bytes (q : DnsQuestion) : List UInt8 :=
  q.name ++ (be16 q.qtype ++ be16 q.qclass)

def DnsRecord.bytes (a : DnsRecord) : List UInt8 :=
  a.name ++ (be16 a.type ++ (be16 a.rclass ++ be32 a.ttl ++
    (be16 (UInt16.ofNat a.rdata.length) ++ a.rdata)))

namespace DnsMessage

/-- The header. -/
def header (m : DnsMessage) : List UInt8 :=
  be16 m.qid ++ (be16 m.flags ++ (be16 (UInt16.ofNat m.questions.length) ++
    (be16 (UInt16.ofNat m.answers.length) ++ (be16 m.nscount ++ be16 m.arcount))))

def bytes (m : DnsMessage) : List UInt8 :=
  m.header ++ (m.questions.flatMap DnsQuestion.bytes ++
    (m.answers.flatMap DnsRecord.bytes ++ m.rest))

/-- The address in the first record of type A with an address of four bytes. -/
def address (m : DnsMessage) : Option UInt32 :=
  (m.answers.find? fun a => a.type = 1 ∧ a.rdata.length = 4).map fun a => rdBe32 a.rdata 0

end DnsMessage

section Response

variable {pkt : ℕ → UInt8} {len o : ℕ} {name : List UInt8}

theorem be16At_of_holds {n : UInt16} (h : Holds pkt o (be16 n)) : be16At pkt o = n := by
  rw [be16At, show pkt o = _ from h 0 Nat.two_pos, h 1 Nat.one_lt_two]
  exact ofBe16_be16 n

theorem DnsName.length_pos (h : DnsName name) : 0 < name.length := by
  cases h <;> simp

/-- `dns_skip_name` comes to the end of a name. -/
theorem DnsName.skip (h : DnsName name) (hold : Holds pkt o name) (hlen : o + name.length ≤ len) :
    ∃ log, Ends (fun n => dnsSkipName pkt len n o) log (some (o + name.length)) := by
  induction h generalizing o with
  | root => exact ⟨[o], dnsSkipName_root hlen (hold 0 Nat.one_pos)⟩
  | pointer a b h =>
    have ha : pkt o = a := hold 0 Nat.two_pos
    rw [List.length_cons, List.length_singleton] at hlen
    exact ⟨[o], dnsSkipName_pointer (by omega) (by rw [ha]; exact h)⟩
  | label bytes rest hne hle hrest ih =>
    have hpos := List.length_pos_of_ne_nil hne
    have hl : pkt o = UInt8.ofNat bytes.length := hold 0 (Nat.succ_pos _)
    have hnat : (pkt o).toNat = bytes.length := by
      rw [hl, UInt8.toNat_ofNat_of_lt' (by rw [UInt8.size]; omega)]
    rw [List.length_cons, List.length_append] at hlen ⊢
    rw [← List.singleton_append] at hold
    have hhold : Holds pkt (o + 1 + bytes.length) rest :=
      (holds_append.mp (holds_append.mp hold).2).2
    obtain ⟨log, hends⟩ := ih hhold (by omega)
    rw [← hnat] at hends
    rw [show o + (bytes.length + rest.length + 1) = o + 1 + (pkt o).toNat + rest.length by omega]
    exact ⟨[o] ++ log, dnsSkipName_label (by omega) (by omega) (by omega) hends⟩

/-- The question loop comes to the end of the questions. -/
theorem dnsQuestions_skip (qs : List DnsQuestion) {q qd : ℕ} (hqd : q + qs.length = qd)
    (ho : 0 < o) (hold : Holds pkt o (qs.flatMap DnsQuestion.bytes))
    (hlen : o + (qs.flatMap DnsQuestion.bytes).length ≤ len) :
    ∃ log, Ends (fun n => run (dnsQuestionTurn pkt len qd n) n (q, some o)) log
      (some (o + (qs.flatMap DnsQuestion.bytes).length)) := by
  induction qs generalizing q o with
  | nil =>
    refine ⟨[], .done (stable_dnsQuestionTurn qd) (.reads fun n => ?_)⟩
    rw [dnsQuestionTurn, if_neg (by simp at hqd; omega)]
    rfl
  | cons x qs ih =>
    rw [List.flatMap_cons] at hold hlen ⊢
    rw [List.length_append] at hlen ⊢
    rw [List.length_cons] at hqd
    obtain ⟨hx, hrest⟩ := holds_append.mp hold
    have hbytes : x.bytes.length = x.name.length + 4 := by
      simp [DnsQuestion.bytes, be16]
    obtain ⟨log, hskip⟩ := x.name_ok.skip (holds_append.mp hx).1
      (show o + x.name.length ≤ len by omega)
    obtain ⟨log', hends⟩ := ih (q := q + 1) (by omega) (by omega) hrest (by omega)
    rw [show o + (x.bytes.length + (qs.flatMap DnsQuestion.bytes).length) =
      o + x.bytes.length + (qs.flatMap DnsQuestion.bytes).length by omega]
    have hturn : (fun n => dnsQuestionTurn pkt len qd n (q, some o)) = fun n =>
        bind (dnsSkipName pkt len n o) fun off => reads [] (.inl (q + 1, off.map (· + 4))) := by
      funext n
      rw [dnsQuestionTurn, if_pos ⟨by omega, ho⟩]
    refine ⟨(log ++ []) ++ log', .next (stable_dnsQuestionTurn qd) ?_ hends⟩
    rw [hturn, hbytes, ← Nat.add_assoc]
    exact hskip.bind_reads rfl

/-- The answer loop finds the first address. -/
theorem dnsAnswers_find (as : List DnsRecord) {a an : ℕ} (han : a + as.length = an) (ho : 0 < o)
    (hold : Holds pkt o (as.flatMap DnsRecord.bytes))
    (hlen : o + (as.flatMap DnsRecord.bytes).length ≤ len) :
    ∃ log, Ends (fun n => run (dnsAnswerTurn pkt len an n) n (a, o)) log
      ((as.find? fun a => a.type = 1 ∧ a.rdata.length = 4).map fun a => rdBe32 a.rdata 0) := by
  induction as generalizing a o with
  | nil =>
    refine ⟨[], .done (stable_dnsAnswerTurn an) (.reads fun n => ?_)⟩
    exact dnsAnswerTurn_done (by simp at han; omega)
  | cons x as ih =>
    rw [List.flatMap_cons] at hold hlen
    rw [List.length_append] at hlen
    rw [List.length_cons] at han
    obtain ⟨hx, hrest⟩ := holds_append.mp hold
    have hpos := x.name_ok.length_pos
    have hbytes : x.bytes.length = x.name.length + 10 + x.rdata.length := by
      simp only [DnsRecord.bytes, be16, be32, List.length_append, List.length_cons, List.length_nil]
      omega
    obtain ⟨hname, hfix⟩ := holds_append.mp hx
    obtain ⟨htype, hfix⟩ := holds_append.mp hfix
    obtain ⟨_, hfix⟩ := holds_append.mp hfix
    obtain ⟨hrdlen, hdata⟩ := holds_append.mp hfix
    have htype := be16At_of_holds htype
    have hrdlen : be16At pkt (o + x.name.length + 8) = UInt16.ofNat x.rdata.length :=
      be16At_of_holds hrdlen
    have hrdata : Holds pkt (o + x.name.length + 10) x.rdata := hdata
    have hsize : (UInt16.ofNat x.rdata.length).toNat = x.rdata.length :=
      UInt16.toNat_ofNat_of_lt' (by rw [UInt16.size]; exact x.rdata_lt)
    have hfour : UInt16.ofNat x.rdata.length = 4 ↔ x.rdata.length = 4 := by
      rw [← UInt16.toNat_inj, hsize]
      rfl
    obtain ⟨log, hskip⟩ := x.name_ok.skip hname (show o + x.name.length ≤ len by omega)
    have hturn : (fun n => dnsAnswerTurn pkt len an n (a, o)) = fun n =>
        bind (dnsSkipName pkt len n o) (dnsRecordTurn pkt len a) :=
      funext fun n => dnsAnswerTurn_eq ⟨by omega, ho, by omega⟩
    have hrec : dnsRecordTurn pkt len a (some (o + x.name.length)) =
        bind (reads [o + x.name.length, o + x.name.length + 1, o + x.name.length + 8,
          o + x.name.length + 9] ()) fun _ =>
          if x.type = 1 ∧ x.rdata.length = 4 then
            reads (four (o + x.name.length + 10)) (.inr (some (rdBe32 x.rdata 0)))
          else reads [] (.inl (a + 1, o + x.bytes.length)) := by
      rw [dnsRecordTurn, if_neg (by omega), htype, hrdlen, hsize]
      refine congrArg _ (funext fun _ => ?_)
      by_cases hA : x.type = 1 ∧ x.rdata.length = 4
      · rw [if_pos ⟨hA.1, hfour.mpr hA.2, by omega⟩, if_pos hA]
        have hk := fun k hk => hrdata k (by rw [hA.2]; exact hk)
        have hget : be32At pkt (o + x.name.length + 10) = rdBe32 x.rdata 0 := by
          unfold be32At rdBe32
          rw [hk 1 (by omega), hk 2 (by omega), hk 3 (by omega),
            show pkt (o + x.name.length + 10) = _ from hk 0 (by omega)]
        rw [hget]
      · rw [if_neg fun h => hA ⟨h.1, hfour.mp h.2.1⟩, if_neg hA, hbytes]
        simp only [Nat.add_assoc]
    by_cases hA : x.type = 1 ∧ x.rdata.length = 4
    · rw [List.find?_cons_of_pos (by simpa using hA)]
      refine ⟨log ++ ([o + x.name.length, o + x.name.length + 1, o + x.name.length + 8,
        o + x.name.length + 9] ++ four (o + x.name.length + 10)), .done (stable_dnsAnswerTurn an) ?_⟩
      rw [hturn]
      refine hskip.bind_reads ?_
      rw [hrec, if_pos hA]
      rfl
    · rw [List.find?_cons_of_neg (by simpa using hA)]
      obtain ⟨log', hends⟩ := ih (a := a + 1) (by omega) (by omega) hrest (by omega)
      refine ⟨(log ++ ([o + x.name.length, o + x.name.length + 1, o + x.name.length + 8,
        o + x.name.length + 9] ++ [])) ++ log', .next (stable_dnsAnswerTurn an) ?_ hends⟩
      rw [hturn]
      refine hskip.bind_reads ?_
      rw [hrec, if_neg hA]
      rfl

/-- From a well-formed response that is longer than its header the loops take its address. -/
theorem dnsReply_message (m : DnsMessage) (hold : Holds pkt 0 m.bytes)
    (hlen : m.bytes.length = len) :
    ∃ log x, Ends (dnsReply pkt len m.qid) log x ∧ x.join = m.address ∧
      (x = none → m.questions = [] ∧ m.answers = []) := by
  have hhead : m.header.length = 12 := rfl
  obtain ⟨hhold, hrest⟩ := holds_append.mp hold
  obtain ⟨hqs, hrest⟩ := holds_append.mp hrest
  obtain ⟨has, _⟩ := holds_append.mp hrest
  have htotal : len = 12 + ((m.questions.flatMap DnsQuestion.bytes).length +
      ((m.answers.flatMap DnsRecord.bytes).length + m.rest.length)) := by
    rw [← hlen, DnsMessage.bytes, List.length_append, List.length_append, List.length_append, hhead]
  rw [hhead, Nat.zero_add] at hqs has
  by_cases hshort : len ≤ 12
  · have hq : m.questions.flatMap DnsQuestion.bytes = [] :=
      List.length_eq_zero_iff.mp (by omega)
    have ha : m.answers.flatMap DnsRecord.bytes = [] := List.length_eq_zero_iff.mp (by omega)
    have hq' : m.questions = [] := by
      refine List.eq_nil_iff_forall_not_mem.mpr fun q hmem => ?_
      have hpos := q.name_ok.length_pos
      have hnil := List.flatMap_eq_nil_iff.mp hq q hmem
      rw [DnsQuestion.bytes, List.append_eq_nil_iff] at hnil
      rw [hnil.1] at hpos
      exact absurd hpos (by simp)
    have ha' : m.answers = [] := by
      refine List.eq_nil_iff_forall_not_mem.mpr fun a hmem => ?_
      have hpos := a.name_ok.length_pos
      have hnil := List.flatMap_eq_nil_iff.mp ha a hmem
      rw [DnsRecord.bytes, List.append_eq_nil_iff] at hnil
      rw [hnil.1] at hpos
      exact absurd hpos (by simp)
    refine ⟨[], none, .reads fun n => ?_, ?_, fun _ => ⟨hq', ha'⟩⟩
    · rw [dnsReply, if_pos hshort]
    · rw [DnsMessage.address, ha']
      rfl
  obtain ⟨hqid, hhold⟩ := holds_append.mp hhold
  obtain ⟨_, hhold⟩ := holds_append.mp hhold
  obtain ⟨hqd, hhold⟩ := holds_append.mp hhold
  obtain ⟨han, _⟩ := holds_append.mp hhold
  have h₀ : pkt 0 = (m.qid >>> 8).toUInt8 := hqid 0 Nat.two_pos
  have h₁ : pkt 1 = m.qid.toUInt8 := hqid 1 Nat.one_lt_two
  have hqd : (be16At pkt 4).toNat = m.questions.length := by
    rw [show be16At pkt 4 = _ from be16At_of_holds hqd]
    exact UInt16.toNat_ofNat_of_lt' (by rw [UInt16.size]; exact m.questions_lt)
  have han : (be16At pkt 6).toNat = m.answers.length := by
    rw [show be16At pkt 6 = _ from be16At_of_holds han]
    exact UInt16.toNat_ofNat_of_lt' (by rw [UInt16.size]; exact m.answers_lt)
  obtain ⟨log, hq⟩ := @dnsQuestions_skip pkt len _ m.questions _ _ (Nat.zero_add _)
    (by omega) hqs (by omega)
  obtain ⟨log', ha⟩ := @dnsAnswers_find pkt len _ m.answers _ _ (Nat.zero_add _)
    (by omega) has (by omega)
  obtain ⟨n, hn⟩ := dnsLoops_ends hq ha
  refine ⟨[0, 1, 4, 5, 6, 7] ++ (log ++ log'), some m.address, ⟨n, ?_⟩, rfl,
    fun h => absurd h (by simp)⟩
  rw [dnsReply_eq (by omega) h₀ h₁, hqd, han]
  exact bind_eq_reads.mpr ⟨_, (), log ++ log', rfl, hn, rfl⟩

end Response

/-! ## Queries -/

namespace DnsQuery

/-- The labels that are complete can be skipped, and the open one ends where the next byte goes. -/
structure Inv (q : DnsQuery) : Prop where
  hops : Hops q.pkt 12 q.labelStart
  o_eq : q.o = q.labelStart + 1 + q.labelLen

theorem Inv.push {q : DnsQuery} (h : q.Inv) (c : UInt8) :
    Inv { q.push c with labelLen := q.labelLen + 1 } := by
  have ho := h.o_eq
  refine ⟨h.hops.congr fun k hk => Function.update_of_ne (by omega) _ _, ?_⟩
  change q.o + 1 = q.labelStart + 1 + (q.labelLen + 1)
  omega

/-- A label that is ended is complete. -/
theorem Inv.endLabel {q q' : DnsQuery} (h : q.Inv) (hq : q.endLabel = some q') :
    Hops q'.pkt 12 q.o ∧ q'.o = q.o := by
  unfold DnsQuery.endLabel at hq
  split at hq
  · exact absurd hq (by simp)
  · next hlen =>
    obtain rfl := Option.some.inj hq
    have hnat : (UInt8.ofNat q.labelLen).toNat = q.labelLen :=
      UInt8.toNat_ofNat_of_lt' (by rw [UInt8.size]; omega)
    have hhops : Hops (Function.update q.pkt q.labelStart (UInt8.ofNat q.labelLen)) 12
        q.labelStart := h.hops.congr fun k hk => Function.update_of_ne (Nat.ne_of_lt hk) _ _
    have hself : Function.update q.pkt q.labelStart (UInt8.ofNat q.labelLen) q.labelStart =
        UInt8.ofNat q.labelLen := Function.update_self _ _ _
    have hsnoc := hhops.snoc (by rw [hself, hnat]; omega) (by rw [hself, hnat]; omega)
    rw [hself, hnat, ← h.o_eq] at hsnoc
    exact ⟨hsnoc, rfl⟩

/-- The loop leaves complete labels. -/
theorem Inv.qname {name : List UInt8} {q q' : DnsQuery} (h : q.Inv)
    (hq : qname name q = some q') : Hops q'.pkt 12 q'.o := by
  induction name generalizing q with
  | nil =>
    obtain ⟨hhops, ho⟩ := h.endLabel hq
    rwa [ho]
  | cons c rest ih =>
    rw [DnsQuery.qname] at hq
    by_cases hdot : c = 46
    · rw [if_pos hdot] at hq
      obtain ⟨q₁, hq₁, hq⟩ := Option.bind_eq_some_iff.mp hq
      obtain ⟨hhops, ho⟩ := h.endLabel hq₁
      refine ih ⟨?_, rfl⟩ hq
      change Hops q₁.pkt 12 q₁.o
      rwa [ho]
    · rw [if_neg hdot] at hq
      split at hq
      · exact absurd hq (by simp)
      · exact ih (h.push c) hq

/-- The root label stands behind the labels. -/
theorem finish_spec (q : DnsQuery) (h : Hops q.pkt 12 q.o) :
    q.finish.o = q.o + 5 ∧ q.finish.pkt q.o = 0 ∧ Hops q.finish.pkt 12 q.o := by
  have hpkt : ∀ k ≤ q.o, q.finish.pkt k = Function.update q.pkt q.o 0 k := by
    intro k hk
    simp only [finish, DnsQuery.push]
    rw [Function.update_of_ne (by omega), Function.update_of_ne (by omega),
      Function.update_of_ne (by omega), Function.update_of_ne (by omega)]
  refine ⟨rfl, ?_, h.congr fun k hk => ?_⟩
  · rw [hpkt _ (Nat.le_refl _), Function.update_self]
  · rw [hpkt k (Nat.le_of_lt hk), Function.update_of_ne (Nat.ne_of_lt hk)]

end DnsQuery

/-- In the query for a name `dns_skip_name` comes from the QNAME to the byte after its root. -/
theorem dnsQuery_skip {pkt : ℕ → UInt8} {name : List UInt8} {q : DnsQuery}
    (h : dnsQuery pkt name = some q) {len : ℕ} (hlen : q.o - 5 < len) :
    q.pkt (q.o - 5) = 0 ∧
      ∃ log, Ends (fun n => dnsSkipName q.pkt len n 12) log (some (q.o - 4)) := by
  unfold dnsQuery at h
  split at h
  · exact absurd h (by simp)
  · obtain ⟨q₁, hq₁, rfl⟩ := Option.map_eq_some_iff.mp h
    have hhops := DnsQuery.Inv.qname (q := ⟨pkt, 13, 12, 0⟩) ⟨.refl 12, rfl⟩ hq₁
    obtain ⟨ho, hroot, hskip⟩ := q₁.finish_spec hhops
    rw [ho, Nat.add_sub_cancel] at hlen ⊢
    refine ⟨hroot, ?_⟩
    rw [show q₁.o + 5 - 4 = q₁.o + 1 by omega]
    exact hskip.ends hlen (dnsSkipName_root hlen hroot)

/-- Over any datagram the loops of `dns_resolve` end and read only its bytes. From a well-formed
response they take the address in the first record of type A, if there is one. And from the QNAME of
any query `dns_skip_name` comes to the byte after its root. -/
theorem dns_parsing :
    (∀ pkt len qid, ∃ log x, Ends (dnsReply pkt len qid) log x ∧ ∀ o ∈ log, o < len) ∧
    (∀ (m : DnsMessage) (pkt : ℕ → UInt8), Holds pkt 0 m.bytes →
      ∃ log x, Ends (dnsReply pkt m.bytes.length m.qid) log x ∧ x.join = m.address) ∧
    ∀ pkt name q, dnsQuery pkt name = some q → ∀ len, q.o - 5 < len →
      q.pkt (q.o - 5) = 0 ∧
        ∃ log, Ends (fun n => dnsSkipName q.pkt len n 12) log (some (q.o - 4)) := by
  refine ⟨dnsReply_ends, fun m pkt hold => ?_, fun pkt name q h len hlen => dnsQuery_skip h hlen⟩
  obtain ⟨log, x, hends, hx, _⟩ := dnsReply_message m hold rfl
  exact ⟨log, x, hends, hx⟩

/-- The query for the name `a`. -/
theorem dns_parsing_a : ∃ q, dnsQuery (fun _ => 0) [97] = some q ∧ q.pkt (q.o - 5) = 0 ∧
    ∃ log, Ends (fun n => dnsSkipName q.pkt 20 n 12) log (some (q.o - 4)) :=
  ⟨_, rfl, dns_parsing.2.2 (fun _ => 0) [97] _ rfl 20 (by decide)⟩

end VernisOS
