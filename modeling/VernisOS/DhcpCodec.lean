import VernisOS.DhcpRuns
import VernisOS.Lib.Loop

/-!
# The DHCP option codec

`dhcp_parse` as it walks a buffer of `len` bytes, with the offsets that it reads. It ends, reads no
byte at or beyond `len`, and does what `dhcpParse` does with the bytes of the buffer. From a message
of the client that is sent back as a reply it gets the type and the server again (`dhcp_codec`).
-/

open Bytes Loop

namespace VernisOS

/-! ## The walk -/

/-- `n` bytes of a buffer from `o` on. -/
def bytesFrom (pkt : ℕ → UInt8) (o n : ℕ) : List UInt8 :=
  (List.range n).map fun k => pkt (o + k)

/-- `rd_be32` in a buffer. -/
def be32At (pkt : ℕ → UInt8) (o : ℕ) : UInt32 :=
  ofBe32 (pkt o) (pkt (o + 1)) (pkt (o + 2)) (pkt (o + 3))

/-- The offsets that `rd_be32` reads. -/
def four (o : ℕ) : List ℕ :=
  [o, o + 1, o + 2, o + 3]

/-- The offsets that the `switch` of `dhcp_parse` reads for an option with its value at `o`. -/
def optionReads (opt : UInt8) (olen o : ℕ) : List ℕ :=
  if opt = 53 then
    if 1 ≤ olen then [o] else []
  else if opt = 1 ∨ opt = 3 ∨ opt = 6 ∨ opt = 54 then
    if 4 ≤ olen then four o else []
  else []

/-- One turn of the loop of `dhcp_parse`, at the offset `o`. -/
def dhcpTurn (pkt : ℕ → UInt8) (len : ℕ) : ℕ × DhcpReply → Logged ℕ ((ℕ × DhcpReply) ⊕ DhcpReply)
  | (o, r) =>
    if o + 1 < len then
      let opt := pkt o
      if opt = 255 then reads [o] (.inr r)
      else if opt = 0 then reads [o] (.inl (o + 1, r))
      else
        let olen := (pkt (o + 1)).toNat
        if len < o + 2 + olen then reads [o, o + 1] (.inr r)
        else reads ([o, o + 1] ++ optionReads opt olen (o + 2))
          (.inl (o + 2 + olen, r.option opt (bytesFrom pkt (o + 2) olen)))
    else reads [] (.inr r)

/-- `dhcp_parse` with at most `n` turns, and the offsets that it reads. -/
def dhcpParseLoop (pkt : ℕ → UInt8) (len : ℕ) (xid : UInt32) (lease : DhcpLease) (n : ℕ) :
    Logged ℕ (UInt8 × DhcpLease) :=
  if len < 244 then reads [] (0, lease)
  else if pkt 0 ≠ 2 then reads [0] (0, lease)
  else if be32At pkt 4 ≠ xid then reads ([0] ++ four 4) (0, lease)
  else if be32At pkt 236 ≠ dhcpMagic then reads ([0] ++ four 4 ++ four 236) (0, lease)
  else
    bind (reads ([0] ++ four 4 ++ four 236 ++ four 16) ()) fun _ =>
      bind (run (dhcpTurn pkt len) n (240, ⟨0, { lease with ip := be32At pkt 16 }⟩)) fun r =>
        reads [] (r.msgType, r.lease)

/-! ## Buffers as lists -/

section Buffer

variable (pkt : ℕ → UInt8)

@[simp] theorem length_bytesFrom (o n : ℕ) : (bytesFrom pkt o n).length = n := by
  simp [bytesFrom]

theorem bytesFrom_succ (o n : ℕ) :
    bytesFrom pkt o (n + 1) = pkt o :: bytesFrom pkt (o + 1) n := by
  unfold bytesFrom
  rw [List.range_succ_eq_map, List.map_cons, List.map_map]
  refine congrArg _ (List.map_congr_left fun k _ => ?_)
  rw [Function.comp_apply]
  congr 1
  omega

theorem bytesFrom_add (o n k : ℕ) :
    bytesFrom pkt o (n + k) = bytesFrom pkt o n ++ bytesFrom pkt (o + n) k := by
  unfold bytesFrom
  rw [List.range_add, List.map_append, List.map_map]
  refine congrArg _ (List.map_congr_left fun i _ => ?_)
  rw [Function.comp_apply]
  congr 1
  omega

theorem getD_bytesFrom {len o : ℕ} (h : o < len) : (bytesFrom pkt 0 len).getD o 0 = pkt o := by
  rw [List.getD_eq_getElem _ _ (by simpa using h)]
  simp [bytesFrom]

theorem rdBe32_bytesFrom {len o : ℕ} (h : o + 3 < len) :
    rdBe32 (bytesFrom pkt 0 len) o = be32At pkt o := by
  unfold rdBe32 be32At
  rw [getD_bytesFrom pkt (by omega : o < len), getD_bytesFrom pkt (by omega : o + 1 < len),
    getD_bytesFrom pkt (by omega : o + 2 < len), getD_bytesFrom pkt h]

end Buffer

/-! ## What the walk finds -/

/-- The loop goes on behind an option. -/
theorem dhcpOptions_skip (v rest : List UInt8) (r : DhcpReply) :
    dhcpOptions v.length (v ++ rest) r = dhcpOptions 0 rest r := by
  rw [dhcpOptions_eq_foldl, dhcpOptions_eq_foldl, dhcpOptionList_skip]

theorem dhcpOptions_short {bytes : List UInt8} (h : bytes.length ≤ 1) (r : DhcpReply) :
    dhcpOptions 0 bytes r = r := by
  match bytes, h with
  | [], _ => rfl
  | [_], _ => rfl

variable {pkt : ℕ → UInt8} {len o : ℕ} {r : DhcpReply}

theorem dhcpTurn_reads (s : ℕ × DhcpReply) : ∀ k ∈ (dhcpTurn pkt len s).1, k < len := by
  obtain ⟨o, r⟩ := s
  unfold dhcpTurn
  dsimp only
  by_cases hlt : o + 1 < len
  · rw [if_pos hlt]
    split
    · simp only [reads_fst, List.mem_singleton, forall_eq]
      omega
    · split
      · simp only [reads_fst, List.mem_singleton, forall_eq]
        omega
      · split
        · simp only [reads_fst, List.mem_cons, List.not_mem_nil, or_false, forall_eq_or_imp,
            forall_eq]
          omega
        · next hlen =>
          intro k hk
          rcases List.mem_append.mp hk with hk | hk
          · simp only [List.mem_cons, List.not_mem_nil, or_false] at hk
            omega
          · unfold optionReads four at hk
            split at hk <;> split at hk <;> try split at hk
            all_goals simp only [List.mem_cons, List.not_mem_nil, or_false] at hk
            all_goals omega
  · rw [if_neg hlt]
    exact fun k hk => absurd hk List.not_mem_nil

/-- A turn ends, reads inside the buffer, and leaves the rest of the options to read. -/
theorem dhcpTurn_ok (target : DhcpReply)
    (h : dhcpOptions 0 (bytesFrom pkt o (len - o)) r = target) :
    TurnOk (fun _ => dhcpTurn pkt len)
      (fun s => dhcpOptions 0 (bytesFrom pkt s.1 (len - s.1)) s.2 = target) (· < len) (· = target)
      (fun s => len - s.1) (o, r) := by
  have hreads := @dhcpTurn_reads pkt len (o, r)
  unfold TurnOk
  unfold dhcpTurn at hreads ⊢
  by_cases hlt : o + 1 < len
  · obtain ⟨n, hn⟩ : ∃ n, len = o + (n + 1 + 1) := ⟨len - o - 2, by omega⟩
    rw [show len - o = n + 1 + 1 by omega, bytesFrom_succ, bytesFrom_succ] at h
    simp only [if_pos hlt] at hreads ⊢
    by_cases hend : pkt o = 255
    · simp only [if_pos hend] at hreads ⊢
      rw [dhcpOptions, if_pos hend] at h
      refine ⟨_, _, .reads fun _ => rfl, hreads, fun s' hs' => absurd hs' (by simp), ?_⟩
      rintro _ ⟨⟩
      exact h
    simp only [if_neg hend] at hreads ⊢
    by_cases hpad : pkt o = 0
    · simp only [if_pos hpad] at hreads ⊢
      rw [dhcpOptions, if_neg hend, if_pos hpad, ← bytesFrom_succ] at h
      refine ⟨_, _, .reads fun _ => rfl, hreads, ?_, fun r' hr' => absurd hr' (by simp)⟩
      rintro _ ⟨⟩
      refine ⟨?_, by dsimp only; omega⟩
      rwa [show len - (o + 1) = n + 1 by omega]
    simp only [if_neg hpad] at hreads ⊢
    rw [dhcpOptions, if_neg hend, if_neg hpad] at h
    generalize (pkt (o + 1)).toNat = olen at h hreads ⊢
    by_cases hlen : len < o + 2 + olen
    · simp only [if_pos hlen] at hreads ⊢
      rw [if_pos (by rw [length_bytesFrom]; omega)] at h
      refine ⟨_, _, .reads fun _ => rfl, hreads, fun s' hs' => absurd hs' (by simp), ?_⟩
      rintro _ ⟨⟩
      exact h
    · simp only [if_neg hlen] at hreads ⊢
      obtain ⟨k, rfl⟩ : ∃ k, n = olen + k := ⟨n - olen, by omega⟩
      have hskip := dhcpOptions_skip (bytesFrom pkt (o + 2) olen)
        (bytesFrom pkt (o + 2 + olen) k) (r.option (pkt o) (bytesFrom pkt (o + 2) olen))
      rw [length_bytesFrom] at hskip
      rw [if_neg (by rw [length_bytesFrom]; omega), bytesFrom_add,
        List.take_left' (length_bytesFrom pkt _ _), hskip] at h
      refine ⟨_, _, .reads fun _ => rfl, hreads, ?_, fun r' hr' => absurd hr' (by simp)⟩
      rintro _ ⟨⟩
      refine ⟨?_, by dsimp only; omega⟩
      rwa [show len - (o + 2 + olen) = k by omega]
  · simp only [if_neg hlt] at hreads ⊢
    rw [dhcpOptions_short (by rw [length_bytesFrom]; omega)] at h
    refine ⟨_, _, .reads fun _ => rfl, hreads, fun s' hs' => absurd hs' (by simp), ?_⟩
    rintro _ ⟨⟩
    exact h

theorem stable_dhcpTurn (pkt : ℕ → UInt8) (len : ℕ) (s : ℕ × DhcpReply) :
    Stable fun _ => dhcpTurn pkt len s :=
  stable_const _

/-- The loop of `dhcp_parse` ends, and has read the options of the buffer. -/
theorem dhcpLoop_ends (pkt : ℕ → UInt8) (len o : ℕ) (r : DhcpReply) :
    ∃ log, Ends (fun n => run (dhcpTurn pkt len) n (o, r)) log
        (dhcpOptions 0 (bytesFrom pkt o (len - o)) r) ∧ ∀ k ∈ log, k < len := by
  obtain ⟨log, r', hends, hlog, rfl⟩ := ends_of_measure (stable_dhcpTurn pkt len)
    (fun s => len - s.1) (fun s hs => dhcpTurn_ok _ hs) (o, r) rfl
  exact ⟨log, hends, hlog⟩

/-- `dhcp_parse` ends, reads inside the buffer, and does what `dhcpParse` does. -/
theorem dhcpParseLoop_ends (pkt : ℕ → UInt8) (len : ℕ) (xid : UInt32) (lease : DhcpLease) :
    ∃ log, Ends (dhcpParseLoop pkt len xid lease) log
        (dhcpParse (bytesFrom pkt 0 len) xid lease) ∧ ∀ k ∈ log, k < len := by
  have hfour : ∀ {o}, o + 3 < len → ∀ k ∈ four o, k < len := by
    intro o ho k hk
    simp only [four, List.mem_cons, List.not_mem_nil, or_false] at hk
    omega
  unfold dhcpParse dhcpAccepts
  by_cases hlen : len < 244
  · refine ⟨[], .reads fun n => ?_, fun k hk => absurd hk List.not_mem_nil⟩
    have hno : ¬ 244 ≤ len := by omega
    simp [dhcpParseLoop, hlen, hno]
  have hzero : ∀ k ∈ [0], k < len := by
    simp only [List.mem_singleton, forall_eq]
    omega
  simp only [length_bytesFrom, getD_bytesFrom pkt (by omega : 0 < len),
    rdBe32_bytesFrom pkt (by omega : 4 + 3 < len), rdBe32_bytesFrom pkt (by omega : 236 + 3 < len),
    rdBe32_bytesFrom pkt (by omega : 16 + 3 < len)]
  have hge : decide (244 ≤ len) = true := decide_eq_true (by omega)
  by_cases hop : pkt 0 = 2
  · by_cases hxid : be32At pkt 4 = xid
    · by_cases hmagic : be32At pkt 236 = dhcpMagic
      · obtain ⟨log, ⟨n, hn⟩, hlog⟩ :=
          dhcpLoop_ends pkt len 240 ⟨0, { lease with ip := be32At pkt 16 }⟩
        have hdrop : (bytesFrom pkt 0 len).drop 240 = bytesFrom pkt 240 (len - 240) := by
          rw [show len = 240 + (len - 240) by omega, bytesFrom_add, List.drop_left'
            (length_bytesFrom pkt _ _), Nat.zero_add, Nat.add_sub_cancel_left]
        refine ⟨[0] ++ four 4 ++ four 236 ++ four 16 ++ log, ⟨n, ?_⟩, ?_⟩
        · unfold dhcpParseLoop
          rw [if_neg hlen, if_neg (not_not.mpr hop), if_neg (not_not.mpr hxid),
            if_neg (not_not.mpr hmagic), hdrop, if_pos (by simp [hge, hop, hxid, hmagic])]
          dsimp only at hn
          rw [hn]
          simp only [reads, Loop.bind, List.append_nil]
        · intro k hk
          simp only [List.mem_append] at hk
          rcases hk with (((hk | hk) | hk) | hk) | hk
          · exact hzero k hk
          · exact hfour (by omega) k hk
          · exact hfour (by omega) k hk
          · exact hfour (by omega) k hk
          · exact hlog k hk
      · refine ⟨[0] ++ four 4 ++ four 236, .reads fun n => ?_, fun k hk => ?_⟩
        · simp [dhcpParseLoop, hlen, hop, hxid, hmagic]
        · simp only [List.mem_append] at hk
          rcases hk with (hk | hk) | hk
          · exact hzero k hk
          · exact hfour (by omega) k hk
          · exact hfour (by omega) k hk
    · refine ⟨[0] ++ four 4, .reads fun n => ?_, fun k hk => ?_⟩
      · simp [dhcpParseLoop, hlen, hop, hxid]
      · rcases List.mem_append.mp hk with hk | hk
        · exact hzero k hk
        · exact hfour (by omega) k hk
  · refine ⟨[0], .reads fun n => ?_, hzero⟩
    simp [dhcpParseLoop, hlen, hop]

/-! ## Replies -/

/-- A message of the client with `op` set to BOOTREPLY. -/
def asReply (pkt : List UInt8) : List UInt8 :=
  pkt.set 0 2

theorem asReply_dhcpBuild (xid : UInt32) (mac : Fin 6 → UInt8) (msgType : UInt8)
    (reqIp serverIp : UInt32) :
    dhcpAccepts (asReply (dhcpBuild xid mac msgType reqIp serverIp)) xid = true ∧
      (asReply (dhcpBuild xid mac msgType reqIp serverIp)).drop 240 =
        (dhcpBuild xid mac msgType reqIp serverIp).drop 240 := by
  have hlen : 300 ≤ (dhcpBuild xid mac msgType reqIp serverIp).length := by
    unfold dhcpBuild
    dsimp only
    rw [List.length_append, length_dhcpHeader, List.length_rightpad]
    omega
  have hget : ∀ {o : ℕ}, o ≠ 0 → (asReply (dhcpBuild xid mac msgType reqIp serverIp)).getD o 0 =
      (dhcpBuild xid mac msgType reqIp serverIp).getD o 0 := by
    intro o ho
    unfold asReply
    rw [List.getD_eq_getElem?_getD, List.getElem?_set_ne ho.symm, ← List.getD_eq_getElem?_getD]
  have hbe : ∀ {o : ℕ}, o ≠ 0 → rdBe32 (asReply (dhcpBuild xid mac msgType reqIp serverIp)) o =
      rdBe32 (dhcpBuild xid mac msgType reqIp serverIp) o := by
    intro o ho
    unfold rdBe32
    rw [hget ho, hget (by omega), hget (by omega), hget (by omega)]
  have hhead : ∀ {o : ℕ}, o < 240 → (dhcpBuild xid mac msgType reqIp serverIp).getD o 0 =
      (dhcpHeader xid mac).getD o 0 := by
    intro o ho
    unfold dhcpBuild
    dsimp only
    rw [List.getD_append _ _ _ _ (by rw [length_dhcpHeader]; exact ho)]
  have hmac : List.ofFn mac = [mac 0, mac 1, mac 2, mac 3, mac 4, mac 5] := by
    simp [List.ofFn_succ]
  have hxid : rdBe32 (dhcpBuild xid mac msgType reqIp serverIp) 4 = xid := by
    unfold rdBe32
    rw [hhead (by omega), hhead (by omega), hhead (by omega), hhead (by omega)]
    exact ofBe32_be32 xid
  have hmagic : rdBe32 (dhcpBuild xid mac msgType reqIp serverIp) 236 = dhcpMagic := by
    unfold rdBe32
    rw [hhead (by omega), hhead (by omega), hhead (by omega), hhead (by omega)]
    unfold dhcpHeader
    rw [hmac]
    exact ofBe32_be32 dhcpMagic
  refine ⟨?_, ?_⟩
  · unfold dhcpAccepts
    rw [hbe (by omega), hbe (by omega), hxid, hmagic]
    unfold asReply
    rw [List.length_set, List.getD_eq_getElem _ _ (by rw [List.length_set]; omega),
      List.getElem_set_self]
    simp only [beq_self_eq_true, Bool.and_true, decide_eq_true_eq]
    omega
  · unfold asReply
    rw [List.drop_set_of_lt (by omega)]

/-- A reply made of a message of the client gives back its type and, if it has one, its server. For
every buffer `dhcp_parse` ends, reads inside it, and returns the value of its last option 53, or 0
if it has none or is no reply to the client. -/
theorem dhcp_codec :
    (∀ xid mac msgType reqIp serverIp lease,
      (dhcpParse (asReply (dhcpBuild xid mac msgType reqIp serverIp)) xid lease).1 = msgType ∧
      (dhcpParse (asReply (dhcpBuild xid mac msgType reqIp serverIp)) xid lease).2.server =
        if serverIp ≠ 0 then serverIp else lease.server) ∧
    ∀ pkt len xid lease, ∃ log,
      Ends (dhcpParseLoop pkt len xid lease) log (dhcpParse (bytesFrom pkt 0 len) xid lease) ∧
      (∀ o ∈ log, o < len) ∧
      (dhcpParse (bytesFrom pkt 0 len) xid lease).1 =
        if dhcpAccepts (bytesFrom pkt 0 len) xid then messageType (bytesFrom pkt 0 len) else 0 := by
  refine ⟨fun xid mac msgType reqIp serverIp lease => ?_, fun pkt len xid lease => ?_⟩
  · obtain ⟨hacc, hdrop⟩ := asReply_dhcpBuild xid mac msgType reqIp serverIp
    rw [dhcpParse_eq]
    refine ⟨?_, ?_⟩
    · rw [if_pos hacc, messageType, hdrop]
      exact messageType_dhcpBuild xid mac msgType reqIp serverIp
    · change (carried xid 54 _).getD lease.server = _
      rw [carried, if_pos hacc, messageOption, hdrop]
      have hserver := messageOption_dhcpBuild xid mac msgType reqIp serverIp
      rw [messageOption] at hserver
      rw [hserver]
      by_cases hzero : serverIp = 0
      · rw [if_pos hzero, if_neg (not_not.mpr hzero)]
        rfl
      · rw [if_neg hzero, if_pos hzero]
        rfl
  · obtain ⟨log, hends, hlog⟩ := dhcpParseLoop_ends pkt len xid lease
    refine ⟨log, hends, hlog, ?_⟩
    rw [dhcpParse_eq]

end VernisOS
