import Mathlib.Data.List.Basic
import Mathlib.Tactic.Set
import VernisOS.Dhcp

/-!
# One lease from one server

Runs of the DHCP client, with the messages that were given to `dhcp_parse`. One set of
variables is shared by all of them, so each ends with what the last message that carries it
says, whatever became of that message. The lease is that of one ACK and its OFFER exactly if
the ACK is of the server that was asked, and no other message was the last one to carry an
option that the ACK lacks (`dhcp_lease`).
-/

open Bytes

namespace VernisOS

/-- The options that `dhcp_parse` finds in the bytes from an option on. -/
def dhcpOptionList : ℕ → List UInt8 → List (UInt8 × List UInt8)
  | skip + 1, _ :: rest => dhcpOptionList skip rest
  | 0, opt :: olen :: rest =>
    if opt = 255 then []
    else if opt = 0 then dhcpOptionList 0 (olen :: rest)
    else if rest.length < olen.toNat then []
    else (opt, rest.take olen.toNat) :: dhcpOptionList olen.toNat rest
  | _, _ => []

/-- The value of an option with this code, if it is long enough to have one. -/
def optionValue (code : UInt8) (o : UInt8 × List UInt8) : Option UInt32 :=
  if o.1 = code ∧ 4 ≤ o.2.length then some (rdBe32 o.2 0) else none

/-- The value that a message carries for a code. -/
def messageOption (code : UInt8) (pkt : List UInt8) : Option UInt32 :=
  ((dhcpOptionList 0 (pkt.drop 240)).filterMap (optionValue code)).getLast?

/-- The type that an option gives a message. -/
def optionType (o : UInt8 × List UInt8) : Option UInt8 :=
  if o.1 = 53 ∧ 1 ≤ o.2.length then some (o.2.getD 0 0) else none

/-- The type of a message, 0 if it has none. -/
def messageType (pkt : List UInt8) : UInt8 :=
  ((dhcpOptionList 0 (pkt.drop 240)).filterMap optionType).getLast?.getD 0

/-- What an accepted message carries. -/
def carried (xid : UInt32) (code : UInt8) (pkt : List UInt8) : Option UInt32 :=
  if dhcpAccepts pkt xid then messageOption code pkt else none

/-- What the last message that carries a code says. -/
def lastCarried (xid : UInt32) (code : UInt8) (pkts : List (List UInt8)) : Option UInt32 :=
  (pkts.filterMap (carried xid code)).getLast?

/-- The address in the last message accepted. -/
def lastAddress (xid : UInt32) (pkts : List (List UInt8)) : Option UInt32 :=
  (pkts.filterMap fun pkt => if dhcpAccepts pkt xid then some (rdBe32 pkt 16) else none).getLast?

/-! ## Messages -/

/-- A variable that each step sets or leaves holds what was set last. -/
theorem foldl_last {α σ β : Type*} (f : σ → β) (step : σ → α → σ) (g : α → Option β)
    (h : ∀ s a, f (step s a) = (g a).getD (f s)) (as : List α) (s : σ) :
    f (as.foldl step s) = ((as.filterMap g).getLast?).getD (f s) := by
  induction as generalizing s with
  | nil => rfl
  | cons a as ih =>
    rw [List.foldl_cons, ih, h]
    cases hg : g a with
    | none => rw [List.filterMap_cons_none hg, Option.getD_none]
    | some b => rw [List.filterMap_cons_some hg, List.getLast?_cons, Option.getD_some,
        Option.getD_some]

theorem dhcpOptions_eq_foldl (skip : ℕ) (bytes : List UInt8) (r : DhcpReply) :
    dhcpOptions skip bytes r =
      (dhcpOptionList skip bytes).foldl (fun r o => r.option o.1 o.2) r := by
  induction skip, bytes, r using dhcpOptions.induct with
  | case1 skip _ rest r ih => simpa only [dhcpOptions, dhcpOptionList] using ih
  | case2 olen rest r => simp [dhcpOptions, dhcpOptionList]
  | case3 olen rest r h ih => simpa [dhcpOptions, dhcpOptionList, h] using ih
  | case4 opt olen rest r hend hpad hlen => simp [dhcpOptions, dhcpOptionList, hend, hpad, hlen]
  | case5 opt olen rest r hend hpad hlen ih =>
    simpa [dhcpOptions, dhcpOptionList, hend, hpad, hlen] using ih
  | case6 skip bytes r hskip hopt =>
    rw [dhcpOptions, dhcpOptionList]
    · rfl
    all_goals assumption

/-- What an option does to the variables. -/
theorem option_lease (r : DhcpReply) (o : UInt8 × List UInt8) :
    (r.option o.1 o.2).msgType = (optionType o).getD r.msgType ∧
      (r.option o.1 o.2).lease = ⟨r.lease.ip, (optionValue 1 o).getD r.lease.mask,
        (optionValue 3 o).getD r.lease.gw, (optionValue 6 o).getD r.lease.dns,
        (optionValue 54 o).getD r.lease.server⟩ := by
  unfold DhcpReply.option optionType optionValue
  by_cases hlen : 4 ≤ o.2.length
  · have hone : 1 ≤ o.2.length := by omega
    by_cases h₅₃ : o.1 = 53
    · simp [h₅₃, hone]
    by_cases h₁ : o.1 = 1
    · simp [h₁, hlen]
    by_cases h₃ : o.1 = 3
    · simp [h₃, hlen]
    by_cases h₆ : o.1 = 6
    · simp [h₆, hlen]
    by_cases h₅₄ : o.1 = 54
    · simp [h₅₄, hlen]
    · simp [h₅₃, h₁, h₃, h₆, h₅₄]
  · by_cases h₅₃ : o.1 = 53
    · by_cases hone : 1 ≤ o.2.length <;> simp [h₅₃, hone]
    · simp [h₅₃, hlen]

/-- What the options of a message do to the variables. -/
theorem foldl_option (opts : List (UInt8 × List UInt8)) (r : DhcpReply) :
    opts.foldl (fun r o => r.option o.1 o.2) r =
      ⟨(opts.filterMap optionType).getLast?.getD r.msgType,
        ⟨r.lease.ip, (opts.filterMap (optionValue 1)).getLast?.getD r.lease.mask,
          (opts.filterMap (optionValue 3)).getLast?.getD r.lease.gw,
          (opts.filterMap (optionValue 6)).getLast?.getD r.lease.dns,
          (opts.filterMap (optionValue 54)).getLast?.getD r.lease.server⟩⟩ := by
  have hlease := fun r o => (option_lease r o).2
  have hip := foldl_last (fun r : DhcpReply => r.lease.ip)
    (fun r (o : UInt8 × List UInt8) => r.option o.1 o.2) (fun _ => none)
    (fun r o => by rw [hlease r o]; rfl) opts r
  have htype := foldl_last DhcpReply.msgType _ optionType (fun r o => (option_lease r o).1) opts r
  have hmask := foldl_last (fun r : DhcpReply => r.lease.mask) _ (optionValue 1)
    (fun r o => congrArg DhcpLease.mask (hlease r o)) opts r
  have hgw := foldl_last (fun r : DhcpReply => r.lease.gw) _ (optionValue 3)
    (fun r o => congrArg DhcpLease.gw (hlease r o)) opts r
  have hdns := foldl_last (fun r : DhcpReply => r.lease.dns) _ (optionValue 6)
    (fun r o => congrArg DhcpLease.dns (hlease r o)) opts r
  have hserver := foldl_last (fun r : DhcpReply => r.lease.server) _ (optionValue 54)
    (fun r o => congrArg DhcpLease.server (hlease r o)) opts r
  have hnone : (opts.filterMap fun _ => (none : Option UInt32)) = [] := by simp
  rw [hnone] at hip
  exact DhcpReply.ext htype (DhcpLease.ext hip hmask hgw hdns hserver)

/-- The loop of `dhcp_parse` over all options. -/
theorem dhcpOptions_eq (bytes : List UInt8) (lease : DhcpLease) :
    dhcpOptions 0 bytes ⟨0, lease⟩ =
      ⟨((dhcpOptionList 0 bytes).filterMap optionType).getLast?.getD 0,
        ⟨lease.ip, ((dhcpOptionList 0 bytes).filterMap (optionValue 1)).getLast?.getD lease.mask,
          ((dhcpOptionList 0 bytes).filterMap (optionValue 3)).getLast?.getD lease.gw,
          ((dhcpOptionList 0 bytes).filterMap (optionValue 6)).getLast?.getD lease.dns,
          ((dhcpOptionList 0 bytes).filterMap (optionValue 54)).getLast?.getD lease.server⟩⟩ := by
  rw [dhcpOptions_eq_foldl, foldl_option]

/-- `dhcp_parse` takes from an accepted message what it carries. -/
theorem dhcpParse_eq (pkt : List UInt8) (xid : UInt32) (lease : DhcpLease) :
    dhcpParse pkt xid lease =
      (if dhcpAccepts pkt xid then messageType pkt else 0,
        ⟨if dhcpAccepts pkt xid then rdBe32 pkt 16 else lease.ip,
          (carried xid 1 pkt).getD lease.mask, (carried xid 3 pkt).getD lease.gw,
          (carried xid 6 pkt).getD lease.dns, (carried xid 54 pkt).getD lease.server⟩) := by
  unfold dhcpParse carried messageType messageOption
  generalize pkt.drop 240 = bytes
  rw [dhcpOptions_eq]
  by_cases hacc : dhcpAccepts pkt xid = true
  · simp only [hacc, if_true]
  · simp only [hacc]
    rfl

theorem dhcpOptionList_skip (v rest : List UInt8) :
    dhcpOptionList v.length (v ++ rest) = dhcpOptionList 0 rest := by
  induction v with
  | nil => rfl
  | cons x v ih => exact ih

/-- An option whose length is right is found, and the reading goes on behind it. -/
theorem dhcpOptionList_cons {opt olen : UInt8} {v rest : List UInt8} (hend : opt ≠ 255)
    (hpad : opt ≠ 0) (hlen : olen.toNat = v.length) :
    dhcpOptionList 0 (opt :: olen :: (v ++ rest)) = (opt, v) :: dhcpOptionList 0 rest := by
  refine (if_neg hend).trans ((if_neg hpad).trans ?_)
  rw [hlen, if_neg (by simp), List.take_left, dhcpOptionList_skip]

theorem dhcpOptionList_end (rest : List UInt8) : dhcpOptionList 0 (255 :: rest) = [] := by
  cases rest with
  | nil => rfl
  | cons => exact if_pos rfl

theorem length_dhcpHeader (xid : UInt32) (mac : Fin 6 → UInt8) :
    (dhcpHeader xid mac).length = 240 := by
  simp only [dhcpHeader, List.length_append, List.length_replicate, List.length_ofFn,
    be32, List.length_cons, List.length_nil]

/-- An option that is only there where its value is not 0. -/
theorem dhcpOptionList_option32 {code : UInt8} {value : UInt32} {rest : List UInt8}
    (hend : code ≠ 255) (hpad : code ≠ 0) :
    dhcpOptionList 0 ((if value ≠ 0 then dhcpOption32 code value else []) ++ rest) =
      (if value ≠ 0 then [(code, be32 value)] else []) ++ dhcpOptionList 0 rest := by
  split
  · exact dhcpOptionList_cons (v := be32 value) hend hpad rfl
  · rfl

/-- The options of a message of the client. -/
theorem dhcpOptionList_dhcpBuild (xid : UInt32) (mac : Fin 6 → UInt8) (msgType : UInt8)
    (reqIp serverIp : UInt32) :
    dhcpOptionList 0 ((dhcpBuild xid mac msgType reqIp serverIp).drop 240) =
      (53, [msgType]) :: ((if reqIp ≠ 0 then [(50, be32 reqIp)] else []) ++
        ((if serverIp ≠ 0 then [(54, be32 serverIp)] else []) ++ [(55, [1, 3, 6])])) := by
  unfold dhcpBuild
  dsimp only
  rw [← length_dhcpHeader xid mac, List.drop_left, List.rightpad]
  generalize List.replicate _ (0 : UInt8) = pad
  have hlast : dhcpOptionList 0 ([55, 3, 1, 3, 6, 255] ++ pad) = [(55, [1, 3, 6])] := by
    rw [← dhcpOptionList_end pad]
    exact dhcpOptionList_cons (v := [1, 3, 6]) (by decide) (by decide) rfl
  rw [List.append_assoc, List.append_assoc, List.append_assoc]
  rw [← hlast, ← dhcpOptionList_option32 (by decide) (by decide),
    ← dhcpOptionList_option32 (by decide) (by decide)]
  exact dhcpOptionList_cons (v := [msgType]) (by decide) (by decide) rfl

/-- A message of the client carries the server it asks, if that is not 0. -/
theorem messageOption_dhcpBuild (xid : UInt32) (mac : Fin 6 → UInt8) (msgType : UInt8)
    (reqIp serverIp : UInt32) :
    messageOption 54 (dhcpBuild xid mac msgType reqIp serverIp) =
      if serverIp = 0 then none else some serverIp := by
  have hserver : optionValue 54 (54, be32 serverIp) = some serverIp :=
    congrArg some (ofBe32_be32 serverIp)
  have htype : optionValue 54 (53, [msgType]) = none := rfl
  have hip : (if reqIp ≠ 0 then [(50, be32 reqIp)] else []).filterMap (optionValue 54) = [] := by
    split <;> rfl
  have hlast : [((55 : UInt8), [1, 3, 6])].filterMap (optionValue 54) = [] := rfl
  rw [messageOption, dhcpOptionList_dhcpBuild, List.filterMap_cons_none htype,
    List.filterMap_append, List.filterMap_append, hip, hlast, List.append_nil, List.nil_append]
  by_cases hzero : serverIp = 0
  · rw [if_neg (not_not.mpr hzero), if_pos hzero]
    rfl
  · rw [if_pos hzero, if_neg hzero, List.filterMap_cons_some hserver]
    rfl

theorem messageType_dhcpBuild (xid : UInt32) (mac : Fin 6 → UInt8) (msgType : UInt8)
    (reqIp serverIp : UInt32) :
    messageType (dhcpBuild xid mac msgType reqIp serverIp) = msgType := by
  have htype : optionType (53, [msgType]) = some msgType := rfl
  have hip : (if reqIp ≠ 0 then [(50, be32 reqIp)] else []).filterMap optionType = [] := by
    split <;> rfl
  have hserver : (if serverIp ≠ 0 then [(54, be32 serverIp)] else []).filterMap optionType =
      [] := by
    split <;> rfl
  have hlast : [((55 : UInt8), [1, 3, 6])].filterMap optionType = [] := rfl
  rw [messageType, dhcpOptionList_dhcpBuild, List.filterMap_cons_some htype,
    List.filterMap_append, List.filterMap_append, hip, hserver, hlast]
  rfl

/-! ## The log of a run -/

/-- The client, with the messages given to `dhcp_parse`, and those given to it up to the last
REQUEST. -/
structure DhcpLog where
  client : DhcpClient
  parsed : List (List UInt8)
  asked : List (List UInt8)

/-- The message that a step gives to `dhcp_parse`. -/
def DhcpClient.parses (d : DhcpClient) (i : DhcpTick) : List (List UInt8) :=
  let d := d.receive i.packets
  match d.phase with
  | .offer _ start =>
    if i.tick - start < d.hz * 2 then [d.recv.1].filter (· ≠ []) else []
  | .ack _ start =>
    if i.tick - start < d.hz * 2 then [d.recv.1].filter (· ≠ []) else []
  | _ => []

namespace DhcpLog

/-- One step. -/
def step (s : DhcpLog) (i : DhcpTick) : DhcpLog where
  client := s.client.step i
  parsed := s.parsed ++ s.client.parses i
  asked := match (s.client.step i).phase with
    | .request _ => s.parsed ++ s.client.parses i
    | _ => s.asked

/-- The OFFER that the last REQUEST answers. -/
def offer (s : DhcpLog) : List UInt8 :=
  s.asked.getLast?.getD []

/-- The message that was read last. -/
def last (s : DhcpLog) : List UInt8 :=
  s.parsed.getLast?.getD []

/-- The lease is that of the message read last : an ACK of the server that the last REQUEST
asked, filled up from the OFFER that the REQUEST answers. -/
structure OneLease (s : DhcpLog) : Prop where
  offer : dhcpAccepts s.offer s.client.xid = true ∧ messageType s.offer = 2
  ack : dhcpAccepts s.last s.client.xid = true ∧ messageType s.last = 5
  ip : s.client.lease.ip = rdBe32 s.last 16
  server : ∃ request id, s.client.sent.getLast? = some request ∧ messageType request = 3 ∧
    messageOption 54 request = some id ∧ messageOption 54 s.last = some id
  mask : s.client.lease.mask = (messageOption 1 s.last).getD ((messageOption 1 s.offer).getD 0)
  gw : s.client.lease.gw = (messageOption 3 s.last).getD ((messageOption 3 s.offer).getD 0)
  dns : s.client.lease.dns = (messageOption 6 s.last).getD ((messageOption 6 s.offer).getD 0)

/-- The message read last carries the server that was known when the last REQUEST was sent,
and an option that it lacks was carried last with the value of the OFFER. -/
structure OneServer (s : DhcpLog) : Prop where
  server : ∃ id ≠ 0, messageOption 54 s.last = some id ∧
    lastCarried s.client.xid 54 s.asked = some id
  options : ∀ code ∈ [1, 3, 6], messageOption code s.last = none →
    (lastCarried s.client.xid code s.parsed.dropLast).getD 0 =
      (messageOption code s.offer).getD 0

/-- The variables after the messages of the log. -/
def leaseOf (xid : UInt32) (pkts : List (List UInt8)) : DhcpLease :=
  ⟨(lastAddress xid pkts).getD 0, (lastCarried xid 1 pkts).getD 0, (lastCarried xid 3 pkts).getD 0,
    (lastCarried xid 6 pkts).getD 0, (lastCarried xid 54 pkts).getD 0⟩

/-- The last REQUEST answers an OFFER and asks the server known then. -/
structure Asked (s : DhcpLog) : Prop where
  offer : dhcpAccepts s.offer s.client.xid = true ∧ messageType s.offer = 2
  request : ∃ ip, s.client.sent.getLast? = some (dhcpBuild s.client.xid s.client.mac 3 ip
    ((lastCarried s.client.xid 54 s.asked).getD 0))

/-- The client waits for an ACK, or has one. -/
def waits : DhcpPhase → Bool
  | .request _ => true
  | .ack _ _ => true
  | .done rc => rc == 0
  | _ => false

/-- The variables hold what the messages say, and a REQUEST that is waited for was sent. -/
structure Inv (s : DhcpLog) : Prop where
  lease : s.client.lease = leaseOf s.client.xid s.parsed
  asked : waits s.client.phase = true → s.Asked
  acked : s.client.phase = .done 0 → s.parsed ≠ [] ∧
    dhcpAccepts s.last s.client.xid = true ∧ messageType s.last = 5

variable {s : DhcpLog} {i : DhcpTick}

theorem lastCarried_concat (xid : UInt32) (code : UInt8) (pkts : List (List UInt8))
    (pkt : List UInt8) (d : UInt32) :
    (lastCarried xid code (pkts ++ [pkt])).getD d =
      (carried xid code pkt).getD ((lastCarried xid code pkts).getD d) := by
  unfold lastCarried
  rw [List.filterMap_append]
  cases h : carried xid code pkt with
  | none => rw [List.filterMap_cons_none h, List.filterMap_nil, List.append_nil, Option.getD_none]
  | some v =>
    rw [List.filterMap_cons_some h, List.filterMap_nil, List.getLast?_concat, Option.getD_some,
      Option.getD_some]

theorem lastAddress_concat (xid : UInt32) (pkts : List (List UInt8)) (pkt : List UInt8) :
    (lastAddress xid (pkts ++ [pkt])).getD 0 =
      if dhcpAccepts pkt xid then rdBe32 pkt 16 else (lastAddress xid pkts).getD 0 := by
  unfold lastAddress
  rw [List.filterMap_append]
  by_cases h : dhcpAccepts pkt xid = true
  · simp [h]
  · simp [h]

/-- `dhcp_parse` keeps the variables what the messages say. -/
theorem leaseOf_concat (xid : UInt32) (pkts : List (List UInt8)) (pkt : List UInt8) :
    (dhcpParse pkt xid (leaseOf xid pkts)).2 = leaseOf xid (pkts ++ [pkt]) := by
  rw [dhcpParse_eq, leaseOf, leaseOf]
  simp only [lastCarried_concat, lastAddress_concat]

/-! ## One step -/

/-- A client that waits for nothing. -/
theorem inv_of_idle (hlease : s.client.lease = leaseOf s.client.xid s.parsed)
    (hidle : waits s.client.phase = false) : s.Inv := by
  refine ⟨hlease, fun h => ?_, fun h => ?_⟩
  · rw [hidle] at h
    cases h
  · rw [h] at hidle
    cases hidle

/-- What a step can do. -/
inductive Stepped (d d' : DhcpClient) : List (List UInt8) → Prop
  | quiet (hlease : d'.lease = d.lease) (hsent : d'.sent = d.sent)
      (hphase : (d'.phase = d.phase ∧ ∀ a, d.phase ≠ .request a) ∨
        (∃ a t, d'.phase = .offer a t) ∨ ∃ a t, d.phase = .request a ∧ d'.phase = .ack a t) :
      Stepped d d' []
  | attempt (hlease : d'.lease = d.lease) (hidle : waits d'.phase = false) : Stepped d d' []
  | answer (pkt : List UInt8) (hlease : d'.lease = (dhcpParse pkt d.xid d.lease).2)
      (hphase : waits d'.phase = false ∨
        d'.sent = d.sent ∧ ∃ a t, d.phase = .ack a t ∧ d'.phase = .ack a t) :
      Stepped d d' [pkt]
  | offer (pkt : List UInt8) (a : ℕ) (htype : (dhcpParse pkt d.xid d.lease).1 = 2)
      (hlease : d'.lease = (dhcpParse pkt d.xid d.lease).2) (hphase : d'.phase = .request a)
      (hsent : d'.sent = d.sent ++ [dhcpBuild d.xid d.mac 3 d'.lease.ip d'.lease.server]) :
      Stepped d d' [pkt]
  | ack (pkt : List UInt8) (htype : (dhcpParse pkt d.xid d.lease).1 = 5)
      (hlease : d'.lease = (dhcpParse pkt d.xid d.lease).2) (hwaits : waits d.phase = true)
      (hphase : d'.phase = .done 0) (hsent : d'.sent = d.sent) : Stepped d d' [pkt]

theorem waits_startAttempt (d : DhcpClient) (attempt : ℕ) :
    waits (d.startAttempt attempt).phase = false ∧
      (d.startAttempt attempt).lease = d.lease ∧ (d.startAttempt attempt).xid = d.xid ∧
      (d.startAttempt attempt).mac = d.mac := by
  unfold DhcpClient.startAttempt
  split <;> exact ⟨rfl, rfl, rfl, rfl⟩

theorem Stepped.of_receive {d d' : DhcpClient} {packets : List (UInt32 × List UInt8)}
    {pkts : List (List UInt8)} (h : Stepped (d.receive packets) d' pkts) : Stepped d d' pkts := by
  cases h with
  | quiet hlease hsent hphase => exact .quiet hlease hsent hphase
  | attempt hlease hidle => exact .attempt hlease hidle
  | answer pkt hlease hphase => exact .answer pkt hlease hphase
  | offer pkt a htype hlease hphase hsent => exact .offer pkt a htype hlease hphase hsent
  | ack pkt htype hlease hwaits hphase hsent => exact .ack pkt htype hlease hwaits hphase hsent

theorem stepped_pollOffer (d : DhcpClient) {attempt : ℕ} {start : UInt32}
    (hd : d.phase = .offer attempt start) :
    Stepped d (d.pollOffer attempt) ([d.recv.1].filter (· ≠ [])) ∧
      (d.pollOffer attempt).xid = d.xid ∧ (d.pollOffer attempt).mac = d.mac := by
  unfold DhcpClient.pollOffer
  dsimp only
  by_cases hnil : d.recv.1 = []
  · rw [if_pos hnil, hnil]
    exact ⟨.quiet rfl rfl (Or.inl ⟨rfl, fun a => by rw [hd]; nofun⟩), rfl, rfl⟩
  · rw [if_neg hnil, List.filter_cons_of_pos (by simpa using hnil), List.filter_nil]
    by_cases htype : (dhcpParse d.recv.1 d.recv.2.xid d.recv.2.lease).1 = 2
    · rw [if_pos htype]
      exact ⟨.offer _ attempt htype rfl rfl rfl, rfl, rfl⟩
    · rw [if_neg htype]
      refine ⟨.answer _ rfl (Or.inl ?_), rfl, rfl⟩
      change waits d.phase = false
      rw [hd]
      rfl

theorem stepped_pollAck (d : DhcpClient) {attempt : ℕ} {start : UInt32}
    (hd : d.phase = .ack attempt start) :
    Stepped d (d.pollAck attempt) ([d.recv.1].filter (· ≠ [])) ∧
      (d.pollAck attempt).xid = d.xid ∧ (d.pollAck attempt).mac = d.mac := by
  unfold DhcpClient.pollAck
  dsimp only
  by_cases hnil : d.recv.1 = []
  · rw [if_pos hnil, hnil]
    exact ⟨.quiet rfl rfl (Or.inl ⟨rfl, fun a => by rw [hd]; nofun⟩), rfl, rfl⟩
  · rw [if_neg hnil, List.filter_cons_of_pos (by simpa using hnil), List.filter_nil]
    by_cases hack : (dhcpParse d.recv.1 d.recv.2.xid d.recv.2.lease).1 = 5
    · rw [if_pos hack]
      exact ⟨.ack _ hack rfl (by rw [hd]; rfl) rfl rfl, rfl, rfl⟩
    · rw [if_neg hack]
      by_cases hnak : (dhcpParse d.recv.1 d.recv.2.xid d.recv.2.lease).1 = 6
      · rw [if_pos hnak]
        obtain ⟨hidle, hlease, hxid, hmac⟩ := waits_startAttempt
          { d.recv.2 with lease := (dhcpParse d.recv.1 d.recv.2.xid d.recv.2.lease).2 }
          (attempt + 1)
        exact ⟨.answer _ hlease (Or.inl hidle), hxid, hmac⟩
      · rw [if_neg hnak]
        exact ⟨.answer _ rfl (Or.inr ⟨rfl, attempt, start, hd, hd⟩), rfl, rfl⟩

theorem stepped (d : DhcpClient) (i : DhcpTick) :
    Stepped d (d.step i) (d.parses i) ∧ (d.step i).xid = d.xid ∧ (d.step i).mac = d.mac := by
  unfold DhcpClient.step DhcpClient.parses
  dsimp only
  have hph : (d.receive i.packets).phase = d.phase := rfl
  have hattempt := waits_startAttempt (d.receive i.packets)
  rw [hph]
  cases hd : d.phase with
  | discover attempt => exact ⟨.quiet rfl rfl (Or.inr (Or.inl ⟨_, _, rfl⟩)), rfl, rfl⟩
  | request attempt => exact ⟨.quiet rfl rfl (Or.inr (Or.inr ⟨_, _, hd, rfl⟩)), rfl, rfl⟩
  | done rc => exact ⟨.quiet rfl rfl (Or.inl ⟨rfl, fun a => by rw [hd]; nofun⟩), rfl, rfl⟩
  | offer attempt start =>
    dsimp only
    split
    · obtain ⟨hstep, hsame⟩ := stepped_pollOffer (d.receive i.packets) hd
      exact ⟨hstep.of_receive, hsame⟩
    · obtain ⟨hidle, hlease, hsame⟩ := hattempt (attempt + 1)
      exact ⟨.attempt hlease hidle, hsame⟩
  | ack attempt start =>
    dsimp only
    split
    · obtain ⟨hstep, hsame⟩ := stepped_pollAck (d.receive i.packets) hd
      exact ⟨hstep.of_receive, hsame⟩
    · obtain ⟨hidle, hlease, hsame⟩ := hattempt (attempt + 1)
      exact ⟨.attempt hlease hidle, hsame⟩

/-- A message with a type is an accepted one. -/
theorem accepts_of_type {pkt : List UInt8} {xid : UInt32} {lease : DhcpLease} {t : UInt8}
    (ht : t ≠ 0) (h : (dhcpParse pkt xid lease).1 = t) :
    dhcpAccepts pkt xid = true ∧ messageType pkt = t := by
  rw [dhcpParse_eq] at h
  by_cases hacc : dhcpAccepts pkt xid = true
  · exact ⟨hacc, (if_pos hacc).symm.trans h⟩
  · exact absurd ((if_neg hacc).symm.trans h).symm ht

/-- The OFFER and REQUEST stay the same while the client waits. -/
theorem Asked.keep {s' : DhcpLog} (h : s.Asked) (hasked : s'.asked = s.asked)
    (hsent : s'.client.sent = s.client.sent) (hxid : s'.client.xid = s.client.xid)
    (hmac : s'.client.mac = s.client.mac) : s'.Asked := by
  have hoffer : s'.offer = s.offer := congrArg (fun l => l.getLast?.getD []) hasked
  refine ⟨by rw [hoffer, hxid]; exact h.offer, ?_⟩
  rw [hsent, hxid, hmac, hasked]
  exact h.request

theorem step_asked (s : DhcpLog) (i : DhcpTick)
    (h : ∀ a, (s.client.step i).phase ≠ .request a) : (s.step i).asked = s.asked := by
  change (match (s.client.step i).phase with
    | .request _ => s.parsed ++ s.client.parses i
    | _ => s.asked) = s.asked
  split
  · next a ha => exact absurd ha (h a)
  · rfl

theorem Inv.lease_parsed (h : s.Inv) (pkt : List UInt8) :
    (dhcpParse pkt s.client.xid s.client.lease).2 = leaseOf s.client.xid (s.parsed ++ [pkt]) := by
  rw [h.lease, leaseOf_concat]

theorem Inv.step (h : s.Inv) (i : DhcpTick) : (s.step i).Inv := by
  obtain ⟨hstep, hxid, hmac⟩ := stepped s.client i
  have hasked := s.step_asked i
  have hparsed : (s.step i).parsed = s.parsed ++ s.client.parses i := rfl
  have hclient : (s.step i).client = s.client.step i := rfl
  rw [← hclient] at hstep hxid hmac hasked
  generalize s.client.parses i = pkts at hstep hparsed
  cases hstep with
  | quiet hlease hsent hphase =>
    rw [List.append_nil] at hparsed
    have hlease' : (s.step i).client.lease = leaseOf (s.step i).client.xid (s.step i).parsed := by
      rw [hlease, hxid, hparsed]
      exact h.lease
    rcases hphase with ⟨hph, hreq⟩ | ⟨a, t, hph⟩ | ⟨a, t, hph, hph'⟩
    · rw [hph] at hasked
      refine ⟨hlease', fun hwaits => ?_, fun hdone => ?_⟩
      · rw [hph] at hwaits
        exact (h.asked hwaits).keep (hasked hreq) hsent hxid hmac
      · rw [hph] at hdone
        rw [last, hparsed, hxid]
        exact h.acked hdone
    · exact inv_of_idle hlease' (by rw [hph]; rfl)
    · rw [hph'] at hasked
      refine ⟨hlease', fun _ => ?_, fun hdone => ?_⟩
      · exact (h.asked (by rw [hph]; rfl)).keep (hasked (by nofun)) hsent hxid hmac
      · rw [hph'] at hdone
        cases hdone
  | attempt hlease hidle =>
    rw [List.append_nil] at hparsed
    exact inv_of_idle (by rw [hlease, hxid, hparsed]; exact h.lease) hidle
  | answer pkt hlease hphase =>
    have hlease' := hlease.trans (h.lease_parsed pkt)
    rw [← hparsed, ← hxid] at hlease'
    rcases hphase with hidle | ⟨hsent, a, t, hph, hph'⟩
    · exact inv_of_idle hlease' hidle
    · rw [hph'] at hasked
      refine ⟨hlease', fun _ => ?_, fun hdone => ?_⟩
      · exact (h.asked (by rw [hph]; rfl)).keep (hasked (by nofun)) hsent hxid hmac
      · rw [hph'] at hdone
        cases hdone
  | offer pkt a htype hlease hphase hsent =>
    have hlease' := hlease.trans (h.lease_parsed pkt)
    rw [← hparsed, ← hxid] at hlease'
    have hasked' : (s.step i).asked = (s.step i).parsed := by
      change (match (s.step i).client.phase with
        | .request _ => (s.step i).parsed
        | _ => s.asked) = (s.step i).parsed
      rw [hphase]
    have hoffer : (s.step i).offer = pkt := by
      rw [DhcpLog.offer, hasked', hparsed, List.getLast?_concat, Option.getD_some]
    refine ⟨hlease', fun _ => ⟨?_, (s.step i).client.lease.ip, ?_⟩, fun hdone => ?_⟩
    · rw [hoffer, hxid]
      exact accepts_of_type (by decide) htype
    · rw [hsent, List.getLast?_concat, hasked', hxid, hmac]
      rw [hxid] at hlease'
      rw [show (s.step i).client.lease.server = _ from congrArg DhcpLease.server hlease']
      rfl
    · rw [hphase] at hdone
      cases hdone
  | ack pkt htype hlease hwaits hphase hsent =>
    have hlease' := hlease.trans (h.lease_parsed pkt)
    rw [← hparsed, ← hxid] at hlease'
    rw [hphase] at hasked
    refine ⟨hlease', fun _ => (h.asked hwaits).keep (hasked (by nofun)) hsent hxid hmac,
      fun _ => ?_⟩
    have hlast : (s.step i).last = pkt := by
      rw [last, hparsed, List.getLast?_concat, Option.getD_some]
    rw [hlast, hparsed, hxid]
    exact ⟨List.append_ne_nil_of_right_ne_nil _ (List.cons_ne_nil _ _),
      accepts_of_type (by decide) htype⟩

/-! ## Runs -/

/-- A variable holds what the last message says, else what the OFFER says, where the messages
before the last one agree with the OFFER. -/
theorem value_iff {xid : UInt32} {last : List UInt8} (hacc : dhcpAccepts last xid = true)
    (code : UInt8) (before : List (List UInt8)) (offer : List UInt8) :
    (lastCarried xid code (before ++ [last])).getD 0 =
        (messageOption code last).getD ((messageOption code offer).getD 0) ↔
      (messageOption code last = none →
        (lastCarried xid code before).getD 0 = (messageOption code offer).getD 0) := by
  rw [lastCarried_concat, carried, if_pos hacc]
  cases messageOption code last with
  | none => exact ⟨fun h _ => h, fun h => h rfl⟩
  | some v => exact ⟨fun _ h => (by cases h), fun _ => rfl⟩

/-- The last REQUEST and the last message name the same server. -/
theorem Asked.server_iff (h : s.Asked) :
    (∃ request id, s.client.sent.getLast? = some request ∧ messageType request = 3 ∧
      messageOption 54 request = some id ∧ messageOption 54 s.last = some id) ↔
    ∃ id ≠ 0, messageOption 54 s.last = some id ∧
      lastCarried s.client.xid 54 s.asked = some id := by
  obtain ⟨ip, hsent⟩ := h.request
  rw [hsent]
  constructor
  · rintro ⟨request, id, hreq, -, hid, hlast⟩
    cases hreq
    rw [messageOption_dhcpBuild] at hid
    cases hserver : lastCarried s.client.xid 54 s.asked with
    | none =>
      rw [hserver] at hid
      cases hid
    | some server =>
      rw [hserver, Option.getD_some] at hid
      split at hid
      · cases hid
      · next hne =>
        cases hid
        exact ⟨id, hne, hlast, rfl⟩
  · rintro ⟨id, hne, hlast, hserver⟩
    refine ⟨_, id, rfl, messageType_dhcpBuild _ _ _ _ _, ?_, hlast⟩
    rw [messageOption_dhcpBuild, hserver, Option.getD_some, if_neg hne]

theorem Inv.oneLease_iff (h : s.Inv) (hdone : s.client.phase = .done 0) :
    s.OneLease ↔ s.OneServer := by
  obtain ⟨hne, hack⟩ := h.acked hdone
  have hasked := h.asked (by rw [hdone]; rfl)
  have hparsed : s.parsed = s.parsed.dropLast ++ [s.last] := by
    rw [last, List.getLast?_eq_some_getLast hne, Option.getD_some, List.dropLast_append_getLast]
  have hvalue := fun code => value_iff hack.1 code s.parsed.dropLast s.offer
  rw [← hparsed] at hvalue
  have hlease := h.lease
  have hip : s.client.lease.ip = rdBe32 s.last 16 := by
    rw [hlease, leaseOf, hparsed, lastAddress_concat, if_pos hack.1]
  have hmask : s.client.lease.mask = _ := congrArg DhcpLease.mask hlease
  have hgw : s.client.lease.gw = _ := congrArg DhcpLease.gw hlease
  have hdns : s.client.lease.dns = _ := congrArg DhcpLease.dns hlease
  constructor
  · intro hone
    refine ⟨hasked.server_iff.mp hone.server, fun code hcode => (hvalue code).mp ?_⟩
    simp only [List.mem_cons, List.not_mem_nil, or_false] at hcode
    rcases hcode with rfl | rfl | rfl
    · exact hmask.symm.trans hone.mask
    · exact hgw.symm.trans hone.gw
    · exact hdns.symm.trans hone.dns
  · intro hserver
    have hopt := fun code hcode => (hvalue code).mpr (hserver.options code hcode)
    exact ⟨hasked.offer, hack, hip, hasked.server_iff.mpr hserver.server,
      hmask.trans (hopt 1 (by simp)), hgw.trans (hopt 3 (by simp)), hdns.trans (hopt 6 (by simp))⟩

/-- The client at the start of `dhcp_run`. -/
def start (d : DhcpClient) : DhcpLog :=
  ⟨d, [], []⟩

/-- A run. -/
def run (d : DhcpClient) (is : List DhcpTick) : DhcpLog :=
  is.foldl step (start d)

theorem inv_start {udp : UdpStack} {mac : Fin 6 → UInt8} {hz tick : UInt32} {d : DhcpClient}
    (h : DhcpClient.start udp mac hz tick = some d) : (start d).Inv := by
  unfold DhcpClient.start at h
  split at h
  · cases h
  · cases h
    exact inv_of_idle rfl rfl

theorem inv_run {s : DhcpLog} (h : s.Inv) (is : List DhcpTick) : (is.foldl step s).Inv := by
  induction is generalizing s with
  | nil => exact h
  | cons i is ih => exact ih (h.step i)

end DhcpLog

/-- Whatever segments arrive while `dhcp_run` runs : if it returns 0, its lease is that of one
ACK of the server it asked and of the OFFER it answered, exactly if the ACK names that server,
and every option that the ACK lacks was carried last with the value that the OFFER has. -/
theorem dhcp_lease (udp : UdpStack) (mac : Fin 6 → UInt8) (hz tick : UInt32) (d : DhcpClient)
    (hstart : DhcpClient.start udp mac hz tick = some d) (is : List DhcpTick)
    (hdone : (DhcpLog.run d is).client.phase = .done 0) :
    (DhcpLog.run d is).OneLease ↔ (DhcpLog.run d is).OneServer :=
  (DhcpLog.inv_run (DhcpLog.inv_start hstart) is).oneLease_iff hdone

/-- A segment from a server with a DHCP message for the transaction 0. -/
def dhcpSegment (yiaddr : UInt32) (opts : List UInt8) : UInt32 × List UInt8 :=
  (1, [0, 67, 0, 68, 0, 0, 0, 0] ++ [2, 1, 6, 0] ++ List.replicate 12 0 ++ be32 yiaddr ++
    List.replicate 216 0 ++ be32 dhcpMagic ++ opts)

/-- An OFFER of server 1 with a mask arrives, and an ACK without one. -/
def leaseRun (server : UInt32) : List DhcpTick :=
  [⟨0, []⟩, ⟨0, [dhcpSegment 9 ([53, 1, 2] ++ dhcpOption32 1 255 ++ dhcpOption32 54 1)]⟩, ⟨0, []⟩,
    ⟨0, [dhcpSegment 9 ([53, 1, 5] ++ dhcpOption32 54 server)]⟩]

/-- The client that is started on free sockets at tick 0, with an address of zeros. -/
def firstClient : Option DhcpClient :=
  DhcpClient.start .udpInit (fun _ => 0) 100 0

theorem isSome_firstClient : firstClient.isSome = true := by
  decide +kernel

theorem dhcp_lease_leaseRun : ∃ d, firstClient = some d ∧
    (DhcpLog.run d (leaseRun 1)).client.phase = .done 0 ∧
    (DhcpLog.run d (leaseRun 1)).OneLease := by
  have hstart : firstClient = some (firstClient.get isSome_firstClient) := by
    rw [Option.some_get]
  have hdone : (DhcpLog.run (firstClient.get isSome_firstClient) (leaseRun 1)).client.phase =
      .done 0 := by
    decide +kernel
  refine ⟨_, hstart, hdone, (dhcp_lease _ _ _ _ _ hstart _ hdone).mpr ⟨⟨1, ?_⟩, ?_⟩⟩
  · decide +kernel
  · decide +kernel

/-- The ACK is of another server, and is taken. -/
theorem not_dhcp_lease_other : ∃ d, firstClient = some d ∧
    (DhcpLog.run d (leaseRun 2)).client.phase = .done 0 ∧
    ¬ (DhcpLog.run d (leaseRun 2)).OneLease := by
  have hstart : firstClient = some (firstClient.get isSome_firstClient) := by
    rw [Option.some_get]
  refine ⟨_, hstart, by decide +kernel, fun h => ?_⟩
  obtain ⟨request, id, hsent, -, hid, hlast⟩ := h.server
  have hrequest : (DhcpLog.run (firstClient.get isSome_firstClient) (leaseRun 2)).client.sent.getLast?.all
      (fun request => messageOption 54 request == some 1) = true := by
    decide +kernel
  have hack : messageOption 54
      (DhcpLog.run (firstClient.get isSome_firstClient) (leaseRun 2)).last = some 2 := by
    decide +kernel
  rw [hack] at hlast
  cases hlast
  rw [hsent, Option.all_some, hid] at hrequest
  exact absurd hrequest (by decide)

end VernisOS
