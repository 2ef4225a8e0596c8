import VernisOS.Lib.Bytes
import VernisOS.Lib.FirstCome

/-!
# The ARP cache

`net_dispatch_frame` and the ARP cache of `kernel/arch/x86_64/kernel_x64.c`. What a frame hands on
to TCP or UDP is part of its result : neither of them stores into the cache.

The cache has eight entries and evicts none, so that it is a `FirstCome.table`
(`arpCache_netRun`).
-/

open Bytes

namespace VernisOS

/-- `NET_ARP_CACHE`. -/
def netArpCache : ℕ := 8

/-- `ArpEntry`. -/
structure ArpEntry where
  ip : List UInt8
  mac : List UInt8
  valid : Bool
deriving DecidableEq

/-- An entry of the table at the start. -/
def arpEntryZero : ArpEntry :=
  ⟨List.replicate 4 0, List.replicate 6 0, false⟩

/-- `net_arp_cache_insert`. -/
def netArpCacheInsert : List ArpEntry → List UInt8 → List UInt8 → List ArpEntry
  | [], _, _ => []
  | e :: rest, ip, mac =>
    if e.valid = false ∨ e.ip = ip then ⟨ip, mac, true⟩ :: rest
    else e :: netArpCacheInsert rest ip mac

/-- `net_arp_lookup`. -/
def netArpLookup (cache : List ArpEntry) (ip : List UInt8) : Option (List UInt8) :=
  (cache.find? fun e => e.valid && decide (e.ip = ip)).map ArpEntry.mac

/-- What the dispatch of frames reads and leaves : `arp_cache`, `net_ip`, `e1000_mac` and
`g_icmp_echo_seq`. -/
structure NetLink where
  arpCache : List ArpEntry
  netIp : List UInt8
  e1000Mac : List UInt8
  icmpEchoSeq : UInt16
deriving DecidableEq

/-- The state before the first frame. -/
def netLinkInit (netIp e1000Mac : List UInt8) : NetLink :=
  ⟨List.replicate netArpCache arpEntryZero, netIp, e1000Mac, 0⟩

/-- What a frame comes to beside the state : a frame that is sent, or a segment that is handed on
with the addresses of its packet. -/
inductive NetAction
  | send (frame : List UInt8)
  | tcp (src dst segment : List UInt8)
  | udp (src dst segment : List UInt8)
  | none

/-- `n` bytes of a frame. -/
def frameBytes (buf : List UInt8) (o n : ℕ) : List UInt8 :=
  (buf.drop o).take n

/-- `ntohs` of a field of a frame. -/
def frameField (buf : List UInt8) (o : ℕ) : UInt16 :=
  ofBe16 (buf.getD o 0) (buf.getD (o + 1) 0)

/-- The reply to an ARP request. -/
def arpReply (s : NetLink) (data : List UInt8) : List UInt8 :=
  frameBytes data 8 6 ++ s.e1000Mac ++ [0x08, 0x06] ++ [0, 1, 0x08, 0, 6, 4, 0, 2] ++ s.e1000Mac ++
    s.netIp ++ frameBytes data 8 6 ++ frameBytes data 14 4

/-- `net_handle_arp`. -/
def netHandleArp (s : NetLink) (data : List UInt8) : NetLink × NetAction :=
  if data.length < 28 then (s, .none)
  else
    let action : NetAction :=
      if frameField data 6 = 1 ∧ frameBytes data 24 4 = s.netIp then .send (arpReply s data)
      else .none
    if frameField data 6 = 2 then
      ({ s with
        arpCache := netArpCacheInsert s.arpCache (frameBytes data 14 4) (frameBytes data 8 6) },
        action)
    else (s, action)

/-- `ihl` of the packet in a frame. -/
def frameIhl (buf : List UInt8) : ℕ :=
  (buf.getD 14 0 &&& 0x0F).toNat * 4

/-- `tot` : the length of the packet, or what the frame has of it. -/
def frameTot (buf : List UInt8) : ℕ :=
  let tot := (frameField buf 16).toNat
  if tot < frameIhl buf ∨ buf.length < 14 + tot then buf.length - 14 else tot

/-- `net_dispatch_frame`. -/
def netDispatchFrame (s : NetLink) (buf : List UInt8) : NetLink × NetAction :=
  if buf.length < 14 then (s, .none)
  else if frameField buf 12 = 0x0806 then netHandleArp s (buf.drop 14)
  else if frameField buf 12 ≠ 0x0800 ∨ buf.length < 34 then (s, .none)
  else if frameIhl buf < 20 ∨ buf.length < 14 + frameIhl buf then (s, .none)
  else
    let s := { s with
      arpCache := netArpCacheInsert s.arpCache (frameBytes buf 26 4) (frameBytes buf 6 6) }
    let segment := frameBytes buf (14 + frameIhl buf) (frameTot buf - frameIhl buf)
    let protocol := buf.getD 23 0
    if protocol = 1 ∧ frameIhl buf + 8 ≤ frameTot buf then
      if segment.getD 0 0 = 0 then ({ s with icmpEchoSeq := frameField segment 6 }, .none)
      else (s, .none)
    else if protocol = 6 then (s, .tcp (frameBytes buf 26 4) (frameBytes buf 30 4) segment)
    else if protocol = 17 then (s, .udp (frameBytes buf 26 4) (frameBytes buf 30 4) segment)
    else (s, .none)

/-- The frames of a history. -/
def netRun (s : NetLink) (frames : List (List UInt8)) : NetLink :=
  frames.foldl (fun s buf => (netDispatchFrame s buf).1) s

/-- The insertion that a frame makes : an ARP reply binds its sender, and an IPv4 packet the
sender of its frame. -/
def frameBinding (buf : List UInt8) : Option (List UInt8 × List UInt8) :=
  if frameField buf 12 = 0x0806 then
    if 42 ≤ buf.length ∧ frameField buf 20 = 2 then some (frameBytes buf 28 4, frameBytes buf 22 6)
    else none
  else if frameField buf 12 = 0x0800 ∧ 34 ≤ buf.length ∧ 20 ≤ frameIhl buf ∧
      14 + frameIhl buf ≤ buf.length then
    some (frameBytes buf 26 4, frameBytes buf 6 6)
  else none

/-- The insertions of a history. -/
def bindings (frames : List (List UInt8)) : List (List UInt8 × List UInt8) :=
  frames.filterMap frameBinding

theorem frameBytes_drop (buf : List UInt8) (k o n : ℕ) :
    frameBytes (buf.drop k) o n = frameBytes buf (k + o) n := by
  rw [frameBytes, frameBytes, List.drop_drop]

theorem frameField_drop (buf : List UInt8) (k o : ℕ) :
    frameField (buf.drop k) o = frameField buf (k + o) := by
  simp only [frameField, List.getD_eq_getElem?_getD, List.getElem?_drop, Nat.add_assoc]

theorem arpCache_netHandleArp (s : NetLink) (data : List UInt8) :
    (netHandleArp s data).1.arpCache =
      if 28 ≤ data.length ∧ frameField data 6 = 2 then
        netArpCacheInsert s.arpCache (frameBytes data 14 4) (frameBytes data 8 6)
      else s.arpCache := by
  unfold netHandleArp
  by_cases hshort : data.length < 28
  · have hnot : ¬ (28 ≤ data.length ∧ frameField data 6 = 2) := by omega
    rw [if_pos hshort, if_neg hnot]
  · rw [if_neg hshort]
    dsimp only
    by_cases hreply : frameField data 6 = 2
    · have hboth : 28 ≤ data.length ∧ frameField data 6 = 2 := ⟨by omega, hreply⟩
      rw [if_pos hboth, if_pos hreply]
    · have hnot : ¬ (28 ≤ data.length ∧ frameField data 6 = 2) := fun h => hreply h.2
      rw [if_neg hnot, if_neg hreply]

/-- The only store into the cache. -/
theorem arpCache_netDispatchFrame (s : NetLink) (buf : List UInt8) :
    (netDispatchFrame s buf).1.arpCache =
      match frameBinding buf with
      | none => s.arpCache
      | some b => netArpCacheInsert s.arpCache b.1 b.2 := by
  unfold netDispatchFrame
  by_cases hshort : buf.length < 14
  · have hb : frameBinding buf = none := by
      unfold frameBinding
      split_ifs <;> first | rfl | omega
    rw [if_pos hshort, hb]
  rw [if_neg hshort]
  by_cases harp : frameField buf 12 = 0x0806
  · have hb : frameBinding buf =
        if 28 ≤ (buf.drop 14).length ∧ frameField (buf.drop 14) 6 = 2 then
          some (frameBytes (buf.drop 14) 14 4, frameBytes (buf.drop 14) 8 6)
        else none := by
      rw [frameBinding, if_pos harp, frameField_drop, frameBytes_drop, frameBytes_drop]
      refine if_congr (and_congr_left fun _ => ?_) rfl rfl
      rw [List.length_drop]
      omega
    rw [if_pos harp, arpCache_netHandleArp, hb]
    split <;> rfl
  rw [if_neg harp]
  by_cases hskip : frameField buf 12 ≠ 0x0800 ∨ buf.length < 34
  · have hb : frameBinding buf = none := by
      rw [frameBinding, if_neg harp, if_neg fun h => hskip.elim (fun hne => hne h.1) (by omega)]
    rw [if_pos hskip, hb]
  rw [if_neg hskip]
  by_cases hihl : frameIhl buf < 20 ∨ buf.length < 14 + frameIhl buf
  · have hb : frameBinding buf = none := by
      rw [frameBinding, if_neg harp, if_neg (by omega)]
    rw [if_pos hihl, hb]
  have hb : frameBinding buf = some (frameBytes buf 26 4, frameBytes buf 6 6) := by
    rw [not_or, not_not] at hskip
    rw [frameBinding, if_neg harp, if_pos ⟨hskip.1, by omega⟩]
  rw [if_neg hihl, hb]
  dsimp only
  split_ifs <;> rfl

/-! ## The cache is a table -/

/-- The cache that holds a table. -/
def arpEntries (t : List (List UInt8 × List UInt8)) : List ArpEntry :=
  t.map (fun b => ⟨b.1, b.2, true⟩) ++ List.replicate (netArpCache - t.length) arpEntryZero

theorem insert_arpEntries {t : List (List UInt8 × List UInt8)} (hkeys : (t.map Prod.fst).Nodup)
    (rest : List ArpEntry) (b : List UInt8 × List UInt8) :
    netArpCacheInsert (t.map (fun b => ⟨b.1, b.2, true⟩) ++ rest) b.1 b.2 =
      if b.1 ∈ t.map Prod.fst then
        (t.map fun e => if e.1 = b.1 then b else e).map (fun b => ⟨b.1, b.2, true⟩) ++ rest
      else t.map (fun b => ⟨b.1, b.2, true⟩) ++ netArpCacheInsert rest b.1 b.2 := by
  induction t with
  | nil => rfl
  | cons e t ih =>
    obtain ⟨hnew, hkeys⟩ := List.nodup_cons.mp hkeys
    rw [List.map_cons, List.cons_append, netArpCacheInsert]
    by_cases he : e.1 = b.1
    · have hrest : (t.map fun e => if e.1 = b.1 then b else e) = t := by
        refine (List.map_congr_left fun d hd => if_neg fun heq => hnew ?_).trans (List.map_id t)
        rw [he, ← heq]
        exact List.mem_map_of_mem hd
      rw [if_pos (Or.inr he), if_pos (by simp [he]), List.map_cons, if_pos he, hrest]
      rfl
    · have hmem : b.1 ∈ (e :: t).map Prod.fst ↔ b.1 ∈ t.map Prod.fst := by
        rw [List.map_cons, List.mem_cons]
        exact ⟨fun h => h.resolve_left (Ne.symm he), Or.inr⟩
      rw [if_neg (by simp [he]), ih hkeys]
      simp only [hmem]
      split
      · rw [List.map_cons, if_neg he]
        rfl
      · rfl

/-- An insertion stores into the table. -/
theorem netArpCacheInsert_eq {t : List (List UInt8 × List UInt8)}
    (hkeys : (t.map Prod.fst).Nodup) (b : List UInt8 × List UInt8) :
    netArpCacheInsert (arpEntries t) b.1 b.2 = arpEntries (FirstCome.put netArpCache t b) := by
  rw [arpEntries, insert_arpEntries hkeys, FirstCome.put]
  split
  · rw [arpEntries, List.length_map]
  split
  · rename_i hroom
    obtain ⟨k, hk⟩ : ∃ k, netArpCache - t.length = k + 1 := ⟨netArpCache - t.length - 1, by omega⟩
    have hk' : netArpCache - (t ++ [b]).length = k := by
      rw [List.length_append, List.length_singleton]
      omega
    have hfree : netArpCacheInsert (List.replicate (k + 1) arpEntryZero) b.1 b.2 =
        ⟨b.1, b.2, true⟩ :: List.replicate k arpEntryZero := if_pos (Or.inl rfl)
    rw [arpEntries, hk, hk', hfree, List.map_append, List.append_assoc]
    rfl
  · rename_i hfull
    have hzero : netArpCache - t.length = 0 := by omega
    rw [arpEntries, hzero]
    rfl

theorem netArpLookup_eq (t : List (List UInt8 × List UInt8)) (ip : List UInt8) :
    netArpLookup (arpEntries t) ip = FirstCome.find t ip := by
  have hrest (k : ℕ) : netArpLookup (List.replicate k arpEntryZero) ip = none := by
    rw [netArpLookup, List.find?_eq_none.mpr, Option.map_none]
    intro e he
    rw [List.eq_of_mem_replicate he]
    simp [arpEntryZero]
  rw [arpEntries]
  generalize netArpCache - t.length = k
  induction t with
  | nil => exact hrest k
  | cons e t ih =>
    rw [FirstCome.find_cons, ← ih, netArpLookup, netArpLookup, List.map_cons, List.cons_append,
      List.find?_cons]
    by_cases he : e.1 = ip <;> simp [he]

/-- After any frames the cache is the table of their insertions. -/
theorem arpCache_netRun (netIp e1000Mac : List UInt8) (frames : List (List UInt8)) :
    (netRun (netLinkInit netIp e1000Mac) frames).arpCache =
      arpEntries (FirstCome.table netArpCache (bindings frames)) := by
  induction frames using List.reverseRecOn with
  | nil => rfl
  | append_singleton frames buf ih =>
    have hrun : netRun (netLinkInit netIp e1000Mac) (frames ++ [buf]) =
        (netDispatchFrame (netRun (netLinkInit netIp e1000Mac) frames) buf).1 := by
      unfold netRun
      rw [List.foldl_concat]
    have hbind : bindings (frames ++ [buf]) = bindings frames ++ (frameBinding buf).toList := by
      rw [bindings, List.filterMap_append]
      cases hb : frameBinding buf <;> simp [bindings, hb]
    rw [hrun, arpCache_netDispatchFrame, hbind, ih]
    cases frameBinding buf with
    | none => rw [Option.toList_none, List.append_nil]
    | some b =>
      have htable : FirstCome.table netArpCache (bindings frames ++ [b]) =
          FirstCome.put netArpCache (FirstCome.table netArpCache (bindings frames)) b := by
        unfold FirstCome.table
        rw [List.foldl_concat]
      rw [Option.toList_some, htable]
      exact netArpCacheInsert_eq (FirstCome.nodup_keys_table _ _) b

/-! ## Bindings -/

/-- At every moment of the history the cache gives the last binding of the address. -/
def KeepsLatest (netIp e1000Mac : List UInt8) (frames : List (List UInt8)) (ip : List UInt8) :
    Prop :=
  ∀ pre, pre <+: frames → ∀ mac, FirstCome.last (bindings pre) ip = some mac →
    netArpLookup (netRun (netLinkInit netIp e1000Mac) pre).arpCache ip = some mac

/-- The cache keeps the last binding of an address exactly if the address is not one of those
that were bound first after eight others. -/
theorem arp_latest_iff (netIp e1000Mac : List UInt8) (frames : List (List UInt8))
    (ip : List UInt8) :
    KeepsLatest netIp e1000Mac frames ip ↔
      ip ∉ (FirstCome.distinct (bindings frames)).drop netArpCache := by
  rw [← FirstCome.always_iff, KeepsLatest]
  constructor
  · intro h bs hbs mac hlast
    obtain ⟨pre, hpre, rfl⟩ := List.prefix_filterMap_iff.mp hbs
    have hfound := h pre hpre mac hlast
    rwa [arpCache_netRun, netArpLookup_eq] at hfound
  · intro h pre hpre mac hlast
    rw [arpCache_netRun, netArpLookup_eq]
    exact h (bindings pre) (List.prefix_filterMap_iff.mpr ⟨pre, hpre, rfl⟩) mac hlast

/-- An ARP reply that binds `10.0.2.n`. -/
def arpReplyFrame (n : UInt8) : List UInt8 :=
  List.replicate 12 0 ++ [0x08, 0x06] ++ [0, 1, 0x08, 0, 6, 4, 0, 2] ++ [2, 0, 0, 0, 0, n] ++
    [10, 0, 2, n] ++ List.replicate 10 0

/-- The ninth of nine hosts that answer. -/
theorem not_arp_latest :
    ¬ ∀ netIp e1000Mac frames ip, KeepsLatest netIp e1000Mac frames ip := by
  intro hall
  let frames := [1, 2, 3, 4, 5, 6, 7, 8, 9].map arpReplyFrame
  have hlast : FirstCome.last (bindings frames) [10, 0, 2, 9] = some [2, 0, 0, 0, 0, 9] := by
    decide
  have hfound := hall [10, 0, 2, 15] [2, 0, 0, 0, 0, 0] frames [10, 0, 2, 9] frames
    (List.prefix_refl frames) _ hlast
  have hnone : netArpLookup (netRun (netLinkInit [10, 0, 2, 15] [2, 0, 0, 0, 0, 0])
      frames).arpCache [10, 0, 2, 9] = none := by
    decide
  rw [hnone] at hfound
  exact absurd hfound (by simp)

end VernisOS
