import VernisOS.Cli
import VernisOS.Lib.Ring
import VernisOS.Policy

/-!
# Logs in rings

The kernel log (`kernel/log/klog.c`), the audit log (`kernel/security/auditlog.c`) and the event
store of the engine (`ai/event_store.rs`). Each writes over its oldest entry and walks back from
the head in its own way. All of them are `Ring.Recent`, so that what they show is read off the
list of everything recorded.
-/

open Bytes Ring

namespace VernisOS

/-! ## The kernel log -/

/-- `KLOG_RING_SIZE`. -/
def klogRingSize : ℕ := 64

instance : NeZero klogRingSize := ⟨by decide⟩

/-- `KLOG_TAG_MAX`. -/
def klogTagMax : ℕ := 12

/-- `KLOG_MSG_MAX`. -/
def klogMsgMax : ℕ := 80

inductive KlogLevel
  | fatal
  | error
  | warn
  | info
  | debug
  | trace
deriving DecidableEq

/-- `klog_level_name`. -/
def klogLevelName : KlogLevel → List UInt8
  | .fatal => utf8 "FATAL"
  | .error => utf8 "ERROR"
  | .warn => utf8 "WARN "
  | .info => utf8 "INFO "
  | .debug => utf8 "DEBUG"
  | .trace => utf8 "TRACE"

/-- `KlogEntry`. -/
structure KlogEntry where
  timestamp : UInt64
  level : KlogLevel
  tag : List UInt8
  message : List UInt8
deriving DecidableEq

/-- The ring of `klog.c` with its counters. -/
structure Klog where
  ring : Fin klogRingSize → KlogEntry
  head : ℕ
  count : ℕ
  total : UInt64

/-- `klog_init`. -/
def klogInit : Klog :=
  ⟨fun _ => ⟨0, .trace, [], []⟩, 0, 0, 0⟩

/-- What `klog_strncpy` and `str_copy_n` leave of a string : up to its NUL, and one byte less than
the room. -/
def copyString (room : ℕ) (src : List UInt8) : List UInt8 :=
  (cStr src).take (room - 1)

/-- The entry that `klog` stores. -/
def klogEntry (now : UInt32) (level : KlogLevel) (tag msg : Option (List UInt8)) : KlogEntry :=
  ⟨now.toUInt64, level, copyString klogTagMax (tag.getD (utf8 "?")),
    copyString klogMsgMax (msg.getD [])⟩

/-- `klog` at the tick `now`. -/
def klog (s : Klog) (now : UInt32) (level : KlogLevel) (tag msg : Option (List UInt8)) : Klog :=
  { ring := Function.update s.ring (pos klogRingSize s.head) (klogEntry now level tag msg)
    head := (s.head + 1) % klogRingSize
    count := if s.count < klogRingSize then s.count + 1 else s.count
    total := s.total + 1 }

/-- `klog_clear`. -/
def klogClear (s : Klog) : Klog :=
  { s with head := 0, count := 0 }

/-- `klog_u64_to_dec`. -/
def klogU64ToDec (val : UInt64) (bufsz : ℕ) : List UInt8 :=
  (cliDec val.toNat).take (bufsz - 1)

/-- A line of `%-8s %-5s %-10s %s` behind two blanks. -/
def klogLine (ticks level tag message : List UInt8) : List UInt8 :=
  utf8 "  " ++ cliFieldS ticks 8 ++ [32] ++ cliFieldS level 5 ++ [32] ++ cliFieldS tag 10 ++ [32] ++
    message ++ [10]

/-- The line of an entry. -/
def klogRow (e : KlogEntry) : List UInt8 :=
  klogLine (klogU64ToDec e.timestamp 20) (klogLevelName e.level) e.tag e.message

/-- The text about a list of entries, with the total. -/
def klogText (shown : List KlogEntry) (total : UInt64) : List UInt8 :=
  if shown = [] then utf8 "  (no log entries)\n"
  else
    klogLine (utf8 "Ticks") (utf8 "Level") (utf8 "Tag") (utf8 "Message") ++
      klogLine (utf8 "--------") (utf8 "-----") (utf8 "----------") (utf8 "--------") ++
      shown.flatMap klogRow ++ utf8 "  --- " ++ cliDec shown.length ++ utf8 " of " ++
      klogU64ToDec total 20 ++ utf8 " total entries ---\n"

/-- The entries that `klog_print_recent` goes through. -/
def klogWalk (s : Klog) (count : ℕ) : List KlogEntry :=
  (List.range count).map fun i =>
    s.ring (pos klogRingSize (s.head + klogRingSize - 1 - i))

/-- `klog_print_recent`. -/
def klogPrintRecent (s : Klog) (count : UInt32) : List UInt8 :=
  let count := if count = 0 ∨ s.count < count.toNat then s.count else count.toNat
  klogText (klogWalk s count) s.total

inductive KlogOp
  | log (now : UInt32) (level : KlogLevel) (tag msg : Option (List UInt8))
  | clear

def Klog.step (s : Klog) : KlogOp → Klog
  | .log now level tag msg => klog s now level tag msg
  | .clear => klogClear s

/-- The entries since the start or the last clear, the oldest first. -/
def klogPast : List KlogEntry → KlogOp → List KlogEntry
  | past, .log now level tag msg => past ++ [klogEntry now level tag msg]
  | _, .clear => []

/-! ## The audit log -/

/-- `AUDIT_LOG_SIZE`. -/
def auditLogSize : ℕ := 32

instance : NeZero auditLogSize := ⟨by decide⟩

/-- `AUDIT_USER_MAX`. -/
def auditUserMax : ℕ := 16

/-- `AUDIT_CMD_MAX`. -/
def auditCmdMax : ℕ := 48

/-- `AuditEntry`. -/
structure AuditEntry where
  timestamp : UInt64
  username : List UInt8
  command : List UInt8
  privilege : UInt8
  required : UInt8

/-- The ring of `auditlog.c` with its counters. -/
structure AuditLog where
  log : Fin auditLogSize → AuditEntry
  head : ℕ
  count : ℕ
  total : UInt32

/-- `auditlog_init`. -/
def auditlogInit : AuditLog :=
  ⟨fun _ => ⟨0, [], [], 0, 0⟩, 0, 0, 0⟩

/-- The arguments of `auditlog_record`. -/
structure Denial where
  timestamp : UInt64
  username : List UInt8
  command : List UInt8
  privilege : UInt8
  required : UInt8

/-- The entry that `auditlog_record` stores. -/
def Denial.entry (d : Denial) : AuditEntry :=
  ⟨d.timestamp, copyString auditUserMax d.username, copyString auditCmdMax d.command, d.privilege,
    d.required⟩

/-- `auditlog_record`. -/
def auditlogRecord (s : AuditLog) (d : Denial) : AuditLog :=
  { log := Function.update s.log (pos auditLogSize s.head) d.entry
    head := (s.head + 1) % auditLogSize
    count := if s.count < auditLogSize then s.count + 1 else s.count
    total := s.total + 1 }

/-- `priv_name`. -/
def privName (p : UInt8) : List UInt8 :=
  if p = 0 then utf8 "root"
  else if p ≤ 50 then utf8 "admin"
  else if p ≤ 100 then utf8 "user"
  else utf8 "?"

/-- A line of `%-10s  %-10s  %-20s  %-6s  %-8s`. -/
def auditLine (ticks user command priv required : List UInt8) : List UInt8 :=
  cliFieldS ticks 10 ++ utf8 "  " ++ cliFieldS user 10 ++ utf8 "  " ++ cliFieldS command 20 ++
    utf8 "  " ++ cliFieldS priv 6 ++ utf8 "  " ++ cliFieldS required 8 ++ [10]

/-- The line of an entry. -/
def auditRow (e : AuditEntry) : List UInt8 :=
  auditLine (cliDec e.timestamp.toNat) e.username e.command (privName e.privilege)
    (privName e.required)

/-- The text about a list of entries, with the total. -/
def auditText (shown : List AuditEntry) (total : UInt32) : List UInt8 :=
  if shown = [] then utf8 "No denial events recorded.\n"
  else
    utf8 "Deny Audit Log (" ++ cliDec shown.length ++ utf8 " entries, " ++ cliDec (cInt total) ++
      utf8 " total lifetime)\n" ++
      auditLine (utf8 "Ticks") (utf8 "User") (utf8 "Command") (utf8 "Priv") (utf8 "Required") ++
      utf8 "---------- ---------- -------------------- ------ --------\n" ++
      shown.flatMap auditRow

/-- The index of the entry `i` places back in `auditlog_print_all`. -/
def auditIndex (head i : ℕ) : ℕ :=
  if i + 1 ≤ head then head - i - 1 else auditLogSize - (i + 1 - head)

/-- `auditlog_print_all`. -/
def auditlogPrintAll (s : AuditLog) : List UInt8 :=
  auditText ((List.range s.count).map fun i => s.log (pos auditLogSize (auditIndex s.head i)))
    s.total

/-! ## The event store -/

/-- `RING_CAPACITY`. -/
def ringCapacity : ℕ := 256

instance : NeZero ringCapacity := ⟨by decide⟩

/-- `EventRecord`. -/
structure EventRecord where
  timestamp : UInt64
  eventType : EventType
  data : List UInt8
  sourcePid : UInt32

/-- `EventStore`. -/
structure EventStore where
  events : Fin ringCapacity → Option EventRecord
  head : ℕ
  count : ℕ
  totalRecorded : UInt64

namespace EventStore

/-- `EventStore::new`. -/
def new : EventStore :=
  ⟨fun _ => none, 0, 0, 0⟩

/-- `EventStore::record` of the event that its arguments make up. -/
def record (s : EventStore) (e : EventRecord) : EventStore :=
  { events := Function.update s.events (pos ringCapacity s.head) (some e)
    head := (s.head + 1) % ringCapacity
    count := if s.count < ringCapacity then s.count + 1 else s.count
    totalRecorded := s.totalRecorded + 1 }

/-- `EventStore::query_recent`. -/
def queryRecent (s : EventStore) (lastN : ℕ) : List EventRecord :=
  (List.range (min lastN s.count)).filterMap fun i =>
    s.events (pos ringCapacity (s.head + ringCapacity - 1 - i))

/-- `EventStore::iter_events`. -/
def iterEvents (s : EventStore) : List EventRecord :=
  let start := if s.count < ringCapacity then 0 else s.head
  (List.range s.count).filterMap fun i => s.events (pos ringCapacity (start + i))

/-- `EventStore::query_by_type`. -/
def queryByType (s : EventStore) (evtType : EventType) (now windowTicks : UInt64) :
    List EventRecord :=
  let cutoff := now.toNat - windowTicks.toNat
  s.iterEvents.filter fun e => e.eventType = evtType ∧ cutoff ≤ e.timestamp.toNat

/-- `EventStore::query_by_pid`. -/
def queryByPid (s : EventStore) (pid : UInt32) (now windowTicks : UInt64) : List EventRecord :=
  let cutoff := now.toNat - windowTicks.toNat
  s.iterEvents.filter fun e => e.sourcePid = pid ∧ cutoff ≤ e.timestamp.toNat

end EventStore

/-! ## What a log shows -/

theorem klog_recent (ops : List KlogOp) :
    Recent (ops.foldl Klog.step klogInit).ring (ops.foldl Klog.step klogInit).head
      (ops.foldl Klog.step klogInit).count (ops.foldl klogPast []) := by
  induction ops using List.reverseRecOn with
  | nil => exact recent_nil _
  | append_singleton ops op ih =>
    rw [List.foldl_concat, List.foldl_concat]
    cases op with
    | log now level tag msg => exact ih.record _
    | clear => exact recent_nil _

theorem auditlog_recent (denials : List Denial) :
    Recent (denials.foldl auditlogRecord auditlogInit).log
      (denials.foldl auditlogRecord auditlogInit).head
      (denials.foldl auditlogRecord auditlogInit).count (denials.map Denial.entry) := by
  induction denials using List.reverseRecOn with
  | nil => exact recent_nil _
  | append_singleton denials d ih =>
    rw [List.foldl_concat, List.map_append, List.map_singleton]
    exact ih.record _

theorem EventStore.recent (events : List EventRecord) :
    Recent (events.foldl EventStore.record .new).events
      (events.foldl EventStore.record .new).head
      (events.foldl EventStore.record .new).count (events.map some) := by
  induction events using List.reverseRecOn with
  | nil => exact recent_nil _
  | append_singleton events e ih =>
    rw [List.foldl_concat, List.map_append, List.map_singleton]
    exact ih.record _

theorem klog_print (ops : List KlogOp) (n : UInt32) :
    klogPrintRecent (ops.foldl Klog.step klogInit) n =
      klogText ((ops.foldl klogPast []).reverse.take
        (if n = 0 then klogRingSize else min n.toNat klogRingSize))
        (ops.foldl Klog.step klogInit).total := by
  have h := klog_recent ops
  have hcount := h.count_eq
  have hwalk := h.walk (k := if n = 0 ∨ (ops.foldl Klog.step klogInit).count < n.toNat then
    (ops.foldl Klog.step klogInit).count else n.toNat) (by split <;> omega)
  rw [klogPrintRecent, klogWalk, hwalk]
  congr 1
  rw [List.take_eq_take_iff, List.length_reverse]
  by_cases hn : n = 0
  · rw [if_pos (Or.inl hn), if_pos hn, hcount]
    simp [min_comm]
  · rw [if_neg hn]
    split
    · rename_i hover
      have hlt := hover.resolve_left hn
      rcases Nat.le_total (ops.foldl klogPast []).length klogRingSize with hle | hle
      · rw [min_eq_left hle] at hcount
        omega
      · rw [min_eq_right hle] at hcount
        omega
    · omega

theorem auditIndex_eq (head : ℕ) {i : ℕ} (hi : i < auditLogSize) :
    pos auditLogSize (auditIndex head i) = pos auditLogSize (head + auditLogSize - 1 - i) := by
  unfold auditIndex
  split
  · have hback : head + auditLogSize - 1 - i = head - i - 1 + auditLogSize := by omega
    rw [hback]
    exact Fin.ext (Nat.add_mod_right _ _).symm
  · congr 1
    omega

theorem auditlog_print (denials : List Denial) :
    auditlogPrintAll (denials.foldl auditlogRecord auditlogInit) =
      auditText ((denials.map Denial.entry).reverse.take auditLogSize)
        (denials.foldl auditlogRecord auditlogInit).total := by
  have h := auditlog_recent denials
  have hcount := h.count_eq
  rw [auditlogPrintAll, List.map_congr_left fun i hi => congrArg _ (auditIndex_eq _ ?_),
    h.walk le_rfl]
  · congr 1
    rw [List.take_eq_take_iff, List.length_reverse]
    omega
  · have hi' := List.mem_range.mp hi
    omega

namespace EventStore

theorem filterMap_of_map {α β : Type*} {f : α → Option β} {l : List α} {found : List β}
    (h : l.map f = found.map some) : l.filterMap f = found := by
  have hid : l.filterMap f = (l.map f).filterMap id := by rw [List.filterMap_map, Function.id_comp]
  rw [hid, h, List.filterMap_map, Function.id_comp, List.filterMap_some]

variable (events : List EventRecord)

theorem queryRecent_eq (n : ℕ) :
    (events.foldl record new).queryRecent n = events.reverse.take (min n ringCapacity) := by
  have h := recent events
  have hcount := h.count_eq
  rw [List.length_map] at hcount
  refine filterMap_of_map ((h.walk (min_le_right n _)).trans ?_)
  rw [← List.map_reverse, ← List.map_take, hcount]
  congr 1
  rw [List.take_eq_take_iff, List.length_reverse]
  simp [min_comm, min_left_comm]

theorem iterEvents_eq :
    (events.foldl record new).iterEvents = events.drop (events.length - ringCapacity) := by
  refine filterMap_of_map ((recent events).forward.trans ?_)
  rw [List.length_map, List.map_drop]

end EventStore

end VernisOS
