import VernisOS.ChannelLife
import VernisOS.Lib.Replies

/-!
# Sockets with a path

`ipc_usock_bind`, `_connect`, `_send`, `_recv` and `_close` of `kernel/ipc/ipc.c` over whole runs.
The reference is a map from paths to boxes of bytes (`Boxes`). No slot of a channel is used twice,
so a bind fails once eight have succeeded. Paths that fit the table are what they were bound as, and
then every call replies as the map does (`path_sockets`) : each path has the bytes sent to it
since its bind, in order, and no call on another path or that fails changes them.
-/

open Replies Ring Slots

namespace VernisOS

namespace IpcChannels

/-- `ipc_usock_connect`. -/
def ipcUsockConnect (s : IpcChannels) (path : List UInt8) (peerPid : UInt32) : Int × IpcChannels :=
  match s.usockFindByPath path with
  | none => (ipcErrInval, s)
  | some u =>
    match channelAt (s.usocks u).cid with
    | none => (ipcErrInval, s)
    | some i =>
      if (s.channels i).ownerPid = 0 then (ipcErrInval, s)
      else (i.val, s.setChannel i { s.channels i with peerPid := peerPid })

/-- `ipc_usock_send`. -/
def ipcUsockSend (s : IpcChannels) (path : List UInt8) (buf : Option (ℕ → UInt8)) (len : UInt32) :
    Int × IpcChannels :=
  match s.usockFindByPath path with
  | none => (ipcErrInval, s)
  | some u => s.ipcChannelWrite (s.usocks u).cid buf len

/-- `ipc_usock_recv`, with the bytes it stores in the buffer. -/
def ipcUsockRecv (s : IpcChannels) (path : List UInt8) (buf : Bool) (maxLen : UInt32) :
    Int × List UInt8 × IpcChannels :=
  match s.usockFindByPath path with
  | none => (ipcErrInval, [], s)
  | some u => s.ipcChannelRead (s.usocks u).cid buf maxLen

end IpcChannels

/-! ## Calls and the reference -/

/-- A call on a path. -/
inductive SocketCall
  | bind (path : List UInt8) (ownerPid : UInt32)
  | connect (path : List UInt8) (peerPid : UInt32)
  | send (path : List UInt8) (buf : Option (ℕ → UInt8)) (len : UInt32)
  | recv (path : List UInt8) (buf : Bool) (maxLen : UInt32)
  | close (path : List UInt8)

def SocketCall.path : SocketCall → List UInt8
  | .bind path _ => path
  | .connect path _ => path
  | .send path _ _ => path
  | .recv path _ _ => path
  | .close path => path

namespace IpcChannels

/-- The result of a call with the bytes it stores, and the state after it. -/
def socketCall (s : IpcChannels) : SocketCall → (Int × List UInt8) × IpcChannels
  | .bind path ownerPid =>
    let r := s.ipcUsockBind path ownerPid
    ((r.1, []), r.2)
  | .connect path peerPid =>
    let r := s.ipcUsockConnect path peerPid
    ((r.1, []), r.2)
  | .send path buf len =>
    let r := s.ipcUsockSend path buf len
    ((r.1, []), r.2)
  | .recv path buf maxLen =>
    let r := s.ipcUsockRecv path buf maxLen
    ((r.1, r.2.1), r.2.2)
  | .close path =>
    let r := s.ipcUsockClose path
    ((r.1, []), r.2)

end IpcChannels

/-- What a path is bound to : the number of its channel, the process that connected last, and the
bytes sent and not yet received. -/
structure Box where
  channel : ℕ
  peer : UInt32
  bytes : List UInt8

/-- The bound paths, and how many binds have succeeded. -/
structure Boxes where
  box : List UInt8 → Option Box
  binds : ℕ

namespace Boxes

/-- Nothing is bound. -/
def empty : Boxes :=
  ⟨fun _ => none, 0⟩

/-- Store what a path is bound to. -/
def set (m : Boxes) (path : List UInt8) (b : Option Box) : Boxes :=
  { m with box := Function.update m.box path b }

/-- A call on the map. A bind needs a path that is not bound and one of eight channels, the other
calls a path that is bound. -/
def call (m : Boxes) : SocketCall → (Int × List UInt8) × Boxes
  | .bind path ownerPid =>
    if path = [] ∨ ownerPid = 0 ∨ m.box path ≠ none then ((ipcErrInval, []), m)
    else if ipcMaxChannels ≤ m.binds then ((ipcErrNoslot, []), m)
    else ((ipcOk, []), { m.set path (some ⟨m.binds, 0, []⟩) with binds := m.binds + 1 })
  | .connect path peerPid =>
    match m.box path with
    | none => ((ipcErrInval, []), m)
    | some b => ((b.channel, []), m.set path (some { b with peer := peerPid }))
  | .send path buf len =>
    match m.box path, buf with
    | some b, some bytes =>
      if len = 0 then ((ipcErrInval, []), m)
      else
        let n := min len.toNat (ipcChanBufSize - b.bytes.length)
        ((if n = 0 then ipcErrFull else n, []),
          m.set path (some { b with bytes := b.bytes ++ (List.range n).map bytes }))
    | _, _ => ((ipcErrInval, []), m)
  | .recv path buf maxLen =>
    match m.box path with
    | none => ((ipcErrInval, []), m)
    | some b =>
      if buf = false ∨ maxLen = 0 then ((ipcErrInval, []), m)
      else if b.bytes = [] then ((ipcErrEmpty, []), m)
      else (((b.bytes.take maxLen.toNat).length, b.bytes.take maxLen.toNat),
        m.set path (some { b with bytes := b.bytes.drop maxLen.toNat }))
  | .close path =>
    match m.box path with
    | none => ((ipcErrInval, []), m)
    | some _ => ((ipcOk, []), m.set path none)

end Boxes

/-! ## The tables stand for the map -/

namespace IpcChannels

variable {s : IpcChannels} {m : Boxes} {path : List UInt8} {u : Fin ipcMaxUsockets}
  {i : Fin ipcMaxChannels} {b : Box}

/-- A socket that is bound to the path, with its channel. -/
structure Bound (s : IpcChannels) (path : List UInt8) (u : Fin ipcMaxUsockets)
    (i : Fin ipcMaxChannels) : Prop where
  used : (s.usocks u).used = true
  path_eq : (s.usocks u).path = path
  channel : channelAt (s.usocks u).cid = some i

/-- The channel holds the bytes of a box. -/
structure Carries (s : IpcChannels) (i : Fin ipcMaxChannels) (b : Box) : Prop where
  number : b.channel = i.val
  owner : (s.channels i).ownerPid ≠ 0
  peer : (s.channels i).peerPid = b.peer
  isOpen : (s.channels i).closed = false
  wf : (s.channels i).ring.Wf
  bytes : (s.channels i).ring.content = b.bytes

/-- Tables that stand for a map. -/
structure Stands (s : IpcChannels) (m : Boxes) : Prop extends s.Base where
  binds : m.binds ≤ ipcMaxChannels
  slots : ∀ i, (s.channels i).ownerPid = 0 ↔ m.binds ≤ i.val
  paths : ∀ u, (s.usocks u).used = true → (s.usocks u).path ≠ [] ∧
    m.box (s.usocks u).path ≠ none
  unique : ∀ u v, (s.usocks u).used = true → (s.usocks v).used = true →
    (s.usocks u).path = (s.usocks v).path → u = v
  boxes : ∀ path b, m.box path = some b → ∃ u i, s.Bound path u i ∧ s.Carries i b

theorem usockFindByPath_eq_some :
    s.usockFindByPath path = some u → path ≠ [] ∧ (s.usocks u).used = true ∧
      (s.usocks u).path = path := by
  intro h
  unfold usockFindByPath at h
  split at h
  · cases h
  · rename_i hne
    have hfound := first_some h
    simp only [Bool.and_eq_true, beq_iff_eq] at hfound
    exact ⟨hne, hfound.1, hfound.2⟩

/-- The lookup finds the socket of a bound path, and its channel. -/
theorem Stands.find (h : s.Stands m) (hb : m.box path = some b) :
    ∃ u i, s.usockFindByPath path = some u ∧ s.Bound path u i ∧ s.Carries i b := by
  obtain ⟨u, i, hbound, hcarries⟩ := h.boxes path b hb
  have hpath : path ≠ [] := hbound.path_eq ▸ (h.paths u hbound.used).1
  have hsome : (s.usockFindByPath path).isSome = true := by
    unfold usockFindByPath
    rw [if_neg hpath, first_isSome]
    exact ⟨u, by simp [hbound.used, hbound.path_eq]⟩
  obtain ⟨v, hv⟩ := Option.isSome_iff_exists.mp hsome
  obtain ⟨-, hused, heq⟩ := usockFindByPath_eq_some hv
  have hvu := h.unique v u hused hbound.used (heq.trans hbound.path_eq.symm)
  exact ⟨u, i, hvu ▸ hv, hbound, hcarries⟩

theorem Stands.find_none (h : s.Stands m) (hb : m.box path = none) :
    s.usockFindByPath path = none := by
  by_contra hne
  obtain ⟨u, hu⟩ := Option.ne_none_iff_exists'.mp hne
  obtain ⟨-, hused, heq⟩ := usockFindByPath_eq_some hu
  exact (h.paths u hused).2 (heq ▸ hb)

/-- Bound sockets of different paths have different channels. -/
theorem Stands.channel_ne (h : s.Stands m) {path' : List UInt8} {v : Fin ipcMaxUsockets}
    {j : Fin ipcMaxChannels} (hu : s.Bound path u i) (hv : s.Bound path' v j)
    (hne : path' ≠ path) : j ≠ i := by
  rintro rfl
  refine hne ?_
  have hcid : (s.usocks v).cid = (s.usocks u).cid := by
    rw [← UInt32.toNat_inj, channelAt_some hv.channel, channelAt_some hu.channel]
  rw [← hv.path_eq, ← hu.path_eq, h.apart v u hv.used hu.used hcid]

/-- A call that changes the bytes or the peer of one channel and keeps the tables. -/
theorem Stands.setChannel (h : s.Stands m) {b' : Box} (hu : s.Bound path u i)
    {ch : IpcChannel} (howner : ch.ownerPid = (s.channels i).ownerPid)
    (hclosed : ch.closed = (s.channels i).closed) (hcarries : (s.setChannel i ch).Carries i b') :
    (s.setChannel i ch).Stands (m.set path (some b')) := by
  have howners : ∀ j, (Function.update s.channels i ch j).ownerPid = (s.channels j).ownerPid := by
    intro j
    by_cases hj : j = i
    · rw [hj, Function.update_self, howner]
    · rw [Function.update_of_ne hj]
  refine ⟨⟨fun j hj => ?_, fun v hv => ?_, h.apart⟩, h.binds, fun j => ?_, fun v hv => ?_,
    h.unique, fun path' b₁ hb₁ => ?_⟩
  · simp only [IpcChannels.setChannel] at hj ⊢
    rw [howners] at hj
    by_cases hji : j = i
    · rw [hji, Function.update_self, hclosed]
      exact h.free i (hji ▸ hj)
    · rw [Function.update_of_ne hji]
      exact h.free j hj
  · obtain ⟨j, hj, howner'⟩ := h.bound v hv
    exact ⟨j, hj, by rw [IpcChannels.setChannel]; exact (howners j).trans_ne howner'⟩
  · simp only [IpcChannels.setChannel]
    rw [howners]
    exact h.slots j
  · obtain ⟨hne, hbox⟩ := h.paths v hv
    refine ⟨hne, ?_⟩
    simp only [Boxes.set, IpcChannels.setChannel]
    by_cases hp : (s.usocks v).path = path
    · rw [hp, Function.update_self]
      exact Option.some_ne_none _
    · rw [Function.update_of_ne hp]
      exact hbox
  · simp only [Boxes.set] at hb₁
    by_cases hp : path' = path
    · rw [hp, Function.update_self] at hb₁
      obtain rfl := Option.some.inj hb₁
      exact ⟨u, i, ⟨hu.used, hu.path_eq.trans hp.symm, hu.channel⟩, hcarries⟩
    · rw [Function.update_of_ne hp] at hb₁
      obtain ⟨v, j, hv, hc⟩ := h.boxes path' b₁ hb₁
      have hji := h.channel_ne hu hv hp
      refine ⟨v, j, ⟨hv.used, hv.path_eq, hv.channel⟩, ?_⟩
      have hsame : (s.setChannel i ch).channels j = s.channels j := Function.update_of_ne hji _ _
      exact ⟨hc.number, by rw [hsame]; exact hc.owner, by rw [hsame]; exact hc.peer,
        by rw [hsame]; exact hc.isOpen, by rw [hsame]; exact hc.wf, by rw [hsame]; exact hc.bytes⟩

/-! ## Calls -/

/-- A new channel gets the number of the binds so far. -/
theorem Stands.create (h : s.Stands m) (hroom : m.binds < ipcMaxChannels) {ownerPid : UInt32}
    (howner : ownerPid ≠ 0) (peerPid : UInt32) :
    s.ipcChannelCreate ownerPid peerPid = ((m.binds : Int),
      { s.setChannel ⟨m.binds, hroom⟩
          { IpcChannel.zero with ownerPid := ownerPid, peerPid := peerPid } with
        channelsActive := s.channelsActive + 1 }) := by
  have hfirst : (first fun i => (s.channels i).ownerPid == 0) = some ⟨m.binds, hroom⟩ := by
    rw [first_eq_some]
    exact ⟨beq_iff_eq.mpr ((h.slots _).mpr le_rfl), fun j hj =>
      (h.slots j).mp (beq_iff_eq.mp hj)⟩
  unfold ipcChannelCreate
  rw [if_neg howner, hfirst]
  rfl

theorem Stands.bind (h : s.Stands m) {ownerPid : UInt32} (hlen : path.length < ipcUsockPathMax) :
    (s.socketCall (.bind path ownerPid)).1 = (m.call (.bind path ownerPid)).1 ∧
      (s.socketCall (.bind path ownerPid)).2.Stands (m.call (.bind path ownerPid)).2 := by
  simp only [socketCall, Boxes.call]
  by_cases hargs : path = [] ∨ ownerPid = 0 ∨ m.box path ≠ none
  · -- the arguments are bad, or the lookup finds the path
    have hfail : s.ipcUsockBind path ownerPid = (ipcErrInval, s) := by
      unfold ipcUsockBind
      rcases hargs with hpath | howner | hbox
      · rw [if_pos (Or.inl hpath)]
      · rw [if_pos (Or.inr howner)]
      · obtain ⟨b, hb⟩ := Option.ne_none_iff_exists'.mp hbox
        obtain ⟨u, i, hfind, -⟩ := h.find hb
        split
        · rfl
        · rw [hfind]
          rfl
    rw [if_pos hargs, hfail]
    exact ⟨rfl, h⟩
  rw [if_neg hargs]
  simp only [not_or, not_not] at hargs
  obtain ⟨hpath, howner, hbox⟩ := hargs
  have hnone := h.find_none hbox
  by_cases hroom : ipcMaxChannels ≤ m.binds
  · have hfull : s.ipcUsockBind path ownerPid = (ipcErrNoslot, s) := by
      have hfirst : (first fun i => (s.channels i).ownerPid == 0) = none := by
        rw [first_none]
        intro i
        rw [beq_eq_false_iff_ne, Ne, h.slots]
        exact not_le.mpr (i.isLt.trans_le hroom)
      unfold ipcUsockBind ipcChannelCreate
      rw [if_neg (not_or.mpr ⟨hpath, howner⟩), hnone, if_neg (by simp), if_neg howner, hfirst]
      rfl
    rw [if_pos hroom, hfull]
    exact ⟨rfl, h⟩
  rw [if_neg hroom]
  rw [not_le] at hroom
  have hcreate := h.create hroom howner 0
  obtain ⟨v, hv⟩ := h.toBase.socket ⟨⟨m.binds, hroom⟩, (h.slots _).mpr le_rfl⟩
  obtain ⟨u, hu⟩ : ∃ u, (first fun u => !(s.usocks u).used) = some u :=
    Option.isSome_iff_exists.mp (first_isSome.mpr ⟨v, by simp [hv]⟩)
  have hunused : (s.usocks u).used = false := by simpa using first_some hu
  have hbase := h.toBase.bind path ownerPid
  have hbind : s.ipcUsockBind path ownerPid = (ipcOk, (({ s.setChannel ⟨m.binds, hroom⟩
      { IpcChannel.zero with ownerPid := ownerPid, peerPid := 0 } with
        channelsActive := s.channelsActive + 1 } : IpcChannels).setUsock u
          ⟨true, UInt32.ofNat m.binds, ownerPid, path⟩)) := by
    unfold ipcUsockBind
    rw [if_neg (not_or.mpr ⟨hpath, howner⟩), hnone, if_neg (by simp), hcreate]
    dsimp only
    rw [if_neg (not_lt.mpr (Int.natCast_nonneg _))]
    simp only [IpcChannels.setChannel, hu, Int.toNat_natCast]
    rw [List.take_of_length_le (by omega)]
  rw [hbind] at hbase ⊢
  refine ⟨rfl, ⟨hbase, hroom, fun j => ?_, fun v hv => ?_, fun v w hv hw heq => ?_,
    fun path' b hb => ?_⟩⟩
  · simp only [setUsock, IpcChannels.setChannel]
    by_cases hj : j = ⟨m.binds, hroom⟩
    · rw [hj, Function.update_self]
      exact iff_of_false howner (by simp)
    · have hne : j.val ≠ m.binds := fun he => hj (Fin.ext he)
      rw [Function.update_of_ne hj, h.slots j]
      omega
  · simp only [setUsock, Boxes.set, IpcChannels.setChannel] at hv ⊢
    by_cases hvu : v = u
    · rw [hvu, Function.update_self, Function.update_self]
      exact ⟨hpath, Option.some_ne_none _⟩
    · rw [Function.update_of_ne hvu] at hv ⊢
      obtain ⟨hne, hsome⟩ := h.paths v hv
      have hother : (s.usocks v).path ≠ path := by
        rintro heq
        exact hsome (heq ▸ hbox)
      rw [Function.update_of_ne hother]
      exact ⟨hne, hsome⟩
  · simp only [setUsock, IpcChannels.setChannel] at hv hw heq
    have hfresh : ∀ v, v ≠ u → (s.usocks v).used = true → (s.usocks v).path ≠ path := by
      intro v _ hv heq
      exact (h.paths v hv).2 (heq ▸ hbox)
    by_cases hvu : v = u <;> by_cases hwu : w = u
    · rw [hvu, hwu]
    · rw [hvu, Function.update_self, Function.update_of_ne hwu] at heq
      rw [Function.update_of_ne hwu] at hw
      exact absurd heq.symm (hfresh w hwu hw)
    · rw [hwu, Function.update_self, Function.update_of_ne hvu] at heq
      rw [Function.update_of_ne hvu] at hv
      exact absurd heq (hfresh v hvu hv)
    · rw [Function.update_of_ne hvu] at hv heq
      rw [Function.update_of_ne hwu] at hw heq
      exact h.unique v w hv hw heq
  · simp only [Boxes.set] at hb
    by_cases hp : path' = path
    · rw [hp, Function.update_self] at hb
      obtain rfl := Option.some.inj hb
      refine ⟨u, ⟨m.binds, hroom⟩, ⟨?_, ?_, ?_⟩, ?_⟩
      · simp only [setUsock, Function.update_self]
      · simp only [setUsock, Function.update_self, hp]
      · simp only [setUsock, Function.update_self]
        exact channelAt_ofNat ⟨m.binds, hroom⟩
      · refine ⟨rfl, ?_, ?_, ?_, ?_, ?_⟩ <;>
          simp only [setUsock, IpcChannels.setChannel, Function.update_self]
        · exact howner
        · rfl
        · exact Cyclic.wf_empty _ 0
        · rfl
    · rw [Function.update_of_ne hp] at hb
      obtain ⟨v, j, hv, hc⟩ := h.boxes path' b hb
      have hvu : v ≠ u := by
        rintro rfl
        rw [hv.used] at hunused
        cases hunused
      have hj : j ≠ ⟨m.binds, hroom⟩ := by
        rintro rfl
        exact hc.owner ((h.slots _).mpr le_rfl)
      refine ⟨v, j, ⟨?_, ?_, ?_⟩, ?_⟩
      · simp only [setUsock, IpcChannels.setChannel, Function.update_of_ne hvu]
        exact hv.used
      · simp only [setUsock, IpcChannels.setChannel, Function.update_of_ne hvu]
        exact hv.path_eq
      · simp only [setUsock, IpcChannels.setChannel, Function.update_of_ne hvu]
        exact hv.channel
      · have hsame : Function.update s.channels ⟨m.binds, hroom⟩
            { IpcChannel.zero with ownerPid := ownerPid, peerPid := 0 } j = s.channels j :=
          Function.update_of_ne hj _ _
        refine ⟨hc.number, ?_, ?_, ?_, ?_, ?_⟩ <;>
          simp only [setUsock, IpcChannels.setChannel, hsame]
        · exact hc.owner
        · exact hc.peer
        · exact hc.isOpen
        · exact hc.wf
        · exact hc.bytes

theorem Stands.connect (h : s.Stands m) (peerPid : UInt32) :
    (s.socketCall (.connect path peerPid)).1 = (m.call (.connect path peerPid)).1 ∧
      (s.socketCall (.connect path peerPid)).2.Stands (m.call (.connect path peerPid)).2 := by
  simp only [socketCall, Boxes.call, ipcUsockConnect]
  cases hb : m.box path with
  | none =>
    rw [h.find_none hb]
    exact ⟨rfl, h⟩
  | some b =>
    obtain ⟨u, i, hfind, hbound, hc⟩ := h.find hb
    rw [hfind]
    dsimp only
    rw [hbound.channel]
    dsimp only
    rw [if_neg hc.owner]
    refine ⟨by rw [hc.number], h.setChannel hbound rfl rfl ?_⟩
    refine ⟨hc.number, ?_, ?_, ?_, ?_, ?_⟩ <;>
      simp only [IpcChannels.setChannel, Function.update_self]
    · exact hc.owner
    · exact hc.isOpen
    · exact hc.wf
    · exact hc.bytes

theorem Stands.send (h : s.Stands m) (buf : Option (ℕ → UInt8)) (len : UInt32) :
    (s.socketCall (.send path buf len)).1 = (m.call (.send path buf len)).1 ∧
      (s.socketCall (.send path buf len)).2.Stands (m.call (.send path buf len)).2 := by
  simp only [socketCall, Boxes.call, ipcUsockSend]
  cases hb : m.box path with
  | none =>
    rw [h.find_none hb]
    exact ⟨rfl, h⟩
  | some b =>
    obtain ⟨u, i, hfind, hbound, hc⟩ := h.find hb
    rw [hfind]
    simp only [ipcChannelWrite, hbound.channel]
    cases buf with
    | none => exact ⟨rfl, h⟩
    | some bytes =>
      dsimp only
      by_cases hlen : len = 0
      · rw [if_pos hlen, if_pos hlen]
        exact ⟨rfl, h⟩
      rw [if_neg hlen, if_neg hlen, if_neg (by simp [hc.owner, hc.isOpen])]
      obtain ⟨hwf, hcount, hcontent⟩ := hc.wf.fill ((List.range len.toNat).map bytes)
      have hroom : (s.channels i).ring.count = b.bytes.length := by
        rw [← hc.bytes, Cyclic.length_content]
      rw [List.length_map, List.length_range, hroom] at hcount
      refine ⟨by rw [hcount], h.setChannel hbound rfl rfl ?_⟩
      refine ⟨hc.number, ?_, ?_, ?_, ?_, ?_⟩ <;>
        simp only [IpcChannels.setChannel, Function.update_self]
      · exact hc.owner
      · exact hc.peer
      · exact hc.isOpen
      · exact hwf
      · rw [hcontent, hcount, hc.bytes, ← List.map_take, List.take_range]
        congr 3
        omega

theorem Stands.recv (h : s.Stands m) (buf : Bool) (maxLen : UInt32) :
    (s.socketCall (.recv path buf maxLen)).1 = (m.call (.recv path buf maxLen)).1 ∧
      (s.socketCall (.recv path buf maxLen)).2.Stands (m.call (.recv path buf maxLen)).2 := by
  simp only [socketCall, Boxes.call, ipcUsockRecv]
  cases hb : m.box path with
  | none =>
    rw [h.find_none hb]
    exact ⟨rfl, h⟩
  | some b =>
    obtain ⟨u, i, hfind, hbound, hc⟩ := h.find hb
    rw [hfind]
    simp only [ipcChannelRead, hbound.channel]
    by_cases hargs : buf = false ∨ maxLen = 0
    · rw [if_pos hargs, if_pos hargs]
      exact ⟨rfl, h⟩
    rw [if_neg hargs, if_neg hargs, if_neg hc.owner]
    have hcount : (s.channels i).ring.count = 0 ↔ b.bytes = [] := by
      rw [← hc.bytes, ← Cyclic.length_content, List.length_eq_zero_iff]
    by_cases hempty : b.bytes = []
    · rw [if_pos hempty, if_pos (hcount.mpr hempty)]
      exact ⟨rfl, h⟩
    rw [if_neg hempty, if_neg (mt hcount.mp hempty)]
    obtain ⟨hwf, htake, hdrop⟩ := hc.wf.drain maxLen.toNat
    rw [hc.bytes] at htake hdrop
    refine ⟨by rw [htake], h.setChannel hbound rfl rfl ?_⟩
    refine ⟨hc.number, ?_, ?_, ?_, ?_, ?_⟩ <;>
      simp only [IpcChannels.setChannel, Function.update_self]
    · exact hc.owner
    · exact hc.peer
    · exact hc.isOpen
    · exact hwf
    · exact hdrop

theorem Stands.close (h : s.Stands m) :
    (s.socketCall (.close path)).1 = (m.call (.close path)).1 ∧
      (s.socketCall (.close path)).2.Stands (m.call (.close path)).2 := by
  have hbase := h.toBase.usockClose path
  simp only [socketCall, Boxes.call]
  cases hb : m.box path with
  | none =>
    have hfind := h.find_none hb
    unfold ipcUsockClose
    rw [hfind]
    exact ⟨rfl, h⟩
  | some b =>
    obtain ⟨u, i, hfind, hbound, hc⟩ := h.find hb
    unfold ipcUsockClose at hbase ⊢
    rw [hfind] at hbase ⊢
    dsimp only at hbase ⊢
    obtain ⟨j, hj, -, hclose⟩ := (close_cases s (s.usocks u).cid).resolve_left
      fun hsame => hc.owner (hsame.2 i hbound.channel)
    obtain rfl := Option.some.inj (hj.symm.trans hbound.channel)
    have husocks : (s.ipcChannelClose (s.usocks u).cid).usocks = s.usocks := by rw [hclose]; rfl
    have hother : ∀ k, k ≠ j → (s.ipcChannelClose (s.usocks u).cid).channels k = s.channels k := by
      intro k hk
      rw [hclose]
      exact Function.update_of_ne hk _ _
    have howner : ∀ k, ((s.ipcChannelClose (s.usocks u).cid).channels k).ownerPid =
        (s.channels k).ownerPid := by
      intro k
      by_cases hk : k = j
      · rw [hclose, hk]
        simp only [IpcChannels.setChannel, Function.update_self]
      · rw [hother k hk]
    generalize s.ipcChannelClose (s.usocks u).cid = t at hbase husocks hother howner ⊢
    have hleft : ∀ v, ((t.setUsock u .zero).usocks v).used = true →
        v ≠ u ∧ (t.setUsock u .zero).usocks v = s.usocks v ∧ (s.usocks v).used = true := by
      intro v hv
      simp only [setUsock, husocks] at hv ⊢
      by_cases hvu : v = u
      · rw [hvu, Function.update_self] at hv
        cases hv
      · rw [Function.update_of_ne hvu] at hv ⊢
        exact ⟨hvu, rfl, hv⟩
    refine ⟨rfl, hbase, h.binds, fun k => ?_, fun v hv => ?_, fun v w hv hw heq => ?_,
      fun path' b' hb' => ?_⟩
    · simp only [setUsock]
      rw [howner]
      exact h.slots k
    · obtain ⟨hvu, hsame, hused⟩ := hleft v hv
      rw [hsame]
      obtain ⟨hne, hbox⟩ := h.paths v hused
      refine ⟨hne, ?_⟩
      have hp : (s.usocks v).path ≠ path := fun hp =>
        hvu (h.unique v u hused hbound.used (hp.trans hbound.path_eq.symm))
      simp only [Boxes.set, Function.update_of_ne hp]
      exact hbox
    · obtain ⟨-, hsame, hused⟩ := hleft v hv
      obtain ⟨-, hsame', hused'⟩ := hleft w hw
      rw [hsame, hsame'] at heq
      exact h.unique v w hused hused' heq
    · simp only [Boxes.set] at hb'
      have hp : path' ≠ path := by
        rintro rfl
        rw [Function.update_self] at hb'
        cases hb'
      rw [Function.update_of_ne hp] at hb'
      obtain ⟨v, k, hv, hc'⟩ := h.boxes path' b' hb'
      have hk := h.channel_ne hbound hv hp
      have hvu : v ≠ u := by
        rintro rfl
        exact hp (hv.path_eq.symm.trans hbound.path_eq)
      have hsame : (t.setUsock u .zero).channels k = s.channels k := hother k hk
      have hsock : (t.setUsock u .zero).usocks v = s.usocks v := by
        simp only [setUsock, husocks, Function.update_of_ne hvu]
      exact ⟨v, k, ⟨by rw [hsock]; exact hv.used, by rw [hsock]; exact hv.path_eq,
        by rw [hsock]; exact hv.channel⟩, hc'.number, by rw [hsame]; exact hc'.owner,
        by rw [hsame]; exact hc'.peer, by rw [hsame]; exact hc'.isOpen,
        by rw [hsame]; exact hc'.wf, by rw [hsame]; exact hc'.bytes⟩

theorem stands_init : ipcInit.Stands .empty where
  toBase := base_ipcInit
  binds := Nat.zero_le _
  slots _ := iff_of_true rfl (Nat.zero_le _)
  paths _ hu := by cases hu
  unique _ _ hu := by cases hu
  boxes _ _ hb := by cases hb

/-- The tables reply as the map that they stand for. -/
theorem simulates_boxes : Simulates socketCall Boxes.call Stands
    fun c => c.path.length < ipcUsockPathMax := by
  intro s m c h hlen
  cases c with
  | bind path ownerPid => exact h.bind hlen
  | connect path peerPid => exact h.connect peerPid
  | send path buf len => exact h.send buf len
  | recv path buf maxLen => exact h.recv buf maxLen
  | close path => exact h.close

end IpcChannels

/-- From `ipc_init` on, the calls on paths that fit reply as calls on a map of boxes do. -/
theorem path_sockets (calls : List SocketCall)
    (hlen : ∀ c ∈ calls, c.path.length < ipcUsockPathMax) :
    replies IpcChannels.socketCall .ipcInit calls = replies Boxes.call .empty calls :=
  (IpcChannels.simulates_boxes.replies_eq IpcChannels.stands_init hlen).1

/-- Two paths, bytes for both, a close and a new bind. -/
def twoSockets : List SocketCall :=
  [.bind [47, 97] 3, .bind [47, 98] 4, .send [47, 97] (some fun k => UInt8.ofNat k) 3,
    .send [47, 98] (some fun _ => 7) 2, .connect [47, 97] 5, .recv [47, 97] true 2,
    .close [47, 97], .bind [47, 97] 3, .recv [47, 97] true 9, .recv [47, 98] true 9]

theorem path_sockets_two :
    replies IpcChannels.socketCall .ipcInit twoSockets = replies Boxes.call .empty twoSockets :=
  path_sockets twoSockets (by decide)

end VernisOS
