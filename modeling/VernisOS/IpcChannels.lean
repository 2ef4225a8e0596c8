import VernisOS.Ipc

/-!
# Byte channels and local sockets

`kernel/ipc/ipc.c`, the channels and the sockets over them : a channel is a ring of bytes with
an owner, and a socket names a channel by a path. A NULL path is the empty one, and a NULL
buffer is `none`.
-/

open Ring Slots

namespace VernisOS

/-- `IPC_MAX_CHANNELS`. -/
abbrev ipcMaxChannels : ℕ := 8

/-- `IPC_CHAN_BUF_SIZE`. -/
def ipcChanBufSize : ℕ := 512

/-- `IPC_MAX_USOCKETS`. -/
abbrev ipcMaxUsockets : ℕ := 8

/-- `IPC_USOCK_PATH_MAX`. -/
def ipcUsockPathMax : ℕ := 32

instance neZeroChanBufSize : NeZero ipcChanBufSize :=
  ⟨by decide⟩

/-- `IpcChannel`. The slot is free if `ownerPid` is 0. -/
structure IpcChannel where
  ownerPid : UInt32
  peerPid : UInt32
  ring : Cyclic UInt8 ipcChanBufSize
  closed : Bool

/-- A channel filled with zeros. -/
def IpcChannel.zero : IpcChannel :=
  ⟨0, 0, ⟨fun _ => 0, 0, 0, 0⟩, false⟩

/-- `IpcUnixSocket`. -/
structure IpcUnixSocket where
  used : Bool
  cid : UInt32
  ownerPid : UInt32
  path : List UInt8

/-- A socket filled with zeros. -/
def IpcUnixSocket.zero : IpcUnixSocket :=
  ⟨false, 0, 0, []⟩

/-- The channels and sockets of `ipc.c`, with the count of channels in its statistics. -/
structure IpcChannels where
  channels : Fin ipcMaxChannels → IpcChannel
  usocks : Fin ipcMaxUsockets → IpcUnixSocket
  channelsActive : UInt32

namespace IpcChannels

/-- `ipc_init`. -/
def ipcInit : IpcChannels :=
  ⟨fun _ => .zero, fun _ => .zero, 0⟩

/-- Store a channel. -/
def setChannel (s : IpcChannels) (i : Fin ipcMaxChannels) (ch : IpcChannel) : IpcChannels :=
  { s with channels := Function.update s.channels i ch }

/-- Store a socket. -/
def setUsock (s : IpcChannels) (i : Fin ipcMaxUsockets) (u : IpcUnixSocket) : IpcChannels :=
  { s with usocks := Function.update s.usocks i u }

/-- The channel with a number, if it is in range. -/
@[irreducible] def channelAt (cid : UInt32) : Option (Fin ipcMaxChannels) :=
  if h : cid.toNat < ipcMaxChannels then some ⟨cid.toNat, h⟩ else none

/-- `ipc_channel_create`. -/
def ipcChannelCreate (s : IpcChannels) (ownerPid peerPid : UInt32) : Int × IpcChannels :=
  if ownerPid = 0 then (ipcErrInval, s)
  else
    match first fun i => (s.channels i).ownerPid == 0 with
    | none => (ipcErrNoslot, s)
    | some i =>
      let s := s.setChannel i { IpcChannel.zero with ownerPid := ownerPid, peerPid := peerPid }
      (i.val, { s with channelsActive := s.channelsActive + 1 })

/-- `ipc_channel_write`. -/
def ipcChannelWrite (s : IpcChannels) (cid : UInt32) (buf : Option (ℕ → UInt8)) (len : UInt32) :
    Int × IpcChannels :=
  match channelAt cid, buf with
  | some i, some bytes =>
    if len = 0 then (ipcErrInval, s)
    else if (s.channels i).ownerPid = 0 ∨ (s.channels i).closed then (ipcErrInval, s)
    else
      let r := Cyclic.fill ((List.range len.toNat).map bytes) (s.channels i).ring
      (if r.1 = 0 then ipcErrFull else r.1, s.setChannel i { s.channels i with ring := r.2 })
  | _, _ => (ipcErrInval, s)

/-- `ipc_channel_read`, with the bytes it stores in the buffer. -/
def ipcChannelRead (s : IpcChannels) (cid : UInt32) (buf : Bool) (maxLen : UInt32) :
    Int × List UInt8 × IpcChannels :=
  match channelAt cid with
  | none => (ipcErrInval, [], s)
  | some i =>
    if buf = false ∨ maxLen = 0 then (ipcErrInval, [], s)
    else if (s.channels i).ownerPid = 0 then (ipcErrInval, [], s)
    else if (s.channels i).ring.count = 0 then (ipcErrEmpty, [], s)
    else
      let r := Cyclic.drain maxLen.toNat (s.channels i).ring
      (r.1.length, r.1, s.setChannel i { s.channels i with ring := r.2 })

/-- `ipc_channel_close`. -/
def ipcChannelClose (s : IpcChannels) (cid : UInt32) : IpcChannels :=
  match channelAt cid with
  | none => s
  | some i =>
    if (s.channels i).ownerPid = 0 then s
    else
      let s := s.setChannel i { s.channels i with closed := true }
      if s.channelsActive = 0 then s else { s with channelsActive := s.channelsActive - 1 }

/-- `usock_find_by_path`. -/
def usockFindByPath (s : IpcChannels) (path : List UInt8) : Option (Fin ipcMaxUsockets) :=
  if path = [] then none else first fun i => (s.usocks i).used && (s.usocks i).path == path

/-- `ipc_usock_bind`. -/
def ipcUsockBind (s : IpcChannels) (path : List UInt8) (ownerPid : UInt32) : Int × IpcChannels :=
  if path = [] ∨ ownerPid = 0 then (ipcErrInval, s)
  else if (s.usockFindByPath path).isSome then (ipcErrInval, s)
  else
    let r := s.ipcChannelCreate ownerPid 0
    if r.1 < 0 then r
    else
      match first fun i => !(r.2.usocks i).used with
      | some i => (ipcOk, r.2.setUsock i
          ⟨true, UInt32.ofNat r.1.toNat, ownerPid, path.take (ipcUsockPathMax - 1)⟩)
      | none => (ipcErrNoslot, r.2.ipcChannelClose (UInt32.ofNat r.1.toNat))

/-- `ipc_usock_close`. -/
def ipcUsockClose (s : IpcChannels) (path : List UInt8) : Int × IpcChannels :=
  match s.usockFindByPath path with
  | none => (ipcErrInval, s)
  | some i => (ipcOk, (s.ipcChannelClose (s.usocks i).cid).setUsock i .zero)

theorem channelAt_some {cid : UInt32} {i : Fin ipcMaxChannels} (h : channelAt cid = some i) : cid.toNat = i.val := by
  unfold channelAt at h
  split at h
  · cases h
    rfl
  · cases h

theorem channelAt_ofNat (i : Fin ipcMaxChannels) : channelAt (UInt32.ofNat i.val) = some i := by
  have hlt : i.val < 8 := i.isLt
  unfold channelAt
  have hval : (UInt32.ofNat i.val).toNat = i.val :=
    UInt32.toNat_ofNat_of_lt' (by change i.val < 4294967296; omega)
  rw [dif_pos (by rw [hval]; exact i.isLt)]
  exact congrArg some (Fin.ext hval)

end IpcChannels

end VernisOS
