import VernisOS.TcpStack
import VernisOS.Udp
import VernisOS.UserMemory

/-!
# System calls with pointer arguments

The handlers of `interrupt_dispatch` for `int 0x80` in `kernel/arch/x86_64/kernel_x64.c`
that take pointers, with the descriptors, pipes, terminal input and sockets they move
bytes to and from. What the file system, the user database and the program loader answer
is a `SysEnv`. Ring buffers are the lists of the bytes in them.
-/

open Bytes Slots

namespace VernisOS

/-- `FD_MAX`. -/
abbrev fdMax : ℕ := 16

/-- `MAX_PIPES`. -/
abbrev maxPipes : ℕ := 8

/-- `PIPE_BUF_SIZE`. -/
abbrev pipeBufSize : ℕ := 4096

/-- `VMA_MAX_PER_TASK`. -/
abbrev vmaMaxPerTask : ℕ := 16

/-- What a descriptor stands for. -/
inductive FdType where
  | none
  | file
  | tty
  | pipeR
  | pipeW
  | sockTcp
  | sockUdp
  deriving DecidableEq

/-- A file descriptor. `pipeIdx` is also the number of a socket, 0xFF for none. -/
structure FdEntry where
  type : FdType
  flags : UInt8
  path : CString sysIoPathMax
  offset : UInt32
  pipeIdx : UInt8
  sockPeerIp : UInt32
  sockPeerPort : UInt16

/-- A pipe, with the bytes in its buffer. -/
structure KernelPipe where
  data : List UInt8
  active : Bool
  readOpen : Bool
  writeOpen : Bool

/-- A UDP socket, with the payloads in its queue. -/
structure UdpSocket where
  inUse : Bool
  port : UInt16
  rx : List (List UInt8)

/-- Kind of a memory region. -/
inductive VmaType where
  | none
  | anon
  | file
  deriving DecidableEq

/-- A region made by `mmap`. -/
structure VmaEntry where
  start : UInt64
  length : UInt64
  type : VmaType
  prot : UInt8
  flags : UInt8
  path : CString sysIoPathMax

/-- What the handlers use of the kernel and of the slot of the calling task. -/
structure Kernel where
  fdTable : Fin fdMax → FdEntry
  pipes : Fin maxPipes → KernelPipe
  tty : List UInt8
  tcp : TcpStack
  udp : Fin udpMaxSockets → UdpSocket
  udpOutput : Bool
  cwd : CString sysIoPathMax
  vmaList : Fin vmaMaxPerTask → VmaEntry
  mmapNext : UInt64
  ticksRemaining : UInt16

/-- The clock, and what the other parts of the kernel answer : `kfs_find_file`,
`kfs_read_file` with the room in the buffer, `kfs_write_file`, the IP layer,
`userdb_authenticate`, `userdb_find_uid`, and the memory of the task after the image at a
path was loaded. -/
structure SysEnv where
  now : UInt32
  findFile : List UInt8 → Bool
  readFile : List UInt8 → ℕ → Option (List UInt8)
  writeFile : List UInt8 → List UInt8 → Int
  ipOutput : UInt32 → List UInt8 → Int
  authenticate : List UInt8 → List UInt8 → Bool
  findUid : List UInt8 → Int
  load : List UInt8 → Option UserMemory

/-- Code of a handler. -/
abbrev SysM (α : Type) : Type :=
  UserM Kernel α

/-- The state of the kernel. -/
def kernel : SysM Kernel := do
  return (← get).kernel

/-- Change the state of the kernel. -/
def modifyKernel (f : Kernel → Kernel) : SysM Unit :=
  modify fun s => { s with kernel := f s.kernel }

namespace Kernel

/-- Set a descriptor. -/
def setFd (k : Kernel) (fd : Fin fdMax) (e : FdEntry) : Kernel :=
  { k with fdTable := Function.update k.fdTable fd e }

/-- Set a pipe. -/
def setPipe (k : Kernel) (p : Fin maxPipes) (pipe : KernelPipe) : Kernel :=
  { k with pipes := Function.update k.pipes p pipe }

/-- Give up the rest of the time slice. -/
def yieldSlice (k : Kernel) : Kernel :=
  { k with ticksRemaining := 1 }

/-- `fd_alloc`. -/
def fdAlloc (k : Kernel) : Option (Fin fdMax) :=
  first fun i => (k.fdTable i).type == .none

/-- The open descriptor with a number. -/
def openFd (k : Kernel) (fd : Int) : Option (Fin fdMax) :=
  if h : 0 ≤ fd ∧ fd < fdMax then
    if (k.fdTable ⟨fd.toNat, by omega⟩).type = .none then none else some ⟨fd.toNat, by omega⟩
  else none

/-- The active pipe with an index. -/
def activePipe (k : Kernel) (idx : UInt8) : Option (Fin maxPipes) :=
  if h : idx.toNat < maxPipes then
    if (k.pipes ⟨idx.toNat, h⟩).active then some ⟨idx.toNat, h⟩ else none
  else none

/-- The UDP socket with an index, if it is in use. -/
def udpSocket (k : Kernel) (idx : UInt8) : Option (Fin udpMaxSockets) :=
  if h : idx.toNat < udpMaxSockets then
    if (k.udp ⟨idx.toNat, h⟩).inUse then some ⟨idx.toNat, h⟩ else none
  else none

end Kernel

/-! ## Files by path -/

/-- `syscall_vfs_read_64`. -/
def syscallVfsRead64 (env : SysEnv) (pathPtr userBufPtr maxLen : UInt64) : SysM Int :=
  if maxLen = 0 ∨ UInt64.ofNat sysIoBufMax < maxLen then pure (-1)
  else if !userPtrRangeValid64 userBufPtr maxLen then pure (-1)
  else do
    match ← copyUserPath64 pathPtr with
    | none => pure (-1)
    | some path =>
      match env.readFile path.val maxLen.toNat with
      | none => pure (-1)
      | some bytes => do
        writeUserBytes userBufPtr bytes
        pure bytes.length

/-- `syscall_vfs_write_64`. -/
def syscallVfsWrite64 (env : SysEnv) (pathPtr userBufPtr len : UInt64) : SysM Int :=
  if len = 0 ∨ UInt64.ofNat sysIoBufMax < len then pure (-1)
  else if !userPtrRangeValid64 userBufPtr len then pure (-1)
  else do
    match ← copyUserPath64 pathPtr with
    | none => pure (-1)
    | some path => do
      let bytes ← readUserBytes userBufPtr len.toNat
      pure (env.writeFile path.val bytes)

/-! ## Descriptors -/

/-- A descriptor for a file, for reading if no mode is asked for. -/
def FdEntry.openFile (e : FdEntry) (path : CString sysIoPathMax) (mode : UInt8) : FdEntry :=
  { e with type := .file, flags := if mode = 0 then 1 else mode, offset := 0, path := path }

/-- `sys_open`. -/
def sysOpen (env : SysEnv) (pathPtr flags : UInt64) : SysM Int := do
  let k ← kernel
  match k.fdAlloc with
  | none => pure (-1)
  | some fd =>
    match ← copyUserPath64 pathPtr with
    | none => pure (-1)
    | some path =>
      if !env.findFile path.val then pure (-1)
      else do
        modifyKernel fun k => k.setFd fd ((k.fdTable fd).openFile path (flags &&& 3).toUInt8)
        pure fd.val

/-- The terminal gives what input it has. -/
def readTty (bufPtr : UInt64) (count : ℕ) : SysM Int := do
  let k ← kernel
  let bytes := k.tty.take count
  modifyKernel fun k => { k with tty := k.tty.drop count }
  if 0 < bytes.length then writeUserBytes bufPtr bytes else modifyKernel Kernel.yieldSlice
  pure bytes.length

/-- A pipe gives what it holds. -/
def readPipe (e : FdEntry) (bufPtr : UInt64) (count : ℕ) : SysM Int := do
  let k ← kernel
  match k.activePipe e.pipeIdx with
  | none => pure (-1)
  | some p => do
    let bytes := (k.pipes p).data.take count
    modifyKernel fun k => k.setPipe p { k.pipes p with data := (k.pipes p).data.drop count }
    writeUserBytes bufPtr bytes
    pure bytes.length

/-- A file is read whole, and given from the offset on. -/
def readFileAt (env : SysEnv) (fd : Fin fdMax) (e : FdEntry) (bufPtr : UInt64) (count : ℕ) :
    SysM Int :=
  match env.readFile e.path.val sysIoBufMax with
  | none => pure (-1)
  | some content =>
    let avail : Int := content.length - cInt e.offset
    if avail ≤ 0 then pure 0
    else do
      let n := min count avail.toNat
      writeUserBytes bufPtr ((List.range n).map fun i => content.getD (e.offset.toNat + i) 0)
      modifyKernel fun k => k.setFd fd { k.fdTable fd with
        offset := e.offset + UInt32.ofNat n }
      pure n

/-- A TCP socket gives what is in its receive buffer. -/
def readTcp (env : SysEnv) (e : FdEntry) (bufPtr : UInt64) (count : ℕ) : SysM Int :=
  if e.pipeIdx = 0xFF then pure (-1)
  else do
    let k ← kernel
    let (n, bytes, tcp) := k.tcp.tcpRecv env.now e.pipeIdx.toNat count
    modifyKernel fun k => { k with tcp := tcp }
    writeUserBytes bufPtr bytes
    if n = 0 then modifyKernel Kernel.yieldSlice
    pure n

/-- A UDP socket gives the next datagram. -/
def readUdp (e : FdEntry) (bufPtr : UInt64) (count : ℕ) : SysM Int :=
  if e.pipeIdx = 0xFF then pure (-1)
  else do
    let k ← kernel
    match k.udpSocket e.pipeIdx with
    | none => pure (-1)
    | some i =>
      match (k.udp i).rx with
      | [] => do
        modifyKernel Kernel.yieldSlice
        pure 0
      | d :: rest => do
        let bytes := d.take count
        modifyKernel fun k => { k with
          udp := Function.update k.udp i { k.udp i with rx := rest } }
        writeUserBytes bufPtr bytes
        if bytes.length = 0 then modifyKernel Kernel.yieldSlice
        pure bytes.length

/-- `sys_read_fd`. -/
def sysReadFd (env : SysEnv) (fd : Int) (bufPtr count : UInt64) : SysM Int := do
  let k ← kernel
  match k.openFd fd with
  | none => pure (-1)
  | some i =>
    if count = 0 then pure 0
    else
      let count := if UInt64.ofNat sysIoBufMax < count then UInt64.ofNat sysIoBufMax else count
      if !userPtrRangeValid64 bufPtr count then pure (-1)
      else
        let e := k.fdTable i
        match e.type with
        | .tty => readTty bufPtr count.toNat
        | .pipeR => readPipe e bufPtr count.toNat
        | .file => readFileAt env i e bufPtr count.toNat
        | .sockTcp => readTcp env e bufPtr count.toNat
        | .sockUdp => readUdp e bufPtr count.toNat
        | _ => pure (-1)

/-- The terminal takes all bytes. -/
def writeTty (bufPtr : UInt64) (count : ℕ) : SysM Int := do
  let _ ← readUserBytes bufPtr count
  pure count

/-- A pipe takes what it has room for. -/
def writePipe (e : FdEntry) (bufPtr : UInt64) (count : ℕ) : SysM Int := do
  let k ← kernel
  match k.activePipe e.pipeIdx with
  | none => pure (-1)
  | some p => do
    let bytes ← readUserBytes bufPtr (min count (pipeBufSize - (k.pipes p).data.length))
    modifyKernel fun k => k.setPipe p { k.pipes p with data := (k.pipes p).data ++ bytes }
    pure bytes.length

/-- A file is replaced by the bytes. -/
def writeFileWhole (env : SysEnv) (e : FdEntry) (bufPtr : UInt64) (count : ℕ) : SysM Int := do
  let bytes ← readUserBytes bufPtr count
  pure (if env.writeFile e.path.val bytes < 0 then -1 else count)

/-- How many bytes of a buffer of `len` bytes `tcp_send` takes. -/
def TcpStack.sendRoom (st : TcpStack) (sock : Int) (len : ℕ) : ℕ :=
  match socket sock with
  | none => 0
  | some i =>
    let tcb := st.tcbs i
    if tcb.state ≠ .established ∧ tcb.state ≠ .closeWait then 0
    else
      let space : Int := tcpTxBufSize - cInt tcb.inflight
      let allow : Int := tcb.remoteWindow.toNat - cInt tcb.inflight
      if allow ≤ 0 ∨ space ≤ 0 then 0
      else min (min (min len allow.toNat) space.toNat) tcpMaxSeg

/-- A TCP socket takes what its window has room for. -/
def writeTcp (env : SysEnv) (e : FdEntry) (bufPtr : UInt64) (count : ℕ) : SysM Int :=
  if e.pipeIdx = 0xFF then pure (-1)
  else do
    let k ← kernel
    let bytes ← readUserBytes bufPtr (k.tcp.sendRoom e.pipeIdx.toNat count)
    let (n, tcp) := k.tcp.tcpSend env.now e.pipeIdx.toNat bytes
    modifyKernel fun k => { k with tcp := tcp }
    pure n

/-- A UDP socket sends one datagram. -/
def writeUdp (env : SysEnv) (e : FdEntry) (bufPtr : UInt64) (count : ℕ) : SysM Int :=
  if e.pipeIdx = 0xFF then pure (-1)
  else do
    let k ← kernel
    match k.udpSocket e.pipeIdx with
    | none => pure (-1)
    | some _ =>
      if !k.udpOutput ∨ udpMaxPayload < count then pure (-1)
      else do
        let bytes ← readUserBytes bufPtr count
        pure (env.ipOutput e.sockPeerIp bytes)

/-- `sys_write_fd`. -/
def sysWriteFd (env : SysEnv) (fd : Int) (bufPtr count : UInt64) : SysM Int := do
  let k ← kernel
  match k.openFd fd with
  | none => pure (-1)
  | some i =>
    if count = 0 then pure 0
    else
      let count := if UInt64.ofNat sysIoBufMax < count then UInt64.ofNat sysIoBufMax else count
      if !userPtrRangeValid64 bufPtr count then pure (-1)
      else
        let e := k.fdTable i
        match e.type with
        | .tty => writeTty bufPtr count.toNat
        | .pipeW => writePipe e bufPtr count.toNat
        | .file => writeFileWhole env e bufPtr count.toNat
        | .sockTcp => writeTcp env e bufPtr count.toNat
        | .sockUdp => writeUdp env e bufPtr count.toNat
        | _ => pure (-1)

/-- Give a free descriptor a pipe's end. -/
def Kernel.pipeEnd (k : Kernel) (fd : Fin fdMax) (type : FdType) (p : Fin maxPipes) : Kernel :=
  k.setFd fd { k.fdTable fd with type := type, pipeIdx := UInt8.ofNat p.val }

/-- `sys_pipe`. The two descriptors are written as `int32_t`. -/
def sysPipe (fdsPtr : UInt64) : SysM Int :=
  if !userPtrRangeValid64 fdsPtr 8 then pure (-1)
  else do
    let k ← kernel
    match first fun p => !(k.pipes p).active with
    | none => pure (-1)
    | some p =>
      match k.fdAlloc with
      | none => pure (-1)
      | some rfd =>
        let k₁ := k.pipeEnd rfd .pipeR p
        match k₁.fdAlloc with
        | none => do
          modifyKernel fun _ => k₁.setFd rfd { k₁.fdTable rfd with type := .none }
          pure (-1)
        | some wfd => do
          modifyKernel fun _ => (k₁.pipeEnd wfd .pipeW p).setPipe p ⟨[], true, true, true⟩
          writeUserBytes fdsPtr (le32 (UInt32.ofNat rfd.val) ++ le32 (UInt32.ofNat wfd.val))
          pure 0

/-! ## Working directory, credentials, images and regions -/

/-- `SYS_CHDIR`. -/
def sysChdir (env : SysEnv) (pathPtr : UInt64) : SysM Int := do
  match ← copyUserPath64 pathPtr with
  | none => pure (-1)
  | some path =>
    if path.val.head? = some 47 ∧ (path.val.length = 1 ∨ env.findFile path.val) then do
      modifyKernel fun k => { k with cwd := path }
      pure 0
    else pure (-1)

/-- `SYS_GETCWD`. -/
def sysGetcwd (buf size : UInt64) : SysM Int := do
  let k ← kernel
  let len := k.cwd.val.length
  if UInt64.ofNat len < size ∧ userPtrRangeValid64 buf (UInt64.ofNat len + 1) then do
    writeUserBytes buf (k.cwd.val ++ [0])
    pure len
  else pure (-1)

/-- `sys_auth`. -/
def sysAuth (env : SysEnv) (userPtr passPtr : UInt64) : SysM Int := do
  match ← copyUserPath64 userPtr with
  | none => pure (-1)
  | some user =>
    if passPtr = 0 then
      pure (if env.authenticate user.val [] then env.findUid user.val else -1)
    else
      match ← copyUserPath64 passPtr with
      | none => pure (-1)
      | some pass =>
        pure (if env.authenticate user.val pass.val then env.findUid user.val else -1)

/-- `sys_execve`. The image is built in a fresh address space, through physical addresses. -/
def sysExecve (env : SysEnv) (pathPtr : UInt64) : SysM Int := do
  match ← copyUserPath64 pathPtr with
  | none => pure (-1)
  | some path =>
    match env.load path.val with
    | none => pure (-1)
    | some mem => do
      modify fun s => { s with mem := mem }
      pure 0

/-- Enter a region; the next one goes behind it. -/
def Kernel.addRegion (k : Kernel) (slot : Fin vmaMaxPerTask) (v : VmaEntry) : Kernel :=
  { k with mmapNext := v.start + v.length, vmaList := Function.update k.vmaList slot v }

/-- `MMAP_BASE_64`. -/
def mmapBase64 : UInt64 := 0x20000000

/-- `MAP_ANONYMOUS`. -/
def mapAnonymous : UInt8 := 0x10

/-- `sys_mmap`. -/
def sysMmap (length protFlags pathPtr : UInt64) : SysM Int :=
  let length := (length + 0xFFF) &&& ~~~(0xFFF : UInt64)
  if length = 0 ∨ 0x1000000 < length then pure (-1)
  else do
    let prot := (protFlags &&& 0xFF).toUInt8
    let flags := ((protFlags >>> 8) &&& 0xFF).toUInt8
    let k ← kernel
    match first fun i => (k.vmaList i).type == .none with
    | none => pure (-1)
    | some slot => do
      let va := if k.mmapNext = 0 then mmapBase64 else k.mmapNext
      if pathPtr = 0 ∨ flags &&& mapAnonymous ≠ 0 then do
        modifyKernel fun k => k.addRegion slot ⟨va, length, .anon, prot, flags, emptyPath⟩
        pure va.toNat
      else
        match ← copyUserPath64 pathPtr with
        | none => do
          modifyKernel fun k => k.addRegion slot ⟨va, length, .none, prot, flags, emptyPath⟩
          pure (-1)
        | some path => do
          modifyKernel fun k => k.addRegion slot ⟨va, length, .file, prot, flags, path⟩
          pure va.toNat

/-! ## Dispatch -/

/-- The calls with pointer arguments : `SYS_READ` (64), `SYS_WRITE` (65), `SYS_OPEN` (66),
`SYS_READ_FD` (67), `SYS_WRITE_FD` (68), `SYS_PIPE` (72), `SYS_EXECVE` (74), `SYS_MMAP` (76),
`SYS_CHDIR` (83), `SYS_GETCWD` (84) and `SYS_AUTH` (90). -/
inductive PointerCall where
  | read
  | write
  | open
  | readFd
  | writeFd
  | pipe
  | execve
  | mmap
  | chdir
  | getcwd
  | auth
  deriving DecidableEq

/-- The argument registers. -/
structure SysArgs where
  rbx : UInt64
  rcx : UInt64
  rdx : UInt64

/-- The branch of `interrupt_dispatch` for a call. A descriptor is passed as an `int`. -/
def interruptDispatch (env : SysEnv) (call : PointerCall) (r : SysArgs) : SysM Int :=
  match call with
  | .read => syscallVfsRead64 env r.rbx r.rcx r.rdx
  | .write => syscallVfsWrite64 env r.rbx r.rcx r.rdx
  | .open => sysOpen env r.rbx r.rcx
  | .readFd => sysReadFd env (cInt r.rbx.toUInt32) r.rcx r.rdx
  | .writeFd => sysWriteFd env (cInt r.rbx.toUInt32) r.rcx r.rdx
  | .pipe => sysPipe r.rbx
  | .execve => sysExecve env r.rbx
  | .mmap => sysMmap r.rbx r.rcx r.rdx
  | .chdir => sysChdir env r.rbx
  | .getcwd => sysGetcwd r.rbx r.rcx
  | .auth => sysAuth env r.rbx r.rcx

end VernisOS
