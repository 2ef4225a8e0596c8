import VernisOS.Kfs
import VernisOS.Process

/-!
# The system calls of all tasks

The machine with the descriptors of every slot, the pipes, the sockets and the files, and all
system calls of `interrupt_dispatch` in `kernel/arch/x86_64/kernel_x64.c` over it. `Syscall`
has the calls of one task from their pointers on; here a call starts with what it has copied
from the memory of its task, and what it hands back is returned : a byte that it puts into a
buffer is a store of the task. The waits of `sys_connect` and `sys_accept` change nothing : the
first is the call up to its wait, the second the call from the end of its wait on.
-/

open Bytes Slots

namespace VernisOS

/-- The machine, the descriptors and working directories of the slots, and what all tasks
share. `udpNext` is `g_next_ephemeral`. -/
structure System where
  machine : Machine
  fdTable : Fin 8 → Fin fdMax → FdEntry
  cwd : Fin 8 → CString sysIoPathMax
  pipes : Fin maxPipes → KernelPipe
  tty : List UInt8
  tcp : TcpStack
  udp : Fin udpMaxSockets → UdpSocket
  udpOutput : Bool
  udpNext : UInt16
  fs : VernisFs

/-- A descriptor that is not in use. -/
def FdEntry.empty : FdEntry :=
  ⟨.none, 0, emptyPath, 0, 0, 0, 0⟩

/-- What `fd_close_entry` leaves of a descriptor. -/
def FdEntry.closed (e : FdEntry) : FdEntry :=
  { e with type := .none, flags := 0, path := emptyPath, offset := 0, pipeIdx := 0 }

/-- `fd_table_init`. -/
def fdTableInit (fd : Fin fdMax) : FdEntry :=
  if fd.val = 0 then { FdEntry.empty with type := .tty, flags := 1 }
  else if fd.val = 1 ∨ fd.val = 2 then { FdEntry.empty with type := .tty, flags := 2 }
  else FdEntry.empty

/-- A pipe after one of its ends was closed. -/
def KernelPipe.close (p : KernelPipe) (readEnd : Bool) : KernelPipe :=
  let p := if readEnd then { p with readOpen := false } else { p with writeOpen := false }
  if !p.readOpen && !p.writeOpen then { p with active := false } else p

theorem length_rootPath : [(47 : UInt8)].length < sysIoPathMax := by
  decide

/-- `"/"`. -/
def rootPath : CString sysIoPathMax :=
  ⟨[47], length_rootPath⟩

namespace System

/-! ## Tables -/

/-- What the handlers see of the running task. -/
def kernel (s : System) : Kernel where
  fdTable := s.fdTable s.machine.current
  pipes := s.pipes
  tty := s.tty
  tcp := s.tcp
  udp := s.udp
  udpOutput := s.udpOutput
  cwd := s.cwd s.machine.current
  vmaList := s.machine.cur.vmaList
  mmapNext := s.machine.cur.mmapNext
  ticksRemaining := s.machine.cur.ticksRemaining

/-- The clock of the sockets. -/
def now (s : System) : UInt32 :=
  s.machine.kernelTick.toUInt32

/-- The descriptors of the running task. -/
def fds (s : System) : Fin fdMax → FdEntry :=
  s.fdTable s.machine.current

/-- Set a descriptor of the running task. -/
@[simps]
def setFd (s : System) (fd : Fin fdMax) (e : FdEntry) : System :=
  { s with fdTable := Function.update s.fdTable s.machine.current (Function.update s.fds fd e) }

/-- Set a pipe. -/
@[simps]
def setPipe (s : System) (p : Fin maxPipes) (pipe : KernelPipe) : System :=
  { s with pipes := Function.update s.pipes p pipe }

/-- Set a UDP socket. -/
@[simps]
def setUdp (s : System) (i : Fin udpMaxSockets) (u : UdpSocket) : System :=
  { s with udp := Function.update s.udp i u }

/-- Change the TCP sockets. -/
@[simps]
def setTcp (s : System) (tcp : TcpStack) : System :=
  { s with tcp := tcp }

/-- Change the files. -/
@[simps]
def setFs (s : System) (fs : VernisFs) : System :=
  { s with fs := fs }

/-- The running task gives up the rest of its time slice. -/
@[simps]
def yieldSlice (s : System) : System :=
  { s with machine := s.machine.sysYield }

theorem toNat_lt_fdMax (fd : Int) (h : 0 ≤ fd ∧ fd < fdMax) : fd.toNat < fdMax := by
  omega

/-- The descriptor with a number, in use or not. -/
def inTable (fd : Int) : Option (Fin fdMax) :=
  if h : 0 ≤ fd ∧ fd < fdMax then some ⟨fd.toNat, toNat_lt_fdMax fd h⟩ else none

/-! ## Opening and closing -/

/-- The port that `udp_bind` takes, for 0 the next one of its own. -/
def udpPort (s : System) (port : UInt16) : UInt16 × System :=
  if port = 0 then
    (s.udpNext, { s with udpNext := if s.udpNext + 1 < 50000 then 50000 else s.udpNext + 1 })
  else (port, s)

/-- `udp_bind`. -/
def udpBind (s : System) (port : UInt16) : Option (Fin udpMaxSockets) × System :=
  let r := s.udpPort port
  if (first fun i => (s.udp i).inUse && (s.udp i).port == r.1).isSome then (none, r.2)
  else
    match first fun i => !(s.udp i).inUse with
    | none => (none, r.2)
    | some i => (some i, r.2.setUdp i ⟨true, r.1, []⟩)

/-- `udp_close`. -/
def udpClose (s : System) (sock : UInt8) : System :=
  if h : sock.toNat < udpMaxSockets then
    s.setUdp ⟨sock.toNat, h⟩ { s.udp ⟨sock.toNat, h⟩ with inUse := false }
  else s

/-- What `fd_close_entry` does to the pipe or socket behind a descriptor. -/
def closeObject (s : System) (e : FdEntry) : System :=
  match e.type with
  | .pipeR | .pipeW =>
    if h : e.pipeIdx.toNat < maxPipes then
      s.setPipe ⟨e.pipeIdx.toNat, h⟩ ((s.pipes ⟨e.pipeIdx.toNat, h⟩).close (e.type = .pipeR))
    else s
  | .sockTcp =>
    if e.pipeIdx ≠ 0xFF then s.setTcp (s.tcp.tcpClose s.now e.pipeIdx.toNat).2 else s
  | .sockUdp => if e.pipeIdx ≠ 0xFF then s.udpClose e.pipeIdx else s
  | _ => s

/-- `fd_close_entry`. -/
def fdCloseEntry (s : System) (fd : Fin fdMax) : System :=
  (s.closeObject (s.fds fd)).setFd fd (s.fds fd).closed

/-- `sys_open`, with what `copy_user_path_64` has copied. -/
def sysOpen (s : System) (env : KfsEnv) (path : Option (CString sysIoPathMax)) (flags : UInt64) :
    Int × System :=
  match s.kernel.fdAlloc with
  | none => (-1, s)
  | some fd =>
    match path with
    | none => (-1, s)
    | some path =>
      if (kfsFindFile env s.fs path.path).isSome then
        (fd.val, s.setFd fd ((s.fds fd).openFile path (flags &&& 3).toUInt8))
      else (-1, s)

/-- `sys_close`. -/
def sysClose (s : System) (fd : Int) : Int × System :=
  match s.kernel.openFd fd with
  | none => (-1, s)
  | some fd => (0, s.fdCloseEntry fd)

/-- `sys_dup`. -/
def sysDup (s : System) (oldfd : Int) : Int × System :=
  match s.kernel.openFd oldfd with
  | none => (-1, s)
  | some oldfd =>
    match s.kernel.fdAlloc with
    | none => (-1, s)
    | some newfd => (newfd.val, s.setFd newfd (s.fds oldfd))

/-- `sys_dup2`. -/
def sysDup2 (s : System) (oldfd newfd : Int) : Int × System :=
  match s.kernel.openFd oldfd with
  | none => (-1, s)
  | some old =>
    match inTable newfd with
    | none => (-1, s)
    | some new =>
      if old = new then (newfd, s)
      else
        let s := if (s.fds new).type ≠ .none then s.fdCloseEntry new else s
        (newfd, s.setFd new (s.fds old))

/-- `sys_pipe`, with the two descriptors first. -/
def sysPipe (s : System) (fdsPtr : UInt64) : Option (Fin fdMax × Fin fdMax) × System :=
  if !userPtrRangeValid64 fdsPtr 8 then (none, s)
  else
    match first fun p => !(s.pipes p).active with
    | none => (none, s)
    | some p =>
      match s.kernel.fdAlloc with
      | none => (none, s)
      | some rfd =>
        let s := s.setFd rfd { s.fds rfd with type := .pipeR, pipeIdx := UInt8.ofNat p.val }
        match s.kernel.fdAlloc with
        | none => (none, s.setFd rfd { s.fds rfd with type := .none })
        | some wfd =>
          (some (rfd, wfd),
            (s.setFd wfd { s.fds wfd with type := .pipeW, pipeIdx := UInt8.ofNat p.val }).setPipe p
              ⟨[], true, true, true⟩)

/-! ## Sockets -/

/-- `sys_socket`. -/
def sysSocket (s : System) (type : UInt64) : Int × System :=
  match s.kernel.fdAlloc with
  | none => (-1, s)
  | some fd =>
    let e := { s.fds fd with sockPeerIp := 0, sockPeerPort := 0 }
    if type = 1 then (fd.val, s.setFd fd { e with type := .sockTcp, pipeIdx := 0xFF, flags := 3 })
    else if type = 2 then
      let r := s.udpBind 0
      match r.1 with
      | none => (-1, r.2.setFd fd e.closed)
      | some sock =>
        (fd.val, r.2.setFd fd
          { e with type := .sockUdp, pipeIdx := UInt8.ofNat sock.val, flags := 3 })
    else (-1, s.setFd fd e.closed)

/-- `sys_connect`, up to its wait, with `true` if it gets there or returns 0. -/
def sysConnect (s : System) (fd : Int) (ip : UInt32) (port : UInt16) : Bool × System :=
  match inTable fd with
  | none => (false, s)
  | some fd =>
    match (s.fds fd).type with
    | .sockUdp => (true, s.setFd fd { s.fds fd with sockPeerIp := ip, sockPeerPort := port })
    | .sockTcp =>
      let r := s.tcp.tcpConnect s.now ip port
      match r.1 with
      | none => (false, s.setTcp r.2)
      | some sock =>
        (true, (s.setTcp r.2).setFd fd { s.fds fd with pipeIdx := UInt8.ofNat sock.val })
    | _ => (false, s)

/-- `sys_bind`. -/
def sysBind (s : System) (fd : Int) (port : UInt16) : Int × System :=
  match inTable fd with
  | none => (-1, s)
  | some fd =>
    let e := s.fds fd
    match e.type with
    | .sockUdp =>
      let r := (if e.pipeIdx ≠ 0xFF then s.udpClose e.pipeIdx else s).udpBind port
      match r.1 with
      | none => (-1, r.2.setFd fd { e with pipeIdx := 0xFF })
      | some sock => (0, r.2.setFd fd { e with pipeIdx := UInt8.ofNat sock.val })
    | .sockTcp =>
      if e.pipeIdx ≠ 0xFF then (-1, s) else (0, s.setFd fd { e with sockPeerPort := port })
    | _ => (-1, s)

/-- `sys_listen`. -/
def sysListen (s : System) (fd : Int) : Int × System :=
  match inTable fd with
  | none => (-1, s)
  | some fd =>
    let e := s.fds fd
    if e.type ≠ .sockTcp ∨ e.pipeIdx ≠ 0xFF ∨ e.sockPeerPort = 0 then (-1, s)
    else
      let r := s.tcp.tcpListen e.sockPeerPort
      match r.1 with
      | none => (-1, s.setTcp r.2)
      | some sock => (0, (s.setTcp r.2).setFd fd { e with pipeIdx := UInt8.ofNat sock.val })

/-- `sys_accept`, from the end of its wait on. -/
def sysAccept (s : System) (fd : Int) : Int × System :=
  match inTable fd with
  | none => (-1, s)
  | some fd =>
    let e := s.fds fd
    if e.type ≠ .sockTcp ∨ e.pipeIdx = 0xFF then (-1, s)
    else
      let r := s.tcp.tcpAccept e.pipeIdx.toNat
      let s := s.setTcp r.2
      match r.1 with
      | none => (-1, s)
      | some child =>
        match s.kernel.fdAlloc with
        | none => (-1, s.setTcp (s.tcp.tcpClose s.now child.val).2)
        | some nfd =>
          (nfd.val, s.setFd nfd
            { s.fds nfd with
              type := .sockTcp
              pipeIdx := UInt8.ofNat child.val
              sockPeerIp := (s.tcp.tcbs child).remoteIp
              sockPeerPort := (s.tcp.tcbs child).remotePort
              flags := 3 })

/-! ## Reading and writing -/

/-- The count that a call on a descriptor works with. -/
def ioCount (count : UInt64) : ℕ :=
  min count.toNat sysIoBufMax

/-- `syscall_vfs_read_64`, with the bytes that reach the task. -/
def sysRead (s : System) (env : KfsEnv) (path : Option (CString sysIoPathMax))
    (userBufPtr maxLen : UInt64) : Option (List UInt8) × System :=
  if maxLen = 0 ∨ UInt64.ofNat sysIoBufMax < maxLen then (none, s)
  else if !userPtrRangeValid64 userBufPtr maxLen then (none, s)
  else
    match path with
    | none => (none, s)
    | some path =>
      let r := kfsReadFile env s.fs path.path maxLen.toNat
      (r.1, s.setFs r.2)

/-- `syscall_vfs_write_64`. `mem` are the bytes from the pointer on. -/
def sysWrite (s : System) (path : Option (CString sysIoPathMax)) (userBufPtr len : UInt64)
    (mem : ℕ → UInt8) : Int × System :=
  if len = 0 ∨ UInt64.ofNat sysIoBufMax < len then (-1, s)
  else if !userPtrRangeValid64 userBufPtr len then (-1, s)
  else
    match path with
    | none => (-1, s)
    | some path =>
      let r := kfsWriteFile s.fs path.path ((List.range len.toNat).map mem)
      (r.1, s.setFs r.2)

/-- The file of a descriptor is read whole, and given from the offset on. -/
def readFileAt (s : System) (env : KfsEnv) (fd : Fin fdMax) (count : ℕ) :
    Option (List UInt8) × System :=
  let e := s.fds fd
  let r := kfsReadFile env s.fs e.path.path sysIoBufMax
  let s := s.setFs r.2
  match r.1 with
  | none => (none, s)
  | some content =>
    let avail : Int := content.length - cInt e.offset
    if avail ≤ 0 then (some [], s)
    else
      let n := min count avail.toNat
      (some ((List.range n).map fun i => content.getD (e.offset.toNat + i) 0),
        s.setFd fd { e with offset := e.offset + UInt32.ofNat n })

/-- `sys_read_fd`, with the bytes that reach the task. -/
def sysReadFd (s : System) (env : KfsEnv) (fd : Int) (bufPtr count : UInt64) :
    Option (List UInt8) × System :=
  match s.kernel.openFd fd with
  | none => (none, s)
  | some fd =>
    if count = 0 then (some [], s)
    else if !userPtrRangeValid64 bufPtr (UInt64.ofNat (ioCount count)) then (none, s)
    else
      let e := s.fds fd
      match e.type with
      | .tty =>
        let bytes := s.tty.take (ioCount count)
        let s := { s with tty := s.tty.drop (ioCount count) }
        (some bytes, if bytes = [] then s.yieldSlice else s)
      | .pipeR =>
        match s.kernel.activePipe e.pipeIdx with
        | none => (none, s)
        | some p =>
          (some ((s.pipes p).data.take (ioCount count)),
            s.setPipe p { s.pipes p with data := (s.pipes p).data.drop (ioCount count) })
      | .file => s.readFileAt env fd (ioCount count)
      | .sockTcp =>
        if e.pipeIdx = 0xFF then (none, s)
        else
          let r := s.tcp.tcpRecv s.now e.pipeIdx.toNat (ioCount count)
          let s := s.setTcp r.2.2
          (if r.1 < 0 then none else some r.2.1, if r.1 = 0 then s.yieldSlice else s)
      | .sockUdp =>
        match if e.pipeIdx = 0xFF then none else s.kernel.udpSocket e.pipeIdx with
        | none => (none, s)
        | some i =>
          let bytes := ((s.udp i).rx.headD []).take (ioCount count)
          let s := s.setUdp i { s.udp i with rx := (s.udp i).rx.tail }
          (some bytes, if bytes = [] then s.yieldSlice else s)
      | _ => (none, s)

/-- `sys_write_fd`. `ipOutput` is what the IP layer returns for a datagram. -/
def sysWriteFd (s : System) (fd : Int) (bufPtr count : UInt64) (mem : ℕ → UInt8) (ipOutput : Int) :
    Int × System :=
  match s.kernel.openFd fd with
  | none => (-1, s)
  | some fd =>
    if count = 0 then (0, s)
    else if !userPtrRangeValid64 bufPtr (UInt64.ofNat (ioCount count)) then (-1, s)
    else
      let e := s.fds fd
      let bytes := (List.range (ioCount count)).map mem
      match e.type with
      | .tty => (bytes.length, s)
      | .pipeW =>
        match s.kernel.activePipe e.pipeIdx with
        | none => (-1, s)
        | some p =>
          let bytes := bytes.take (pipeBufSize - (s.pipes p).data.length)
          (bytes.length, s.setPipe p { s.pipes p with data := (s.pipes p).data ++ bytes })
      | .file =>
        let r := kfsWriteFile s.fs e.path.path bytes
        (if r.1 < 0 then -1 else bytes.length, s.setFs r.2)
      | .sockTcp =>
        if e.pipeIdx = 0xFF then (-1, s)
        else
          let r := s.tcp.tcpSend s.now e.pipeIdx.toNat bytes
          (r.1, s.setTcp r.2)
      | .sockUdp =>
        match if e.pipeIdx = 0xFF then none else s.kernel.udpSocket e.pipeIdx with
        | none => (-1, s)
        | some _ =>
          (if !s.udpOutput || decide (udpMaxPayload < bytes.length) then -1 else ipOutput, s)
      | _ => (-1, s)

/-- `SYS_CHDIR`. -/
def sysChdir (s : System) (env : KfsEnv) (path : Option (CString sysIoPathMax)) : Int × System :=
  match path with
  | none => (-1, s)
  | some path =>
    if path.val.head? = some 47 ∧
        (path.val.length = 1 ∨ (kfsFindFile env s.fs path.path).isSome) then
      (0, { s with cwd := Function.update s.cwd s.machine.current path })
    else (-1, s)

/-- `sys_mkdir2`. -/
def sysMkdir2 (s : System) (path : Option (CString sysIoPathMax)) : Int × System :=
  match path with
  | none => (-1, s)
  | some path =>
    let r := kfsMkdir s.fs path.path
    (if r.1 < 0 then -1 else 0, s.setFs r.2)

/-! ## Tasks -/

/-- Give a slot the descriptors and the working directory of the running task. -/
def fdCopy (s : System) (slot : Fin 8) : System :=
  { s with
    fdTable := Function.update s.fdTable slot s.fds
    cwd := Function.update s.cwd slot (s.cwd s.machine.current) }

/-- Give a slot the descriptors and the working directory of a new task. -/
def fdInit (s : System) (slot : Fin 8) : System :=
  { s with
    fdTable := Function.update s.fdTable slot fdTableInit
    cwd := Function.update s.cwd slot rootPath }

/-- `sys_execve` closes all descriptors but the first three. -/
def closeOnExec (s : System) : System :=
  ((slots fdMax).filter fun fd => 3 ≤ fd.val).foldl fdCloseEntry s

/-- What an event of the machine does to the descriptors. `m` is the machine before it. -/
def taskFds (s : System) (m : Machine) : ProcOp → System
  | .fork frame =>
    match m.freeSlot, (m.sysFork frame).1 with
    | some slot, some _ => s.fdCopy slot
    | _, _ => s
  | .elfExec file _ =>
    match m.freeSlot with
    | some slot => if file.ExecValid then s.fdInit slot else s
    | none => s
  | .kernelElfExec file =>
    match m.freeSlot with
    | some slot => if file.ExecValid then s.fdInit slot else s
    | none => s
  | .execve file => if (m.sysExecve file).1 then s.closeOnExec else s
  | _ => s

/-- A datagram for a port, of which `udp_receive_packet` has taken out the payload. -/
def udpReceive (s : System) (port : UInt16) (payload : List UInt8) : System :=
  match first fun i => (s.udp i).inUse && (s.udp i).port == port with
  | none => s
  | some i =>
    if udpRxQueue ≤ (s.udp i).rx.length then s
    else s.setUdp i { s.udp i with rx := (s.udp i).rx ++ [payload.take udpMaxPayload] }

end System

/-- What happens to the system : events of the machine, system calls of the running task, and
what the keyboard and the network bring. `other` are the calls that change nothing here : `SYS_USER_TEST`,
`SYS_WAITPID`, `SYS_AUTH`, `SYS_GETUID`, `SYS_GETGID`, `SYS_GETCWD`, `SYS_UMASK`, `SYS_SYNC`
and those of `c_syscall_handler`. -/
inductive SysOp where
  | proc (op : ProcOp)
  | read (path : Option (CString sysIoPathMax)) (userBufPtr maxLen : UInt64)
  | write (path : Option (CString sysIoPathMax)) (userBufPtr len : UInt64) (mem : ℕ → UInt8)
  | open (path : Option (CString sysIoPathMax)) (flags : UInt64)
  | readFd (fd : Int) (bufPtr count : UInt64)
  | writeFd (fd : Int) (bufPtr count : UInt64) (mem : ℕ → UInt8) (ipOutput : Int)
  | close (fd : Int)
  | dup (oldfd : Int)
  | dup2 (oldfd newfd : Int)
  | pipe (fdsPtr : UInt64)
  | socket (type : UInt64)
  | connect (fd : Int) (ip : UInt32) (port : UInt16)
  | bind (fd : Int) (port : UInt16)
  | listen (fd : Int)
  | accept (fd : Int)
  | chdir (path : Option (CString sysIoPathMax))
  | mkdir (path : Option (CString sysIoPathMax))
  | other
  | input (bytes : List UInt8)
  | tcpPacket (srcIp : UInt32) (packet : List UInt8)
  | tcpTick
  | udpPacket (port : UInt16) (payload : List UInt8)

namespace System

/-- A system call of the running task. -/
def call (env : KfsEnv) (s : System) : SysOp → System
  | .read path buf len => (s.sysRead env path buf len).2
  | .write path buf len mem => (s.sysWrite path buf len mem).2
  | .open path flags => (s.sysOpen env path flags).2
  | .readFd fd buf count => (s.sysReadFd env fd buf count).2
  | .writeFd fd buf count mem ipOutput => (s.sysWriteFd fd buf count mem ipOutput).2
  | .close fd => (s.sysClose fd).2
  | .dup oldfd => (s.sysDup oldfd).2
  | .dup2 oldfd newfd => (s.sysDup2 oldfd newfd).2
  | .pipe fdsPtr => (s.sysPipe fdsPtr).2
  | .socket type => (s.sysSocket type).2
  | .connect fd ip port => (s.sysConnect fd ip port).2
  | .bind fd port => (s.sysBind fd port).2
  | .listen fd => (s.sysListen fd).2
  | .accept fd => (s.sysAccept fd).2
  | .chdir path => (s.sysChdir env path).2
  | .mkdir path => (s.sysMkdir2 path).2
  | _ => s

/-- One event. -/
def step (env : KfsEnv) (s : System) : SysOp → Option System
  | .proc op => (s.machine.step op).map fun m => { s with machine := m }.taskFds s.machine op
  | .input bytes => some { s with tty := s.tty ++ bytes }
  | .tcpPacket srcIp packet => some (s.setTcp (s.tcp.tcpReceivePacket s.now srcIp packet))
  | .tcpTick => some (s.setTcp (s.tcp.tcpTick s.now))
  | .udpPacket port payload => some (s.udpReceive port payload)
  | op => if s.machine.IsUser s.machine.current then some (s.call env op) else none

/-- The system after boot : no task has more than the terminal, and there are no sockets. -/
def boot (m : Machine) (fs : VernisFs) : System where
  machine := m
  fdTable _ := fdTableInit
  cwd _ := rootPath
  pipes _ := ⟨[], false, false, false⟩
  tty := []
  tcp := TcpStack.tcpInit
  udp _ := ⟨false, 0, []⟩
  udpOutput := false
  udpNext := 50000
  fs := fs

/-! ## The machine -/

/-- The machine and the files. -/
def base (s : System) : Machine × VernisFs :=
  (s.machine, s.fs)

theorem setFd_base (s : System) (fd : Fin fdMax) (e : FdEntry) : (s.setFd fd e).base = s.base :=
  rfl

theorem udpClose_base (s : System) (sock : UInt8) : (s.udpClose sock).base = s.base := by
  unfold udpClose
  split <;> rfl

theorem udpPort_base (s : System) (port : UInt16) : (s.udpPort port).2.base = s.base := by
  unfold udpPort
  split <;> rfl

theorem udpBind_base (s : System) (port : UInt16) : (s.udpBind port).2.base = s.base := by
  unfold udpBind
  dsimp only
  split
  · exact s.udpPort_base port
  · split <;> exact s.udpPort_base port

theorem closeObject_base (s : System) (e : FdEntry) : (s.closeObject e).base = s.base := by
  unfold closeObject
  split
  · split <;> rfl
  · split <;> rfl
  · split <;> rfl
  · split
    · exact s.udpClose_base e.pipeIdx
    · rfl
  · rfl

theorem fdCloseEntry_base (s : System) (fd : Fin fdMax) :
    (s.fdCloseEntry fd).base = s.base :=
  s.closeObject_base (s.fds fd)

theorem closeOnExec_base (s : System) : s.closeOnExec.base = s.base := by
  unfold closeOnExec
  induction (slots fdMax).filter fun fd => 3 ≤ fd.val generalizing s with
  | nil => rfl
  | cons fd l ih =>
    rw [List.foldl_cons, ih, fdCloseEntry_base]

theorem taskFds_base (s : System) (m : Machine) (op : ProcOp) :
    (s.taskFds m op).base = s.base := by
  unfold taskFds
  split
  · split <;> rfl
  · split
    · split <;> rfl
    · rfl
  · split
    · split <;> rfl
    · rfl
  · split
    · exact s.closeOnExec_base
    · rfl
  · rfl

theorem sysDup2_base (s : System) (oldfd newfd : Int) :
    (s.sysDup2 oldfd newfd).2.base = s.base := by
  unfold sysDup2
  split
  · rfl
  · split
    · rfl
    · split
      · rfl
      · rw [setFd_base]
        split
        · exact s.fdCloseEntry_base _
        · rfl

theorem sysPipe_base (s : System) (fdsPtr : UInt64) :
    (s.sysPipe fdsPtr).2.base = s.base := by
  unfold sysPipe
  split
  · rfl
  · split
    · rfl
    · split
      · rfl
      · dsimp only
        split <;> rfl

theorem sysSocket_base (s : System) (type : UInt64) :
    (s.sysSocket type).2.base = s.base := by
  unfold sysSocket
  split
  · rfl
  · dsimp only
    split
    · rfl
    · split
      · split <;> exact s.udpBind_base 0
      · rfl

theorem sysConnect_base (s : System) (fd : Int) (ip : UInt32) (port : UInt16) :
    (s.sysConnect fd ip port).2.base = s.base := by
  unfold sysConnect
  split
  · rfl
  · split
    · rfl
    · dsimp only
      split <;> rfl
    · rfl

theorem sysBind_base (s : System) (fd : Int) (port : UInt16) :
    (s.sysBind fd port).2.base = s.base := by
  have hbind : ∀ e : FdEntry,
      ((if e.pipeIdx ≠ 0xFF then s.udpClose e.pipeIdx else s).udpBind port).2.base =
        s.base := by
    intro e
    rw [udpBind_base]
    split
    · exact s.udpClose_base _
    · rfl
  unfold sysBind
  split
  · rfl
  · dsimp only
    split
    · split <;> exact hbind _
    · split <;> rfl
    · rfl

theorem sysListen_base (s : System) (fd : Int) : (s.sysListen fd).2.base = s.base := by
  unfold sysListen
  split
  · rfl
  · dsimp only
    split
    · rfl
    · split <;> rfl

theorem sysAccept_base (s : System) (fd : Int) : (s.sysAccept fd).2.base = s.base := by
  unfold sysAccept
  split
  · rfl
  · dsimp only
    split
    · rfl
    · split
      · rfl
      · split <;> rfl

theorem readFileAt_machine (s : System) (env : KfsEnv) (fd : Fin fdMax) (count : ℕ) :
    (s.readFileAt env fd count).2.machine = s.machine := by
  unfold readFileAt
  dsimp only
  split
  · rfl
  · split <;> rfl

/-- Reading may give up the rest of the time slice. -/
theorem sysReadFd_machine (s : System) (env : KfsEnv) (fd : Int) (bufPtr count : UInt64) :
    (s.sysReadFd env fd bufPtr count).2.machine = s.machine ∨
      (s.sysReadFd env fd bufPtr count).2.machine = s.machine.sysYield := by
  unfold sysReadFd
  split
  · exact Or.inl rfl
  · split
    · exact Or.inl rfl
    · split
      · exact Or.inl rfl
      · dsimp only
        split
        · split
          · exact Or.inr rfl
          · exact Or.inl rfl
        · split <;> exact Or.inl rfl
        · exact Or.inl (s.readFileAt_machine env _ _)
        · split
          · exact Or.inl rfl
          · dsimp only
            generalize s.tcp.tcpRecv _ _ _ = r
            by_cases h : r.1 = 0
            · rw [if_pos h]
              exact Or.inr rfl
            · rw [if_neg h]
              exact Or.inl rfl
        · split
          · exact Or.inl rfl
          · split
            · exact Or.inr rfl
            · exact Or.inl rfl
        · exact Or.inl rfl

theorem sysWriteFd_machine (s : System) (fd : Int) (bufPtr count : UInt64) (mem : ℕ → UInt8)
    (ipOutput : Int) : (s.sysWriteFd fd bufPtr count mem ipOutput).2.machine = s.machine := by
  unfold sysWriteFd
  split
  · rfl
  · split
    · rfl
    · split
      · rfl
      · dsimp only
        split
        · rfl
        · split <;> rfl
        · rfl
        · split <;> rfl
        · split <;> rfl
        · rfl

theorem sysRead_machine (s : System) (env : KfsEnv) (path : Option (CString sysIoPathMax))
    (buf len : UInt64) : (s.sysRead env path buf len).2.machine = s.machine := by
  unfold sysRead
  split
  · rfl
  · split
    · rfl
    · split <;> rfl

theorem sysWrite_machine (s : System) (path : Option (CString sysIoPathMax)) (buf len : UInt64)
    (mem : ℕ → UInt8) : (s.sysWrite path buf len mem).2.machine = s.machine := by
  unfold sysWrite
  split
  · rfl
  · split
    · rfl
    · split <;> rfl

theorem sysOpen_base (s : System) (env : KfsEnv) (path : Option (CString sysIoPathMax))
    (flags : UInt64) : (s.sysOpen env path flags).2.base = s.base := by
  unfold sysOpen
  split
  · rfl
  · split
    · rfl
    · split <;> rfl

theorem sysClose_base (s : System) (fd : Int) : (s.sysClose fd).2.base = s.base := by
  unfold sysClose
  split
  · rfl
  · exact s.fdCloseEntry_base _

theorem sysDup_base (s : System) (oldfd : Int) : (s.sysDup oldfd).2.base = s.base := by
  unfold sysDup
  split
  · rfl
  · split <;> rfl

theorem sysChdir_base (s : System) (env : KfsEnv) (path : Option (CString sysIoPathMax)) :
    (s.sysChdir env path).2.base = s.base := by
  unfold sysChdir
  split
  · rfl
  · split <;> rfl

theorem sysMkdir2_machine (s : System) (path : Option (CString sysIoPathMax)) :
    (s.sysMkdir2 path).2.machine = s.machine := by
  unfold sysMkdir2
  split <;> rfl

theorem udpReceive_base (s : System) (port : UInt16) (payload : List UInt8) :
    (s.udpReceive port payload).base = s.base := by
  unfold udpReceive
  split
  · rfl
  · split <;> rfl

/-- A system call that is not one of the machine's leaves the machine, up to the rest of the
time slice. -/
theorem call_machine (env : KfsEnv) (s : System) (op : SysOp) :
    (s.call env op).machine = s.machine ∨ (s.call env op).machine = s.machine.sysYield := by
  cases op with
  | read path buf len => exact Or.inl (s.sysRead_machine env path buf len)
  | write path buf len mem => exact Or.inl (s.sysWrite_machine path buf len mem)
  | «open» path flags => exact Or.inl (congrArg Prod.fst (s.sysOpen_base env path flags))
  | readFd fd buf count => exact s.sysReadFd_machine env fd buf count
  | writeFd fd buf count mem ipOutput =>
    exact Or.inl (s.sysWriteFd_machine fd buf count mem ipOutput)
  | close fd => exact Or.inl (congrArg Prod.fst (s.sysClose_base fd))
  | dup oldfd => exact Or.inl (congrArg Prod.fst (s.sysDup_base oldfd))
  | dup2 oldfd newfd => exact Or.inl (congrArg Prod.fst (s.sysDup2_base oldfd newfd))
  | pipe fdsPtr => exact Or.inl (congrArg Prod.fst (s.sysPipe_base fdsPtr))
  | socket type => exact Or.inl (congrArg Prod.fst (s.sysSocket_base type))
  | connect fd ip port => exact Or.inl (congrArg Prod.fst (s.sysConnect_base fd ip port))
  | bind fd port => exact Or.inl (congrArg Prod.fst (s.sysBind_base fd port))
  | listen fd => exact Or.inl (congrArg Prod.fst (s.sysListen_base fd))
  | accept fd => exact Or.inl (congrArg Prod.fst (s.sysAccept_base fd))
  | chdir path => exact Or.inl (congrArg Prod.fst (s.sysChdir_base env path))
  | mkdir path => exact Or.inl (s.sysMkdir2_machine path)
  | _ => exact Or.inl rfl

/-- The machine takes the steps of its own events; the others leave it, up to the rest of the
time slice. -/
theorem step_machine {env : KfsEnv} {s s' : System} {op : SysOp} (h : s.step env op = some s') :
    (∃ p, op = .proc p ∧ s.machine.step p = some s'.machine) ∨
      (∀ p, op ≠ .proc p) ∧ (s'.machine = s.machine ∨ s'.machine = s.machine.sysYield) := by
  cases op with
  | proc p =>
    obtain ⟨m', hm', rfl⟩ := Option.map_eq_some_iff.mp h
    have hbase := ({ s with machine := m' } : System).taskFds_base s.machine p
    rw [show (System.taskFds _ s.machine p).machine = m' from congrArg Prod.fst hbase]
    exact Or.inl ⟨p, rfl, hm'⟩
  | input bytes =>
    obtain rfl := Option.some.inj h
    exact Or.inr ⟨fun _ he => (nomatch he), Or.inl rfl⟩
  | tcpPacket srcIp packet =>
    obtain rfl := Option.some.inj h
    exact Or.inr ⟨fun _ he => (nomatch he), Or.inl rfl⟩
  | tcpTick =>
    obtain rfl := Option.some.inj h
    exact Or.inr ⟨fun _ he => (nomatch he), Or.inl rfl⟩
  | udpPacket port payload =>
    obtain rfl := Option.some.inj h
    exact Or.inr ⟨fun _ he => (nomatch he), Or.inl (congrArg Prod.fst (s.udpReceive_base port payload))⟩
  | _ =>
    obtain ⟨-, h⟩ := Option.ite_none_right_eq_some.mp h
    obtain rfl := Option.some.inj h
    exact Or.inr ⟨fun _ he => (nomatch he), call_machine env s _⟩

end System

end VernisOS
