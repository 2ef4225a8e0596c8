import VernisOS.AlertDedup
import VernisOS.AutoTuner
import VernisOS.BcacheRuns
import VernisOS.BridgeCodec
import VernisOS.BridgeRuns
import VernisOS.ByteStreams
import VernisOS.ChannelLife
import VernisOS.CliAccess
import VernisOS.CliDepth
import VernisOS.CliIdentity
import VernisOS.CliPrivilege
import VernisOS.CliSecrecy
import VernisOS.ContextSwitch
import VernisOS.Credentials
import VernisOS.CursorTrace
import VernisOS.DescriptorReads
import VernisOS.DetectorExactness
import VernisOS.DhcpCodec
import VernisOS.DhcpRuns
import VernisOS.DnsReplies
import VernisOS.DragTiming
import VernisOS.Ext2RoundTrip
import VernisOS.FileMappings
import VernisOS.Fat32Confinement
import VernisOS.Fat32Errors
import VernisOS.FilePermissions
import VernisOS.ForkRefinement
import VernisOS.IpcQueues
import VernisOS.LibraryHandles
import VernisOS.LoadersAgree
import VernisOS.MemoryScheduler
import VernisOS.ModuleConfinement
import VernisOS.PolicyRoundTrip
import VernisOS.PolicyUpdates
import VernisOS.ProcessLives
import VernisOS.ResponseHandler
import VernisOS.RunningProcess
import VernisOS.SchedulerChoice
import VernisOS.SchedulerRuns
import VernisOS.SyscallSafety
import VernisOS.TaskRegions
import VernisOS.TcpAccept
import VernisOS.TcpChecksum
import VernisOS.TcpFlow
import VernisOS.TcpIdentity
import VernisOS.TcpNet
import VernisOS.TcpReorder
import VernisOS.TcpRetries
import VernisOS.TcpRing
import VernisOS.TcpTeardown
import VernisOS.Tty
import VernisOS.UdpFifo
import VernisOS.UdpPorts
import VernisOS.VernisFsImage
import VernisOS.VernisFsIsolation
import VernisOS.VernisFsMount
import VernisOS.VernisFsListing
import VernisOS.VernisFsReads
import VernisOS.VernisFsRoundTrip
import VernisOS.VernisFsVolume
import VernisOS.CliReadline
import VernisOS.CliOperators
import VernisOS.CliLists
import VernisOS.CliPipelines
import VernisOS.Sha256Digest
import VernisOS.RustShims
import VernisOS.RingLogs
import VernisOS.ArpCache
import VernisOS.UserHeap
import VernisOS.WindowOrder
import VernisOS.BoxBlur
import VernisOS.PartialCompose
import VernisOS.FrameRuns
import VernisOS.TerminalRendering
import VernisOS.Lib.Replies
import VernisOS.PathSockets
