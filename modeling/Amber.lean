import Amber.Kvm.VgicBlob
import Amber.Hvf.GicTable
import Amber.Hvf.GicAcknowledge
import Amber.Hvf.GicRestore
import Amber.Hvf.MmioLoad
import Amber.Hvf.PowerUp
import Amber.Core.Loader
import Amber.Core.ChainWalk
import Amber.Core.BlkRoundTrip
import Amber.Core.UsedLength
import Amber.Core.DeferredFrame
import Amber.Core.VsockCredit
import Amber.Core.HostPortRun
import Amber.Core.VsockReap
import Amber.Core.VsockConfined
import Amber.Core.VsockHeld
import Amber.Core.SnapshotTorn
import Amber.Core.Quiesce
import Amber.Core.PauseGate
import Amber.Core.TransportSafety
import Amber.Core.ConsoleMarker
import Amber.Core.DeviceReset
import Amber.Core.InjectExact
import Amber.Net.Checksum
import Amber.Net.Nat
import Amber.Proto.FrameStream
import Amber.Exec.AgentRun
import Amber.Exec.Stdin
import Amber.Exec.ExitStatus
import Amber.Daemon.PoolTarget
import Amber.Daemon.Precedence
import Amber.Daemon.Eviction
import Amber.Daemon.ControlChannel
import Amber.Image.Stacking
import Amber.Image.Ceiling
import Amber.Image.LocalBuild
import Amber.Image.Realm
import Amber.Image.RefStore
import Amber.Image.Cpio
import Amber.Image.Bootstrap
