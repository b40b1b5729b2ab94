import Libdce.Host.EngineCount
import Libdce.Remote.Transparency
import Libdce.Tracking.Reclamation
import Libdce.Tracking.CleanupOwnership
import Libdce.Concurrency.Survival
import Libdce.Concurrency.InFlight
import Libdce.Coherence.Simulation
import Libdce.Tracking.CleanupOnce
import Libdce.Tracking.StrayRelease
import Libdce.Host.FailedOpen
import Libdce.Remote.TransportFailure
import Libdce.Remote.Names
import Libdce.Remote.HeaderAccess
import Libdce.Firmware.IvahdClock
import Libdce.Firmware.TiledHandles
import Libdce.Firmware.StaleRecords
import Libdce.Remote.BlockHeaders
import Libdce.Sample.OutputFrames
import Libdce.Sample.InputFrames
import Libdce.Sample.FilePaths
import Libdce.Sample.FrameLayout
import Libdce.Sample.CommandLine
import Libdce.Sample.OutputBuffers
import Libdce.Sample.Display
import Libdce.Sample.FrameReads
import Libdce.Sample.Feeding
import Libdce.Sample.DecodeLoop
import Libdce.Sample.Exits
import Libdce.Concurrency.Unlocked
import Libdce.Concurrency.Progress
import Libdce.Remote.Holdings
import Libdce.Firmware.HeapRuns
import Libdce.Firmware.Startup
