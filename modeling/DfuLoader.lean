import DfuLoader.Bench.Board
import DfuLoader.Host.Links
import DfuLoader.Proofs.Address
import DfuLoader.Proofs.BusyChips
import DfuLoader.Proofs.Classification
import DfuLoader.Proofs.CommittedWindows
import DfuLoader.Proofs.Confinement
import DfuLoader.Proofs.Effort
import DfuLoader.Proofs.FlowControl
import DfuLoader.Proofs.HealthyBoard
import DfuLoader.Proofs.Integrity
import DfuLoader.Proofs.Placement
import DfuLoader.Proofs.Reachable
import DfuLoader.Proofs.RingQueue
import DfuLoader.Proofs.SessionCases
import DfuLoader.Proofs.Storage
import DfuLoader.Proofs.TickCases
import DfuLoader.Proofs.TickCommands
import DfuLoader.Proofs.Tracking
import DfuLoader.Proofs.WindowCursor
import DfuLoader.Proofs.WindowOutcome
import DfuLoader.Proofs.WindowTurns
import DfuLoader.Proofs.Draining
import DfuLoader.Proofs.ManifestPolicy
import DfuLoader.Proofs.StaleBytes
import DfuLoader.Proofs.CheckedRing
import DfuLoader.Proofs.CheckedEngine
import DfuLoader.Proofs.CheckedSession
import DfuLoader.Proofs.Restart
import DfuLoader.Proofs.ClassRequests
import DfuLoader.Proofs.InterfaceRuns
import DfuLoader.Proofs.ProtocolStates
import DfuLoader.Proofs.StalledRequests
import DfuLoader.Proofs.ZoneLoading
import DfuLoader.Proofs.BlockQueue
import DfuLoader.Proofs.RunLog
import DfuLoader.Proofs.Reboots
import DfuLoader.Proofs.Uploading
import DfuLoader.Proofs.ImageTransfer
import DfuLoader.Proofs.Completion
import DfuLoader.Proofs.RepeatedDownload
import DfuLoader.Proofs.Coverage
import DfuLoader.Proofs.EngineRuns
import DfuLoader.Proofs.BusDiscipline
import DfuLoader.Proofs.RegionBounds
import DfuLoader.Proofs.ProgramPass
import DfuLoader.Proofs.ReadingBack
import DfuLoader.Proofs.Reprogramming
import DfuLoader.Proofs.ForeignTransfers
import DfuLoader.Proofs.AlternateSettings
import DfuLoader.Proofs.DeviceEvents
import DfuLoader.Proofs.CursorInvariant
import DfuLoader.Proofs.WindowRounding
import DfuLoader.Proofs.RateLimit
