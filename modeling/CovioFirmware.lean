import CovioFirmware.Bytes.CheckedParse
import CovioFirmware.Bytes.Decimal
import CovioFirmware.Bytes.FieldSearch
import CovioFirmware.Bytes.JsonText
import CovioFirmware.Bytes.Packed
import CovioFirmware.Bytes.Rows
import CovioFirmware.Bytes.ShiftRegister
import CovioFirmware.Bytes.SparseErrors
import CovioFirmware.Bytes.Text
import CovioFirmware.Bytes.Uptime
import CovioFirmware.Crash.Log
import CovioFirmware.Crash.PingPong
import CovioFirmware.Crash.Program
import CovioFirmware.Crash.Refinement
import CovioFirmware.Crash.System
import CovioFirmware.Device.Calls
import CovioFirmware.Device.EventQueue
import CovioFirmware.Device.Footprint
import CovioFirmware.Device.Frames
import CovioFirmware.Device.Loop
import CovioFirmware.Device.Main
import CovioFirmware.Device.Provisioning
import CovioFirmware.Device.PulseCounter
import CovioFirmware.Device.Records
import CovioFirmware.Device.SegmentName
import CovioFirmware.Device.Slots
import CovioFirmware.Device.Sync
import CovioFirmware.Device.Telemetry
import CovioFirmware.Device.Totalizer
import CovioFirmware.Monitor.PulsePlausibility
import CovioFirmware.Monitor.SensorCt
import CovioFirmware.Monitor.SensorHealth
import CovioFirmware.Monitor.SensorStuck
import CovioFirmware.Queue.Adoption
import CovioFirmware.Queue.Appending
import CovioFirmware.Queue.Backlog
import CovioFirmware.Queue.Durable
import CovioFirmware.Queue.Filling
import CovioFirmware.Queue.Layout
import CovioFirmware.Queue.Routines
import CovioFirmware.Queue.Walks
import CovioFirmware.Safety.Acknowledgement
import CovioFirmware.Safety.AppendFaults
import CovioFirmware.Safety.BacklogCount
import CovioFirmware.Safety.BruteForce
import CovioFirmware.Safety.BurnedSeq
import CovioFirmware.Safety.CalibrationChain
import CovioFirmware.Safety.CommitGate
import CovioFirmware.Safety.CrcBursts
import CovioFirmware.Safety.CtPulses
import CovioFirmware.Safety.DamagedRows
import CovioFirmware.Safety.Delivery
import CovioFirmware.Safety.Disposition
import CovioFirmware.Safety.DownloadStall
import CovioFirmware.Safety.Draining
import CovioFirmware.Safety.DualSlot
import CovioFirmware.Safety.Durability
import CovioFirmware.Safety.FieldExtractors
import CovioFirmware.Safety.HealthContact
import CovioFirmware.Safety.KeyLifecycle
import CovioFirmware.Safety.LogicalIds
import CovioFirmware.Safety.LoopDelivery
import CovioFirmware.Safety.LostRecords
import CovioFirmware.Safety.ManifestExpiry
import CovioFirmware.Safety.NetworkSlot
import CovioFirmware.Safety.NoFlow
import CovioFirmware.Safety.ProvisionAtomicity
import CovioFirmware.Safety.ProvisioningRoundTrip
import CovioFirmware.Safety.PulseCounting
import CovioFirmware.Safety.PushReplay
import CovioFirmware.Safety.QueueRecovery
import CovioFirmware.Safety.RateFlag
import CovioFirmware.Safety.RateHysteresis
import CovioFirmware.Safety.Receiver
import CovioFirmware.Safety.Reconciliation
import CovioFirmware.Safety.RegistryMigration
import CovioFirmware.Safety.RegressionScan
import CovioFirmware.Safety.ReleaseInstalls
import CovioFirmware.Safety.ReportedPulses
import CovioFirmware.Safety.Rollback
import CovioFirmware.Safety.RowAlignment
import CovioFirmware.Safety.RowDistance
import CovioFirmware.Safety.SegmentDeletion
import CovioFirmware.Safety.SeqOrder
import CovioFirmware.Safety.ServerAck
import CovioFirmware.Safety.SignedBytes
import CovioFirmware.Safety.TotalsOrder
import CovioFirmware.Safety.TruncateGuard
import CovioFirmware.Safety.UnsentData
import CovioFirmware.Safety.WireRoundTrip
import CovioFirmware.Safety.WriteFailures
import CovioFirmware.Schedule.OneSlot
import CovioFirmware.Server.AdminGate
import CovioFirmware.Server.Administration
import CovioFirmware.Server.Commit
import CovioFirmware.Server.Dashboard
import CovioFirmware.Server.Database
import CovioFirmware.Server.Events
import CovioFirmware.Server.JsonReader
import CovioFirmware.Server.Migration
import CovioFirmware.Server.Push
import CovioFirmware.Server.Registry
import CovioFirmware.Server.SlidingWindow
import CovioFirmware.Server.Stored
import CovioFirmware.Server.Table
import CovioFirmware.Server.Values
import CovioFirmware.Sql.Interleaving
import CovioFirmware.Sql.Session
import CovioFirmware.Upgrade.Calls
import CovioFirmware.Upgrade.Health
import CovioFirmware.Upgrade.Manifest
import CovioFirmware.Upgrade.Poll
import CovioFirmware.Upgrade.Signing
