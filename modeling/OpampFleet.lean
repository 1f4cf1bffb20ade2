import OpampFleet.Supervisor.DeliveredPaths
import OpampFleet.Supervisor.StagedBytes
import OpampFleet.Server.RetainedRevisions
import OpampFleet.Gateway.Agreement
import OpampFleet.Gateway.Confinement
import OpampFleet.Gateway.Quota
import OpampFleet.Server.Pruning
import OpampFleet.Server.HostSoundness
import OpampFleet.Server.EnrolmentWindow
import OpampFleet.Server.EnrolmentIssuance
import OpampFleet.Server.AuditChannel
import OpampFleet.Server.AuditRuns
import OpampFleet.Server.AuditBatches
import OpampFleet.Supervisor.RunnerLoop
import OpampFleet.Server.ReplyAddress
import OpampFleet.Gateway.Pool
import OpampFleet.Server.Uploads
import OpampFleet.Gateway.CacheSpace
import OpampFleet.Update.Probation
import OpampFleet.Server.Presses
import OpampFleet.Server.DirtyLedger
import OpampFleet.Server.CapabilityGates
import OpampFleet.Supervisor.PackageEcho
import OpampFleet.Supervisor.RemoteConfigs
import OpampFleet.Server.Ceiling
import OpampFleet.Server.Deletions
import OpampFleet.Server.Edits
import OpampFleet.Supervisor.PackageFloors
import OpampFleet.Server.Restarts
import OpampFleet.Gateway.Canonical
import OpampFleet.Server.ConfigHash
import OpampFleet.Server.Throttle
import OpampFleet.Opamp.Pace
import OpampFleet.Core.Statements
import OpampFleet.Supervisor.Connection
import OpampFleet.Server.HostFiles
import OpampFleet.Core.Rate
