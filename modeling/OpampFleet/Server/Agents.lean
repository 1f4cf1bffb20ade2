import OpampFleet.Opamp.Uid
import OpampFleet.Server.AgentStore
import OpampFleet.Server.Register

/-!
# Agents' records, reports and replies

The data of `fleet.rs` that the processing of a report reads and writes. What a report carries and the Server only
keeps, and what an offer is made of, is left to a family of types, `Payloads`; so is where an Agent's Host and Client
place it, which is derived from the other records.
-/

namespace OpampFleet.Server

open Lib Opamp

structure Payloads where
  Description : Type
  Health : Type
  RemoteConfigStatus : Type
  ConnectionSettingsStatus : Type
  PackageStatuses : Type
  Component : Type
  Placement : Type
  /-- `Placement::default()`. -/
  unplaced : Placement
  RemoteConfig : Type
  ConnectionSettings : Type
  PackagesAvailable : Type
  Certificate : Type

abbrev ConnId := Nat

inductive Transport where
  | http
  | webSocket

/-- Hash-only until the full map was demanded and arrived. -/
structure AvailableComponents (P : Payloads) where
  components : Map String P.Component
  hash : Bytes

structure StoredFields (P : Payloads) where
  sequenceNum : UInt64
  capabilities : UInt64
  description : Option P.Description
  health : Option P.Health
  effectiveConfig : Option String
  remoteConfigStatus : Option P.RemoteConfigStatus
  connectionSettingsStatus : Option P.ConnectionSettingsStatus
  packageStatuses : Option P.PackageStatuses
  availableComponents : Option (AvailableComponents P)
  transport : Transport
  lastSeenMs : Nat
  restartPending : Bool
  labels : Map String String
  host : Option String

structure AgentRecord (P : Payloads) extends StoredFields P where
  assignment : Option Assignment
  connected : Bool
  componentsDemanded : Option Bytes
  /-- The WebSocket connection that carries the Agent; `none` for plain HTTP. -/
  owner : Option ConnId
  heard : Bool
  placement : P.Placement

variable {P : Payloads}

def AgentRecord.toPersisted (record : AgentRecord P) : PersistedAgent (StoredFields P) :=
  ⟨record.assignment, record.toStoredFields⟩

def AgentRecord.fromPersisted (persisted : PersistedAgent (StoredFields P)) : AgentRecord P where
  toStoredFields := persisted.rest
  assignment := persisted.assignment
  connected := false
  componentsDemanded := none
  owner := none
  heard := false
  placement := P.unplaced

def AgentRecord.new (sequenceNum : UInt64) (transport : Transport) (conn : Option ConnId) (nowMs : Nat) :
    AgentRecord P where
  sequenceNum := sequenceNum
  capabilities := 0
  description := none
  health := none
  effectiveConfig := none
  remoteConfigStatus := none
  connectionSettingsStatus := none
  packageStatuses := none
  availableComponents := none
  transport := transport
  lastSeenMs := nowMs
  restartPending := false
  labels := ∅
  host := none
  assignment := none
  connected := true
  componentsDemanded := none
  owner := conn
  heard := true
  placement := P.unplaced

/-- `AgentToServer`; the effective configuration as its rendered text. -/
structure Report (P : Payloads) where
  instanceUid : Bytes
  sequenceNum : UInt64
  flags : UInt64
  capabilities : UInt64
  agentDescription : Option P.Description
  health : Option P.Health
  effectiveConfig : Option String
  remoteConfigStatus : Option P.RemoteConfigStatus
  connectionSettingsStatus : Option P.ConnectionSettingsStatus
  packageStatuses : Option P.PackageStatuses
  availableComponents : Option (AvailableComponents P)
  certificateRequest : Option Bytes
  agentDisconnect : Bool

structure Presented where
  host : Option String
  subjectValues : Map String String
  notAfterMs : Nat

inductive ErrorKind where
  | badRequest
  | unavailable
  deriving DecidableEq

structure ErrorResponse where
  kind : ErrorKind
  message : String
  retryAfterNanoseconds : Option Nat

structure Reply (P : Payloads) where
  instanceUid : Bytes
  capabilities : UInt64
  flags : UInt64
  errorResponse : Option ErrorResponse
  remoteConfig : Option P.RemoteConfig
  connectionSettings : Option P.ConnectionSettings
  packagesAvailable : Option P.PackagesAvailable
  agentIdentification : Option InstanceUid
  restart : Bool

structure Processed (P : Payloads) where
  reply : Reply P
  uid : Option InstanceUid
  disconnected : Bool

def Reply.bare (P : Payloads) (capabilities : UInt64) : Reply P :=
    ⟨[], capabilities, 0, none, none, none, none, none, false⟩

/-- `AcceptsStatus`, `OffersRemoteConfig` and `AcceptsEffectiveConfig`. -/
def serverCapabilities : UInt64 := 7

def badRequest (message : String) : Reply P :=
  { Reply.bare P serverCapabilities with errorResponse := some ⟨.badRequest, message, none⟩ }

def retryAfterNanoseconds : Nat := 30 * 1000000000

def unavailable (instanceUid : Bytes) (message : String) : Reply P :=
  { Reply.bare P serverCapabilities with
    instanceUid := instanceUid
    errorResponse := some ⟨.unavailable, message, some retryAfterNanoseconds⟩ }

def restartCommand (uid : InstanceUid) (capabilities : UInt64) : Reply P :=
  { Reply.bare P capabilities with instanceUid := uid.bytes, restart := true }

end OpampFleet.Server
