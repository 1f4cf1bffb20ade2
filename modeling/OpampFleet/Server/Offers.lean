import OpampFleet.Server.Fit
import OpampFleet.Server.Process

/-!
# What the Server offers an Agent

The parts of `fleet.rs` and `packages.rs` that build what a message to an Agent carries: the remote configuration
(`offer`), the connection settings (`settings_offer` and its `gate`), the packages (`packages_offer`), the offer a
WebSocket loop pushes (`offer_for`) and the restart command it pushes (`restart_command_for`). Each reads the Agent's
record, and what the operator configured or stored, which is `Offering`.

`sha256` stands for the hash, `quote` for the way a text is shown in an error and `encode` for the protobuf encoding of
an offer. A report's health and the components it names are read by no offer; `H` and `C` stand for them.
-/

namespace OpampFleet.Server

open Lib Opamp Core

structure RemoteConfigStatus where
  lastRemoteConfigHash : Bytes

inductive ConnectionSettingsStatuses where
  | unset
  | applied
  | applying
  | failed
  deriving DecidableEq

structure ConnectionSettingsStatus where
  lastConnectionSettingsHash : Bytes
  status : ConnectionSettingsStatuses

structure PackageStatuses where
  serverProvidedAllPackagesHash : Bytes

structure AgentRemoteConfig where
  configMap : List (String × String × String)
  configHash : Bytes

structure TlsCertificate where
  cert : Bytes

structure OpAmpConnectionSettings where
  destinationEndpoint : String
  heartbeatIntervalSeconds : Nat
  certificate : Option TlsCertificate

structure TelemetryConnectionSettings where
  destinationEndpoint : String
  headers : List (String × String)

structure ConnectionSettingsOffers where
  hash : Bytes
  opamp : Option OpAmpConnectionSettings
  ownMetrics : Option TelemetryConnectionSettings
  ownTraces : Option TelemetryConnectionSettings
  ownLogs : Option TelemetryConnectionSettings

structure DownloadableFile where
  downloadUrl : String
  contentHash : Bytes
  signature : Bytes

structure PackageAvailable where
  version : String
  file : DownloadableFile
  hash : Bytes

structure PackagesAvailable where
  packages : List (String × PackageAvailable)
  allPackagesHash : Bytes

structure Placement where
  hostValues : Option SubjectValues
  inherited : Labels

def wire (H C : Type) : Payloads where
  Description := AgentDescription
  Health := H
  RemoteConfigStatus := RemoteConfigStatus
  ConnectionSettingsStatus := ConnectionSettingsStatus
  PackageStatuses := PackageStatuses
  Component := C
  Placement := Placement
  unplaced := ⟨none, ∅⟩
  RemoteConfig := AgentRemoteConfig
  ConnectionSettings := ConnectionSettingsOffers
  PackagesAvailable := PackagesAvailable
  Certificate := TlsCertificate

namespace AgentCapabilities

def acceptsRemoteConfig : UInt64 := 0x2

def acceptsPackages : UInt64 := 0x8

def reportsOwnTraces : UInt64 := 0x20

def reportsOwnMetrics : UInt64 := 0x40

def reportsOwnLogs : UInt64 := 0x80

def acceptsOpAmpConnectionSettings : UInt64 := 0x100

def acceptsRestartCommand : UInt64 := 0x400

end AgentCapabilities

def includes (capabilities bit : UInt64) : Bool := capabilities &&& bit ≠ 0

structure TelemetryOffer where
  ownMetrics : Option TelemetryConnectionSettings
  ownTraces : Option TelemetryConnectionSettings
  ownLogs : Option TelemetryConnectionSettings

def TelemetryOffer.isEmpty (t : TelemetryOffer) : Bool := t.ownMetrics.isNone && t.ownTraces.isNone && t.ownLogs.isNone

variable {H C : Type}

structure Offering (H C : Type) where
  shared : Bool
  maxAgents : Nat
  configs : ConfigStore
  packages : Option PackageStore
  connectionOffer : Option OpAmpConnectionSettings
  telemetryOffer : TelemetryOffer
  place : Records (wire H C) → InstanceUid → InstanceUid → Placement
  unplace : Records (wire H C) → InstanceUid → Placement → InstanceUid → Placement
  clientCa : Option (String → Bytes → Option Presented → Except String TlsCertificate)

namespace AgentRecord

def effectiveDescription (record : AgentRecord (wire H C)) : Option AgentDescription :=
  Sources.effectiveDescription
    ⟨record.placement.hostValues, record.description, record.labels, record.placement.inherited⟩

def assignedPackage (record : AgentRecord (wire H C)) : Option PackageId := record.assignment.bind Assignment.package

def assignedConfigurations (record : AgentRecord (wire H C)) : Map String String :=
  record.assignment.elim ∅ Assignment.configurations

end AgentRecord

open AgentCapabilities

def offer (record : AgentRecord (wire H C)) (desired : Option DesiredConfig) : Option AgentRemoteConfig :=
  desired.bind fun desired =>
    if !includes record.capabilities acceptsRemoteConfig then none
    else if record.remoteConfigStatus.elim [] RemoteConfigStatus.lastRemoteConfigHash = desired.hash then none
    else some ⟨desired.entries.map fun entry => (entry.name, entry.body, entry.role), desired.hash⟩

/-- The Baseline's gate: an Agent that still applies the same offer is sent it again. -/
def gate (record : AgentRecord (wire H C)) (offer : ConnectionSettingsOffers) : Option ConnectionSettingsOffers :=
  match record.connectionSettingsStatus with
  | some status =>
    if status.lastConnectionSettingsHash = offer.hash && status.status ≠ .applying then none else some offer
  | none => some offer

variable (sha256 : Bytes → Bytes)

def composeSettingsOffer (encode : ConnectionSettingsOffers → Bytes)
    (opamp : Option OpAmpConnectionSettings) (telemetry : TelemetryOffer) : ConnectionSettingsOffers :=
  let offer : ConnectionSettingsOffers := ⟨[], opamp, telemetry.ownMetrics, telemetry.ownTraces, telemetry.ownLogs⟩
  { offer with hash := sha256 (encode offer) }

def packageHash (id : PackageId) (entry : Entry) : Bytes :=
  sha256 (framed id.version ++ entry.contentHash)

def aggregateHash (id : PackageId) (entry : Entry) : Bytes :=
  sha256 (framed id.agentType ++ packageHash sha256 id entry)

def toAvailable (id : PackageId) (entry : Entry) (signature : Bytes) : PackageAvailable where
  version := id.version
  file :=
    { downloadUrl := "/api/v1/packages/" ++ id.agentType ++ "/" ++ id.version ++ "/file?os=" ++ entry.platform.os ++
        "&arch=" ++ entry.platform.arch
      contentHash := entry.contentHash
      signature := signature }
  hash := packageHash sha256 id entry

namespace PackageStore

def offerForAssigned (sha256 : Bytes → Bytes) (quote : String → String) (store : PackageStore)
    (assigned : Option PackageId) (description : Option AgentDescription) : Option PackagesAvailable :=
  (offeredEntry quote store.sets assigned description).map fun (id, entry, signature) =>
    ⟨[(id.agentType, toAvailable sha256 id entry signature)], aggregateHash sha256 id entry⟩

def assignedHashFor (sha256 : Bytes → Bytes) (quote : String → String) (store : PackageStore)
    (assigned : Option PackageId) (description : Option AgentDescription) : Bytes :=
  match offeredEntry quote store.sets assigned description with
  | some (id, entry, _) => aggregateHash sha256 id entry
  | none => []

end PackageStore

namespace Offering

variable (sha256 : Bytes → Bytes) (quote : String → String) (o : Offering H C)
  (encode : ConnectionSettingsOffers → Bytes)

def packagesOffer (record : AgentRecord (wire H C)) : Option PackagesAvailable :=
  o.packages.bind fun store =>
    if !includes record.capabilities acceptsPackages then none
    else
      let reported := record.packageStatuses.elim [] PackageStatuses.serverProvidedAllPackagesHash
      if reported = store.assignedHashFor sha256 quote record.assignedPackage record.effectiveDescription then none
      else store.offerForAssigned sha256 quote record.assignedPackage record.effectiveDescription

def telemetryFor (record : AgentRecord (wire H C)) : TelemetryOffer where
  ownMetrics := o.telemetryOffer.ownMetrics.filter fun _ =>
    includes record.capabilities reportsOwnMetrics
  ownTraces := o.telemetryOffer.ownTraces.filter fun _ =>
    includes record.capabilities reportsOwnTraces
  ownLogs := o.telemetryOffer.ownLogs.filter fun _ => includes record.capabilities reportsOwnLogs

def settingsOffer (o : Offering H C)
    (record : AgentRecord (wire H C)) (issued : Option TlsCertificate) : Option ConnectionSettingsOffers :=
  let telemetry := o.telemetryFor record
  match issued with
  | some certificate =>
    let settings := o.connectionOffer.getD ⟨"", 0, none⟩
    -- Not gated: the Agent asked for it in this very exchange.
    some (composeSettingsOffer sha256 encode (some { settings with certificate := some certificate }) telemetry)
  | none =>
    let settings := o.connectionOffer.filter fun _ =>
      includes record.capabilities acceptsOpAmpConnectionSettings
    if settings.isNone && telemetry.isEmpty then none
    else gate record (composeSettingsOffer sha256 encode settings telemetry)

/-- `AppState::capabilities`: the base set, and what there is to offer. -/
def capabilities : UInt64 :=
  serverCapabilities |||
    (if o.connectionOffer.isSome || !o.telemetryOffer.isEmpty || o.clientCa.isSome then 0x20 else 0) |||
    (if o.packages.any fun store => !store.sets.entries.isEmpty then 0x8 ||| 0x10 else 0) |||
    (if o.clientCa.isSome then 0x40 else 0)

def app (o : Offering H C) : AppSettings (wire H C) where
  shared := o.shared
  maxAgents := o.maxAgents
  capabilities := o.capabilities
  place := o.place
  unplace := o.unplace
  remoteConfigOffer record := offer record (o.configs.compose sha256 record.assignedConfigurations)
  settingsOffer := o.settingsOffer sha256 encode
  packagesOffer := o.packagesOffer sha256 quote
  clientCa := o.clientCa

def offerFor (fleet : Records (wire H C)) (uid : InstanceUid) : Option (Reply (wire H C)) :=
  (fleet.lookup uid).bind fun record =>
    let remoteConfig := offer record (o.configs.compose sha256 record.assignedConfigurations)
    let packagesAvailable := o.packagesOffer sha256 quote record
    if remoteConfig.isNone && packagesAvailable.isNone then none
    else
      some
        { Reply.bare (wire H C) o.capabilities with
          instanceUid := uid.bytes
          remoteConfig := remoteConfig
          packagesAvailable := packagesAvailable }

/-- The queued restart a WebSocket loop pushes. `was` is what the store held of it when it cleared it. -/
def restartCommandFor (was : Except String (Option Bool)) (fleet : Records (wire H C))
    (uid : InstanceUid) : Records (wire H C) × Option (Reply (wire H C)) :=
  match fleet.lookup uid with
  | none => (fleet, none)
  | some record =>
    if !record.restartPending || !record.connected then (fleet, none)
    else
      match was with
      | .error _ => (fleet, none)
      | .ok was =>
        (fleet.insert uid { record with restartPending := false },
          if was = some true then some (restartCommand uid o.capabilities) else none)

end Offering

end OpampFleet.Server
