import OpampFleet.Core.Package
import OpampFleet.Server.Agents

/-!
# The processing of a report

The model of `process_presented`, the control loop for one report, cut where the source's comments cut it: the host
that claims the Agent, the identity the Agent asks for, the duplicate on another connection, the admission of a new
record, the host's binding, the update of the record, and the answer. The fleet lock is held throughout, so one report
is one step; what the stores, the host register's ledger, the clock and the random source answer comes with it, and so
do the parts of the Server that only offer (`AppSettings`).
-/

namespace OpampFleet.Server

open Lib Opamp

abbrev Records (P : Payloads) := Map InstanceUid (AgentRecord P)

structure AppSettings (P : Payloads) where
  shared : Bool
  maxAgents : Nat
  capabilities : UInt64
  /-- Where every record stands once `uid` is placed, or has left the group of its old placement. -/
  place : Records P → InstanceUid → InstanceUid → P.Placement
  unplace : Records P → InstanceUid → P.Placement → InstanceUid → P.Placement
  remoteConfigOffer : AgentRecord P → Option P.RemoteConfig
  settingsOffer : AgentRecord P → Option P.Certificate → Option P.ConnectionSettings
  packagesOffer : AgentRecord P → Option P.PackagesAvailable
  /-- The client CA: its checks of a request, and the signature. -/
  clientCa : Option (String → Bytes → Option Presented → Except String P.Certificate)

structure ServerState (P : Payloads) where
  fleet : Records P
  revocations : Option Register

inductive Creation (P : Payloads) where
  | created
  | found (stored : PersistedAgent (StoredFields P))
  | full

structure Answers (P : Payloads) where
  stored : Option (PersistedAgent (StoredFields P))
  claimed : InstanceUid
  requested : InstanceUid
  duplicate : InstanceUid
  rekeyed : Except String Unit
  creation : Except String (Creation P)
  checked : LedgerIo
  rebound : LedgerIo
  recorded : Except String Unit
  restartWas : Except String (Option Bool)
  persisted : Except String Bool
  nowMs : Nat

variable {P : Payloads} (app : AppSettings P) (a : Answers P) (msg : Report P) (transport : Transport)
  (conn : Option ConnId) (fleet : Records P)

def placed (placements : InstanceUid → P.Placement) : Records P :=
  Map.mapValues fleet fun uid record => { record with placement := placements uid }

def holdFromStore (uid : InstanceUid) : Records P × Bool :=
  if !app.shared || (fleet.lookup uid).isSome then (fleet, false)
  else
    match a.stored with
    | some stored => (fleet.insert uid (.fromPersisted stored), true)
    | none => (fleet, false)

structure Identity (P : Payloads) where
  fleet : Records P
  uid : InstanceUid
  sender : Bytes
  identification : Option InstanceUid
  binding : Option (String × InstanceUid)
  rekeyed : Option (InstanceUid × InstanceUid)

/-- An `instance_uid` of another host: the reporter gets an identity of its own, never the one it claimed. -/
def claimHost (revocations : Option Register) (presented : Option Presented) (id : Identity P) :
    Except String (Identity P) :=
  match presented.bind Presented.host, revocations with
  | some host, some register =>
    match register.mayReport host (Core.hexText id.uid.bytes) with
    | .ok () => .ok { id with binding := some (host, id.uid) }
    | .error _ =>
      (register.mayReport host (Core.hexText a.claimed.bytes)).map fun () =>
        { id with
          uid := a.claimed
          sender := a.claimed.bytes
          identification := some a.claimed
          binding := some (host, a.claimed) }
  | _, _ => .ok id

def Report.requestsInstanceUid : Bool := msg.flags &&& 1 ≠ 0

def moveRecord (old new : InstanceUid) (record : AgentRecord P) : Records P :=
  let fleet := (fleet.erase old).insert new record
  placed fleet (app.unplace fleet old record.placement)

/-- The Agent asked the Server to assign its identity. A move that fails leaves the Agent under the one it has. -/
def requestInstanceUid (id : Identity P) : Identity P :=
  if id.identification.isSome || !msg.requestsInstanceUid then id
  else
    let assigned :=
      { id with uid := a.requested, identification := some a.requested, rekeyed := some (id.uid, a.requested) }
    match id.fleet.lookup id.uid, a.rekeyed with
    | none, _ => assigned
    | some record, .ok () => { assigned with fleet := moveRecord app id.fleet id.uid a.requested record }
    | some _, .error _ => id

def isDuplicate (record : Option (AgentRecord P)) : Bool :=
  conn.any fun this => record.any fun existing => existing.connected && existing.owner.any (· ≠ this)

/-- The newcomer starts a record of its own. -/
def detectDuplicate (id : Identity P) : Identity P :=
  if isDuplicate conn (id.fleet.lookup id.uid) then
    { id with uid := a.duplicate, identification := some a.duplicate }
  else id

structure Admission (P : Payloads) where
  fleet : Records P
  known : Bool
  loaded : Bool
  created : Bool

def createWithin (id : Identity P) (loaded : Bool) : Except String (Admission P) :=
  let known := (id.fleet.lookup id.uid).isSome
  if known || !app.shared then .ok ⟨id.fleet, known, loaded, false⟩
  else
    match a.creation with
    | .error e => .error e
    | .ok .created => .ok ⟨id.fleet.insert id.uid (.new msg.sequenceNum transport conn a.nowMs), false, loaded, true⟩
    | .ok (.found stored) => .ok ⟨id.fleet.insert id.uid (.fromPersisted stored), true, true, false⟩
    | .ok .full => .ok ⟨id.fleet, false, loaded, false⟩

/-- A new Agent past the ceiling, counted by a shared store as it creates the record. -/
def Admission.atCeiling (admission : Admission P) : Bool :=
  !admission.known && if app.shared then !admission.created else app.maxAgents ≤ admission.fleet.entries.length

def bindHost (revocations : Option Register) (presented : Option Presented) (id : Identity P) :
    Option Register × Except String Unit :=
  match revocations with
  | none => (none, .ok ())
  | some register =>
    let (register, checked) : Register × Except String Unit :=
      match id.binding with
      | none => (register, .ok ())
      | some (host, bound) => register.checkReport a.checked host (presented.elim ∅ Presented.subjectValues)
          (presented.elim 0 Presented.notAfterMs) (Core.hexText bound.bytes)
    match checked, id.rekeyed with
    | .error e, _ => (some register, .error e)
    | .ok (), none => (some register, .ok ())
    | .ok (), some (old, new) =>
      (some (register.rebind a.rebound (Core.hexText old.bytes) (Core.hexText new.bytes)).1, .ok ())

/-- A compressed report is only usable when the state it leaves out is current. -/
def demandsFullState (known : Bool) (record : AgentRecord P) : Bool :=
  msg.agentDescription.isNone && (!known || msg.sequenceNum ≠ record.sequenceNum + 1)

/-- A routine hash-only update does not degrade a full map of the same hash. -/
def updateComponents (stored incoming : Option (AvailableComponents P)) : Option (AvailableComponents P) :=
  match stored, incoming with
  | stored, none => stored
  | some stored, some incoming =>
    if incoming.components.entries.isEmpty && !stored.components.entries.isEmpty && stored.hash = incoming.hash then
      some stored
    else some incoming
  | none, some incoming => some incoming

def updateRecord (arrivedOver : Option String) (known : Bool) (record : AgentRecord P) : AgentRecord P :=
  let restarted := known && msg.sequenceNum < record.sequenceNum
  { record with
    host := arrivedOver
    sequenceNum := msg.sequenceNum
    transport := transport
    componentsDemanded :=
      if !record.connected || record.owner ≠ conn || restarted then none else record.componentsDemanded
    connected := true
    owner := conn
    heard := true
    lastSeenMs := a.nowMs
    capabilities := if msg.capabilities ≠ 0 then msg.capabilities else record.capabilities
    description := msg.agentDescription.or record.description
    health := msg.health.or record.health
    effectiveConfig := msg.effectiveConfig.or record.effectiveConfig
    remoteConfigStatus := msg.remoteConfigStatus.or record.remoteConfigStatus
    connectionSettingsStatus := msg.connectionSettingsStatus.or record.connectionSettingsStatus
    packageStatuses := msg.packageStatuses.or record.packageStatuses
    availableComponents := updateComponents record.availableComponents msg.availableComponents }

/-- A certificate signing request: `.ok (.error _)` is one the Server refuses, `.error _` a record it cannot write. -/
def issue (sender : Bytes) (presented : Option Presented) (csr : Bytes) : Except String (Except String P.Certificate) :=
  match app.clientCa with
  | none => .ok (.error "this Server issues no client certificates")
  | some sign =>
    match String.fromUTF8? csr.toByteArray with
    | none => .ok (.error "the certificate signing request is not PEM")
    | some text =>
      match sign text sender presented with
      | .error e => .ok (.error e)
      | .ok signed => a.recorded.map fun () => .ok signed

/-- Whether the record is still stored; a write that fails is logged, and a single writer's record is never gone. -/
def persistIfDirty : Bool :=
  match a.persisted with
  | .error _ => true
  | .ok stored => stored || !app.shared

/-- A report's record written, and the report answered: an Agent forgotten through another instance meanwhile is
dropped here too, and the reply offers nothing. -/
def persistAnd (reported uid : InstanceUid) (s : ServerState P)
    (record : AgentRecord P) (reply : Reply P) (disconnected : Bool) : ServerState P × Processed P :=
  if persistIfDirty app a then ({ s with fleet := s.fleet.insert uid record }, ⟨reply, some uid, disconnected⟩)
  else
    let fleet := s.fleet.erase uid
    ({ s with fleet := placed fleet (app.unplace fleet uid record.placement) },
      ⟨{ Reply.bare P app.capabilities with instanceUid := reported.bytes }, none, false⟩)

/-- A hash without the map is an offer to fetch: the full map is demanded once per hash on a connection. -/
def demandComponents (record : AgentRecord P) (flags : UInt64) : AgentRecord P × UInt64 :=
  match record.availableComponents with
  | some stored =>
    if record.capabilities &&& 0x4000 ≠ 0 && stored.components.entries.isEmpty &&
        record.componentsDemanded ≠ some stored.hash then
      ({ record with componentsDemanded := some stored.hash }, flags ||| 2)
    else (record, flags)
  | none => (record, flags)

/-- A queued restart goes out by itself, or waits for the next exchange: the record once the store cleared it, and
whether it was still queued there. -/
def takeRestart (identification : Option InstanceUid) (record : AgentRecord P) (flags : UInt64) :
    AgentRecord P × Bool :=
  if record.restartPending && identification.isNone && flags = 0 && record.capabilities &&& 0x400 ≠ 0 then
    match a.restartWas with
    | .ok was => ({ record with restartPending := false }, was == some true)
    | .error _ => (record, false)
  else (record, false)

def answer (reported : InstanceUid) (id : Identity P)
    (s : ServerState P) (record : AgentRecord P) (flags : UInt64) (issued : Option P.Certificate) :
    ServerState P × Processed P :=
  let named : Reply P :=
    { Reply.bare P app.capabilities with
      instanceUid := reported.bytes
      flags := flags
      agentIdentification := id.identification }
  if msg.agentDisconnect then
    persistAnd app a reported id.uid s { record with connected := false, owner := none } named true
  else
    let (record, flags) := demandComponents record flags
    let (record, delivered) := takeRestart a id.identification record flags
    if delivered then persistAnd app a reported id.uid s record (restartCommand id.uid app.capabilities) false
    else
      let offers : Reply P :=
        { named with
          flags := flags
          remoteConfig := app.remoteConfigOffer record
          connectionSettings := app.settingsOffer record issued
          packagesAvailable := app.packagesOffer record }
      persistAnd app a reported id.uid s record offers false

structure Taken (P : Payloads) where
  fleet : Records P
  record : AgentRecord P
  flags : UInt64

def recordReport (arrivedOver : Option String) (id : Identity P) (admission : Admission P) : Taken P :=
  let before := (admission.fleet.lookup id.uid).getD (.new msg.sequenceNum transport conn a.nowMs)
  let updated := updateRecord a msg transport conn arrivedOver admission.known before
  let fleet := admission.fleet.insert id.uid updated
  let flags : UInt64 := if demandsFullState msg admission.known before then 1 else 0
  if !admission.known || decide (before.host ≠ arrivedOver) || msg.agentDescription.isSome || id.rekeyed.isSome ||
      admission.loaded then
    ⟨placed fleet (app.place fleet id.uid), { updated with placement := app.place fleet id.uid id.uid }, flags⟩
  else ⟨fleet, updated, flags⟩

def takeReport (presented : Option Presented) (reported : InstanceUid) (id : Identity P) (admission : Admission P)
    (revocations : Option Register) : ServerState P × Processed P :=
  -- The Host it arrived over: none without a host register.
  let arrivedOver := if revocations.isSome then presented.bind Presented.host else none
  let taken := recordReport app a msg transport conn arrivedOver id admission
  let s : ServerState P := ⟨taken.fleet, revocations⟩
  match msg.certificateRequest.map (issue app a id.sender presented) with
  | none => answer app a msg reported id s taken.record taken.flags none
  | some (.error e) => persistAnd app a reported id.uid s taken.record (unavailable msg.instanceUid e) false
  | some (.ok (.error e)) => persistAnd app a reported id.uid s taken.record (badRequest e) false
  | some (.ok (.ok certificate)) => answer app a msg reported id s taken.record taken.flags (some certificate)

def admitReport (presented : Option Presented) (reported : InstanceUid) (id : Identity P) (loaded : Bool)
    (revocations : Option Register) : ServerState P × Processed P :=
  match createWithin app a msg transport conn id loaded with
  | .error _ =>
    (⟨id.fleet, revocations⟩,
      ⟨unavailable msg.instanceUid "the Server cannot store this Agent's record now; retry later", none, false⟩)
  | .ok admission =>
    if admission.atCeiling app then
      (⟨admission.fleet, revocations⟩,
        ⟨unavailable msg.instanceUid "the Server is at its Agent-record ceiling; retry later", none, false⟩)
    else
      match bindHost a revocations presented id with
      | (revocations, .error e) =>
        -- A record this report created goes with it.
        let fleet := if admission.created then admission.fleet.erase id.uid else admission.fleet
        (⟨fleet, revocations⟩, ⟨badRequest e, none, false⟩)
      | (revocations, .ok ()) => takeReport app a msg transport conn presented reported id admission revocations

def Identity.reported (uid : InstanceUid) : Identity P := ⟨fleet, uid, uid.bytes, none, none, none⟩

def processPresented (s : ServerState P) (msg : Report P)
    (transport : Transport) (conn : Option ConnId) (presented : Option Presented) : ServerState P × Processed P :=
  match InstanceUid.fromWire msg.instanceUid with
  | none => (s, ⟨badRequest "instance_uid must be 16 bytes (UUID v7 recommended)", none, false⟩)
  | some reported =>
    let (fleet, loaded) := holdFromStore app a s.fleet reported
    match claimHost a s.revocations presented (.reported fleet reported) with
    | .error e => ({ s with fleet := fleet }, ⟨badRequest e, none, false⟩)
    | .ok id =>
      let id := detectDuplicate a conn (requestInstanceUid app a msg id)
      admitReport app a msg transport conn presented reported id loaded s.revocations

structure Exchange (P : Payloads) where
  answers : Answers P
  msg : Report P
  transport : Transport
  conn : Option ConnId
  presented : Option Presented

def exchange (s : ServerState P) (x : Exchange P) : Option (ServerState P) :=
  some (processPresented app x.answers s x.msg x.transport x.conn x.presented).1

namespace Small

def ledgerIo : LedgerIo := ⟨false, .ok .bound, .ok none, .ok ()⟩

/-- Every call succeeds. -/
def answers : Answers P where
  stored := none
  claimed := .ofByte 0xa
  requested := .ofByte 0xb
  duplicate := .ofByte 0xc
  rekeyed := .ok ()
  creation := .ok .created
  checked := ledgerIo
  rebound := ledgerIo
  recorded := .ok ()
  restartWas := .ok none
  persisted := .ok true
  nowMs := 0

def reportOf (description : P.Description) : Report P where
  instanceUid := (InstanceUid.ofByte 1).bytes
  sequenceNum := 0
  flags := 0
  capabilities := 1
  agentDescription := some description
  health := none
  effectiveConfig := none
  remoteConfigStatus := none
  connectionSettingsStatus := none
  packageStatuses := none
  availableComponents := none
  certificateRequest := none
  agentDisconnect := false

end Small

end OpampFleet.Server
