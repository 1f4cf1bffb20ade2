import OpampFleet.Lib.Transition
import OpampFleet.Server.DurableDigest
import OpampFleet.Server.Process

/-!
# An instance on a shared store

The model of the acts of `fleet.rs` that write an Agent's record, on the PostgreSQL store of `postgres/agents.rs`: the
rows, what one instance holds of them, and its ledger of digests (`written`), by which a report that changes nothing
durable reaches no store.

Each act writes under the fleet lock, and is one step; the store's answers come with it. So does the row that a report
of an Agent not held read before it took the lock, which another instance may have written since. A call that fails may
have been carried out all the same, since a call is given up after a time. The acts of the other instances, which share
the rows alone, are `elsewhere`. Who a report turns out to be of and whether it is admitted is the processing of a
report's matter, and comes with the act; so does whether a queued restart goes out with its reply.
-/

namespace OpampFleet.Server

open Lib Opamp

variable {P : Payloads} {δ : Type}

/-- How a call to the store ends: with success, or with a failure that the store may have `applied` it before. -/
inductive StoreCall where
  | ok
  | failed (applied : Bool)
  deriving DecidableEq

def StoreCall.applied : StoreCall → Bool
  | ok => true
  | failed applied => applied

abbrev Rows (P : Payloads) := Map InstanceUid (PersistedRecord P)

namespace Rows

def update (rows : Rows P) (uid : InstanceUid) (change : PersistedRecord P → PersistedRecord P) : Rows P :=
  match rows.lookup uid with
  | some row => rows.insert uid (change row)
  | none => rows

def rekey (rows : Rows P) (old new : InstanceUid) : Rows P :=
  match rows.lookup old with
  | some row => (rows.erase old).insert new row
  | none => rows

def called (rows : Rows P) (call : StoreCall) (after : Rows P) : Rows P := if call.applied then after else rows

end Rows

def writeReported (record row : PersistedRecord P) : PersistedRecord P :=
  { row with
    rest :=
      { record.rest with
        lastSeenMs := max row.rest.lastSeenMs record.rest.lastSeenMs
        restartPending := row.rest.restartPending
        labels := row.rest.labels } }

def writeAssignment (assignment : Option Assignment) (row : PersistedRecord P) : PersistedRecord P :=
  { row with assignment := assignment }

def writeLabels (labels : Map String String) (row : PersistedRecord P) : PersistedRecord P :=
  { row with rest := { row.rest with labels := labels } }

def writeRestart (pending : Bool) (row : PersistedRecord P) : PersistedRecord P :=
  { row with rest := { row.rest with restartPending := pending } }

/-- The shared rows, and what one instance holds: the records, and the digest of each as last written. -/
structure SharedFleet (P : Payloads) (δ : Type) where
  stored : Rows P
  fleet : Records P
  written : Map InstanceUid δ

/-- Who a report is of: the Agent it names, a newcomer that claimed or duplicated it, or one that asked for a new
identity and may then be the duplicate of an Agent that is connected. -/
inductive Reporter where
  | reported
  | minted (uid : InstanceUid)
  | requested (uid : InstanceUid) (duplicate : Option InstanceUid)

def Reporter.uids : Reporter → List InstanceUid
  | reported => []
  | minted uid => [uid]
  | requested uid duplicate => uid :: duplicate.toList

/-- The store's answers to one report, the row `read` before the lock among them, and what the rest of its processing
decides. -/
structure ReportIo (P : Payloads) where
  read : Option (PersistedRecord P)
  rekeyed : StoreCall
  created : StoreCall
  room : Bool
  admitted : Bool
  removed : StoreCall
  deliversRestart : Bool
  cleared : StoreCall
  persisted : StoreCall

namespace SharedFleet

variable (digest : PersistedRecord P → δ) (s : SharedFleet P δ) (call : StoreCall) (uid : InstanceUid)

def hold (record : AgentRecord P) : SharedFleet P δ :=
  { s with fleet := s.fleet.insert uid record }

def unnote : SharedFleet P δ := { s with written := s.written.erase uid }

def dropForgotten : SharedFleet P δ :=
  { s with fleet := s.fleet.erase uid, written := s.written.erase uid }

def load (row : PersistedRecord P) : SharedFleet P δ :=
  { s with fleet := s.fleet.insert uid (.fromPersisted row), written := s.written.insert uid (digest row) }

def holdFromStore (read : Option (PersistedRecord P)) (uid : InstanceUid) : SharedFleet P δ :=
  match s.fleet.lookup uid, read with
  | none, some row => s.load digest uid row
  | _, _ => s

def persist [DecidableEq δ] (digest : PersistedRecord P → δ) (s : SharedFleet P δ) (call : StoreCall)
    (uid : InstanceUid) (record : AgentRecord P) : SharedFleet P δ × Bool :=
  if s.written.lookup uid = some (digest record.toPersisted) then (s, true)
  else
    let rows := s.stored.called call (s.stored.update uid (writeReported record.toPersisted))
    match call with
    | .failed _ => ({ s with stored := rows }, true)
    | .ok =>
      if (s.stored.lookup uid).isSome then
        ({ s with stored := rows, written := s.written.insert uid (digest record.toPersisted) }, true)
      else (s, false)

def rekey (old new : InstanceUid) : SharedFleet P δ × InstanceUid :=
  match s.fleet.lookup old with
  | none => (s, new)
  | some record =>
    let rows := s.stored.called call (s.stored.rekey old new)
    match call with
    | .ok => (⟨rows, (s.fleet.erase old).insert new record, s.written.erase old⟩, new)
    | .failed _ => ({ s with stored := rows }, old)

def settle (io : ReportIo P) (uid : InstanceUid) : Reporter → SharedFleet P δ × InstanceUid
  | .reported => (s, uid)
  | .minted new => (s, new)
  | .requested new duplicate => (s.rekey io.rekeyed uid new).map id duplicate.getD

/-- `create_within`: `none` where the report is refused, else whether it created the record. -/
def createWithin (io : ReportIo P) (uid : InstanceUid) (record : AgentRecord P) : SharedFleet P δ × Option Bool :=
  if (s.fleet.lookup uid).isSome then (s, some false)
  else
    match io.created, s.stored.lookup uid with
    | .ok, some row => (s.load digest uid row, some false)
    | .ok, none =>
      if io.room then (⟨s.stored.insert uid record.toPersisted, s.fleet.insert uid record, s.written⟩, some true)
      else (s, none)
    | .failed _, some _ => (s, none)
    | .failed applied, none =>
      ({ s with stored := if applied && io.room then s.stored.insert uid record.toPersisted else s.stored }, none)

def uncreate : SharedFleet P δ :=
  { s.dropForgotten uid with stored := s.stored.called call (s.stored.erase uid) }

def takeRestart (record : AgentRecord P) : SharedFleet P δ × AgentRecord P :=
  let rows := s.stored.called call (s.stored.update uid (writeRestart false))
  match call with
  | .ok =>
    let record := { record with restartPending := false }
    ({ (s.hold uid record).unnote uid with stored := rows }, record)
  | .failed _ => ({ s with stored := rows }, record)

def record [DecidableEq δ] (digest : PersistedRecord P → δ) (s : SharedFleet P δ) (io : ReportIo P) (uid : InstanceUid)
    (updated : AgentRecord P) : SharedFleet P δ :=
  let s := s.hold uid updated
  let (s, updated) :=
    if io.deliversRestart && updated.restartPending then s.takeRestart io.cleared uid updated else (s, updated)
  match s.persist digest io.persisted uid updated with
  | (s, true) => s
  | (s, false) => s.dropForgotten uid

/-- `process_presented`. Of `a` the clock is read. -/
def report [DecidableEq δ] (digest : PersistedRecord P → δ) (s : SharedFleet P δ) (a : Answers P) (io : ReportIo P)
    (uid : InstanceUid) (reporter : Reporter) (msg : Report P) (transport : Transport) (conn : Option ConnId)
    (arrivedOver : Option String) : SharedFleet P δ :=
  let s := s.holdFromStore digest io.read uid
  let (s, uid) := s.settle io uid reporter
  let new : AgentRecord P := .new msg.sequenceNum transport conn a.nowMs
  match s.createWithin digest io uid new with
  | (s, none) => s
  | (s, some created) =>
    if !io.admitted then
      if created then s.uncreate io.removed uid else s
    else
      s.record digest io uid
        (updateRecord a msg transport conn arrivedOver (!created) ((s.fleet.lookup uid).getD new))

/-- `request_restart`, of an Agent that accepts the command. -/
def requestRestart : SharedFleet P δ :=
  match s.stored.lookup uid with
  | none => s
  | some row =>
    if row.rest.capabilities &&& 0x400 = 0 then s
    else
      let rows := s.stored.called call (s.stored.update uid (writeRestart true))
      match call, s.fleet.lookup uid with
      | .ok, some held => { (s.hold uid { held with restartPending := true }).unnote uid with stored := rows }
      | _, _ => { s with stored := rows }

def pushRestart : SharedFleet P δ :=
  match s.fleet.lookup uid with
  | some held => if held.restartPending && held.connected then (s.takeRestart call uid held).1 else s
  | none => s

def takeLabels (labels : Map String String) : SharedFleet P δ :=
  match s.fleet.lookup uid with
  | some held => (s.hold uid { held with labels := labels }).unnote uid
  | none => s

def setLabels (labels : Map String String) : SharedFleet P δ :=
  let rows := s.stored.called call (s.stored.update uid (writeLabels labels))
  match call with
  | .ok => if (s.stored.lookup uid).isSome then { s.takeLabels uid labels with stored := rows } else s
  | .failed _ => { s with stored := rows }

/-- One Agent of a release: what is held takes the assignment, and the ledger its digest; one no longer stored is
dropped. -/
def released (release : InstanceUid × Option Assignment) : SharedFleet P δ :=
  if (s.stored.lookup release.1).isSome then
    match s.fleet.lookup release.1 with
    | some held =>
      let held := { held with assignment := release.2 }
      { s.hold release.1 held with
        stored := s.stored.update release.1 (writeAssignment release.2)
        written := s.written.insert release.1 (digest held.toPersisted) }
    | none => { s with stored := s.stored.update release.1 (writeAssignment release.2) }
  else s.dropForgotten release.1

/-- `write_releases`, with the assignments at the pinned hashes. -/
def writeReleases (releases : List (InstanceUid × Option Assignment)) : SharedFleet P δ :=
  match call with
  | .ok => releases.foldl (released digest) s
  | .failed _ =>
    { s with
      stored := s.stored.called call
        (releases.foldl (fun rows release => rows.update release.1 (writeAssignment release.2)) s.stored) }

def takeRow (held : AgentRecord P) (row : PersistedRecord P) : SharedFleet P δ :=
  let changed := held.assignment ≠ row.assignment ∨ held.restartPending ≠ row.rest.restartPending
  let held := { held with assignment := row.assignment, restartPending := row.rest.restartPending }
  let s := if changed then (s.hold uid held).unnote uid else s
  if held.labels ≠ row.rest.labels then s.takeLabels uid row.rest.labels else s

/-- `take_up_agents`, one Agent: what another instance wrote of it, or that it was forgotten there. -/
def takeUp : SharedFleet P δ :=
  match s.fleet.lookup uid, s.stored.lookup uid with
  | some held, some row => s.takeRow uid held row
  | some _, none => s.dropForgotten uid
  | none, _ => s

def forgetAgent : SharedFleet P δ :=
  match call with
  | .ok => { s.dropForgotten uid with stored := s.stored.erase uid }
  | .failed applied => { s with stored := if applied then s.stored.erase uid else s.stored }

/-- `flush_agents`, one Agent: written unless another instance holds it. -/
def flush (answer : InstanceUid × StoreCall × Bool) : SharedFleet P δ :=
  match s.fleet.lookup answer.1 with
  | none => s
  | some held =>
    -- Held elsewhere, or not heard here: not written.
    if answer.2.2 || !held.heard then s
    else
      let rows := s.stored.called answer.2.1 (s.stored.update answer.1 (writeReported held.toPersisted))
      match answer.2.1 with
      | .ok =>
        if (s.stored.lookup answer.1).isSome then
          { s with stored := rows, written := s.written.insert answer.1 (digest held.toPersisted) }
        else s
      | .failed _ => { s with stored := rows }

inductive Act (P : Payloads) where
  | report (a : Answers P) (io : ReportIo P) (uid : InstanceUid) (reporter : Reporter) (msg : Report P)
      (transport : Transport) (conn : Option ConnId) (arrivedOver : Option String)
  | rollout (call : StoreCall) (releases : List (InstanceUid × Option Assignment))
  | setLabels (call : StoreCall) (uid : InstanceUid) (labels : Map String String)
  | requestRestart (call : StoreCall) (uid : InstanceUid)
  | pushRestart (call : StoreCall) (uid : InstanceUid)
  | takeUp (uids : List InstanceUid)
  | forgetAgent (call : StoreCall) (uid : InstanceUid)
  /-- The Agents flushed, how each write ends, and whether another instance holds the Agent. -/
  | flush (answers : List (InstanceUid × StoreCall × Bool))
  | elsewhere (uid : InstanceUid) (row : Option (PersistedRecord P))
  | restart

def fresh (reporter : Reporter) : Bool :=
  reporter.uids.all fun new => new ≠ uid && (s.fleet.lookup new).isNone && (s.stored.lookup new).isNone

def step [DecidableEq δ] (digest : PersistedRecord P → δ) (s : SharedFleet P δ) : Act P → Option (SharedFleet P δ)
  | .report a io uid reporter msg transport conn arrivedOver =>
    if s.fresh uid reporter then some (s.report digest a io uid reporter msg transport conn arrivedOver) else none
  | .rollout call releases => some (s.writeReleases digest call releases)
  | .setLabels call uid labels => some (s.setLabels call uid labels)
  | .requestRestart call uid => some (s.requestRestart call uid)
  | .pushRestart call uid => some (s.pushRestart call uid)
  | .takeUp uids => some (uids.foldl takeUp s)
  | .forgetAgent call uid => some (s.forgetAgent call uid)
  | .flush answers => some (answers.foldl (flush digest) s)
  | .elsewhere uid row => some { s with stored := Map.set s.stored uid row }
  | .restart => some { s with fleet := ∅, written := ∅ }

def start : SharedFleet P δ := ⟨∅, ∅, ∅⟩

end SharedFleet

end OpampFleet.Server
