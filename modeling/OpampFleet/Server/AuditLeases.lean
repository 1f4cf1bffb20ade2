import OpampFleet.Server.AuditChains

/-!
# The audit writer on a chain per lease

The model of `PgAuditStore` of the Server's `postgres/audit.rs`, the store of one chain per lease, and of the writer
over it while leases are lost and taken. How each call ends is told to the store beforehand, together with what happens
to the leases and the chains before it: a call may fail, run without an answer, or run only later, by the next call.
-/

namespace OpampFleet.Server.Audit

open Lib

/-- What happens to the leases, by this instance's renewals, by another instance or by time. -/
inductive LeaseAct where
  | take (id : LeaseId) (ms : Nat) (host : String) (files : Option (Nat × String)) (known : Bool)
  | lose
  | lapse (chain : String)
  | close (chain closedBy : String) (ms : Nat)
  | land

inductive Ending where
  | answered
  | failed
  | lost
  | late
  deriving DecidableEq

structure Call where
  before : List LeaseAct
  ending : Ending

structure Pending where
  chain : String
  first : Nat
  lines : List String
  closing : Bool

structure PgStore where
  db : AuditDb
  held : Option String
  chain : Option String
  pending : Option Pending
  /-- The calls to come; each is answered, once nothing more is told. -/
  calls : List Call

namespace PgStore

def fresh : PgStore := ⟨.empty, none, none, none, []⟩

variable (g : Setting) (s : PgStore)

def act : LeaseAct → PgStore
  | .take id ms host files known =>
    match s.db.openChain g ms id host files with
    | .ok db => { s with db := db, held := if known then some id.text else s.held }
    | .error _ => s
  | .lose => { s with held := none }
  | .lapse chain => { s with db := { s.db with leases := s.db.leases.filter (· ≠ chain) } }
  | .close chain closedBy ms => { s with db := s.db.closeLapsed g ms chain closedBy }
  | .land =>
    match s.pending with
    | none => s
    | some write =>
      match s.db.write g write.chain write.first write.lines write.closing with
      | .ok db => { s with db := db, pending := none }
      | .error _ => { s with pending := none }

def before (s : PgStore) : PgStore :=
  (s.calls.headD ⟨[], .answered⟩).before.foldl (act g) { s with calls := s.calls.tail }

/-- The next call of the database: a write that had no answer has landed by then or never will. -/
def call : PgStore × Ending := ({ s.before g with pending := none }, (s.calls.headD ⟨[], .answered⟩).ending)

def leaseChain : PgStore × Chain :=
  let s := s.before g
  ({ s with chain := s.held }, match s.held with
    | some id => .lease id
    | none => .unleased)

def tail : PgStore × Except String (Option Tail) :=
  match s.chain with
  | none => (s, .ok none)
  | some chain =>
    let (s, ending) := s.call g
    (s, if ending = .answered then
        .ok ((s.db.find chain).bind fun record => record.rows.getLast?.map fun row => ⟨row.line, row.seq, false, none⟩)
      else .error "the database did not answer")

def stored (chain : String) (seq : Nat) : PgStore × Except String (List String) :=
  let (s, ending) := s.call g
  (s, if ending = .answered then
      .ok ((((s.db.find chain).elim [] ChainRecord.rows).filter fun row => seq ≤ row.seq).map Row.line)
    else .error "the database did not answer")

def write (s : PgStore) (seq : Nat) (lines : List String) (closing : Bool) : PgStore × Except String Unit :=
  match s.chain with
  | none => (s, .error "no lease is held, so there is no chain to write into")
  | some chain =>
    let (s, ending) := s.call g
    match ending with
    | .failed => (s, .error "the database did not answer")
    | .late => ({ s with pending := some ⟨chain, seq, lines, closing⟩ }, .error "the database did not answer")
    | .lost =>
      match s.db.write g chain seq lines closing with
      | .ok db => ({ s with db := db }, .error "the database did not answer")
      | .error _ => (s, .error "the database did not answer")
    | .answered =>
      match s.db.write g chain seq lines closing with
      | .ok db => ({ s with db := db }, .ok ())
      | .error e => (s, .error e)

def port : AuditStore PgStore where
  chain := leaseChain g
  close s seq lines := s.write g seq lines true
  stored := stored g
  tail := tail g
  append s seq lines := s.write g seq lines false
  currentBytes _ := 0
  rotate s _ := (s, .ok [])

end PgStore

def Setting.leased (g : Setting) : Tools PgStore where
  port := PgStore.port g
  sha256 := g.sha256
  sha256_size := g.sha256_size
  rfc3339 := g.rfc3339
  peerKey := g.peerKey

structure Leased where
  writer : Writer PgStore
  taken : List Taken

inductive LeasedAct where
  | record (now : Nat) (decision : Decision) (under : Option String)
  | drain
  | handle (now : Nat) (calls : List Call)
  | commit (calls : List Call)
  | tick (now : Nat) (calls : List Call)
  | lease (act : LeaseAct)

namespace Leased

def armed (store : PgStore) (calls : List Call) : PgStore := { store with calls := calls }

variable (g : Setting)

def step (s : Leased) : LeasedAct → Option Leased
  | .record now decision under => some { s with writer := (s.writer.record g.leased now decision.entry under).1 }
  | .drain => (s.writer.trySend .drain).map fun w => { s with writer := w }
  | .handle now calls =>
    let w := { s.writer with store := armed s.writer.store calls }
    match w.queue with
    | [] => none
    | message :: queue =>
      let w := { w with queue := queue }
      some ⟨w.handleMessage g.leased now message, s.taken ++ w.takenMessage now message⟩
  | .commit calls => some { s with writer := { s.writer with store := armed s.writer.store calls }.commit g.leased }
  | .tick now calls =>
    let w := { s.writer with store := armed s.writer.store calls }
    some ⟨w.tick g.leased now, s.taken ++ w.takenTick g.leased now⟩
  | .lease act => some { s with writer := { s.writer with store := s.writer.store.act g act } }

end Leased

variable (g : Setting)

def closesChain (line : String) : Bool :=
  match g.reader.read line with
  | .ok value => value.str "event" = some "audit.chain_closed"
  | .error _ => false

def ChainRecord.written (r : ChainRecord) : List (String × String) :=
  (((r.rows.drop 1).map Row.line).filter fun line => !closesChain g line).map fun line => (r.id, line)

def AuditDb.written (g : Setting) (db : AuditDb) : List (String × String) := db.chains.flatMap (ChainRecord.written g)

def isOwn (line : String) : Bool :=
  match g.reader.read line with
  | .ok value => (value.str "event").any (· ∈ ownEvents)
  | .error _ => false

def AuditDb.recorded (db : AuditDb) : List (String × String) :=
  (db.written g).filter fun row => !isOwn g row.2

/-- A line of a chain records an entry the writer took: it is that entry, with the chain and what the writer adds. -/
def Records (row : String × String) (taken : Taken) : Prop :=
  ∃ seq unrecorded prev, row.2 = render g.rfc3339 seq taken.timeMs
    (Writer.entryOf (some row.1) ⟨0, "", taken.entry, taken.timeMs, unrecorded, taken.under, 0⟩) prev

end OpampFleet.Server.Audit
