import OpampFleet.Core.Package
import OpampFleet.Server.RevokedSet

/-!
# Enrolment

The model of `enrolment.rs` and of the part of `fleet.rs` that signs and records an approved request. The window's end
and the queue are held in memory and persisted by a store that is its only writer; every act decides under one lock.
What the store answers to a read or a write, the CA to a request, and the audit record to an entry comes with the act.
-/

namespace OpampFleet.Server.Enrolment

open Lib
open Server.Revocations (CertId Facts)

def maxWindowSecs : Nat := 86400

def maxPending : Nat := 1024

structure Request where
  csrPem : String
  keyFingerprint : String
  instanceUid : Bytes

structure Requester where
  carried : Except String (Map String String)
  bootstrap : CertId

structure Pending where
  id : String
  arrivedMs : Nat
  keyFingerprint : String
  requester : Requester

inductive Decision where
  | approved (pem : String)
  | rejected

structure Entry where
  pending : Pending
  csrPem : String
  instanceUid : Bytes
  decision : Option Decision

structure PersistedRequest where
  id : String
  arrivedMs : Nat
  keyFingerprint : String
  requester : Requester
  csrPem : String
  instanceUid : String
  decision : Option Decision

structure Persisted where
  windowUntilMs : Option Nat
  requests : List PersistedRequest

def Entry.persisted (entry : Entry) : PersistedRequest where
  id := entry.pending.id
  arrivedMs := entry.pending.arrivedMs
  keyFingerprint := entry.pending.keyFingerprint
  requester := entry.pending.requester
  csrPem := entry.csrPem
  instanceUid := Core.hexText entry.instanceUid
  decision := entry.decision

def Entry.restored (request : PersistedRequest) : Option Entry :=
  (Core.hexBytes request.instanceUid.toList).map fun instanceUid =>
    { pending :=
        { id := request.id
          arrivedMs := request.arrivedMs
          keyFingerprint := request.keyFingerprint
          requester := request.requester }
      csrPem := request.csrPem
      instanceUid := instanceUid
      decision := request.decision }

inductive Submitted where
  | waiting
  | issued (pem : String)
  | rejected
  | full
  | overShare (first : Bool)
  | closed

inductive DecisionError where
  | notFound
  | revoked
  | subject (text : String)
  | sign (text : String)
  | store (text : String)
  | deciding

inductive WindowError where
  | invalid (text : String)
  | store (text : String)

/-- How a write of the file ends: one that fails has replaced the file when only the directory did not sync. -/
inductive SaveIo where
  | saved
  | unsynced (error : String)
  | failed (error : String)
  deriving DecidableEq

structure StoreIo where
  load : Except String Unit
  save : SaveIo

inductive Took where
  | added
  | held (request : PersistedRequest)
  | full
  | overShare
  | closed

inductive Approval where
  | approved (decision : Decision)
  | notWaiting
  | revoked
  | refused (error : DecisionError)
  | deciding

inductive Decided where
  | written
  | notWaiting
  | deciding

namespace EnrolmentStore

abbrev Stored := Option Persisted

def unwrapped (store : Stored) : Persisted := store.getD ⟨none, []⟩

def save (io : StoreIo) (store : Stored) (persisted : Persisted) : Stored × Except String Unit :=
  match io.save with
  | .saved => (some persisted, .ok ())
  | .unsynced e => (some persisted, .error e)
  | .failed e => (store, .error e)

variable (io : StoreIo)

def take (store : Stored) (request : PersistedRequest) (now max maxPerBootstrap : Nat) : Stored × Except String Took :=
  match io.load with
  | .error e => (store, .error e)
  | .ok () =>
    let persisted := unwrapped store
    if persisted.windowUntilMs.all fun ms => ms ≤ now then (store, .ok .closed)
    else
      match persisted.requests.find? fun r => r.id = request.id with
      | some held => (store, .ok (.held held))
      | none =>
        let share := persisted.requests.countP fun r => r.requester.bootstrap = request.requester.bootstrap
        if max ≤ persisted.requests.length then (store, .ok .full)
        else if maxPerBootstrap ≤ share then (store, .ok .overShare)
        else
          match save io store { persisted with requests := persisted.requests ++ [request] } with
          | (store, .error e) => (store, .error e)
          | (store, .ok ()) => (store, .ok .added)

def waits (id : String) (request : PersistedRequest) : Bool := request.id = id && request.decision.isNone

def decideFirst (id : String) (decision : Decision) (requests : List PersistedRequest) : List PersistedRequest :=
  requests.replaceF fun r => if waits id r then some { r with decision := some decision } else none

def decide (store : Stored) (id : String) (decision : Decision) : Stored × Except String Decided :=
  match io.load with
  | .error e => (store, .error e)
  | .ok () =>
    let persisted := unwrapped store
    if persisted.requests.any (waits id) then
      match save io store { persisted with requests := decideFirst id decision persisted.requests } with
      | (store, .error e) => (store, .error e)
      | (store, .ok ()) => (store, .ok .written)
    else (store, .ok .notWaiting)

/-- `sign` signs and records while the request is held, and what it changes is handed on. -/
def approve {σ : Type} (io : StoreIo) (store : Stored) (id : String)
    (sign : σ → σ × Except DecisionError Decision) (s : σ) : Stored × σ × Except String Approval :=
  match io.load with
  | .error e => (store, s, .error e)
  | .ok () =>
    let persisted := unwrapped store
    if persisted.requests.any (waits id) then
      match sign s with
      | (s, .error e) => (store, s, .ok (.refused e))
      | (s, .ok decision) =>
        match save io store { persisted with requests := decideFirst id decision persisted.requests } with
        | (store, .error e) => (store, s, .error e)
        | (store, .ok ()) => (store, s, .ok (.approved decision))
    else (store, s, .ok .notWaiting)

def withdrawBootstrap (store : Stored) (issuers : List String) (serial : String) : Stored × Except String Nat :=
  match io.load, store with
  | .error e, _ => (store, .error e)
  | .ok (), none => (store, .ok 0)
  | .ok (), some persisted =>
    let requests := persisted.requests.filter fun r =>
      r.decision.isSome || r.requester.bootstrap.serial ≠ serial || r.requester.bootstrap.issuer ∉ issuers
    let withdrawn := persisted.requests.length - requests.length
    if 0 < withdrawn then
      match save io store { persisted with requests := requests } with
      | (store, .error e) => (store, .error e)
      | (store, .ok ()) => (store, .ok withdrawn)
    else (store, .ok withdrawn)

def withdraw (store : Stored) (ids : List String) : Stored × Except String Unit :=
  match io.load, store with
  | .error e, _ => (store, .error e)
  | .ok (), none => (store, .ok ())
  | .ok (), some persisted =>
    save io store { persisted with requests := persisted.requests.filter fun r => r.decision.isSome || r.id ∉ ids }

def openWindow (store : Stored) (untilMs : Nat) : Stored × Except String Unit :=
  match io.load with
  | .error e => (store, .error e)
  | .ok () => save io store { unwrapped store with windowUntilMs := some untilMs }

def closeWindow (store : Stored) : Stored × Except String Unit := save io store ⟨none, []⟩

/-- A window stored with another end was moved by another act and stays open. -/
def endWindow (store : Stored) (untilMs : Nat) : Stored × Except String Bool :=
  match io.load with
  | .error e => (store, .error e)
  | .ok () =>
    if (unwrapped store).windowUntilMs = some untilMs then
      match save io store ⟨none, []⟩ with
      | (store, .error e) => (store, .error e)
      | (store, .ok ()) => (store, .ok true)
    else (store, .ok false)

end EnrolmentStore

structure State where
  windowUntilMs : Option Nat
  /-- By the id, which is the key fingerprint. -/
  entries : Map String Entry
  overShare : Finset CertId
  store : EnrolmentStore.Stored

open EnrolmentStore

def State.persisted (s : State) : Persisted := unwrapped s.store

def answer : Option Decision → Submitted
  | none => .waiting
  | some (.approved pem) => .issued pem
  | some .rejected => .rejected

structure Signed where
  pem : String
  facts : Facts

namespace State

def restored (requests : List PersistedRequest) : Option (Map String Entry) :=
  (requests.mapM Entry.restored).map fun entries => entries.foldl
    (fun queue entry => queue.insert entry.pending.id entry) ∅

def openOn (store : EnrolmentStore.Stored) (now : Nat) (io : StoreIo) : Option State :=
  match io.load, store with
  | .error _, _ => none
  | .ok (), none => some ⟨none, ∅, ∅, store⟩
  | .ok (), some persisted =>
    (restored persisted.requests).bind fun entries =>
      match persisted.windowUntilMs with
      | some untilMs =>
        if untilMs ≤ now then
          match endWindow io store untilMs with
          | (_, .error _) => none
          | (store, .ok _) => some ⟨none, ∅, ∅, store⟩
        else some ⟨persisted.windowUntilMs, entries, ∅, store⟩
      | none =>
        if entries.entries.isEmpty then some ⟨none, entries, ∅, store⟩
        else
          match closeWindow io store with
          | (_, .error _) => none
          | (store, .ok ()) => some ⟨none, ∅, ∅, store⟩

def openWindow (s : State) (secs now : Nat) (io : StoreIo) : State × Except WindowError Nat :=
  if secs < 1 ∨ maxWindowSecs < secs then
    (s, .error (.invalid s!"open_for_secs must be between 1 and {maxWindowSecs}, not {secs}"))
  else
    let untilMs := now + secs * 1000
    match EnrolmentStore.openWindow io s.store untilMs with
    | (store, .error e) => ({ s with store := store }, .error (.store e))
    | (store, .ok ()) => ({ s with store := store, windowUntilMs := some untilMs }, .ok untilMs)

variable (s : State)

def close (io : StoreIo) : State × Except String Unit :=
  let (store, saved) := closeWindow io s.store
  (⟨none, ∅, ∅, store⟩, saved)

def expire (now : Nat) (io : StoreIo) : State × Option Nat :=
  match s.windowUntilMs with
  | none => (s, none)
  | some untilMs =>
    if now < untilMs then (s, some untilMs)
    else (⟨none, ∅, ∅, (endWindow io s.store untilMs).1⟩, none)

def newEntry (request : Request) (requester : Requester) (now : Nat) : Entry where
  pending :=
    { id := request.keyFingerprint
      arrivedMs := now
      keyFingerprint := request.keyFingerprint
      requester := requester }
  csrPem := request.csrPem
  instanceUid := request.instanceUid
  decision := none

def submit (maxPerBootstrap : Nat) (request : Request) (requester : Requester) (now : Nat)
    (io : StoreIo) : State × Submitted :=
  match s.expire now io with
  | (s, none) => (s, .closed)
  | (s, some _) =>
    let id := request.keyFingerprint
    match s.entries.lookup id with
    | some entry => (s, answer entry.decision)
    | none =>
      let entry := newEntry request requester now
      match take io s.store entry.persisted now maxPending maxPerBootstrap with
      | (store, .error _) => ({ s with store := store }, .full)
      | (store, .ok took) =>
        let s := { s with store := store }
        match took with
        | .added => ({ s with entries := s.entries.insert id entry }, .waiting)
        | .held held =>
          match Entry.restored held with
          | some held => ({ s with entries := s.entries.insert id held }, answer held.decision)
          | none => (s, .full)
        | .full => (s, .full)
        | .overShare =>
          ({ s with overShare := insert requester.bootstrap s.overShare },
            .overShare (requester.bootstrap ∉ s.overShare))
        | .closed => (s, .closed)

def pending (s : State) (now : Nat) (io : StoreIo) : State × List Pending :=
  let s := (s.expire now io).1
  let waiting := (s.entries.sortedKeys.filterMap s.entries.lookup).filter fun entry => entry.decision.isNone
  (s, (waiting.map Entry.pending).insertionSort fun a b => a.arrivedMs ≤ b.arrivedMs)

def withdrawn (id : String) (io : StoreIo) : State :=
  { s with
    entries := s.entries.erase id
    store := (withdraw io s.store [id]).1 }

def recordIssued (byAct : Bool) (now : Nat) (audited : Except String Unit) (io : Revocations.State.RecordIo)
    (signed : Signed) (instanceUid : Bytes) (bootstrap : CertId) (revocations : Revocations.State) :
      Revocations.State × Except String Unit :=
  match audited with
  | .error e => (revocations, .error e)
  | .ok () =>
    match revocations.recordWith byAct now signed.facts (Core.hexText instanceUid) none (some bootstrap) io with
    | (revocations, .ok (), _) => (revocations, .ok ())
    | (revocations, .error e, _) =>
      (revocations, .error (if e = Revocations.State.bootstrapRevoked then e
        else "cannot record the issued certificate: " ++ e))

structure ApproveIo where
  signed : Except String Signed
  /-- What others do to the list and the register between the check and the record. -/
  others : List Revocations.Act
  audited : Except String Unit
  record : Revocations.State.RecordIo
  store : StoreIo
  withdraw : StoreIo

def afterOthers (byAct : Bool) (others : List Revocations.Act) (revocations : Revocations.State) : Revocations.State :=
  others.foldl (fun revocations act => (Revocations.step byAct revocations act).getD revocations) revocations

def sign (byAct : Bool) (now : Nat) (io : ApproveIo) (instanceUid : Bytes) (bootstrap : CertId)
    (revocations : Revocations.State) : Revocations.State × Except DecisionError Decision :=
  match io.signed with
  | .error e => (revocations, .error (.sign e))
  | .ok signed =>
    match recordIssued byAct now io.audited io.record signed instanceUid bootstrap
        (afterOthers byAct io.others revocations) with
    | (revocations, .error e) =>
      (revocations, .error (if e = Revocations.State.bootstrapRevoked then .revoked else .sign e))
    | (revocations, .ok ()) => (revocations, .ok (.approved signed.pem))

def approve (s : State) (byAct : Bool) (id : String) (now : Nat) (io : ApproveIo)
    (revocations : Revocations.State) : State × Revocations.State × Except DecisionError Unit :=
  let s := (s.expire now io.store).1
  match (s.entries.lookup id).filter fun entry => entry.decision.isNone with
  | none => (s, revocations, .error .notFound)
  | some entry =>
    let bootstrap := entry.pending.requester.bootstrap
    let revocations := revocations.built
    if revocations.isCertificateRevoked bootstrap then
      (s.withdrawn id io.withdraw, revocations, .error .revoked)
    else
      match entry.pending.requester.carried with
      | .error e =>
        (s, revocations, .error (.subject
          ("the bootstrap certificate's subject cannot be carried into a host certificate: " ++ e)))
      | .ok _ =>
        match EnrolmentStore.approve io.store s.store id
          (sign byAct now io entry.instanceUid bootstrap) revocations with
        | (store, revocations, .error e) => ({ s with store := store }, revocations, .error (.store e))
        | (store, revocations, .ok approval) =>
          let s := { s with store := store }
          match approval with
          | .approved decision =>
            ({ s with entries := s.entries.insert id { entry with decision := some decision } },
              revocations, .ok ())
          | .notWaiting => ({ s with entries := s.entries.erase id }, revocations, .error .notFound)
          | .revoked => (s.withdrawn id io.withdraw, revocations, .error .revoked)
          | .refused .revoked => (s.withdrawn id io.withdraw, revocations, .error .revoked)
          | .refused e => (s, revocations, .error e)
          | .deciding => (s, revocations, .error .deciding)

def reject (id : String) (now : Nat) (io : StoreIo) : State × Except DecisionError Unit :=
  let s := (s.expire now io).1
  match (s.entries.lookup id).filter fun entry => entry.decision.isNone with
  | none => (s, .error .notFound)
  | some entry =>
    match decide io s.store id .rejected with
    | (store, .error e) => ({ s with store := store }, .error (.store e))
    | (store, .ok decided) =>
      let s := { s with store := store }
      match decided with
      | .written => ({ s with entries := s.entries.insert id { entry with decision := some .rejected } }, .ok ())
      | .notWaiting => ({ s with entries := s.entries.erase id }, .error .notFound)
      | .deciding => (s, .error .deciding)

def withdrawRevoked (issuers : List String) (serial : String) (io : StoreIo) : State × Nat :=
  let named (entry : Entry) : Bool :=
    entry.decision.isNone && entry.pending.requester.bootstrap.serial = serial &&
      entry.pending.requester.bootstrap.issuer ∈ issuers
  let ids := s.entries.countP named
  let (store, answered) := withdrawBootstrap io s.store issuers serial
  ({ s with entries := Map.filter s.entries fun _ entry => !named entry, store := store },
    match answered with
    | .ok withdrawn => withdrawn
    | .error _ => ids)

def reload (io : StoreIo) : State :=
  match io.load with
  | .error _ => s
  | .ok () =>
    let persisted := s.persisted
    match restored persisted.requests with
    | none => s
    | some entries =>
      { s with
        windowUntilMs := persisted.windowUntilMs
        entries := entries
        overShare := if persisted.windowUntilMs = s.windowUntilMs then s.overShare else ∅ }

end State

inductive Outcome where
  | nothing
  | submitted (key : String) (answer : Submitted)
  | listed (requests : List Pending)
  | approved (id : String)

structure Approving where
  id : String
  entry : Option Entry
  signed : Except String Signed
  now : Nat
  before : Revocations.State
  after : Revocations.State

structure System where
  enrolment : State
  revocations : Revocations.State
  now : Nat
  ends : List Nat
  submissions : List (Nat × String)
  approvals : List Approving
  outcome : Outcome

inductive Act where
  | openWindow (secs : Nat) (io : StoreIo)
  | close (io : StoreIo)
  | window (io : StoreIo)
  | submit (request : Request) (requester : Requester) (io : StoreIo)
  | pending (io : StoreIo)
  | approve (id : String) (io : State.ApproveIo)
  | reject (id : String) (io : StoreIo)
  | withdrawRevoked (issuers : List String) (serial : String) (io : StoreIo)
  | reload (io : StoreIo)
  | revocations (act : Revocations.Act)
  /-- The end of the process, and the next start that succeeds. -/
  | restart (io : StoreIo) (ledger : Revocations.Ledger)

namespace System

def start (ledger : Revocations.Ledger) : System where
  enrolment := ⟨none, ∅, ∅, none⟩
  revocations := .loaded ledger
  now := 0
  ends := []
  submissions := []
  approvals := []
  outcome := .nothing

def passed (s : System) (now : Nat) : List Nat :=
  (s.enrolment.windowUntilMs.toList ++ s.enrolment.persisted.windowUntilMs.toList).filter (· ≤ now)

def tick (s : System) (now : Nat) : System :=
  { s with now := now, ends := s.ends ++ s.passed now, outcome := .nothing }

def approve (s : System) (byAct : Bool) (id : String) (io : State.ApproveIo) : System :=
  let (enrolment, revocations, answer) := s.enrolment.approve byAct id s.now io s.revocations
  let approving : Approving :=
    { id := id
      entry := s.enrolment.entries.lookup id
      signed := io.signed
      now := s.now
      before := State.afterOthers byAct io.others s.revocations.built
      after := revocations }
  { s with
    enrolment := enrolment
    revocations := revocations
    approvals := s.approvals ++ [approving]
    outcome := match answer with
      | .ok () => .approved id
      | .error _ => .nothing }

def act (byAct : Bool) (maxPerBootstrap : Nat) (s : System) : Act → Option System
  | .openWindow secs io => some { s with enrolment := (s.enrolment.openWindow secs s.now io).1 }
  | .close io => some { s with enrolment := (s.enrolment.close io).1 }
  | .window io => some { s with enrolment := (s.enrolment.expire s.now io).1 }
  | .submit request requester io =>
    let (enrolment, answer) := s.enrolment.submit maxPerBootstrap request requester s.now io
    some { s with
      enrolment := enrolment
      submissions := s.submissions ++ [(s.now, request.keyFingerprint)]
      outcome := .submitted request.keyFingerprint answer }
  | .pending io =>
    let (enrolment, requests) := s.enrolment.pending s.now io
    some { s with enrolment := enrolment, outcome := .listed requests }
  | .approve id io => some (s.approve byAct id io)
  | .reject id io => some { s with enrolment := (s.enrolment.reject id s.now io).1 }
  | .withdrawRevoked issuers serial io =>
    some { s with enrolment := (s.enrolment.withdrawRevoked issuers serial io).1 }
  | .reload io => some { s with enrolment := s.enrolment.reload io }
  | .revocations act => (Revocations.step byAct s.revocations act).map fun revocations =>
    { s with revocations := revocations }
  | .restart io ledger => (State.openOn s.enrolment.store s.now io).map fun enrolment =>
      { s with enrolment := enrolment, revocations := .loaded ledger }

def step (byAct : Bool) (maxPerBootstrap : Nat) (s : System) (timed : Nat × Act) : Option System :=
  if timed.1 < s.now then none else (s.tick timed.1).act byAct maxPerBootstrap timed.2

end System

def hostRequest : Request := ⟨"csr", "key", []⟩

def hostRequester : Requester := ⟨.ok ∅, ⟨"bootstrap-ca", "1"⟩⟩

def answersWell : StoreIo := ⟨.ok (), .saved⟩

def signsWell : State.ApproveIo where
  signed := .ok ⟨"pem", ⟨⟨"client-ca", "2"⟩, 9000, none, ∅⟩⟩
  others := []
  audited := .ok ()
  record := ⟨⟨fun _ => .ok (), fun _ => .ok true⟩, .ok .registered⟩
  store := answersWell
  withdraw := answersWell

end OpampFleet.Server.Enrolment
