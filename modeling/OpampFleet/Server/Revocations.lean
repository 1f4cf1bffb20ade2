import Mathlib.Data.Finset.Sort
import Mathlib.Data.String.Basic
import OpampFleet.Lib.Links
import OpampFleet.Server.Register

/-!
# What the Server signed, and what it no longer trusts

The model of `revocation.rs`: the register of signed certificates, each with the one it renewed, the list of
revocations, and the Hosts. Every act here is what the source does under its one lock. Writes of the ledger are not
modelled, what the store answers to them comes with the act.
-/

namespace OpampFleet.Server.Revocations

open Lib

def maxIssued : Nat := 100000

def maxDescendantsPerRoot : Nat := 10000

def enrolmentReserve : Nat := 1000

def maxPerHost : Nat := 3

structure CertId where
  issuer : String
  serial : String
  deriving DecidableEq

structure Facts where
  id : CertId
  notAfterMs : Nat
  host : Option String
  subjectValues : Map String String

structure Issued where
  facts : Facts
  instanceUid : String
  predecessor : Option CertId
  issuedMs : Nat

structure Revocation where
  id : String
  authority : String
  issuers : List String
  serial : String
  revokedMs : Nat
  deriving DecidableEq

def Revocation.named (entry : Revocation) : List CertId := entry.issuers.map fun issuer => ⟨issuer, entry.serial⟩

structure Ledger where
  issued : List Issued
  revocations : List Revocation
  hosts : Map String Host

abbrev HostsVersion := Nat × Map String Host

structure State where
  issued : Map CertId Issued
  revocations : List Revocation
  roots : Map CertId CertId
  descendants : Map CertId Nat
  earliestExpiryMs : Nat
  register : Register
  hostsVersion : Nat
  revoked : Option (Finset CertId)

def u64Max : Nat := 2 ^ 64 - 1

/-- Which Host each `instance_uid` the Hosts list belongs to; of several, the last by name. -/
def ownersOf (hosts : Map String Host) : Map String String :=
  (hosts.sortedKeys.flatMap fun name => ((hosts.lookup name).elim [] fun host => host.instanceUids.sort (· ≤ ·)).map
    fun uid => (uid, name)).foldl (fun owners owned => owners.insert owned.1 owned.2) ∅

namespace State

def predecessor (s : State) (id : CertId) : Option CertId := (s.issued.lookup id).bind Issued.predecessor

variable (s : State)

def bound : Nat := s.issued.entries.length + 1

def chainRoot (id : CertId) : CertId := Links.last s.predecessor s.bound id

def takeUpRegister (issued : List Issued) : State :=
  let s : State :=
    { s with
      issued := issued.foldl (fun register entry => register.insert entry.facts.id entry) ∅
      roots := ∅
      descendants := ∅
      earliestExpiryMs :=
        (s.register.hosts.values.filter fun host => !host.gateway).foldl
          (fun earliest host => min earliest (host.validUntilMs.getD 0))
          (issued.foldl (fun earliest entry => min earliest entry.facts.notAfterMs) u64Max)
      revoked := none }
  s.issued.keys.foldl
    (fun t id =>
      let root := s.chainRoot id
      { t with
        descendants := t.descendants.insert root ((t.descendants.lookup root).getD 0 + 1)
        roots := t.roots.insert id root }) s

def loaded (ledger : Ledger) : State :=
  ({ issued := ∅
     revocations := ledger.revocations
     roots := ∅
     descendants := ∅
     earliestExpiryMs := u64Max
     register := ⟨ledger.hosts, ownersOf ledger.hosts⟩
     hostsVersion := 0
     revoked := none } : State).takeUpRegister ledger.issued

lemma foldl_roots (root : CertId → CertId) (ids : List CertId) (s : State) :
    ∃ roots descendants, ids.foldl (fun t id =>
      { t with
        descendants := t.descendants.insert (root id) ((t.descendants.lookup (root id)).getD 0 + 1)
        roots := t.roots.insert id (root id) }) s = { s with roots := roots, descendants := descendants } := by
  induction ids generalizing s with
  | nil => exact ⟨s.roots, s.descendants, rfl⟩
  | cons id ids ih =>
    obtain ⟨roots, descendants, heq⟩ := ih _
    exact ⟨roots, descendants, heq⟩

lemma loaded_frame (ledger : Ledger) :
    (loaded ledger).issued = ledger.issued.foldl (fun register entry => register.insert entry.facts.id entry) ∅ ∧
      (loaded ledger).revocations = ledger.revocations ∧ (loaded ledger).revoked = none ∧
      (loaded ledger).register = ⟨ledger.hosts, ownersOf ledger.hosts⟩ ∧ (loaded ledger).hostsVersion = 0 := by
  unfold loaded takeUpRegister
  obtain ⟨roots, descendants, heq⟩ := foldl_roots _ _ _
  rw [heq]
  exact ⟨rfl, rfl, rfl, rfl, rfl⟩

def named (s : State) : Finset CertId := (s.revocations.flatMap Revocation.named).toFinset

def answer (named : Finset CertId) (answered : Map CertId Bool) (id : CertId) : Map CertId Bool :=
  let (path, found) := Links.search s.predecessor (fun id => id ∈ named) answered.lookup s.bound id
  path.foldl (fun answered id => answered.insert id found) answered

/-- The certificates the list names, and every register entry that renewed one of them, each chain walked once. -/
def resolve : Finset CertId :=
  if s.named = ∅ then ∅
  else s.named ∪ Map.keysWith (s.issued.keys.foldl (s.answer s.named) ∅) fun found => found

def revokedSet : Finset CertId := s.revoked.getD s.resolve

def built : State := { s with revoked := some s.revokedSet }

def isCertificateRevoked (certificate : CertId) : Bool := certificate ∈ s.revokedSet

def rootBelow (predecessor : Option CertId) (id : CertId) : CertId :=
  match predecessor with
  | none => id
  | some predecessor => (s.roots.lookup predecessor).getD predecessor

def remove (id : CertId) : State :=
  match s.issued.lookup id with
  | none => s
  | some _ =>
    let s := { s with issued := s.issued.erase id, revoked := none }
    match s.roots.lookup id with
    | none => s
    | some root =>
      let s := { s with roots := s.roots.erase id }
      match s.descendants.lookup root with
      | none => s
      | some count =>
        { s with descendants := if count - 1 = 0 then s.descendants.erase root
          else s.descendants.insert root (count - 1) }

def insert (s : State) (entry : Issued) : State :=
  let id := entry.facts.id
  let s := s.remove id
  -- A renewal of a revoked certificate is revoked, and so is whatever already names it as its predecessor.
  let s : State :=
    match s.revoked, entry.predecessor with
    | some revoked, some predecessor =>
      if predecessor ∈ revoked ∧ id ∉ revoked then { s with revoked := none } else s
    | _, _ => s
  let root := s.rootBelow entry.predecessor id
  { s with
    descendants := s.descendants.insert root ((s.descendants.lookup root).getD 0 + 1)
    roots := s.roots.insert id root
    earliestExpiryMs := min s.earliestExpiryMs entry.facts.notAfterMs
    issued := s.issued.insert id entry }

structure PruneIo where
  removeIssued : CertId → Except String Unit
  removeRevocation : String → Except String Bool

def needed (s : State) (now : Nat) : Finset CertId :=
  (s.issued.values.filter fun entry => now < entry.facts.notAfterMs).foldl
    (fun needed entry => Links.visit s.predecessor s.bound needed entry.facts.id) ∅

def latest (host : String) : Option Nat :=
  ((s.issued.values.filter fun entry => entry.facts.host = some host).map fun entry => entry.facts.notAfterMs).max?

def hostEnded (now : Nat) (host : Host) : Bool := !host.gateway && host.validUntilMs.any fun ms => ms ≤ now

def pruneHosts (now : Nat) : State × Bool :=
  let extended := s.register.hosts.entries.any fun e => (s.latest e.1).any fun until_ => (e.2.extend until_).2
  let hosts := Map.mapValues s.register.hosts fun name host =>
    match s.latest name with
    | some until_ => (host.extend until_).1
    | none => host
  let register := ({ s.register with hosts := hosts } : Register).forget fun _ host => hostEnded now host
  ({ s with register := register }, extended || hosts.values.any fun host => hostEnded now host)

def nextExpiryMs (now : Nat) : Nat :=
  (((s.issued.values.map fun entry => entry.facts.notAfterMs) ++
    (s.register.hosts.values.filter fun host => !host.gateway).filterMap Host.validUntilMs).filter
      fun notAfter => now < notAfter).foldl min u64Max

def hostsChanged : State × HostsVersion :=
  ({ s with hostsVersion := s.hostsVersion + 1 }, (s.hostsVersion + 1, s.register.hosts))

def removeGone (io : PruneIo) : State → List CertId → State × Except String Unit
  | s, [] => (s, .ok ())
  | s, id :: gone =>
    match io.removeIssued id with
    | .error e => (s, .error e)
    | .ok () => removeGone io (s.remove id) gone

def removeRevocations (io : PruneIo) : State → List String → State × Except String Unit
  | s, [] => (s, .ok ())
  | s, id :: dropped =>
    match io.removeRevocation id with
    | .error e => (s, .error e)
    | .ok _ =>
      removeRevocations io
        { s with revocations := s.revocations.filter fun entry => entry.id ≠ id, revoked := none } dropped

def namesGone (gone : List CertId) (entry : Revocation) : Bool :=
  gone.any fun id => id.serial = entry.serial && id.issuer ∈ entry.issuers

/-- What has expired and no valid certificate descends from goes, with its revocations, and so do the Hosts that
ended; `byAct` where the store writes the Hosts by act. -/
def prune (byAct : Bool) (now : Nat) (io : PruneIo) : State × Except String (Option HostsVersion) :=
  if now < s.earliestExpiryMs then (s, .ok none)
  else
    let needed := s.needed now
    let gone := s.issued.keys.filter fun id => id ∉ needed
    let (s, changed) := s.pruneHosts now
    let (s, forgotten) : State × Option HostsVersion :=
      if changed && !byAct then (s.hostsChanged.1, some s.hostsChanged.2) else (s, none)
    let s := { s with earliestExpiryMs := s.nextExpiryMs now }
    if gone.isEmpty then (s, .ok forgotten)
    else
      match removeGone io s gone with
      | (s, .error e) => (s, .error e)
      | (s, .ok ()) =>
        match removeRevocations io s ((s.revocations.filter (namesGone gone)).map Revocation.id) with
        | (s, .error e) => (s, .error e)
        | (s, .ok ()) => (s, .ok forgotten)

inductive Registered where
  | registered
  | full (why : String)
  | revoked
  | bootstrapRevoked

structure RecordIo where
  prune : PruneIo
  registered : Except String Registered

def renewsRevoked : String := "the certificate this renews, or one it renewed, is revoked"

def bootstrapRevoked : String := "the bootstrap certificate the request came with is revoked"

def chainFull : String := "this certificate's chain has been renewed too often"

/-- `admit`: the certificate entered in the register, if no bound and no revocation is in the way. -/
def admitIssued (now : Nat) (facts : Facts) (instanceUid : String) (predecessor : Option CertId)
    (answer : Except String Registered) : State × Except String Unit :=
  let limit := if predecessor.isSome then maxIssued - enrolmentReserve else maxIssued
  let held := s.issued.entries.length
  let root := s.rootBelow predecessor facts.id
  let live (host : String) : Nat := s.issued.values.countP fun entry =>
    entry.facts.host = some host && now < entry.facts.notAfterMs
  if limit ≤ held then (s, .error s!"the register holds {held} certificates already")
  else if maxDescendantsPerRoot ≤ (s.descendants.lookup root).getD 0 then (s, .error chainFull)
  else if facts.host.any fun host => maxPerHost ≤ live host then
    (s, .error (s!"the host already holds {maxPerHost} valid certificates — one is renewed " ++
      "when it has run two thirds of its life"))
  else
    match answer with
    | .error e => (s, .error e)
    | .ok (.full why) => (s, .error why)
    | .ok .revoked => (s, .error renewsRevoked)
    | .ok .bootstrapRevoked => (s, .error bootstrapRevoked)
    | .ok .registered => (s.insert ⟨facts, instanceUid, predecessor, now⟩, .ok ())

/-- The host an issuance mints: one that renews nothing and names a host the register does not know yet. -/
def mints (facts : Facts) (predecessor : Option CertId) : Option String :=
  match predecessor, facts.host with
  | none, some host => if (s.register.hosts.lookup host).isNone then some host else none
  | _, _ => none

def seeHost (facts : Facts) (mint : Option String) : State × Bool :=
  match mint, facts.host with
  | some host, _ =>
    let entry := { Host.empty with subject := facts.subjectValues, validUntilMs := some facts.notAfterMs }
    ({ s with register := { s.register with hosts := s.register.hosts.insert host entry } }, true)
  | none, some host =>
    ({ s with register := s.register.modify host fun entry => (entry.extend facts.notAfterMs).1 },
      (s.register.hosts.lookup host).any fun entry => (entry.extend facts.notAfterMs).2)
  | none, none => (s, false)

/-- `record_with`: the answer, and the Hosts to write once the lock is released. -/
def recordWith (byAct : Bool) (now : Nat) (facts : Facts) (instanceUid : String)
    (predecessor : Option CertId) (bootstrap : Option CertId) (io : RecordIo) :
    State × Except String Unit × Option HostsVersion :=
  let s := if bootstrap.isSome then s.built else s
  if bootstrap.any s.isCertificateRevoked then (s, .error bootstrapRevoked, none)
  else
    match s.prune byAct now io.prune with
    | (s, .error e) => (s, .error e, none)
    | (s, .ok forgotten) =>
      let mint := s.mints facts predecessor
      match s.admitIssued now facts instanceUid predecessor io.registered with
      | (s, .error e) => (s, .error e, if byAct then none else forgotten)
      | (s, .ok ()) =>
        let (s, acted) := s.seeHost facts mint
        if byAct then (s, .ok (), none)
        else if acted then (s.hostsChanged.1, .ok (), some s.hostsChanged.2)
        else (s, .ok (), forgotten)

inductive Added where
  | added
  | present (existing : Revocation)
  | widened (wider : Revocation)
  | full

def add (entry : Revocation) (answer : Except String Added) : State :=
  let take (entry : Revocation) : State :=
    match s.revocations.find? fun held => held.id = entry.id with
    | some held =>
      if held = entry then s
      else
        { s with
          revocations := s.revocations.replaceF fun held => if held.id = entry.id then some entry else none
          revoked := none }
    | none => { s with revocations := s.revocations ++ [entry], revoked := none }
  match answer with
  | .error _ => s
  | .ok .added => take entry
  | .ok (.present existing) => take existing
  | .ok (.widened wider) => take wider
  | .ok .full => s

def lift (id : String) (answer : Except String Bool) : State :=
  match answer with
  | .error _ => s
  | .ok _ =>
    let revocations := s.revocations.filter fun entry => entry.id ≠ id
    { s with
      revocations := revocations
      revoked := if revocations.length ≠ s.revocations.length then none else s.revoked }

def reload (ledger : Ledger) : State := { (loaded ledger).built with hostsVersion := s.hostsVersion }

end State

end OpampFleet.Server.Revocations
