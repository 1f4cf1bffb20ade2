import Mathlib.Algebra.Ring.Int.Defs
import Mathlib.Data.List.MinMax
import OpampFleet.Lib.Map
import OpampFleet.Opamp.Uid

/-!
# Which host speaks for an `instance_uid`

The model of the Gateway's `policy.rs`. Its maps are maps here; its sets, of which only the members matter, are lists.
A host's name is a plain text, so the one shared name of a host (`key`) is the name itself.
-/

namespace OpampFleet.Gateway

open Lib Opamp

structure Limits where
  perHost : Nat
  total : Nat

def isHex (field : List Char) (exactly : Option Nat) : Bool :=
  !field.isEmpty && exactly.all (field.length = ·) && field.all fun c => c.isDigit || ('a' ≤ c && c ≤ 'f')

def isSerial (field : List Char) : Bool := isHex field none && (field.length == 1 || field.head? != some '0')

/-- Where a host's certificate ends: an `i64` of seconds, and the certificate as the revocation list names it. -/
structure End where
  notAfter : Int
  issuer : String
  serial : String
  range : -2 ^ 63 ≤ notAfter ∧ notAfter < 2 ^ 63
  issuer_hex : isHex issuer.toList (some 64) = true
  serial_hex : isSerial serial.toList = true
  deriving DecidableEq

inductive Change where
  | bound (uid : InstanceUid) (host : String)
  | unbound (uid : InstanceUid)
  | reported (uid : InstanceUid)
  | ends (host : String) (fin : End)
  deriving DecidableEq

structure Binding where
  host : String
  reported : Nat
  pending : Bool
  deriving DecidableEq

structure Bindings where
  bound : Map InstanceUid Binding
  hosts : Map String (List InstanceUid)
  ends : Map String End
  expiring : List (Int × String)
  /-- The hosts whose end the store does not hold yet, each with the end it holds. -/
  moving : Map String (Option End)
  tick : Nat
  reported : List InstanceUid

inductive Bound where
  | kept
  | new
  | refused (why : String)
  | waiting
  deriving DecidableEq

structure Outcome where
  bound : Bound
  evicted : List InstanceUid
  changes : List Change

namespace Outcome

def refused (why : String) : Outcome := ⟨.refused why, [], []⟩

def refusedWaiting : Outcome := ⟨.waiting, [], []⟩

end Outcome

namespace Bindings

def empty : Bindings := ⟨∅, ∅, ∅, [], ∅, 0, []⟩

variable (b : Bindings) (uid : InstanceUid) (host : String) (fin : End)

def dropEnd : Bindings :=
  match b.ends.lookup host with
  | none => b
  | some fin => { b with ends := b.ends.erase host, expiring := b.expiring.erase (fin.notAfter, host) }

def setEnd : Bindings :=
  let b := b.dropEnd host
  { b with ends := b.ends.insert host fin, expiring := b.expiring.insert (fin.notAfter, host) }

/-- A report would move the host's end past what the store holds, while another move of it is being written. -/
def waitsForEnd : Bool :=
  (b.moving.lookup host).any fun held => held.all fun held => held.notAfter < fin.notAfter

def moveEnd : Bindings × List Change :=
  if (b.ends.lookup host).any fun kept => fin.notAfter ≤ kept.notAfter then (b, [])
  else
    (({ b with moving := b.moving.insert host (b.ends.lookup host) } : Bindings).setEnd host fin, [.ends host fin])

def settleEnd (written : Bool) (host : String) : Bindings :=
  match b.moving.lookup host with
  | none => b
  | some held =>
    let b := { b with moving := b.moving.erase host }
    if written then b
    else
      match held with
      | some held => b.setEnd host held
      | none => b.dropEnd host

def endHosts (changes : List Change) : List String :=
  changes.filterMap fun
    | .ends host _ => some host
    | _ => none

def endsWritten (changes : List Change) (written : Bool) : Bindings :=
  (endHosts changes).foldl (fun b host => b.settleEnd written host) b

def compacted (hosts : List String) (written : Bool) : Bindings :=
  hosts.foldl (fun b host => b.settleEnd written host) b

/-- A binding removed. A host left with none keeps no end, unless it gives the binding up for another. -/
def unbind (keepEnd : Bool) : Bindings :=
  match b.bound.lookup uid with
  | none => b
  | some binding =>
    let b := { b with bound := b.bound.erase uid }
    match b.hosts.lookup binding.host with
    | none => b
    | some own =>
      if (own.erase uid).isEmpty then
        let b := { b with hosts := b.hosts.erase binding.host }
        if keepEnd then b
        else
          let b := b.dropEnd binding.host
          { b with moving := b.moving.erase binding.host }
      else { b with hosts := b.hosts.insert binding.host (own.erase uid) }

def insert (b : Bindings) (uid : InstanceUid) (binding : Binding) : Bindings :=
  { b with
    bound := b.bound.insert uid binding
    hosts := b.hosts.insert binding.host (((b.hosts.lookup binding.host).getD []).insert uid) }

/-- The host's own least recently reported binding that is relied on and idle. -/
def victim (idle : InstanceUid → Bool) : Option InstanceUid :=
  (((b.hosts.lookup host).getD []).filter fun uid =>
    (b.bound.lookup uid).any fun binding => !binding.pending && idle uid).argmin fun uid =>
      ((b.bound.lookup uid).map Binding.reported).getD 0

def full (limits : Limits) : Option String :=
  if limits.perHost ≤ ((b.hosts.lookup host).getD []).length then
    some "the host holds as many bindings as max_carried_agents allows, none of them idle"
  else if limits.total ≤ b.bound.entries.length then
    some "the Gateway holds as many bindings as it may, and none of this host's own is idle"
  else none

def makeRoom (limits : Limits) (idle : InstanceUid → Bool) : Except String (Bindings × List InstanceUid) :=
  match b.full host limits with
  | none => .ok (b, [])
  | some why =>
    match b.victim host idle with
    | none => .error why
    -- The host keeps its end through giving up its last binding for this one.
    | some uid => .ok (b.unbind uid true, [uid])

def bindNew (limits : Limits) (idle : InstanceUid → Bool) : Bindings × Outcome :=
  let b := { b with tick := b.tick + 1 }
  match b.makeRoom host limits idle with
  | .error why => (b, .refused why)
  | .ok (b, evicted) =>
    let b := b.insert uid ⟨host, b.tick, true⟩
    let (b, moved) := b.moveEnd host fin
    (b, ⟨.new, evicted, evicted.map .unbound ++ moved ++ [.bound uid host]⟩)

def report (binding : Binding) (fin : End) : Bindings × Outcome :=
  let b :=
    { b with
      tick := b.tick + 1
      bound := b.bound.insert uid { binding with reported := b.tick + 1 }
      reported := b.reported.insert uid }
  let (b, moved) := b.moveEnd binding.host fin
  (b, ⟨.kept, [], moved⟩)

def bind (now : Int) (limits : Limits) (idle : InstanceUid → Bool) : Bindings × Outcome :=
  if fin.notAfter < now then (b, .refused "the certificate it was reported under has expired")
  else
    match b.bound.lookup uid with
    | some binding =>
      if binding.pending then (b, .refused "its binding is still being written")
      else if binding.host ≠ host then (b, ⟨.kept, [], []⟩)
      else if b.waitsForEnd host fin then (b, .refusedWaiting)
      else b.report uid binding fin
    | none => if b.waitsForEnd host fin then (b, .refusedWaiting) else b.bindNew uid host fin limits idle

def commit : Bindings :=
  match b.bound.lookup uid with
  | some binding => { b with bound := b.bound.insert uid { binding with pending := false } }
  | none => b

/-- The store could not take the new binding: it is not made, and its removal follows should the store hold it. -/
def abort : Bindings × List Change :=
  if (b.bound.lookup uid).any Binding.pending then (b.unbind uid false, [.unbound uid]) else (b, [])

def holds : Bool :=
  (b.bound.lookup uid).any fun binding => binding.host == host && !binding.pending

def hostOf : Option String := (b.bound.lookup uid).map Binding.host

def reports : Bindings × List Change :=
  let reported := b.reported.filterMap fun uid => (b.bound.lookup uid).map fun binding => (binding.reported, uid)
  ({ b with reported := [] }, (reported.insertionSort fun x y => x.1 ≤ y.1).map fun r => .reported r.2)

def endHost : Bindings × List InstanceUid :=
  let uids := (b.hosts.lookup host).getD []
  let b := { b with hosts := b.hosts.erase host, bound := uids.foldl (fun bound uid => bound.erase uid) b.bound }
  let b := b.dropEnd host
  ({ b with moving := b.moving.erase host }, uids)

def ended (now : Int) (revoked : Option (End → Bool)) : List String :=
  let passed := (b.expiring.filter fun entry => entry.1 < now).map Prod.snd
  let named := revoked.elim [] fun revoked => (b.ends.entries.filter fun entry => revoked entry.2).map fun e => e.1
  (passed ++ named).dedup

def endAll (now : Int) (revoked : Option (End → Bool)) : Bindings × List (String × List InstanceUid) :=
  (b.ended now revoked).foldl (fun (b, gone) host => ((b.endHost host).1, gone ++ [(host, (b.endHost host).2)])) (b, [])

def replayChange : Bindings × Map String End → Change → Bindings × Map String End
  | (b, ends), change =>
    let b := { b with tick := b.tick + 1 }
    match change with
    | .bound uid host => ((b.unbind uid false).insert uid ⟨host, b.tick, false⟩, ends)
    | .unbound uid => (b.unbind uid false, ends)
    | .reported uid =>
      match b.bound.lookup uid with
      | some binding => ({ b with bound := b.bound.insert uid { binding with reported := b.tick } }, ends)
      | none => (b, ends)
    | .ends host fin => (b, ends.insert host fin)

def restoreEnd (ends : Map String End) (b : Bindings) (host : String) : Except String Bindings :=
  match ends.lookup host with
  | some fin => .ok (b.setEnd host fin)
  | none => .error s!"the host {host} has a binding and no certificate end"

def replay (changes : List Change) : Except String Bindings :=
  let (b, ends) := changes.foldl replayChange (empty, ∅)
  b.hosts.keys.foldlM (restoreEnd ends) b

structure Raw where
  ends : List (String × End)
  bound : List (Nat × InstanceUid × String)

def raw : Raw where
  ends := b.ends.entries.map fun e => (e.1, e.2)
  bound := b.bound.entries.map fun e => (e.2.reported, e.1, e.2.host)

def Raw.changes (raw : Raw) : List Change :=
  raw.ends.map (fun e => .ends e.1 e.2) ++
    (raw.bound.insertionSort fun x y => x.1 ≤ y.1).map fun e => .bound e.2.1 e.2.2

def snapshot : List Change := b.raw.changes

def live : Nat := b.bound.entries.length + b.ends.entries.length

end Bindings

end OpampFleet.Gateway
