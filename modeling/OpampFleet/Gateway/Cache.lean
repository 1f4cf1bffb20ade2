import OpampFleet.Gateway.Store
import OpampFleet.Lib.Transition

/-!
# Binding and writing

The part of the Gateway's `cache.rs` that binds an `instance_uid` and writes the store, as a system that takes one step
at a time. A step is what one task does under one lock: the first half of a bind, the second, the end of certificates,
and the pieces of the store writer's `flush` between which the other tasks run. What the environment decides comes with
the action.
-/

namespace OpampFleet.Gateway

open Lib Opamp

abbrev BindId := Nat

structure Underway where
  uid : InstanceUid
  host : String
  made : Option Nat
  answer : Option Bool

/-- Who holds a ticket: a bind, or someone whom the answer does not change. -/
abbrev Waiter := Option BindId

structure Rewrite where
  replaces : Option (List Waiter)
  takesIn : List Change
  changes : List Change
  moving : List String
  waiting : List Waiter

inductive Phase where
  | idle (written : Bool)
  | taken (changes : List Change) (waiting : List Waiter)
  | appended (changes : List Change) (waiting : List Waiter)
  | refused (changes : List Change) (waiting : List Waiter)
  | copied (rewrite : Rewrite)
  | rewritten (rewrite : Rewrite) (written : Bool)
  | answered (written : Bool)
  | grown

structure Cache where
  file : Option Bytes
  /-- None while the store cannot be read or rewritten. -/
  journal : Option Journal
  bindings : Bindings
  queue : List Change
  waiting : List Waiter
  phase : Phase
  binds : Map BindId Underway
  nextBind : BindId
  reports : List (List Change)

def reportLinesPerLive : Nat := 8

namespace Cache

def closed (file : Option Bytes) : Cache where
  file := file
  journal := none
  bindings := .empty
  queue := []
  waiting := []
  phase := .idle false
  binds := ∅
  nextBind := 0
  reports := []

variable (cache : Cache)

def enqueue (changes : List Change) (waiter : Waiter) : Cache :=
  { cache with queue := cache.queue ++ changes, waiting := cache.waiting ++ [waiter] }

def register (bind : Underway) : Cache :=
  { cache with binds := cache.binds.insert cache.nextBind bind, nextBind := cache.nextBind + 1 }

def tell (waiting : List Waiter) (written : Bool) : Cache :=
  { cache with
    binds := cache.binds.mapValues fun id bind => if some id ∈
      waiting then { bind with answer := some written } else bind }

inductive Begun where
  | bound (id : BindId)
  | refused
  | writing (id : BindId)
  | waiting

def isRemoval : Change → Bool
  | .unbound _ => true
  | _ => false

/-- A binding too long to be stored: what was to make room for it goes all the same. -/
def refuseLong (uid : InstanceUid) (changes : List Change) : Cache :=
  let (bindings, aborted) := (cache.bindings.endsWritten changes false).abort uid
  { cache with bindings := bindings, queue := cache.queue ++ changes.filter isRemoval ++ aborted }

def enqueueBind (uid : InstanceUid) (host : String) (made : Option Nat) (changes : List Change) : Cache :=
  (cache.enqueue changes (some cache.nextBind)).register ⟨uid, host, made, none⟩

def beginBind (limits : Limits) (uid : InstanceUid) (host : String) (fin : End) (now : Int)
    (idle : InstanceUid → Bool) : Cache × Begun × List InstanceUid :=
  let (bindings, outcome) := cache.bindings.bind uid host fin now limits idle
  let cache := { cache with bindings := bindings }
  let made := if outcome.bound = .new then some bindings.tick else none
  match outcome.bound with
  | .waiting => (cache, .waiting, outcome.evicted)
  | .refused _ => (cache, .refused, outcome.evicted)
  | _ =>
    if bindings.hostOf uid ≠ some host then (cache, .refused, outcome.evicted)
    else if outcome.changes.isEmpty then
      (cache.register ⟨uid, host, made, some true⟩, .bound cache.nextBind, outcome.evicted)
    else if outcome.changes.any fun change => (line change).isNone then
      (cache.refuseLong uid outcome.changes, .refused, outcome.evicted)
    else (cache.enqueueBind uid host made outcome.changes, .writing cache.nextBind, outcome.evicted)

def finishBind (id : BindId) : Option (Cache × Bool) :=
  match cache.binds.lookup id with
  | some ⟨uid, host, _, some written⟩ =>
    let cache := { cache with binds := cache.binds.erase id }
    if written then
      let bindings := cache.bindings.commit uid
      some ({ cache with bindings := bindings }, bindings.holds uid host)
    else
      let (bindings, changes) := cache.bindings.abort uid
      let cache := { cache with bindings := bindings }
      some (if changes.isEmpty then cache else cache.enqueue changes none, false)
  | _ => none

def endCertificates (now : Int) (revoked : Option (End → Bool)) : Cache × List InstanceUid :=
  let (bindings, ended) := cache.bindings.endAll now revoked
  if ended.isEmpty then (cache, [])
  else
    let uids := ended.flatMap Prod.snd
    (({ cache with bindings := bindings } : Cache).enqueue (uids.map .unbound) none, uids)

def takeReports : Cache :=
  let (bindings, changes) := cache.bindings.reports
  { cache with bindings := bindings, reports := if changes.isEmpty then cache.reports else cache.reports ++ [changes] }

def queueReports : Option Cache :=
  match cache.reports with
  | [] => none
  | changes :: rest => some (({ cache with reports := rest } : Cache).enqueue changes none)

def flush : Option Cache :=
  match cache.phase with
  | .idle _ =>
    if cache.queue.isEmpty && cache.waiting.isEmpty then none
    else some { cache with queue := [], waiting := [], phase := .taken cache.queue cache.waiting }
  | _ => none

def append (cache : Cache) (io : AppendIo) : Option Cache :=
  match cache.phase with
  | .taken changes waiting =>
    match cache.journal with
    | none =>
      some { cache.tell waiting false with
        bindings := cache.bindings.endsWritten changes false
        phase := .answered false }
    | some journal =>
      let (file, journal, written) := journal.append io cache.file changes
      some { cache with
        file := file
        journal := some journal
        phase := if written then .appended changes waiting else .refused changes waiting }
  | _ => none

def settle : Option Cache :=
  match cache.phase with
  | .appended changes waiting =>
    some { cache.tell waiting true with
      bindings := cache.bindings.endsWritten changes true
      phase := .answered true }
  | _ => none

def copyFor (replaces : Option (List Waiter)) (takesIn : List Change) : Cache :=
  { cache with
    queue := []
    waiting := []
    phase := .copied
      { replaces := replaces
        takesIn := takesIn ++ cache.queue
        changes := cache.bindings.snapshot
        moving := cache.bindings.moving.keys
        waiting := cache.waiting } }

def copy : Option Cache :=
  match cache.phase with
  | .refused changes waiting => some (cache.copyFor (some waiting) changes)
  | .grown => some (cache.copyFor none [])
  | _ => none

def rewrite (cache : Cache) (io : RewriteIo) : Option Cache :=
  match cache.phase, cache.journal with
  | .copied rewrite, some journal =>
    let (file, journal, written) := journal.compact io cache.file rewrite.changes
    some { cache with file := file, journal := some journal, phase := .rewritten rewrite written }
  | _, _ => none

def settleRewrite : Option Cache :=
  match cache.phase with
  | .rewritten rewrite written =>
    let cache := { cache with bindings := cache.bindings.compacted rewrite.moving written }
    some (match rewrite.replaces with
    | some waiting => { cache.tell (rewrite.waiting ++ waiting) written with phase := .answered written }
    | none => { cache.tell rewrite.waiting written with phase := .idle true })
  | _ => none

/-- A store that has grown to twice the lines it holds live, or whose reports have outgrown them, is rewritten. -/
def measure : Option Cache :=
  match cache.phase with
  | .answered written =>
    let live := cache.bindings.live
    let outgrown := cache.journal.any fun journal =>
      (0 < journal.lines && 2 * live ≤ journal.lines) || reportLinesPerLive * max live 1 < journal.reports
    some { cache with phase := if written && outgrown then .grown else .idle written }
  | _ => none

/-- `open_dir`: the store read, what ended meanwhile ended, and the store rewritten. -/
def openStore (file : Option Bytes) (now : Int) (io : RewriteIo) : Cache :=
  match load file with
  | .error _ => closed file
  | .ok changes =>
    match Bindings.replay changes with
    | .error _ => closed file
    | .ok bindings =>
      let bindings := (bindings.endAll now none).1
      match Journal.unwritten.compact io file bindings.snapshot with
      | (file, journal, true) => { closed file with journal := some journal, bindings := bindings }
      | (file, _, false) => closed file

end Cache

inductive Act where
  | beginBind (uid : InstanceUid) (host : String) (fin : End) (now : Int) (idle : InstanceUid → Bool)
  | finishBind (id : BindId)
  | endCertificates (now : Int) (revoked : Option (End → Bool))
  | takeReports
  | queueReports
  | flush
  | append (io : AppendIo)
  | settle
  | copy
  | rewrite (io : RewriteIo)
  | settleRewrite
  | measure
  | restart (now : Int) (io : RewriteIo)

def Cache.step (limits : Limits) (cache : Cache) : Act → Option Cache
  | .beginBind uid host fin now idle => some (cache.beginBind limits uid host fin now idle).1
  | .finishBind id => (cache.finishBind id).map Prod.fst
  | .endCertificates now revoked => some (cache.endCertificates now revoked).1
  | .takeReports => some cache.takeReports
  | .queueReports => cache.queueReports
  | .flush => cache.flush
  | .append io => cache.append io
  | .settle => cache.settle
  | .copy => cache.copy
  | .rewrite io => cache.rewrite io
  | .settleRewrite => cache.settleRewrite
  | .measure => cache.measure
  | .restart now io => some (openStore cache.file now io)

def Cache.start : Cache := .closed none

end OpampFleet.Gateway
