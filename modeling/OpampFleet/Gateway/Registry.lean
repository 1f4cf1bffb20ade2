import OpampFleet.Gateway.Cache

/-!
# Where replies go, and what they offer

The Gateway's `registry.rs`, with the offers of its `cache.rs`. A route is made by the two halves of a bind, each under
the registry's lock; `deliver` takes the route under that lock and records the offer and hands the reply over after it.
A connection has one certificate for as long as it lives, so the certificates are a parameter.
-/

namespace OpampFleet.Gateway

open Lib Opamp

structure DownloadableFile where
  downloadUrl : String
  contentHash : Bytes

structure Artifact where
  path : String
  hash : Bytes
  deriving DecidableEq

def routePrefix : String := "/api/v1/packages/"

def Artifact.of (file : DownloadableFile) : Option Artifact :=
  let url := file.downloadUrl.toList
  let path := url.takeWhile (· ≠ '?')
  if routePrefix.toList.isPrefixOf url && "/file".toList.isSuffixOf path && file.contentHash.length = 32 then
    some ⟨file.downloadUrl, file.contentHash⟩
  else none

/-- The part of a `ServerToAgent` the Gateway looks into: the file of each package, if packages are offered at all. -/
structure ServerToAgent where
  packagesAvailable : Option (List (Option DownloadableFile))

def artifacts (packages : List (Option DownloadableFile)) :
    List Artifact := (packages.filterMap id).filterMap Artifact.of

structure Offers where
  offers : Map InstanceUid (List Artifact)
  byHost : Map String (List InstanceUid)

namespace Offers

def empty : Offers := ⟨∅, ∅⟩

def drop (o : Offers) (uid : InstanceUid) (host : String) : Offers where
  offers := o.offers.erase uid
  byHost :=
    match o.byHost.lookup host with
    | none => o.byHost
    | some offered =>
      let offered := offered.filter (· ≠ uid)
      if offered.isEmpty then o.byHost.erase host else o.byHost.insert host offered

def record (o : Offers) (uid : InstanceUid) (host : String) (artifacts : List Artifact) : Offers :=
  if artifacts.isEmpty then o.drop uid host
  else
    { offers := o.offers.insert uid artifacts
      byHost := o.byHost.insert host (((o.byHost.lookup host).getD []).insert uid) }

def offeredTo (o : Offers) (host : String) (path : String) : Option Artifact :=
  (o.byHost.lookup host).bind fun uids =>
    (uids.filterMap o.offers.lookup).flatten.find? fun artifact => artifact.path = path

end Offers

abbrev Conn := Nat

structure Peer where
  host : Option String
  derived : String
  fin : End

def Peer.speaker (peer : Peer) : String := peer.host.getD peer.derived

inductive Downstream where
  | socket (conn : Conn)
  | exchange (conn : Conn) (number : Nat)
  deriving DecidableEq

def Downstream.conn : Downstream → Conn
  | .socket conn => conn
  | .exchange conn _ => conn

structure Route where
  downstream : Downstream
  host : Option String
  /-- Made by `expect_enrolment`, not by a bind; nothing reads it. -/
  enrolling : Bool

structure Call where
  uid : InstanceUid
  downstream : Downstream
  asked : Nat

structure Reply where
  uid : InstanceUid
  downstream : Downstream
  host : Option String
  message : ServerToAgent
  observed : Bool
  enrolling : Bool
  /-- The host the Agent was bound to, and relied on, when the route was taken; nothing reads it. -/
  boundTo : Option String

def asks : Nat := 3

structure Registry where
  cache : Cache
  offers : Offers
  routes : Map InstanceUid Route
  exchanges : Nat
  calls : Map BindId Call
  asking : List Call
  replies : List Reply
  /-- The last offer of artifacts recorded for each Agent; nothing reads it. -/
  recorded : Map InstanceUid (List Artifact)

def Bindings.reliedHost (b : Bindings) (uid : InstanceUid) : Option String :=
  ((b.bound.lookup uid).filter fun binding => !binding.pending).map Binding.host

def Cache.aborts (cache : Cache) (id : BindId) : Bool :=
  (cache.binds.lookup id).any fun bind =>
    bind.answer = some false && (cache.bindings.bound.lookup bind.uid).any Binding.pending

namespace Registry

def started (cache : Cache) : Registry where
  cache := cache
  offers := .empty
  routes := ∅
  exchanges := 0
  calls := ∅
  asking := []
  replies := []
  recorded := ∅

variable (peers : Conn → Peer) (limits : Limits) (r : Registry) (uid : InstanceUid)

def idle : Bool :=
  (r.routes.lookup uid).isNone && (r.offers.offers.lookup uid).isNone

def beginBind (r : Registry) (call : Call) (now : Int) : Registry :=
  let peer := peers call.downstream.conn
  match r.cache.beginBind limits call.uid peer.speaker peer.fin now r.idle with
  | (cache, .refused, _) => { r with cache := cache }
  | (cache, .bound id, _) => { r with cache := cache, calls := r.calls.insert id call }
  | (cache, .writing id, _) => { r with cache := cache, calls := r.calls.insert id call }
  | (cache, .waiting, _) =>
    { r with
      cache := cache
      asking := if call.asked < asks then r.asking ++ [{ call with asked := call.asked + 1 }] else r.asking }

def finishBind (r : Registry) (id : BindId) : Option Registry :=
  match r.calls.lookup id, r.cache.finishBind id with
  | some call, some (cache, bound) =>
    let peer := peers call.downstream.conn
    some { r with
      cache := cache
      calls := r.calls.erase id
      offers := if r.cache.aborts id then r.offers.drop call.uid peer.speaker else r.offers
      routes := if bound then r.routes.insert call.uid ⟨call.downstream, peer.host, false⟩ else r.routes }
  | _, _ => none

def expectEnrolment (conn : Conn) (uid : InstanceUid) : Registry :=
  if (r.routes.lookup uid).isSome || (r.cache.bindings.hostOf uid).isSome then r
  else
    { r with
      exchanges := r.exchanges + 1
      routes := r.routes.insert uid ⟨.exchange conn r.exchanges, none, true⟩ }

def abandon (number : Nat) : Registry :=
  match r.routes.lookup uid with
  | some ⟨.exchange _ current, _, _⟩ => if current = number then { r with routes := r.routes.erase uid } else r
  | _ => r

def detach (conn : Conn) (routes : Map InstanceUid Route) (uid : InstanceUid) : Map InstanceUid Route :=
  match routes.lookup uid with
  | some ⟨.socket own, _, _⟩ => if own = conn then routes.erase uid else routes
  | _ => routes

def detachAll (conn : Conn) (uids : List InstanceUid) : Registry :=
  { r with routes := uids.foldl (detach conn) r.routes }

def endCertificates (r : Registry) (now : Int) (revoked : Option (End → Bool)) : Registry :=
  let (cache, uids) := r.cache.endCertificates now revoked
  let held := (r.cache.bindings.endAll now revoked).2.flatMap fun e => e.2.map fun uid => (uid, e.1)
  { r with
    cache := cache
    offers := held.foldl (fun o e => o.drop e.1 e.2) r.offers
    routes := uids.foldl (fun routes uid => routes.erase uid) r.routes }

/-! The three parts of `deliver`. -/

def take (message : ServerToAgent) : Registry :=
  match r.routes.lookup uid with
  | none => r
  | some route =>
    { r with
      routes := match route.downstream with
        | .exchange _ _ => r.routes.erase uid
        | .socket _ => r.routes
      replies := r.replies ++ [{
        uid := uid
        downstream := route.downstream
        host := route.host
        message := message
        observed := false
        enrolling := route.enrolling
        boundTo := r.cache.bindings.reliedHost uid }] }

/-- `PackageCache::observe`. An offer is recorded for a binding that is relied on. -/
def observe (host : Option String) (message : ServerToAgent) : Registry :=
  match message.packagesAvailable, host with
  | some packages, some host =>
    if r.cache.bindings.holds uid host then
      { r with
        offers := r.offers.record uid host (artifacts packages)
        recorded :=
          if (artifacts packages).isEmpty then r.recorded else r.recorded.insert uid (artifacts packages) }
    else r
  | _, _ => r

def observeReply (n : Nat) : Option Registry :=
  match r.replies[n]? with
  | some reply =>
    if reply.observed then none
    else some { r.observe reply.uid reply.host reply.message with
      replies := r.replies.set n { reply with observed := true } }
  | none => none

def hand (n : Nat) : Option Registry :=
  match r.replies[n]? with
  | some reply => if reply.observed then some { r with replies := r.replies.eraseIdx n } else none
  | none => none

inductive Act where
  | attach (conn : Conn) (uid : InstanceUid) (now : Int)
  | expectOnce (conn : Conn) (uid : InstanceUid) (now : Int)
  | askAgain (n : Nat) (now : Int)
  | finishBind (id : BindId)
  | expectEnrolment (conn : Conn) (uid : InstanceUid)
  | abandon (uid : InstanceUid) (number : Nat)
  | detachAll (conn : Conn) (uids : List InstanceUid)
  | endCertificates (now : Int) (revoked : Option (End → Bool))
  | take (uid : InstanceUid) (message : ServerToAgent)
  | observe (n : Nat)
  | hand (n : Nat)
  /-- The reports and the store writer, which no route waits for. -/
  | takeReports
  | queueReports
  | flush
  | append (io : AppendIo)
  | settle
  | copy
  | rewrite (io : RewriteIo)
  | settleRewrite
  | measure
  | restart (now : Int) (io : RewriteIo)

def Act.ofStore : Act → Option Gateway.Act
  | .takeReports => some .takeReports
  | .queueReports => some .queueReports
  | .flush => some .flush
  | .append io => some (.append io)
  | .settle => some .settle
  | .copy => some .copy
  | .rewrite io => some (.rewrite io)
  | .settleRewrite => some .settleRewrite
  | .measure => some .measure
  | _ => none

def step (r : Registry) : Act → Option Registry
  | .attach conn uid now => some (r.beginBind peers limits ⟨uid, .socket conn, 0⟩ now)
  | .expectOnce conn uid now =>
    some (({ r with exchanges := r.exchanges + 1 } : Registry).beginBind peers limits
      ⟨uid, .exchange conn r.exchanges, 0⟩ now)
  | .askAgain n now =>
    r.asking[n]?.map fun call => ({ r with asking := r.asking.eraseIdx n } : Registry).beginBind peers limits call now
  | .finishBind id => r.finishBind peers id
  | .expectEnrolment conn uid => some (r.expectEnrolment conn uid)
  | .abandon uid number => some (r.abandon uid number)
  | .detachAll conn uids => some (r.detachAll conn uids)
  | .endCertificates now revoked => some (r.endCertificates now revoked)
  | .take uid message => some (r.take uid message)
  | .observe n => r.observeReply n
  | .hand n => r.hand n
  | .restart now io => some (started (Cache.openStore r.cache.file now io))
  | act => act.ofStore.bind fun act => (r.cache.step limits act).map fun cache => { r with cache := cache }

def start : Registry := started .start

end Registry

end OpampFleet.Gateway
