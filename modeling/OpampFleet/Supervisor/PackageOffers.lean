import OpampFleet.Core.Version
import OpampFleet.Lib.Map
import OpampFleet.Lib.Transition

/-!
# Package offers to one Agent, and the outcomes of their installs

The model of the package channel of the Client's `supervisor/agent/packages.rs` (an offer judged, then taken or refused;
the outcome of an install; the status that is reported), of the high-water marks it shares with the Client's other
Supervisors (`storage.rs`) and of the Engine between the two (`engine.rs`): downloads queue up, each goes to the
Supervisor once it is verified, and the Supervisor ends them in the order they were handed over. One that waits for the
second service is dropped without an outcome when a newer one arrives.

`quote` stands for the way a text is shown in an error, `current` for the version of the running Client.
-/

namespace OpampFleet.Supervisor.Agent

open Lib Core Version

inductive PackageType where
  | topLevel
  | addon
  deriving DecidableEq

structure DownloadableFile where
  downloadUrl : String
  contentHash : Bytes
  signature : Bytes
  headers : List (String × String)

structure PackageAvailable where
  type : PackageType
  version : String
  file : Option DownloadableFile
  hash : Bytes

structure PackagesAvailable where
  packages : List (String × PackageAvailable)
  allPackagesHash : Bytes

def PackagesAvailable.topLevel (offer : PackagesAvailable) : List (String × PackageAvailable) :=
  offer.packages.filter fun package => package.2.type ≠ .addon

structure PackageDownload where
  name : String
  version : String
  hash : Bytes
  downloadUrl : String
  contentHash : Bytes
  signature : Bytes
  headers : List (String × String)

structure InstalledPackage where
  name : String
  version : String
  hashHex : String

def InstalledPackage.hash (package : InstalledPackage) : Bytes := (hexBytes package.hashHex.toList).getD []

/-- The highest version installed of each Agent type, or why the file cannot be read; what is read is SemVer. -/
structure HighWater where
  marks : Except String (Map String String)
  semver : ∀ m, marks = .ok m → ∀ agentType version, m.lookup agentType = some version →
    isSemver version = true

namespace HighWater

def mark (h : HighWater) (agentType : String) : Except String (Option String) :=
  h.marks.map fun m => m.lookup agentType

def higher (m : Map String String) (agentType version : String) : Bool :=
  (m.lookup agentType).all fun mark => precedence version mark = some .gt

def raise (h : HighWater) (agentType version : String) : HighWater :=
  match hmarks : h.marks with
  | .error _ => h
  | .ok m =>
    if hraise : isSemver version = true ∧ higher m agentType version = true then
      { marks := .ok (m.insert agentType version)
        semver := by
          rintro _ ⟨⟩
          exact Map.forall_lookup_insert hraise.1 (h.semver m hmarks) }
    else h

end HighWater

/-- The floor the operator signed for each Agent type, or why the file cannot be read. -/
abbrev Floors := Except String (Map String String)

structure PackageDownloadDetails where
  downloadPercent : Nat
  downloadBytesPerSecond : Nat

structure Local where
  serviceName : String
  managed : Bool
  acceptsPackages : Bool
  /-- The only package the Client's own Agent takes; none for a Supervisor. -/
  expectedPackage : Option String
  offeredName : Option String
  installedPackage : Option InstalledPackage
  downloading : Option PackageDownloadDetails
  installing : Option PackageDownload
  offeredAllPackagesHash : Bytes
  echoedAllPackagesHash : Bytes
  serverOffered : Option (String × Bytes)
  packageError : String
  offerError : String
  highWater : Option HighWater
  floors : Option Floors
  waiting : String

namespace Local

def new (serviceName : String) (managed : Bool) (highWater : Option HighWater) (floors : Option Floors) : Local where
  serviceName := serviceName
  managed := managed
  acceptsPackages := false
  expectedPackage := none
  offeredName := none
  installedPackage := none
  downloading := none
  installing := none
  offeredAllPackagesHash := []
  echoedAllPackagesHash := []
  serverOffered := none
  packageError := ""
  offerError := ""
  highWater := highWater
  floors := floors
  waiting := ""

variable (current : String) (quote : String → String) (l : Local)

def raiseMark (agentType version : String) : Local :=
  { l with highWater := l.highWater.map fun h => h.raise agentType version }

def restoreSupervisorRecord : Local :=
  match l.installedPackage with
  | none => l
  | some installed =>
    if isSemver installed.version then l.raiseMark l.serviceName installed.version
    else { l with installedPackage := none }

def acceptPackages (record : Option InstalledPackage) : Local :=
  let l := { l with acceptsPackages := true, installedPackage := record }
  if l.managed then l.restoreSupervisorRecord else l

/-- What the Client's own Agent does: a record that does not name the running version is dropped. -/
def acceptPackagesNamed (record : Option InstalledPackage) (name : String) : Local :=
  let l := l.acceptPackages record
  { l with
    installedPackage := l.installedPackage.filter fun installed => sameRelease installed.version current
    expectedPackage := some name }

def mark (l : Local) : Except String (Option String) :=
  match l.highWater with
  | none => .ok none
  | some marks => marks.mark l.serviceName

def knownMark : Option String := l.mark.toOption.join

def floorRefusal (version : String) : Option String :=
  if l.expectedPackage.isSome then none
  else
    l.floors.bind fun floors =>
      match floors.map fun m => m.lookup l.serviceName with
      | .error reason => some reason
      | .ok none => none
      | .ok (some floor) =>
        if precedence version floor = some .lt then
          some s!"the Server offered {l.serviceName} {version}, below {floor}, the floor the operator signed for {quote l.serviceName} — no package below it is taken"
        else none

def alreadyHas (available : PackageAvailable) : Bool :=
  if l.expectedPackage.isSome then sameRelease current available.version
  else (l.installedPackage.map InstalledPackage.hash) = some available.hash

inductive Verdict where
  | nothing
  | refused (error : String)
  | belowFloor (name : String) (available : PackageAvailable) (reason : String)
  | has (name : String) (available : PackageAvailable)
  | inFlight (name : String) (available : PackageAvailable)
  | noFile (name : String) (available : PackageAvailable)
  | take (name : String) (available : PackageAvailable) (download : PackageDownload)

def supervisorRefusal (current : String) (l : Local) (name : String) (available : PackageAvailable) : Option Verdict :=
  match l.mark with
  | .error reason => some (.refused reason)
  | .ok mark =>
    if name ≠ l.serviceName then
      some (.refused s!"this Agent is a {quote l.serviceName}; the Server offered a package for {quote name}")
    else if !isSemver available.version then
      some (.refused s!"the Server offered {name} {quote available.version}, which is not SemVer — a package version is a SemVer 2.0.0 version, and no other is taken")
    else
      match l.installedPackage.filter fun installed =>
          precedence available.version installed.version = some .lt with
      | some installed =>
        some (.refused s!"the Server offered {name} {available.version}, older than the {installed.version} installed — a downgrade is not taken")
      | none =>
        match mark.filter fun mark => precedence available.version mark = some .lt with
        | some mark =>
          some (.refused s!"the Server offered {name} {available.version}, below {mark}, the highest version this Client has installed for {quote name} — a downgrade is not taken")
        | none =>
          ((l.floorRefusal quote available.version).filter fun _ => !l.alreadyHas current available).map fun reason =>
            .belowFloor name available reason

def judgeUsable (name : String) (available : PackageAvailable) : Verdict :=
  if l.alreadyHas current available then .has name available
  else if l.installing.any fun d => d.hash = available.hash then .inFlight name available
  else
    match available.file with
    | none => .noFile name available
    | some file =>
      .take name available
        { name := name
          version := available.version
          hash := available.hash
          downloadUrl := file.downloadUrl
          contentHash := file.contentHash
          signature := file.signature
          headers := file.headers }

def judge (current : String) (l : Local) (offer : PackagesAvailable) : Verdict :=
  match offer.topLevel with
  | [] =>
    if offer.packages.isEmpty then .nothing
    else .refused "this Client installs top-level packages only; the offer carries addons only"
  | (name, _) :: (second, _) :: _ =>
    .refused s!"the Server offered two top-level packages ({quote name} and {quote second}); an Agent has one binary to replace"
  | [(name, available)] =>
    match l.expectedPackage with
    | some expected =>
      if expected ≠ name then
        .refused s!"this Agent installs only the package {quote expected}; the Server offered {quote name}"
      else l.judgeUsable current name available
    | none => (l.supervisorRefusal quote current name available).getD (l.judgeUsable current name available)

/-- A usable offer clears what the last unusable one complained about. -/
def usable (name : String) (available : PackageAvailable) : Local :=
  { l with offerError := "", offeredName := some name, serverOffered := some (available.version, available.hash) }

def handlePackageOffer (current : String) (l : Local) (offer : PackagesAvailable) : Local × Option PackageDownload :=
  if !l.acceptsPackages then (l, none)
  else
    let verdict := l.judge quote current offer
    let l := { l with offeredAllPackagesHash := offer.allPackagesHash }
    let echoed := { l with echoedAllPackagesHash := offer.allPackagesHash }
    match verdict with
    | .nothing => (echoed, none)
    | .refused error => ({ echoed with installing := none, offerError := error }, none)
    | .belowFloor name available reason =>
      ({ echoed.usable name available with installing := none, downloading := none, packageError := reason }, none)
    | .has name available => (echoed.usable name available, none)
    | .inFlight name available => (l.usable name available, none)
    | .noFile name available => (l.usable name available, none)
    | .take name available download =>
      ({ l.usable name available with installing := some download, packageError := "" }, some download)

def packageDownloading (details : PackageDownloadDetails) : Local := { l with downloading := some details }

def packageWaits (reason : String) : Local :=
  if l.installing.isNone || l.downloading.isSome || l.packageError = reason then l
  else { l with packageError := reason }

def packageDownloaded : Local := { l with downloading := none }.packageWaits l.waiting

def setWaiting (waiting : String) : Local := { l with waiting := waiting }.packageWaits waiting

def packageName : Option String :=
  (l.installing.map PackageDownload.name).or <|
    (l.installedPackage.map InstalledPackage.name).or <| l.offeredName.or l.expectedPackage

/-- The end of an install: the aggregate offered last is echoed either way. -/
def packageApplied (hash : Bytes) (result : Except String String) : Local :=
  let l :=
    { l with
      offeredName := (l.installing.map PackageDownload.name).or l.offeredName
      installing := none
      downloading := none }
  let l : Local :=
    match result with
    | .ok version =>
      let raised := if l.expectedPackage.isNone then l.raiseMark l.serviceName version else l
      { raised with
        installedPackage := some ⟨l.packageName.getD "", version, hexText hash⟩
        packageError := "" }
    | .error error => { l with packageError := error }
  { l with echoedAllPackagesHash := l.offeredAllPackagesHash }

inductive PackageStatusEnum where
  | installed
  | installPending
  | installing
  | installFailed
  | downloading
  deriving DecidableEq

structure PackageStatus where
  name : String
  agentHasVersion : String
  agentHasHash : Bytes
  serverOfferedVersion : String
  serverOfferedHash : Bytes
  status : PackageStatusEnum
  errorMessage : String
  downloadDetails : Option PackageDownloadDetails

structure PackageStatuses where
  packages : List (String × PackageStatus)
  serverProvidedAllPackagesHash : Bytes
  errorMessage : String

/-- What the Agent runs: the last install, or for the Client the version it is. -/
def agentHas : String × Bytes :=
  match l.installedPackage with
  | some installed => (installed.version, installed.hash)
  | none =>
    ((l.expectedPackage.bind fun _ => identityOf current).map fun version =>
      (String.ofList version, [])).getD ("", [])

def packageStatus : PackageStatusEnum :=
  if l.downloading.isSome then .downloading
  else if l.installing.isSome then .installing
  else if l.packageError ≠ "" then .installFailed
  else if (l.agentHas current).1 ≠ "" then .installed
  else .installPending

def packageStatuses : PackageStatuses where
  packages :=
    match l.packageName with
    | none => []
    | some name =>
      let offered := l.serverOffered.getD ("", [])
      [(name,
        { name := name
          agentHasVersion := (l.agentHas current).1
          agentHasHash := (l.agentHas current).2
          serverOfferedVersion := offered.1
          serverOfferedHash := offered.2
          status := l.packageStatus current
          errorMessage := l.packageError
          downloadDetails := l.downloading })]
  serverProvidedAllPackagesHash := l.echoedAllPackagesHash
  errorMessage := l.offerError

end Local

structure Flight where
  serial : Nat
  download : PackageDownload

structure Offered where
  allPackagesHash : Bytes
  waitsFor : Option Nat
  settled : Bool
  reported : Bool

structure Install where
  version : String
  mark : Option String

structure Channel where
  agent : Local
  pending : List Flight
  handed : List Flight
  taken : Nat
  offers : List Offered
  installs : List Install

inductive HandOver where
  | accepted
  | refused
  | noProcess
  deriving DecidableEq

def HandOver.error : HandOver → Option String
  | .accepted => none
  | .refused => some "the supervisor is not accepting commands"
  | .noProcess => some "this agent has no process to install a package into"

namespace Local.Verdict

def settles : Verdict → Bool
  | .nothing | .refused _ | .belowFloor _ _ _ | .has _ _ => true
  | .inFlight _ _ | .noFile _ _ | .take _ _ _ => false

def waitsFor (taken : Nat) : Verdict → Option Nat
  | .inFlight _ _ => some taken
  | .take _ _ _ => some (taken + 1)
  | .nothing | .refused _ | .belowFloor _ _ _ | .has _ _ | .noFile _ _ => none

end Local.Verdict

def unreported (offers : List Offered) : List Offered := offers.map fun o => { o with reported := false }

def reportNewest : List Offered → List Offered
  | [] => []
  | newest :: rest => { newest with reported := true } :: unreported rest

def settle (serial : Nat) (offers : List Offered) : List Offered :=
  offers.map fun o => { o with settled := o.settled || o.waitsFor = some serial }

namespace Channel

def start (agent : Local) : Channel := ⟨agent, [], [], 0, [], []⟩

variable (quote : String → String) (s : Channel)

def flights : List Flight := s.handed ++ s.pending

def receive (current : String) (s : Channel) (offer : PackagesAvailable) : Channel :=
  if !s.agent.acceptsPackages then s
  else
    let verdict := s.agent.judge quote current offer
    let (agent, download) := s.agent.handlePackageOffer quote current offer
    let received : Offered := ⟨offer.allPackagesHash, verdict.waitsFor s.taken, verdict.settles, verdict.settles⟩
    { s with
      agent := agent
      pending := s.pending ++ (download.map fun d => ⟨s.taken + 1, d⟩).toList
      taken := s.taken + (if download.isSome then 1 else 0)
      offers := received :: (if verdict.settles then unreported s.offers else s.offers) }

def applied (flight : Flight) (result : Except String String) : Channel :=
  { s with
    agent := s.agent.packageApplied flight.download.hash result
    offers := reportNewest (settle flight.serial s.offers)
    installs :=
      match result with
      | .ok version => ⟨version, s.agent.knownMark⟩ :: s.installs
      | .error _ => s.installs }

def holdOne (flight : Flight) : Channel :=
  match s.agent.floorRefusal quote flight.download.version with
  | some reason => s.applied flight (.error reason)
  | none => { s with pending := s.pending ++ [flight] }

def holdDownloadsToFloors : Channel :=
  s.pending.foldl (fun s flight => s.holdOne quote flight) { s with pending := [] }

def applyPackage (flight : Flight) (handOver : HandOver) : Channel :=
  let s := { s with agent := s.agent.packageDownloaded }
  match handOver.error with
  | none => { s with handed := s.handed ++ [flight] }
  | some error => s.applied flight (.error error)

inductive Act where
  | offer (offer : PackagesAvailable)
  | holdDownloads
  | downloading (details : PackageDownloadDetails)
  | downloaded (handOver : HandOver)
  | downloadFailed (error : String)
  | ended (error : Option String)
  | replaced
  | waiting (reason : String)
  | floors (floors : Floors)
  | raised (agentType version : String)

def step (current : String) (s : Channel) : Act → Option Channel
  | .offer offer => some (s.receive quote current offer)
  | .holdDownloads => some (s.holdDownloadsToFloors quote)
  | .downloading details => some { s with agent := s.agent.packageDownloading details }
  | .downloaded handOver =>
    match s.pending with
    | [] => none
    | flight :: rest => some ({ s with pending := rest }.applyPackage flight handOver)
  | .downloadFailed error =>
    match s.pending with
    | [] => none
    | flight :: rest => some ({ s with pending := rest }.applied flight (.error error))
  | .ended error =>
    match s.handed with
    | [] => none
    | flight :: rest =>
      some ({ s with handed := rest }.applied flight (error.elim (.ok flight.download.version) .error))
  | .replaced =>
    match s.handed with
    | _ :: newer :: rest => some { s with handed := newer :: rest }
    | _ => none
  | .waiting reason => some { s with agent := s.agent.setWaiting reason }
  | .floors floors => some { s with agent := { s.agent with floors := s.agent.floors.map fun _ => floors } }
  | .raised agentType version => some { s with agent := s.agent.raiseMark agentType version }

def refusedSerials (agent : Local) (flights : List Flight) : List Nat :=
  (flights.filter fun f => (agent.floorRefusal quote f.download.version).isSome).map Flight.serial

def ends : Act → List Nat
  | .holdDownloads => refusedSerials quote s.agent s.pending
  | .downloaded handOver => if handOver.error.isSome then (s.pending.head?.map Flight.serial).toList else []
  | .downloadFailed _ => (s.pending.head?.map Flight.serial).toList
  | .ended _ => (s.handed.head?.map Flight.serial).toList
  | _ => []

end Channel

/-! ### What a step comes to -/

namespace Local

structure SameBounds (l l' : Local) : Prop where
  expected : l'.expectedPackage = l.expectedPackage
  installed : l'.installedPackage = l.installedPackage
  highWater : l'.highWater = l.highWater
  service : l'.serviceName = l.serviceName

structure SameOffers (l l' : Local) : Prop extends SameBounds l l' where
  offered : l'.offeredAllPackagesHash = l.offeredAllPackagesHash
  echoed : l'.echoedAllPackagesHash = l.echoedAllPackagesHash

namespace SameOffers

lemma refl (l : Local) : SameOffers l l := ⟨⟨rfl, rfl, rfl, rfl⟩, rfl, rfl⟩

private lemma packageWaits (l : Local) (reason : String) : SameOffers l (l.packageWaits reason) := by
  unfold Local.packageWaits
  split <;> exact ⟨⟨rfl, rfl, rfl, rfl⟩, rfl, rfl⟩

private lemma packageDownloaded (l : Local) : SameOffers l l.packageDownloaded :=
  have h := packageWaits { l with downloading := none } l.waiting
  ⟨{ h with }, h.offered, h.echoed⟩

private lemma setWaiting (l : Local) (waiting : String) : SameOffers l (l.setWaiting waiting) :=
  have h := packageWaits { l with waiting := waiting } waiting
  ⟨{ h with }, h.offered, h.echoed⟩

end SameOffers

end Local

namespace Channel

structure Passes (s t : Channel) : Prop where
  agent : s.agent.SameOffers t.agent
  flights : t.flights.Sublist s.flights
  offers : t.offers = s.offers
  installs : t.installs = s.installs

inductive Steps (quote : String → String) (current : String) (s : Channel) : Act → Channel → Prop
  | offer (offer : PackagesAvailable) : Steps quote current s (.offer offer) (s.receive quote current offer)
  | hold : Steps quote current s .holdDownloads (s.holdDownloadsToFloors quote)
  | raised (agentType version : String) :
      Steps quote current s (.raised agentType version) { s with agent := s.agent.raiseMark agentType version }
  | passes {act : Act} {t : Channel} (passes : s.Passes t) : Steps quote current s act t
  | failed {act : Act} {t : Channel} {flight : Flight} (error : String) (passes : s.Passes t)
      (ends : s.ends quote act = [flight.serial]) : Steps quote current s act (t.applied flight (.error error))
  | installed {flight : Flight} {rest : List Flight} (handed : s.handed = flight :: rest) :
      Steps quote current s (.ended none) ({ s with handed := rest }.applied flight (.ok flight.download.version))

/-- Every act is one of `Steps`. -/
lemma steps_of_step {quote : String → String} {current : String} {s t : Channel} {act : Act}
    (h : s.step quote current act = some t) : Steps quote current s act t := by
  cases act with
  | offer offer =>
    cases h
    exact .offer offer
  | holdDownloads =>
    cases h
    exact .hold
  | downloading details | floors floors =>
    cases h
    exact .passes ⟨⟨⟨rfl, rfl, rfl, rfl⟩, rfl, rfl⟩, List.Sublist.refl _, rfl, rfl⟩
  | downloaded handOver =>
    simp only [step] at h
    split at h
    · cases h
    rename_i flight rest hpending
    cases h
    unfold applyPackage
    split
    · exact .passes ⟨.packageDownloaded s.agent, by simp [flights, hpending], rfl, rfl⟩
    next error herror =>
      exact .failed error ⟨.packageDownloaded s.agent, by simp [flights, hpending], rfl, rfl⟩
        (by simp [ends, herror, hpending])
  | downloadFailed error =>
    simp only [step] at h
    split at h
    · cases h
    next flight rest hpending =>
      cases h
      exact .failed error ⟨.refl s.agent, by simp [flights, hpending], rfl, rfl⟩ (by simp [ends, hpending])
  | ended error =>
    simp only [step] at h
    split at h
    · cases h
    rename_i flight rest hhanded
    cases h
    cases error with
    | none => exact .installed hhanded
    | some error =>
      exact .failed error ⟨.refl s.agent, by simp [flights, hhanded], rfl, rfl⟩ (by simp [ends, hhanded])
  | replaced =>
    simp only [step] at h
    split at h
    next hhanded =>
      cases h
      exact .passes ⟨.refl s.agent, by simp [flights, hhanded], rfl, rfl⟩
    · cases h
  | waiting reason =>
    cases h
    exact .passes ⟨.setWaiting s.agent reason, List.Sublist.refl _, rfl, rfl⟩
  | raised agentType version =>
    cases h
    exact .raised agentType version

end Channel

end OpampFleet.Supervisor.Agent
