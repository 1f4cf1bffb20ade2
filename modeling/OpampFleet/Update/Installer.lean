import OpampFleet.Core.Version
import OpampFleet.Lib.Map
import OpampFleet.Lib.Transition

/-!
# The Client's self-update

The model of the Client's `update/installer.rs` with the `current` pointer of `service/layout.rs`, as a system that
takes one step at a time: a step is one access to the disk, and between two of them the process may end, by a crash or
by its own exit. The service manager starts what the pointer names. Record writes succeed when they are reached.

On Unix the pointer is replaced in one step. On Windows the junction is removed and then created again.

The version directories of one layout are named by their last component. What a version directory holds is a `Program`:
the version it was built as, and how it answers the self-check.
-/

namespace OpampFleet.Update

open Core Lib

abbrev Dir := String

inductive Platform where
  | unix
  | windows
  deriving DecidableEq

structure Host where
  platform : Platform
  root : String
  quote : String → String

namespace Host

def display (host : Host) (dir : Dir) : String := host.root ++ "/versions/" ++ dir

def isSeparator (host : Host) (c : Char) : Bool := c = '/' || (host.platform = .windows && c = '\\')

end Host

/-- `supervisor-<MAJOR.MINOR.PATCH>-<hash>`, without the pre-release. -/
def versionDirName (fullVersion : String) : Dir :=
  let (base, metadata) := (Version.splitOnce '+' fullVersion.toList).getD (fullVersion.toList, [])
  let core := ((Version.splitOnce '-' base).map Prod.fst).getD base
  if metadata.isEmpty then "supervisor-" ++ String.ofList core
  else "supervisor-" ++ String.ofList core ++ "-" ++ String.ofList metadata

def selfCheckToken : String := "supervisor self-check ok version="

/-- What follows the token on the first line that starts with it. A line's own `\r` goes with the blanks around it. -/
def reported (stdout : String) : Option String :=
  (stdout.toList.splitOn '\n').findSome? fun line =>
    let line := trim line
    if line.take selfCheckToken.length = selfCheckToken.toList then
      some (String.ofList (trim (line.drop selfCheckToken.length)))
    else none

structure Output where
  failure : Option String
  stdout : String

structure Program where
  version : String
  /-- Running it as `self-check`; an error when it does not run. -/
  selfCheck : Except String Output
  /-- A Client answers the self-check with its own version. -/
  answers : ∀ output v, selfCheck = .ok output → reported output.stdout = some v → v = version

def probe (host : Host) (program : Program) (dir : Dir) (expected : String) : Except String Unit :=
  match program.selfCheck with
  | .error e => .error ("the staged binary " ++ host.display dir ++ "/supervisor does not run: " ++ e)
  | .ok output =>
    match output.failure with
    | some status => .error ("the staged binary answered the self-check with " ++ status)
    | none =>
      match reported output.stdout with
      | none => .error "the staged binary is not an OpAMP Fleet Client: it did not answer the self-check"
      | some v =>
        if Version.sameRelease v expected then .ok ()
        else .error ("the staged binary reports version " ++ host.quote v ++ ", but the package offered " ++
          host.quote expected)

/-- A probe that passes is of the expected release. -/
lemma sameRelease_of_probe {host : Host} {program : Program} {dir : Dir} {expected : String}
    (h : probe host program dir expected = .ok ()) : Version.sameRelease program.version expected = true := by
  unfold probe at h
  split at h
  · cases h
  rename_i output houtput
  split at h
  · cases h
  split at h
  · cases h
  rename_i v hv
  split at h
  next hsame =>
    rwa [← program.answers output v houtput hv]
  · cases h

structure UpdateMarker where
  previousDir : Dir
  newDir : Dir
  version : String
  packageHashHex : String
  attempts : Nat
  deriving DecidableEq

structure UpdateOutcome where
  version : String
  packageHashHex : String
  error : Option String
  deriving DecidableEq

def maxAttempts : Nat := 3

structure Offer where
  version : String
  hash : Bytes
  floor : Except String (Option String)

inductive Purpose where
  | heal
  | switch
  | back (marker : UpdateMarker) (reason : String)

inductive After where
  | run
  | report
  | leave
  deriving DecidableEq

inductive Phase where
  | started
  | healed
  | pointing (dir : Dir) (purpose : Purpose)
  /-- On Windows: the junction is removed. -/
  | linking (dir : Dir) (purpose : Purpose)
  | counting (marker : UpdateMarker)
  | removing (marker : UpdateMarker) (error : Option String) (after : After)
  | recording (outcome : UpdateOutcome) (after : After)
  | reporting (outcome : UpdateOutcome)
  /-- The daemon body, with the marker it commits if it is on probation. -/
  | running (probation : Option UpdateMarker)
  | staging (offer : Offer) (program : Program) (dir : Dir)
  | probing (offer : Offer) (dir : Dir)
  | marking (offer : Offer) (dir : Dir)

structure Process where
  version : String
  dir : Dir
  phase : Phase

structure UpdateRun where
  marker : UpdateMarker
  starts : Nat
  committed : Bool

def UpdateRun.counted (u : UpdateRun) : UpdateRun := { u with starts := u.starts + 1 }

def UpdateRun.finished (error : Option String) (u : UpdateRun) : UpdateRun := { u with committed := error.isNone }

structure Install where
  current : Option Dir
  programs : Map Dir Program
  marker : Option UpdateMarker
  outcome : Option UpdateOutcome
  process : Option Process
  proved : List (Dir × Program)
  update : Option UpdateRun
  recorded : List UpdateOutcome

namespace Install

def start (first : Dir × Program) (programs : Map Dir Program) (outcome : Option UpdateOutcome) : Install :=
  ⟨some first.1, programs.insert first.1 first.2, none, outcome, none, [], none, []⟩

def namesAnother (s : Install) (dir : Dir) : Bool := s.current.any (· ≠ dir)

def enter (s : Install) (p : Process) (phase : Phase) : Install := { s with process := some { p with phase := phase } }

variable (host : Host) (p : Process) (marker : UpdateMarker)

def checkVersion (running : String) (offer : Offer) : Except String Unit :=
  if !Version.isSemver offer.version then
    .error ("the offered version " ++ host.quote offer.version ++
      " is not a valid version — a package version is a SemVer 2.0.0 version; refusing to self-update")
  else if Version.precedence offer.version running = some .lt then
    .error ("the offered version " ++ host.quote offer.version ++ " is older than the running " ++ host.quote running ++
      "; refusing to downgrade")
  else
    match offer.floor with
    | .error e => .error e
    | .ok none => .ok ()
    | .ok (some floor) =>
      if Version.precedence offer.version floor = some .lt then
        .error ("the offered version " ++ host.quote offer.version ++ " is below " ++ floor ++
          ", the floor the operator signed for this Client's Agent type; refusing to self-update")
      else .ok ()

def target (offer : Offer) : Except String (Option Dir) :=
  match checkVersion host p.version offer with
  | .error e => .error e
  | .ok () =>
    let dir := versionDirName offer.version
    if dir.toList.any host.isSeparator then
      .error ("the offered version " ++ host.quote offer.version ++
        " does not map to a directory under " ++ host.root ++
        "/versions")
    else if dir = p.dir then .ok none
    else .ok (some dir)

def newMarker (offer : Offer) (dir : Dir) : UpdateMarker :=
  ⟨p.dir, dir, offer.version, hexText offer.hash, 0⟩

/-- The process that came up is the update the marker describes, by its directory and by its own word. -/
def tookOver : Bool :=
  Version.sameRelease p.version marker.version && p.dir = marker.newDir

def notTakenOver : String :=
  "the new version " ++ marker.version ++ " did not take over; running " ++ p.version ++ " from " ++
    host.display p.dir ++
    " instead"

def notStaying : String :=
  "the new version " ++ marker.version ++ " did not stay up after " ++ toString maxAttempts ++ " attempts"

def onStartAs (s : Install) (p : Process) : Phase :=
  match s.marker with
  | none =>
    match s.outcome with
    | none => .running none
    | some outcome => .reporting outcome
  | some marker =>
    let marker := { marker with attempts := marker.attempts + 1 }
    if !tookOver p marker then .removing marker (some (notTakenOver host p marker)) .report
    else if maxAttempts < marker.attempts then .pointing marker.previousDir (.back marker (notStaying marker))
    else .counting marker

def pointed (s : Install) (p : Process) (dir : Dir) (purpose : Purpose) : Install :=
  { s with current := some dir }.enter p (match purpose with
    | .heal => .healed
    | .switch => .running none
    | .back marker reason => .removing marker (some reason) .leave)

def notPointed (s : Install) (p : Process) (purpose : Purpose) : Install :=
  match purpose with
  | .heal => s.enter p .healed
  | .switch => s.enter p (.running none)
  | .back _ _ => { s with process := none }

/-- The first half of `set_current`: all of it on Unix. -/
def setCurrent (s : Install) (p : Process) (dir : Dir) (purpose : Purpose) (ok : Bool) : Install :=
  match host.platform with
  | .unix => if ok then s.pointed p dir purpose else s.notPointed p purpose
  | .windows =>
    if s.current.isNone then s.enter p (.linking dir purpose)
    else if ok then { s with current := none }.enter p (.linking dir purpose)
    else s.notPointed p purpose

def record (s : Install) (p : Process) (outcome : UpdateOutcome) (after : After) : Install :=
  let s := { s with outcome := some outcome, recorded := outcome :: s.recorded }
  match after with
  | .run => s.enter p (.running none)
  | .report => s.enter p (.reporting outcome)
  | .leave => { s with process := none }

inductive Act where
  | start
  | heal
  | resolve
  | setCurrent (ok : Bool)
  | link (ok : Bool)
  | store
  | remove
  | record
  | clear
  | answered
  | offer (offer : Offer) (program : Program)
  | unpack (left : Option Program)
  | stage (result : Except String Unit)
  | probe
  | crash

def processStep (s : Install) (p : Process) : Phase → Act → Option Install
  | .started, .heal =>
    if s.current = some p.dir then some (s.enter p .healed) else some (s.enter p (.pointing p.dir .heal))
  | .pointing dir purpose, .setCurrent ok => some (s.setCurrent host p dir purpose ok)
  | .linking dir purpose, .link ok =>
    if ok then some (s.pointed p dir purpose) else some (s.notPointed p purpose)
  | .healed, .resolve => some (s.enter p (onStartAs host s p))
  | .counting marker, .store =>
    some ({ s with
      marker := some marker
      update := s.update.map UpdateRun.counted }.enter p (.running (some marker)))
  | .removing marker error after, .remove =>
    some ({ s with
      marker := none
      update := s.update.map (UpdateRun.finished error) }.enter p
        (.recording ⟨marker.version, marker.packageHashHex, error⟩ after))
  | .recording outcome after, .record => some (s.record p outcome after)
  | .reporting _, .clear => some ({ s with outcome := none }.enter p (.running none))
  | .running (some marker), .answered => some (s.enter p (.removing marker none .run))
  -- also once an install has switched the pointer, when the connection is lost before the run ends
  | .running none, .offer offer program =>
    match target host p offer with
    | .ok (some dir) => some (s.enter p (.staging offer program dir))
    | _ => some s
  | .staging offer program dir, .unpack left =>
    some ({ s with
      programs := match left with
        | none => s.programs.erase dir
        | some torn => s.programs.insert dir torn }.enter p (.staging offer program dir))
  | .staging offer program dir, .stage result =>
    match result with
    | .ok () => some ({ s with programs := s.programs.insert dir program }.enter p (.probing offer dir))
    | .error _ => some (s.enter p (.running none))
  | .probing offer dir, .probe =>
    (s.programs.lookup dir).map fun program =>
      match Update.probe host program dir offer.version with
      | .ok () => { s with proved := (dir, program) :: s.proved }.enter p (.marking offer dir)
      | .error _ => s.enter p (.running none)
  | .marking offer dir, .store =>
    some ({ s with
      marker := some (newMarker p offer dir)
      update := some ⟨newMarker p offer dir, 0, false⟩ }.enter p (.pointing dir .switch))
  | _, .crash => some { s with process := none }
  | _, _ => none

def step (s : Install) (a : Act) : Option Install :=
  match s.process, a with
  | none, .start =>
    s.current.bind fun dir => (s.programs.lookup dir).map fun program =>
      { s with process := some ⟨program.version, dir, .started⟩ }
  | none, _ => none
  | some p, a => s.processStep host p p.phase a

end Install

end OpampFleet.Update
