import OpampFleet.Supervisor.Swap
import OpampFleet.Lib.Transition

/-!
# The supervision loop

The model of `Runner::run` of the Client's `supervisor/process.rs`, turn by turn: a package is staged, checked, parked
while the second service is away, swapped in and answered; a configuration is applied by a reload or a restart, and
owed its acknowledgement until a start decides it; a program that exits is started again, or held.

The span a command carries is the number of the commands taken before it, so that an answer tells which command it ends.
-/

namespace OpampFleet.Supervisor.Process

open Lib

variable {π : Type}

namespace Supervision

variable (s : Supervision π)

def reach : Supervision π × Bool :=
  ({ s with io := { s.io with reaches := s.io.reaches.tail } }, s.io.reaches.headD true)

def spawnIfDue : Supervision π × Bool :=
  match s.trySpawn with
  | (s, .running) => (s.clear, true)
  | (s, .unreachable) => (s.arm, false)
  | (s, .failed _) => (s.clear, false)

def answer (a : Answer) : Supervision π := { s with answers := s.answers ++ [a] }

def settle (config : OwedConfig) (result : Except String Unit) : Supervision π :=
  s.answer (.configApplied config.span config.hash result)

def settleOwed (result : Except String Unit) : Supervision π :=
  match s.owed with
  | none => s
  | some config => { s with owed := none }.settle config result

def hold (failures : Nat) : Supervision π :=
  { s with child := false }.settleOwed (.error s!"held after {failures} failed starts in a row")

end Supervision

namespace Runner

variable (r : Runner) (s : Supervision π) (package : Parked) (config : OwedConfig)

/-! Each of these returns, beside the state, whether a shutdown was requested meanwhile. -/

def respawn : Supervision π × Bool :=
  match s.interrupted with
  | (s, true) => (s, true)
  | (s, false) =>
    match s.interrupted with
    | (s, true) => (s, true)
    | (s, false) =>
      let (s, started) := s.spawnIfDue
      ({ s with child := started, policy := s.policy.starts s.io.now }, false)

def respawnOrHold : Supervision π × Bool :=
  match s.policy.failed with
  | (policy, .hold failures) => ({ s with policy := policy }.hold failures, false)
  | (policy, .retry) => respawn { s with policy := policy, backoff := (s.backoff.advance s.io.draw).1 }

def decideOwed (ran : Bool) : Supervision π × Bool :=
  -- Nothing should run, as the apply itself would have found.
  match if !ran && !s.io.builds then (s, GraceOutcome.ok) else r.gate s ran with
  | (s, .ok) => (s.settle config (.ok ()), false)
  | (s, .failed e) => if ran then respawnOrHold (s.settle config (.error e)) else (s.settle config (.error e), false)
  | (s, .shuttingDown) => (s, true)
  | (s, .unreachable) => ({ s.arm with owed := some config }, false)

def started (ran : Bool) : Supervision π × Bool :=
  let s := if ran then { s with policy := s.policy.starts s.io.now } else s
  match s.owed with
  | none => ({ s with child := ran }, false)
  | some config =>
    -- Still away: owed on.
    if !ran && s.waiting.away then (s, false) else r.decideOwed { s with owed := none } config ran

def startCurrent : Supervision π × Bool :=
  match s.interrupted with
  | (s, true) => (s, true)
  | (s, false) =>
    let (s, ran) := s.spawnIfDue
    r.started s ran

def check : Supervision π × Preflighted :=
  if r.hasPreflight then
    ({ s with io := { s.io with checks := s.io.checks.tail } }, s.io.checks.headD .passed)
  else (s, .passed)

def discard (s : Supervision π) : Supervision π :=
  match r.install with
  | none => s
  | some t => { s with dir := t.discard s.dir }

/-- Unpacks the artifact beside what runs and checks it; `artifact` is what the unpacking comes to. Beside what is
staged: whether the preflight ran. -/
def stageAndCheck (artifact : Except String π) : Supervision π × Except String Bool :=
  match r.install, artifact with
  | none, _ => (s, .error "this supervisor manages nothing a package can replace")
  | some _, .error e => (s, .error e)
  | some _, .ok program =>
    match r.check { s with dir := s.dir.put .temp (some program) } with
    | (s, .passed) => (s, .ok true)
    | (s, .refused e) => (r.discard s, .error e)
    | (s, .unreached _) => (s, .ok false)

inductive Checked where
  | ready (package : Parked)
  | done (shuttingDown : Bool)

/-- A refused package is answered, and a configuration owed its acknowledgement is decided by a start on the current
program instead. -/
def refuse (e : String) : Supervision π × Bool :=
  let s := (r.discard s).answer (.packageApplied package.span package.hash (.error e))
  if s.owed.isNone then (s, false) else r.startCurrent s.stop

def checkParked : Supervision π × Checked :=
  if package.checked then (s, .ready package)
  else
    match s.interrupted with
    | (s, true) => ({ s with parked := some package }, .done true)
    | (s, false) =>
      match r.check s with
      | (s, .passed) => (s, .ready { package with checked := true })
      | (s, .unreached _) => ({ s.arm with parked := some package }, .done false)
      | (s, .refused e) =>
        let (s, shuttingDown) := r.refuse s package e
        (s, .done shuttingDown)

/-- Where there was nothing to run yet, the configuration that arrives starts it. -/
def startIfDown : Supervision π :=
  if s.child then s
  else
    let (s, started) := s.spawnIfDue
    { s with child := started }

def installed : Supervision π :=
  let s := startIfDown s
  let s := { s with policy := s.policy.starts s.io.now }
  (s.answer (.packageApplied package.span package.hash (.ok package.version))).settleOwed (.ok ())

/-- The package's start failed, and counts as a failed start: what runs now is started again once, unless the streak
holds it. -/
def installFailed (e : String) : Supervision π × Bool :=
  let s := s.answer (.packageApplied package.span package.hash (.error e))
  match s.policy.failed with
  | (policy, .hold failures) => ({ s with policy := policy }.hold failures, false)
  | (policy, .retry) => r.startCurrent { s with policy := policy }

def swapIn : Supervision π × Bool :=
  match r.swapAndGate s.stop with
  | (s, .parked) => ({ s with parked := some { package with checked := true } }, false)
  | (s, .gated .ok) => (installed s package, false)
  | (s, .gated (.failed e)) => r.installFailed s package e
  | (s, .gated .shuttingDown) => (s, true)
  | (s, .gated .unreachable) => (s, false)

def installPackage : Supervision π × Bool :=
  match s.interrupted with
  | (s, true) => ({ s with parked := some package }, true)
  | (s, false) =>
    match s.reach with
    | (s, false) => ({ s.arm with parked := some package }, false)
    | (s, true) =>
      match r.checkParked s package with
      | (s, .done shuttingDown) => (s, shuttingDown)
      | (s, .ready package) => r.swapIn s package

inductive Reloaded where
  | applied
  | notApplied
  | shuttingDown

def tryReload : Supervision π × Reloaded :=
  if !r.hasReload || !s.child then (s, .notApplied)
  else
    let after := { s with io := { s.io with reloads := s.io.reloads.tail } }
    match s.io.reloads.headD .survived with
    | .survived => (after, .applied)
    | .notSent => (after, .notApplied)
    | .exited => if r.applyGrace = 0 then (after, .applied) else ({ after with child := false }, .notApplied)
    | .shutdown => (after, .shuttingDown)

def applyNow : Supervision π × Bool :=
  match r.tryReload s with
  | (s, .applied) => (s.settle config (.ok ()), false)
  | (s, .shuttingDown) => (s, true)
  | (s, .notApplied) =>
    let (s, ran) := s.stop.spawnIfDue
    r.started { s with owed := some config } ran

def freshChance (s : Supervision π) : Supervision π :=
  { s with policy := s.policy.freshChance, backoff := .new }

def applyConfig : Supervision π × Bool :=
  let s := { freshChance s with owed := none }
  match s.parked with
  -- The start that swaps the package in is this configuration's start too.
  | some package => r.installPackage { s with owed := some config, parked := none } package
  | none => r.applyNow s config

def supersede : Supervision π :=
  match s.parked with
  | none => s
  | some _ => r.discard { s with parked := none }

def applyPackage (artifact : Except String π) (version : String) (hash : Bytes) (span : Nat) : Supervision π × Bool :=
  match r.stageAndCheck (r.supersede s) artifact with
  | (s, .error e) => (s.answer (.packageApplied span hash (.error e)), false)
  | (s, .ok checked) =>
    let s := freshChance s
    let package : Parked := ⟨checked, version, hash, span⟩
    if s.waiting.away then ({ s with parked := some package }, false) else r.installPackage s package

def restart : Supervision π :=
  let (s, child) := (freshChance s.stop).spawnIfDue
  let s := { s with child := child, policy := if child then s.policy.starts s.io.now else s.policy }
  if !s.waiting.away && (s.owed.isSome || s.parked.isSome) then { s with waiting := s.waiting.dueNow s.io.now } else s

def sweepBackup : Supervision π :=
  match r.install, s.dir.marker with
  | some _, some deadline => if deadline ≤ s.io.now then { s with dir := s.dir.dropBackup } else s
  | _, _ => s

def retry : Supervision π × Bool :=
  match s.parked with
  | some package => r.installPackage { s with parked := none } package
  | none => r.startCurrent s.stop

def serviceWent : Supervision π := { s with child := false }.arm

def exited (s : Supervision π) : Supervision π × Bool :=
  respawnOrHold { s with child := false, policy := s.policy.exited s.io.now }

end Runner

inductive Command (π : Type) where
  | applyConfig (hash : Bytes)
  | applyPackage (artifact : Except String π) (version : String) (hash : Bytes)
  | restart
  | uninstall
  | shutdown

inductive Turn (π : Type) where
  | sweep
  | retry
  | command (c : Command π)
  | exited
  | serviceWent
  | shutdown

structure Handed where
  span : Nat
  hash : Bytes
  deriving DecidableEq

structure Replaced where
  waited : Handed
  newer : Handed

structure Loop (π : Type) where
  supervision : Supervision π
  running : Bool
  taken : Nat
  configs : List Handed
  packages : List Handed
  replaced : List Replaced

namespace Loop

def turned (l : Loop π) (r : Runner) : Supervision π × Bool → Loop π
  | (s, false) => { l with supervision := s }
  | (s, true) => { l with supervision := r.supersede s.stop, running := false }

def replaces (l : Loop π) (newer : Handed) : List Replaced :=
  (l.supervision.parked.map fun package => ⟨⟨package.span, package.hash⟩, newer⟩).toList

/-- The retry is the start for what waits, so it is due with a program running too. -/
def retryDue (s : Supervision π) : Bool :=
  (!s.child || s.owed.isSome || s.parked.isSome) && s.waiting.due.any (· ≤ s.io.now)

def command (r : Runner) (l : Loop π) (s : Supervision π) : Command π → Loop π
  | .applyConfig hash =>
    let l' : Loop π := { l with taken := l.taken + 1, configs := l.configs ++ [⟨l.taken, hash⟩] }
    l'.turned r (r.applyConfig s ⟨hash, l.taken⟩)
  | .applyPackage artifact version hash =>
    let l' : Loop π :=
      { l with
        taken := l.taken + 1
        packages := l.packages ++ [⟨l.taken, hash⟩]
        replaced := l.replaced ++ l.replaces ⟨l.taken, hash⟩ }
    l'.turned r (r.applyPackage s artifact version hash l.taken)
  | .restart => l.turned r (Runner.restart s, false)
  | .uninstall => { l with supervision := s.stop, running := false }
  | .shutdown => l.turned r (s, true)

def step (r : Runner) (l : Loop π) (turn : Turn π × Io) : Option (Loop π) :=
  let s := { l.supervision with io := turn.2 }
  if !l.running then none
  else
    match turn.1 with
    | .sweep => some (l.turned r (r.sweepBackup s, false))
    | .retry => if retryDue s then some (l.turned r (r.retry s)) else none
    | .command c => some (command r l s c)
    | .exited => if s.child then some (l.turned r (Runner.exited s)) else none
    | .serviceWent => if s.child then some (l.turned r (Runner.serviceWent s, false)) else none
    | .shutdown => some (l.turned r (s, true))

def start (r : Runner) (dir : ProgramDir π) (io : Io) : Loop π :=
  let s := r.sweepBackup ⟨false, .new r.applyGrace io.now, .new, .new, none, none, dir, [], io⟩
  let s :=
    match s.interrupted with
    | (s, true) => s
    | (s, false) =>
      let (s, child) := s.spawnIfDue
      { s with child := child }
  ⟨s, true, 0, [], [], []⟩

end Loop

end OpampFleet.Supervisor.Process
