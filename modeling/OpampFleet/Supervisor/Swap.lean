import OpampFleet.Lib.Files

/-!
# Swapping a package in

The model of what the Runner of the Client's `supervisor/process.rs` keeps from one event to the next, and of
`swap_and_gate`, which puts a staged package in the place of the running program: what runs is renamed aside, the
package is renamed into its place, started and watched through the apply grace, and what ran before is put back when it
fails.

How each call of the host ends is told beforehand, in the order the calls are made.
-/

namespace OpampFleet.Supervisor.Process

open Lib

/-! ### Times -/

/-- `Backoff` of the protocol's client: the ceiling of the next delay, in milliseconds. -/
structure Backoff where
  next : Nat
  deriving DecidableEq

namespace Backoff

def new : Backoff := ⟨1000⟩

def advance (b : Backoff) (draw : Nat) : Backoff × Nat := (⟨min (b.next * 2) 60000⟩, b.next / 2 + draw % (b.next / 2))

end Backoff

structure Waiting where
  due : Option Nat
  away : Bool
  backoff : Backoff
  deriving DecidableEq

namespace Waiting

def new : Waiting := ⟨none, false, .new⟩

def arm (w : Waiting) (now draw : Nat) : Waiting :=
  let (backoff, delay) := w.backoff.advance draw
  ⟨some (now + delay), true, backoff⟩

def dueNow (w : Waiting) (now : Nat) : Waiting := { w with due := some now, away := false }

def clear (_ : Waiting) : Waiting := ⟨none, false, .new⟩

end Waiting

inductive AfterFailure where
  | retry
  | hold (failures : Nat)
  deriving DecidableEq

structure RestartPolicy where
  streak : Nat
  started : Nat
  stableAfter : Nat
  deriving DecidableEq

namespace RestartPolicy

def maxCrashRestarts : Nat := 3

def stableRunFloor : Nat := 10000

def new (applyGrace now : Nat) : RestartPolicy := ⟨0, now, max applyGrace stableRunFloor⟩

variable (p : RestartPolicy)

def freshChance : RestartPolicy := { p with streak := 0 }

def starts (now : Nat) : RestartPolicy := { p with started := now }

def exited (now : Nat) : RestartPolicy :=
  if p.stableAfter ≤ now - p.started then { p with streak := 0 } else p

def failed : RestartPolicy × AfterFailure :=
  let p := { p with streak := p.streak + 1 }
  (p, if maxCrashRestarts ≤ p.streak then .hold p.streak else .retry)

end RestartPolicy

/-! ### The program directory -/

inductive Name where
  | live
  | backup
  | temp
  deriving DecidableEq

inductive RenameError where
  | notFound
  | other (text : String)

def RenameError.text : RenameError → String
  | .notFound => "No such file or directory (os error 2)"
  | .other text => text

structure ProgramDir (π : Type) where
  programs : Name → Option π
  marker : Option Nat
  renames : List (Option String)
  failures : Nat

namespace ProgramDir

variable {π : Type} (d : ProgramDir π)

def put (name : Name) (program : Option π) : ProgramDir π :=
  { d with programs := fun other => if other = name then program else d.programs other }

def rename (source target : Name) : ProgramDir π × Except RenameError Unit :=
  let after := { d with renames := d.renames.tail }
  match d.programs source, d.renames.head?.join with
  | none, _ => ({ after with failures := d.failures + 1 }, .error .notFound)
  | some _, some text => ({ after with failures := d.failures + 1 }, .error (.other text))
  | some program, none => ((after.put source none).put target (some program), .ok ())

def remove (name : Name) : ProgramDir π := d.put name none

def dropBackup : ProgramDir π := { d.remove .backup with marker := none }

end ProgramDir

structure InstallTarget where
  live : String

namespace InstallTarget

variable {π : Type} (t : InstallTarget) (d : ProgramDir π)

def setAside : ProgramDir π × Except String Bool :=
  match d.dropBackup.rename .live .backup with
  | (d, .ok ()) => (d, .ok true)
  | (d, .error .notFound) => (d, .ok false)
  | (d, .error (.other e)) => (d, .error s!"cannot set {t.live} aside: {e}")

def commit : ProgramDir π × Except String Unit :=
  match d.rename .temp .live with
  | (d, .ok ()) => (d, .ok ())
  | (d, .error e) => (d, .error s!"cannot install {t.live}: {e.text}")

def discard (_ : InstallTarget) (d : ProgramDir π) : ProgramDir π := d.remove .temp

def restore (d : ProgramDir π) : ProgramDir π × Except String Unit :=
  match d.programs .backup with
  | none => (d, .error s!"cannot restore {t.live}: {RenameError.notFound.text}")
  | some _ =>
    match (d.remove .live).rename .backup .live with
    | (d, .ok ()) => (d, .ok ())
    | (d, .error e) => (d, .error s!"cannot restore {t.live}: {e.text}")

def takeBack (hasBackup : Bool) : ProgramDir π × Except String Unit :=
  match d.rename .live .temp with
  | (d, .error e) => (d, .error s!"cannot take {t.live} back out: {e.text}")
  | (d, .ok ()) =>
    if hasBackup then
      match restore t d with
      | (d, .ok ()) => (d, .ok ())
      | (d, .error e) =>
        match d.rename .temp .live with
        | (d, .ok ()) => (d, .error e)
        | (d, .error back) => (d, .error s!"{e}; nor can the package be put back: {back.text}")
    else (d, .ok ())

end InstallTarget

/-! ### What the Runner carries -/

inductive Start where
  | running
  | unreachable
  | failed (e : String)

inductive GraceEnd where
  | survived
  | exited (status : String)
  | serviceWent
  | shutdown

inductive GraceOutcome where
  | ok
  | failed (e : String)
  | shuttingDown
  | unreachable

inductive Preflighted where
  | passed
  | refused (e : String)
  | unreached (e : String)

inductive ReloadEnd where
  | survived
  | notSent
  | exited
  | shutdown

structure Io where
  now : Nat
  draw : Nat
  builds : Bool
  interrupts : List Bool
  reaches : List Bool
  starts : List Start
  graces : List GraceEnd
  checks : List Preflighted
  reloads : List ReloadEnd

structure OwedConfig where
  hash : Bytes
  span : Nat
  deriving DecidableEq

structure Parked where
  checked : Bool
  version : String
  hash : Bytes
  span : Nat
  deriving DecidableEq

inductive Answer where
  | configApplied (span : Nat) (hash : Bytes) (result : Except String Unit)
  | packageApplied (span : Nat) (hash : Bytes) (result : Except String String)

structure Supervision (π : Type) where
  child : Bool
  policy : RestartPolicy
  backoff : Backoff
  waiting : Waiting
  owed : Option OwedConfig
  parked : Option Parked
  dir : ProgramDir π
  answers : List Answer
  io : Io

structure Runner where
  applyGrace : Nat
  install : Option InstallTarget
  retainPrevious : Nat
  hasPreflight : Bool
  hasReload : Bool

namespace Supervision

variable {π : Type} (s : Supervision π)

def interrupted : Supervision π × Bool :=
  ({ s with io := { s.io with interrupts := s.io.interrupts.tail } }, s.io.interrupts.headD false)

def trySpawn : Supervision π × Start :=
  if s.io.builds then ({ s with io := { s.io with starts := s.io.starts.tail } }, s.io.starts.headD .running)
  else (s, .failed "nothing to run")

def arm (s : Supervision π) : Supervision π := { s with waiting := s.waiting.arm s.io.now s.io.draw }

def clear (s : Supervision π) : Supervision π := { s with waiting := s.waiting.clear }

def stop : Supervision π := { s with child := false }

end Supervision

namespace Runner

variable {π : Type} (r : Runner) (s : Supervision π)

/-- The apply-grace health gate; the child is left holding the running process on success. -/
def gate (started : Bool) : Supervision π × GraceOutcome :=
  if !started then (s, .failed "the process did not start")
  else if r.applyGrace ≠ 0 then
    let after := { s with io := { s.io with graces := s.io.graces.tail } }
    match s.io.graces.headD .survived with
    | .serviceWent => (after, .unreachable)
    | .exited status => (after, .failed s!"the process exited during the apply grace ({status})")
    | .survived => ({ after with child := true }, .ok)
    | .shutdown => ({ after with child := true }, .shuttingDown)
  else ({ s with child := true }, .ok)

def retainBackup : Supervision π :=
  if r.retainPrevious = 0 then { s with dir := s.dir.dropBackup }
  else { s with dir := { s.dir with marker := some (s.io.now + r.retainPrevious) } }

/-- Concludes a swap: rolls back to the predecessor after a failure, keeps it for the retention window after a
success. -/
def conclude (t : InstallTarget) (hasBackup : Bool) (outcome : GraceOutcome) : Supervision π :=
  match outcome, hasBackup with
  | .failed _, true => { s with dir := (t.restore s.dir).1 }
  -- A first install is kept in place.
  | .failed _, false => s
  | _, true => r.retainBackup s
  | _, false => s

inductive Swapped where
  | gated (outcome : GraceOutcome)
  | parked

/-- Once the package is live: its start and its grace. Nothing where a shutdown comes before the start. -/
def startSwapped : Supervision π × Option GraceOutcome :=
  match s.interrupted with
  | (s, true) => (s, none)
  | (s, false) =>
    match s.trySpawn with
    | (s, .unreachable) => (s.arm, some .unreachable)
    | (s, .failed _) =>
      -- A plugin with nothing to run has not rejected the package.
      if !s.io.builds then (s.clear, some .ok)
      else
        let (s, outcome) := r.gate s.clear false
        (s, some outcome)
    | (s, .running) =>
      match r.gate s.clear true with
      | (s, .unreachable) => (s.arm, some .unreachable)
      | (s, outcome) => (s, some outcome)

def afterStart (t : InstallTarget) (hasBackup : Bool) :
    Option GraceOutcome → Supervision π × Swapped
  | none =>
    -- A shutdown leaves what ran before in place.
    match t.takeBack s.dir hasBackup with
    | (dir, .ok ()) => ({ s with dir := t.discard dir }, .gated .shuttingDown)
    | (dir, .error _) => ({ s with dir := dir }, .gated .shuttingDown)
  | some .unreachable =>
    match t.takeBack s.dir hasBackup with
    | (dir, .ok ()) => ({ s with dir := dir }, .parked)
    | (dir, .error e) => (r.conclude { s with dir := dir } t hasBackup (.failed e), .gated (.failed e))
  | some outcome => (r.conclude s t hasBackup outcome, .gated outcome)

def swapAndGate : Supervision π × Swapped :=
  match r.install with
  | none => (s, .gated (.failed "this supervisor manages nothing a package can replace"))
  | some t =>
    match t.setAside s.dir with
    | (dir, .error e) => ({ s with dir := t.discard dir }, .gated (.failed e))
    | (dir, .ok hasBackup) =>
      match t.commit dir with
      | (dir, .error e) =>
        -- The old one is put back: the process must not be left with none.
        let dir := if hasBackup then (t.restore dir).1 else dir
        ({ s with dir := t.discard dir }, .gated (.failed e))
      | (dir, .ok ()) =>
        let (s, ended) := r.startSwapped { s with dir := dir }
        r.afterStart s t hasBackup ended

end Runner

/-! ### What the renames do -/

section Renames

variable {π : Type} {d : ProgramDir π} {t : InstallTarget}

variable {program : π}

private lemma ProgramDir.rename_moves {source target : Name} (hsource : d.programs source = some program)
    (hok : d.renames.head?.join = none) : d.rename source target =
      (({ d with renames := d.renames.tail }.put source none).put target (some program), .ok ()) := by
  unfold rename
  rw [hsource, hok]

private lemma ProgramDir.rename_fails (source target : Name)
    (h : d.programs source = none ∨ d.renames.head?.join ≠ none) : ∃ e, d.rename source target =
      ({ d with renames := d.renames.tail, failures := d.failures + 1 }, .error e) ∧
      (e = .notFound → d.programs source = none) := by
  unfold rename
  cases hsource : d.programs source with
  | none => exact ⟨.notFound, rfl, fun _ => rfl⟩
  | some program =>
    cases htext : d.renames.head?.join with
    | none =>
      rw [hsource, htext] at h
      rcases h with h | h
      · cases h
      · exact absurd rfl h
    | some text => exact ⟨.other text, rfl, nofun⟩

open ProgramDir

private lemma InstallTarget.setAside_ok (hlive : d.programs .live = some program) (hok : d.renames.head?.join = none) :
    ∃ d', t.setAside d = (d', .ok true) ∧ d'.programs .live = none ∧ d'.programs .backup = some program ∧
      d'.programs .temp = d.programs .temp ∧ d'.renames = d.renames.tail ∧ d'.failures = d.failures := by
  have hrename : d.dropBackup.rename .live .backup = _ := rename_moves hlive hok
  unfold setAside
  rw [hrename]
  exact ⟨_, rfl, rfl, rfl, rfl, rfl, rfl⟩

private lemma InstallTarget.setAside_fails (hlive : d.programs .live = some program)
    (hfails : d.renames.head?.join ≠ none) :
    ∃ d' e, t.setAside d = (d', .error e) ∧ d'.programs .live = some program := by
  obtain ⟨e, hrename, hnot⟩ := rename_fails (d := d.dropBackup) .live .backup (.inr hfails)
  unfold setAside
  rw [hrename]
  cases e with
  | notFound =>
    have hnone : d.programs .live = none := hnot rfl
    simp [hlive] at hnone
  | other text => exact ⟨_, _, rfl, hlive⟩

private lemma InstallTarget.commit_ok (htemp : d.programs .temp = some program) (hok : d.renames.head?.join = none) :
    ∃ d', t.commit d = (d', .ok ()) ∧ d'.programs .live = some program ∧ d'.programs .backup = d.programs .backup ∧
      d'.programs .temp = none ∧ d'.renames = d.renames.tail ∧ d'.failures = d.failures := by
  unfold commit
  rw [rename_moves htemp hok]
  exact ⟨_, rfl, rfl, rfl, rfl, rfl, rfl⟩

private lemma InstallTarget.commit_fails (h : d.programs .temp = none ∨ d.renames.head?.join ≠ none) :
    ∃ e, t.commit d = ({ d with renames := d.renames.tail, failures := d.failures + 1 }, .error e) := by
  obtain ⟨e, hrename, -⟩ := rename_fails (d := d) .temp .live h
  unfold commit
  rw [hrename]
  exact ⟨_, rfl⟩

private lemma InstallTarget.restore_ok (hbackup : d.programs .backup = some program)
    (hok : d.renames.head?.join = none) :
    ∃ d', t.restore d = (d', .ok ()) ∧ d'.programs .live = some program ∧ d'.programs .temp = d.programs .temp ∧
      d'.failures = d.failures := by
  have hrename : (d.remove .live).rename .backup .live = _ := rename_moves hbackup hok
  unfold restore
  rw [hbackup]
  rw [hrename]
  exact ⟨_, rfl, rfl, rfl, rfl⟩

/-- What is live is removed before what ran is put back, so a rename that fails there leaves nothing live. -/
private lemma InstallTarget.restore_fails (hbackup : d.programs .backup = some program)
    (hfails : d.renames.head?.join ≠ none) :
    ∃ d' e, t.restore d = (d', .error e) ∧ d'.programs .live = none ∧ d'.programs .backup = some program ∧
      d'.programs .temp = d.programs .temp ∧ d'.renames = d.renames.tail ∧ d'.failures = d.failures + 1 := by
  obtain ⟨e, hrename, -⟩ :=
    rename_fails (d := d.remove .live) .backup .live (.inr hfails)
  unfold restore
  rw [hbackup]
  rw [hrename]
  exact ⟨_, _, rfl, rfl, hbackup, rfl, rfl, rfl⟩

/-- A package taken back out leaves its predecessor live; one that cannot be is live again itself, unless a second
rename fails. -/
private lemma InstallTarget.takeBack_cases {package predecessor : π} (hlive : d.programs .live = some package)
    (hbackup : d.programs .backup = some predecessor) :
    (∃ d', t.takeBack d true = (d', .ok ()) ∧ d'.programs .live = some predecessor) ∨
    (∃ d' e, t.takeBack d true = (d', .error e) ∧ d'.failures = d.failures + 1 ∧ d'.programs .live = some package ∧
      d'.programs .backup = some predecessor) ∨
    (∃ d' e, t.takeBack d true = (d', .error e) ∧ d'.failures = d.failures + 2 ∧
      d'.programs .backup = some predecessor) := by
  unfold takeBack
  by_cases hout : d.renames.head?.join = none
  · obtain ⟨out, hrename, hkept, htaken, hcount⟩ : ∃ out, d.rename .live .temp = (out, .ok ()) ∧
        out.programs .backup = some predecessor ∧ out.programs .temp = some package ∧ out.failures = d.failures :=
      ⟨_, rename_moves hlive hout, hbackup, rfl, rfl⟩
    rw [hrename]
    simp only [if_true]
    by_cases hback : out.renames.head?.join = none
    · obtain ⟨d', hrestore, hlive', -⟩ := restore_ok (t := t) hkept hback
      rw [hrestore]
      exact .inl ⟨d', rfl, hlive'⟩
    -- What ran before cannot be put back: the package is.
    obtain ⟨d', e, hrestore, hlive', hbackup', htemp', hrenames', hfailures'⟩ :=
      restore_fails (t := t) hkept hback
    rw [hcount] at hfailures'
    rw [hrestore]
    simp only
    by_cases hagain : d'.renames.head?.join = none
    · rw [rename_moves (htemp'.trans htaken) hagain]
      exact .inr (.inl ⟨_, e, rfl, hfailures', rfl, hbackup'⟩)
    obtain ⟨e', hrename, -⟩ :=
      rename_fails (d := d') .temp .live (.inr hagain)
    rw [hrename]
    refine .inr (.inr ⟨_, _, rfl, ?_, hbackup'⟩)
    show d'.failures + 1 = d.failures + 2
    omega
  · obtain ⟨e, hrename, -⟩ := rename_fails (d := d) .live .temp (.inr hout)
    rw [hrename]
    exact .inr (.inl ⟨_, _, rfl, rfl, hlive, hbackup⟩)

end Renames

/-! ### What is live after a swap -/

namespace Runner

variable {π : Type} {r : Runner} {s : Supervision π} {t : InstallTarget}

def exitsInGrace (r : Runner) (io : Io) : Bool :=
  r.applyGrace ≠ 0 &&
    match io.graces.headD .survived with
    | .exited _ => true
    | _ => false

def packageFails (r : Runner) (io : Io) : Bool :=
  !io.interrupts.headD false && io.builds &&
    match io.starts.headD .running with
    | .failed _ => true
    | .running => r.exitsInGrace io
    | .unreachable => false

/-- The renames that put the package live succeed, the package fails, and the next rename, which is to put back what ran
before, fails. -/
def rollbackFails (r : Runner) (s : Supervision π) : Prop :=
  r.install.isSome ∧ (s.dir.programs .temp).isSome ∧ r.packageFails s.io ∧ s.dir.renames.head?.join = none ∧
    s.dir.renames.tail.head?.join = none ∧ s.dir.renames.tail.tail.head?.join ≠ none

instance (r : Runner) (s : Supervision π) : Decidable (r.rollbackFails s) :=
  inferInstanceAs (Decidable (_ ∧ _ ∧ _ ∧ _ ∧ _ ∧ _))

private lemma gate_spec (r : Runner) (s : Supervision π) (started : Bool) : (r.gate s started).1.dir = s.dir ∧
      ((∃ e, (r.gate s started).2 = .failed e) ↔ started = false ∨ r.exitsInGrace s.io = true) := by
  unfold gate exitsInGrace
  cases started with
  | false => simp
  | true =>
    by_cases hgrace : r.applyGrace = 0
    · simp [hgrace]
    · cases s.io.graces.headD .survived <;> simp [hgrace]

private lemma startSwapped_spec (r : Runner) (s : Supervision π) : (r.startSwapped s).1.dir = s.dir ∧
      ((∃ e, (r.startSwapped s).2 = some (.failed e)) ↔ r.packageFails s.io = true) := by
  obtain ⟨s₁, interrupt, hint, hfirst, hdir₁, hbuilds₁, hstarts₁, hgraces₁⟩ : ∃ s₁ interrupt,
      s.interrupted = (s₁, interrupt) ∧ s.io.interrupts.headD false = interrupt ∧ s₁.dir = s.dir ∧
      s₁.io.builds = s.io.builds ∧ s₁.io.starts = s.io.starts ∧ r.exitsInGrace s₁.io = r.exitsInGrace s.io :=
    ⟨_, _, rfl, rfl, rfl, rfl, rfl, rfl⟩
  unfold startSwapped packageFails
  rw [hint, hfirst]
  cases interrupt with
  | true => simp [hdir₁]
  | false =>
    cases hbuilds : s.io.builds with
    | false =>
      rw [hbuilds] at hbuilds₁
      simp [Supervision.trySpawn, hbuilds₁, Supervision.clear, hdir₁]
    | true =>
      rw [hbuilds] at hbuilds₁
      obtain ⟨s₂, start, hspawn, hstart, hdir₂, hbuilds₂, hgraces₂⟩ : ∃ s₂ start, s₁.trySpawn = (s₂, start) ∧
          s₁.io.starts.headD .running = start ∧ s₂.dir = s₁.dir ∧ s₂.io.builds = true ∧
          r.exitsInGrace s₂.io = r.exitsInGrace s₁.io :=
        ⟨_, _, if_pos hbuilds₁, rfl, rfl, hbuilds₁, rfl⟩
      rw [hstarts₁] at hstart
      simp only
      rw [hspawn, hstart, ← hdir₁, ← hdir₂, ← hgraces₁, ← hgraces₂]
      cases start with
      | unreachable => simp [Supervision.arm]
      | failed e =>
        have hgate := r.gate_spec s₂.clear false
        simp only [hbuilds₂, Bool.not_true, Bool.false_eq_true, if_false]
        exact ⟨hgate.1, by simpa using hgate.2⟩
      | running =>
        obtain ⟨hdir₃, hfails⟩ := r.gate_spec s₂.clear true
        have hexits : r.exitsInGrace s₂.clear.io = r.exitsInGrace s₂.io := rfl
        rw [hexits] at hfails
        simp only
        cases hended : r.gate s₂.clear true with
        | mk s₃ outcome =>
          rw [hended] at hdir₃ hfails
          cases outcome with
          | failed e | ok | shuttingDown | unreachable => exact ⟨hdir₃, by simpa using hfails⟩

private lemma conclude_live {outcome : GraceOutcome} (hok : ∀ e, outcome ≠ .failed e) :
    (r.conclude s t true outcome).dir.programs .live = s.dir.programs .live := by
  have hretain : (r.retainBackup s).dir.programs .live = s.dir.programs .live := by
    unfold retainBackup
    split <;> rfl
  cases outcome with
  | failed e => exact absurd rfl (hok e)
  | ok | shuttingDown | unreachable => exact hretain

variable {predecessor : π}

open InstallTarget

private lemma conclude_failed {e : String} (hbackup : s.dir.programs .backup = some predecessor) :
    (s.dir.renames.head?.join = none →
      (r.conclude s t true (.failed e)).dir.programs .live = some predecessor ∧
        (r.conclude s t true (.failed e)).dir.failures = s.dir.failures) ∧ (s.dir.renames.head?.join ≠ none →
      (r.conclude s t true (.failed e)).dir.programs .live = none ∧
        (r.conclude s t true (.failed e)).dir.failures = s.dir.failures + 1) := by
  constructor
  · intro hok
    obtain ⟨d', hrestore, hlive, -, hcount⟩ := restore_ok (t := t) hbackup hok
    show (t.restore s.dir).1.programs .live = _ ∧ (t.restore s.dir).1.failures = _
    rw [hrestore]
    exact ⟨hlive, hcount⟩
  · intro hfails
    obtain ⟨d', e, hrestore, hlive, -, -, -, hcount⟩ := restore_fails (t := t) hbackup hfails
    show (t.restore s.dir).1.programs .live = _ ∧ (t.restore s.dir).1.failures = _
    rw [hrestore]
    exact ⟨hlive, hcount⟩

private lemma restored_live {d : ProgramDir π} (hbackup : d.programs .backup = some predecessor)
    (hcount : (t.restore d).1.failures ≤ d.failures) : (t.restore d).1.programs .live = some predecessor := by
  by_cases hok : d.renames.head?.join = none
  · obtain ⟨d', hrestore, hlive', -⟩ := restore_ok (t := t) hbackup hok
    rwa [hrestore]
  · obtain ⟨d', e, hrestore, -, -, -, -, hfailures⟩ := restore_fails (t := t) hbackup hok
    rw [hrestore] at hcount
    have hmore : d'.failures ≤ d.failures := hcount
    omega

/-- With the package live and its predecessor aside, only a failed package whose rollback fails leaves nothing live. -/
private lemma afterStart_live {package : π} {ended : Option GraceOutcome}
    (hlive : s.dir.programs .live = some package) (hbackup : s.dir.programs .backup = some predecessor)
    (hone : (r.afterStart s t true ended).1.dir.failures ≤ s.dir.failures + 1) :
    (∃ program, (r.afterStart s t true ended).1.dir.programs .live = some program ∧
      (program = predecessor ∨ program = package)) ↔
    ¬((∃ e, ended = some (.failed e)) ∧ s.dir.renames.head?.join ≠ none) := by
  cases ended with
  | none =>
    refine iff_of_true ?_ (fun h => by simp at h)
    unfold afterStart at hone ⊢
    rcases takeBack_cases (t := t) hlive hbackup with
      ⟨d', htake, hlive'⟩ | ⟨d', e, htake, -, hlive', -⟩ | ⟨d', e, htake, hcount, -⟩
    · rw [htake]
      exact ⟨predecessor, hlive', .inl rfl⟩
    · rw [htake]
      exact ⟨package, hlive', .inr rfl⟩
    · rw [htake] at hone
      have hmore : d'.failures ≤ s.dir.failures + 1 := hone
      omega
  | some outcome =>
    cases outcome with
    | ok | shuttingDown =>
      refine iff_of_true ⟨package, ?_, .inr rfl⟩ (fun h => by simp at h)
      exact (conclude_live (fun e h => by cases h)).trans hlive
    | failed e =>
      obtain ⟨hrolled, hlost⟩ := conclude_failed (r := r) (t := t) (e := e) hbackup
      by_cases hok : s.dir.renames.head?.join = none
      · exact iff_of_true ⟨predecessor, (hrolled hok).1, .inl rfl⟩ (fun h => h.2 hok)
      refine iff_of_false ?_ (fun h => h ⟨⟨e, rfl⟩, hok⟩)
      rintro ⟨program, hprogram, -⟩
      have hnone := (hlost hok).1
      simp [show (r.conclude s t true (.failed e)).dir.programs .live = some program from hprogram] at hnone
    | unreachable =>
      refine iff_of_true ?_ (fun h => by simp at h)
      unfold afterStart at hone ⊢
      rcases takeBack_cases (t := t) hlive hbackup with
        ⟨d', htake, hlive'⟩ | ⟨d', e, htake, hcount, -, hbackup'⟩ | ⟨d', e, htake, hcount, hbackup'⟩
      · rw [htake]
        exact ⟨predecessor, hlive', .inl rfl⟩
      · -- One rename has failed by now, so the rollback does not.
        rw [htake] at hone ⊢
        obtain ⟨hrolled, hlost⟩ := conclude_failed (r := r) (s := { s with dir := d' }) (t := t) (e := e) hbackup'
        by_cases hok : d'.renames.head?.join = none
        · exact ⟨predecessor, (hrolled hok).1, .inl rfl⟩
        · have hmore := (hlost hok).2
          simp only at hone hmore
          omega
      · rw [htake] at hone
        obtain ⟨hrolled, hlost⟩ := conclude_failed (r := r) (s := { s with dir := d' }) (t := t) (e := e) hbackup'
        by_cases hok : d'.renames.head?.join = none
        · have hsame := (hrolled hok).2
          simp only at hone hsame
          omega
        · have hmore := (hlost hok).2
          simp only at hone hmore
          omega

/-- A program stays live through a swap in which at most one rename fails, but for the rollback of a package that
failed. -/
theorem swap_leaves_a_program_live (r : Runner) (s : Supervision π) {predecessor : π}
    (hlive : s.dir.programs .live = some predecessor) (hone : (r.swapAndGate s).1.dir.failures ≤ s.dir.failures + 1) :
    (∃ program, (r.swapAndGate s).1.dir.programs .live = some program ∧
      (program = predecessor ∨ s.dir.programs .temp = some program)) ↔ ¬r.rollbackFails s := by
  obtain ⟨after, hafter⟩ : ∃ after, r.swapAndGate s = after := ⟨_, rfl⟩
  rw [hafter] at hone ⊢
  unfold swapAndGate at hafter
  cases hinstall : r.install with
  | none =>
    rw [hinstall] at hafter
    subst hafter
    refine iff_of_true ⟨predecessor, hlive, .inl rfl⟩ (fun h => ?_)
    have hsome := h.1
    simp [hinstall] at hsome
  | some t =>
    rw [hinstall] at hafter
    simp only at hafter
    by_cases hfirst : s.dir.renames.head?.join = none
    · obtain ⟨d₁, hset, hlive₁, hbackup₁, htemp₁, hrenames₁, hfailures₁⟩ :=
        setAside_ok (t := t) hlive hfirst
      rw [hset] at hafter
      simp only [if_true] at hafter
      rw [← hfailures₁] at hone
      by_cases hcommits : s.dir.programs .temp = none ∨ s.dir.renames.tail.head?.join ≠ none
      · -- The package cannot be put in place: one rename has failed, so the one that puts back does not.
        obtain ⟨e, hcommit⟩ :=
          commit_fails (t := t) (d := d₁) (by rw [htemp₁, hrenames₁]; exact hcommits)
        rw [hcommit] at hafter
        subst hafter
        refine iff_of_true ⟨predecessor, restored_live (t := t) hbackup₁ hone, .inl rfl⟩ (fun h => ?_)
        rcases hcommits with hnone | hsecond
        · have hsome := h.2.1
          simp [hnone] at hsome
        · exact hsecond h.2.2.2.2.1
      · obtain ⟨htemp, hsecond⟩ := not_or.mp hcommits
        obtain ⟨package, htemp⟩ := Option.ne_none_iff_exists'.mp htemp
        rw [not_not] at hsecond
        obtain ⟨d₂, hcommit, hlive₂, hbackup₂, -, hrenames₂, hfailures₂⟩ :=
          commit_ok (t := t) (htemp₁.trans htemp) (by rw [hrenames₁]; exact hsecond)
        rw [hcommit] at hafter
        obtain ⟨hdir₃, hfails⟩ := r.startSwapped_spec { s with dir := d₂ }
        simp only at hafter hdir₃ hfails
        cases hstart : r.startSwapped { s with dir := d₂ } with
        | mk s₃ ended =>
          rw [hstart] at hafter hdir₃ hfails
          subst hdir₃ hafter
          have hended := afterStart_live (r := r) (t := t) hlive₂ (hbackup₂.trans hbackup₁)
            (by rw [hfailures₂]; exact hone)
          rw [hfails, hrenames₂, hrenames₁] at hended
          have hcond : r.rollbackFails s ↔ r.packageFails s.io = true ∧ s.dir.renames.tail.tail.head?.join ≠ none :=
            ⟨fun h => ⟨h.2.2.1, h.2.2.2.2.2⟩, fun h =>
              ⟨by rw [hinstall]; rfl, by rw [htemp]; rfl, h.1, hfirst, hsecond, h.2⟩⟩
          rw [hcond, ← hended]
          simp [htemp, eq_comm]
    · obtain ⟨d₁, e, hset, hlive₁⟩ := setAside_fails (t := t) hlive hfirst
      rw [hset] at hafter
      subst hafter
      exact iff_of_true ⟨predecessor, hlive₁, .inl rfl⟩ (fun h => hfirst h.2.2.2.1)

def swapOfTwo (renames : List (Option String)) : Supervision Nat where
  child := false
  policy := .new 5000 0
  backoff := .new
  waiting := .new
  owed := none
  parked := none
  dir := ⟨fun | .live => some 1 | .backup => none | .temp => some 2, none, renames, 0⟩
  answers := []
  io := ⟨0, 0, true, [], [], [], [.exited "exit status: 1"], [], []⟩

def treeRunner : Runner := ⟨5000, some ⟨"program/tree"⟩, 0, false, false⟩

/-- The package is put live and exits within the grace, and the rename that rolls back fails: nothing is live. -/
theorem failed_rollback_leaves_nothing_live : (swapOfTwo [none, none, some "I/O error"]).dir.programs .live = some 1 ∧
      (treeRunner.swapAndGate (swapOfTwo [none, none, some "I/O error"])).1.dir.failures = 1 ∧
      (treeRunner.swapAndGate (swapOfTwo [none, none, some "I/O error"])).1.dir.programs .live = none := by
  decide +kernel

/-- The second rename fails, and the old program is put back. -/
theorem swap_leaves_a_program_live_after_failed_commit :
    ∃ program, (treeRunner.swapAndGate (swapOfTwo [none, some "I/O error"])).1.dir.programs .live = some program ∧
      (program = 1 ∨ (swapOfTwo [none, some "I/O error"]).dir.programs .temp = some program) :=
  (swap_leaves_a_program_live treeRunner (swapOfTwo [none, some "I/O error"]) rfl (by decide +kernel)).mpr
    (by decide +kernel)

end Runner

end OpampFleet.Supervisor.Process
