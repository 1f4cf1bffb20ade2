import OpampFleet.Server.Packages
import OpampFleet.Lib.Transition

/-!
# Entries of a pinned Package

A write to a Package's entries asks under the fleet lock whether an assignment pins the Package, lets the lock go, and
reaches the package store later. A rollout holds the fleet lock from its first record to its last.

A record is written, and its assignment noted, in one step: only the fleet lock's holder asks for either.
-/

namespace OpampFleet.Server.Pinned

open Lib List Option PackageStore

variable {υ ρ : Type} [DecidableEq υ] (agents : FsAgentStore υ ρ)

inductive Change where
  | putEntry (platform : Platform) (artifact : Bytes)
  | putSignature (platform : Platform) (signature : Bytes)
  | removeSignature (platform : Platform)
  | deleteEntry (platform : Platform)

structure EntryWrite where
  id : PackageId
  change : Change

def EntryWrite.apply (sha256 : Bytes → Bytes) (verifier : Option (Bytes → Bytes → Bool)) (w : EntryWrite)
    (disk : Disk) (store : PackageStore) : PackageStore :=
  match w.change with
  | .putEntry platform artifact => (store.putEntryFrom sha256 disk w.id platform artifact).1
  | .putSignature platform signature => (store.putSignature verifier disk w.id platform signature).1
  | .removeSignature platform => (store.removeSignature disk w.id platform).1
  | .deleteEntry platform => (store.deleteEntry disk w.id platform).1

structure Rollout (υ ρ : Type) where
  todo : List (υ × PersistedAgent ρ)
  written : List (Previous υ ρ)
  failed : Bool

def Rollout.isDone (r : Rollout υ ρ) : Bool := if r.failed then r.written.isEmpty else r.todo.isEmpty

structure State (υ ρ : Type) [DecidableEq υ] where
  agents : FsAgentStore υ ρ
  packages : PackageStore
  inFlight : List EntryWrite
  rollout : Option (Rollout υ ρ)

def State.start (packages : PackageStore) : State υ ρ := ⟨agents, packages, [], none⟩

inductive Act (υ ρ : Type) where
  | check (w : EntryWrite)
  | write (index : Nat) (disk : Disk)
  | beginRollout (releases : List (υ × PersistedAgent ρ))
  | releaseRecord (written : Bool)
  | putBackRecord (restored : Bool)
  | endRollout
  | persist (uid : υ) (record : PersistedAgent ρ)
  | forget (uid : υ)
  | createPackageSet (id : PackageId) (disk : Disk)
  | deletePackageSet (id : PackageId) (disk : Disk)

def refuseIfAssigned (id : PackageId) : Except String Unit :=
  if agents.pinning (.package id) > 0 then .error (assigned id) else .ok ()

def releaseRecord (s : State υ ρ) (r : Rollout υ ρ) (written : Bool) : Option (State υ ρ) :=
  match r.failed, r.todo with
  | false, (uid, record) :: todo =>
    if written then
      some { s with
        agents := s.agents.put uid record
        rollout := some { r with todo := todo, written := r.written ++ [s.agents.previous uid] } }
    else some { s with rollout := some { r with failed := true } }
  | _, _ => none

def putBackRecord (s : State υ ρ) (r : Rollout υ ρ) (restored : Bool) : Option (State υ ρ) :=
  match r.failed, r.written.getLast? with
  | true, some p =>
    some { s with
      agents := if restored then s.agents.putBack p else s.agents
      rollout := some { r with written := r.written.dropLast } }
  | _, _ => none

/-- `delete_package_set`: the question and the deletion under one hold of the fleet lock. -/
def deletePackageSet (packages : PackageStore) (id : PackageId) (disk : Disk) : PackageStore × Except String Bool :=
  if agents.pinning (.package id) > 0 then (packages, .error (pinned id (agents.pinning (.package id))))
  else packages.removeSet disk id

def step (sha256 : Bytes → Bytes) (verifier : Option (Bytes → Bytes → Bool)) (s : State υ ρ) :
    Act υ ρ → Option (State υ ρ)
  | .check w =>
    match s.rollout, refuseIfAssigned s.agents w.id with
    | none, .ok () => some { s with inFlight := s.inFlight ++ [w] }
    | none, .error _ => some s
    | some _, _ => none
  | .write index disk => (s.inFlight[index]?).map fun w =>
      { s with packages := w.apply sha256 verifier disk s.packages, inFlight := s.inFlight.eraseIdx index }
  | .beginRollout releases => if s.rollout.isNone then some { s with rollout := some ⟨releases, [], false⟩ } else none
  | .releaseRecord written => s.rollout.bind fun r => releaseRecord s r written
  | .putBackRecord restored => s.rollout.bind fun r => putBackRecord s r restored
  | .endRollout => s.rollout.bind fun r =>
      if r.isDone then some { s with rollout := none } else none
  | .persist uid record => if s.rollout.isNone then some { s with agents := s.agents.put uid record } else none
  | .forget uid => if s.rollout.isNone then some { s with agents := s.agents.remove uid } else none
  | .createPackageSet id disk => some { s with packages := (s.packages.create disk id).1 }
  | .deletePackageSet id disk =>
    if s.rollout.isNone then some { s with packages := (deletePackageSet s.agents s.packages id disk).1 } else none

def storedRecord (s : State υ ρ) : Act υ ρ → Option (PersistedAgent ρ)
  | .releaseRecord true => s.rollout.bind fun r => r.todo.head?.map Prod.snd
  | .putBackRecord true => s.rollout.bind fun r => r.written.getLast?.bind Previous.record
  | .persist _ record => some record
  | _ => none

def NoPinInFlight (s : State υ ρ) (a : Act υ ρ) : Prop :=
  ∀ w ∈ s.inFlight, ((storedRecord s a).bind PersistedAgent.assignment).any (Pin.package w.id).pinnedBy = false

instance (s : State υ ρ) (a : Act υ ρ) : Decidable (NoPinInFlight s a) :=
  inferInstanceAs (Decidable (∀ w ∈ s.inFlight, _ = false))

def Unpinned (s : State υ ρ) : Prop := ∀ w ∈ s.inFlight, ¬s.agents.Pins (.package w.id)

private lemma Unpinned.write {s : State υ ρ} {uid : υ} (h : Unpinned s) (record : Option (PersistedAgent ρ))
    (hr : ∀ w ∈ s.inFlight, (record.bind PersistedAgent.assignment).any (Pin.package w.id).pinnedBy = false) :
    ∀ w ∈ s.inFlight, ¬(s.agents.write uid record).Pins (.package w.id) := by
  intro w hw hp
  rcases FsAgentStore.Pins.of_write hp with hp | ⟨assignment, ha, hp⟩
  · exact h w hw hp
  · have := hr w hw
    rw [ha] at this
    simp [hp] at this

private lemma not_pins_of_refuseIfAssigned {agents : FsAgentStore υ ρ} {id : PackageId}
    (h : refuseIfAssigned agents id = .ok ()) : ¬agents.Pins (.package id) := by
  unfold refuseIfAssigned at h
  split at h
  · cases h
  next hpin =>
    exact fun hp => hpin (FsAgentStore.pinning_pos_iff.mpr hp)

section Step

variable {sha256 : Bytes → Bytes} {verifier : Option (Bytes → Bytes → Bool)} {s t : State υ ρ} {a : Act υ ρ}

private lemma Unpinned.releaseRecord {r : Rollout υ ρ} {written : Bool} (h : Unpinned s)
    (hr : s.rollout = some r) (hok : NoPinInFlight s (.releaseRecord written))
    (hs : releaseRecord s r written = some t) : Unpinned t := by
  unfold Pinned.releaseRecord at hs
  split at hs
  next uid record todo hfailed htodo =>
    split at hs
    next hw =>
      cases hs
      refine h.write (some record) fun w hw' => ?_
      have := hok w hw'
      simpa [storedRecord, hw, hr, htodo] using this
    · cases hs
      exact h
  · cases hs

private lemma Unpinned.putBackRecord {r : Rollout υ ρ} {restored : Bool} (h : Unpinned s)
    (hr : s.rollout = some r) (hok : NoPinInFlight s (.putBackRecord restored))
    (hs : putBackRecord s r restored = some t) : Unpinned t := by
  unfold Pinned.putBackRecord at hs
  split at hs
  next p hfailed hlast =>
    cases hs
    cases restored with
    | true =>
      refine h.write p.record fun w hw => ?_
      have := hok w hw
      simpa [storedRecord, hr, hlast] using this
    | false => exact h
  · cases hs

private lemma Unpinned.step (h : Unpinned s) (hok : NoPinInFlight s a) (hs : step sha256 verifier s a = some t) :
    Unpinned t := by
  cases a with
  | check w =>
    simp only [Pinned.step] at hs
    split at hs
    next hc =>
      cases hs
      exact forall_mem_append.mpr ⟨h, forall_mem_singleton.mpr (not_pins_of_refuseIfAssigned hc)⟩
    · cases hs
      exact h
    · cases hs
  | write index disk =>
    obtain ⟨w, -, rfl⟩ := map_eq_some_iff.mp hs
    exact fun w' hw' => h w' (mem_of_mem_eraseIdx hw')
  | beginRollout releases | deletePackageSet id disk =>
    simp only [Pinned.step] at hs
    split at hs
    · cases hs
      exact h
    · cases hs
  | releaseRecord written =>
    obtain ⟨r, hr, hs⟩ := bind_eq_some_iff.mp hs
    exact h.releaseRecord hr hok hs
  | putBackRecord restored =>
    obtain ⟨r, hr, hs⟩ := bind_eq_some_iff.mp hs
    exact h.putBackRecord hr hok hs
  | endRollout =>
    obtain ⟨r, -, hs⟩ := bind_eq_some_iff.mp hs
    split at hs
    · cases hs
      exact h
    · cases hs
  | persist uid record =>
    simp only [Pinned.step] at hs
    split at hs
    · cases hs
      exact h.write (some record) hok
    · cases hs
  | forget uid =>
    simp only [Pinned.step] at hs
    split at hs
    · cases hs
      exact h.write none (by simp)
    · cases hs
  | createPackageSet id disk =>
    cases hs
    exact h

/-- A write touches its own Package only. -/
lemma sameExcept_apply (w : EntryWrite) (disk : Disk) (store : PackageStore) :
    PackageStore.SameExcept w.id store (w.apply sha256 verifier disk store) := by
  unfold EntryWrite.apply
  cases w.change with
  | putEntry platform artifact => exact sameExcept_putEntryFrom _ _ _ _ _ _
  | putSignature platform signature => exact sameExcept_putSignature _ _ _ _ _ _
  | removeSignature platform => exact sameExcept_removeSignature _ _ _ _
  | deleteEntry platform => exact sameExcept_deleteEntry _ _ _ _

private lemma Unpinned.entriesOf_step (h : Unpinned s) (hs : Pinned.step sha256 verifier s a = some t) {id : PackageId}
    (hp : s.agents.Pins (.package id)) : t.packages.entriesOf id = s.packages.entriesOf id := by
  cases a with
  | write index disk =>
    obtain ⟨w, hw, rfl⟩ := map_eq_some_iff.mp hs
    have hne : id ≠ w.id := by
      rintro rfl
      exact h w (mem_of_getElem? hw) hp
    exact (sameExcept_apply w disk s.packages).entriesOf hne
  | deletePackageSet i disk =>
    obtain ⟨-, hs⟩ := ite_none_right_eq_some.mp hs
    cases hs
    simp only [Pinned.deletePackageSet]
    split
    · rfl
    rename_i hpin
    have hne : id ≠ i := by
      rintro rfl
      exact hpin (FsAgentStore.pinning_pos_iff.mpr hp)
    exact (sameExcept_removeSet s.packages disk i).entriesOf hne
  | createPackageSet i disk =>
    cases hs
    exact entriesOf_create s.packages disk i id
  | releaseRecord written =>
    obtain ⟨r, -, hs⟩ := bind_eq_some_iff.mp hs
    unfold Pinned.releaseRecord at hs
    split at hs
    · split at hs <;> cases hs <;> rfl
    · cases hs
  | putBackRecord restored =>
    obtain ⟨r, -, hs⟩ := bind_eq_some_iff.mp hs
    unfold Pinned.putBackRecord at hs
    split at hs
    · cases hs
      rfl
    · cases hs
  | endRollout =>
    obtain ⟨r, -, hs⟩ := bind_eq_some_iff.mp hs
    split at hs
    · cases hs
      rfl
    · cases hs
  | check w =>
    simp only [Pinned.step] at hs
    split at hs <;> cases hs <;> rfl
  | beginRollout releases | persist uid record | forget uid =>
    simp only [Pinned.step] at hs
    split at hs <;> cases hs
    rfl

end Step

/-- In every run in which no stored assignment pins a Package between a write's check and the write, the entries of a
Package never change while some stored assignment pins it. -/
theorem pinned_entries_unchanged (sha256 : Bytes → Bytes) (verifier : Option (Bytes → Bytes → Bool))
    (agents : FsAgentStore υ ρ) (packages : PackageStore) (s t : State υ ρ) (a : Act υ ρ) (id : PackageId)
    (h : Reach (State.start agents packages) (restrict NoPinInFlight (step sha256 verifier)) s)
    (hs : restrict NoPinInFlight (step sha256 verifier) s a = some t) (hp : s.agents.Pins (.package id)) :
    t.packages.entriesOf id = s.packages.entriesOf id := by
  have hinv : Unpinned s := by
    exact h.invariant_restrict (by simp [Unpinned, State.start]) fun _ _ _ hi hok hs => hi.step hok hs
  exact hinv.entriesOf_step (restrict_eq_some.mp hs).2 hp

def otelcol : PackageId := ⟨"otelcol", "1.0.0"⟩

def linux : Platform := ⟨"linux", "amd64"⟩

def goodDisk : Disk := ⟨.ok (), false, .ok true, .ok (), .ok (), true⟩

def onePackage : PackageStore := ⟨AList.singleton otelcol ∅, AList.singleton otelcol ∅⟩

def pinningRecord : PersistedAgent Unit := ⟨some ⟨"fleet", some otelcol, ∅⟩, ()⟩

def upload : EntryWrite := ⟨otelcol, .putEntry linux [7]⟩

def rolloutActs : List (Act Nat Unit) := [.beginRollout [(0, pinningRecord)], .releaseRecord true, .endRollout]

def atRest : State Nat Unit := State.start FsAgentStore.empty onePackage

/-- An upload for a pinned Package is refused. -/
theorem pinned_entries_unchanged_refused : ∃ s t : State Nat Unit, s.agents.Pins (.package otelcol) ∧
    step id none s (.check upload) = some t ∧ t.packages.entriesOf otelcol = s.packages.entriesOf otelcol := by
  obtain ⟨s, hs, hfile, t, ht⟩ : ∃ s, run (restrict NoPinInFlight (step id none)) atRest rolloutActs = some s ∧
      s.agents.files.lookup 0 = some pinningRecord ∧
      ∃ t, restrict NoPinInFlight (step id none) s (.check upload) = some t := ⟨_, rfl, rfl, _, rfl⟩
  have hp : s.agents.Pins (.package otelcol) := ⟨0, pinningRecord, _, hfile, rfl, by decide⟩
  exact ⟨s, t, hp, (restrict_eq_some.mp ht).2, pinned_entries_unchanged id none FsAgentStore.empty onePackage s t
    (.check upload) otelcol (Reach.refl.of_run hs) ht hp⟩

/-- An upload checked before the rollout that pins its Package reaches the store after it. -/
theorem pinned_entries_changed : ∃ s t : State Nat Unit, Reach atRest (step id none) s ∧
    step id none s (.write 0 goodDisk) = some t ∧ s.agents.Pins (.package otelcol) ∧
    t.packages.entriesOf otelcol ≠ s.packages.entriesOf otelcol := by
  obtain ⟨s, hs, hfile, hbefore, t, ht, hafter⟩ :
    ∃ s, run (step id none) atRest (.check upload :: rolloutActs) = some s ∧
      s.agents.files.lookup 0 = some pinningRecord ∧ (s.packages.entriesOf otelcol).1.lookup linux = none ∧
      ∃ t, step id none s (.write 0 goodDisk) = some t ∧
        (t.packages.entriesOf otelcol).1.lookup linux = some ⟨linux, [7], 1, none⟩ :=
    ⟨_, rfl, rfl, rfl, _, rfl, rfl⟩
  refine ⟨s, t, Reach.refl.of_run hs, ht, ⟨0, pinningRecord, _, hfile, rfl, by decide⟩, fun he => ?_⟩
  simp [he, hbefore] at hafter

end OpampFleet.Server.Pinned
