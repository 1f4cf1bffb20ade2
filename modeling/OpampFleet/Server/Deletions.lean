import OpampFleet.Server.Configs
import OpampFleet.Server.PinnedEntries

/-!
# Deletions and what the assignments name

A Configuration, a Package or a Deployment is deleted in two moves under one hold of the fleet lock: the question
whether a stored assignment names it, and the deletion. A rollout holds the lock from its first record to its last, and
every other write of a record holds it too.

The Deployments are there by their names; what they hold is in the releases a rollout comes with.
-/

namespace OpampFleet.Server.Deletions

open Lib Server.Pinned

variable {υ ρ : Type} [DecidableEq υ] (s : State υ ρ)

structure DeploymentStore where
  deployments : Finset String
  files : Finset String

def DeploymentStore.delete (store : DeploymentStore) (io : FileIo) (name : String) :
    Except String (DeploymentStore × Bool) :=
  if name ∈ store.deployments then
    io.written.map fun () => (⟨store.deployments.erase name, store.files.erase name⟩, true)
  else .ok (store, false)

inductive Holder (υ ρ : Type) where
  | rollout (r : Rollout υ ρ)
  | deletion (pin : Pin)

structure State (υ ρ : Type) [DecidableEq υ] where
  agents : FsAgentStore υ ρ
  configs : ConfigStore
  packages : PackageStore
  deployments : DeploymentStore
  lock : Option (Holder υ ρ)

inductive Act (υ ρ : Type) where
  | beginRollout (releases : List (υ × PersistedAgent ρ))
  | releaseRecord (written : Bool)
  | putBackRecord (restored : Bool)
  | endRollout
  | persist (uid : υ) (record : PersistedAgent ρ)
  | forget (uid : υ)
  | ask (pin : Pin)
  | delete (disk : Disk) (io : FileIo)

def deleteOf (disk : Disk) (io : FileIo) : Pin → State υ ρ
  | .configuration name => { s with configs := ((s.configs.delete io name).toOption.map Prod.fst).getD s.configs }
  | .package id => { s with packages := (s.packages.removeSet disk id).1 }
  | .deployment name =>
    { s with deployments := ((s.deployments.delete io name).toOption.map Prod.fst).getD s.deployments }

def step : Act υ ρ → Option (State υ ρ)
  | .beginRollout releases =>
    if s.lock.isNone then some { s with lock := some (.rollout ⟨releases, [], false⟩) } else none
  | .releaseRecord written =>
    match s.lock with
    | some (.rollout ⟨(uid, record) :: todo, before, false⟩) =>
      if written then
        some { s with
          agents := s.agents.put uid record
          lock := some (.rollout ⟨todo, before ++ [s.agents.previous uid], false⟩) }
      else some { s with lock := some (.rollout ⟨(uid, record) :: todo, before, true⟩) }
    | _ => none
  | .putBackRecord restored =>
    match s.lock with
    | some (.rollout ⟨todo, before, true⟩) => before.getLast?.map fun p =>
      { s with
        agents := if restored then s.agents.putBack p else s.agents
        lock := some (.rollout ⟨todo, before.dropLast, true⟩) }
    | _ => none
  | .endRollout =>
    match s.lock with
    | some (.rollout r) => if r.isDone then some { s with lock := none } else none
    | _ => none
  | .persist uid record => if s.lock.isNone then some { s with agents := s.agents.put uid record } else none
  | .forget uid => if s.lock.isNone then some { s with agents := s.agents.remove uid } else none
  | .ask pin =>
    if s.lock.isSome then none
    else if s.agents.pinning pin > 0 then some s
    else some { s with lock := some (.deletion pin) }
  | .delete disk io =>
    match s.lock with
    | some (.deletion pin) => some { deleteOf s disk io pin with lock := none }
    | _ => none

def State.holds : Pin → Bool × Bool
  | .configuration name => ((s.configs.configs.lookup name).isSome, (s.configs.files.lookup name).isSome)
  | .package id => ((s.packages.sets.lookup id).isSome, (s.packages.files.lookup id).isSome)
  | .deployment name => (name ∈ s.deployments.deployments, name ∈ s.deployments.files)

def State.Unnamed : Prop := ∀ pin, s.lock = some (.deletion pin) → ¬s.agents.Pins pin

section Step

variable {s t : State υ ρ} {act : Act υ ρ} {pin : Pin}

private lemma holds_of_same (hconfigs : t.configs = s.configs) (hpackages : t.packages = s.packages)
    (hdeployments : t.deployments = s.deployments) : s.holds pin ≤ t.holds pin := by
  cases pin <;> simp [State.holds, hconfigs, hpackages, hdeployments]

private lemma lookup_configDelete {store store' : ConfigStore} {io : FileIo} {name other : String} {deleted : Bool}
    (h : store.delete io name = .ok (store', deleted)) (hne : other ≠ name) :
    store'.configs.lookup other = store.configs.lookup other ∧
      store'.files.lookup other = store.files.lookup other := by
  unfold ConfigStore.delete at h
  split at h
  · cases h
    exact ⟨rfl, rfl⟩
  · obtain ⟨-, -, heq⟩ := map_eq_ok.mp h
    cases heq
    exact ⟨AList.lookup_erase_ne hne, AList.lookup_erase_ne hne⟩

private lemma mem_deploymentDelete {store store' : DeploymentStore} {io : FileIo} {name other : String}
    {deleted : Bool} (h : store.delete io name = .ok (store', deleted)) (hne : other ≠ name) :
    (other ∈ store'.deployments ↔ other ∈ store.deployments) ∧ (other ∈ store'.files ↔ other ∈ store.files) := by
  unfold DeploymentStore.delete at h
  split at h
  · obtain ⟨-, -, heq⟩ := map_eq_ok.mp h
    cases heq
    simp [hne]
  · cases h
    simp

private lemma holds_deleteOf (disk : Disk) (io : FileIo) {asked : Pin} (hne : pin ≠ asked) :
    s.holds pin ≤ (deleteOf s disk io asked).holds pin := by
  cases asked with
  | configuration name =>
    cases hdelete : s.configs.delete io name with
    | error e => exact holds_of_same (by simp [deleteOf, hdelete, Except.toOption]) rfl rfl
    | ok deleted =>
      cases pin with
      | package id | deployment other => exact le_rfl
      | configuration other =>
        obtain ⟨hconfigs, hfiles⟩ := lookup_configDelete hdelete fun h => hne (congrArg Pin.configuration h)
        simp [State.holds, deleteOf, hdelete, Except.toOption, hconfigs, hfiles]
  | package id =>
    cases pin with
    | configuration name | deployment name => exact le_rfl
    | package other =>
      have hother : other ≠ id := fun h => hne (congrArg Pin.package h)
      obtain ⟨hsets, hfiles⟩ := PackageStore.sameExcept_removeSet s.packages disk id other hother
      simp [State.holds, deleteOf, hsets, hfiles]
  | deployment name =>
    cases hdelete : s.deployments.delete io name with
    | error e => exact holds_of_same rfl rfl (by simp [deleteOf, hdelete, Except.toOption])
    | ok deleted =>
      cases pin with
      | configuration other | package id => exact le_rfl
      | deployment other =>
        obtain ⟨hheld, hfiles⟩ := mem_deploymentDelete hdelete fun h => hne (congrArg Pin.deployment h)
        simp [State.holds, deleteOf, hdelete, Except.toOption, hheld, hfiles]

private lemma step_cases (h : step s act = some t) :
    (∃ agents lock, t = { s with agents := agents, lock := lock } ∧ ∀ pin, lock ≠ some (.deletion pin)) ∨ t = s ∨
      (∃ asked, ¬s.agents.Pins asked ∧ t = { s with lock := some (.deletion asked) }) ∨
      ∃ asked disk io, s.lock = some (.deletion asked) ∧ t = { deleteOf s disk io asked with lock := none } := by
  cases act with
  | beginRollout releases =>
    simp only [step] at h
    split at h <;> cases h
    exact .inl ⟨_, _, rfl, fun _ => by simp⟩
  | releaseRecord written =>
    simp only [step] at h
    split at h
    · split at h <;> cases h <;> exact .inl ⟨_, _, rfl, fun _ => by simp⟩
    · cases h
  | putBackRecord restored =>
    simp only [step] at h
    split at h
    · obtain ⟨p, -, rfl⟩ := Option.map_eq_some_iff.mp h
      exact .inl ⟨_, _, rfl, fun _ => by simp⟩
    · cases h
  | endRollout =>
    simp only [step] at h
    split at h
    · split at h <;> cases h
      exact .inl ⟨_, _, rfl, fun _ => by simp⟩
    · cases h
  | persist uid record | forget uid =>
    simp only [step] at h
    split at h <;> cases h
    exact .inl ⟨_, _, rfl, fun _ => by simp_all⟩
  | ask asked =>
    simp only [step] at h
    split at h
    · cases h
    split at h
    · cases h
      exact .inr (.inl rfl)
    next hnone =>
      cases h
      exact .inr (.inr (.inl ⟨asked, fun hpins => hnone (FsAgentStore.pinning_pos_iff.mpr hpins), rfl⟩))
  | delete disk io =>
    simp only [step] at h
    split at h <;> cases h
    exact .inr (.inr (.inr ⟨_, disk, io, by assumption, rfl⟩))

private lemma State.Unnamed.step (h : s.Unnamed) (hstep : step s act = some t) : t.Unnamed := by
  intro pin hlock
  rcases step_cases hstep with ⟨_, lock, rfl, hfree⟩ | rfl | ⟨asked, hnone, rfl⟩ | ⟨_, _, _, -, rfl⟩
  · exact absurd hlock (hfree pin)
  · exact h pin hlock
  · cases hlock
    exact hnone
  · cases hlock

private lemma State.Unnamed.holds_step (h : s.Unnamed) (hstep : Deletions.step s act = some t)
    (hpins : s.agents.Pins pin) : s.holds pin ≤ t.holds pin := by
  rcases step_cases hstep with ⟨_, _, rfl, -⟩ | rfl | ⟨_, -, rfl⟩ | ⟨asked, disk, io, hlock, rfl⟩
  · exact holds_of_same rfl rfl rfl
  · exact le_rfl
  · exact holds_of_same rfl rfl rfl
  · have hne : pin ≠ asked := by
      rintro rfl
      exact h pin hlock hpins
    exact holds_deleteOf disk io hne

end Step

/-- In every interleaving of rollouts and the other writes of records with deletions, what a stored assignment names is
not deleted: if it is there, in memory or on disk, it is there after the next step too. -/
theorem named_not_deleted (agents : FsAgentStore υ ρ) (configs : ConfigStore)
    (packages : PackageStore) (deployments : DeploymentStore) {s t : State υ ρ} {act : Act υ ρ} {pin : Pin}
    (h : Reach ⟨agents, configs, packages, deployments, none⟩ step s) (hstep : step s act = some t)
    (hpins : s.agents.Pins pin) : s.holds pin ≤ t.holds pin := by
  have hstart : State.Unnamed (⟨agents, configs, packages, deployments, none⟩ : State υ ρ) := by
    intro pin hlock
    cases hlock
  have hunnamed : s.Unnamed := h.invariant hstart fun _ _ _ hs hstep => hs.step hstep
  exact hunnamed.holds_step hstep hpins

/-- A Package that a rollout pinned is asked for, and stays. -/
theorem named_not_deleted_package : ∃ s t : State Nat Unit, s.agents.Pins (.package otelcol) ∧
    step s (.ask (.package otelcol)) = some t ∧ s.holds (.package otelcol) = (true, true) ∧
    s.holds (.package otelcol) ≤ t.holds (.package otelcol) := by
  obtain ⟨s, hrun, hfile, hholds, t, hstep⟩ : ∃ s, run step ⟨.empty, ⟨∅, ∅⟩, onePackage, ⟨∅, ∅⟩, none⟩
      [.beginRollout [(0, pinningRecord)], .releaseRecord true, .endRollout] = some s ∧
      s.agents.files.lookup 0 = some pinningRecord ∧ s.holds (.package otelcol) = (true, true) ∧
      ∃ t, step s (.ask (.package otelcol)) = some t := ⟨_, rfl, rfl, rfl, _, rfl⟩
  have hpins : s.agents.Pins (.package otelcol) := ⟨0, pinningRecord, _, hfile, rfl, by decide⟩
  exact ⟨s, t, hpins, hstep, hholds,
    named_not_deleted _ _ _ _ (Reach.refl.of_run hrun) hstep hpins⟩

end OpampFleet.Server.Deletions
