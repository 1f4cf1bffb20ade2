import OpampFleet.Server.Downloads
import OpampFleet.Server.PinnedEntries

/-!
# What an operator edits and what an Agent is offered

Saving distributes nothing. An offer is composed from the Agent's assignment, out of the retained revisions the
assignment names and the entries of the Package it names. A save replaces the revision of a Configuration that is not
retained, a Deployment is read by a rollout alone, and an upload changes the Package it is for.
-/

namespace OpampFleet.Server.Edits

open Lib Opamp Server.Pinned

variable {H C : Type}

structure Aimed where
  selector : Map String String
  deployment : Deployment

structure Desk (H C : Type) where
  fleet : Records (wire H C)
  offering : Offering H C
  deployments : Map String Aimed

inductive Act where
  | saveConfiguration (name : String) (revision : Revision) (io : FileIo)
  | editDeployment (name : String) (edited : Aimed)
  | createPackageSet (id : PackageId) (disk : Disk)
  | write (w : EntryWrite) (disk : Disk)

def assignedNone (fleet : Records (wire H C)) (id : PackageId) : Bool :=
  (Map.values fleet).all fun record => record.assignedPackage ≠ some id

/-- An edit that fails leaves what it was to change as it was, but for the files. -/
def step (sha256 : Bytes → Bytes) (quote : String → String) (verifier : Option (Bytes → Bytes → Bool))
    (s : Desk H C) : Act → Option (Desk H C)
  | .saveConfiguration name revision io =>
    let configs := (s.offering.configs.putSaved quote io name revision).toOption.getD s.offering.configs
    some { s with offering := { s.offering with configs := configs } }
  | .editDeployment name edited => some { s with deployments := s.deployments.insert name edited }
  | .createPackageSet id disk =>
    let packages := s.offering.packages.map fun store => (store.create disk id).1
    some { s with offering := { s.offering with packages := packages } }
  | .write w disk =>
    if assignedNone s.fleet w.id then
      let packages := s.offering.packages.map fun store => w.apply sha256 verifier disk store
      some { s with offering := { s.offering with packages := packages } }
    else none

structure Offered where
  desired : Option DesiredConfig
  composed : Option PackagesAvailable
  remoteConfig : Option AgentRemoteConfig
  packagesAvailable : Option PackagesAvailable

def offered (sha256 : Bytes → Bytes) (quote : String → String) (s : Desk H C) (uid : InstanceUid) : Option Offered :=
  (s.fleet.lookup uid).map fun record =>
    let desired := s.offering.configs.compose sha256 record.assignedConfigurations
    { desired := desired
      composed := s.offering.packages.bind fun store =>
        store.offerForAssigned sha256 quote record.assignedPackage record.effectiveDescription
      remoteConfig := offer record desired
      packagesAvailable := s.offering.packagesOffer sha256 quote record }

variable {sha256 : Bytes → Bytes} {quote : String → String} {verifier : Option (Bytes → Bytes → Bool)}

private lemma compose_congr {store store' : ConfigStore}
    (h : ∀ name hash, store'.configs.revisionOf name hash = store.configs.revisionOf name hash)
    (assignments : Map String String) : store'.compose sha256 assignments = store.compose sha256 assignments := by
  unfold ConfigStore.compose ConfigStore.composedEntries
  simp only [h]

private lemma offeredEntry_congr {store store' : PackageStore} {assigned : Option PackageId}
    (h : ∀ id, assigned = some id → (store'.entriesOf id).1 = (store.entriesOf id).1)
    (description : Option AgentDescription) :
    offeredEntry quote store'.sets assigned description = offeredEntry quote store.sets assigned description := by
  have hbind : ∀ (store : PackageStore) id platform,
      (store.sets.lookup id).bind (fun entries => entries.lookup platform) =
        (store.entriesOf id).1.lookup platform := by
    intro store id platform
    cases hset : store.sets.lookup id <;> simp [PackageStore.entriesOf, hset]
  ext ⟨id, entry, signature⟩
  rw [offeredEntry_eq_some, offeredEntry_eq_some]
  refine and_congr_right fun hassigned => ?_
  simp only [hbind, h id hassigned]

private lemma offered_of_packages {s : Desk H C} {uid : InstanceUid} {change : PackageStore → PackageStore}
    (h : ∀ record store id, s.fleet.lookup uid = some record → record.assignedPackage = some id →
      ((change store).entriesOf id).1 = (store.entriesOf id).1) :
    offered sha256 quote { s with offering := { s.offering with packages := s.offering.packages.map change } } uid =
      offered sha256 quote s uid := by
  cases hrecord : s.fleet.lookup uid with
  | none => simp [offered, hrecord]
  | some record =>
    cases hstore : s.offering.packages with
    | none => simp only [offered, hrecord, hstore, Option.map_none, Offering.packagesOffer]
    | some store =>
      have hentry := @offeredEntry_congr quote store (change store) record.assignedPackage
        (fun id => h record store id hrecord) record.effectiveDescription
      have hhash : (change store).assignedHashFor sha256 quote record.assignedPackage record.effectiveDescription =
          store.assignedHashFor sha256 quote record.assignedPackage record.effectiveDescription := by
        unfold PackageStore.assignedHashFor
        rw [hentry]
      simp [offered, hrecord, hstore, Offering.packagesOffer, hhash, PackageStore.offerForAssigned, hentry]

private lemma offered_step {s t : Desk H C} {act : Act} (h : step sha256 quote verifier s act = some t)
    (uid : InstanceUid) : offered sha256 quote t uid = offered sha256 quote s uid := by
  cases act with
  | saveConfiguration name revision io =>
    cases h
    cases hsave : s.offering.configs.putSaved quote io name revision with
    | error e => rfl
    | ok configs =>
      obtain rfl := putSaved_eq_ok hsave
      have hsame := fun record : AgentRecord (wire H C) => @compose_congr sha256 s.offering.configs
        ⟨s.offering.configs.configs.setSaved name revision, s.offering.configs.files.setSaved name revision⟩
        (revisionOf_setSaved _ name revision) record.assignedConfigurations
      simp only [offered, Except.toOption, Option.getD_some, hsame]
      rfl
  | editDeployment name edited =>
    cases h
    rfl
  | createPackageSet id disk =>
    cases h
    refine offered_of_packages fun record store other _ _ => ?_
    rw [PackageStore.entriesOf_create]
  | write w disk =>
    obtain ⟨hunassigned, h⟩ := Option.ite_none_right_eq_some.mp h
    cases h
    refine offered_of_packages fun record store other hrecord hassigned => ?_
    have hne : other ≠ w.id := by
      rintro rfl
      have hall := List.all_eq_true.mp hunassigned record (Map.mem_values.mpr ⟨uid, hrecord⟩)
      simp [hassigned] at hall
    rw [(sameExcept_apply w disk store).entriesOf hne]

/-- From every state of the Server, no run of saves, of edits of Deployments and their Selectors, and of writes to
Packages that no Agent is assigned changes what an Agent is offered. -/
theorem offered_unchanged (sha256 : Bytes → Bytes) (quote : String → String)
    (verifier : Option (Bytes → Bytes → Bool)) {s t : Desk H C} (h : Reach s (step sha256 quote verifier) t)
    (uid : InstanceUid) : offered sha256 quote t uid = offered sha256 quote s uid := by
  induction h with
  | refl => rfl
  | next act _ hstep ih => exact (offered_step hstep uid).trans ih

namespace Small

def desk : Desk Unit Unit where
  fleet := AList.singleton (.ofByte 1)
    { AgentRecord.new 0 .webSocket (some 1) 0 with
      capabilities := 2
      assignment := some ⟨"fleet", none, AList.singleton "base" "a"⟩ }
  offering :=
    { shared := false, maxAgents := 1, packages := none, connectionOffer := none, telemetryOffer := ⟨none, none, none⟩
      configs := ⟨AList.singleton "base" ⟨"base", ⟨"a", "", "otelcol"⟩, AList.singleton "a" ⟨"a", "", "otelcol"⟩⟩, ∅⟩
      place := fun _ _ _ => ⟨none, ∅⟩, unplace := fun _ _ _ _ => ⟨none, ∅⟩, clientCa := none }
  deployments := ∅

def acts : List Act :=
  [.saveConfiguration "base" ⟨"b", "", "otelcol"⟩ .ok, .editDeployment "fleet" ⟨∅, ⟨"fleet", ∅, ["base"]⟩⟩]

end Small

/-- The Configuration is saved with another body, and the Agent is still sent the one it is assigned. -/
theorem offered_unchanged_saved : ∃ t, Reach Small.desk (step id id none) t ∧
    (t.offering.configs.configs.lookup "base").any (fun config => config.saved.body = "b") = true ∧
    (offered id id t (.ofByte 1)).any (fun offered => offered.remoteConfig.isSome) = true ∧
    offered id id t (.ofByte 1) = offered id id Small.desk (.ofByte 1) := by
  refine Reach.exists_of_run_imp (p := fun t =>
    (t.offering.configs.configs.lookup "base").any (fun config => config.saved.body = "b") = true) Small.acts
    (by decide +kernel) ?_
  intro t hreach hsaved
  have hsame := offered_unchanged id id none hreach (.ofByte 1)
  refine ⟨hsaved, ?_, hsame⟩
  rw [hsame]
  decide +kernel

end OpampFleet.Server.Edits
