import OpampFleet.Server.Offers

/-!
# Who may download an artifact

The download route asks `offers_artifact` whether a certificate's host may fetch an artifact, on a store with one
writer. It is written apart from the offer, and tests what does not depend on the Agent first, but comes to the same:
an artifact is granted exactly to the hosts that speak for an Agent whose composed offer names it
(`offersArtifact_iff`). Whether the Agent has echoed the offer already is the gate of the offer alone.
-/

namespace OpampFleet.Server

open Lib Opamp Option

inductive SpeaksFor where
  | any
  | agents (uids : Finset String)

def Register.speaksFor (register : Register) (host : String) : SpeaksFor :=
  match register.hosts.lookup host with
  | some entry => if entry.gateway then .any else .agents entry.instanceUids
  | none => .agents ∅

/-- Without a host register no host speaks for any Agent. -/
def speaksFor (revocations : Option Register) (host : String) : SpeaksFor :=
  revocations.elim (.agents ∅) fun register => register.speaksFor host

def parseHexUid (uid : String) : Option InstanceUid := (Core.hexBytes uid.toList).bind InstanceUid.fromWire

def SpeaksFor.Includes : SpeaksFor → InstanceUid → Prop
  | any, _ => True
  | agents uids, uid => ∃ text ∈ uids, parseHexUid text = some uid

structure Offerable where
  id : PackageId
  platform : Platform

def PackageStore.offerable (store : PackageStore) (id : PackageId) (platform : Platform) : Option Offerable := do
  let entries ← store.sets.lookup id
  let entry ← entries.lookup platform
  if entry.signature.isSome then some ⟨id, platform⟩ else none

def Offerable.offeredTo (quote : String → String) (artifact : Offerable) (assigned : Option PackageId)
    (description : Option AgentDescription) : Bool :=
  assigned = some artifact.id && artifact.id.fits quote description artifact.platform

namespace Offering

variable {H C : Type}

def offersArtifact (quote : String → String) (o : Offering H C) (revocations : Option Register)
    (fleet : Records (wire H C)) (host : String) (id : PackageId) (platform : Platform) : Bool :=
  match o.packages, revocations with
  | some store, some register =>
    match store.offerable id platform with
    | none => false
    | some artifact =>
      let offered (record : AgentRecord (wire H C)) : Bool :=
        includes record.capabilities AgentCapabilities.acceptsPackages && record.assignedPackage = some id &&
          artifact.offeredTo quote record.assignedPackage record.effectiveDescription
      match register.speaksFor host with
      | .any => (Map.values fleet).any offered
      | .agents uids => decide (∃ uid ∈ uids, ((parseHexUid uid).bind fun uid => fleet.lookup uid).any offered = true)
  | _, _ => false

def NamesEntry (sha256 : Bytes → Bytes) (quote : String → String) (o : Offering H C) (record : AgentRecord (wire H C))
    (id : PackageId) (platform : Platform) : Prop :=
  ∃ store entry signature, o.packages = some store ∧
    (store.sets.lookup id).bind (fun entries => entries.lookup platform) = some entry ∧
    Platform.reported quote record.effectiveDescription = some platform ∧
    store.offerForAssigned sha256 quote record.assignedPackage record.effectiveDescription =
      some ⟨[(id.agentType, toAvailable sha256 id entry signature)], aggregateHash sha256 id entry⟩

end Offering

variable {quote : String → String} {store : PackageStore} {id : PackageId} {platform : Platform}

private lemma offerable_eq_some {artifact : Offerable} : store.offerable id platform = some artifact ↔
    artifact = ⟨id, platform⟩ ∧ ∃ entry signature,
      (store.sets.lookup id).bind (fun entries => entries.lookup platform) = some entry ∧
      entry.signature = some signature := by
  simp only [PackageStore.offerable, bind_eq_bind, bind_eq_some_iff, ite_none_right_eq_some,
    isSome_iff_exists, some.injEq]
  constructor
  · rintro ⟨entries, hset, entry, hentry, ⟨signature, hsigned⟩, heq⟩
    exact ⟨heq.symm, entry, signature, ⟨entries, hset, hentry⟩, hsigned⟩
  · rintro ⟨heq, entry, signature, ⟨entries, hset, hentry⟩, hsigned⟩
    exact ⟨entries, hset, entry, hentry, ⟨signature, hsigned⟩, heq.symm⟩

section

variable {description : Option AgentDescription}

private lemma reported_of_fits (h : id.fits quote description platform = true) :
    Platform.reported quote description = some platform := by
  unfold PackageId.fits at h
  simp only [Bool.and_eq_true, decide_eq_true_eq] at h
  exact h.2

/-- The entry offered is signed and fits. -/
lemma offeredEntry_eq_some {assigned : Option PackageId} {entry : Entry}
    {signature : Bytes} : offeredEntry quote store.sets assigned description = some (id, entry, signature) ↔
      assigned = some id ∧ ∃ platform, id.fits quote description platform = true ∧
        (store.sets.lookup id).bind (fun entries => entries.lookup platform) = some entry ∧
        entry.signature = some signature := by
  simp only [offeredEntry, bind_eq_bind, bind_eq_some_iff]
  constructor
  · rintro ⟨named, hassigned, entries, hset, platform, -, hoffer⟩
    split at hoffer
    · cases hoffer
    rename_i hfits
    obtain ⟨found, hentry, hoffer⟩ := bind_eq_some_iff.mp hoffer
    obtain ⟨signed, hsigned, heq⟩ := bind_eq_some_iff.mp hoffer
    cases heq
    exact ⟨hassigned, platform, by simpa using hfits, ⟨entries, hset, hentry⟩, hsigned⟩
  · rintro ⟨hassigned, platform, hfits, ⟨entries, hset, hentry⟩, hsigned⟩
    exact ⟨id, hassigned, entries, hset, platform, reported_of_fits hfits, by simp [hfits, hentry, hsigned]⟩

private lemma offeredEntry_of_offer {sha256 : Bytes → Bytes} {assigned : Option PackageId}
    {entry : Entry} {signature : Bytes} {hash : Bytes} (h : store.offerForAssigned sha256 quote assigned description =
      some ⟨[(id.agentType, toAvailable sha256 id entry signature)], hash⟩) :
    ∃ found, offeredEntry quote store.sets assigned description = some (id, found, signature) := by
  obtain ⟨⟨named, found, signed⟩, hoffered, heq⟩ := map_eq_some_iff.mp h
  simp only [PackagesAvailable.mk.injEq, List.cons.injEq, Prod.mk.injEq, and_true, toAvailable,
    PackageAvailable.mk.injEq, DownloadableFile.mk.injEq] at heq
  obtain ⟨⟨htype, hversion, ⟨-, -, rfl⟩, -⟩, -⟩ := heq
  obtain rfl : named = id := by
    cases named
    cases id
    simp_all
  exact ⟨found, hoffered⟩

end

variable {H C : Type}

private lemma namesEntry_iff {o : Offering H C} (hpackages : o.packages = some store) (sha256 : Bytes → Bytes)
    (record : AgentRecord (wire H C)) : o.NamesEntry sha256 quote record id platform ↔
      ∃ artifact, store.offerable id platform = some artifact ∧ record.assignedPackage = some id ∧
        artifact.offeredTo quote record.assignedPackage record.effectiveDescription = true := by
  constructor
  · rintro ⟨held, entry, signature, hheld, -, hreported, hoffer⟩
    obtain rfl : held = store := Option.some.inj (hheld.symm.trans hpackages)
    obtain ⟨found, hfound⟩ := offeredEntry_of_offer hoffer
    obtain ⟨hassigned, other, hfits, hentry, hsigned⟩ := offeredEntry_eq_some.mp hfound
    obtain rfl : other = platform := Option.some.inj ((reported_of_fits hfits).symm.trans hreported)
    refine ⟨⟨id, other⟩, offerable_eq_some.mpr ⟨rfl, found, signature, hentry, hsigned⟩, hassigned, ?_⟩
    simp [Offerable.offeredTo, hassigned, hfits]
  · rintro ⟨artifact, hartifact, hassigned, hoffered⟩
    obtain ⟨rfl, entry, signature, hentry, hsigned⟩ := offerable_eq_some.mp hartifact
    have hfits : id.fits quote record.effectiveDescription platform = true := by
      simpa [Offerable.offeredTo, hassigned] using hoffered
    refine ⟨store, entry, signature, hpackages, hentry, reported_of_fits hfits, ?_⟩
    unfold PackageStore.offerForAssigned
    rw [offeredEntry_eq_some.mpr ⟨hassigned, platform, hfits, hentry, hsigned⟩]
    rfl

/-- The download route grants an artifact to a host exactly when the host speaks for an Agent that accepts packages
and whose composed offer names the artifact. -/
theorem offersArtifact_iff (sha256 : Bytes → Bytes) (quote : String → String) (o : Offering H C)
    (revocations : Option Register) (fleet : Records (wire H C)) (host : String) (id : PackageId)
    (platform : Platform) :
    o.offersArtifact quote revocations fleet host id platform = true ↔
      ∃ uid record, (speaksFor revocations host).Includes uid ∧ fleet.lookup uid = some record ∧
        includes record.capabilities AgentCapabilities.acceptsPackages = true ∧
        o.NamesEntry sha256 quote record id platform := by
  cases revocations with
  | none => simp [Offering.offersArtifact, speaksFor, SpeaksFor.Includes]
  | some register =>
    cases hpackages : o.packages with
    | none => simp [Offering.offersArtifact, Offering.NamesEntry, hpackages]
    | some store =>
      simp only [Offering.offersArtifact, hpackages, namesEntry_iff hpackages sha256, speaksFor, elim_some]
      cases hartifact : store.offerable id platform with
      | none => simp
      | some artifact =>
        simp only [some.injEq, exists_eq_left']
        cases hspeaks : register.speaksFor host with
        | any =>
          simp only [SpeaksFor.Includes, true_and, List.any_eq_true, Map.mem_values, Bool.and_eq_true,
            decide_eq_true_eq, and_assoc]
          constructor
          · rintro ⟨record, ⟨uid, hrecord⟩, hoffered⟩
            exact ⟨uid, record, hrecord, hoffered⟩
          · rintro ⟨uid, record, hrecord, hoffered⟩
            exact ⟨record, ⟨uid, hrecord⟩, hoffered⟩
        | agents uids =>
          simp only [SpeaksFor.Includes, Option.any_eq_true, bind_eq_some_iff, Bool.and_eq_true,
            decide_eq_true_eq, and_assoc]
          constructor
          · rintro ⟨text, htext, record, ⟨uid, huid, hrecord⟩, hoffered⟩
            exact ⟨uid, record, ⟨text, htext, huid⟩, hrecord, hoffered⟩
          · rintro ⟨uid, record, ⟨text, htext, huid⟩, hrecord, hoffered⟩
            exact ⟨text, htext, record, ⟨uid, huid, hrecord⟩, hoffered⟩

end OpampFleet.Server
