import OpampFleet.Server.AgentStore
import OpampFleet.Server.Configs

/-!
# Rollouts and what they pin

The model of the acts of `fleet.rs` that read or write what an assignment pins, on the filesystem store: the saving
and deleting of Configurations, the rollouts, and the acts that move or drop an Agent's record. Each holds the fleet
lock throughout, so an act is one step; what the environment decides (which file operation fails) comes with it.

A rollout's releases come with the act: which Agents a Deployment claims, and what it would release to each, is the
Deployments' matter.
-/

namespace OpampFleet.Server

open Lib List

variable {υ ρ : Type} [DecidableEq υ]

structure Fleet (υ ρ : Type) [DecidableEq υ] where
  configs : ConfigStore
  agents : FsAgentStore υ ρ
  held : Map υ (PersistedAgent ρ)

/-- The environment's answers to a rollout's file operations; a list that has run out answers with success. -/
structure RolloutIo where
  retains : List FileIo
  puts : List (Except String Unit)
  putBacks : List Bool
  collects : List FileIo

def nameSet (names : List String) : List String := names.dedup.insertionSort (· ≤ ·)

def Assignment.names (assignment : Option Assignment) : List String :=
  assignment.elim [] fun a => a.configurations.keys

def hashIn (pinned : List Pinned) (name : String) : Option String :=
  (pinned.find? fun p => p.configuration == name).map Pinned.hash

def Assignment.pinnedAt (pinned : List Pinned) (release : Assignment) : Assignment :=
  { release with
    configurations := Map.mapValues release.configurations fun name hash => (hashIn pinned name).getD hash }

lemma mem_nameSet {names : List String} {name : String} : name ∈ nameSet names ↔ name ∈ names := by
  rw [nameSet, mem_insertionSort, mem_dedup]

lemma lookup_pinnedAt {pinned : List Pinned} {release : Assignment} {name hash : String}
    (hnames : ∀ n, release.configurations.lookup n ≠ none → ∃ p ∈ pinned, p.configuration = n)
    (h : (release.pinnedAt pinned).configurations.lookup name = some hash) :
    ∃ p, pinned.find? (fun p => p.configuration == name) = some p ∧ p.configuration = name ∧ p.hash = hash := by
  simp only [Assignment.pinnedAt, Map.lookup_mapValues, Option.map_eq_some_iff] at h
  obtain ⟨old, hold, heq⟩ := h
  obtain ⟨p, hp, hpn⟩ := hnames name (by simp [hold])
  obtain ⟨q, hq⟩ : ∃ q, pinned.find? (fun p => p.configuration == name) = some q := by
    rw [← Option.isSome_iff_exists, find?_isSome]
    exact ⟨p, hp, by simp [hpn]⟩
  refine ⟨q, hq, ?_, ?_⟩
  · simpa using find?_some hq
  · simpa [hashIn, hq] using heq

def retainAll (quote : String → String) (files : Configurations) :
    List Pinned → List FileIo → Configurations × Except String Unit
  | [], _ => (files, .ok ())
  | p :: ps, ios =>
    match retain quote files (ios.headD .ok) p with
    | .error e => (files, .error e)
    | .ok files => retainAll quote files ps ios.tail

def collectAll (agents : FsAgentStore υ ρ) (configs : ConfigStore) : List String → List FileIo → ConfigStore
  | [], _ => configs
  | name :: names, ios =>
    match configs.retainOnly (ios.headD .ok) name (agents.referencedRevisions name) with
    | .ok configs => collectAll agents configs names ios.tail
    | .error _ => collectAll agents configs names ios.tail

namespace Fleet

def release (quote : String → String) (s : Fleet υ ρ) (pinned : List Pinned) (records : List (υ × PersistedAgent ρ))
    (io : RolloutIo) : Fleet υ ρ × Except String (List υ) :=
  match retainAll quote s.configs.files pinned io.retains with
  | (files, .error e) => ({ s with configs := { s.configs with files := files } }, .error e)
  | (files, .ok ()) =>
    let (agents, wrote) := s.agents.releaseRecords [] records io.puts io.putBacks
    ({ s with configs := { s.configs with files := files }, agents := agents }, wrote)

variable (s : Fleet υ ρ) (sha256 : Bytes → Bytes)

def collectRevisions (names : List String) (ios : List FileIo) : Fleet υ ρ :=
  { s with configs := collectAll s.agents s.configs (nameSet names) ios }

def assign (held : Map υ (PersistedAgent ρ)) (record : υ × PersistedAgent ρ) : Map υ (PersistedAgent ρ) :=
  match held.lookup record.1 with
  | some r => held.insert record.1 { r with assignment := record.2.assignment }
  | none => held

def released (pinned : List Pinned) (r : υ × PersistedAgent ρ × Option Assignment) : υ × PersistedAgent ρ :=
  (r.1, { r.2.1 with assignment := r.2.2.map (Assignment.pinnedAt pinned) })

def writeReleases (quote : String → String) (s : Fleet υ ρ)
    (releases : List (υ × PersistedAgent ρ × Option Assignment)) (io : RolloutIo) :
    Fleet υ ρ × Except String (Nat × List String) :=
  let names := nameSet (releases.flatMap fun r => Assignment.names r.2.2)
  let touched := releases.flatMap fun r => Assignment.names r.2.1.assignment
  match s.configs.pinnedOf sha256 quote names with
  | .error e => (s.collectRevisions names io.collects, .error e)
  | .ok pinned =>
    let records := releases.map (released pinned)
    let (s, wrote) := s.release quote pinned records io
    let s := { s with configs := s.configs.holdPinned pinned }
    match wrote with
    | .error e => (s.collectRevisions names io.collects, .error e)
    | .ok _ =>
      ({ s with held := records.foldl assign s.held },
        .ok (records.length, touched ++ records.flatMap fun r => Assignment.names r.2.assignment))

/-- `rollout_to_agent` and `rollout_deployment` once they know what to release to whom. -/
def rollout (quote : String → String) (s : Fleet υ ρ)
    (releases : List (υ × Option Assignment)) (io : RolloutIo) : Fleet υ ρ :=
  let releases := releases.filterMap fun r => (s.held.lookup r.1).map fun base => (r.1, base, r.2)
  match s.writeReleases sha256 quote releases io with
  | (s, .error _) => s
  | (s, .ok (_, touched)) => s.collectRevisions touched io.collects

def saveConfiguration (quote : String → String) (s : Fleet υ ρ) (name : String) (revision : Revision) (io : FileIo) :
    Except String (Fleet υ ρ) :=
  (s.configs.putSaved quote io name revision).map fun configs => { s with configs := configs }

/-- `delete_configuration`; the Deployments that held it are not part of the state. -/
def deleteConfiguration (quote : String → String) (s : Fleet υ ρ) (name : String) (io : FileIo) :
    Except String (Fleet υ ρ) :=
  let pinning := s.agents.pinning (.configuration name)
  if pinning > 0 then
    .error (s!"configuration {quote name} is pinned by the assignment of {pinning} Agent(s) — roll them out through a " ++
      "Deployment without it, or forget them, before deleting it")
  else (s.configs.delete io name).map fun deleted => { s with configs := deleted.1 }

/-- `forget_agent`, past its question whether the Agent still reports. A record the store cannot remove stays there. -/
def forgetAgent (uid : υ) (removed : Bool) (collects : List FileIo) : Option (Fleet υ ρ) :=
  (s.held.lookup uid).map fun record =>
    let agents := if removed then s.agents.remove uid else s.agents
    collectRevisions { s with agents := agents, held := s.held.erase uid } (Assignment.names record.assignment) collects

/-- The re-key of a report that asks for an `instance_uid`: the store's two writes, and what is held moved once both
succeeded. A minted identity names no other record. -/
def rekey (old new : υ) (put removed : Bool) : Option (Fleet υ ρ) :=
  match s.held.lookup old, s.held.lookup new with
  | some record, none =>
    let agents := if put then s.agents.put new record else s.agents
    if put && removed then
      some { s with agents := agents.remove old, held := (s.held.erase old).insert new record }
    else some { s with agents := agents }
  | _, _ => none

/-- A report: what it says of the Agent is held, under a new record for one that is not, and written unless the write
fails or nothing of it is new. -/
def report (uid : υ) (rest : ρ) (written : Bool) : Fleet υ ρ :=
  let record : PersistedAgent ρ := ⟨(s.held.lookup uid).bind PersistedAgent.assignment, rest⟩
  { s with
    agents := if written then s.agents.put uid record else s.agents
    held := s.held.insert uid record }

def restart : Fleet υ ρ :=
  collectRevisions { s with configs := { s.configs with configs := s.configs.files }, held := s.agents.files }
    s.configs.files.keys []

inductive Act (υ ρ : Type) where
  | saveConfiguration (name : String) (revision : Revision) (io : FileIo)
  | rollout (releases : List (υ × Option Assignment)) (io : RolloutIo)
  | deleteConfiguration (name : String) (io : FileIo)
  | forgetAgent (uid : υ) (removed : Bool) (collects : List FileIo)
  | rekey (old new : υ) (put removed : Bool)
  | report (uid : υ) (rest : ρ) (written : Bool)
  | restart

/-- An act that fails leaves the fleet as it was. -/
def step (quote : String → String) (s : Fleet υ ρ) : Act υ ρ → Option (Fleet υ ρ)
  | .saveConfiguration name revision io => some ((s.saveConfiguration quote name revision io).toOption.getD s)
  | .rollout releases io => some (s.rollout sha256 quote releases io)
  | .deleteConfiguration name io => some ((s.deleteConfiguration quote name io).toOption.getD s)
  | .forgetAgent uid removed collects => s.forgetAgent uid removed collects
  | .rekey old new put removed => s.rekey old new put removed
  | .report uid rest written => some (s.report uid rest written)
  | .restart => some s.restart

def start : Fleet υ ρ := ⟨⟨∅, ∅⟩, .empty, ∅⟩

end Fleet

end OpampFleet.Server
