import OpampFleet.Lib.Map

/-!
# The Agent-record store on the filesystem

The model of `fs/agents.rs`: one file per Agent, and beside the files the assignment each of them carries, from which
the store answers what the stored assignments pin. `FsAgentStore` holds the two together, so an index that disagrees
with the files cannot be built.

`υ` stands for instance UIDs and `ρ` for the fields of a record that no assignment reads.
-/

namespace OpampFleet.Server

open Lib Map

structure PackageId where
  agentType : String
  version : String
  deriving DecidableEq

structure Assignment where
  deployment : String
  package : Option PackageId
  configurations : Map String String
  deriving DecidableEq

inductive Pin where
  | configuration (name : String)
  | package (id : PackageId)
  | deployment (name : String)

def Pin.pinnedBy (pin : Pin) (assignment : Assignment) : Bool :=
  match pin with
  | configuration name => (assignment.configurations.lookup name).isSome
  | package id => assignment.package == some id
  | deployment name => assignment.deployment == name

structure PersistedAgent (ρ : Type) where
  assignment : Option Assignment
  rest : ρ

variable {υ ρ : Type} [DecidableEq υ]

structure FsAgentStore (υ ρ : Type) [DecidableEq υ] where
  files : Map υ (PersistedAgent ρ)
  assignments : Map υ Assignment
  agree : ∀ uid, assignments.lookup uid = (files.lookup uid).bind PersistedAgent.assignment

/-- What a release notes of a record before it writes it; the assignment noted beside the bytes is that record's
(`FsAgentStore.agree`). -/
structure Previous (υ ρ : Type) where
  uid : υ
  record : Option (PersistedAgent ρ)

namespace FsAgentStore

def empty : FsAgentStore υ ρ := ⟨∅, ∅, fun _ => by simp⟩

variable (store : FsAgentStore υ ρ)

def write (uid : υ) (record : Option (PersistedAgent ρ)) : FsAgentStore υ ρ where
  files := Map.set store.files uid record
  assignments := Map.set store.assignments uid (record.bind PersistedAgent.assignment)
  agree other := by
    rw [lookup_set, lookup_set]
    split
    · rfl
    · exact store.agree other

def put (uid : υ) (record : PersistedAgent ρ) : FsAgentStore υ ρ :=
  store.write uid (some record)

def remove (uid : υ) : FsAgentStore υ ρ := store.write uid none

def previous (uid : υ) : Previous υ ρ :=
  ⟨uid, store.files.lookup uid⟩

def putBack (p : Previous υ ρ) : FsAgentStore υ ρ := store.write p.uid p.record

def putBackAll (store : FsAgentStore υ ρ) : List (Previous υ ρ) → List Bool → FsAgentStore υ ρ
  | [], _ => store
  | p :: ps, restored => putBackAll (if restored.headD true then store.putBack p else store) ps restored.tail

/-- The records of a release written one by one; the first that fails puts the written ones back, last first. -/
def releaseRecords (store : FsAgentStore υ ρ) (written : List (Previous υ ρ)) :
    List (υ × PersistedAgent ρ) → List (Except String Unit) → List Bool → FsAgentStore υ ρ × Except String (List υ)
  | [], _, _ => (store, .ok (written.map Previous.uid))
  | (uid, record) :: agents, puts, restored =>
    match puts.headD (.ok ()) with
    | .ok () =>
      releaseRecords (store.put uid record) (written ++ [store.previous uid]) agents puts.tail restored
    | .error e => (store.putBackAll written.reverse restored, .error e)

def referencedRevisions (name : String) : List String :=
  (Map.values store.assignments).filterMap fun assignment => assignment.configurations.lookup name

private lemma files_write (uid other : υ) (record : Option (PersistedAgent ρ)) :
    (store.write uid record).files.lookup other = if other = uid then record else store.files.lookup other :=
  lookup_set store.files other uid record

lemma assignments_write (uid other : υ) (record : Option (PersistedAgent ρ)) :
    (store.write uid record).assignments.lookup other =
      if other = uid then record.bind PersistedAgent.assignment else store.assignments.lookup other :=
  lookup_set store.assignments other uid _

def pinning (pin : Pin) : Nat := Map.countP store.assignments pin.pinnedBy

def Pins (pin : Pin) : Prop :=
  ∃ uid record assignment, store.files.lookup uid = some record ∧ record.assignment = some assignment ∧
    pin.pinnedBy assignment = true

variable {store other : FsAgentStore υ ρ} {name hash : String} {restored : List Bool}
  {agents : List (υ × PersistedAgent ρ)} {record : Option (PersistedAgent ρ)} {puts : List (Except String Unit)}
  {written : List (Previous υ ρ)}

/-- The count of a pin is positive exactly when a record holds it. -/
lemma pinning_pos_iff {pin : Pin} : 0 < store.pinning pin ↔ store.Pins pin := by
  unfold pinning Pins
  rw [Map.countP_pos_iff]
  refine exists_congr fun uid => ?_
  rw [store.agree uid]
  constructor
  · rintro ⟨assignment, ha, hp⟩
    obtain ⟨record, hr, ha⟩ := Option.bind_eq_some_iff.mp ha
    exact ⟨record, assignment, hr, ha, hp⟩
  · rintro ⟨record, assignment, hr, ha, hp⟩
    exact ⟨assignment, by simp [hr, ha], hp⟩

/-- A write adds the pins of its record only. -/
lemma Pins.of_write {uid : υ} {pin : Pin} (h : (store.write uid record).Pins pin) :
    store.Pins pin ∨ ∃ assignment, record.bind PersistedAgent.assignment = some assignment ∧
      pin.pinnedBy assignment = true := by
  obtain ⟨other, r, assignment, hr, ha, hp⟩ := h
  rw [files_write] at hr
  split at hr
  · exact .inr ⟨assignment, by simp [hr, ha], hp⟩
  · exact .inl ⟨other, r, assignment, hr, ha, hp⟩

def References (name hash : String) : Prop :=
  ∃ uid assignment, store.assignments.lookup uid = some assignment ∧ assignment.configurations.lookup name = some hash

lemma mem_referencedRevisions : hash ∈ store.referencedRevisions name ↔ store.References name hash := by
  unfold referencedRevisions References
  rw [List.mem_filterMap]
  constructor
  · rintro ⟨assignment, ha, hc⟩
    obtain ⟨uid, hu⟩ := mem_values.mp ha
    exact ⟨uid, assignment, hu, hc⟩
  · rintro ⟨uid, assignment, hu, hc⟩
    exact ⟨assignment, mem_values.mpr ⟨uid, hu⟩, hc⟩

/-- A write adds the references of its record only. -/
lemma References.of_write {uid : υ} (h : (store.write uid record).References name hash) :
    store.References name hash ∨ ∃ assignment, record.bind PersistedAgent.assignment = some assignment ∧
      assignment.configurations.lookup name = some hash := by
  obtain ⟨other, assignment, ha, hc⟩ := h
  rw [assignments_write] at ha
  split at ha
  · exact .inr ⟨assignment, ha, hc⟩
  · exact .inl ⟨other, assignment, ha, hc⟩

def Same (store other : FsAgentStore υ ρ) : Prop := ∀ uid, store.files.lookup uid = other.files.lookup uid

lemma Same.assignments (h : store.Same other) (uid : υ) :
    store.assignments.lookup uid = other.assignments.lookup uid := by
  rw [store.agree, other.agree, h uid]

lemma Same.references (h : store.Same other) (href : store.References name hash) : other.References name hash := by
  obtain ⟨uid, assignment, ha, hc⟩ := href
  exact ⟨uid, assignment, h.assignments uid ▸ ha, hc⟩

private lemma putBack_previous (store : FsAgentStore υ ρ) (uid : υ) (record : PersistedAgent ρ) :
    ((store.put uid record).putBack (store.previous uid)).Same store := by
  intro other
  simp only [putBack, previous, put, files_write]
  by_cases h : other = uid
  · rw [if_pos h, h]
  · rw [if_neg h, if_neg h]

private lemma Same.putBackAll (h : store.Same other) (ps : List (Previous υ ρ)) :
    (store.putBackAll ps []).Same (other.putBackAll ps []) := by
  induction ps generalizing store other with
  | nil => exact h
  | cons p ps ih =>
    refine ih fun uid => ?_
    simp [putBack, files_write, h uid]

private lemma putBackAll_restored (store : FsAgentStore υ ρ) (ps : List (Previous υ ρ))
    (h : ∀ b ∈ restored, b = true) : store.putBackAll ps restored = store.putBackAll ps [] := by
  induction ps generalizing store restored with
  | nil => rfl
  | cons p ps ih =>
    cases restored with
    | nil => rfl
    | cons b bs =>
      obtain rfl : b = true := h b (by simp)
      exact ih _ fun c hc => h c (List.mem_cons_of_mem _ hc)

/-- Records that could not all be written are put back. -/
lemma releaseRecords_error (base : FsAgentStore υ ρ) {e : String}
    (hundo : (store.putBackAll written.reverse []).Same base) (hback : ∀ b ∈ restored, b = true)
    (h : (store.releaseRecords written agents puts restored).2 = .error e) :
    (store.releaseRecords written agents puts restored).1.Same base := by
  induction agents generalizing store written puts with
  | nil => cases h
  | cons agent agents ih =>
    obtain ⟨uid, record⟩ := agent
    cases hput : puts.headD (.ok ()) with
    | ok u =>
      simp only [releaseRecords, hput] at h ⊢
      refine ih ?_ h
      -- the record written last is put back first
      rw [List.reverse_append]
      intro other
      exact ((putBack_previous store uid record).putBackAll written.reverse other).trans (hundo other)
    | error e' =>
      simp only [releaseRecords, hput]
      rwa [putBackAll_restored store _ hback]

/-- Where all went well, every record is written. -/
lemma releaseRecords_ok {uids : List υ} (h : (store.releaseRecords written agents puts restored).2 = .ok uids) :
    (store.releaseRecords written agents puts restored).1 =
      agents.foldl (fun store agent => store.put agent.1 agent.2) store := by
  induction agents generalizing store written puts with
  | nil => rfl
  | cons agent agents ih =>
    obtain ⟨uid, record⟩ := agent
    cases hput : puts.headD (.ok ()) with
    | ok u =>
      simp only [releaseRecords, hput] at h ⊢
      exact ih h
    | error e =>
      simp only [releaseRecords, hput] at h
      cases h

/-- `written` and `removed` are what the file system answers to the two steps. -/
def rekey (old new : υ) (record : PersistedAgent ρ) (written removed : Except String Unit) :
    FsAgentStore υ ρ × Except String Unit :=
  match written with
  | .error e => (store, .error e)
  | .ok () =>
    match removed with
    | .error e => (store.put new record, .error e)
    | .ok () => ((store.put new record).remove old, .ok ())

structure MovedNothing (before after : FsAgentStore υ ρ) : Prop where
  records : after.Same before
  pinning : ∀ pin, after.pinning pin = before.pinning pin
  revisions : ∀ name, after.referencedRevisions name = before.referencedRevisions name

/-- A re-key that answers an error has moved nothing exactly when it was the write that failed. -/
theorem failed_rekey_movedNothing_iff {old new : υ} {record : PersistedAgent ρ} {written removed : Except String Unit}
    (hnew : store.files.lookup new = none) (herror : (store.rekey old new record written removed).2.isOk = false) :
    store.MovedNothing (store.rekey old new record written removed).1 ↔ written.isOk = false := by
  cases written with
  | error e => exact iff_of_true ⟨fun _ => rfl, fun _ => rfl, fun _ => rfl⟩ rfl
  | ok u =>
    cases removed with
    | ok u => cases herror
    | error e =>
      refine iff_of_false (fun h => ?_) (by simp [Except.isOk, Except.toBool])
      have hstored : (store.put new record).files.lookup new = store.files.lookup new := h.records new
      simp [put, files_write, if_pos rfl, hnew] at hstored

namespace Small

def assigned : PersistedAgent Unit := ⟨some ⟨"stable", none, ∅⟩, ()⟩

def stored : FsAgentStore Nat Unit := empty.put 1 assigned

end Small

/-- The new record is not written. -/
theorem failed_rekey_movedNothing_iff_unwritten :
    Small.stored.MovedNothing (Small.stored.rekey 1 2 Small.assigned (.error "full") (.ok ())).1 :=
  (failed_rekey_movedNothing_iff rfl rfl).mpr rfl

/-- The new file is written and the old one cannot be removed: the Agent has two records, and is counted twice. -/
theorem failed_removal_leaves_two :
    let (store, answer) := Small.stored.rekey 1 2 Small.assigned (.ok ()) (.error "busy")
    answer = .error "busy" ∧ (store.files.lookup 1).isSome ∧ (store.files.lookup 2).isSome ∧
      Small.stored.pinning (.deployment "stable") = 1 ∧ store.pinning (.deployment "stable") = 2 := by
  decide

end FsAgentStore

end OpampFleet.Server
