import OpampFleet.Lib.Fallible
import OpampFleet.Server.Identities

/-!
# The capability set an Agent declared last

`declaredAfter` follows what each Agent declares through the processing of its reports, from the messages alone: a
report that is taken and declares a set replaces the Agent's; a record moved to a new identity takes its Agent's set
along; one read from a shared store comes with the set another instance took. A record says what its Agent declared, or
nothing (`Tells`), after every report.
-/

namespace OpampFleet.Server

open Lib Opamp Map

variable {P : Payloads} {admission : Admission P} (app : AppSettings P) (a : Answers P)

abbrev Declared := InstanceUid → UInt64

def Declared.set (d : Declared) (uid : InstanceUid) (capabilities : UInt64) : Declared :=
  fun u => if u = uid then capabilities else d u

/-- What an Agent not held yet declared to the instance that stored its record. -/
def declaredOnHold (fleet : Records P) (uid : InstanceUid) (d : Declared) : Declared :=
  if !app.shared || (fleet.lookup uid).isSome then d
  else
    match a.stored with
    | some stored => d.set uid stored.rest.capabilities
    | none => d

/-- An Agent that is given the identity it asked for declared what it declared. -/
def declaredOnRequest (msg : Report P) (id : Identity P) (d : Declared) : Declared :=
  if id.identification.isSome || !msg.requestsInstanceUid then d
  else
    match id.fleet.lookup id.uid, a.rekeyed with
    | some _, .ok () => d.set a.requested (d id.uid)
    | _, _ => d

def declaredOnCreate (id : Identity P) (d : Declared) : Declared :=
  if (id.fleet.lookup id.uid).isSome || !app.shared then d
  else
    match a.creation with
    | .ok (.found stored) => d.set id.uid stored.rest.capabilities
    | _ => d

/-- A report that declares no set leaves the last one. -/
def declaredOnReport (msg : Report P) (uid : InstanceUid) (d : Declared) : Declared :=
  if msg.capabilities ≠ 0 then d.set uid msg.capabilities else d

/-- A report that is refused declares nothing. -/
def declaredOnAdmission (msg : Report P) (transport : Transport)
    (conn : Option ConnId) (presented : Option Presented) (id : Identity P) (loaded : Bool)
    (revocations : Option Register) (d : Declared) : Declared :=
  match createWithin app a msg transport conn id loaded with
  | .error _ => d
  | .ok admission =>
    let d := declaredOnCreate app a id d
    if admission.atCeiling app then d
    else
      match (bindHost a revocations presented id).2 with
      | .error _ => d
      | .ok () => declaredOnReport msg id.uid d

def declaredAfter (s : ServerState P) (msg : Report P) (transport : Transport)
    (conn : Option ConnId) (presented : Option Presented) (d : Declared) : Declared :=
  match InstanceUid.fromWire msg.instanceUid with
  | none => d
  | some reported =>
    let d := declaredOnHold app a s.fleet reported d
    let (fleet, loaded) := holdFromStore app a s.fleet reported
    match claimHost a s.revocations presented (.reported fleet reported) with
    | .error _ => d
    | .ok id =>
      let d := declaredOnRequest a msg id d
      let id := detectDuplicate a conn (requestInstanceUid app a msg id)
      declaredOnAdmission app a msg transport conn presented id loaded s.revocations d

def Tells (d : Declared) (fleet : Records P) : Prop :=
  ∀ uid record, fleet.lookup uid = some record → record.capabilities = 0 ∨ d uid = record.capabilities

namespace Tells

variable {d : Declared} {fleet : Records P} {id : Identity P} {uid : InstanceUid}

section

variable (h : Tells d fleet)
include h

lemma insert {record : AgentRecord P}
    (hrecord : record.capabilities = 0 ∨ d uid = record.capabilities) : Tells d (fleet.insert uid record) :=
  forall_lookup_insert hrecord h

private lemma set (uid : InstanceUid) (record : AgentRecord P) :
    Tells (d.set uid record.capabilities) (fleet.insert uid record) := by
  intro u r hr
  unfold Declared.set
  rw [lookup_insert_ite] at hr
  by_cases hu : u = uid
  · rw [if_pos hu] at hr ⊢
    cases hr
    exact .inr rfl
  · rw [if_neg hu] at hr ⊢
    exact h u r hr

lemma erase (uid : InstanceUid) : Tells d (fleet.erase uid) := by
  intro u record hrecord
  exact h u record (lookup_of_erase hrecord)

lemma placed (placements : InstanceUid → P.Placement) : Tells d (placed fleet placements) := by
  intro u record hrecord
  rw [lookup_placed] at hrecord
  obtain ⟨before, hbefore, rfl⟩ := Option.map_eq_some_iff.mp hrecord
  exact h u before hbefore

private lemma holdFromStore (app : AppSettings P) (a : Answers P) (uid : InstanceUid) :
    Tells (declaredOnHold app a fleet uid d) (holdFromStore app a fleet uid).1 := by
  unfold declaredOnHold Server.holdFromStore
  split
  · exact h
  · cases a.stored with
    | none => exact h
    | some stored => exact h.set uid (.fromPersisted stored)

end

private lemma requestInstanceUid (app : AppSettings P) (a : Answers P) (msg : Report P) (h : Tells d id.fleet) :
    Tells (declaredOnRequest a msg id d) (requestInstanceUid app a msg id).fleet := by
  unfold declaredOnRequest Server.requestInstanceUid
  split
  · exact h
  cases hheld : id.fleet.lookup id.uid with
  | none => exact h
  | some record =>
    cases a.rekeyed with
    | error e => exact h
    | ok =>
      -- The record moves with the set of its Agent.
      refine Tells.placed (fun u r hr => ?_) _
      show r.capabilities = 0 ∨ (d.set a.requested (d id.uid)) u = r.capabilities
      unfold Declared.set
      rw [lookup_insert_ite] at hr
      by_cases hu : u = a.requested
      · rw [if_pos hu] at hr ⊢
        cases hr
        exact h id.uid record hheld
      · rw [if_neg hu] at hr ⊢
        exact (h.erase id.uid) u r hr

private lemma detectDuplicate (a : Answers P) (conn : Option ConnId) (h : Tells d id.fleet) :
    Tells d (detectDuplicate a conn id).fleet := by
  unfold Server.detectDuplicate
  split <;> exact h

private lemma createWithin (app : AppSettings P) (a : Answers P) (msg : Report P) (transport : Transport)
    (conn : Option ConnId) {loaded : Bool} (h : Tells d id.fleet)
    (hcreate : createWithin app a msg transport conn id loaded = .ok admission) :
    Tells (declaredOnCreate app a id d) admission.fleet := by
  unfold Server.createWithin at hcreate
  unfold declaredOnCreate
  simp only at hcreate
  split at hcreate
  next hknown =>
    cases hcreate
    rwa [if_pos hknown]
  rename_i hknown
  rw [if_neg hknown]
  match hc : a.creation, hcreate with
  | .ok .created, hcreate =>
    cases hcreate
    exact h.insert (.inl rfl)
  | .ok (.found stored), hcreate =>
    cases hcreate
    exact h.set id.uid (.fromPersisted stored)
  | .ok .full, hcreate =>
    cases hcreate
    exact h

private lemma updateRecord (a : Answers P) (msg : Report P) (transport : Transport) (conn : Option ConnId)
    (arrivedOver : Option String) (known : Bool) {before : AgentRecord P}
    (h : Tells d fleet) (hbefore : before.capabilities = 0 ∨ d uid = before.capabilities) :
    Tells (declaredOnReport msg uid d)
      (fleet.insert uid (updateRecord a msg transport conn arrivedOver known before)) := by
  unfold declaredOnReport
  by_cases hdeclares : msg.capabilities ≠ 0
  · have hset := h.set uid (Server.updateRecord a msg transport conn arrivedOver known before)
    rw [if_pos hdeclares]
    rwa [show (Server.updateRecord a msg transport conn arrivedOver known before).capabilities = msg.capabilities from
      if_pos hdeclares] at hset
  · rw [if_neg hdeclares]
    refine h.insert ?_
    rwa [show (Server.updateRecord a msg transport conn arrivedOver known before).capabilities =
      before.capabilities from
      if_neg hdeclares]

end Tells

section Taken

variable (app : AppSettings P) (a : Answers P) (msg : Report P) (transport : Transport) (conn : Option ConnId)
  (presented : Option Presented) (reported : InstanceUid) {id : Identity P} {d : Declared}

private lemma tells_recordReport (arrivedOver : Option String) (h : Tells d admission.fleet) :
    Tells (declaredOnReport msg id.uid d) (recordReport app a msg transport conn arrivedOver id admission).fleet ∧
      (recordReport app a msg transport conn arrivedOver id admission).fleet.lookup id.uid =
        some (recordReport app a msg transport conn arrivedOver id admission).record := by
  have hbefore : ((admission.fleet.lookup id.uid).getD (.new msg.sequenceNum transport conn a.nowMs)).capabilities = 0 ∨
      d id.uid = ((admission.fleet.lookup id.uid).getD (.new msg.sequenceNum transport conn a.nowMs)).capabilities := by
    cases hlookup : admission.fleet.lookup id.uid with
    | none => exact .inl rfl
    | some before => exact h id.uid before hlookup
  have hupdated := h.updateRecord a msg transport conn arrivedOver admission.known hbefore
  unfold recordReport
  simp only
  split
  · refine ⟨hupdated.placed _, ?_⟩
    rw [lookup_placed, AList.lookup_insert]
    rfl
  · exact ⟨hupdated, AList.lookup_insert _⟩

private lemma tells_takeReport (h : Tells d admission.fleet) (revocations : Option Register) :
    Tells (declaredOnReport msg id.uid d)
      (takeReport app a msg transport conn presented reported id admission revocations).1.fleet := by
  obtain ⟨arrivedOver, record, reply, disconnected, heq, -, hsame⟩ :=
    takeReport_eq app a msg transport conn presented reported id admission revocations
  obtain ⟨htells, hlookup⟩ := tells_recordReport app a msg transport conn arrivedOver h
  have hrecord := htells id.uid _ hlookup
  rw [← hsame] at hrecord
  rw [heq]
  unfold persistAnd
  split
  · exact htells.insert hrecord
  · exact (htells.erase id.uid).placed _

private lemma tells_admitReport (h : Tells d id.fleet) (loaded : Bool) (revocations : Option Register) :
    Tells (declaredOnAdmission app a msg transport conn presented id loaded revocations d)
      (admitReport app a msg transport conn presented reported id loaded revocations).1.fleet := by
  unfold declaredOnAdmission admitReport
  cases hcreate : createWithin app a msg transport conn id loaded with
  | error e => exact h
  | ok admission =>
    have hcreated := h.createWithin app a msg transport conn hcreate
    simp only
    split
    · exact hcreated
    rcases bindHost a revocations presented id with ⟨register, e | u⟩
    · simp only
      split
      · exact hcreated.erase id.uid
      · exact hcreated
    · exact tells_takeReport app a msg transport conn presented reported hcreated register

end Taken

/-- A report keeps what is known to be declared. -/
lemma Tells.processPresented {d : Declared} {s : ServerState P} (h : Tells d s.fleet) (app : AppSettings P)
    (a : Answers P) (msg : Report P) (transport : Transport) (conn : Option ConnId) (presented : Option Presented) :
    Tells (declaredAfter app a s msg transport conn presented d)
      (processPresented app a s msg transport conn presented).1.fleet := by
  unfold declaredAfter Server.processPresented
  cases InstanceUid.fromWire msg.instanceUid with
  | none => exact h
  | some reported =>
    simp only
    have hheld := h.holdFromStore app a reported
    cases hclaim : claimHost a s.revocations presented
        (.reported (Server.holdFromStore app a s.fleet reported).1 reported) with
    | error e => exact hheld
    | ok id =>
      rw [← fleet_claimHost a _ hclaim] at hheld
      have hrequest := requestInstanceUid app a msg hheld
      exact tells_admitReport app a msg transport conn presented reported (hrequest.detectDuplicate a conn) _ _

end OpampFleet.Server
