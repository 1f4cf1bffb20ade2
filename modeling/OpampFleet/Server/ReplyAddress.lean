import OpampFleet.Server.Identities

/-!
# The `instance_uid` a reply carries

A Client and a Gateway route a reply by its `instance_uid`, which the Baseline makes that of the message it answers.
`processPresented` keeps the reported identity aside for it, through every re-key, and `unavailable` is given it; the
reply that `badRequest` builds has none.
-/

namespace OpampFleet.Server

open Lib Opamp Server

variable {P : Payloads} (app : AppSettings P) (a : Answers P)

/-- The identity the certificate's host reports for: the one reported, or the one it is given when that is another
host's. -/
def spokenFor (revocations : Option Register) (presented : Option Presented) (reported : InstanceUid) : InstanceUid :=
  if claimsAnother revocations presented reported then a.claimed else reported

def csrRefused (msg : Report P) (presented : Option Presented) (sender : Bytes) : Bool :=
  match msg.certificateRequest.map (issue app a sender presented) with
  | some (.ok (.error _)) => true
  | _ => false

def hasRoom (fleet : Records P) : Bool :=
  if app.shared then
    match a.creation with
    | .ok .created => true
    | .ok (.found _) => true
    | _ => false
  else fleet.entries.length < app.maxAgents

def assigns (fleet : Records P) (msg : Report P) (claimed : Bool) (reported : InstanceUid) : Bool :=
  !claimed && msg.requestsInstanceUid && ((fleet.lookup reported).isNone || a.rekeyed.isOk)

def recordsFor (fleet : Records P) (msg : Report P) (claimed : Bool) (reported : InstanceUid) : Records P :=
  match fleet.lookup reported with
  | some record =>
    if assigns a fleet msg claimed reported then moveRecord app fleet reported a.requested record else fleet
  | none => fleet

def identityFor (fleet : Records P) (msg : Report P) (claimed : Bool) (reported : InstanceUid) : InstanceUid :=
  if claimed then a.claimed else if assigns a fleet msg claimed reported then a.requested else reported

/-- The identity the report is of, or the one given where that is connected otherwise, has a record or gets one. -/
def admits (s : ServerState P) (msg : Report P) (conn : Option ConnId)
    (presented : Option Presented) (reported : InstanceUid) : Bool :=
  let claimed := claimsAnother s.revocations presented reported
  let held := (holdFromStore app a s.fleet reported).1
  let fleet := recordsFor app a held msg claimed reported
  let uid := identityFor a held msg claimed reported
  let uid := if isDuplicate conn (fleet.lookup uid) then a.duplicate else uid
  (fleet.lookup uid).isSome || hasRoom app a fleet

def Addressed (reported : InstanceUid) (result : ServerState P × Processed P) : Prop :=
  result.2.reply.instanceUid = reported.bytes

private lemma not_addressed_badRequest (reported : InstanceUid) (s : ServerState P) (e : String)
    (uid : Option InstanceUid) (disconnected : Bool) : ¬Addressed reported (s, ⟨badRequest e, uid, disconnected⟩) := by
  intro h
  have hlength := reported.length_eq
  rw [← h] at hlength
  cases hlength

section Admitted

variable (app : AppSettings P) (a : Answers P) (msg : Report P) (transport : Transport) (conn : Option ConnId)
  (presented : Option Presented) (reported : InstanceUid) (s : ServerState P)

private lemma addressed_persistAnd_iff (uid : InstanceUid) (record : AgentRecord P) (reply : Reply P)
    (disconnected : Bool) : Addressed reported (persistAnd app a reported uid s record reply disconnected) ↔
      reply.instanceUid = reported.bytes ∨ persistIfDirty app a = false := by
  unfold persistAnd Addressed
  cases persistIfDirty app a with
  | true | false => simp

private lemma addressed_answer {id : Identity P} (hid : id.identification = none → id.uid = reported)
    (record : AgentRecord P) (flags : UInt64) (issued : Option P.Certificate) :
    Addressed reported (answer app a msg reported id s record flags issued) := by
  unfold answer
  simp only
  split
  · exact (addressed_persistAnd_iff app a reported s _ _ _ _).mpr (.inl rfl)
  split
  next hdelivered =>
    refine (addressed_persistAnd_iff app a reported s _ _ _ _).mpr (.inl ?_)
    exact congrArg InstanceUid.bytes (hid (identification_none_of_takeRestart a hdelivered))
  · exact (addressed_persistAnd_iff app a reported s _ _ _ _).mpr (.inl rfl)

private lemma addressed_takeReport_iff {id : Identity P} (hmsg : msg.instanceUid = reported.bytes)
    (hid : id.identification = none → id.uid = reported) (admission : Admission P) (revocations : Option Register) :
    Addressed reported (takeReport app a msg transport conn presented reported id admission revocations) ↔
      csrRefused app a msg presented id.sender = false ∨ persistIfDirty app a = false := by
  unfold takeReport csrRefused
  cases hcsr : msg.certificateRequest.map (issue app a id.sender presented) with
  | none => simpa using addressed_answer app a msg reported _ hid _ _ none
  | some outcome =>
    match outcome with
    | .error e => simpa using (addressed_persistAnd_iff app a reported _ _ _ _ _).mpr (.inl hmsg)
    | .ok (.ok certificate) => simpa using addressed_answer app a msg reported _ hid _ _ (some certificate)
    | .ok (.error e) =>
      refine (addressed_persistAnd_iff app a reported _ _ _ _ _).trans (or_congr ?_ Iff.rfl)
      exact iff_of_false (not_addressed_badRequest reported ⟨∅, none⟩ e none false) (by simp)

/-- What the source asks in two places, of the creation of a record and of the ceiling. -/
private lemma createWithin_admits (id : Identity P) (loaded : Bool) :
    (∃ admission, createWithin app a msg transport conn id loaded = .ok admission ∧ admission.atCeiling app = false) ↔
      ((id.fleet.lookup id.uid).isSome || hasRoom app a id.fleet) = true := by
  unfold createWithin hasRoom
  cases hknown : (id.fleet.lookup id.uid).isSome with
  | true => simp [Admission.atCeiling]
  | false =>
    cases hshared : app.shared with
    | false => simp [Admission.atCeiling, hshared]
    | true =>
      simp only [Bool.not_true, Bool.or_false, Bool.false_eq_true, if_false, if_true, Bool.false_or]
      match a.creation with
      | .error e => simp
      | .ok .created => simp [Admission.atCeiling, hshared]
      | .ok (.found stored) => simp [Admission.atCeiling]
      | .ok .full => simp [Admission.atCeiling, hshared]

private lemma addressed_admitReport_iff {id : Identity P} (hmsg : msg.instanceUid = reported.bytes)
    (hid : id.identification = none → id.uid = reported) (loaded : Bool) (revocations : Option Register) :
    Addressed reported (admitReport app a msg transport conn presented reported id loaded revocations) ↔
      (((id.fleet.lookup id.uid).isSome || hasRoom app a id.fleet) = true →
        (bindHost a revocations presented id).2.isOk = true ∧
          (csrRefused app a msg presented id.sender = false ∨ persistIfDirty app a = false)) := by
  rw [← createWithin_admits app a msg transport conn id loaded]
  unfold admitReport
  cases hc : createWithin app a msg transport conn id loaded with
  | error e => exact iff_of_true hmsg (by simp)
  | ok admission =>
    cases hceiling : admission.atCeiling app with
    | true =>
      simp only [hceiling, if_true]
      exact iff_of_true hmsg (by simp [hceiling])
    | false =>
      simp only [hceiling, Bool.false_eq_true, if_false, Except.ok.injEq, exists_eq_left', forall_const]
      rcases bindHost a revocations presented id with ⟨register, e | u⟩
      · refine iff_of_false (not_addressed_badRequest reported _ e none false) ?_
        rintro ⟨h, -⟩
        cases h
      · refine
          (addressed_takeReport_iff app a msg transport conn presented reported hmsg hid admission register).trans ?_
        simp [Except.isOk, Except.toBool]

end Admitted

structure SpeaksAs (revocations : Option Register) (presented : Option Presented) (reported speaker : InstanceUid)
    (id : Identity P) : Prop where
  binding : id.binding = bindingOf revocations presented speaker
  sender : id.sender = speaker.bytes
  unassigned : id.identification = none → id.uid = reported

section Speaks

variable (app : AppSettings P) (a : Answers P) (msg : Report P) (conn : Option ConnId)
  {revocations : Option Register} {presented : Option Presented} {reported speaker : InstanceUid} {id : Identity P}

private lemma claimHost_spokenFor (fleet : Records P) :
    match claimHost a revocations presented (.reported fleet reported) with
    | .error _ => claimsAnother revocations presented (spokenFor a revocations presented reported) = true
    | .ok id => claimsAnother revocations presented (spokenFor a revocations presented reported) = false ∧
        SpeaksAs revocations presented reported (spokenFor a revocations presented reported) id := by
  rcases claimHost_cases a fleet revocations presented reported with
    ⟨hclaim, heq⟩ | ⟨hclaim, ⟨hnot, e, heq⟩ | ⟨hmay, heq⟩⟩
  · rw [heq, spokenFor, hclaim]
    exact ⟨hclaim, rfl, rfl, fun _ => rfl⟩
  · rwa [heq, spokenFor, hclaim]
  · rw [heq, spokenFor, hclaim]
    exact ⟨hmay, rfl, rfl, nofun⟩

private lemma SpeaksAs.requestInstanceUid (h : SpeaksAs revocations presented reported speaker id) :
    SpeaksAs revocations presented reported speaker (requestInstanceUid app a msg id) := by
  unfold Server.requestInstanceUid
  split
  · exact h
  split
  · exact ⟨h.binding, h.sender, nofun⟩
  · exact ⟨h.binding, h.sender, fun hnone => by cases hnone⟩
  · exact h

private lemma SpeaksAs.detectDuplicate (h : SpeaksAs revocations presented reported speaker id) :
    SpeaksAs revocations presented reported speaker (detectDuplicate a conn id) := by
  unfold Server.detectDuplicate
  split
  · exact ⟨h.binding, h.sender, nofun⟩
  · exact h

private lemma requestInstanceUid_claimed {fleet : Records P}
    (h : claimHost a revocations presented (.reported fleet reported) = .ok id) :
    (requestInstanceUid app a msg id).fleet =
        recordsFor app a fleet msg (claimsAnother revocations presented reported) reported ∧
      (requestInstanceUid app a msg id).uid =
        identityFor a fleet msg (claimsAnother revocations presented reported) reported := by
  rcases claimHost_cases a fleet revocations presented reported with
    ⟨hclaim, heq⟩ | ⟨hclaim, ⟨-, e, heq⟩ | ⟨-, heq⟩⟩
  · rw [heq] at h
    cases h
    rw [hclaim]
    unfold recordsFor identityFor assigns requestInstanceUid
    cases hasks : msg.requestsInstanceUid with
    | false => cases hheld : fleet.lookup reported <;> simp [Identity.reported]
    | true =>
      cases hheld : fleet.lookup reported <;> cases hmoved : a.rekeyed <;>
        simp [Identity.reported, hheld, Except.isOk, Except.toBool]
  · simp [heq] at h
  · rw [heq] at h
    cases h
    rw [hclaim]
    unfold recordsFor identityFor assigns requestInstanceUid
    cases fleet.lookup reported <;> simp

private lemma admits_claimed {s : ServerState P} (h : claimHost a s.revocations presented
      (.reported (holdFromStore app a s.fleet reported).1 reported) = .ok id) :
    let settled := detectDuplicate a conn (requestInstanceUid app a msg id)
    admits app a s msg conn presented reported =
      ((settled.fleet.lookup settled.uid).isSome || hasRoom app a settled.fleet) := by
  have hid := requestInstanceUid_claimed app a msg h
  generalize requestInstanceUid app a msg id = asked at hid
  obtain ⟨fleet, uid, sender, identification, binding, rekeyed⟩ := asked
  obtain ⟨rfl, rfl⟩ := hid
  unfold admits detectDuplicate
  simp only
  generalize isDuplicate conn _ = duplicate
  cases duplicate with
  | false | true => rfl

end Speaks

/-- The reply to a report of a sixteen-byte `instance_uid` carries it exactly when the certificate's host may report for
that identity or for the one it is given in its place, and, where the report is admitted, the register takes the host's
report and a certificate request is not refused, or the record was forgotten meanwhile. -/
theorem reply_addressed_iff (app : AppSettings P) (a : Answers P) (s : ServerState P) (msg : Report P)
    (transport : Transport) (conn : Option ConnId) (presented : Option Presented) (reported : InstanceUid)
    (hmsg : msg.instanceUid = reported.bytes) :
    (processPresented app a s msg transport conn presented).2.reply.instanceUid = msg.instanceUid ↔
      claimsAnother s.revocations presented (spokenFor a s.revocations presented reported) = false ∧
        (admits app a s msg conn presented reported = true →
          hostAccepts a s.revocations presented (spokenFor a s.revocations presented reported) = true ∧
            (csrRefused app a msg presented (spokenFor a s.revocations presented reported).bytes = false ∨
              persistIfDirty app a = false)) := by
  have hclaim := @claimHost_spokenFor P a s.revocations presented reported (holdFromStore app a s.fleet reported).1
  unfold processPresented
  rw [hmsg, InstanceUid.fromWire_bytes]
  simp only
  cases h : claimHost a s.revocations presented (.reported (holdFromStore app a s.fleet reported).1 reported) with
  | error e =>
    rw [h] at hclaim
    refine iff_of_false (not_addressed_badRequest reported _ e none false) ?_
    rintro ⟨hnot, -⟩
    simp [hclaim] at hnot
  | ok id =>
    rw [h] at hclaim
    obtain ⟨hspeaks, hid⟩ := hclaim
    have hsettled := (hid.requestInstanceUid app a msg).detectDuplicate a conn
    rw [← bindHost_isOk a s.revocations presented _ hsettled.binding, ← hsettled.sender,
      admits_claimed app a msg conn h]
    simp only [hspeaks, true_and]
    exact addressed_admitReport_iff app a msg transport conn presented reported hmsg hsettled.unassigned _ _

/-- An Agent whose report is new to the Server. -/
theorem reply_addressed_iff_plain :
    (processPresented Small.app Small.answers ⟨∅, none⟩ (Small.report 0 none) .http none none).2.reply.instanceUid =
      (Small.report 0 none).instanceUid :=
  (reply_addressed_iff Small.app Small.answers ⟨∅, none⟩ (Small.report 0 none) .http none none (.ofByte 1) rfl).mpr
    ⟨rfl, fun _ => ⟨rfl, .inl rfl⟩⟩

/-- A certificate request to a Server that issues none is answered to no one. -/
theorem refused_csr_reply_unaddressed : ∃ s, Reach (⟨∅, none⟩ : ServerState Small.payloads) (exchange Small.app) s ∧
    (Small.report 0 (some [0])).instanceUid.length = 16 ∧
    (processPresented Small.app Small.answers s (Small.report 0 (some [0])) .http none none).2.reply.instanceUid ≠
      (Small.report 0 (some [0])).instanceUid := by
  refine ⟨⟨∅, none⟩, Reach.refl, rfl, ?_⟩
  decide

end OpampFleet.Server
