import OpampFleet.Lib.Transition
import OpampFleet.Server.Process

/-!
# Which record a report touches, and which identity its reply names

Once the reporter's identity is settled, a report touches the record under that identity and no other, but for where
the others are placed (`Frame`). So what happens to an Agent's record is decided by the three places that can give the
reporter another identity, in the order they stand: the host that claims it, the identity it asks for, the duplicate
connection. The second does not ask whether the Agent is connected elsewhere, which is what the third asks
(`incumbent_kept_iff`), and the exits after it do not all name the identity it assigned (`rekeyed_reply_names_iff`).
-/

namespace OpampFleet.Server

open Lib Opamp Option Map Presented

variable {P : Payloads}

def AgentRecord.withoutPlacement (record : AgentRecord P) : AgentRecord P := { record with placement := P.unplaced }

def Frame (uid : InstanceUid) (before after : Records P) : Prop :=
  ∀ other, other ≠ uid →
    (after.lookup other).map AgentRecord.withoutPlacement = (before.lookup other).map AgentRecord.withoutPlacement

private lemma Frame.refl (uid : InstanceUid) (fleet : Records P) : Frame uid fleet fleet := fun _ _ => rfl

variable {uid other : InstanceUid} {f g : Records P}

private lemma Frame.trans {h : Records P} (hfg : Frame uid f g) (hgh : Frame uid g h) : Frame uid f h :=
  fun other ho => (hgh other ho).trans (hfg other ho)

lemma lookup_placed (fleet : Records P) (placements : InstanceUid → P.Placement) (uid : InstanceUid) :
    (placed fleet placements).lookup uid =
      (fleet.lookup uid).map fun record => { record with placement := placements uid } :=
  lookup_mapValues fleet _ uid

private lemma Frame.placed (h : Frame uid f g)
    (placements : InstanceUid → P.Placement) : Frame uid f (placed g placements) := by
  intro other ho
  rw [lookup_placed, Option.map_map]
  exact h other ho

private lemma Frame.insert (h : Frame uid f g) (record : AgentRecord P) : Frame uid f (g.insert uid record) := by
  intro other ho
  rw [AList.lookup_insert_ne ho]
  exact h other ho

private lemma Frame.erase (h : Frame uid f g) : Frame uid f (g.erase uid) := by
  intro other ho
  rw [AList.lookup_erase_ne ho]
  exact h other ho

/-! ### After the identity is settled -/

section Settled

variable (app : AppSettings P) (a : Answers P) (msg : Report P) (transport : Transport) (conn : Option ConnId)
  (presented : Option Presented) (reported : InstanceUid) (id : Identity P) (s : ServerState P) (record : AgentRecord P)

private lemma persistAnd_cases (uid : InstanceUid) (record : AgentRecord P) (reply : Reply P) (disconnected : Bool) :
    persistAnd app a reported uid s record reply disconnected =
        ({ s with fleet := s.fleet.insert uid record }, ⟨reply, some uid, disconnected⟩) ∨
      ∃ fleet bare, persistAnd app a reported uid s record reply disconnected =
        ({ s with fleet := fleet }, ⟨bare, none, false⟩) ∧ bare.agentIdentification = none ∧ fleet.lookup uid = none ∧
          Frame uid s.fleet fleet := by
  unfold persistAnd
  split
  · exact .inl rfl
  · refine .inr ⟨_, _, rfl, rfl, ?_, (Frame.refl uid s.fleet).erase.placed _⟩
    simp [lookup_placed]

def Leaves (uid : InstanceUid) (fleet : Records P) (result : ServerState P × Processed P) : Prop :=
  Frame uid fleet result.1.fleet ∧ ∀ u, result.2.uid = some u → u = uid ∧ (result.1.fleet.lookup uid).isSome

private lemma leaves_persistAnd (reply : Reply P) (disconnected : Bool) :
    Leaves id.uid s.fleet (persistAnd app a reported id.uid s record reply disconnected) := by
  rcases persistAnd_cases app a reported s id.uid record reply disconnected with h | ⟨fleet, bare, h, -, -, hf⟩
  · rw [h]
    refine ⟨(Frame.refl id.uid s.fleet).insert record, fun u hu => ⟨(Option.some.inj hu).symm, ?_⟩⟩
    simp
  · rw [h]
    exact ⟨hf, fun u hu => by cases hu⟩

lemma identification_none_of_takeRestart {identification : Option InstanceUid} {record : AgentRecord P}
    {flags : UInt64} (h : (takeRestart a identification record flags).2 = true) : identification = none := by
  unfold takeRestart at h
  split at h
  next hdue =>
    simp only [Bool.and_eq_true, isNone_iff_eq_none] at hdue
    exact hdue.1.1.2
  · cases h

private lemma capabilities_demandComponents (flags : UInt64) :
    (demandComponents record flags).1.capabilities = record.capabilities := by
  unfold demandComponents
  split
  · split <;> rfl
  · rfl

lemma capabilities_takeRestart (identification : Option InstanceUid) (record : AgentRecord P) (flags : UInt64) :
    (takeRestart a identification record flags).1.capabilities = record.capabilities := by
  unfold takeRestart
  split
  · split <;> rfl
  · rfl

private lemma answer_eq (flags : UInt64) (issued : Option P.Certificate) :
    ∃ record' reply disconnected, answer app a msg reported id s record flags issued =
      persistAnd app a reported id.uid s record' reply disconnected ∧
        reply.agentIdentification = id.identification ∧ record'.capabilities = record.capabilities := by
  unfold answer
  simp only
  split
  · exact ⟨_, _, _, rfl, rfl, rfl⟩
  have hsame := (capabilities_takeRestart a id.identification (demandComponents record flags).1
    (demandComponents record flags).2).trans (capabilities_demandComponents record flags)
  split
  next hdelivered =>
    exact ⟨_, _, _, rfl, (identification_none_of_takeRestart a hdelivered).symm, hsame⟩
  · exact ⟨_, _, _, rfl, rfl, hsame⟩

private lemma frame_recordReport (arrivedOver : Option String) (admission : Admission P) :
    Frame id.uid admission.fleet (recordReport app a msg transport conn arrivedOver id admission).fleet := by
  unfold recordReport
  simp only
  split
  · exact ((Frame.refl id.uid _).insert _).placed _
  · exact (Frame.refl id.uid _).insert _

def csrGranted (sender : Bytes) : Bool :=
  match msg.certificateRequest.map (issue app a sender presented) with
  | none => true
  | some (.ok (.ok _)) => true
  | some _ => false

/-- `takeReport` ends in `persistAnd`, and says where only with a granted request. -/
lemma takeReport_eq (admission : Admission P) (revocations : Option Register) :
    ∃ arrivedOver record reply disconnected,
      takeReport app a msg transport conn presented reported id admission revocations =
        persistAnd app a reported id.uid
          ⟨(recordReport app a msg transport conn arrivedOver id admission).fleet,
            revocations⟩ record reply disconnected ∧
      (reply.agentIdentification = if csrGranted app a msg presented id.sender then id.identification else none) ∧
      record.capabilities = (recordReport app a msg transport conn arrivedOver id admission).record.capabilities := by
  unfold takeReport csrGranted
  cases hcsr : msg.certificateRequest.map (issue app a id.sender presented) with
  | none =>
    obtain ⟨record, reply, disconnected, h, hi, hsame⟩ := answer_eq app a msg reported id _ _ _ none
    exact ⟨_, record, reply, disconnected, by simpa only [hcsr] using h, by simpa using hi, hsame⟩
  | some issued =>
    match issued with
    | .error e => exact ⟨_, _, _, _, rfl, by simp [unavailable, Reply.bare], rfl⟩
    | .ok (.error e) => exact ⟨_, _, _, _, rfl, by simp [badRequest, Reply.bare], rfl⟩
    | .ok (.ok certificate) =>
      obtain ⟨record, reply, disconnected, h, hi, hsame⟩ := answer_eq app a msg reported id _ _ _ (some certificate)
      exact ⟨_, record, reply, disconnected, by simpa only [hcsr] using h, by simpa using hi, hsame⟩

private lemma leaves_takeReport (admission : Admission P) (revocations : Option Register) :
    Leaves id.uid admission.fleet
      (takeReport app a msg transport conn presented reported id admission revocations) := by
  obtain ⟨arrivedOver, record, reply, disconnected, h, -⟩ :=
    takeReport_eq app a msg transport conn presented reported id admission revocations
  rw [h]
  obtain ⟨hf, hu⟩ := leaves_persistAnd app a reported id
    ⟨(recordReport app a msg transport conn arrivedOver id admission).fleet, revocations⟩ record reply disconnected
  exact ⟨(frame_recordReport app a msg transport conn id arrivedOver admission).trans hf, hu⟩

private lemma frame_createWithin {loaded : Bool} {admission : Admission P}
    (h : createWithin app a msg transport conn id loaded = .ok admission) : Frame id.uid id.fleet admission.fleet := by
  unfold createWithin at h
  simp only at h
  split at h
  · cases h
    exact Frame.refl _ _
  · split at h <;> cases h
    · exact (Frame.refl _ _).insert _
    · exact (Frame.refl _ _).insert _
    · exact Frame.refl _ _

/-- A report whose reporter's identity is settled touches no other record, and is answered as that Agent's or no
one's. -/
lemma leaves_admitReport (loaded : Bool) (revocations : Option Register) :
    Leaves id.uid id.fleet (admitReport app a msg transport conn presented reported id loaded revocations) := by
  have hnone : ∀ fleet reply register, Frame id.uid id.fleet fleet →
      Leaves id.uid id.fleet ((⟨fleet, register⟩ : ServerState P), (⟨reply, none, false⟩ : Processed P)) :=
    fun fleet reply register h => ⟨h, fun u hu => by cases hu⟩
  unfold admitReport
  split
  · exact hnone _ _ _ (Frame.refl _ _)
  rename_i admission hc
  have hframe := frame_createWithin app a msg transport conn id hc
  split
  · exact hnone _ _ _ hframe
  split
  · refine hnone _ _ _ ?_
    split
    · exact hframe.erase
    · exact hframe
  next register _ =>
    obtain ⟨hf, hu⟩ := leaves_takeReport app a msg transport conn presented reported id admission register
    exact ⟨hframe.trans hf, hu⟩

private lemma identification_admitReport (loaded : Bool) (revocations : Option Register) :
    (admitReport app a msg transport conn presented reported id loaded revocations).2.reply.agentIdentification = none ∨
      (admitReport app a msg transport conn presented reported id loaded revocations).2.reply.agentIdentification =
        id.identification := by
  unfold admitReport
  split
  · exact .inl rfl
  split
  · exact .inl rfl
  split
  · exact .inl rfl
  rename_i register _
  obtain ⟨arrivedOver, record, reply, disconnected, h, hreply, -⟩ :=
    takeReport_eq app a msg transport conn presented reported id _ register
  rw [h]
  rcases persistAnd_cases app a reported _ id.uid record reply disconnected with h | ⟨fleet, bare, h, hbare, -⟩
  · rw [h, hreply]
    split
    · exact .inr rfl
    · exact .inl rfl
  · rw [h]
    exact .inl hbare

private lemma admitReport_known {record : AgentRecord P} (h : id.fleet.lookup id.uid = some record) (loaded : Bool)
    (revocations : Option Register) :
    admitReport app a msg transport conn presented reported id loaded revocations =
      match bindHost a revocations presented id with
      | (revocations, .error e) => (⟨id.fleet, revocations⟩, ⟨badRequest e, none, false⟩)
      | (revocations, .ok ()) =>
        takeReport app a msg transport conn presented reported id ⟨id.fleet, true, loaded, false⟩ revocations := by
  have hcreate : createWithin app a msg transport conn id loaded = .ok ⟨id.fleet, true, loaded, false⟩ := by
    simp [createWithin, h]
  unfold admitReport
  rw [hcreate]
  generalize bindHost a revocations presented id = bound
  rcases bound with ⟨register, e | u⟩ <;> rfl

end Settled

/-! ### The reporter's identity -/

structure Answers.Fresh (a : Answers P) (fleet : Records P) : Prop where
  claimed : fleet.lookup a.claimed = none
  requested : fleet.lookup a.requested = none
  duplicate : fleet.lookup a.duplicate = none
  requested_ne_duplicate : a.requested ≠ a.duplicate

def claimsAnother (revocations : Option Register) (presented : Option Presented) (uid : InstanceUid) : Bool :=
  match presented.bind host, revocations with
  | some host, some register => !(register.mayReport host (Core.hexText uid.bytes)).isOk
  | _, _ => false

def bindingOf (revocations : Option Register) (presented : Option Presented) (uid : InstanceUid) :
    Option (String × InstanceUid) :=
  match presented.bind host, revocations with
  | some host, some _ => some (host, uid)
  | _, _ => none

section Identity

variable (app : AppSettings P) (a : Answers P) (msg : Report P) (conn : Option ConnId) {revocations : Option Register}
  {presented : Option Presented} (fleet : Records P) {uid : InstanceUid} {id : Identity P} {record : AgentRecord P}

/-- The reporter keeps its identity where the certificate's host may report for it. Where it may not, it is given
another, if the host may report for that. -/
lemma claimHost_cases (revocations : Option Register) (presented : Option Presented) (uid : InstanceUid) :
    (claimsAnother revocations presented uid = false ∧ claimHost a revocations presented (.reported fleet uid) =
        .ok { Identity.reported fleet uid with binding := bindingOf revocations presented uid }) ∨
      claimsAnother revocations presented uid = true ∧
        ((claimsAnother revocations presented a.claimed = true ∧
            ∃ e, claimHost a revocations presented (.reported fleet uid) = .error e) ∨
          claimsAnother revocations presented a.claimed = false ∧
            claimHost a revocations presented (.reported fleet uid) = .ok
              ⟨fleet, a.claimed, a.claimed.bytes, some a.claimed,
                bindingOf revocations presented a.claimed, none⟩) := by
  unfold claimsAnother claimHost bindingOf
  cases presented.bind host with
  | none => exact .inl ⟨rfl, rfl⟩
  | some host =>
    cases revocations with
    | none => exact .inl ⟨rfl, rfl⟩
    | some register =>
      simp only [Identity.reported]
      cases register.mayReport host (Core.hexText uid.bytes) with
      | ok _ => exact .inl ⟨rfl, rfl⟩
      | error e =>
        refine .inr ⟨rfl, ?_⟩
        cases register.mayReport host (Core.hexText a.claimed.bytes) with
        | ok _ => exact .inr ⟨rfl, rfl⟩
        | error e => exact .inl ⟨rfl, e, rfl⟩

lemma fleet_claimHost (h : claimHost a revocations presented (.reported fleet uid) = .ok id) : id.fleet = fleet := by
  rcases claimHost_cases a fleet revocations presented uid with ⟨_, heq⟩ | ⟨_, ⟨_, e, heq⟩ | ⟨_, heq⟩⟩
  · rw [heq] at h
    cases h
    rfl
  · simp [heq] at h
  · rw [heq] at h
    cases h
    rfl

private lemma requestInstanceUid_identified (h : id.identification.isSome) : requestInstanceUid app a msg id = id := by
  unfold requestInstanceUid
  rw [h]
  rfl

private lemma requestInstanceUid_kept (hheld : id.fleet.lookup id.uid = some record)
    (h : ¬(msg.requestsInstanceUid = true ∧ a.rekeyed = .ok ())) : requestInstanceUid app a msg id = id := by
  unfold requestInstanceUid
  split
  · rfl
  rename_i hasks
  simp only [Bool.or_eq_true, not_or, Bool.not_eq_true, Bool.not_eq_false'] at hasks
  rw [hheld]
  cases hr : a.rekeyed with
  | ok u => exact absurd ⟨hasks.2, hr⟩ h
  | error e => rfl

private lemma requestInstanceUid_moved (hid : id.identification = none) (hheld : id.fleet.lookup id.uid = some record)
    (hasks : msg.requestsInstanceUid = true) (hr : a.rekeyed = .ok ()) :
    requestInstanceUid app a msg id =
      { id with
        fleet := moveRecord app id.fleet id.uid a.requested record
        uid := a.requested
        identification := some a.requested
        rekeyed := some (id.uid, a.requested) } := by
  simp [requestInstanceUid, hid, hasks, hheld, hr]

private lemma lookup_moveRecord_new (record : AgentRecord P) (old new : InstanceUid) :
    (moveRecord app fleet old new record).lookup new =
      some { record with
        placement := app.unplace ((fleet.erase old).insert new record) old record.placement new } := by
  simp [moveRecord, lookup_placed]

private lemma lookup_moveRecord_old (record : AgentRecord P) {old new : InstanceUid} (h : old ≠ new) :
    (moveRecord app fleet old new record).lookup old = none := by
  simp [moveRecord, lookup_placed, AList.lookup_insert_ne h]

private lemma detectDuplicate_unheld (h : id.fleet.lookup id.uid = none) : detectDuplicate a conn id = id := by
  have hdup : isDuplicate conn (none : Option (AgentRecord P)) = false := by cases conn <;> rfl
  simp [detectDuplicate, h, hdup]

end Identity

/-! ### A Server that offers nothing -/

namespace Small

def payloads : Payloads := ⟨Unit, Unit, Unit, Unit, Unit, Unit, Unit, (), Unit, Unit, Unit, Unit⟩

def app : AppSettings payloads where
  shared := false
  maxAgents := 10
  capabilities := serverCapabilities
  place := fun _ _ _ => ()
  unplace := fun _ _ _ _ => ()
  remoteConfigOffer := fun _ => none
  settingsOffer := fun _ _ => none
  packagesOffer := fun _ => none
  clientCa := none

def report (flags : UInt64) (certificateRequest : Option Bytes) : Report payloads :=
  { reportOf () with flags := flags, certificateRequest := certificateRequest }

def reported : ServerState payloads :=
  (processPresented app answers ⟨∅, none⟩ (report 0 none) .webSocket (some 1) none).1

private lemma reach_reported : Reach (⟨∅, none⟩ : ServerState payloads) (exchange app) reported :=
  Reach.refl.next ⟨answers, report 0 none, .webSocket, some 1, none⟩ rfl

def record : AgentRecord payloads :=
  updateRecord answers (report 0 none) .webSocket (some 1) none false (.new 0 .webSocket (some 1) 0)

private lemma lookup_reported : reported.fleet.lookup (.ofByte 1) = some record := rfl

private lemma fresh_reported : answers.Fresh reported.fleet := ⟨rfl, rfl, rfl, by decide⟩

end Small

/-! ### A report over another connection -/

def KeptAs (record : AgentRecord P) (after : Option (AgentRecord P)) : Prop :=
  ∃ r, after = some r ∧ { r with placement := record.placement } = record

private lemma Frame.keptAs {before after : Records P} {record : AgentRecord P}
    (h : Frame uid before after) (hne : other ≠ uid) (hheld : before.lookup other = some record) :
    KeptAs record (after.lookup other) := by
  have hother := h other hne
  rw [hheld] at hother
  obtain ⟨r, hr, he⟩ := map_eq_some_iff.mp hother
  refine ⟨r, hr, ?_⟩
  exact congrArg (fun x : AgentRecord P => { x with placement := record.placement }) he

private lemma Frame.lookup_none {before after : Records P} (h : Frame uid before after)
    (hne : other ≠ uid) (hgone : before.lookup other = none) : after.lookup other = none := by
  have hother := h other hne
  rwa [hgone, map_none, map_eq_none_iff] at hother

def IncumbentKept (s : ServerState P) (uid : InstanceUid) (record : AgentRecord P)
    (result : ServerState P × Processed P) : Prop :=
  KeptAs record (result.1.fleet.lookup uid) ∧ ∀ newcomer, result.2.uid = some newcomer →
    newcomer ≠ uid ∧ s.fleet.lookup newcomer = none ∧ (result.1.fleet.lookup newcomer).isSome

private lemma Leaves.incumbentKept {s : ServerState P} {fresh : InstanceUid} {record : AgentRecord P}
    {result : ServerState P × Processed P} (h : Leaves fresh s.fleet result) (hheld : s.fleet.lookup uid = some record)
    (hfresh : s.fleet.lookup fresh = none) : IncumbentKept s uid record result := by
  have hne : uid ≠ fresh := ne_of_lookup hheld hfresh
  refine ⟨h.1.keptAs hne hheld, fun newcomer hn => ?_⟩
  obtain ⟨rfl, hsome⟩ := h.2 newcomer hn
  exact ⟨hne.symm, hfresh, hsome⟩

/-- A report over another WebSocket connection than the one that carries its Agent leaves the Agent's record where it
is and as it is, unless it asks for an `instance_uid`, is not of another host's certificate, and the store moves the
record. -/
theorem incumbent_kept_iff (app : AppSettings P) (a : Answers P) (s : ServerState P) (msg : Report P)
    (transport : Transport) (presented : Option Presented) (uid : InstanceUid) (c c' : ConnId) (record : AgentRecord P)
    (hmsg : msg.instanceUid = uid.bytes) (hheld : s.fleet.lookup uid = some record) (hconn : record.connected = true)
    (howner : record.owner = some c) (hne : c' ≠ c) (hfresh : a.Fresh s.fleet) :
    IncumbentKept s uid record (processPresented app a s msg transport (some c') presented) ↔
      ¬(msg.requestsInstanceUid = true ∧ claimsAnother s.revocations presented uid = false ∧ a.rekeyed = .ok ()) := by
  have hhold : holdFromStore app a s.fleet uid = (s.fleet, false) := by simp [holdFromStore, hheld]
  have hdup : ∀ p : P.Placement, isDuplicate (some c') (some { record with placement := p }) = true := by
    intro p
    simp [isDuplicate, hconn, howner, hne.symm]
  unfold processPresented
  simp only [hmsg, InstanceUid.fromWire_bytes, hhold]
  rcases claimHost_cases a s.fleet s.revocations presented uid with ⟨hclaim, he⟩ | ⟨hclaim, hgiven⟩
  · rw [he]
    simp only [hclaim, true_and]
    generalize hown : ({ Identity.reported s.fleet uid with binding := _ } : Identity P) = own
    have hof : own.fleet = s.fleet := by rw [← hown]; rfl
    have hou : own.uid = uid := by rw [← hown]; rfl
    have hoheld : own.fleet.lookup own.uid = some record := by rw [hof, hou, hheld]
    by_cases hmove : msg.requestsInstanceUid = true ∧ a.rekeyed = .ok ()
    · -- the record is under the identity it asked for, and the newcomer under a third
      have hreq : uid ≠ a.requested := ne_of_lookup hheld hfresh.requested
      have hdupl : uid ≠ a.duplicate := ne_of_lookup hheld hfresh.duplicate
      have hgone : (detectDuplicate a (some c') (requestInstanceUid app a msg own)).uid = a.duplicate ∧
          (detectDuplicate a (some c') (requestInstanceUid app a msg own)).fleet.lookup uid = none := by
        rw [requestInstanceUid_moved app a msg (by rw [← hown]; rfl) hoheld hmove.1 hmove.2]
        unfold detectDuplicate
        simp only [lookup_moveRecord_new, hdup, if_true, true_and, hou]
        exact lookup_moveRecord_old app _ _ hreq
      obtain ⟨hframe, -⟩ := leaves_admitReport app a msg transport (some c') presented uid
        (detectDuplicate a (some c') (requestInstanceUid app a msg own)) false s.revocations
      rw [hgone.1] at hframe
      have hnone := hframe.lookup_none hdupl hgone.2
      refine iff_of_false (fun h => ?_) (not_not_intro hmove)
      obtain ⟨r, hr, -⟩ := h.1
      simp [hnone] at hr
    · refine iff_of_true ?_ hmove
      have hkept : requestInstanceUid app a msg own = own := requestInstanceUid_kept app a msg hoheld hmove
      have hduplicate : detectDuplicate a (some c') own =
          { own with uid := a.duplicate, identification := some a.duplicate } := by
        unfold detectDuplicate
        rw [hoheld, hdup record.placement, if_pos rfl]
      rw [hkept, hduplicate]
      have hleaves := leaves_admitReport app a msg transport (some c') presented uid
        { own with uid := a.duplicate, identification := some a.duplicate } false s.revocations
      simp only [hof] at hleaves ⊢
      exact hleaves.incumbentKept hheld hfresh.duplicate
  · simp only [hclaim, Bool.true_eq_false, false_and, and_false, not_false_eq_true, iff_true]
    rcases hgiven with ⟨_, e, he⟩ | ⟨_, he⟩
    · rw [he]
      exact ⟨⟨record, hheld, rfl⟩, fun newcomer hn => by cases hn⟩
    rw [he]
    simp only [requestInstanceUid_identified app a msg, isSome_some]
    rw [detectDuplicate_unheld a (some c') hfresh.claimed]
    have hleaves := leaves_admitReport app a msg transport (some c') presented uid
      ⟨s.fleet, a.claimed, a.claimed.bytes, some a.claimed, bindingOf s.revocations presented a.claimed, none⟩ false
      s.revocations
    exact hleaves.incumbentKept hheld hfresh.claimed

open Small

/-- A report without flags. -/
theorem incumbent_kept_iff_plain : IncumbentKept reported (.ofByte 1) record
    (processPresented app answers reported (report 0 none) .webSocket (some 2) none) :=
  (incumbent_kept_iff app answers reported (report 0 none) .webSocket none (.ofByte 1) 1 2
    record rfl lookup_reported rfl rfl (by decide) fresh_reported).mpr (by decide)

/-- The newcomer asks for an `instance_uid`: the incumbent's record is moved away from under its connection. -/
theorem incumbent_moved_on_request : ∃ s, Reach (⟨∅, none⟩ : ServerState payloads) (exchange app) s ∧
    s.fleet.lookup (.ofByte 1) = some record ∧ record.connected = true ∧ record.owner = some 1 ∧
    answers.Fresh s.fleet ∧ ¬IncumbentKept s (.ofByte 1) record
      (processPresented app answers s (report 1 none) .webSocket (some 2) none) := by
  refine ⟨reported, reach_reported, lookup_reported, rfl, rfl, fresh_reported, fun h => ?_⟩
  obtain ⟨r, hr, -⟩ := h.1
  cases hr

/-! ### A reply to a re-keyed Agent -/

def hostAccepts (a : Answers P) (revocations : Option Register) (presented : Option Presented) (uid : InstanceUid) :
    Bool :=
  match presented.bind host, revocations with
  | some host, some register =>
    (register.checkReport a.checked host (presented.elim ∅ subjectValues)
      (presented.elim 0 notAfterMs) (Core.hexText uid.bytes)).2.isOk
  | _, _ => true

/-- The host is bound exactly when `hostAccepts` says so. -/
lemma bindHost_isOk (a : Answers P) (revocations : Option Register) (presented : Option Presented)
    (uid : InstanceUid) {id : Identity P} (h : id.binding = bindingOf revocations presented uid) :
    (bindHost a revocations presented id).2.isOk = hostAccepts a revocations presented uid := by
  unfold bindHost hostAccepts
  unfold bindingOf at h
  cases revocations with
  | none => cases presented.bind host <;> rfl
  | some register =>
    cases hhost : presented.bind host with
    | none =>
      simp only [hhost] at h
      simp only [h]
      cases id.rekeyed <;> rfl
    | some host =>
      simp only [hhost] at h
      simp only [h]
      generalize register.checkReport a.checked host _ _ _ = checked
      obtain ⟨register, result⟩ := checked
      cases result with
      | error e => rfl
      | ok u => cases id.rekeyed <;> rfl

/-- Processing the report moves the record held under the reported `instance_uid` to the one it is assigned. -/
structure MovesRecord (app : AppSettings P) (a : Answers P) (s : ServerState P) (msg : Report P)
    (presented : Option Presented) (reported : InstanceUid) (record : AgentRecord P) : Prop where
  held : (holdFromStore app a s.fleet reported).1.lookup reported = some record
  asks : msg.requestsInstanceUid = true
  own : claimsAnother s.revocations presented reported = false
  stored : a.rekeyed = .ok ()

section Rekeyed

variable {app : AppSettings P} {a : Answers P} {s : ServerState P} {msg : Report P} {transport : Transport}
  {conn : Option ConnId} {presented : Option Presented} {reported : InstanceUid} {record : AgentRecord P}

private def movedIdentity (app : AppSettings P) (a : Answers P) (s : ServerState P) (presented : Option Presented)
    (reported : InstanceUid) (record : AgentRecord P) : Identity P where
  fleet := moveRecord app (holdFromStore app a s.fleet reported).1 reported a.requested record
  uid := a.requested
  sender := reported.bytes
  identification := some a.requested
  binding := bindingOf s.revocations presented reported
  rekeyed := some (reported, a.requested)

private lemma processPresented_moved (hmsg : msg.instanceUid = reported.bytes)
    (hm : MovesRecord app a s msg presented reported record) :
    processPresented app a s msg transport conn presented =
      admitReport app a msg transport conn presented reported
        (detectDuplicate a conn (movedIdentity app a s presented reported record))
        (holdFromStore app a s.fleet reported).2 s.revocations := by
  unfold processPresented
  simp only [hmsg, InstanceUid.fromWire_bytes]
  rcases claimHost_cases a (holdFromStore app a s.fleet reported).1 s.revocations presented reported with
    ⟨_, he⟩ | ⟨hclaim, _⟩
  · simp only [he]
    rw [requestInstanceUid_moved app a msg rfl hm.held hm.asks hm.stored]
    rfl
  · simp [hm.own] at hclaim

private lemma detectDuplicate_moved : detectDuplicate a conn (movedIdentity app a s presented reported record) =
      if isDuplicate conn (some record) then
        { movedIdentity app a s presented reported record with
          uid := a.duplicate
          identification := some a.duplicate }
      else movedIdentity app a s presented reported record := by
  unfold detectDuplicate movedIdentity
  simp only [lookup_moveRecord_new]
  rfl

def NamesHolder (uid : InstanceUid) (result : ServerState P × Processed P) : Prop :=
  (result.1.fleet.lookup uid).isSome → result.2.reply.agentIdentification = some uid

private lemma namesHolder_persistAnd (app : AppSettings P) (a : Answers P) (reported uid : InstanceUid)
    (s : ServerState P) (record : AgentRecord P) (reply : Reply P) (disconnected : Bool) :
    NamesHolder uid (persistAnd app a reported uid s record reply disconnected) ↔
      reply.agentIdentification = some uid ∨ persistIfDirty app a = false := by
  unfold NamesHolder persistAnd
  cases persistIfDirty app a with
  | true => simp
  | false => simp [lookup_placed]

end Rekeyed

/-- When processing moves a known Agent's record, the reply names the identity the record is now held under exactly
when the record is not connected over another WebSocket connection, the register takes the report of the certificate's
host, and a certificate request is granted, or the record was forgotten meanwhile. -/
theorem rekeyed_reply_names_iff (app : AppSettings P) (a : Answers P) (s : ServerState P) (msg : Report P)
    (transport : Transport) (conn : Option ConnId) (presented : Option Presented) (reported : InstanceUid)
    (record : AgentRecord P) (hmsg : msg.instanceUid = reported.bytes)
    (hfresh : a.Fresh (holdFromStore app a s.fleet reported).1)
    (hmoves : MovesRecord app a s msg presented reported record) :
    NamesHolder a.requested (processPresented app a s msg transport conn presented) ↔
      isDuplicate conn (some record) = false ∧ hostAccepts a s.revocations presented reported = true ∧
        (csrGranted app a msg presented reported.bytes = true ∨ persistIfDirty app a = false) := by
  rw [processPresented_moved hmsg hmoves, detectDuplicate_moved]
  have hnew := lookup_moveRecord_new app (holdFromStore app a s.fleet reported).1 record reported a.requested
  cases hdup : isDuplicate conn (some record) with
  | true =>
    simp only [if_true, Bool.true_eq_false, false_and, iff_false]
    intro hnames
    -- the record stays under the identity it asked for, and the reply names a third, or none
    have hleaves := leaves_admitReport app a msg transport conn presented reported
      { movedIdentity app a s presented reported record with uid := a.duplicate, identification := some a.duplicate }
      (holdFromStore app a s.fleet reported).2 s.revocations
    obtain ⟨r, hr, -⟩ := hleaves.1.keptAs hfresh.requested_ne_duplicate hnew
    have hnamed := hnames (by rw [hr]; rfl)
    rcases identification_admitReport app a msg transport conn presented reported
      { movedIdentity app a s presented reported record with uid := a.duplicate, identification := some a.duplicate }
      (holdFromStore app a s.fleet reported).2 s.revocations with h | h
    · simp [h] at hnamed
    · rw [h] at hnamed
      exact hfresh.requested_ne_duplicate (Option.some.inj hnamed).symm
  | false =>
    simp only [Bool.false_eq_true, if_false, true_and]
    rw [admitReport_known app a msg transport conn presented reported _ hnew]
    have hbind := bindHost_isOk a s.revocations presented reported
      (rfl : (movedIdentity app a s presented reported record).binding = bindingOf s.revocations presented reported)
    rw [← hbind]
    rcases bindHost a s.revocations presented _ with ⟨revocations, e | u⟩
    · have hheld : ((movedIdentity app a s presented reported record).fleet.lookup a.requested).isSome := by
        rw [movedIdentity, hnew]
        rfl
      simp [NamesHolder, hheld, badRequest, Reply.bare, Except.isOk, Except.toBool]
    · obtain ⟨arrivedOver, record', reply, disconnected, h, hreply, -⟩ :=
        takeReport_eq app a msg transport conn presented
        reported (movedIdentity app a s presented reported record)
        ⟨(movedIdentity app a s presented reported record).fleet, true, (holdFromStore app a s.fleet reported).2, false⟩
        revocations
      simp only [h, Except.isOk, Except.toBool, true_and]
      refine (namesHolder_persistAnd app a reported a.requested _ record' reply disconnected).trans
        (or_congr ?_ Iff.rfl)
      rw [hreply]
      change (if csrGranted app a msg presented reported.bytes = true then some a.requested else none) =
        some a.requested ↔ _
      split <;> simp_all

/-- A request for an `instance_uid` and no certificate. -/
theorem rekeyed_reply_names_iff_plain : NamesHolder (.ofByte 0xb)
    (processPresented app answers reported (report 1 none) .webSocket (some 1) none) :=
  (rekeyed_reply_names_iff app answers reported (report 1 none) .webSocket (some 1) none
    (.ofByte 1) record rfl fresh_reported ⟨lookup_reported, by decide, rfl, rfl⟩).mpr
    ⟨by decide, rfl, .inl rfl⟩

/-- The Agent asks for an `instance_uid` and for a certificate the Server does not issue: its record is moved, and the
reply does not say where. -/
theorem rekeyed_reply_unnamed : ∃ s, Reach (⟨∅, none⟩ : ServerState payloads) (exchange app) s ∧
    answers.Fresh s.fleet ∧
    MovesRecord app answers s (report 1 (some [0])) none (.ofByte 1) record ∧
    ¬NamesHolder (.ofByte 0xb)
      (processPresented app answers s (report 1 (some [0])) .webSocket (some 1) none) := by
  refine ⟨reported, reach_reported, fresh_reported, ⟨lookup_reported, by decide, rfl, rfl⟩,
    fun h => ?_⟩
  cases h rfl

end OpampFleet.Server
