import OpampFleet.Server.Declared
import OpampFleet.Server.Offers

/-!
# What a message to an Agent carries, and what the Agent accepts

The messages of a run, each with the capability set its Agent had declared last when it was sent. An offer is made
from the Agent's record, so it is checked against the set the record has; the record has the set the Agent declared
(`Tells`). Two messages are checked against nothing: the settings that carry a certificate to the Agent that asked for
it, and the restart command a WebSocket loop pushes.
-/

namespace OpampFleet.Server

open Lib Opamp Option AgentCapabilities

variable {H C : Type}

structure OffersAccepted (capabilities : UInt64) (requested : Bool) (message : Reply (wire H C)) : Prop where
  remoteConfig : message.remoteConfig.isSome → includes capabilities acceptsRemoteConfig
  packages : message.packagesAvailable.isSome → includes capabilities acceptsPackages
  settings : ∀ offers ∈ message.connectionSettings, ∀ settings ∈ ConnectionSettingsOffers.opamp offers,
    includes capabilities acceptsOpAmpConnectionSettings ∨
      requested ∧ settings.certificate.isSome

def RestartAccepted (capabilities : UInt64) (message : Reply (wire H C)) : Prop :=
  message.restart → includes capabilities acceptsRestartCommand

@[simp]
lemma includes_zero (bit : UInt64) : includes 0 bit = false := by simp [includes]

variable {message : Reply (wire H C)} {issued : Option TlsCertificate} {uid : InstanceUid}

private lemma OffersAccepted.mono {known declared : UInt64} {requested : Bool}
    (h : OffersAccepted known requested message) (hknown : known = 0 ∨ declared = known) :
    OffersAccepted declared requested message := by
  rcases hknown with rfl | rfl
  · refine ⟨fun hsome => ?_, fun hsome => ?_, fun offers hoffers settings hsettings => ?_⟩
    · simpa using h.remoteConfig hsome
    · simpa using h.packages hsome
    · exact .inr (by simpa using h.settings offers hoffers settings hsettings)
  · exact h

private lemma RestartAccepted.mono {known declared : UInt64} (h : RestartAccepted known message)
    (hknown : known = 0 ∨ declared = known) : RestartAccepted declared message := by
  rcases hknown with rfl | rfl
  · intro hrestart
    simpa using h hrestart
  · exact h

section Offers

variable (sha256 : Bytes → Bytes) (quote : String → String) (encode : ConnectionSettingsOffers → Bytes)
  (o : Offering H C) (record : AgentRecord (wire H C))

private lemma includes_of_offer {desired : Option DesiredConfig} (h : (offer record desired).isSome) :
    includes record.capabilities acceptsRemoteConfig := by
  cases desired with
  | none => cases h
  | some desired =>
    simp only [offer, bind_some] at h
    split at h
    · cases h
    next haccepts =>
      simpa using haccepts

private lemma includes_of_packagesOffer (h : (o.packagesOffer sha256 quote record).isSome) :
    includes record.capabilities acceptsPackages := by
  unfold Offering.packagesOffer at h
  cases hstore : o.packages with
  | none =>
    simp [hstore] at h
  | some store =>
    simp only [hstore, bind_some] at h
    split at h
    · cases h
    next haccepts =>
      simpa using haccepts

private lemma mem_gate {offers offered : ConnectionSettingsOffers} (h : offered ∈ gate record offers) :
    offered = offers := by
  unfold gate at h
  split at h
  · split at h
    · cases h
    · exact (Option.some.inj h).symm
  · exact (Option.some.inj h).symm

private lemma includes_of_settingsOffer {offers : ConnectionSettingsOffers}
    (hoffers : offers ∈ o.settingsOffer sha256 encode record issued) {settings : OpAmpConnectionSettings}
    (hsettings : settings ∈ offers.opamp) :
    includes record.capabilities acceptsOpAmpConnectionSettings ∨
      issued.isSome ∧ settings.certificate.isSome := by
  unfold Offering.settingsOffer at hoffers
  cases issued with
  | some certificate =>
    cases hoffers
    cases hsettings
    exact .inr ⟨rfl, rfl⟩
  | none =>
    simp only at hoffers
    split at hoffers
    · cases hoffers
    · rw [mem_gate record hoffers] at hsettings
      exact .inl (mem_filter_iff.mp hsettings).2

end Offers

def answeredTo (result : ServerState (wire H C) × Processed (wire H C)) : UInt64 :=
  (result.2.uid.bind fun uid => result.1.fleet.lookup uid).elim 0 fun record => record.capabilities

structure Answered (requested : Bool) (result : ServerState (wire H C) × Processed (wire H C)) : Prop where
  offers : OffersAccepted (answeredTo result) requested result.2.reply
  restart : RestartAccepted (answeredTo result) result.2.reply

structure Reply.Empty (message : Reply (wire H C)) : Prop where
  remoteConfig : message.remoteConfig = none
  connectionSettings : message.connectionSettings = none
  packagesAvailable : message.packagesAvailable = none
  restart : message.restart = false

private lemma Reply.Empty.offersAccepted (h : message.Empty) (capabilities : UInt64)
    (requested : Bool) : OffersAccepted capabilities requested message := by
  refine ⟨fun hsome => ?_, fun hsome => ?_, fun offers hoffers => ?_⟩
  · simp [h.remoteConfig] at hsome
  · simp [h.packagesAvailable] at hsome
  · simp [h.connectionSettings] at hoffers

private lemma Reply.Empty.restartAccepted (h : message.Empty) (capabilities : UInt64) :
    RestartAccepted capabilities message := by
  intro hrestart
  simp [h.restart] at hrestart

private lemma Reply.Empty.answered {requested : Bool} {result : ServerState (wire H C) × Processed (wire H C)}
    (h : result.2.reply.Empty) : Answered requested result :=
  ⟨h.offersAccepted _ requested, h.restartAccepted _⟩

private lemma empty_badRequest (message : String) : (badRequest message : Reply (wire H C)).Empty :=
    ⟨rfl, rfl, rfl, rfl⟩

private lemma empty_unavailable (uid : Bytes) (message : String) : (unavailable uid message : Reply (wire H C)).Empty :=
  ⟨rfl, rfl, rfl, rfl⟩

section Reply

variable (sha256 : Bytes → Bytes) (quote : String → String) (encode : ConnectionSettingsOffers → Bytes)
  (o : Offering H C) (a : Answers (wire H C)) (msg : Report (wire H C)) (transport : Transport)
  (conn : Option ConnId) (presented : Option Presented) (reported : InstanceUid)

variable {record : AgentRecord (wire H C)}

private lemma answered_persistAnd {s : ServerState (wire H C)} {requested disconnected : Bool}
    {reply : Reply (wire H C)} (hoffers : OffersAccepted record.capabilities requested reply)
    (hrestart : RestartAccepted record.capabilities reply) :
    Answered requested (persistAnd (o.app sha256 quote encode) a reported uid s record reply disconnected) := by
  unfold persistAnd
  split
  · have hto : answeredTo (({ s with fleet := s.fleet.insert uid record }, ⟨reply, some uid, disconnected⟩) :
        ServerState (wire H C) × Processed (wire H C)) = record.capabilities := by
      simp [answeredTo]
    exact ⟨hto ▸ hoffers, hto ▸ hrestart⟩
  · exact Reply.Empty.answered ⟨rfl, rfl, rfl, rfl⟩

private lemma includes_of_takeRestart {identification : Option InstanceUid}
    {flags : UInt64} (h : (takeRestart a identification record flags).2 = true) :
    includes record.capabilities acceptsRestartCommand := by
  unfold takeRestart at h
  split at h
  next hready =>
    exact (Bool.and_eq_true_iff.mp hready).2
  · cases h

private lemma answered_answer (id : Identity (wire H C)) (s : ServerState (wire H C)) (record : AgentRecord (wire H C))
    (flags : UInt64) {requested : Bool} (hissued : issued.isSome → requested = true) :
    Answered requested (answer (o.app sha256 quote encode) a msg reported id s record flags issued) := by
  unfold answer
  simp only
  split
  · have hempty : Reply.Empty (H := H) (C := C)
        { Reply.bare (wire H C) (o.app sha256 quote encode).capabilities with
          instanceUid := reported.bytes
          flags := flags
          agentIdentification := id.identification } := ⟨rfl, rfl, rfl, rfl⟩
    exact answered_persistAnd sha256 quote encode o a reported (hempty.offersAccepted _ _) (hempty.restartAccepted _)
  split
  next hdelivered =>
    refine answered_persistAnd sha256 quote encode o a reported ⟨fun h => ?_, fun h => ?_, fun _ h => ?_⟩ fun _ => ?_
    · cases h
    · cases h
    · cases h
    · rw [capabilities_takeRestart]
      exact includes_of_takeRestart a hdelivered
  · refine answered_persistAnd sha256 quote encode o a reported ⟨fun h => ?_, fun h => ?_, fun _ h _ h' => ?_⟩
      fun h => ?_
    · exact includes_of_offer _ h
    · exact includes_of_packagesOffer sha256 quote o _ h
    · exact (includes_of_settingsOffer sha256 encode o _ h h').imp_right fun ⟨hi, hc⟩ => ⟨hissued hi, hc⟩
    · cases h

private lemma answered_takeReport (id : Identity (wire H C)) (admission : Admission (wire H C))
    (revocations : Option Register) :
    Answered msg.certificateRequest.isSome
      (takeReport (o.app sha256 quote encode) a msg transport conn presented reported id admission revocations) := by
  unfold takeReport
  cases hrequest : msg.certificateRequest with
  | none => exact answered_answer sha256 quote encode o a msg reported id _ _ _ fun h => h
  | some csr =>
    simp only [map_some]
    split
    next h =>
      cases h
    · exact answered_persistAnd sha256 quote encode o a reported ((empty_unavailable _ _).offersAccepted _ _)
        ((empty_unavailable _ _).restartAccepted _)
    · exact answered_persistAnd sha256 quote encode o a reported ((empty_badRequest _).offersAccepted _ _)
        ((empty_badRequest _).restartAccepted _)
    · exact answered_answer sha256 quote encode o a msg reported id _ _ _ fun _ => rfl

private lemma answered_processPresented (s : ServerState (wire H C)) : Answered msg.certificateRequest.isSome
      (processPresented (o.app sha256 quote encode) a s msg transport conn presented) := by
  unfold processPresented
  split
  · exact (empty_badRequest _).answered
  simp only
  split
  · exact (empty_badRequest _).answered
  unfold admitReport
  split
  · exact (empty_unavailable _ _).answered
  split
  · exact (empty_unavailable _ _).answered
  · split
    · exact (empty_badRequest _).answered
    · exact answered_takeReport sha256 quote encode o a msg transport conn presented _ _ _ _

end Reply

inductive Kind where
  | reply
  | offer
  | restartCommand
  deriving DecidableEq

structure Sent (H C : Type) where
  kind : Kind
  declared : UInt64
  requested : Bool
  message : Reply (wire H C)

structure Running (H C : Type) where
  server : ServerState (wire H C)
  declared : Declared
  sent : List (Sent H C)

/-- What operators, rollouts, the other instances and the end of a connection change of a record. -/
structure Edit where
  assignment : Option Assignment
  labels : Map String String
  restartPending : Bool
  connected : Bool
  owner : Option ConnId

inductive Running.Act (H C : Type) where
  | report (o : Offering H C) (x : Exchange (wire H C))
  | pushOffer (o : Offering H C) (uid : InstanceUid)
  | pushRestart (o : Offering H C) (uid : InstanceUid) (was : Except String (Option Bool))
  | edit (uid : InstanceUid) (edit : Edit)
  | place (placements : InstanceUid → Placement)
  | forget (uid : InstanceUid)
  | hosts (revocations : Option Register)

namespace Running

def start (fleet : Records (wire H C)) (revocations : Option Register) : Running H C where
  server := ⟨fleet, revocations⟩
  declared uid := (fleet.lookup uid).elim 0 fun record => record.capabilities
  sent := []

def send (s : Running H C) (kind : Kind) (uid : Option InstanceUid) (requested : Bool) (message : Reply (wire H C)) :
    Running H C :=
  { s with sent := ⟨kind, uid.elim 0 s.declared, requested, message⟩ :: s.sent }

def withFleet (s : Running H C) (fleet : Records (wire H C)) : Running H C :=
  { s with server := { s.server with fleet := fleet } }

def take (sha256 : Bytes → Bytes) (quote : String → String) (encode : ConnectionSettingsOffers → Bytes)
    (s : Running H C) (o : Offering H C) (x : Exchange (wire H C)) : Running H C :=
  let app := o.app sha256 quote encode
  let (server, processed) := processPresented app x.answers s.server x.msg x.transport x.conn x.presented
  let declared := declaredAfter app x.answers s.server x.msg x.transport x.conn x.presented s.declared
  send ⟨server, declared, s.sent⟩ .reply processed.uid x.msg.certificateRequest.isSome processed.reply

def edited (record : AgentRecord (wire H C)) (edit : Edit) : AgentRecord (wire H C) :=
  { record with
    assignment := edit.assignment
    labels := edit.labels
    restartPending := edit.restartPending
    connected := edit.connected
    owner := edit.owner }

def step (sha256 : Bytes → Bytes) (quote : String → String) (encode : ConnectionSettingsOffers → Bytes)
    (s : Running H C) : Act H C → Option (Running H C)
  | .report o x => some (s.take sha256 quote encode o x)
  | .pushOffer o uid =>
    (o.offerFor sha256 quote s.server.fleet uid).map fun message => s.send .offer (some uid) false message
  | .pushRestart o uid was =>
    let (fleet, command) := o.restartCommandFor was s.server.fleet uid
    some (command.elim (s.withFleet fleet) fun message =>
      (s.withFleet fleet).send .restartCommand (some uid) false message)
  | .edit uid edit =>
    (s.server.fleet.lookup uid).map fun record =>
      s.withFleet (s.server.fleet.insert uid (edited record edit))
  | .place placements => some (s.withFleet (placed s.server.fleet placements))
  | .forget uid => some (s.withFleet (s.server.fleet.erase uid))
  | .hosts revocations => some { s with server := { s.server with revocations := revocations } }

end Running

/-- The Agent declared that it accepts what the message carries, or asked for it; the restart command a WebSocket loop
pushes apart. -/
structure Sent.Accepted (m : Sent H C) : Prop where
  offers : OffersAccepted m.declared m.requested m.message
  restart : m.kind ≠ .restartCommand → RestartAccepted m.declared m.message

namespace Running

structure Accepted (s : Running H C) : Prop where
  tells : Tells s.declared s.server.fleet
  sent : ∀ m ∈ s.sent, m.Accepted

private lemma accepted_start (fleet : Records (wire H C)) (revocations : Option Register) :
    (start fleet revocations).Accepted := by
  refine ⟨fun uid record hrecord => .inr ?_, fun m hm => by cases hm⟩
  unfold start at hrecord ⊢
  simp only at hrecord ⊢
  rw [hrecord]
  rfl

namespace Accepted

variable {s : Running H C}

section

variable (h : s.Accepted)
include h

private lemma send {kind : Kind} {uid : Option InstanceUid} {requested : Bool} {message : Reply (wire H C)}
    (hmessage : Sent.Accepted ⟨kind, uid.elim 0 s.declared, requested, message⟩) :
    (s.send kind uid requested message).Accepted := by
  refine ⟨h.tells, fun m hm => ?_⟩
  rcases List.mem_cons.mp hm with rfl | hm
  · exact hmessage
  · exact h.sent m hm

private lemma withFleet {fleet : Records (wire H C)} (htells : Tells s.declared fleet) : (s.withFleet fleet).Accepted :=
  ⟨htells, h.sent⟩

private lemma answeredTo (processed : Processed (wire H C)) :
    answeredTo (s.server, processed) = 0 ∨ processed.uid.elim 0 s.declared = answeredTo (s.server, processed) := by
  unfold Server.answeredTo
  cases huid : processed.uid with
  | none => exact .inl rfl
  | some uid =>
    cases hrecord : s.server.fleet.lookup uid with
    | none => exact .inl (by simp [hrecord])
    | some record => simpa [hrecord] using h.tells uid record hrecord

private lemma take (sha256 : Bytes → Bytes) (quote : String → String)
    (encode : ConnectionSettingsOffers → Bytes) (o : Offering H C) (x : Exchange (wire H C)) :
    (s.take sha256 quote encode o x).Accepted := by
  have htells := h.tells.processPresented (o.app sha256 quote encode) x.answers x.msg x.transport x.conn x.presented
  have hanswered := answered_processPresented sha256 quote encode o x.answers x.msg x.transport x.conn x.presented
    s.server
  unfold Running.take
  simp only
  generalize processPresented (o.app sha256 quote encode) x.answers s.server x.msg x.transport x.conn x.presented =
    result at htells hanswered ⊢
  obtain ⟨server, processed⟩ := result
  have hafter : Accepted ⟨server, _, s.sent⟩ := ⟨htells, h.sent⟩
  refine hafter.send ⟨?_, fun _ => ?_⟩
  · exact hanswered.offers.mono (hafter.answeredTo processed)
  · exact hanswered.restart.mono (hafter.answeredTo processed)

variable {quote : String → String} {sha256 : Bytes → Bytes}

private lemma pushOffer {o : Offering H C} {message : Reply (wire H C)}
    (hmessage : o.offerFor sha256 quote s.server.fleet uid = some message) :
    (s.send .offer (some uid) false message).Accepted := by
  obtain ⟨record, hrecord, hoffer⟩ := bind_eq_some_iff.mp hmessage
  simp only at hoffer
  split at hoffer
  · cases hoffer
  cases hoffer
  refine h.send ⟨?_, fun _ hrestart => ?_⟩
  · refine @OffersAccepted.mono H C _ record.capabilities _ _ ?_ (h.tells uid record hrecord)
    refine ⟨fun hsome => includes_of_offer record hsome, fun hsome => ?_, fun _ hoffers => ?_⟩
    · exact includes_of_packagesOffer sha256 quote o record hsome
    · cases hoffers
  · cases hrestart

private lemma pushRestart (o : Offering H C) (uid : InstanceUid) (was : Except String (Option Bool)) :
    Tells s.declared (o.restartCommandFor was s.server.fleet uid).1 ∧
      ∀ message ∈ (o.restartCommandFor was s.server.fleet uid).2, message = restartCommand uid o.capabilities := by
  unfold Offering.restartCommandFor
  cases hrecord : s.server.fleet.lookup uid with
  | none => exact ⟨h.tells, fun _ hm => by cases hm⟩
  | some record =>
    simp only
    split
    · exact ⟨h.tells, fun _ hm => by cases hm⟩
    cases was with
    | error e => exact ⟨h.tells, fun _ hm => by cases hm⟩
    | ok was =>
      refine ⟨h.tells.insert (h.tells uid record hrecord), fun message hm => ?_⟩
      simp only at hm
      split at hm
      · exact (Option.some.inj hm).symm
      · cases hm

private lemma step {encode : ConnectionSettingsOffers → Bytes} {t : Running H C} (act : Act H C)
    (hstep : s.step sha256 quote encode act = some t) : t.Accepted := by
  cases act with
  | report o x =>
    cases hstep
    exact h.take sha256 quote encode o x
  | pushOffer o uid =>
    obtain ⟨message, hmessage, rfl⟩ := map_eq_some_iff.mp hstep
    exact h.pushOffer hmessage
  | pushRestart o uid was =>
    have hpush := h.pushRestart o uid was
    simp only [Running.step] at hstep
    generalize o.restartCommandFor was s.server.fleet uid = pushed at hstep hpush
    obtain ⟨fleet, command⟩ := pushed
    obtain ⟨htells, hcommand⟩ := hpush
    cases hstep
    cases command with
    | none => exact h.withFleet htells
    | some message =>
      rw [hcommand message rfl]
      refine (h.withFleet htells).send ⟨⟨fun hm => ?_, fun hm => ?_, fun _ hm => ?_⟩, fun hne => (hne rfl).elim⟩
      · cases hm
      · cases hm
      · cases hm
  | edit uid edit =>
    obtain ⟨record, hrecord, rfl⟩ := map_eq_some_iff.mp hstep
    exact h.withFleet (h.tells.insert (h.tells uid record hrecord))
  | place placements =>
    cases hstep
    exact h.withFleet (h.tells.placed placements)
  | forget uid =>
    cases hstep
    exact h.withFleet (h.tells.erase uid)
  | hosts revocations =>
    cases hstep
    exact ⟨h.tells, h.sent⟩

end

end Accepted

/-- In every run every message sent to an Agent carries a remote configuration, a package offer or OpAMP connection
settings only if the Agent accepts them by the set it declared last, or asked for the certificate the settings carry in
the report the message answers; and every reply and every offer commands a restart only if the Agent accepts that. -/
theorem sent_accepted (sha256 : Bytes → Bytes) (quote : String → String) (encode : ConnectionSettingsOffers → Bytes)
    {fleet : Records (wire H C)} {revocations : Option Register} {s : Running H C}
    (h : Reach (start fleet revocations) (step sha256 quote encode) s) : ∀ m ∈ s.sent, m.Accepted :=
  (h.invariant (accepted_start fleet revocations) fun _ act _ hs hstep => hs.step act hstep).sent

namespace Small

def offering : Offering Unit Unit where
  shared := false
  maxAgents := 10
  configs := ⟨∅, ∅⟩
  packages := none
  connectionOffer := some ⟨"wss://fleet", 30, none⟩
  telemetryOffer := ⟨none, none, none⟩
  place := fun _ _ _ => ⟨none, ∅⟩
  unplace := fun _ _ _ _ => ⟨none, ∅⟩
  clientCa := some fun _ _ _ => .ok ⟨[1]⟩

def report (sequenceNum capabilities : UInt64) (certificateRequest : Option Bytes) : Exchange (wire Unit Unit) where
  answers := Server.Small.answers
  msg :=
    { Server.Small.reportOf (P := wire Unit Unit) ⟨[], []⟩ with
      sequenceNum := sequenceNum
      capabilities := capabilities
      certificateRequest := certificateRequest }
  transport := .webSocket
  conn := some 1
  presented := none

/-- The Agent accepts a restart, one is queued, and the Agent reports that it accepts none before the restart is
pushed. -/
def withdrawn : List (Act Unit Unit) :=
  [.report offering (report 0 0x401 none), .edit (.ofByte 1) ⟨none, ∅, true, true, some 1⟩,
    .report offering (report 1 1 none), .pushRestart offering (.ofByte 1) (.ok (some true))]

def carriesSettings (m : Sent Unit Unit) : Bool :=
  m.message.connectionSettings.any fun offers => (ConnectionSettingsOffers.opamp offers).isSome

end Small

/-- An Agent that accepts OpAMP connection settings is sent them. -/
theorem sent_accepted_of_settings :
    ∃ s, Reach (start ∅ none) (step (fun bytes => bytes) (fun text => text) fun _ => []) s ∧
      s.sent.any Small.carriesSettings = true ∧ ∀ m ∈ s.sent, m.Accepted := by
  refine Reach.exists_of_run_imp (p := fun s => s.sent.any Small.carriesSettings = true)
    [.report Small.offering (Small.report 0 0x101 none)] (by decide +kernel) ?_
  intro s hreach hsettings
  exact ⟨hsettings, sent_accepted _ _ _ hreach⟩

/-- By design, an Agent that has not declared that it accepts them is sent OpAMP connection settings with the
certificate it asked for. -/
theorem certificate_sent_undeclared :
    ∃ s, Reach (start ∅ none) (step (fun bytes => bytes) (fun text => text) fun _ => []) s ∧
      ∃ m ∈ s.sent, m.kind = .reply ∧ Small.carriesSettings m = true ∧
        includes m.declared acceptsOpAmpConnectionSettings = false := by
  exact Reach.exists_of_run [.report Small.offering (Small.report 0 1 (some []))] (by decide +kernel)

/-- A queued restart is pushed to an Agent that accepts none any more: `restart_command_for` asks for no capability,
which both the reply and the request for a restart do. -/
theorem restart_pushed_undeclared :
    ∃ s : Running Unit Unit, Reach (start ∅ none) (step (fun bytes => bytes) (fun text => text) fun _ => []) s ∧
      ∃ m ∈ s.sent, m.message.restart = true ∧
        includes m.declared acceptsRestartCommand = false := by
  exact Reach.exists_of_run Small.withdrawn (by decide +kernel)

end Running

end OpampFleet.Server
