import OpampFleet.Lib.Transition
import OpampFleet.Server.Offers

/-!
# Remote configurations received, and the outcomes of applying them

The model of the remote configuration channel of the Client's `supervisor/agent/remote_config.rs` and of its dispatch in
`engine.rs`: a received configuration is stored, reported `APPLYING` and handed to the process adapter (the Client's own
Agent's, its Supervisor set, is left for the transport); the verdict on an apply closes the lifecycle with the hash of
the configuration it is on. Verdicts come back in the order of the hand-overs, and a configuration that still waits for
its start gives none when a newer one arrives.

The Server offers a configuration until the status has its hash.
-/

namespace OpampFleet.Supervisor.Agent

open Lib Core

inductive RemoteConfigStatuses where
  | applied
  | applying
  | failed
  deriving DecidableEq

structure RemoteConfigStatus where
  lastRemoteConfigHash : Bytes
  status : RemoteConfigStatuses
  errorMessage : String

structure AgentRemoteConfig where
  configMap : List (String × Bytes)
  configHash : Bytes

structure ConfigState where
  managed : Bool
  takes : Bool
  applied : Option AgentRemoteConfig
  pendingApply : Option AgentRemoteConfig
  /-- The own Agent's configuration in flight, stored once it is applied. -/
  applying : Option AgentRemoteConfig
  status : Option RemoteConfigStatus
  waiting : String

namespace ConfigState

def restore (managed takes : Bool) (stored : Option AgentRemoteConfig) : ConfigState where
  managed := managed
  takes := takes
  applied := if takes then stored else none
  pendingApply := none
  applying := none
  status := if takes then stored.map fun config => ⟨config.configHash, .applied, ""⟩ else none
  waiting := ""

variable (a : ConfigState)

def configWaits (reason : String) : ConfigState :=
  match a.status with
  | none => a
  | some status =>
    if !a.managed || status.status ≠ .applying || status.errorMessage = reason then a
    else { a with status := some ⟨status.lastRemoteConfigHash, .applying, reason⟩ }

/-- Takes a configuration in; `stored` is how the storing of its files ends. -/
def apply (config : AgentRemoteConfig) (stored : Except String Unit) : ConfigState :=
  let a : ConfigState :=
    if a.managed then
      match stored with
      | .ok () =>
        { a with
          applied := some config
          pendingApply := some config
          status := some ⟨config.configHash, .applying, ""⟩ }
      | .error e =>
        { a with status := some ⟨config.configHash, .failed, s!"cannot store the configuration: {e}"⟩ }
    else
      { a with
        pendingApply := some config
        applying := some config
        status := some ⟨config.configHash, .applying, ""⟩ }
  a.configWaits a.waiting

/-- The verdict on an apply; the own Agent's configuration is stored with it. -/
def configApplied (hash : Bytes) (result : Except String Unit) (stored : Except String Unit) : ConfigState :=
  let kept := a.applying.filter fun config => result.isOk && config.configHash = hash && stored.isOk
  let status : RemoteConfigStatus :=
    match result with
    | .ok () => ⟨hash, .applied, ""⟩
    | .error error => ⟨hash, .failed, error⟩
  { a with applied := kept.or a.applied, applying := none, status := some status }

def setWaiting (waiting : String) : ConfigState :=
  { a with waiting := waiting }.configWaits waiting

def reportedHash : Option Bytes := a.status.map RemoteConfigStatus.lastRemoteConfigHash

end ConfigState

inductive Dispatch where
  | accepted
  | refused
  | noProcess
  deriving DecidableEq

structure ConfigChannel where
  agent : ConfigState
  handed : List AgentRemoteConfig
  received : Option Bytes

namespace ConfigChannel

def start (managed takes : Bool) (stored : Option AgentRemoteConfig) : ConfigChannel where
  agent := .restore managed takes stored
  handed := []
  received := (if takes then stored else none).map AgentRemoteConfig.configHash

variable (s : ConfigChannel)

/-- `Engine::handle`'s part in a configuration that awaits its dispatch. -/
def dispatch (outcome : Dispatch) : ConfigChannel :=
  match s.agent.pendingApply with
  | none => s
  | some config =>
    let s := { s with agent := { s.agent with pendingApply := none } }
    -- The own Agent's goes to the Engine's one slot.
    if !s.agent.managed then { s with handed := [config] }
    else
      match outcome with
      | .accepted => { s with handed := s.handed ++ [config] }
      | .refused =>
        { s with
          agent := s.agent.configApplied config.configHash (.error "the supervisor is not accepting commands")
            (.ok ()) }
      | .noProcess => s

/-- An Agent that takes no remote configuration ignores what arrives. -/
def receive (config : AgentRemoteConfig) (stored : Except String Unit) (outcome : Dispatch) : ConfigChannel :=
  if !s.agent.takes then s
  else
    { s with agent := s.agent.apply config stored, received := some config.configHash }.dispatch outcome

inductive Act where
  | receive (config : AgentRemoteConfig) (stored : Except String Unit) (outcome : Dispatch)
  | ended (result : Except String Unit) (stored : Except String Unit)
  | superseded
  | waiting (reason : String)

def step : Act → Option ConfigChannel
  | .receive config stored outcome => some (s.receive config stored outcome)
  | .ended result stored =>
    match s.handed with
    | [] => none
    | config :: rest =>
      some { s with agent := s.agent.configApplied config.configHash result stored, handed := rest }
  | .superseded =>
    match s.handed with
    | _ :: newer :: rest => some { s with handed := newer :: rest }
    | _ => none
  | .waiting reason => some { s with agent := s.agent.setWaiting reason }

/-- A verdict is on the configuration received last. -/
def OnLatest : Act → Prop
  | .ended _ _ => ∀ config ∈ s.handed.head?, some config.configHash = s.received
  | _ => True

instance (s : ConfigChannel) (act : Act) : Decidable (s.OnLatest act) := by
  cases act <;> unfold OnLatest <;> infer_instance

end ConfigChannel

namespace ConfigState

section

variable (a : ConfigState)

private lemma reportedHash_configWaits (reason : String) : (a.configWaits reason).reportedHash = a.reportedHash := by
  unfold configWaits
  cases hstatus : a.status with
  | none => rfl
  | some status =>
    simp only
    split
    · rfl
    · simp [reportedHash, hstatus]

private lemma reportedHash_apply (config : AgentRemoteConfig) (stored : Except String Unit) :
    (a.apply config stored).reportedHash = some config.configHash := by
  unfold apply
  rw [reportedHash_configWaits]
  by_cases hmanaged : a.managed = true
  · rw [if_pos hmanaged]
    cases stored with
    | ok u | error e => rfl
  · rw [if_neg hmanaged]
    rfl

private lemma reportedHash_configApplied (hash : Bytes) (result stored : Except String Unit) :
    (a.configApplied hash result stored).reportedHash = some hash := by
  cases result with
  | ok u | error e => rfl

private lemma pendingApply_configWaits (reason : String) : (a.configWaits reason).pendingApply = a.pendingApply := by
  unfold configWaits
  split
  · rfl
  · split <;> rfl

end

private lemma eq_of_pendingApply_apply {a : ConfigState} (hnone : a.pendingApply = none)
    {config pending : AgentRemoteConfig}
    {stored : Except String Unit} (h : pending ∈ (a.apply config stored).pendingApply) : pending = config := by
  unfold apply at h
  rw [pendingApply_configWaits] at h
  by_cases hmanaged : a.managed = true
  · rw [if_pos hmanaged] at h
    cases stored with
    | ok u => exact (Option.some.inj h).symm
    | error e =>
      simp [hnone] at h
  · rw [if_neg hmanaged] at h
    exact (Option.some.inj h).symm

end ConfigState

namespace ConfigChannel

variable {s t : ConfigChannel}

structure Current (s : ConfigChannel) : Prop where
  status : s.agent.reportedHash = s.received
  dispatched : s.agent.pendingApply = none

private lemma Current.receive (h : s.Current) (config : AgentRemoteConfig) (stored : Except String Unit)
    (outcome : Dispatch) : (s.receive config stored outcome).Current := by
  unfold ConfigChannel.receive
  split
  · exact h
  have hstatus := s.agent.reportedHash_apply config stored
  unfold dispatch
  cases hpending : (s.agent.apply config stored).pendingApply with
  | none => exact ⟨hstatus, hpending⟩
  | some pending =>
    have heq : pending = config := ConfigState.eq_of_pendingApply_apply h.dispatched hpending
    simp only
    split
    · exact ⟨hstatus, rfl⟩
    · cases outcome with
      | accepted | noProcess => exact ⟨hstatus, rfl⟩
      | refused => exact ⟨by rw [ConfigState.reportedHash_configApplied, heq], rfl⟩

private lemma Current.step (h : s.Current) {act : Act} (hok : s.OnLatest act) (hstep : s.step act = some t) :
    t.Current := by
  cases act with
  | receive config stored outcome =>
    cases hstep
    exact h.receive config stored outcome
  | ended result stored =>
    simp only [ConfigChannel.step] at hstep
    split at hstep
    · cases hstep
    rename_i config rest hhanded
    cases hstep
    have hlatest : some config.configHash = s.received := hok config (by rw [hhanded]; rfl)
    refine ⟨?_, h.dispatched⟩
    rwa [ConfigState.reportedHash_configApplied]
  | superseded =>
    simp only [ConfigChannel.step] at hstep
    split at hstep
    · cases hstep
      exact ⟨h.status, h.dispatched⟩
    · cases hstep
  | waiting reason =>
    cases hstep
    have hreported := ConfigState.reportedHash_configWaits { s.agent with waiting := reason } reason
    have hpending := ConfigState.pendingApply_configWaits { s.agent with waiting := reason } reason
    exact ⟨hreported.trans h.status, hpending.trans h.dispatched⟩

private lemma current_start (managed takes : Bool) (stored : Option AgentRemoteConfig) :
    (start managed takes stored).Current := by
  refine ⟨?_, rfl⟩
  cases takes with
  | false => rfl
  | true =>
    cases stored with
    | none | some config => rfl

end ConfigChannel

def ReportedTo {H C : Type} (agent : ConfigState) (record : Server.AgentRecord (Server.wire H C)) : Prop :=
  record.remoteConfigStatus = agent.reportedHash.map Server.RemoteConfigStatus.mk

namespace ConfigChannel

/-- In every run in which a verdict is on the configuration received last, the hash of the status is that
configuration's; so the Server, told the status, does not offer that configuration again. -/
theorem status_of_last_received {managed takes : Bool} {stored : Option AgentRemoteConfig} {s : ConfigChannel}
    (h : Reach (start managed takes stored) (restrict OnLatest step) s) :
    s.agent.reportedHash = s.received ∧
      ∀ (H C : Type) (record : Server.AgentRecord (Server.wire H C)) (desired : Server.DesiredConfig),
        ReportedTo s.agent record → s.received = some desired.hash → Server.offer record (some desired) = none := by
  have hcurrent : s.Current := by
    exact h.invariant_restrict (current_start managed takes stored) fun _ _ _ hs hok hstep => hs.step hok hstep
  refine ⟨hcurrent.status, fun H C record desired hreported hdesired => ?_⟩
  have hstatus : record.remoteConfigStatus = some ⟨desired.hash⟩ := by
    rw [hreported, hcurrent.status, hdesired]
    rfl
  unfold Server.offer
  rw [Option.bind_some, hstatus]
  split
  · rfl
  · exact if_pos rfl

namespace Small

def config (hash : UInt8) : AgentRemoteConfig := ⟨[("a", [hash])], [hash]⟩

def received (hash : UInt8) : Act := .receive (config hash) (.ok ()) .accepted

end Small

/-- Two configurations, the second once the first is applied. -/
theorem status_of_last_received_in_turn : ∃ s, Reach (start true true none) (restrict OnLatest step) s ∧
      s.received = some [2] ∧ s.agent.reportedHash = s.received := by
  refine Reach.exists_of_run_imp (p := fun s => s.received = some [2])
    [Small.received 1, .ended (.ok ()) (.ok ()), Small.received 2] (by decide +kernel) ?_
  intro s hreach hreceived
  exact ⟨hreceived, (status_of_last_received hreach).1⟩

/-- The verdict on the first configuration, after the second was received, puts the first one's hash back, and the
Server, told that status, offers the second again. -/
theorem earlier_verdict_replaces_status :
    ∃ s, Reach (start true true none) step s ∧ s.received = some [2] ∧ s.agent.reportedHash = some [1] ∧
      ∀ (H C : Type) (record : Server.AgentRecord (Server.wire H C)) (desired : Server.DesiredConfig),
        ReportedTo s.agent record → s.received = some desired.hash →
        Server.includes record.capabilities Server.AgentCapabilities.acceptsRemoteConfig = true →
        (Server.offer record (some desired)).isSome := by
  refine Reach.exists_of_run_imp (p := fun s => s.received = some [2] ∧ s.agent.reportedHash = some [1])
    [Small.received 1, Small.received 2, .ended (.ok ()) (.ok ())] (by decide +kernel) ?_
  rintro s - ⟨hreceived, hstatus⟩
  refine ⟨hreceived, hstatus, fun H C record desired hreported hdesired haccepts => ?_⟩
  have hrecord : record.remoteConfigStatus = some ⟨[1]⟩ := by
    rw [hreported, hstatus]
    rfl
  have hhash : desired.hash = [2] := Option.some.inj (hdesired.symm.trans hreceived)
  have hother : record.remoteConfigStatus.elim [] Server.RemoteConfigStatus.lastRemoteConfigHash ≠ desired.hash := by
    rw [hrecord, hhash]
    exact show ([1] : Bytes) ≠ [2] by decide
  simp [Server.offer, haccepts, hother]

end ConfigChannel

end OpampFleet.Supervisor.Agent
