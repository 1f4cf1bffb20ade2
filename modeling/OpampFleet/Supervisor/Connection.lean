import OpampFleet.Lib.Files

/-!
# The connection settings in force

`merge` of the Client's `connection.rs`, by which an offer is folded over the stored settings, and what a history
of offers comes to. Sub-messages that are only carried are there as their encodings.
-/

namespace OpampFleet.Supervisor.Connection

open Lib Option

structure OpAmpConnectionSettings where
  destinationEndpoint : String := ""
  headers : Option Bytes := none
  certificate : Option Bytes := none
  heartbeatIntervalSeconds : Nat := 0
  tls : Option Bytes := none
  proxy : Option Bytes := none

structure TelemetryConnectionSettings where
  destinationEndpoint : String
  rest : Bytes

structure ConnectionSettingsOffers where
  hash : Bytes
  opamp : Option OpAmpConnectionSettings := none
  ownMetrics : Option TelemetryConnectionSettings := none
  ownTraces : Option TelemetryConnectionSettings := none
  ownLogs : Option TelemetryConnectionSettings := none
  otherConnections : List (String × Bytes) := []

namespace ConnectionSettingsOffers

def load (stored : ConnectionSettingsOffers) : ConnectionSettingsOffers :=
  { stored with opamp := stored.opamp.map fun s => { s with headers := none } }

def statesTelemetry (offer : ConnectionSettingsOffers) : Bool :=
  offer.ownMetrics.isSome || offer.ownTraces.isSome || offer.ownLogs.isSome

variable (stored : Option ConnectionSettingsOffers)

def merge (offer : ConnectionSettingsOffers) : ConnectionSettingsOffers :=
  let previous := stored.bind opamp
  let pick (field : OpAmpConnectionSettings → Bool) := (offer.opamp.filter field).or previous
  let telemetry (offered previous : Option TelemetryConnectionSettings) :=
    if offer.statesTelemetry then offered.filter fun s => s.destinationEndpoint ≠ "" else previous
  { hash := offer.hash
    ownMetrics := telemetry offer.ownMetrics (stored.bind ownMetrics)
    ownTraces := telemetry offer.ownTraces (stored.bind ownTraces)
    ownLogs := telemetry offer.ownLogs (stored.bind ownLogs)
    opamp :=
      if offer.opamp.isSome || previous.isSome then
        some
          { destinationEndpoint := ((pick fun s => s.destinationEndpoint ≠ "").map (·.destinationEndpoint)).getD ""
            certificate := (pick fun s => s.certificate.isSome).bind (·.certificate)
            heartbeatIntervalSeconds :=
              ((pick fun s => s.heartbeatIntervalSeconds ≠ 0).map (·.heartbeatIntervalSeconds)).getD 0 }
      else none }

def mergeAll (offers : List ConnectionSettingsOffers) : Option ConnectionSettingsOffers :=
  offers.foldl (fun stored offer => some (merge (stored.map load) offer)) stored

/-! ### What an offer names -/

def endpoint (s : ConnectionSettingsOffers) : Option String :=
  s.opamp.bind fun s => Option.guard (· ≠ "") s.destinationEndpoint

def certificate (s : ConnectionSettingsOffers) : Option Bytes := s.opamp.bind (·.certificate)

def heartbeat (s : ConnectionSettingsOffers) : Option Nat :=
  s.opamp.bind fun s => Option.guard (· ≠ 0) s.heartbeatIntervalSeconds

/-- What is kept of an offer that names any destination: the three, without those it withdraws. -/
def stated (offer : ConnectionSettingsOffers) :=
  let kept (s : Option TelemetryConnectionSettings) := s.filter fun s => s.destinationEndpoint ≠ ""
  if offer.statesTelemetry then some (kept offer.ownMetrics, kept offer.ownTraces, kept offer.ownLogs) else none

def destinations :=
  (stored.bind ownMetrics, stored.bind ownTraces, stored.bind ownLogs)

variable (stored : Option ConnectionSettingsOffers) (offer : ConnectionSettingsOffers)

private lemma endpoint_merge : (merge stored offer).endpoint = offer.endpoint.or (stored.bind endpoint) := by
  rcases offer with ⟨_, _ | new, _⟩ <;> rcases stored with _ | ⟨_, _ | old, _⟩ <;>
    simp [merge, endpoint, filter_some, Option.guard]
  all_goals split <;> simp_all

private lemma certificate_merge :
    (merge stored offer).certificate = offer.certificate.or (stored.bind certificate) := by
  rcases offer with ⟨_, _ | new, _⟩ <;> rcases stored with _ | ⟨_, _ | old, _⟩ <;>
    simp [merge, certificate, filter_some]
  all_goals cases h : new.certificate <;> simp [h]

private lemma heartbeat_merge : (merge stored offer).heartbeat = offer.heartbeat.or (stored.bind heartbeat) := by
  rcases offer with ⟨_, _ | new, _⟩ <;> rcases stored with _ | ⟨_, _ | old, _⟩ <;>
    simp [merge, heartbeat, filter_some, Option.guard]
  all_goals split <;> simp_all

private lemma destinations_merge :
    some (destinations (some (merge stored offer))) = offer.stated.or (some (destinations stored)) := by
  unfold merge stated
  cases offer.statesTelemetry <;> rfl

private lemma load_merge : (merge stored offer).load = merge stored offer := by
  unfold load merge
  split <;> simp

/-- Merging an offer a second time changes nothing. -/
private lemma merge_merge : merge (some (merge stored offer)) offer = merge stored offer := by
  rcases offer with ⟨_, _ | new, _⟩ <;> rcases stored with _ | ⟨_, _ | old, _⟩ <;>
    simp [merge, filter_some]
  all_goals grind

variable {stored}

/-- A reading that an offer settles or leaves as it was is, after a history, that of the last offer settling it. -/
private lemma reading_mergeAll {β : Type} (get : Option ConnectionSettingsOffers → Option β)
    {named : ConnectionSettingsOffers → Option β} (hload : ∀ stored, get (stored.map load) = get stored)
    (hmerge : ∀ stored offer, get (some (merge stored offer)) = (named offer).or (get stored))
    {offers : List ConnectionSettingsOffers} {inForce : ConnectionSettingsOffers}
    (h : mergeAll stored offers = some inForce) :
    get (some inForce) = (offers.reverse.findSome? named).or (get stored) := by
  rw [← h]
  clear h
  induction offers generalizing stored with
  | nil => rfl
  | cons offer rest ih =>
    rw [mergeAll, List.foldl_cons, ← mergeAll, ih, hmerge, hload, List.reverse_cons, List.findSome?_append,
      Option.or_assoc]
    simp

/-- After a history of offers, each setting is that of the last offer that named it, and a repeated offer changes
nothing. -/
theorem mergeAll_history (offers : List ConnectionSettingsOffers) (last : ConnectionSettingsOffers) :
    let history := offers ++ [last]
    let lastNamed {β : Type} (named : ConnectionSettingsOffers → Option β) := history.reverse.findSome? named
    ∃ inForce, mergeAll stored history = some inForce ∧
      inForce.endpoint = (lastNamed endpoint).or (stored.bind endpoint) ∧
      inForce.certificate = (lastNamed certificate).or (stored.bind certificate) ∧
      inForce.heartbeat = (lastNamed heartbeat).or (stored.bind heartbeat) ∧
      (∀ s ∈ inForce.opamp, s.headers = none ∧ s.tls = none ∧ s.proxy = none) ∧
      destinations (some inForce) = (lastNamed stated).getD (destinations stored) ∧
      inForce.hash = last.hash ∧ mergeAll stored (history ++ [last]) = some inForce := by
  intro history lastNamed
  have hlast : mergeAll stored history = some (merge ((mergeAll stored offers).map load) last) := by
    simp [history, mergeAll]
  refine ⟨_, hlast, ?_, ?_, ?_, ?_, ?_, rfl, ?_⟩
  · exact reading_mergeAll (·.bind endpoint) (by rintro (_ | ⟨_, _ | _, _⟩) <;> rfl) endpoint_merge hlast
  · exact reading_mergeAll (·.bind certificate) (by rintro (_ | ⟨_, _ | _, _⟩) <;> rfl) certificate_merge hlast
  · exact reading_mergeAll (·.bind heartbeat) (by rintro (_ | ⟨_, _ | _, _⟩) <;> rfl) heartbeat_merge hlast
  · intro s hs
    unfold merge at hs
    dsimp only at hs
    split at hs <;> cases hs
    exact ⟨rfl, rfl, rfl⟩
  · have hstated := reading_mergeAll (some ∘ destinations) (by rintro (_ | _) <;> rfl) destinations_merge hlast
    exact some.inj (hstated.trans (or_some ..))
  · have hagain : mergeAll stored (history ++ [last]) = some (merge ((mergeAll stored history).map load) last) := by
      simp [mergeAll]
    rw [hagain, hlast, Option.map_some, load_merge, merge_merge]

end ConnectionSettingsOffers

end OpampFleet.Supervisor.Connection
