import OpampFleet.Core.Text
import OpampFleet.Server.Agents
import Mathlib.Data.String.Basic

/-!
# The digest of a record's durable content

The model of `PersistedAgent::durable_digest`: the fields of a record, all but `last_seen_ms` and `sequence_num`, each
as its bytes, the optional ones behind a flag. The hash over the fields, each behind its length, is left to the caller.

`ReportedContent` is the part of that content a report decides; the assignment, the labels and the queued restart are
the acts'. Two records with the same fields have the same reported part, which stands before and behind the acts' part.
-/

namespace OpampFleet.Server

open Lib Core List

abbrev PersistedRecord (P : Payloads) := PersistedAgent (StoredFields P)

structure Encoders (P : Payloads) where
  description : P.Description → Bytes
  health : P.Health → Bytes
  remoteConfigStatus : P.RemoteConfigStatus → Bytes
  connectionSettingsStatus : P.ConnectionSettingsStatus → Bytes
  packageStatuses : P.PackageStatuses → Bytes
  availableComponents : AvailableComponents P → Bytes

structure Encoding (P : Payloads) extends Encoders P where
  description_injective : Function.Injective description
  health_injective : Function.Injective health
  remoteConfigStatus_injective : Function.Injective remoteConfigStatus
  connectionSettingsStatus_injective : Function.Injective connectionSettingsStatus
  packageStatuses_injective : Function.Injective packageStatuses
  availableComponents_injective : Function.Injective availableComponents

structure ReportedContent (P : Payloads) where
  capabilities : UInt64
  description : Option P.Description
  health : Option P.Health
  effectiveConfig : Option String
  remoteConfigStatus : Option P.RemoteConfigStatus
  connectionSettingsStatus : Option P.ConnectionSettingsStatus
  packageStatuses : Option P.PackageStatuses
  availableComponents : Option (AvailableComponents P)
  transport : Transport
  host : Option String

variable {P : Payloads}

instance encodersOfEncoding : Coe (Encoding P) (Encoders P) := ⟨Encoding.toEncoders⟩

def StoredFields.reported (f : StoredFields P) : ReportedContent P where
  capabilities := f.capabilities
  description := f.description
  health := f.health
  effectiveConfig := f.effectiveConfig
  remoteConfigStatus := f.remoteConfigStatus
  connectionSettingsStatus := f.connectionSettingsStatus
  packageStatuses := f.packageStatuses
  availableComponents := f.availableComponents
  transport := f.transport
  host := f.host

def Transport.asStr : Transport → String
  | http => "http"
  | webSocket => "websocket"

def flag (b : Bool) : Bytes := [if b then 1 else 0]

def message {α : Type} (encode : α → Bytes) (value : Option α) : List Bytes := [flag value.isSome, value.elim [] encode]

def reportedFields (enc : Encoders P) (f : StoredFields P) : List Bytes :=
  [lengthBytes f.capabilities.toNat] ++ message enc.description f.description ++ message enc.health f.health ++
    message utf8 f.effectiveConfig ++ message enc.remoteConfigStatus f.remoteConfigStatus ++
    message enc.connectionSettingsStatus f.connectionSettingsStatus ++ message enc.packageStatuses f.packageStatuses ++
    message enc.availableComponents f.availableComponents ++ [utf8 f.transport.asStr]

def pairFields (pairs : Map String String) : List Bytes :=
  lengthBytes pairs.entries.length ::
    pairs.sortedKeys.flatMap fun key => [utf8 key, utf8 ((pairs.lookup key).getD "")]

def assignmentFields : Option Assignment → List Bytes
  | none => [flag false]
  | some a =>
    [flag true, utf8 a.deployment, flag a.package.isSome] ++
      a.package.elim [] (fun package => [utf8 package.agentType, utf8 package.version]) ++ pairFields a.configurations

def operatorFields (record : PersistedRecord P) : List Bytes :=
  [flag record.rest.restartPending] ++ assignmentFields record.assignment ++ pairFields record.rest.labels

def hostFields (f : StoredFields P) : List Bytes := message utf8 f.host

def durableFields (enc : Encoders P) (record : PersistedRecord P) : List Bytes :=
  reportedFields enc record.rest ++ operatorFields record ++ hostFields record.rest

/-- `hash` is SHA-256 over the fields, each behind its length. -/
def durableDigest {δ : Type} (hash : List Bytes → δ) (enc : Encoders P) (record : PersistedRecord P) : δ :=
  hash (durableFields enc record)

private lemma flag_injective : Function.Injective flag := by decide

private lemma message_injective {α : Type} {encode : α → Bytes} (h : Function.Injective encode) :
    Function.Injective (message encode) := by
  intro v w hvw
  simp only [message, List.cons.injEq, and_true] at hvw
  obtain ⟨hflag, hbytes⟩ := hvw
  cases v with
  | none =>
    cases w with
    | none => rfl
    | some w => exact absurd (flag_injective hflag) Bool.false_ne_true
  | some v =>
    cases w with
    | none => exact absurd (flag_injective hflag) Bool.noConfusion
    | some w => exact congrArg some (h hbytes)

private lemma lengthBytes_toNat_injective : Function.Injective fun n : UInt64 => lengthBytes n.toNat := by
  intro m n h
  exact UInt64.toNat_inj.mp (lengthBytes_inj m.toNat_lt n.toNat_lt h)

private lemma Transport.asStr_injective : Function.Injective asStr := by
  intro s t h
  cases s <;> cases t
  · rfl
  · exact absurd h (by decide)
  · exact absurd h (by decide)
  · rfl

lemma reported_of_fields {enc : Encoding P} {f g : StoredFields P}
    (hfields : reportedFields enc f = reportedFields enc g) (hhost : hostFields f = hostFields g) :
    f.reported = g.reported := by
  simp only [reportedFields, append_assoc] at hfields
  obtain ⟨hcapabilities, hfields⟩ := append_inj hfields rfl
  obtain ⟨hdescription, hfields⟩ := append_inj hfields rfl
  obtain ⟨hhealth, hfields⟩ := append_inj hfields rfl
  obtain ⟨heffective, hfields⟩ := append_inj hfields rfl
  obtain ⟨hremote, hfields⟩ := append_inj hfields rfl
  obtain ⟨hsettings, hfields⟩ := append_inj hfields rfl
  obtain ⟨hpackages, hfields⟩ := append_inj hfields rfl
  obtain ⟨hcomponents, htransport⟩ := append_inj hfields rfl
  unfold StoredFields.reported
  rw [lengthBytes_toNat_injective (singleton_inj.mp hcapabilities),
    message_injective enc.description_injective hdescription, message_injective enc.health_injective hhealth,
    message_injective utf8_injective heffective, message_injective enc.remoteConfigStatus_injective hremote,
    message_injective enc.connectionSettingsStatus_injective hsettings,
    message_injective enc.packageStatuses_injective hpackages,
    message_injective enc.availableComponents_injective hcomponents,
    Transport.asStr_injective (utf8_injective (singleton_inj.mp htransport)),
    message_injective utf8_injective hhost]

/-- Equal digests are of equal reports. -/
lemma reported_of_durableDigest {δ : Type} {hash : List Bytes → δ} (hinj : Function.Injective hash)
    {enc : Encoding P} {a b : PersistedRecord P} (h : durableDigest hash enc a = durableDigest hash enc b) :
    a.rest.reported = b.rest.reported := by
  have hfields := hinj h
  obtain ⟨hfront, hhost⟩ := append_inj' hfields rfl
  obtain ⟨hreported, -⟩ := append_inj hfront rfl
  exact reported_of_fields hreported hhost

end OpampFleet.Server
