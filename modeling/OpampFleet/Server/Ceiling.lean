import OpampFleet.Lib.Fallible
import OpampFleet.Server.Identities

/-!
# The ceiling on the records held

On a store with one writer the Server counts the records it holds before it admits a new Agent. Three places give a
reporter another identity before that, and one of them moves the record that is held; none adds one.
-/

namespace OpampFleet.Server

open Lib Opamp List Map

variable {P : Payloads}

inductive ForgetError where
  | unknownAgent
  | stillReporting
  | storage (e : String)

structure Forgetting where
  budgetMs : Nat
  nowMs : Nat
  removed : Except String (Option Bool)
  unbound : Except String (Option String)

def isSilent (record : AgentRecord P) (budgetMs nowMs : Nat) : Bool := budgetMs < nowMs - record.lastSeenMs

def Forgetting.unpersist (x : Forgetting) (shared held : Bool) : Except ForgetError Unit :=
  if shared then
    match x.removed with
    | .error e => .error (.storage e)
    | .ok (some true) => .ok ()
    | .ok (some false) => .error .stillReporting
    | .ok none => if held then .ok () else .error .unknownAgent
  else if held then .ok () else .error .unknownAgent

def forgetAgent (app : AppSettings P) (x : Forgetting) (s : ServerState P) (uid : InstanceUid) :
    Except ForgetError (ServerState P) :=
  let held := s.fleet.lookup uid
  if held.any fun record => record.connected && !isSilent record x.budgetMs x.nowMs then .error .stillReporting
  else
    (x.unpersist app.shared held.isSome).map fun () =>
      let revocations := s.revocations.map fun register =>
        match x.unbound with
        | .ok stored => register.release stored (Core.hexText uid.bytes)
        | .error _ => register
      match held with
      | none => ⟨s.fleet, revocations⟩
      | some record =>
        let fleet := s.fleet.erase uid
        ⟨placed fleet (app.unplace fleet uid record.placement), revocations⟩

namespace Ceiling

inductive Act (P : Payloads) where
  | report (x : Exchange P)
  | forget (x : Forgetting) (uid : InstanceUid)

def step (app : AppSettings P) (s : ServerState P) : Act P → Option (ServerState P)
  | .report x => exchange app s x
  | .forget x uid => some ((forgetAgent app x s uid).toOption.getD s)

variable {limit : Nat} {f g : Records P} {uid : InstanceUid}

private lemma length_placed (fleet : Records P) (placements : InstanceUid → P.Placement) :
    (placed fleet placements).entries.length = fleet.entries.length :=
  length_map _

private lemma length_le_of_frame (h : Frame uid f g) (hle : f.entries.length ≤ limit)
    (hroom : f.entries.length < limit ∨ (f.lookup uid).isSome) : g.entries.length ≤ limit := by
  rw [← card_keysWith_true] at hle hroom ⊢
  refine card_le_of_insert uid [uid] (fun other hother => ?_) hle (hroom.imp_right fun hheld => ?_)
  · by_cases hne : other = uid
    · exact .inl hne
    obtain ⟨record, hrecord, -⟩ := mem_keysWith.mp hother
    have hframe := h other hne
    rw [hrecord] at hframe
    obtain ⟨before, hbefore, -⟩ := Option.map_eq_some_iff.mp hframe.symm
    exact .inr ⟨mem_keysWith.mpr ⟨before, hbefore, rfl⟩, by simpa using hne⟩
  · obtain ⟨record, hrecord⟩ := Option.isSome_iff_exists.mp hheld
    exact ⟨uid, mem_keysWith.mpr ⟨record, hrecord, rfl⟩, mem_singleton_self uid⟩

section Report

variable {app : AppSettings P} {a : Answers P} {msg : Report P} {transport : Transport} {conn : Option ConnId}
  {presented : Option Presented} {id : Identity P}

private lemma length_moveRecord {record : AgentRecord P} {old : InstanceUid} (new : InstanceUid)
    (hheld : f.lookup old = some record) : (moveRecord app f old new record).entries.length ≤ f.entries.length := by
  unfold moveRecord
  rw [length_placed, AList.entries_insert, length_cons, (entries_perm_erase hheld).length_eq, length_cons]
  exact Nat.succ_le_succ (kerase_sublist new _).length_le

private lemma length_requestInstanceUid :
    (requestInstanceUid app a msg id).fleet.entries.length ≤ id.fleet.entries.length := by
  unfold requestInstanceUid
  split
  · exact le_rfl
  split
  · exact le_rfl
  next record hheld _ =>
    exact length_moveRecord a.requested hheld
  · exact le_rfl

private lemma fleet_detectDuplicate : (detectDuplicate a conn id).fleet = id.fleet := by
  unfold detectDuplicate
  split <;> rfl

private lemma length_admitReport (hsingle : app.shared = false) {reported : InstanceUid} {loaded : Bool}
    {revocations : Option Register} (hle : id.fleet.entries.length ≤ app.maxAgents) :
    (admitReport app a msg transport conn presented reported id loaded revocations).1.fleet.entries.length ≤
      app.maxAgents := by
  by_cases hroom : id.fleet.entries.length < app.maxAgents ∨ (id.fleet.lookup id.uid).isSome
  · have hleaves := leaves_admitReport app a msg transport conn presented reported id loaded revocations
    exact length_le_of_frame hleaves.1 hle hroom
  have hfull : app.maxAgents ≤ id.fleet.entries.length := by omega
  have hnew : (id.fleet.lookup id.uid).isSome = false := by
    rw [Bool.eq_false_iff]
    exact fun hknown => hroom (.inr hknown)
  simpa [admitReport, createWithin, Admission.atCeiling, hsingle, hnew, hfull] using hle

private lemma length_processPresented (hsingle : app.shared = false) {s : ServerState P}
    (hle : s.fleet.entries.length ≤ app.maxAgents) :
    (processPresented app a s msg transport conn presented).1.fleet.entries.length ≤ app.maxAgents := by
  unfold processPresented
  split
  · exact hle
  have hhold : ∀ uid, holdFromStore app a s.fleet uid = (s.fleet, false) := by
    intro uid
    simp [holdFromStore, hsingle]
  rw [hhold]
  simp only
  split
  · exact hle
  rename_i claimed hclaim
  refine length_admitReport hsingle ?_
  rw [fleet_detectDuplicate]
  refine length_requestInstanceUid.trans ?_
  rwa [fleet_claimHost a s.fleet hclaim]

end Report

private lemma length_forgetAgent {app : AppSettings P} {x : Forgetting} {s t : ServerState P}
    (h : forgetAgent app x s uid = .ok t) : t.fleet.entries.length ≤ s.fleet.entries.length := by
  unfold forgetAgent at h
  simp only at h
  split at h
  · cases h
  obtain ⟨-, -, rfl⟩ := map_eq_ok.mp h
  split
  · exact le_rfl
  · rw [length_placed]
    exact (kerase_sublist uid _).length_le

/-- In every run of reports and forgets on a store with one writer, the records held are never more than `max_agents`
if they are not at the start. -/
theorem held_le_maxAgents {app : AppSettings P} (hsingle : app.shared = false) {s₀ s : ServerState P}
    (hstart : s₀.fleet.entries.length ≤ app.maxAgents) (h : Reach s₀ (step app) s) :
    s.fleet.entries.length ≤ app.maxAgents := by
  induction h with
  | refl => exact hstart
  | @next s t act _ hstep hle =>
    cases act with
    | report x =>
      cases hstep
      exact length_processPresented hsingle hle
    | forget x uid =>
      cases hstep
      cases hforget : forgetAgent app x s uid with
      | error e => exact hle
      | ok t => exact (length_forgetAgent hforget).trans hle

def oneAgent : AppSettings Small.payloads := { Small.app with maxAgents := 1 }

def reportOf (b : UInt8) (conn : ConnId) : Act Small.payloads :=
  .report ⟨Small.answers, { Small.report 0 none with instanceUid := (InstanceUid.ofByte b).bytes },
    .webSocket, some conn,
    none⟩

/-- A Server that takes one Agent refuses a second, and takes a third once the first is forgotten. -/
theorem held_le_maxAgents_refused : ∃ s : ServerState Small.payloads, Reach ⟨∅, none⟩ (step oneAgent) s ∧
    (s.fleet.lookup (.ofByte 2) = none ∧ (s.fleet.lookup (.ofByte 3)).isSome) ∧ s.fleet.entries.length ≤ 1 := by
  have hrun : ∃ s ∈ run (step oneAgent) ⟨∅, none⟩
      [reportOf 1 1, reportOf 2 2, .forget ⟨0, 1, .ok none, .ok none⟩ (.ofByte 1), reportOf 3 3],
      s.fleet.lookup (.ofByte 2) = none ∧ (s.fleet.lookup (.ofByte 3)).isSome := ⟨_, rfl, rfl, rfl⟩
  refine Reach.exists_of_run_imp _ hrun fun s hreach hs => ⟨hs, ?_⟩
  exact held_le_maxAgents rfl (Nat.zero_le _) hreach

end Ceiling

end OpampFleet.Server
