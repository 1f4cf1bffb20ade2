import OpampFleet.Core.Package
import OpampFleet.Supervisor.PackageDowngrades

/-!
# What no package goes below

The floors the operator signed (`floors.rs`) are fetched right before the queued downloads are handed to the transport,
and the downloads are held to them once more. Floors and marks only rise, and a floor is kept only with its signature
(`handed_out_not_below`). What is installed and the mark are not looked at again, so an offer that was queued while a
newer package ended is handed out below both (`handed_out_below_installed`).
-/

namespace OpampFleet.Supervisor.Agent

open Lib Core Core.Version List Option

structure Floor where
  version : String
  signature : String

/-- `check` verifies a signature with the operator's key. -/
def Floor.verifies (check : Bytes → Bytes → Bool) (agentType : String) (floor : Floor) : Bool :=
  (hexBytes floor.signature.toList).any fun signature =>
    isSemver floor.version && check (floorStatement agentType floor.version) signature

abbrev KeptFloors := Except String (Map String Floor)

namespace KeptFloors

def takeOne (check : Bytes → Bytes → Bool) (kept : Map String Floor) (served : String × Floor) : Map String Floor :=
  if !served.2.verifies check served.1 then kept
  else
    match (kept.lookup served.1).map fun held => precedence served.2.version held.version with
    | none | some (some .gt) => kept.insert served.1 served.2
    | some _ => kept

/-- `FloorFile::take`; without a key nothing is kept, and a file that cannot be read stays as it is. -/
def take (check : Bytes → Bytes → Bool) (keyed : Bool) (kept : KeptFloors) (served : List (String × Floor)) :
    KeptFloors :=
  if keyed then kept.map fun floors => served.foldl (takeOne check) floors else kept

def versions (kept : KeptFloors) : Floors := kept.map fun floors => floors.mapValues fun _ floor => floor.version

end KeptFloors

/-- One Supervisor's channel, the floors its Client keeps, and what was handed to the transport, each download with the
Agent as it was then. -/
structure Client where
  channel : Channel
  kept : KeptFloors
  onWire : Nat
  handedOut : List (Local × PackageDownload)

namespace Client

inductive Act where
  | fetch (served : List (String × Floor))
  | handOut
  | channel (act : Channel.Act)

/-- The downloads an act takes from the transport; none for what is an act of the Client itself. -/
def ends : Channel.Act → Option Nat
  | .floors _ | .holdDownloads => none
  | .downloaded _ | .downloadFailed _ => some 1
  | _ => some 0

def step (quote : String → String) (current : String) (check : Bytes → Bytes → Bool) (keyed : Bool) (s : Client) :
    Act → Option Client
  | .fetch served =>
    let kept := s.kept.take check keyed served
    (s.channel.step quote current (.floors kept.versions)).map fun channel =>
      { s with channel := channel, kept := kept }
  | .handOut =>
    if s.onWire = 0 then
      let channel := s.channel.holdDownloadsToFloors quote
      some
        { s with
          channel := channel
          onWire := channel.pending.length
          handedOut := channel.pending.map (fun flight => (channel.agent, flight.download)) ++ s.handedOut }
    else none
  | .channel act => do
    let ended ← ends act
    if s.onWire < ended then none
    else
      let channel ← s.channel.step quote current act
      some { s with channel := channel, onWire := s.onWire - ended }

def floor (s : Client) (agentType : String) : Option String :=
  s.kept.toOption.bind fun floors => (floors.lookup agentType).map Floor.version

def mark (s : Client) (agentType : String) : Option String :=
  s.channel.agent.highWater.bind fun marks => (marks.mark agentType).toOption.join

end Client

def Local.knownFloor (l : Local) : Option String :=
  l.floors.bind fun floors => floors.toOption.bind fun versions => versions.lookup l.serviceName

def NotBelow (l : Local) (version : String) : Prop :=
  (∀ p ∈ l.installedPackage, precedence version p.version ≠ some .lt) ∧
    (∀ m ∈ l.knownMark, precedence version m ≠ some .lt) ∧ ∀ floor ∈ l.knownFloor, precedence version floor ≠ some .lt

def Rises (before after : Option String) : Prop := ∀ v ∈ before, ∃ v' ∈ after, AtMost v v'

private lemma Rises.refl {v : Option String} (h : ∀ version ∈ v, isSemver version = true) : Rises v v :=
  fun version hv => ⟨version, hv, .refl (h version hv)⟩

private lemma Rises.trans {a b c : Option String} (hab : Rises a b) (hbc : Rises b c) : Rises a c := by
  intro v hv
  obtain ⟨v', hv', hle⟩ := hab v hv
  obtain ⟨v'', hv'', hle'⟩ := hbc v' hv'
  exact ⟨v'', hv'', hle.trans hle'⟩

private lemma not_lt_of_atMost {a b : String} (h : AtMost a b) : precedence b a ≠ some .lt := by
  unfold AtMost precedence at *
  cases ha : parse a <;> cases hb : parse b <;> simp_all
  rename_i x y
  have hswap : compareVersions x y = (compareVersions y x).swap := Std.OrientedCmp.eq_swap
  intro hlt
  simp [hswap, hlt] at h

def Verified (check : Bytes → Bytes → Bool) (floors : Map String Floor) : Prop :=
  ∀ agentType floor, floors.lookup agentType = some floor → floor.verifies check agentType = true

variable {check : Bytes → Bytes → Bool} {agentType : String} {floors : Map String Floor}

private lemma isSemver_of_verifies {floor : Floor} (h : floor.verifies check agentType = true) :
    isSemver floor.version = true := by
  obtain ⟨signature, -, h⟩ := (Option.any_eq_true _ _).mp h
  exact (Bool.and_eq_true_iff.mp h).1

private lemma Verified.rises_self (h : Verified check floors) :
    Rises ((floors.lookup agentType).map Floor.version) ((floors.lookup agentType).map Floor.version) := by
  refine .refl fun version hv => ?_
  obtain ⟨floor, hfloor, rfl⟩ := map_eq_some_iff.mp hv
  exact isSemver_of_verifies (h agentType floor hfloor)

private lemma takeOne_spec (h : Verified check floors) (served : String × Floor) :
    Verified check (KeptFloors.takeOne check floors served) ∧
      Rises ((floors.lookup agentType).map Floor.version)
        (((KeptFloors.takeOne check floors served).lookup agentType).map Floor.version) := by
  unfold KeptFloors.takeOne
  split
  · exact ⟨h, h.rises_self⟩
  rename_i hverifies
  have hverifies : served.2.verifies check served.1 = true := by simpa using hverifies
  have hinserted : Verified check (floors.insert served.1 served.2) := Map.forall_lookup_insert hverifies h
  split
  next hnone =>
    refine ⟨hinserted, fun v hv => ?_⟩
    rw [AList.lookup_insert_ne]
    · exact h.rises_self v hv
    · rintro rfl
      rw [map_eq_none_iff] at hnone
      simp [hnone] at hv
  next hgt =>
    obtain ⟨held, hheld, hgt⟩ := map_eq_some_iff.mp hgt
    refine ⟨hinserted, fun v hv => ?_⟩
    rw [Map.lookup_insert_ite]
    split
    next heq =>
      rw [heq, hheld] at hv
      cases hv
      refine ⟨served.2.version, rfl, ?_⟩
      refine atMost_of_not_lt (isSemver_of_verifies (h _ held hheld)) (isSemver_of_verifies hverifies) ?_
      rw [hgt]
      simp
    · exact h.rises_self v hv
  · exact ⟨h, h.rises_self⟩

private lemma take_spec (h : Verified check floors) (served : List (String × Floor)) :
    Verified check (served.foldl (KeptFloors.takeOne check) floors) ∧
      Rises ((floors.lookup agentType).map Floor.version)
        (((served.foldl (KeptFloors.takeOne check) floors).lookup agentType).map Floor.version) := by
  induction served generalizing floors with
  | nil => exact ⟨h, h.rises_self⟩
  | cons first rest ih =>
    obtain ⟨hone, hrises⟩ := takeOne_spec h first
    obtain ⟨hall, hrest⟩ := ih hone
    exact ⟨hall, hrises.trans hrest⟩

private lemma HighWater.isSemver_mark (marks : HighWater) :
    ∀ v ∈ (marks.mark agentType).toOption.join, isSemver v = true := by
  intro v hv
  cases hm : marks.marks with
  | error e => simp [mark, hm, Except.map, Except.toOption] at hv
  | ok m =>
    rw [mark, hm] at hv
    exact marks.semver m hm agentType v hv

private lemma rises_raise (marks : HighWater) (raised version : String) :
    Rises (marks.mark agentType).toOption.join ((marks.raise raised version).mark agentType).toOption.join := by
  unfold HighWater.raise
  split
  · exact .refl marks.isSemver_mark
  rename_i m hm
  split
  next hraise =>
    intro v hv
    have hold := marks.isSemver_mark v hv
    simp only [HighWater.mark, hm, Except.map, Except.toOption, join_some] at hv ⊢
    rw [Map.lookup_insert_ite]
    split
    next heq =>
      have hhigher := hraise.2
      rw [HighWater.higher, ← heq, hv, all_some, decide_eq_true_eq] at hhigher
      exact ⟨version, rfl, atMost_of_not_lt hold hraise.1 (by simp [hhigher])⟩
    · exact ⟨v, hv, .refl hold⟩
  · exact .refl marks.isSemver_mark

private lemma Channel.highWater_step {quote : String → String} {current : String} {s t : Channel} {act : Channel.Act}
    (h : s.step quote current act = some t) : t.agent.highWater = s.agent.highWater ∨
      ∃ raised version, t.agent.highWater = s.agent.highWater.map fun marks => marks.raise raised version := by
  cases steps_of_step h with
  | offer offer =>
    unfold receive
    split
    · exact .inl rfl
    · exact .inl (Local.SameBounds.handlePackageOffer quote current s.agent offer).highWater
  | hold => exact .inl (Ascending.foldl_holdOne quote s.pending { s with pending := [] }).1.highWater
  | raised raised version => exact .inr ⟨raised, version, rfl⟩
  | passes passes | failed _ passes => exact .inl passes.agent.highWater
  | installed =>
    unfold applied Local.packageApplied
    simp only
    split
    · exact .inr ⟨_, _, rfl⟩
    · exact .inl rfl

private lemma floor_not_below {quote : String → String} {l : Local} {version : String}
    (hexpected : l.expectedPackage = none)
    (h : l.floorRefusal quote version = none) : ∀ floor ∈ l.knownFloor, precedence version floor ≠ some .lt := by
  intro floor hfloor
  obtain ⟨floors, hfloors, hfloor⟩ := bind_eq_some_iff.mp hfloor
  cases floors with
  | error e => cases hfloor
  | ok versions =>
    replace hfloor : versions.lookup l.serviceName = some floor := hfloor
    simp only [Local.floorRefusal, hexpected, hfloors, isSome_none, bind_some, Except.map, hfloor] at h
    intro hlt
    simp [hlt] at h

private lemma Channel.held_to_floors (quote : String → String) (flights : List Flight) (s : Channel)
    (h : ∀ f ∈ s.pending, s.agent.floorRefusal quote f.download.version = none) :
    let t := flights.foldl (fun s flight => s.holdOne quote flight) s
    ∀ f ∈ t.pending, t.agent.floorRefusal quote f.download.version = none := by
  induction flights generalizing s with
  | nil => exact h
  | cons flight rest ih =>
    refine ih (s.holdOne quote flight) ?_
    unfold holdOne
    split
    · exact h
    next hpasses =>
      exact forall_mem_append.mpr ⟨h, forall_mem_singleton.mpr hpasses⟩

namespace Client

variable {quote : String → String} {current : String} {keyed : Bool} {s t : Client}

def NoOvertaking (s : Client) : Act → Prop
  | .channel act => s.channel.NoOvertaking act
  | _ => True

instance (s : Client) (act : Act) : Decidable (s.NoOvertaking act) := by
  cases act <;> unfold NoOvertaking <;> infer_instance

def KeepsVerified (check : Bytes → Bytes → Bool) (s : Client) : Prop :=
  ∀ floors, s.kept = .ok floors → Verified check floors

structure Inv (s : Client) : Prop where
  ascending : s.channel.Ascending
  handedOut : ∀ out ∈ s.handedOut, NotBelow out.1 out.2.version

private lemma rises_mark (hsame : t.channel.agent.highWater = s.channel.agent.highWater ∨ ∃ raised version,
      t.channel.agent.highWater = s.channel.agent.highWater.map fun marks => marks.raise raised version) :
    Rises (s.mark agentType) (t.mark agentType) := by
  unfold mark
  cases hmarks : s.channel.agent.highWater with
  | none => exact fun v hv => by cases hv
  | some marks =>
    rw [hmarks] at hsame
    rcases hsame with hsame | ⟨raised, version, hsame⟩
    · rw [hsame]
      exact .refl marks.isSemver_mark
    · rw [hsame]
      exact rises_raise marks raised version

private lemma KeepsVerified.take (h : s.KeepsVerified check) (served : List (String × Floor)) :
    KeepsVerified check { s with kept := s.kept.take check keyed served } ∧
      Rises (s.floor agentType) (floor { s with kept := s.kept.take check keyed served } agentType) := by
  unfold KeepsVerified KeptFloors.take floor
  cases hkept : s.kept with
  | error e => cases keyed <;> exact ⟨fun floors hfloors => (by cases hfloors), fun v hv => (by cases hv)⟩
  | ok floors =>
    have hverified := h floors hkept
    cases keyed with
    | true =>
      obtain ⟨hall, hrises⟩ := @take_spec check agentType floors hverified served
      refine ⟨fun floors' hfloors => ?_, hrises⟩
      cases hfloors
      exact hall
    | false =>
      refine ⟨fun floors' hfloors => ?_, hverified.rises_self⟩
      cases hfloors
      exact hverified

private lemma channel_of_step {act : Channel.Act} (hstep : s.step quote current check keyed (.channel act) = some t) :
    s.channel.step quote current act = some t.channel ∧ t.kept = s.kept ∧ t.handedOut = s.handedOut := by
  obtain ⟨ended, -, hstep⟩ := bind_eq_some_iff.mp hstep
  split at hstep
  · cases hstep
  obtain ⟨channel, hchannel, hstep⟩ := bind_eq_some_iff.mp hstep
  cases hstep
  exact ⟨hchannel, rfl, rfl⟩

private lemma KeepsVerified.step {act : Act} (h : s.KeepsVerified check)
    (hstep : s.step quote current check keyed act = some t) :
    t.KeepsVerified check ∧ ∀ agentType, Rises (s.floor agentType) (t.floor agentType) ∧
      Rises (s.mark agentType) (t.mark agentType) := by
  have hsame : ∀ agentType, Rises (s.floor agentType) (s.floor agentType) := fun agentType =>
    (@take check agentType false s h []).2
  cases act with
  | fetch served =>
    cases hstep
    have htake := fun agentType => @take check agentType keyed s h served
    exact ⟨(htake "").1, fun agentType => ⟨(htake agentType).2, rises_mark (.inl rfl)⟩⟩
  | handOut =>
    obtain ⟨-, hstep⟩ := ite_none_right_eq_some.mp hstep
    cases hstep
    refine ⟨h, fun agentType => ⟨hsame agentType, ?_⟩⟩
    exact rises_mark (@Channel.highWater_step quote current s.channel _ .holdDownloads rfl)
  | channel act =>
    obtain ⟨hchannel, hkept, -⟩ := channel_of_step hstep
    refine ⟨fun floors hfloors => h floors (hkept ▸ hfloors), fun agentType => ⟨?_, ?_⟩⟩
    · unfold floor
      rw [hkept]
      exact hsame agentType
    · exact rises_mark (Channel.highWater_step hchannel)

private lemma Inv.step {act : Act} (h : s.Inv) (hok : s.NoOvertaking act)
    (hstep : s.step quote current check keyed act = some t) : t.Inv := by
  cases act with
  | fetch served =>
    cases hstep
    have hchannel : s.channel.step quote current (.floors (s.kept.take check keyed served).versions) = some _ := rfl
    exact ⟨h.ascending.step (by trivial) hchannel, h.handedOut⟩
  | handOut =>
    obtain ⟨-, hstep⟩ := ite_none_right_eq_some.mp hstep
    cases hstep
    have hascending := h.ascending.holdDownloadsToFloors quote
    have hfloors := Channel.held_to_floors quote s.channel.pending { s.channel with pending := [] }
      fun f hf => by cases hf
    refine ⟨hascending, forall_mem_append.mpr ⟨List.forall_mem_map.mpr fun f hf => ?_, h.handedOut⟩⟩
    have hflight : f ∈ (s.channel.holdDownloadsToFloors quote).flights := mem_append_right _ hf
    exact ⟨fun p hp => not_lt_of_atMost ((hascending.installed p hp).2 f hflight),
      fun m hm => not_lt_of_atMost (hascending.mark m hm f hflight),
      floor_not_below hascending.supervisor (hfloors f hf)⟩
  | channel act =>
    obtain ⟨hchannel, -, hout⟩ := channel_of_step hstep
    refine ⟨h.ascending.step hok hchannel, ?_⟩
    rw [hout]
    exact h.handedOut

def start (serviceName : String) (highWater : Option HighWater) (kept : KeptFloors)
    (record : Option InstalledPackage) : Client :=
  ⟨Channel.supervisor serviceName highWater (some kept.versions) record, kept, 0, []⟩

/-- In every run every floor kept verifies, and no step lowers a floor or a mark. In every run in which nothing is
offered that precedes a package still on its way to the Agent, and no other Supervisor of its type installs past one,
no download is handed out below what is installed, the mark or the floor. -/
theorem handed_out_not_below (quote : String → String) (current : String) (check : Bytes → Bytes → Bool) (keyed : Bool)
    {serviceName : String} {highWater : Option HighWater} {kept : KeptFloors} {record : Option InstalledPackage}
    {s : Client} (hkept : ∀ floors, kept = .ok floors → Verified check floors)
    (h : Reach (start serviceName highWater kept record) (step quote current check keyed) s) :
    (∀ floors, s.kept = .ok floors → Verified check floors) ∧
      (∀ act t, s.step quote current check keyed act = some t → ∀ agentType,
        Rises (s.floor agentType) (t.floor agentType) ∧ Rises (s.mark agentType) (t.mark agentType)) ∧
      (Reach (start serviceName highWater kept record) (restrict NoOvertaking (step quote current check keyed)) s →
        ∀ out ∈ s.handedOut, NotBelow out.1 out.2.version) := by
  have hverified : s.KeepsVerified check := h.invariant hkept fun s act t hs hstep => (hs.step hstep).1
  refine ⟨hverified, fun act t hstep => (hverified.step hstep).2, fun hordered => ?_⟩
  have hstart : (start serviceName highWater kept record).Inv :=
    ⟨Channel.ascending_supervisor serviceName highWater _ record, fun out hout => by cases hout⟩
  have hinv : s.Inv := by
    exact hordered.invariant_restrict hstart fun s act t hs hok hstep => hs.step hok hstep
  exact hinv.handedOut

namespace Small

def client : Client :=
  start "p" (some Channel.Small.unmarked) (.ok ∅) (some ⟨"p", "1.0.0", "01"⟩)

def signs (statement signature : Bytes) : Bool := signature = statement

/-- A floor without its signature is served beside a signed one. The second offer is queued while the first is being
installed, which then ends. -/
def overlap (first second : String) : List Act :=
  [.fetch [("p", ⟨"9.0.0", "00"⟩), ("p", ⟨"1.5.0", hexText (floorStatement "p" "1.5.0")⟩)],
    .channel (.offer (Channel.Small.offer first 3)), .handOut,
    .channel (.downloaded .accepted), .channel (.offer (Channel.Small.offer second 2)),
      .channel (.ended none), .handOut]

def versions (s : Client) : List String := s.handedOut.map fun out => out.2.version

end Small

/-- The newer of two versions is offered second. -/
theorem handed_out_not_below_newer : ∃ s, Reach Small.client
      (restrict NoOvertaking (step (fun text => text) "0.1.0" Small.signs true)) s ∧
    (Small.versions s = ["3.0.0", "2.0.0"] ∧ s.floor "p" = some "1.5.0") ∧
      ∀ out ∈ s.handedOut, NotBelow out.1 out.2.version := by
  refine Reach.exists_of_run_imp (p := fun s => Small.versions s = ["3.0.0", "2.0.0"] ∧ s.floor "p" = some "1.5.0")
    (Small.overlap "2.0.0" "3.0.0") (by decide +kernel) ?_
  intro s hordered hrun
  have hreach : Reach Small.client (step (fun text => text) "0.1.0" Small.signs true) s :=
    hordered.invariant_restrict Reach.refl fun _ act _ hs _ hstep => hs.next act hstep
  have hempty : ∀ floors, (.ok ∅ : KeptFloors) = .ok floors → Verified Small.signs floors := by
    rintro _ ⟨⟩ agentType floor hfloor
    cases hfloor
  exact ⟨hrun, (handed_out_not_below _ _ _ true hempty hreach).2.2 hordered⟩

/-- The offer of an older version that was queued while a newer one was being installed is handed out after it. -/
theorem handed_out_below_installed : ∃ s, Reach Small.client (step (fun text => text) "0.1.0" Small.signs true) s ∧
    ∃ out ∈ s.handedOut, ∃ p ∈ out.1.installedPackage, precedence out.2.version p.version = some .lt := by
  exact Reach.exists_of_run (Small.overlap "3.0.0" "2.0.0") (by decide +kernel)

end Client

end OpampFleet.Supervisor.Agent
