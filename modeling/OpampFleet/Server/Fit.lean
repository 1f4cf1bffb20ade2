import OpampFleet.Core.Version
import OpampFleet.Server.Configs
import OpampFleet.Server.Labels
import OpampFleet.Server.Packages

/-!
# What fits an Agent

The parts of `configs.rs`, `packages.rs` and `fleet.rs` that read an Agent's description: whether a Configuration is
written for its type, which Platform it reports, which Package of its Deployment is a candidate for it, and which entry
of an assigned Package it is offered. All of them read the effective description, in which a label stands like a
reported attribute where the Agent reports no such key.
-/

namespace OpampFleet.Server

open Core Lib Option

def serviceName : String := "service.name"

def serviceVersion : String := "service.version"

def osType : String := "os.type"

def hostArch : String := "host.arch"

def describedType (d : AgentDescription) : Option String :=
  (stringValue d.identifyingAttributes serviceName).or (stringValue d.nonIdentifyingAttributes serviceName)

def Revision.fits (revision : Revision) (description : Option AgentDescription) : Bool :=
  revision.serviceName ≠ "" && description.bind describedType = some revision.serviceName

def ConfigStore.candidatesIn (sha256 : Bytes → Bytes) (store : ConfigStore) (names : List String)
    (description : Option AgentDescription) : Map String String :=
  names.foldl (fun candidates name =>
    match store.configs.lookup name with
    | some config =>
      if config.saved.fits description then candidates.insert name (revisionHash sha256 config.saved) else candidates
    | none => candidates) ∅

def osAliases : List (String × String) :=
  [("macos", "darwin"), ("osx", "darwin"), ("win", "windows"), ("win32", "windows"), ("win64", "windows")]

def archAliases : List (String × String) :=
  [("x86_64", "amd64"), ("x86-64", "amd64"), ("x64", "amd64"), ("aarch64", "arm64")]

def canonical (aliases : List (String × String)) (raw : String) : String :=
  match aliases.find? fun pair => pair.1.toList = raw.toList.map Char.toLower with
  | some pair => pair.2
  | none => raw

def token (quote : String → String) (aliases : List (String × String)) (what raw : String) : Except String String :=
  let lowered := String.ofList ((trim raw.toList).map Char.toLower)
  let canonical := canonical aliases lowered
  if canonical = "" ∨ 16 < (utf8 canonical).length then
    .error (what ++ " " ++ quote raw ++ " must be 1–16 characters")
  else if !canonical.toList.all fun c => c.isLower || c.isDigit || c = '_' then
    .error (what ++ " " ++ quote raw ++ " may hold only lowercase letters, digits, and '_'")
  else .ok canonical

namespace Platform

def new (quote : String → String) (os arch : String) : Except String Platform := do
  let os ← token quote osAliases "os" os
  let arch ← token quote archAliases "arch" arch
  return ⟨os, arch⟩

/-- Non-identifying first, an identifying copy as the fallback. -/
def attributeOf (d : AgentDescription) (key : String) : Option String :=
  (stringValue d.nonIdentifyingAttributes key).or (stringValue d.identifyingAttributes key)

def reported (quote : String → String) (description : Option AgentDescription) : Option Platform :=
  description.bind fun d => (attributeOf d osType).bind fun os => (attributeOf d hostArch).bind fun arch =>
    (new quote os arch).toOption

end Platform

def reportedAgentType (description : Option AgentDescription) : Option String :=
  description.bind fun d => stringValue d.identifyingAttributes serviceName

def reportedServiceVersion (description : Option AgentDescription) : Option String :=
  description.bind fun d => stringValue d.identifyingAttributes serviceVersion

structure Deployment where
  name : String
  packages : Map String PackageId
  configurations : List String

def claimedVersion (id : PackageId) (installed : Map String String) : Option String :=
  (installed.lookup id.agentType).filter (· ≠ "")

/-- What the Agent runs decides, and where that cannot be ordered, what it claims. -/
def upgrades (id : PackageId) (installed : Map String String) (description : Option AgentDescription) : Bool :=
  let greater has := decide (Version.precedence id.version has = some .gt)
  match (reportedServiceVersion description).filter fun running => (Version.parse running).isSome with
  | some running => greater running
  | none =>
    match claimedVersion id installed with
    | some claimed => greater claimed
    | none => true

variable (quote : String → String)

open Platform

def resolve (sets : Map PackageId Entries) (deployment : Deployment)
    (description : Option AgentDescription) (installed : Map String String) : Option (PackageId × Entry) := do
  let platform ← reported quote description
  let agentType ← reportedAgentType description
  let id ← deployment.packages.lookup agentType
  let entries ← sets.lookup id
  if !Version.isSemver id.version then none
  else
    let entry ← entries.lookup platform
    if upgrades id installed description then some (id, entry) else none

def PackageStore.candidate (store : PackageStore) (deployment : Deployment)
    (description : Option AgentDescription) (installed : Map String String) : Option PackageId :=
  (resolve quote store.sets deployment description installed).map Prod.fst

def PackageId.fits (id : PackageId) (description : Option AgentDescription) (platform : Platform) : Bool :=
  reportedAgentType description = some id.agentType && reported quote description = some platform

def offeredEntry (sets : Map PackageId Entries) (assigned : Option PackageId)
    (description : Option AgentDescription) : Option (PackageId × Entry × Bytes) := do
  let id ← assigned
  let entries ← sets.lookup id
  let platform ← reported quote description
  if !id.fits quote description platform then none
  else
    let entry ← entries.lookup platform
    let signature ← entry.signature
    return (id, entry, signature)

def releaseFor (sha256 : Bytes → Bytes) (quote : String → String) (configs : ConfigStore) (store : PackageStore)
    (deployment : Deployment) (description : Option AgentDescription) (installed : Map String String)
    (assigned : Option PackageId) : Option Assignment :=
  let configurations := configs.candidatesIn sha256 deployment.configurations description
  let agentType := reportedAgentType description
  let held := agentType.bind fun agentType => deployment.packages.lookup agentType
  let package := (store.candidate quote deployment description installed).or
    ((held.bind fun _ => assigned).filter fun pinned => some pinned.agentType = agentType)
  if package.isSome || !configurations.entries.isEmpty then some ⟨deployment.name, package, configurations⟩ else none

namespace Sources

variable {key : String} (sources : Sources)

private lemma stringValue_nonIdentifying (hours : isOurs key = false) (sources : Sources) :
    (sources.effectiveDescription.bind fun d => stringValue d.nonIdentifyingAttributes key) =
      if Reports sources.reported key then
        sources.reported.bind fun d => stringValue d.nonIdentifyingAttributes key
      else (sources.label key).bind fun value => (stringAttr key value).text := by
  have hfind := @find?_nonIdentifying key _ sources.isOurs_hostAttributes sources.reported sources.own sources.inherited
  simp only [valueOf_host sources.isOurs_hostAttributes hours, hours, map_none, none_or, Bool.false_eq_true,
    if_false] at hfind
  have hread : (sources.effectiveDescription.bind fun d => stringValue d.nonIdentifyingAttributes key) =
      (sources.effectiveDescription.bind fun d => d.nonIdentifyingAttributes.find?
        (·.named key)).bind KeyValue.text := by
    cases sources.effectiveDescription <;> rfl
  rw [hread, effectiveDescription, hfind]
  split
  · cases sources.reported <;> rfl
  · exact bind_map ..

private lemma stringValue_of_not_reports {reported : Option AgentDescription} (h : ¬Reports reported key) :
    (reported.bind fun d => stringValue d.identifyingAttributes key) = none ∧
      (reported.bind fun d => stringValue d.nonIdentifyingAttributes key) = none := by
  cases reported with
  | none => exact ⟨rfl, rfl⟩
  | some d =>
    rw [reports_some, not_or, not_isSome_iff_eq_none, not_isSome_iff_eq_none] at h
    simp [stringValue, h.1, h.2]

private lemma describedType_effective : sources.effectiveDescription.bind describedType =
      if Reports sources.reported serviceName then sources.reported.bind describedType
      else (sources.label serviceName).bind fun value => (stringAttr serviceName value).text := by
  have hours : isOurs serviceName = false := by decide
  unfold describedType
  rw [bind_or, bind_or, stringValue_identifying hours, stringValue_nonIdentifying hours]
  split
  · rfl
  next hnot =>
    rw [(stringValue_of_not_reports hnot).1, none_or]

private lemma attribute_effective (hours : isOurs key = false) (sources : Sources) :
    (sources.effectiveDescription.bind fun d => attributeOf d key) =
      if Reports sources.reported key then sources.reported.bind fun d => attributeOf d key
      else (sources.label key).bind fun value => (stringAttr key value).text := by
  unfold attributeOf
  rw [bind_or, bind_or, stringValue_identifying hours, stringValue_nonIdentifying hours]
  split
  · rfl
  next hnot =>
    rw [(stringValue_of_not_reports hnot).1, or_none]

private lemma reported_effective (quote : String → String) (sources : Sources) :
    Platform.reported quote sources.effectiveDescription =
      (sources.effectiveDescription.bind fun d => Platform.attributeOf d osType).bind fun os =>
        (sources.effectiveDescription.bind fun d => Platform.attributeOf d hostArch).bind fun arch =>
          (Platform.new quote os arch).toOption := by
  cases sources.effectiveDescription <;> rfl

private lemma reportedAgentType_effective :
    reportedAgentType sources.effectiveDescription = reportedAgentType sources.reported :=
  stringValue_identifying (by decide) sources

private lemma reportedServiceVersion_effective :
    reportedServiceVersion sources.effectiveDescription = reportedServiceVersion sources.reported :=
  stringValue_identifying (by decide) sources

end Sources

open Sources

structure SameFit (quote : String → String) (d d' : Option AgentDescription) : Prop where
  configurations : ∀ revision : Revision, revision.fits d = revision.fits d'
  platform : reported quote d = reported quote d'
  candidates : ∀ (store : PackageStore) deployment installed,
    store.candidate quote deployment d installed = store.candidate quote deployment d' installed
  offered : ∀ sets assigned, offeredEntry quote sets assigned d = offeredEntry quote sets assigned d'

variable {quote : String → String} {sources : Sources}

private lemma SameFit.of_platform {sources' : Sources} (hreported : sources.reported = sources'.reported)
    (hconfigurations : sources.effectiveDescription.bind describedType =
      sources'.effectiveDescription.bind describedType)
    (hplatform : reported quote sources.effectiveDescription =
      reported quote sources'.effectiveDescription) :
    SameFit quote sources.effectiveDescription sources'.effectiveDescription := by
  have htype : reportedAgentType sources.effectiveDescription = reportedAgentType sources'.effectiveDescription := by
    rw [reportedAgentType_effective, reportedAgentType_effective, hreported]
  have hversion : reportedServiceVersion sources.effectiveDescription =
      reportedServiceVersion sources'.effectiveDescription := by
    rw [reportedServiceVersion_effective, reportedServiceVersion_effective, hreported]
  refine ⟨fun revision => ?_, hplatform, fun store deployment installed => ?_, fun sets assigned => ?_⟩
  · unfold Revision.fits
    rw [hconfigurations]
  · unfold PackageStore.candidate resolve upgrades
    rw [htype, hplatform, hversion]
  · unfold offeredEntry PackageId.fits
    rw [htype, hplatform]

/-- The label checks accept the set: on the Agent it is set on, as that one reports when it is set. -/
def Accepted (quote : String → String) (set : Labels) : Prop :=
    ∃ description, checkLabels quote description set = .ok ()

def ReportsNoToken (quote : String → String) (reported : Option AgentDescription) (aliases : List (String × String))
    (what key : String) : Prop :=
  Reports reported key ∧ ∀ raw, (reported.bind fun d => attributeOf d key) = some raw →
    (token quote aliases what raw).toOption = none

/-- The Agent itself reports its type, and its Platform or a value that rules one out. -/
def SelfDescribed (quote : String → String) (reported : Option AgentDescription) : Prop :=
  Reports reported serviceName ∧ (Reports reported osType ∧ Reports reported hostArch ∨
    ReportsNoToken quote reported osAliases "os" osType ∨ ReportsNoToken quote reported archAliases "arch" hostArch)

private lemma Platform.toOption_new (quote : String → String) (os arch : String) :
    (new quote os arch).toOption = (token quote osAliases "os" os).toOption.bind fun os =>
      (token quote archAliases "arch" arch).toOption.map fun arch => ⟨os, arch⟩ := by
  unfold new
  cases token quote osAliases "os" os with
  | error e => rfl
  | ok os =>
    cases token quote archAliases "arch" arch with
    | error e | ok arch => rfl

private lemma reported_eq_none_of_os (h : ReportsNoToken quote sources.reported osAliases "os" osType) :
    reported quote sources.effectiveDescription = none := by
  rw [reported_effective, attribute_effective (by decide), if_pos h.1]
  cases hraw : sources.reported.bind fun d => attributeOf d osType with
  | none => rfl
  | some raw =>
    simp [toOption_new, h.2 raw hraw]

private lemma reported_eq_none_of_arch (h : ReportsNoToken quote sources.reported archAliases "arch" hostArch) :
    reported quote sources.effectiveDescription = none := by
  rw [reported_effective, @attribute_effective hostArch (by decide), if_pos h.1]
  cases hraw : sources.reported.bind fun d => attributeOf d hostArch with
  | none => simp only [bind_none, bind_fun_none]
  | some raw =>
    simp [toOption_new, h.2 raw hraw]

def everyLabel : Labels :=
  ((AList.singleton serviceName "otelcol" : Labels).insert osType "linux").insert hostArch "amd64"

private lemma accepted_empty (quote : String → String) : Accepted quote ∅ := ⟨none, rfl⟩

private lemma inKeyOrder_everyLabel :
    inKeyOrder everyLabel = [(hostArch, "amd64"), (osType, "linux"), (serviceName, "otelcol")] := by
  decide

private lemma accepted_everyLabel (quote : String → String) : Accepted quote everyLabel := by
  have hpairs : checkPairs quote everyLabel = .ok () := by
    unfold checkPairs
    rw [inKeyOrder_everyLabel]
    rfl
  refine ⟨none, ?_⟩
  unfold checkLabels
  rw [hpairs, inKeyOrder_everyLabel]
  rfl

private lemma attribute_bare {key : String} (hours : isOurs key = false) (host : Option SubjectValues)
    (reported : Option AgentDescription) (hnot : ¬Reports reported key) :
    ((effectiveDescription ⟨host, reported, ∅, ∅⟩).bind fun d => attributeOf d key) = none := by
  rw [attribute_effective hours, if_neg hnot]
  rfl

private lemma os_everyLabel (host : Option SubjectValues) (reported : Option AgentDescription)
    (hnot : ¬Reports reported osType) :
    ((effectiveDescription ⟨host, reported, everyLabel, ∅⟩).bind fun d => attributeOf d osType) =
      some "linux" := by
  rw [attribute_effective (by decide), if_neg hnot, Sources.label, inKeyOrder_everyLabel]
  rfl

private lemma arch_everyLabel (host : Option SubjectValues) (reported : Option AgentDescription)
    (hnot : ¬Reports reported hostArch) :
    ((effectiveDescription ⟨host, reported, everyLabel, ∅⟩).bind fun d => attributeOf d hostArch) =
      some "amd64" := by
  rw [attribute_effective (by decide), if_neg hnot, Sources.label, inKeyOrder_everyLabel]
  rfl

private lemma platform_of_same {host : Option SubjectValues} {reported : Option AgentDescription}
    (h : Platform.reported quote (effectiveDescription ⟨host, reported, everyLabel, ∅⟩) =
      Platform.reported quote (effectiveDescription ⟨host, reported, ∅, ∅⟩)) :
    Reports reported osType ∧ Reports reported hostArch ∨ ReportsNoToken quote reported osAliases "os" osType ∨
      ReportsNoToken quote reported archAliases "arch" hostArch := by
  have hlinux : (token quote osAliases "os" "linux").toOption = some "linux" := rfl
  have hamd64 : (token quote archAliases "arch" "amd64").toOption = some "amd64" := rfl
  rw [reported_effective, reported_effective] at h
  by_cases hos : Reports reported osType
  · by_cases harch : Reports reported hostArch
    · exact .inl ⟨hos, harch⟩
    -- the Platform would be the reported system on the labelled architecture
    refine .inr (.inl ⟨hos, fun raw hraw => ?_⟩)
    rw [arch_everyLabel host reported harch, attribute_bare (by decide) host reported harch,
      attribute_effective (by decide), if_pos hos, hraw] at h
    refine eq_none_iff_forall_ne_some.mpr ?_
    simpa [Platform.toOption_new, hamd64] using h
  · have hnone := attribute_bare (by decide) host reported hos
    rw [os_everyLabel host reported hos, hnone] at h
    by_cases harch : Reports reported hostArch
    · refine .inr (.inr ⟨harch, fun raw hraw => ?_⟩)
      rw [@attribute_effective hostArch (by decide), if_pos harch, hraw] at h
      simpa [Platform.toOption_new, hlinux] using h
    · rw [arch_everyLabel host reported harch] at h
      simp [Platform.toOption_new, hlinux, hamd64] at h

/-- What the labels of an Agent decide nothing about: whatever two pairs of label sets are accepted, the same fits an
Agent, exactly when it reports its type and its Platform itself. -/
theorem same_fit_iff_selfDescribed (quote : String → String) (host : Option SubjectValues)
    (reported : Option AgentDescription) :
    (∀ own inherited own' inherited' : Labels, Accepted quote own → Accepted quote inherited → Accepted quote own' →
      Accepted quote inherited' →
        SameFit quote (effectiveDescription ⟨host, reported, own, inherited⟩)
          (effectiveDescription ⟨host, reported, own', inherited'⟩)) ↔
      SelfDescribed quote reported := by
  constructor
  · intro h
    obtain ⟨hconfigurations, hplatform, -, -⟩ := h everyLabel ∅ ∅ ∅ (accepted_everyLabel quote) (accepted_empty quote)
      (accepted_empty quote) (accepted_empty quote)
    refine ⟨?_, platform_of_same hplatform⟩
    by_contra hnot
    -- a Configuration for the labelled type
    have hfits := hconfigurations ⟨"", "", "otelcol"⟩
    unfold Revision.fits at hfits
    rw [describedType_effective, describedType_effective, if_neg hnot, if_neg hnot, Sources.label,
      inKeyOrder_everyLabel] at hfits
    cases hfits
  · rintro ⟨htype, hplatform⟩ own inherited own' inherited' - - - -
    refine SameFit.of_platform rfl ?_ ?_
    · rw [describedType_effective, describedType_effective, if_pos htype, if_pos htype]
    rcases hplatform with ⟨hos, harch⟩ | hos | harch
    · rw [reported_effective, reported_effective]
      simp [@attribute_effective osType (by decide), @attribute_effective hostArch (by decide),
        if_pos hos, if_pos harch]
    · rw [reported_eq_none_of_os hos, reported_eq_none_of_os hos]
    · rw [reported_eq_none_of_arch harch, reported_eq_none_of_arch harch]

namespace Small

def otelcol : PackageId := ⟨"otelcol", "1.0.0"⟩

def linuxEntry : Entry := ⟨⟨"linux", "amd64"⟩, [7], 1, some [1]⟩

def packages : Map PackageId Entries := AList.singleton otelcol (AList.singleton ⟨"linux", "amd64"⟩ linuxEntry)

def untold : AgentDescription := ⟨[stringAttr serviceName "otelcol"], []⟩

def platformLabels : Labels := everyLabel.erase serviceName

end Small

/-- A label hands an entry to an Agent that reports no Platform, and a Configuration to one that reports no type. -/
theorem labels_supply_platform_and_type : offeredEntry id Small.packages (some Small.otelcol)
        (effectiveDescription ⟨none, some Small.untold, Small.platformLabels, ∅⟩) =
          some (Small.otelcol, Small.linuxEntry, [1]) ∧
      offeredEntry id Small.packages (some Small.otelcol)
        (effectiveDescription ⟨none, some Small.untold, ∅, ∅⟩) = none ∧
      Revision.fits ⟨"receivers:", "", "otelcol"⟩ (effectiveDescription ⟨none, none, everyLabel, ∅⟩) = true ∧
      Revision.fits ⟨"receivers:", "", "otelcol"⟩ (effectiveDescription ⟨none, none, ∅, ∅⟩) = false ∧
      checkLabels id (some Small.untold) Small.platformLabels = .ok () ∧ checkLabels id none everyLabel = .ok () := by
  refine ⟨?_, ?_, ?_, ?_, ?_, ?_⟩
  · decide +kernel
  · decide +kernel
  · decide +kernel
  · decide +kernel
  · rfl
  · rfl

/-! ### The candidate, and why a Package is none -/

def notSemver (quote : String → String) (version : String) : String :=
  "the version " ++ quote version ++
    " is not SemVer — a Package version is a SemVer 2.0.0 version, for example 1.19.0 " ++
    "for upstream's 1.19"

def runs (description : Option AgentDescription) : Option String :=
  (reportedServiceVersion description).filter fun running => (Version.parse running).isSome

def notUpgrade (quote : String → String) (id : PackageId) (running claimed : Option String) : String :=
  "set " ++ id.text ++ " is not an upgrade for this Agent, which " ++
    match running, claimed with
    | some runs, some has => "runs " ++ quote runs ++ "; its package status claims " ++ quote has ++ " for package " ++
      quote id.agentType ++ ", which is not consulted while the Agent reports what it runs"
    | some runs, none => "runs " ++ quote runs
    | none, some has => "reports " ++ quote has ++ " installed for package " ++ quote id.agentType ++
      " and no version it runs that can be ordered"
    | none, none => "reports no version"

def PackageStore.fitsAgent (quote : String → String) (store : PackageStore) (id : PackageId)
    (description : Option AgentDescription) (installed : Map String String) : Except String Unit :=
  match store.sets.lookup id with
  | none => .error (noPackageSet id)
  | some entries =>
    if !Version.isSemver id.version then
      .error ("set " ++ id.text ++ " is no candidate for any Agent: " ++ notSemver quote id.version)
    else if entries.entries.isEmpty then
      .error ("set " ++ id.text ++ " holds no entries — a set contains one or more entries before it can be rolled out")
    else
      match reported quote description with
      | none => .error ("set " ++ id.text ++ " fits no platform this Agent reports — it reports none")
      | some platform =>
        if reportedAgentType description ≠ some id.agentType then
          .error ("set " ++ id.text ++ " is built for Agent type " ++ quote id.agentType ++
            ", which this Agent does not report")
        else if (entries.lookup platform).isNone then
          .error ("set " ++ id.text ++ " holds no entry for " ++ platform.os ++ "-" ++ platform.arch ++
            ", which this Agent reports")
        else if !upgrades id installed description then
          .error (notUpgrade quote id (runs description) (claimedVersion id installed))
        else .ok ()

/-- A Deployment as it is read and changed: each Package stands under its own Agent type. -/
structure TypedDeployment extends Deployment where
  typed : ∀ agentType id, packages.lookup agentType = some id → id.agentType = agentType

namespace TypedDeployment

def putPackage (d : TypedDeployment) (id : PackageId) : TypedDeployment where
  toDeployment := { d.toDeployment with packages := d.packages.insert id.agentType id }
  typed agentType other h := by
    rcases Map.lookup_of_insert h with ⟨rfl, rfl⟩ | h
    · rfl
    · exact d.typed agentType other h

def removePackage (d : TypedDeployment) (id : PackageId) : TypedDeployment where
  toDeployment := { d.toDeployment with packages := d.packages.erase id.agentType }
  typed agentType other h := d.typed agentType other (Map.lookup_of_erase h)

def read (name : String) (packages : List PackageId) (configurations : List String) : TypedDeployment :=
  packages.foldl putPackage ⟨⟨name, ∅, configurations⟩, by simp⟩

end TypedDeployment

def heldAgainst (id : PackageId) (installed : Map String String) (description : Option AgentDescription) :
    Option String :=
  (runs description).or (claimedVersion id installed)

structure Suits (quote : String → String) (sets : Map PackageId Entries) (description : Option AgentDescription)
    (installed : Map String String) (id : PackageId) : Prop where
  agentType : reportedAgentType description = some id.agentType
  semver : Version.isSemver id.version = true
  entry : ∃ platform entries entry, reported quote description = some platform ∧
    sets.lookup id = some entries ∧ entries.lookup platform = some entry
  newer : ∀ has, heldAgainst id installed description = some has → Version.precedence id.version has = some .gt

section Candidate

variable {store : PackageStore} {description : Option AgentDescription} {installed : Map String String} {id : PackageId}

private lemma upgrades_iff : upgrades id installed description = true ↔
    ∀ has, heldAgainst id installed description = some has → Version.precedence id.version has = some .gt := by
  change (match runs description with | some _ => _ | none => _) = true ↔ _
  unfold heldAgainst
  cases runs description with
  | some running => simp
  | none => cases claimedVersion id installed <;> simp

private lemma fitsAgent_eq_ok :
    store.fitsAgent quote id description installed = .ok () ↔ Suits quote store.sets description installed id := by
  unfold PackageStore.fitsAgent
  constructor
  · intro h
    split at h
    · cases h
    rename_i entries hentries
    simp only [ite_error_eq_ok] at h
    obtain ⟨hsemver, -, h⟩ := h
    split at h
    · cases h
    rename_i platform hplatform
    simp only [ite_error_eq_ok, not_not, and_true] at h
    obtain ⟨htype, hentry, hnewer⟩ := h
    obtain ⟨entry, hentry⟩ := ne_none_iff_exists'.mp (mt isNone_iff_eq_none.mpr hentry)
    refine ⟨htype, by simpa using hsemver, ⟨platform, entries, entry, hplatform, hentries, hentry⟩, ?_⟩
    exact upgrades_iff.mp (by simpa using hnewer)
  · rintro ⟨htype, hsemver, ⟨platform, entries, entry, hplatform, hentries, hentry⟩, hnewer⟩
    have hsome : entries.entries.isEmpty = false := by
      rw [List.isEmpty_eq_false_iff]
      exact List.ne_nil_of_mem (AList.mem_lookup_iff.mp hentry)
    simp [hentries, hsemver, hsome, hplatform, htype, hentry, upgrades_iff.mpr hnewer]

private lemma candidate_eq_some {deployment : TypedDeployment} :
    store.candidate quote deployment.toDeployment description installed = some id ↔
      (∃ agentType, reportedAgentType description = some agentType ∧ deployment.packages.lookup agentType = some id) ∧
        Suits quote store.sets description installed id := by
  unfold PackageStore.candidate resolve
  simp only [map_eq_some_iff, bind_eq_bind, bind_eq_some_iff, ite_none_left_eq_some,
    ite_none_right_eq_some, Prod.exists, some.injEq, Prod.mk.injEq]
  constructor
  · rintro ⟨_, _, ⟨platform, hplatform, agentType, htype, held, hheld, entries, hentries, hsemver, entry,
      hentry, hnewer,
      rfl, rfl⟩, rfl⟩
    refine ⟨⟨agentType, htype, hheld⟩, ?_, by simpa using hsemver, ⟨platform, entries, _, hplatform, hentries, hentry⟩,
      upgrades_iff.mp hnewer⟩
    rw [deployment.typed agentType _ hheld, htype]
  · rintro ⟨⟨agentType, htype, hheld⟩, hsuits⟩
    obtain ⟨platform, entries, entry, hplatform, hentries, hentry⟩ := hsuits.entry
    exact ⟨id, entry, ⟨platform, hplatform, agentType, htype, id, hheld, entries, hentries,
      by simp [hsuits.semver], entry,
      hentry, upgrades_iff.mpr hsuits.newer, rfl, rfl⟩, rfl⟩

end Candidate

/-- The candidate is the Package the Deployment holds for the Agent's type, where `fits_agent` accepts it; and a release
pins the Package that was pinned before or one that suits the Agent. -/
theorem candidate_fits (sha256 : Bytes → Bytes) (quote : String → String) (configs : ConfigStore) (store : PackageStore)
    (deployment : TypedDeployment) (description : Option AgentDescription) (installed : Map String String) :
    (∀ id, store.candidate quote deployment.toDeployment description installed = some id ↔
      (∃ agentType, reportedAgentType description = some agentType ∧ deployment.packages.lookup agentType = some id) ∧
        store.fitsAgent quote id description installed = .ok ()) ∧
    ∀ assigned assignment id, releaseFor sha256 quote configs store deployment.toDeployment description installed
        assigned = some assignment →
      assignment.package = some id → assigned = some id ∨ Suits quote store.sets description installed id := by
  refine ⟨fun id => by rw [fitsAgent_eq_ok, candidate_eq_some], ?_⟩
  intro assigned assignment id hrelease hpackage
  unfold releaseFor at hrelease
  simp only [ite_none_right_eq_some, some.injEq] at hrelease
  obtain ⟨-, rfl⟩ := hrelease
  rcases or_eq_some_iff.mp hpackage with hcandidate | ⟨-, hpinned⟩
  · exact .inr (candidate_eq_some.mp hcandidate).2
  · obtain ⟨-, -, hassigned⟩ := bind_eq_some_iff.mp (filter_eq_some_iff.mp hpinned).1
    exact .inl hassigned

end OpampFleet.Server
