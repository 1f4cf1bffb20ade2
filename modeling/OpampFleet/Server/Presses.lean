import OpampFleet.Lib.Transition
import OpampFleet.Server.Fit
import OpampFleet.Server.Rollouts

/-!
# Rollouts and the saves between their two reads

A rollout reads the saved revisions twice: `AppState::release` chooses the candidates of each Agent, one Agent after
another, and `write_releases` pins what is saved then, by name. It holds the fleet lock throughout; a save takes the
lock of the Configurations alone, and so does a reload of what another instance saved. Here the two reads are two
steps, and saves go on between them.

The Agents' records, and what the store answers to the writing of the releases, come with the acts.
-/

namespace OpampFleet.Server

open Lib List Option Map

variable {υ : Type} [DecidableEq υ] {description : Option AgentDescription} {name : String} {configs : ConfigStore}
  {installed : Map String String} {io : FileIo} {referenced : List String} {store : ConfigStore} {a : Assignment}
  {hash : String}

structure Release (υ : Type) where
  uid : υ
  description : Option AgentDescription
  assignment : Option Assignment

structure Press (υ : Type) where
  deployment : Deployment
  /-- `rollout_to_agent`, which writes its one release also when nothing of it is new. -/
  single : Bool
  releases : List (Release υ)

structure Written (υ : Type) where
  uid : υ
  description : Option AgentDescription
  assignment : Assignment
  pinned : List Pinned

structure Catalogue (υ : Type) where
  configs : ConfigStore
  press : Option (Press υ)
  written : List (Written υ)

def Press.names (press : Press υ) : List String := press.releases.flatMap fun r => Assignment.names r.assignment

def Press.choose (sha256 : Bytes → Bytes) (quote : String → String) (configs : ConfigStore) (packages : PackageStore)
    (press : Press υ) (uid : υ) (description : Option AgentDescription) (installed : Map String String)
    (assignment : Option Assignment) : Press υ :=
  let release := releaseFor sha256 quote configs packages press.deployment description installed
    (assignment.bind Assignment.package)
  if !press.single && release = assignment then press
  else { press with releases := press.releases ++ [⟨uid, description, release⟩] }

def Release.written (pinned : List Pinned) (r : Release υ) : Option (Written υ) :=
  r.assignment.map fun a => ⟨r.uid, r.description, a.pinnedAt pinned, pinned⟩

namespace Catalogue

def chosen (s : Catalogue υ) : List String := s.press.elim [] Press.names

/-- `wrote` is the store's answer, the Agents whose records it wrote, and `stored` what it then holds. -/
def writeReleases (sha256 : Bytes → Bytes) (quote : String → String) (s : Catalogue υ) (press : Press υ)
    (wrote : Except String (List υ)) (stored : Configurations) : Catalogue υ :=
  match s.configs.pinnedOf sha256 quote (nameSet press.names) with
  | .error _ => { s with press := none }
  | .ok pinned =>
    let configs := { s.configs.holdPinned pinned with files := stored }
    match wrote with
    | .error _ => ⟨configs, none, s.written⟩
    | .ok uids =>
      ⟨configs, none,
        (press.releases.filter fun r => r.uid ∈ uids).filterMap (Release.written pinned) ++ s.written⟩

inductive Act (υ : Type) where
  | saveConfiguration (name : String) (revision : Revision) (io : FileIo)
  | reload (stored : Configurations)
  | deleteConfiguration (name : String) (io : FileIo)
  | collectRevisions (name : String) (referenced : List String) (io : FileIo)
  | press (deployment : Deployment) (single : Bool)
  | choose (packages : PackageStore) (uid : υ) (description : Option AgentDescription)
      (installed : Map String String) (assignment : Option Assignment)
  | writeReleases (wrote : Except String (List υ)) (stored : Configurations)
  | abandon

/-- An act that fails leaves the Configurations as they were. -/
def step (sha256 : Bytes → Bytes) (quote : String → String) (s : Catalogue υ) : Act υ → Option (Catalogue υ)
  | .saveConfiguration name revision io =>
    some { s with configs := (s.configs.putSaved quote io name revision).toOption.getD s.configs }
  | .reload stored => some { s with configs := ⟨stored, stored⟩ }
  | .deleteConfiguration name io =>
    -- The deletion holds the fleet lock, which a rollout in progress has.
    if s.press.isSome then none
    else some { s with configs := ((s.configs.delete io name).map Prod.fst).toOption.getD s.configs }
  | .collectRevisions name referenced io =>
    some { s with configs := (s.configs.retainOnly io name referenced).toOption.getD s.configs }
  | .press deployment single => if s.press.isSome then none else some { s with press := some ⟨deployment, single, []⟩ }
  | .choose packages uid description installed assignment =>
    s.press.map fun press =>
      { s with press := some (press.choose sha256 quote s.configs packages uid description installed assignment) }
  | .writeReleases wrote stored => s.press.map fun press => s.writeReleases sha256 quote press wrote stored
  | .abandon => some { s with press := none }

def start : Catalogue υ := ⟨⟨∅, ∅⟩, none, []⟩

end Catalogue

def Configurations.savedType (configs : Configurations) (name : String) : Option String :=
  (configs.lookup name).map fun config => config.saved.serviceName

open Configurations

private lemma savedType_setSaved (configs : Configurations) (name : String) (revision : Revision) (n : String) :
    (configs.setSaved name revision).savedType n = if n = name then some revision.serviceName
      else configs.savedType n := by
  unfold savedType setSaved
  rw [lookup_insert_ite]
  split
  · cases configs.lookup name <;> rfl
  · rfl

private lemma savedType_setRetained (configs : Configurations) (name : String)
    (change : Map String Revision → Map String Revision) (n : String) :
    (configs.setRetained name change).savedType n = configs.savedType n := by
  unfold savedType setRetained
  cases hc : configs.lookup name with
  | none => rfl
  | some config =>
    simp only [lookup_insert_ite]
    split
    · subst n
      simp [hc]
    · rfl

private lemma savedType_retainOnly {store' : ConfigStore}
    (h : store.retainOnly io name referenced = .ok store') (n : String) :
    store'.configs.savedType n = store.configs.savedType n := by
  unfold ConfigStore.retainOnly at h
  split at h
  · cases h
    rfl
  · obtain ⟨kept, -, rfl⟩ := map_eq_ok.mp h
    exact savedType_setRetained store.configs name _ n

private lemma savedType_of_candidatesIn {sha256 : Bytes → Bytes} {names : List String}
    (h : (store.candidatesIn sha256 names description).lookup name = some hash) :
    ∃ type, store.configs.savedType name = some type ∧ description.bind describedType = some type := by
  unfold ConfigStore.candidatesIn at h
  refine foldlRecOn (motive := fun candidates : Map String String => candidates.lookup name = some hash →
    ∃ type, store.configs.savedType name = some type ∧ description.bind describedType = some type)
    names _ (fun h => ?_) (fun candidates hc n hn h => ?_) h
  · simp at h
  split at h
  next config hconfig =>
    split at h
    next hfits =>
      rcases lookup_of_insert h with ⟨rfl, -⟩ | h
      · unfold Revision.fits at hfits
        rw [Bool.and_eq_true, decide_eq_true_eq, decide_eq_true_eq] at hfits
        exact ⟨config.saved.serviceName, by simp [savedType, hconfig], hfits.2⟩
      · exact hc h
    · exact hc h
  · exact hc h

private lemma configurations_of_releaseFor {sha256 : Bytes → Bytes} {quote : String → String}
    {packages : PackageStore} {deployment : Deployment}
    {assigned : Option PackageId}
    (h : releaseFor sha256 quote configs packages deployment description installed assigned = some a) :
    a.configurations = configs.candidatesIn sha256 deployment.configurations description := by
  obtain ⟨-, h⟩ := ite_none_right_eq_some.mp h
  cases h
  rfl

def Release.Fits (configs : Configurations) (r : Release υ) : Prop :=
  ∀ a, r.assignment = some a → ∀ name hash, a.configurations.lookup name = some hash →
    ∀ type, configs.savedType name = some type → r.description.bind describedType = some type

/-- Each revision the assignment pins, the one of that hash, is for the type in the description. -/
def Written.Fits (sha256 : Bytes → Bytes) (w : Written υ) : Prop :=
  ∀ name hash, w.assignment.configurations.lookup name = some hash →
    ∃ p, w.pinned.find? (fun p => p.configuration == name) = some p ∧ p.hash = hash ∧
      hash = revisionHash sha256 p.revision ∧ w.description.bind describedType = some p.revision.serviceName

variable {press : Press υ} {r : Release υ}

namespace Press

private lemma mem_names (hr : r ∈ press.releases)
    (ha : r.assignment = some a) (hc : a.configurations.lookup name = some hash) : name ∈ press.names := by
  refine mem_flatMap.mpr ⟨r, hr, ?_⟩
  rw [ha]
  exact AList.lookup_isSome.mp (isSome_iff_exists.mpr ⟨hash, hc⟩)

private lemma fits_choose {sha256 : Bytes → Bytes} {quote : String → String} {packages : PackageStore} {uid : υ}
    {assignment : Option Assignment}
    (h : ∀ r ∈ press.releases, r.Fits configs.configs) :
    ∀ r ∈ (press.choose sha256 quote configs packages uid description installed assignment).releases,
      r.Fits configs.configs := by
  unfold choose
  simp only
  split
  · exact h
  intro r hr
  rcases mem_append.mp hr with hr | hr
  · exact h r hr
  cases mem_singleton.mp hr
  intro a ha name hash hc type htype
  rw [configurations_of_releaseFor ha] at hc
  obtain ⟨type', hsaved, hdescribed⟩ := savedType_of_candidatesIn hc
  rw [htype] at hsaved
  cases hsaved
  exact hdescribed

end Press

namespace Catalogue

/-- While a rollout has chosen Configurations and not pinned them, a save keeps each one's type; a reload keeps the
type or finds the Configuration deleted. -/
def KeepsTypes (s : Catalogue υ) : Act υ → Prop
  | .saveConfiguration name revision _ =>
    name ∈ s.chosen → s.configs.configs.savedType name = some revision.serviceName
  | .reload stored => ∀ name ∈ s.chosen,
    stored.savedType name = none ∨ stored.savedType name = s.configs.configs.savedType name
  | _ => True

instance (s : Catalogue υ) (a : Act υ) : Decidable (s.KeepsTypes a) := by
  cases a <;> unfold KeepsTypes <;> infer_instance

structure Sound (sha256 : Bytes → Bytes) (s : Catalogue υ) : Prop where
  chosen : ∀ press, s.press = some press → ∀ r ∈ press.releases, r.Fits s.configs.configs
  written : ∀ w ∈ s.written, w.Fits sha256

variable {sha256 : Bytes → Bytes} {quote : String → String} {s : Catalogue υ}

private lemma Sound.of_savedType (h : Sound sha256 s)
    (htypes : ∀ name ∈ s.chosen, configs.configs.savedType name = none ∨
      configs.configs.savedType name = s.configs.configs.savedType name) :
    Sound sha256 { s with configs := configs } := by
  refine ⟨fun press hpress r hr a ha name hash hc type htype => ?_, h.written⟩
  have hmem : name ∈ s.chosen := by
    change name ∈ s.press.elim [] Press.names
    rw [show s.press = some press from hpress]
    exact Press.mem_names hr ha hc
  rcases htypes name hmem with hnone | hsame
  · simp [show configs.configs.savedType name = some type from htype] at hnone
  · exact h.chosen press hpress r hr a ha name hash hc type (hsame ▸ htype)

private lemma Sound.of_press_none (hwritten : ∀ w ∈ s.written, w.Fits sha256) (hpress : s.press = none) :
    Sound sha256 s := by
  refine ⟨fun press h => ?_, hwritten⟩
  simp [hpress] at h

private lemma Sound.saveConfiguration (h : Sound sha256 s) {revision : Revision}
    (hkeeps : name ∈ s.chosen → s.configs.configs.savedType name = some revision.serviceName) :
    Sound sha256 { s with configs := (s.configs.putSaved quote io name revision).toOption.getD s.configs } := by
  cases hput : s.configs.putSaved quote io name revision with
  | error e => exact h
  | ok store =>
    refine h.of_savedType fun n hn => .inr ?_
    change store.configs.savedType n = _
    rw [putSaved_eq_ok hput, savedType_setSaved]
    split
    · subst n
      exact (hkeeps hn).symm
    · rfl

private lemma Sound.collectRevisions (h : Sound sha256 s) :
    Sound sha256 { s with configs := (s.configs.retainOnly io name referenced).toOption.getD s.configs } := by
  cases hcollect : s.configs.retainOnly io name referenced with
  | error e => exact h
  | ok store => exact h.of_savedType fun n _ => .inr (savedType_retainOnly hcollect n)

private lemma Written.fits_of_pinnedOf {pinned : List Pinned} (hchosen : ∀ r ∈ press.releases, r.Fits s.configs.configs)
    (hp : s.configs.pinnedOf sha256 quote (nameSet press.names) = .ok pinned)
    (hr : r ∈ press.releases) {w : Written υ} (hw : r.written pinned = some w) : w.Fits sha256 := by
  obtain ⟨a, ha, rfl⟩ := map_eq_some_iff.mp hw
  obtain ⟨hnames, hsaved⟩ := pinnedOf_eq_ok hp
  intro name hash hc
  have hpinned : ∀ n, a.configurations.lookup n ≠ none → ∃ p ∈ pinned, p.configuration = n := by
    intro n hn
    obtain ⟨old, hold⟩ := ne_none_iff_exists'.mp hn
    exact hnames n (mem_nameSet.mpr (Press.mem_names hr ha hold))
  obtain ⟨p, hfind, hname, hhash⟩ := lookup_pinnedAt hpinned hc
  obtain ⟨existing, hlookup, hrevision, hof⟩ := hsaved p (mem_of_find?_eq_some hfind)
  obtain ⟨old, hold⟩ : ∃ old, a.configurations.lookup name = some old := by
    simp only [Assignment.pinnedAt, lookup_mapValues, map_eq_some_iff] at hc
    exact hc.imp fun old h => h.1
  refine ⟨p, hfind, hhash, ?_, ?_⟩
  · rw [← hhash, hof, hrevision]
  · refine hchosen r hr a ha name old hold p.revision.serviceName ?_
    rw [savedType, ← hname, hlookup, hrevision]
    rfl

private lemma Sound.writeReleases (h : Sound sha256 s) (hpress : s.press = some press)
    {wrote : Except String (List υ)} {stored : Configurations} :
    Sound sha256 (s.writeReleases sha256 quote press wrote stored) := by
  unfold Catalogue.writeReleases
  split
  · exact .of_press_none h.written rfl
  rename_i pinned hp
  simp only
  cases wrote with
  | error e => exact .of_press_none h.written rfl
  | ok uids =>
    refine .of_press_none (fun w hw => ?_) rfl
    rcases mem_append.mp hw with hw | hw
    · obtain ⟨r, hr, hwritten⟩ := mem_filterMap.mp hw
      exact Written.fits_of_pinnedOf (h.chosen press hpress) hp (mem_filter.mp hr).1 hwritten
    · exact h.written w hw

private lemma Sound.step {t : Catalogue υ} {a : Act υ} (h : Sound sha256 s) (hkeeps : s.KeepsTypes a)
    (hstep : s.step sha256 quote a = some t) : Sound sha256 t := by
  cases a with
  | saveConfiguration name revision io =>
    cases hstep
    exact h.saveConfiguration hkeeps
  | reload stored =>
    cases hstep
    exact h.of_savedType hkeeps
  | deleteConfiguration name io =>
    obtain ⟨hpress, hstep⟩ := ite_none_left_eq_some.mp hstep
    cases hstep
    exact .of_press_none h.written (not_isSome_iff_eq_none.mp hpress)
  | collectRevisions name referenced io =>
    cases hstep
    exact h.collectRevisions
  | press deployment single =>
    obtain ⟨-, hstep⟩ := ite_none_left_eq_some.mp hstep
    cases hstep
    refine ⟨fun press hpress r hr => ?_, h.written⟩
    cases hpress
    cases hr
  | choose packages uid description installed assignment =>
    obtain ⟨press, hpress, rfl⟩ := map_eq_some_iff.mp hstep
    refine ⟨fun press' hpress' => ?_, h.written⟩
    cases hpress'
    exact Press.fits_choose (h.chosen press hpress)
  | writeReleases wrote stored =>
    obtain ⟨press, hpress, rfl⟩ := map_eq_some_iff.mp hstep
    exact h.writeReleases hpress
  | abandon =>
    cases hstep
    exact .of_press_none h.written rfl

/-- In every interleaving whose saves keep the types of what a rollout has chosen, every assignment written pins
revisions of its Agent's type alone. -/
theorem written_fits {sha256 : Bytes → Bytes} {quote : String → String} {s : Catalogue υ}
    (h : Reach start (restrict KeepsTypes (step sha256 quote)) s) : ∀ w ∈ s.written, w.Fits sha256 := by
  have hsound : Sound sha256 s := by
    exact h.invariant_restrict (.of_press_none (fun w hw => by cases hw) rfl) fun _ _ _ hs hkeeps hstep =>
      hs.step hkeeps hstep
  exact hsound.written

namespace Small

def packages : PackageStore := ⟨∅, ∅⟩

def stable : Deployment := ⟨"stable", ∅, ["fleet"]⟩

def described : Option AgentDescription := some ⟨[stringAttr serviceName "otelcol"], []⟩

def collector : Revision := ⟨"receivers", "", "otelcol"⟩

def proxy : Revision := ⟨"listen", "", "nginx"⟩

def rollout (between : Revision) : List (Act Nat) :=
  [.saveConfiguration "fleet" collector .ok, .press stable false, .choose packages 0 described ∅ none,
    .saveConfiguration "fleet" between .ok, .writeReleases (.ok [0]) ∅]

end Small

/-- The body may change between the two reads. -/
theorem written_fits_of_new_body : ∃ s : Catalogue Nat,
    Reach start (restrict KeepsTypes (step id id)) s ∧ s.written ≠ [] ∧
      ∀ w ∈ s.written, w.Fits id := by
  refine Reach.exists_of_run_imp (p := fun s => s.written.length = 1) (Small.rollout ⟨"exporters", "", "otelcol"⟩)
    (by decide +kernel) ?_
  intro s hreach hlength
  refine ⟨fun hnil => ?_, written_fits hreach⟩
  simp [hnil] at hlength

/-- A save for another type between the two reads: the Collector's assignment pins the proxy's revision. -/
theorem save_pins_another_type : ∃ s : Catalogue Nat, Reach start (step id id) s ∧
    ∃ w ∈ s.written, w.description.bind describedType = some "otelcol" ∧
      w.assignment.configurations.lookup "fleet" = some (revisionHash id Small.proxy) ∧
      (w.pinned.find? fun p => p.configuration == "fleet").map Pinned.revision = some Small.proxy ∧
      ¬w.Fits id := by
  refine Reach.exists_of_run_imp (p := fun s => ∃ w ∈ s.written, w.description.bind describedType = some "otelcol" ∧
    w.assignment.configurations.lookup "fleet" = some (revisionHash id Small.proxy) ∧
    (w.pinned.find? fun p => p.configuration == "fleet").map Pinned.revision = some Small.proxy)
    (Small.rollout Small.proxy) (by decide +kernel) ?_
  rintro s - ⟨w, hw, htype, hlookup, hrevision⟩
  refine ⟨w, hw, htype, hlookup, hrevision, fun hfits => ?_⟩
  obtain ⟨p, hp, -, -, hdescribed⟩ := hfits "fleet" _ hlookup
  rw [hp, map_some, some.injEq] at hrevision
  rw [hrevision, htype] at hdescribed
  exact absurd hdescribed (by decide)

end Catalogue

end OpampFleet.Server
