import OpampFleet.Core.Package
import OpampFleet.Lib.Fallible
import OpampFleet.Lib.Map

/-!
# The Configuration store

The model of `configs.rs` over its filesystem adapter `fs/configs.rs`: every Configuration's saved revision and the
revisions retained for the assignments that pin them, as held and as on disk, and the composition of an Agent's
Remote configuration from its assignment.

`sha256` stands for the hash and `quote` for the way a text is shown in an error.
-/

namespace OpampFleet.Server

open Lib Core List Option Map

structure Revision where
  body : String
  role : String
  serviceName : String
  deriving DecidableEq

/-- Over what the Agent is delivered, never the type. -/
def revisionHash (sha256 : Bytes → Bytes) (revision : Revision) : String :=
  hexText (sha256 (framed revision.body ++ framed revision.role))

structure Configuration where
  name : String
  saved : Revision
  retained : Map String Revision

structure Pinned where
  configuration : String
  hash : String
  revision : Revision

@[ext]
structure ConfigEntry where
  name : String
  body : String
  role : String
  deriving DecidableEq

structure DesiredConfig where
  entries : List ConfigEntry
  hash : Bytes

def ConfigEntry.framed (entry : ConfigEntry) : Bytes :=
  Core.framed entry.name ++ Core.framed entry.body ++ if entry.role = "" then [] else Core.framed entry.role

def DesiredConfig.new (sha256 : Bytes → Bytes) (entries : List ConfigEntry) : DesiredConfig :=
  let entries := entries.insertionSort fun a b => a.name ≤ b.name
  ⟨entries, sha256 (entries.flatMap ConfigEntry.framed)⟩

def checkType (revision : Revision) : Except String Unit :=
  if isBlank revision.serviceName then
    .error "service_name is required: a Configuration is written for one Agent type (ADR-0026)"
  else .ok ()

def windowsReserved : List String :=
  ["con", "prn", "aux", "nul", "com1", "com2", "com3", "com4", "com5", "com6", "com7", "com8", "com9", "lpt1", "lpt2",
    "lpt3", "lpt4", "lpt5", "lpt6", "lpt7", "lpt8", "lpt9"]

def validateName (quote : String → String) (name : String) : Except String Unit :=
  if name = "" ∨ 32 < (utf8 name).length then .error "must be 1–32 characters"
  else if !name.toList.all fun c => c.isLower || c.isDigit || c = '-' then
    .error "only lowercase letters, digits, and '-' are allowed"
  else if name.toList.head? = some '-' ∨ name.toList.getLast? = some '-' then
    .error "must not start or end with '-'"
  else if name ∈ windowsReserved then .error s!"{quote name} is a reserved device name on Windows"
  else .ok ()

def noConfiguration (quote : String → String) (name : String) : String := s!"no configuration {quote name}"

structure FileIo where
  read : Except String Unit
  written : Except String Unit

def FileIo.ok : FileIo := ⟨.ok (), .ok ()⟩

abbrev Configurations := Map String Configuration

namespace Configurations

variable (configs : Configurations)

def revisionOf (name hash : String) : Option Revision :=
  (configs.lookup name).bind fun config => config.retained.lookup hash

def setSaved (name : String) (revision : Revision) : Configurations :=
  configs.insert name
    (match configs.lookup name with
    | some existing => { existing with saved := revision }
    | none => ⟨name, revision, ∅⟩)

def setRetained (name : String) (change : Map String Revision → Map String Revision) : Configurations :=
  match configs.lookup name with
  | some config => configs.insert name { config with retained := change config.retained }
  | none => configs

def addPinned (pinned : Pinned) : Configurations :=
  configs.setRetained pinned.configuration fun retained => retained.insert pinned.hash pinned.revision

end Configurations

open Configurations

def save (files : Configurations) (io : FileIo) (name : String) (revision : Revision) :
    Except String Configurations := do
  io.read
  io.written
  return files.setSaved name revision

/-- `fs::configs::retain`: one retained revision added to its file; one that is there already is not written. -/
def retain (quote : String → String) (files : Configurations) (io : FileIo) (pinned : Pinned) :
    Except String Configurations := do
  io.read
  if (files.lookup pinned.configuration).isNone then .error (noConfiguration quote pinned.configuration)
  else if files.revisionOf pinned.configuration pinned.hash = some pinned.revision then .ok files
  else do
    io.written
    return files.addPinned pinned

/-- `FsConfigBackend::collect`: the file without the revisions that `referenced` does not name, and those it keeps. -/
def collect (files : Configurations) (io : FileIo) (name : String) (referenced : List String) :
    Except String (Configurations × Map String Revision) := do
  io.read
  match files.lookup name with
  | none => return (files, ∅)
  | some config =>
    if config.retained.keys.all referenced.contains then .ok (files, config.retained)
    else do
      io.written
      let kept := Map.filter config.retained fun hash _ => referenced.contains hash
      return (files.setRetained name fun _ => kept, kept)

structure ConfigStore where
  configs : Configurations
  files : Configurations

namespace ConfigStore

def putSaved (quote : String → String) (store : ConfigStore) (io : FileIo) (name : String) (revision : Revision) :
    Except String ConfigStore := do
  (validateName quote name).mapError fun e => s!"invalid name {quote name}: {e}"
  if isBlank revision.body then .error "the configuration body is empty; refusing to store it"
  else do
    checkType revision
    let files ← save store.files io name revision
    return ⟨store.configs.setSaved name revision, files⟩

def pinnedOf (sha256 : Bytes → Bytes) (quote : String → String) (store : ConfigStore) (names : List String) :
    Except String (List Pinned) :=
  names.mapM fun name =>
    match store.configs.lookup name with
    | none => .error (noConfiguration quote name)
    | some existing => .ok ⟨name, revisionHash sha256 existing.saved, existing.saved⟩

variable (store : ConfigStore)

/-- The pinned revisions held, whether or not the rollout that pins them succeeded. -/
def holdPinned (pinned : List Pinned) : ConfigStore :=
  { store with configs := pinned.foldl addPinned store.configs }

def retainOnly (io : FileIo) (name : String) (referenced : List String) : Except String ConfigStore :=
  if (store.configs.lookup name).isNone then .ok store
  else (collect store.files io name referenced).map fun (files, kept) =>
    ⟨store.configs.setRetained name fun _ => kept, files⟩

/-- `delete`, on a store whose one Server asked before what the assignments pin. -/
def delete (io : FileIo) (name : String) : Except String (ConfigStore × Bool) :=
  if (store.configs.lookup name).isNone then .ok (store, false)
  else io.written.map fun () => (⟨store.configs.erase name, store.files.erase name⟩, true)

/-- One entry for each pair whose revision is retained; the others compose nothing. -/
def composedEntries (assignments : Map String String) : List ConfigEntry :=
  assignments.entries.filterMap fun pair =>
    (store.configs.revisionOf pair.1 pair.2).map fun revision => ⟨pair.1, revision.body, revision.role⟩

def compose (sha256 : Bytes → Bytes) (store : ConfigStore) (assignments : Map String String) : Option DesiredConfig :=
  let entries := store.composedEntries assignments
  if entries.isEmpty then none else some (DesiredConfig.new sha256 entries)

end ConfigStore

def Configurations.Holds (configs : Configurations) (name hash : String) : Prop := (configs.revisionOf name hash).isSome

section

variable (configs : Configurations)

lemma revisionOf_setSaved (name : String) (revision : Revision) (n h : String) :
    (configs.setSaved name revision).revisionOf n h = configs.revisionOf n h := by
  unfold revisionOf setSaved
  rw [lookup_insert_ite]
  split
  · subst n
    cases configs.lookup name <;> simp
  · rfl

lemma revisionOf_setRetained (name : String) (change : Map String Revision → Map String Revision) (n h : String) :
    (configs.setRetained name change).revisionOf n h =
      if n = name then (configs.lookup name).bind fun config => (change config.retained).lookup h
      else configs.revisionOf n h := by
  unfold revisionOf setRetained
  cases hc : configs.lookup name with
  | none =>
    by_cases hn : n = name
    · subst n
      simp [hc]
    · simp [hn]
  | some config =>
    simp only [lookup_insert_ite]
    split <;> rfl

private lemma isSome_lookup_setRetained (name : String) (change : Map String Revision → Map String Revision)
    (n : String) : ((configs.setRetained name change).lookup n).isSome = (configs.lookup n).isSome := by
  unfold setRetained
  cases hc : configs.lookup name with
  | none => rfl
  | some config =>
    simp only [lookup_insert_ite]
    split
    · subst n
      simp [hc]
    · rfl

end

variable {configs : Configurations} {quote : String → String} {io : FileIo} {store : ConfigStore}
  {sha256 : Bytes → Bytes} {pinned : List Pinned}

private lemma holds_addPinned {pinned : Pinned} {n h : String} : (configs.addPinned pinned).Holds n h ↔
      configs.Holds n h ∨ n = pinned.configuration ∧ h = pinned.hash ∧ (configs.lookup n).isSome := by
  unfold Holds addPinned
  rw [revisionOf_setRetained]
  split
  · subst n
    unfold revisionOf
    cases configs.lookup pinned.configuration with
    | none => simp
    | some config =>
      simp only [bind_some, lookup_insert_ite, isSome_some, and_true, true_and]
      split <;> simp_all
  · simp_all

lemma Configurations.Holds.foldl_addPinned {n h : String} (hold : configs.Holds n h)
    (pinned : List Pinned) : (pinned.foldl addPinned configs).Holds n h := by
  induction pinned generalizing configs with
  | nil => exact hold
  | cons p ps ih => exact ih (holds_addPinned.mpr (.inl hold))

lemma holds_foldl_addPinned_of_mem {p : Pinned} (hp : p ∈ pinned)
    (hc : (configs.lookup p.configuration).isSome) : (pinned.foldl addPinned configs).Holds p.configuration p.hash := by
  induction pinned generalizing configs with
  | nil => cases hp
  | cons q qs ih =>
    rcases mem_cons.mp hp with rfl | hp
    · exact (holds_addPinned.mpr (.inr ⟨rfl, rfl, hc⟩)).foldl_addPinned qs
    · refine ih hp ?_
      rwa [addPinned, isSome_lookup_setRetained]

/-- A retained revision is on disk, beside all that was there. -/
lemma holds_of_retain {files files' : Configurations} {pinned : Pinned}
    (h : retain quote files io pinned = .ok files') :
    files'.Holds pinned.configuration pinned.hash ∧ ∀ n h, files.Holds n h → files'.Holds n h := by
  obtain ⟨-, -, h⟩ := bind_eq_ok.mp h
  obtain ⟨hsome, h⟩ := ite_error_eq_ok.mp h
  split at h
  next hthere =>
    cases h
    exact ⟨by simp [Holds, hthere], fun n h hold => hold⟩
  · obtain ⟨-, -, h⟩ := bind_eq_ok.mp h
    cases h
    refine ⟨holds_addPinned.mpr (.inr ⟨rfl, rfl, ?_⟩), fun n h hold => holds_addPinned.mpr (.inl hold)⟩
    simpa [isSome_iff_ne_none] using hsome

/-- A collection drops only revisions of `name` that nothing references. -/
lemma holds_of_collect {files files' : Configurations} {kept : Map String Revision} {name : String}
    {referenced : List String} (h : collect files io name referenced = .ok (files', kept)) :
    (∀ n h, files.Holds n h → (n = name → h ∈ referenced) → files'.Holds n h) ∧
      ∀ h ∈ referenced, files.Holds name h → (kept.lookup h).isSome := by
  obtain ⟨-, -, h⟩ := bind_eq_ok.mp h
  cases hc : files.lookup name with
  | none =>
    rw [hc] at h
    cases h
    exact ⟨fun n h hold _ => hold, fun h _ hold => by simp [Holds, revisionOf, hc] at hold⟩
  | some config =>
    simp only [hc] at h
    split at h
    · cases h
      exact ⟨fun n h hold _ => hold, fun h _ hold => by simpa [Holds, revisionOf, hc] using hold⟩
    obtain ⟨-, -, h⟩ := bind_eq_ok.mp h
    cases h
    constructor
    · intro n h hold href
      unfold Holds
      rw [revisionOf_setRetained]
      split
      next hn =>
        subst n
        simpa [lookup_filter, hc, href rfl, Holds, revisionOf] using hold
      · exact hold
    · intro h href hold
      simpa [lookup_filter, href, Holds, revisionOf, hc] using hold

lemma putSaved_eq_ok {store' : ConfigStore} {name : String}
    {revision : Revision} (h : store.putSaved quote io name revision = .ok store') :
    store' = ⟨store.configs.setSaved name revision, store.files.setSaved name revision⟩ := by
  obtain ⟨-, -, h⟩ := bind_eq_ok.mp h
  obtain ⟨-, h⟩ := ite_error_eq_ok.mp h
  obtain ⟨-, -, h⟩ := bind_eq_ok.mp h
  obtain ⟨files, hf, h⟩ := bind_eq_ok.mp h
  obtain ⟨-, -, hf⟩ := bind_eq_ok.mp hf
  obtain ⟨-, -, hf⟩ := bind_eq_ok.mp hf
  cases hf
  cases h
  rfl

/-- One saved revision is pinned for each name. -/
lemma pinnedOf_eq_ok {names : List String} (h : store.pinnedOf sha256 quote names = .ok pinned) :
    (∀ name ∈ names, ∃ p ∈ pinned, p.configuration = name) ∧
      ∀ p ∈ pinned, ∃ existing, store.configs.lookup p.configuration = some existing ∧ p.revision = existing.saved ∧
        p.hash = revisionHash sha256 existing.saved := by
  induction names generalizing pinned with
  | nil =>
    cases h
    simp
  | cons name names ih =>
    unfold ConfigStore.pinnedOf at h ih
    rw [mapM_cons] at h
    obtain ⟨p, hp, h⟩ := bind_eq_ok.mp h
    obtain ⟨ps, hps, h⟩ := bind_eq_ok.mp h
    cases h
    cases hc : store.configs.lookup name with
    | none =>
      simp [hc] at hp
    | some existing =>
      simp only [hc] at hp
      cases hp
      obtain ⟨hnames, hheld⟩ := ih hps
      constructor
      · intro n hn
        rcases mem_cons.mp hn with rfl | hn
        · exact ⟨_, mem_cons_self, rfl⟩
        · obtain ⟨q, hq, he⟩ := hnames n hn
          exact ⟨q, mem_cons_of_mem _ hq, he⟩
      · intro q hq
        rcases mem_cons.mp hq with rfl | hq
        · exact ⟨existing, hc, rfl, rfl⟩
        · exact hheld q hq

/-- Where every assigned revision is held, each is composed. -/
lemma compose_names {assignments : Map String String}
    (h : ∀ name hash, assignments.lookup name = some hash → store.configs.Holds name hash) :
    (((store.compose sha256 assignments).elim [] DesiredConfig.entries).map ConfigEntry.name).Perm
      assignments.keys := by
  have hnames : (store.composedEntries assignments).map ConfigEntry.name = assignments.keys := by
    have hpairs : ∀ pair ∈ assignments.entries, (store.configs.revisionOf pair.1 pair.2).isSome :=
      fun pair hp => h pair.1 pair.2 (AList.mem_lookup_iff.mpr hp)
    unfold ConfigStore.composedEntries AList.keys List.keys
    generalize assignments.entries = pairs at hpairs
    induction pairs with
    | nil => rfl
    | cons pair pairs ih =>
      obtain ⟨revision, hr⟩ := isSome_iff_exists.mp (hpairs pair (by simp))
      simpa [hr] using ih fun p hp => hpairs p (by simp [hp])
  unfold ConfigStore.compose
  rw [← hnames]
  cases he : store.composedEntries assignments with
  | nil => simp
  | cons entry entries => exact (perm_insertionSort _ _).map _

end OpampFleet.Server
