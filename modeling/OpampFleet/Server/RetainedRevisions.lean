import OpampFleet.Server.Rollouts
import OpampFleet.Lib.Transition

/-!
# Pinned revisions are retained

What is held of an Agent, the assignments the store has noted and the retained revisions are three copies that a rollout
updates one after the other. The second decides what a collection drops, so a held assignment is safe while it is the
stored one (`Aligned`) and every stored pair is retained in memory and on disk (`Covers`).
-/

namespace OpampFleet.Server

open Lib List Option Map FsAgentStore

variable {υ ρ : Type} [DecidableEq υ]

def Aligned (held : Map υ (PersistedAgent ρ)) (agents : FsAgentStore υ ρ) : Prop :=
  ∀ uid record assignment, held.lookup uid = some record → record.assignment = some assignment →
    agents.assignments.lookup uid = some assignment

def Covers (configs : ConfigStore) (agents : FsAgentStore υ ρ) : Prop :=
  ∀ name hash, agents.References name hash → configs.configs.Holds name hash ∧ configs.files.Holds name hash

structure Fleet.Inv (s : Fleet υ ρ) : Prop where
  aligned : Aligned s.held s.agents
  covers : Covers s.configs s.agents

variable {configs : ConfigStore} {agents : FsAgentStore υ ρ} {name : String} {records : List (υ × PersistedAgent ρ)}
  {record : Option (PersistedAgent ρ)} {held : Map υ (PersistedAgent ρ)} {pinned : List Pinned}

private lemma Covers.write (h : Covers configs agents) (uid : υ)
    (hr : ∀ assignment, record.bind PersistedAgent.assignment = some assignment →
      ∃ other, agents.assignments.lookup other = some assignment) : Covers configs (agents.write uid record) := by
  intro name hash href
  rcases href.of_write with href | ⟨assignment, ha, hc⟩
  · exact h name hash href
  · obtain ⟨other, ho⟩ := hr assignment ha
    exact h name hash ⟨other, assignment, ho, hc⟩

private lemma Aligned.write {held' : Map υ (PersistedAgent ρ)} {uid : υ} (h : Aligned held agents)
    (hne : ∀ other, other ≠ uid → held'.lookup other = held.lookup other)
    (hself : ∀ r assignment, held'.lookup uid = some r → r.assignment = some assignment →
      record.bind PersistedAgent.assignment = some assignment) : Aligned held' (agents.write uid record) := by
  intro other r assignment hr ha
  rw [assignments_write]
  by_cases ho : other = uid
  · rw [if_pos ho]
    subst ho
    exact hself r assignment hr ha
  · rw [if_neg ho]
    rw [hne other ho] at hr
    exact h other r assignment hr ha

private lemma Covers.retainOnly {configs' : ConfigStore} {io : FileIo} (h : Covers configs agents)
    (hr : configs.retainOnly io name (agents.referencedRevisions name) = .ok configs') : Covers configs' agents := by
  unfold ConfigStore.retainOnly at hr
  split at hr
  · cases hr
    exact h
  rename_i hheld
  cases hc : collect configs.files io name (agents.referencedRevisions name) with
  | error e =>
    rw [hc] at hr
    cases hr
  | ok collected =>
    obtain ⟨files, kept⟩ := collected
    rw [hc] at hr
    cases hr
    obtain ⟨hfiles, hkept⟩ := holds_of_collect hc
    intro n hash href
    obtain ⟨hconfigs, hold⟩ := h n hash href
    constructor
    · unfold Configurations.Holds
      rw [revisionOf_setRetained]
      split
      next hn =>
        subst n
        obtain ⟨config, hconfig⟩ := ne_none_iff_exists'.mp (by simpa using hheld)
        rw [hconfig]
        exact hkept hash (mem_referencedRevisions.mpr href) hold
      · exact hconfigs
    · refine hfiles n hash hold ?_
      rintro rfl
      exact mem_referencedRevisions.mpr href

private lemma Covers.collectAll (h : Covers configs agents)
    (names : List String) (ios : List FileIo) : Covers (collectAll agents configs names ios) agents := by
  induction names generalizing configs ios with
  | nil => exact h
  | cons name names ih =>
    unfold Server.collectAll
    split
    next hr =>
      exact ih (h.retainOnly hr) _
    · exact ih h _

private lemma Fleet.Inv.collectRevisions {s : Fleet υ ρ} (h : s.Inv) (names : List String) (ios : List FileIo) :
    (s.collectRevisions names ios).Inv :=
  ⟨h.aligned, h.covers.collectAll _ _⟩

private lemma retainAll_mono (quote : String → String) (files : Configurations) (pinned : List Pinned)
    (ios : List FileIo) {n hash : String} (h : files.Holds n hash) :
    (retainAll quote files pinned ios).1.Holds n hash := by
  induction pinned generalizing files ios with
  | nil => exact h
  | cons p ps ih =>
    unfold retainAll
    split
    · exact h
    next hr =>
      exact ih _ _ ((holds_of_retain hr).2 n hash h)

private lemma retainAll_ok {quote : String → String} {files : Configurations}
    {ios : List FileIo} (h : (retainAll quote files pinned ios).2 = .ok ()) {p : Pinned} (hp : p ∈ pinned) :
    (retainAll quote files pinned ios).1.Holds p.configuration p.hash := by
  induction pinned generalizing files ios with
  | nil => cases hp
  | cons q qs ih =>
    cases hr : retain quote files (ios.headD .ok) q with
    | error e =>
      simp only [retainAll, hr] at h
      cases h
    | ok files' =>
      simp only [retainAll, hr] at h ⊢
      rcases mem_cons.mp hp with rfl | hp
      · exact retainAll_mono quote files' qs _ (holds_of_retain hr).1
      · exact ih h hp

private lemma references_foldl_put
    {hash : String} (h : (records.foldl (fun store r => store.put r.1 r.2) agents).References name hash) :
    agents.References name hash ∨ ∃ r ∈ records, ∃ assignment, r.2.assignment = some assignment ∧
      assignment.configurations.lookup name = some hash := by
  induction records generalizing agents with
  | nil => exact .inl h
  | cons r rs ih =>
    rcases ih h with h | ⟨q, hq, rest⟩
    · rcases FsAgentStore.References.of_write h with h | ⟨assignment, ha, hc⟩
      · exact .inl h
      · exact .inr ⟨r, by simp, assignment, by simpa using ha, hc⟩
    · exact .inr ⟨q, by simp [hq], rest⟩

private lemma Aligned.foldl (h : Aligned held agents) (records : List (υ × PersistedAgent ρ)) :
    Aligned (records.foldl Fleet.assign held) (records.foldl (fun store r => store.put r.1 r.2) agents) := by
  induction records generalizing held agents with
  | nil => exact h
  | cons r rs ih =>
    refine ih ?_
    intro uid record assignment hheld ha
    show (agents.write r.1 (some r.2)).assignments.lookup uid = some assignment
    rw [assignments_write]
    unfold Fleet.assign at hheld
    by_cases hu : uid = r.1
    · rw [if_pos hu]
      subst hu
      split at hheld
      · rw [AList.lookup_insert] at hheld
        cases hheld
        exact ha
      next hnone =>
        simp [hnone] at hheld
    · rw [if_neg hu]
      split at hheld
      · rw [AList.lookup_insert_ne hu] at hheld
        exact h uid record assignment hheld ha
      · exact h uid record assignment hheld ha

namespace Fleet

variable {s t : Fleet υ ρ} {io : RolloutIo} {sha256 : Bytes → Bytes} {quote : String → String}

/-- Whatever fails, the store of a release covers what it wrote; what is held follows when it succeeds. -/
private lemma Inv.release (quote : String → String) (h : Inv s) (hback : ∀ b ∈ io.putBacks, b = true)
    (hheld : ∀ p ∈ pinned, (s.configs.configs.lookup p.configuration).isSome)
    (hrecords : ∀ r ∈ records, ∀ assignment, r.2.assignment = some assignment → ∀ name hash,
      assignment.configurations.lookup name = some hash → ∃ p ∈ pinned, p.configuration = name ∧ p.hash = hash) :
    let t := (s.release quote pinned records io).1
    Covers (t.configs.holdPinned pinned) t.agents ∧
      match (s.release quote pinned records io).2 with
      | .ok _ => Aligned (records.foldl assign t.held) t.agents
      | .error _ => Aligned t.held t.agents := by
  -- what was retained stays so, in memory and on disk, whatever fails
  have hconfigs : ∀ n hash, s.agents.References n hash →
      (pinned.foldl Configurations.addPinned s.configs.configs).Holds n hash :=
    fun n hash href => (h.covers n hash href).1.foldl_addPinned pinned
  have hfiles : ∀ n hash, s.agents.References n hash →
      (retainAll quote s.configs.files pinned io.retains).1.Holds n hash :=
    fun n hash href => retainAll_mono quote _ pinned _ (h.covers n hash href).2
  have hnew : (retainAll quote s.configs.files pinned io.retains).2 = .ok () → ∀ p ∈ pinned,
      (retainAll quote s.configs.files pinned io.retains).1.Holds p.configuration p.hash :=
    fun hok p hp => retainAll_ok hok hp
  unfold Fleet.release
  generalize retainAll quote s.configs.files pinned io.retains = retained at hfiles hnew ⊢
  obtain ⟨files, result⟩ := retained
  cases result with
  | error e => exact ⟨fun n hash href => ⟨hconfigs n hash href, hfiles n hash href⟩, h.aligned⟩
  | ok u =>
    simp only
    cases hw : (s.agents.releaseRecords [] records io.puts io.putBacks).2 with
    | error e =>
      have hsame := releaseRecords_error s.agents (fun _ => rfl) hback hw
      refine ⟨fun n hash href => ?_, fun uid record assignment hr ha => ?_⟩
      · exact ⟨hconfigs n hash (hsame.references href), hfiles n hash (hsame.references href)⟩
      · rw [hsame.assignments uid]
        exact h.aligned uid record assignment hr ha
    | ok uids =>
      rw [releaseRecords_ok hw]
      refine ⟨fun n hash href => ?_, h.aligned.foldl records⟩
      rcases references_foldl_put href with href | ⟨r, hr, assignment, ha, hc⟩
      · exact ⟨hconfigs n hash href, hfiles n hash href⟩
      · obtain ⟨p, hp, rfl, rfl⟩ := hrecords r hr assignment ha n hash hc
        exact ⟨holds_foldl_addPinned_of_mem hp (hheld p hp), hnew rfl p hp⟩

section

variable (h : Inv s)
include h

private lemma Inv.writeReleases {releases : List (υ × PersistedAgent ρ × Option Assignment)}
    (hback : ∀ b ∈ io.putBacks, b = true) : Inv (s.writeReleases sha256 quote releases io).1 := by
  unfold Fleet.writeReleases
  simp only
  split
  · exact h.collectRevisions _ _
  rename_i pinned hp
  obtain ⟨hnames, hsaved⟩ := pinnedOf_eq_ok hp
  have hheld : ∀ p ∈ pinned, (s.configs.configs.lookup p.configuration).isSome := by
    intro p hp
    obtain ⟨existing, hc, -⟩ := hsaved p hp
    exact isSome_iff_exists.mpr ⟨existing, hc⟩
  have hpairs : ∀ r ∈ releases.map (released pinned), ∀ assignment, r.2.assignment = some assignment →
      ∀ name hash, assignment.configurations.lookup name = some hash →
        ∃ p ∈ pinned, p.configuration = name ∧ p.hash = hash := by
    intro r hr assignment ha name hash hc
    obtain ⟨release, hmem, rfl⟩ := List.mem_map.mp hr
    obtain ⟨a, hsome, rfl⟩ := map_eq_some_iff.mp ha
    have hpinned : ∀ n, a.configurations.lookup n ≠ none → ∃ p ∈ pinned, p.configuration = n := by
      intro n hn
      refine hnames n ?_
      rw [mem_nameSet, mem_flatMap]
      refine ⟨release, hmem, ?_⟩
      rw [hsome]
      exact AList.lookup_isSome.mp (isSome_iff_ne_none.mpr hn)
    obtain ⟨p, hp, hname, hhash⟩ := lookup_pinnedAt hpinned hc
    exact ⟨p, mem_of_find?_eq_some hp, hname, hhash⟩
  obtain ⟨hcovers, haligned⟩ := h.release quote hback hheld hpairs
  generalize Fleet.release quote s pinned (releases.map (released pinned)) io = result at hcovers haligned ⊢
  obtain ⟨t, wrote⟩ := result
  cases wrote with
  | error e =>
    have hinv : Inv { t with configs := t.configs.holdPinned pinned } := ⟨haligned, hcovers⟩
    exact hinv.collectRevisions _ _
  | ok uids => exact ⟨haligned, hcovers⟩

private lemma Inv.rollout {releases : List (υ × Option Assignment)} (hback : ∀ b ∈ io.putBacks, b = true) :
    Inv (s.rollout sha256 quote releases io) := by
  unfold Fleet.rollout
  simp only
  generalize releases.filterMap _ = bases
  have hw : Inv (s.writeReleases sha256 quote bases io).1 := h.writeReleases hback
  split
  next hs =>
    rwa [hs] at hw
  next hs =>
    rw [hs] at hw
    exact hw.collectRevisions _ _

private lemma Inv.saveConfiguration {revision : Revision}
    {io : FileIo} (hs : s.saveConfiguration quote name revision io = .ok t) : Inv t := by
  obtain ⟨configs, hc, rfl⟩ := map_eq_ok.mp hs
  refine ⟨h.aligned, fun n hash href => ?_⟩
  rw [putSaved_eq_ok hc]
  simp only [Configurations.Holds, revisionOf_setSaved]
  exact h.covers n hash href

private lemma Inv.deleteConfiguration {io : FileIo} (hs : s.deleteConfiguration quote name io = .ok t) : Inv t := by
  obtain ⟨hpin, hs⟩ := ite_error_eq_ok.mp hs
  obtain ⟨deleted, hd, rfl⟩ := map_eq_ok.mp hs
  unfold ConfigStore.delete at hd
  split at hd
  · cases hd
    exact h
  obtain ⟨-, -, rfl⟩ := map_eq_ok.mp hd
  refine ⟨h.aligned, fun n hash href => ?_⟩
  -- a pair of a stored assignment is of another Configuration
  have hne : n ≠ name := by
    rintro rfl
    obtain ⟨uid, assignment, ha, hc⟩ := href
    refine hpin (Map.countP_pos_iff.mpr ⟨uid, assignment, ha, ?_⟩)
    simp [Pin.pinnedBy, hc]
  simp only [Configurations.Holds, Configurations.revisionOf, AList.lookup_erase_ne hne]
  exact h.covers n hash href

private lemma Inv.forgetAgent {uid : υ} {removed : Bool} {collects : List FileIo}
    (hs : s.forgetAgent uid removed collects = some t) : Inv t := by
  obtain ⟨record, -, rfl⟩ := map_eq_some_iff.mp hs
  suffices hinv : Inv
      { s with agents := if removed then s.agents.remove uid else s.agents, held := s.held.erase uid } from
    hinv.collectRevisions _ _
  cases removed with
  | true =>
    refine ⟨h.aligned.write (fun other ho => AList.lookup_erase_ne ho) ?_, h.covers.write uid (by simp)⟩
    intro r assignment hr
    simp [AList.lookup_erase] at hr
  | false =>
    refine ⟨fun other r assignment hr ha => ?_, h.covers⟩
    exact h.aligned other r assignment (lookup_of_erase hr) ha

private lemma Inv.rekey {old new : υ} {put removed : Bool} (hs : s.rekey old new put removed = some t) : Inv t := by
  unfold Fleet.rekey at hs
  split at hs
  next record hold hnew =>
    have hne : new ≠ old := (ne_of_lookup hold hnew).symm
    -- the record stored under the new identity pins what the old one does
    have hput : Inv { s with agents := s.agents.put new record } := by
      refine ⟨h.aligned.write (fun _ _ => rfl) ?_, h.covers.write new fun assignment ha => ?_⟩
      · intro r assignment hr
        simp [hnew] at hr
      · exact ⟨old, h.aligned old record assignment hold ha⟩
    cases put with
    | false =>
      cases hs
      exact h
    | true =>
      cases removed with
      | false =>
        cases hs
        exact hput
      | true =>
        cases hs
        refine ⟨?_, hput.covers.write old (by simp)⟩
        intro uid r assignment hr ha
        simp only [remove, put, if_true, assignments_write]
        rw [lookup_insert_ite] at hr
        by_cases hu : uid = new
        · subst hu
          rw [if_pos rfl] at hr
          cases hr
          rwa [if_neg hne, if_pos rfl]
        · rw [if_neg hu, lookup_erase_ite] at hr
          split at hr
          · cases hr
          next ho =>
            rw [if_neg ho, if_neg hu]
            exact h.aligned uid r assignment hr ha
  · cases hs

private lemma Inv.report (uid : υ) (rest : ρ) (written : Bool) : Inv (s.report uid rest written) := by
  have hassigned : ∀ assignment, (s.held.lookup uid).bind PersistedAgent.assignment = some assignment →
      s.agents.assignments.lookup uid = some assignment := by
    intro assignment ha
    obtain ⟨record, hr, ha⟩ := bind_eq_some_iff.mp ha
    exact h.aligned uid record assignment hr ha
  unfold Fleet.report
  cases written with
  | true =>
    refine ⟨h.aligned.write (fun other ho => AList.lookup_insert_ne ho) ?_, h.covers.write uid fun assignment ha => ?_⟩
    · intro r assignment hr ha
      rw [AList.lookup_insert] at hr
      cases hr
      exact ha
    · exact ⟨uid, hassigned assignment ha⟩
  | false =>
    refine ⟨fun other r assignment hr ha => ?_, h.covers⟩
    rcases lookup_of_insert hr with ⟨ho, rfl⟩ | hr
    · rw [ho]
      exact hassigned assignment ha
    · exact h.aligned other r assignment hr ha

private lemma Inv.restart : Inv s.restart := by
  suffices hinv : Inv { s with configs := { s.configs with configs := s.configs.files }, held := s.agents.files } from
    hinv.collectRevisions _ _
  refine ⟨fun uid record assignment hr ha => ?_, fun n hash href => ?_⟩
  · rwa [s.agents.agree, hr]
  · exact ⟨(h.covers n hash href).2, (h.covers n hash href).2⟩

end

def PutsBack (_ : Fleet υ ρ) : Act υ ρ → Prop
  | .rollout _ io => ∀ restored ∈ io.putBacks, restored = true
  | _ => True

instance (s : Fleet υ ρ) (a : Act υ ρ) : Decidable (PutsBack s a) := by
  cases a <;> unfold PutsBack <;> infer_instance

private lemma Inv.start : Inv (start : Fleet υ ρ) := by
  refine ⟨fun uid record assignment hr => ?_, fun n hash href => ?_⟩
  · cases hr
  · obtain ⟨uid, assignment, ha, -⟩ := href
    cases ha

private lemma toOption_getD {x : Except String (Fleet υ ρ)} (h : Inv s)
    (hx : ∀ t, x = .ok t → Inv t) : Inv (x.toOption.getD s) := by
  cases x with
  | error e => exact h
  | ok t => exact hx t rfl

private lemma Inv.step {a : Act υ ρ} (h : Inv s) (hok : PutsBack s a)
    (hs : s.step sha256 quote a = some t) : Inv t := by
  cases a with
  | saveConfiguration name revision io =>
    cases hs
    exact toOption_getD h fun t ht => h.saveConfiguration ht
  | rollout releases io =>
    cases hs
    exact h.rollout hok
  | deleteConfiguration name io =>
    cases hs
    exact toOption_getD h fun t ht => h.deleteConfiguration ht
  | forgetAgent uid removed collects => exact h.forgetAgent hs
  | rekey old new put removed => exact h.rekey hs
  | report uid rest written =>
    cases hs
    exact h.report uid rest written
  | restart =>
    cases hs
    exact h.restart

/-- In every run whose failed rollouts put back the records they wrote, each pair of a held assignment has its
revision retained, and the assignment composes to one entry for each pair. -/
theorem assigned_revisions_retained (sha256 : Bytes → Bytes) (quote : String → String) (s : Fleet υ ρ)
    (h : Reach start (restrict PutsBack (step sha256 quote)) s) (uid : υ) (record : PersistedAgent ρ)
    (assignment : Assignment) (hr : s.held.lookup uid = some record) (ha : record.assignment = some assignment) :
    (∀ name hash, assignment.configurations.lookup name = some hash →
        (s.configs.configs.revisionOf name hash).isSome) ∧
      (((s.configs.compose sha256 assignment.configurations).elim [] DesiredConfig.entries).map ConfigEntry.name).Perm
        assignment.configurations.keys := by
  have hinv : Inv s := by
    exact h.invariant_restrict Inv.start fun _ _ _ hi hok hs => hi.step hok hs
  have hretained : ∀ name hash, assignment.configurations.lookup name = some hash →
      s.configs.configs.Holds name hash := fun name hash hc =>
    (hinv.covers name hash ⟨uid, assignment, hinv.aligned uid record assignment hr ha, hc⟩).1
  exact ⟨hretained, compose_names hretained⟩

def baseRelease : Option Assignment := some ⟨"fleet", none, AList.singleton "base" ""⟩

def releaseActs : List (Act Nat Unit) :=
  [.report 0 () true, .report 1 () true, .saveConfiguration "base" ⟨"a", "", "otelcol"⟩ .ok,
    .rollout [(0, baseRelease)] ⟨[], [], [], []⟩]

def failedRolloutActs : List (Act Nat Unit) :=
  [.saveConfiguration "base" ⟨"b", "", "otelcol"⟩ .ok,
    .rollout [(0, baseRelease), (1, baseRelease)] ⟨[], [.ok (), .error "disk full"], [false], []⟩]

/-- A rollout that succeeds. -/
theorem assigned_revisions_retained_released : ∃ s : Fleet Nat Unit, ∃ record assignment,
    s.held.lookup 0 = some record ∧ record.assignment = some assignment ∧ assignment.configurations.keys = ["base"] ∧
      (((s.configs.compose id assignment.configurations).elim [] DesiredConfig.entries).map ConfigEntry.name).Perm
        assignment.configurations.keys := by
  have hs : run (restrict PutsBack (step id id)) start releaseActs = some _ := rfl
  exact ⟨_, _, _, rfl, rfl, rfl, (assigned_revisions_retained id id _ (Reach.refl.of_run hs) 0 _ _ rfl rfl).2⟩

/-- The held assignment still pins the old revision, which nothing stored references any more. -/
theorem assigned_revision_dropped : ∃ s : Fleet Nat Unit, Reach start (step id id) s ∧ ∃ record assignment hash,
    s.held.lookup 0 = some record ∧ record.assignment = some assignment ∧
      assignment.configurations.lookup "base" = some hash ∧ s.configs.configs.revisionOf "base" hash = none ∧
      s.configs.composedEntries assignment.configurations = [] := by
  have hs : run (step id id) start (releaseActs ++ failedRolloutActs) = some _ := rfl
  exact ⟨_, Reach.refl.of_run hs, _, _, _, rfl, rfl, rfl, rfl, rfl⟩

end Fleet

end OpampFleet.Server
