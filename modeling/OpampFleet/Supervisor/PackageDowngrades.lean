import OpampFleet.Supervisor.PackageOffers

/-!
# No install goes back

An offer is held against what is installed and against the high-water mark as it arrives; what is still on its way then
is in neither. So the versions installed go up, and stay at or above the mark, in every run in which no offer precedes
a package that is still on its way (`NoOvertaking`).
-/

namespace OpampFleet.Supervisor.Agent

open Lib Core Core.Version List Option

variable {version : String} {agentType : String}

private lemma mem_mark_raise {h : HighWater} {key m : String}
    (hm : m ∈ ((h.raise agentType version).mark key).toOption.join) :
    m ∈ (h.mark key).toOption.join ∨ key = agentType ∧ m = version := by
  unfold HighWater.raise at hm
  split at hm
  · exact .inl hm
  rename_i marks hmarks
  split at hm
  · unfold HighWater.mark at hm ⊢
    simp only [Except.map, Except.toOption, join_some, Map.lookup_insert_ite] at hm
    split at hm
    next hkey =>
      exact .inr ⟨hkey, (Option.some.inj hm).symm⟩
    · left
      rwa [hmarks]
  · exact .inl hm

namespace Local

variable {l : Local} {m current name : String} {quote : String → String} {download : PackageDownload}
    {available : PackageAvailable}

private lemma mem_knownMark_raiseMark (hm : m ∈ (l.raiseMark agentType version).knownMark) :
    m ∈ l.knownMark ∨ l.serviceName = agentType ∧ m = version := by
  unfold knownMark raiseMark mark at *
  cases hwater : l.highWater with
  | none => simp [hwater, Except.toOption] at hm
  | some water =>
    simp only [hwater, map_some] at hm ⊢
    exact mem_mark_raise hm

private lemma isSemver_knownMark (hm : m ∈ l.knownMark) : isSemver m = true := by
  unfold knownMark mark at hm
  cases hwater : l.highWater with
  | none => simp [hwater, Except.toOption] at hm
  | some water =>
    simp only [hwater, HighWater.mark] at hm
    cases hmarks : water.marks with
    | error e => simp [hmarks, Except.map, Except.toOption] at hm
    | ok marks =>
      rw [hmarks] at hm
      exact water.semver marks hmarks l.serviceName m hm

namespace SameBounds

variable {l l' : Local}

private lemma knownMark (h : SameBounds l l') : l'.knownMark = l.knownMark := by
  unfold Local.knownMark mark
  rw [h.highWater, h.service]

private lemma trans {l'' : Local} (h : SameBounds l l') (h' : SameBounds l' l'') : SameBounds l l'' :=
  ⟨h'.expected.trans h.expected, h'.installed.trans h.installed, h'.highWater.trans h.highWater,
    h'.service.trans h.service⟩

lemma handlePackageOffer (quote : String → String) (current : String) (l : Local) (offer : PackagesAvailable) :
    SameBounds l (l.handlePackageOffer quote current offer).1 := by
  unfold Local.handlePackageOffer
  split
  · exact ⟨rfl, rfl, rfl, rfl⟩
  · simp only
    split <;> exact ⟨rfl, rfl, rfl, rfl⟩

private lemma packageApplied (l : Local) (hash : Bytes) (error : String) :
    SameBounds l (l.packageApplied hash (.error error)) :=
  ⟨rfl, rfl, rfl, rfl⟩

end SameBounds

private lemma take_of_handlePackageOffer {offer : PackagesAvailable}
    (h : (l.handlePackageOffer quote current offer).2 = some download) :
    ∃ name available, l.judge quote current offer = .take name available download := by
  unfold handlePackageOffer at h
  split at h
  · cases h
  simp only at h
  split at h
  case h_7 name available taken hjudge =>
    cases h
    exact ⟨name, available, hjudge⟩
  all_goals cases h

private lemma expectedPackage_packageApplied (l : Local) (hash : Bytes) (result : Except String String) :
    (l.packageApplied hash result).expectedPackage = l.expectedPackage := by
  unfold packageApplied
  cases result with
  | error e => rfl
  | ok version =>
    simp only
    split <;> rfl

private lemma mem_knownMark_packageApplied {hash : Bytes}
    (hm : m ∈ (l.packageApplied hash (.ok version)).knownMark) : m ∈ l.knownMark ∨ m = version := by
  unfold packageApplied at hm
  simp only at hm
  split at hm
  · exact (mem_knownMark_raiseMark hm).imp_right And.right
  · exact .inl hm

private lemma settles_of_supervisorRefusal {verdict : Verdict}
    (h : l.supervisorRefusal quote current name available = some verdict) : verdict.settles = true := by
  unfold supervisorRefusal at h
  split at h
  · cases h
    rfl
  split at h
  · cases h
    rfl
  split at h
  · cases h
    rfl
  split at h
  · cases h
    rfl
  split at h
  · cases h
    rfl
  · obtain ⟨reason, -, rfl⟩ := map_eq_some_iff.mp h
    rfl

private lemma bounds_of_supervisorRefusal (h : l.supervisorRefusal quote current name available = none) :
    isSemver available.version = true ∧
      (∀ p ∈ l.installedPackage, precedence available.version p.version ≠ some .lt) ∧
      ∀ m ∈ l.knownMark, precedence available.version m ≠ some .lt := by
  unfold supervisorRefusal at h
  unfold knownMark
  cases hmark : l.mark with
  | error reason =>
    simp [hmark] at h
  | ok mark =>
    rw [hmark] at h
    simp only at h
    split at h
    · cases h
    split at h
    · cases h
    rename_i hsemver
    split at h
    · cases h
    rename_i hinstalled
    split at h
    · cases h
    next hbelow =>
      refine ⟨by simpa using hsemver, fun p hp => ?_, fun m hm => ?_⟩
      · simpa using filter_eq_none_iff.mp hinstalled p hp
      · simpa using filter_eq_none_iff.mp hbelow m hm

private lemma take_of_judgeUsable {name' : String} {available' : PackageAvailable}
    (h : l.judgeUsable current name available = .take name' available' download) :
    download.version = available.version := by
  unfold judgeUsable at h
  split at h
  · cases h
  split at h
  · cases h
  · split at h
    · cases h
    · cases h
      rfl

private lemma take_spec {offer : PackagesAvailable} (hexpected : l.expectedPackage = none)
    (h : l.judge quote current offer = .take name available download) :
    (∃ package ∈ offer.topLevel, download.version = package.2.version) ∧ isSemver download.version = true ∧
      (∀ p ∈ l.installedPackage, precedence download.version p.version ≠ some .lt) ∧
      ∀ m ∈ l.knownMark, precedence download.version m ≠ some .lt := by
  unfold judge at h
  split at h
  · split at h <;> cases h
  · cases h
  next offeredName offered htop =>
    simp only [hexpected] at h
    cases hrefusal : l.supervisorRefusal quote current offeredName offered with
    | some verdict =>
      rw [hrefusal] at h
      have hsettles := settles_of_supervisorRefusal hrefusal
      rw [show verdict = _ from h] at hsettles
      cases hsettles
    | none =>
      rw [hrefusal] at h
      rw [take_of_judgeUsable h]
      refine ⟨⟨(offeredName, offered), ?_, rfl⟩, bounds_of_supervisorRefusal hrefusal⟩
      rw [htop]
      exact mem_singleton_self _

end Local

namespace Channel

structure Ascending (s : Channel) : Prop where
  supervisor : s.agent.expectedPackage = none
  installed : ∀ p ∈ s.agent.installedPackage, isSemver p.version = true ∧
    ∀ f ∈ s.flights, AtMost p.version f.download.version
  mark : ∀ m ∈ s.agent.knownMark, ∀ f ∈ s.flights, AtMost m f.download.version
  semver : ∀ f ∈ s.flights, isSemver f.download.version = true
  flights : s.flights.Pairwise fun f g => AtMost f.download.version g.download.version
  latest : ∀ i ∈ s.installs, ∃ p ∈ s.agent.installedPackage, AtMost i.version p.version
  installs : s.installs.Pairwise fun later earlier => AtMost earlier.version later.version
  marks : ∀ i ∈ s.installs, ∀ m ∈ i.mark, AtMost m i.version

/-- No offer precedes a package that is still on its way, and no other Supervisor of the type installs past one. -/
def NoOvertaking (s : Channel) : Act → Prop
  | .offer offer => ∀ package ∈ offer.topLevel, ∀ f ∈ s.flights,
      precedence package.2.version f.download.version ≠ some .lt
  | .raised agentType version => agentType = s.agent.serviceName → ∀ f ∈ s.flights,
      precedence f.download.version version ≠ some .lt
  | _ => True

instance (s : Channel) (act : Act) : Decidable (s.NoOvertaking act) := by
  cases act <;> unfold NoOvertaking <;> infer_instance

namespace Ascending

variable {s t : Channel}

private lemma of_sublist (h : s.Ascending) (hsame : s.agent.SameBounds t.agent) (hinstalls : t.installs = s.installs)
    (hflights : t.flights.Sublist s.flights) : t.Ascending where
  supervisor := hsame.expected.trans h.supervisor
  installed p hp := by
    rw [hsame.installed] at hp
    exact ⟨(h.installed p hp).1, fun f hf => (h.installed p hp).2 f (hflights.subset hf)⟩
  mark m hm f hf := by
    rw [hsame.knownMark] at hm
    exact h.mark m hm f (hflights.subset hf)
  semver f hf := h.semver f (hflights.subset hf)
  flights := h.flights.sublist hflights
  latest i hi := by
    rw [hinstalls] at hi
    rw [hsame.installed]
    exact h.latest i hi
  installs := hinstalls ▸ h.installs
  marks i hi := h.marks i (hinstalls ▸ hi)

private lemma failed (h : s.Ascending) (flight : Flight) (error : String) :
    (s.applied flight (.error error)).Ascending :=
  h.of_sublist (.packageApplied s.agent flight.download.hash error) rfl (List.Sublist.refl _)

private lemma append (h : s.Ascending) (hsame : s.agent.SameBounds t.agent) (hinstalls : t.installs = s.installs)
    {new : Flight} (hflights : t.flights = s.flights ++ [new]) (hsemver : isSemver new.download.version = true)
    (hinstalled : ∀ p ∈ s.agent.installedPackage, precedence new.download.version p.version ≠ some .lt)
    (hmark : ∀ m ∈ s.agent.knownMark, precedence new.download.version m ≠ some .lt)
    (hahead : ∀ f ∈ s.flights, precedence new.download.version f.download.version ≠ some .lt) : t.Ascending where
  supervisor := hsame.expected.trans h.supervisor
  installed p hp := by
    rw [hsame.installed] at hp
    rw [hflights, forall_mem_append, forall_mem_singleton]
    exact ⟨(h.installed p hp).1, (h.installed p hp).2, atMost_of_not_lt (h.installed p hp).1 hsemver (hinstalled p hp)⟩
  mark m hm := by
    rw [hsame.knownMark] at hm
    rw [hflights, forall_mem_append, forall_mem_singleton]
    exact ⟨h.mark m hm, atMost_of_not_lt (Local.isSemver_knownMark hm) hsemver (hmark m hm)⟩
  semver := by
    rw [hflights, forall_mem_append, forall_mem_singleton]
    exact ⟨h.semver, hsemver⟩
  flights := by
    rw [hflights, pairwise_append]
    refine ⟨h.flights, pairwise_singleton _ _, fun f hf g hg => ?_⟩
    rw [mem_singleton.mp hg]
    exact atMost_of_not_lt (h.semver f hf) hsemver (hahead f hf)
  latest i hi := by
    rw [hinstalls] at hi
    rw [hsame.installed]
    exact h.latest i hi
  installs := hinstalls ▸ h.installs
  marks i hi := h.marks i (hinstalls ▸ hi)

private lemma receive (h : s.Ascending) (quote : String → String) (current : String) {offer : PackagesAvailable}
    (hok : s.NoOvertaking (.offer offer)) : (s.receive quote current offer).Ascending := by
  unfold Channel.receive
  split
  · exact h
  simp only
  have hsame := Local.SameBounds.handlePackageOffer quote current s.agent offer
  cases hdownload : (s.agent.handlePackageOffer quote current offer).2 with
  | none =>
    refine h.of_sublist hsame rfl ?_
    simp [Channel.flights]
  | some download =>
    obtain ⟨name, available, hjudge⟩ := Local.take_of_handlePackageOffer hdownload
    obtain ⟨⟨package, hpackage, hversion⟩, hsemver, hinstalled, hmark⟩ := Local.take_spec h.supervisor hjudge
    have hahead : ∀ f ∈ s.flights, precedence download.version f.download.version ≠ some .lt := by
      rw [hversion]
      exact hok package hpackage
    refine @append s _ h hsame rfl ⟨s.taken + 1, download⟩ ?_ hsemver hinstalled hmark hahead
    simp [Channel.flights]

private lemma holdOne_spec (quote : String → String) (s : Channel) (flight : Flight) :
    s.agent.SameBounds (s.holdOne quote flight).agent ∧ (s.holdOne quote flight).installs = s.installs ∧
      (s.holdOne quote flight).handed = s.handed ∧
      ∃ kept, (s.holdOne quote flight).pending = s.pending ++ kept ∧ kept.Sublist [flight] := by
  unfold Channel.holdOne
  split
  next reason hreason =>
    exact ⟨.packageApplied s.agent flight.download.hash reason, rfl, rfl, [], (append_nil _).symm, nil_sublist _⟩
  · exact ⟨⟨rfl, rfl, rfl, rfl⟩, rfl, rfl, [flight], rfl, List.Sublist.refl _⟩

lemma foldl_holdOne (quote : String → String) (flights : List Flight) (s : Channel) :
    let t := flights.foldl (fun s flight => s.holdOne quote flight) s
    s.agent.SameBounds t.agent ∧ t.installs = s.installs ∧ t.handed = s.handed ∧
      ∃ kept, t.pending = s.pending ++ kept ∧ kept.Sublist flights := by
  induction flights generalizing s with
  | nil => exact ⟨⟨rfl, rfl, rfl, rfl⟩, rfl, rfl, [], by simp, List.Sublist.refl _⟩
  | cons flight rest ih =>
    obtain ⟨hsame, hinstalls, hhanded, first, hpending, hfirst⟩ := holdOne_spec quote s flight
    obtain ⟨hsame', hinstalls', hhanded', kept, hpending', hkept⟩ := ih (s.holdOne quote flight)
    refine ⟨hsame.trans hsame', hinstalls'.trans hinstalls, hhanded'.trans hhanded, first ++ kept, ?_,
      hfirst.append hkept⟩
    rw [foldl_cons, hpending', hpending, append_assoc]

lemma holdDownloadsToFloors (h : s.Ascending) (quote : String → String) :
    (s.holdDownloadsToFloors quote).Ascending := by
  obtain ⟨hsame, hinstalls, hhanded, kept, hpending, hkept⟩ := foldl_holdOne quote s.pending { s with pending := [] }
  refine h.of_sublist hsame hinstalls ?_
  have hflights : (s.holdDownloadsToFloors quote).flights = s.handed ++ kept := by
    unfold Channel.flights Channel.holdDownloadsToFloors
    rw [hhanded, hpending]
    rfl
  rw [hflights]
  exact List.Sublist.append_left hkept s.handed

private lemma ended (h : s.Ascending) {flight : Flight} {rest : List Flight} (hhanded : s.handed = flight :: rest) :
    ({ s with handed := rest }.applied flight (.ok flight.download.version)).Ascending := by
  have hflights : s.flights = flight :: (rest ++ s.pending) := by
    unfold Channel.flights
    rw [hhanded]
    rfl
  have hmem : flight ∈ s.flights := hflights ▸ mem_cons_self
  have hsemver := h.semver flight hmem
  obtain ⟨hafter, hrest⟩ := pairwise_cons.mp (hflights ▸ h.flights)
  have hkept : ∀ f ∈ rest ++ s.pending, f ∈ s.flights := fun f hf => hflights ▸ mem_cons_of_mem _ hf
  exact
    { supervisor := (Local.expectedPackage_packageApplied _ _ _).trans h.supervisor
      installed := by
        intro p hp
        cases hp
        exact ⟨hsemver, hafter⟩
      mark := by
        intro m hm f hf
        rcases Local.mem_knownMark_packageApplied hm with hm | rfl
        · exact h.mark m hm f (hkept f hf)
        · exact hafter f hf
      semver := fun f hf => h.semver f (hkept f hf)
      flights := hrest
      latest := by
        intro i hi
        refine ⟨_, rfl, ?_⟩
        rcases mem_cons.mp hi with rfl | hi
        · exact AtMost.refl hsemver
        · obtain ⟨p, hp, hle⟩ := h.latest i hi
          exact hle.trans ((h.installed p hp).2 flight hmem)
      installs := by
        refine pairwise_cons.mpr ⟨fun earlier hearlier => ?_, h.installs⟩
        obtain ⟨p, hp, hle⟩ := h.latest earlier hearlier
        exact hle.trans ((h.installed p hp).2 flight hmem)
      marks := by
        intro i hi m hm
        rcases mem_cons.mp hi with rfl | hi
        · exact h.mark m hm flight hmem
        · exact h.marks i hi m hm }

private lemma raised (h : s.Ascending) (hok : s.NoOvertaking (.raised agentType version)) :
    ({ s with agent := s.agent.raiseMark agentType version } : Channel).Ascending := by
  have hmark : ∀ m ∈ (s.agent.raiseMark agentType version).knownMark, ∀ f ∈ s.flights,
      AtMost m f.download.version := by
    intro m hm f hf
    have hsemver := Local.isSemver_knownMark hm
    rcases Local.mem_knownMark_raiseMark hm with hm | ⟨htype, rfl⟩
    · exact h.mark m hm f hf
    · exact atMost_of_not_lt hsemver (h.semver f hf) (hok htype.symm f hf)
  exact { h with mark := hmark }

/-- Every act in order keeps the versions ascending. -/
lemma step (h : s.Ascending) {quote : String → String} {current : String} {act : Act}
    (hok : s.NoOvertaking act) (hstep : s.step quote current act = some t) : t.Ascending := by
  have hpassed : ∀ {u : Channel}, s.Passes u → u.Ascending := fun hp =>
    h.of_sublist hp.agent.toSameBounds hp.installs hp.flights
  cases steps_of_step hstep with
  | offer offer => exact h.receive quote current hok
  | hold => exact h.holdDownloadsToFloors quote
  | raised agentType version => exact h.raised hok
  | passes passes => exact hpassed passes
  | failed error passes => exact (hpassed passes).failed _ error
  | installed handed => exact h.ended handed

end Ascending

def supervisor (serviceName : String) (highWater : Option HighWater) (floors : Option Floors)
    (record : Option InstalledPackage) : Channel :=
  start ((Local.new serviceName true highWater floors).acceptPackages record)

lemma ascending_supervisor (serviceName : String) (highWater : Option HighWater) (floors : Option Floors)
    (record : Option InstalledPackage) : (supervisor serviceName highWater floors record).Ascending := by
  have hagent : (supervisor serviceName highWater floors record).agent.expectedPackage = none ∧
      ∀ p ∈ (supervisor serviceName highWater floors record).agent.installedPackage, isSemver p.version = true := by
    show ((Local.new serviceName true highWater floors).acceptPackages record).expectedPackage = none ∧
      ∀ p ∈ ((Local.new serviceName true highWater floors).acceptPackages record).installedPackage, _
    cases record with
    | none => exact ⟨rfl, fun p hp => by cases hp⟩
    | some installed =>
      simp only [Local.acceptPackages, Local.new, if_true, Local.restoreSupervisorRecord]
      by_cases hsemver : isSemver installed.version = true
      · rw [if_pos hsemver]
        refine ⟨rfl, fun p hp => ?_⟩
        cases hp
        exact hsemver
      · rw [if_neg hsemver]
        exact ⟨rfl, fun p hp => by cases hp⟩
  have hnone : ∀ f, f ∉ (supervisor serviceName highWater floors record).flights := fun f hf => by cases hf
  exact
    { supervisor := hagent.1
      installed := fun p hp => ⟨hagent.2 p hp, fun f hf => (hnone f hf).elim⟩
      mark := fun m _ f hf => (hnone f hf).elim
      semver := fun f hf => (hnone f hf).elim
      flights := List.Pairwise.nil
      latest := fun i hi => by cases hi
      installs := List.Pairwise.nil
      marks := fun i hi => by cases hi }

/-- The versions installed go up, and each is at or above the mark it was installed over. -/
def NeverBack (s : Channel) : Prop :=
  (s.installs.Pairwise fun later earlier => AtMost earlier.version later.version) ∧
    ∀ i ∈ s.installs, ∀ m ∈ i.mark, AtMost m i.version

instance (s : Channel) : Decidable s.NeverBack := inferInstanceAs (Decidable (_ ∧ _))

/-- In every run in which nothing is offered that precedes a package still on its way to the Agent, and no other
Supervisor of its type installs past one, the versions installed never go back. -/
theorem never_back (quote : String → String) (current : String) {serviceName : String} {highWater : Option HighWater}
    {floors : Option Floors} {record : Option InstalledPackage} {s : Channel}
    (h : Reach (supervisor serviceName highWater floors record) (restrict NoOvertaking (step quote current)) s) :
    s.NeverBack := by
  have hascending : s.Ascending := by
    exact h.invariant_restrict (ascending_supervisor serviceName highWater floors record)
      fun _ _ _ hs hok hstep => hs.step hok hstep
  exact ⟨hascending.installs, hascending.marks⟩

namespace Small

def offer (version : String) (hash : UInt8) : PackagesAvailable where
  packages := [("p", { type := .topLevel, version := version, file := some ⟨"/p", [], [], []⟩, hash := [hash] })]
  allPackagesHash := [0, hash]

def unmarked : HighWater := ⟨.ok ∅, fun m hm t v hv => by cases hm; cases hv⟩

def agent : Channel :=
  supervisor "p" (some unmarked) none (some ⟨"p", "1.0.0", "01"⟩)

/-- Two offers are taken and handed over before the first of them has ended. -/
def overlap (first second : String) : List Act :=
  [.offer (offer first 3), .downloaded .accepted, .offer (offer second 2), .downloaded .accepted, .ended none,
    .ended none]

end Small

/-- A newer version offered while the one before it is on its way: both are installed. -/
theorem never_back_of_newer : ∃ s, Reach Small.agent (restrict NoOvertaking (step (fun text => text) "0.1.0")) s ∧
      s.installs.map Install.version = ["3.0.0", "2.0.0"] ∧ s.NeverBack := by
  refine Reach.exists_of_run_imp (p := fun s => s.installs.map Install.version = ["3.0.0", "2.0.0"])
    (Small.overlap "2.0.0" "3.0.0") (by decide +kernel) ?_
  intro s hreach hinstalls
  exact ⟨hinstalls, never_back _ _ hreach⟩

/-- An older version offered while a newer one is on its way is installed over it, below the mark. -/
theorem older_installed_over_newer : ∃ s, Reach Small.agent (step (fun text => text) "0.1.0") s ∧
      s.installs.map Install.version = ["2.0.0", "3.0.0"] ∧ s.agent.knownMark = some "3.0.0" ∧ ¬s.NeverBack := by
  exact Reach.exists_of_run (Small.overlap "3.0.0" "2.0.0") (by decide +kernel)

end Channel

end OpampFleet.Supervisor.Agent
