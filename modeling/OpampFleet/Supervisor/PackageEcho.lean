import OpampFleet.Supervisor.PackageOffers

/-!
# Which offer the reported aggregate hash is of

The Agent reports the aggregate hash of an offer to say that the offer is settled, and the Server stops offering it
again. An offer that is refused, empty or found installed is reported at once. The end of an install copies the hash
offered last, whichever offer the install was of: so the offer reported is settled in every run in which an install ends
only while the newest offer is settled or waits for it (`Awaited`).
-/

namespace OpampFleet.Supervisor.Agent

open Lib Core List

namespace Local

private lemma hashes_handlePackageOffer (quote : String → String) (current : String) {l : Local}
    (offer : PackagesAvailable) (haccepts : l.acceptsPackages = true) :
    (l.handlePackageOffer quote current offer).1.offeredAllPackagesHash = offer.allPackagesHash ∧
      (l.handlePackageOffer quote current offer).1.echoedAllPackagesHash =
        if (l.judge quote current offer).settles then offer.allPackagesHash else l.echoedAllPackagesHash := by
  unfold handlePackageOffer
  rw [haccepts]
  cases l.judge quote current offer <;> exact ⟨rfl, rfl⟩

private lemma hashes_packageApplied (l : Local) (hash : Bytes) (result : Except String String) :
    (l.packageApplied hash result).offeredAllPackagesHash = l.offeredAllPackagesHash ∧
      (l.packageApplied hash result).echoedAllPackagesHash = l.offeredAllPackagesHash := by
  unfold packageApplied
  cases result with
  | error e => exact ⟨rfl, rfl⟩
  | ok version =>
    simp only
    split <;> exact ⟨rfl, rfl⟩

end Local

private lemma mem_unreported {offers : List Offered} {o : Offered} (h : o ∈ unreported offers) :
    o.reported = false := by
  obtain ⟨before, -, rfl⟩ := mem_map.mp h
  rfl

namespace Channel

structure Tracks (s : Channel) : Prop where
  offered : s.agent.offeredAllPackagesHash = (s.offers.head?.map Offered.allPackagesHash).getD []
  echoed : ∀ o ∈ s.offers, o.reported = true → o.allPackagesHash = s.agent.echoedAllPackagesHash
  reports : s.agent.echoedAllPackagesHash ≠ [] → ∃ o ∈ s.offers, o.reported = true

structure Settled (s : Channel) : Prop extends Tracks s where
  settled : ∀ o ∈ s.offers, o.reported = true → o.settled = true

def Awaits (s : Channel) (due : List Nat) : Prop :=
  ∀ o ∈ s.offers.head?, o.settled = true ∨ ∃ n ∈ due, o.waitsFor = some n

structure Settling (s : Channel) (due : List Nat) : Prop extends Tracks s where
  older : ∀ o ∈ s.offers.tail, o.reported = true → o.settled = true
  newest : s.Awaits due

variable {s t : Channel}

private lemma Settled.settling (h : s.Settled) {due : List Nat} (hnewest : s.Awaits due) : s.Settling due :=
  ⟨h.toTracks, fun o ho => h.settled o (mem_of_mem_tail ho), hnewest⟩

private lemma Settling.settled (h : s.Settling []) : s.Settled := by
  refine ⟨h.toTracks, fun o ho hreported => ?_⟩
  cases hoffers : s.offers with
  | nil =>
    simp [hoffers] at ho
  | cons newest rest =>
    rw [hoffers] at ho
    rcases mem_cons.mp ho with rfl | ho
    · rcases h.newest o (by rw [hoffers]; rfl) with hsettled | ⟨n, hn, -⟩
      · exact hsettled
      · cases hn
    · exact h.older o (by rw [hoffers]; exact ho) hreported

variable {flight : Flight} {quote : String → String} (current serviceName : String) (highWater : Option HighWater)
  (floors : Option Floors) (record : Option InstalledPackage) (named : Option String)

private lemma Settling.applied {due : List Nat} (h : s.Settling (flight.serial :: due))
    (result : Except String String) : (s.applied flight result).Settling due := by
  have hhashes := s.agent.hashes_packageApplied flight.download.hash result
  cases hoffers : s.offers with
  | nil =>
    have hoffered := h.offered
    rw [hoffers] at hoffered
    have hnone : (s.applied flight result).offers = [] := by
      unfold Channel.applied
      rw [hoffers]
      rfl
    refine ⟨⟨?_, fun o ho => ?_, fun hne => ?_⟩, fun o ho => ?_, fun o ho => ?_⟩
    · rw [hnone]
      exact hhashes.1.trans hoffered
    · simp [hnone] at ho
    · exact (hne (hhashes.2.trans hoffered)).elim
    · simp [hnone] at ho
    · simp [hnone] at ho
  | cons newest rest =>
    have hoffered : s.agent.offeredAllPackagesHash = newest.allPackagesHash := by
      rw [h.offered, hoffers]
      rfl
    have hafter : (s.applied flight result).offers =
        { newest with settled := newest.settled || newest.waitsFor = some flight.serial, reported := true } ::
          unreported (settle flight.serial rest) := by
      unfold Channel.applied
      rw [hoffers]
      rfl
    refine ⟨⟨?_, fun o ho hreported => ?_, fun _ => ?_⟩, fun o ho hreported => ?_, fun o ho => ?_⟩
    · rw [hafter]
      exact hhashes.1.trans hoffered
    · rw [hafter] at ho
      rcases mem_cons.mp ho with rfl | ho
      · exact (hhashes.2.trans hoffered).symm
      · simp [mem_unreported ho] at hreported
    · rw [hafter]
      exact ⟨_, mem_cons_self, rfl⟩
    · rw [hafter] at ho
      simp [mem_unreported ho] at hreported
    · rw [hafter] at ho
      cases ho
      rcases h.newest newest (by rw [hoffers]; rfl) with hsettled | ⟨n, hn, hwaits⟩
      · left
        simp [hsettled]
      · rcases mem_cons.mp hn with rfl | hn
        · left
          simp [hwaits]
        · exact .inr ⟨n, hn, hwaits⟩

private lemma Settled.of_same (h : s.Settled) (hoffers : t.offers = s.offers)
    (hoffered : t.agent.offeredAllPackagesHash = s.agent.offeredAllPackagesHash)
    (hechoed : t.agent.echoedAllPackagesHash = s.agent.echoedAllPackagesHash) : t.Settled := by
  refine ⟨⟨?_, ?_, ?_⟩, ?_⟩
  · rw [hoffered, hoffers]
    exact h.offered
  · rw [hoffers, hechoed]
    exact h.echoed
  · rw [hoffers, hechoed]
    exact h.reports
  · rw [hoffers]
    exact h.settled

private lemma Settled.receive (h : s.Settled) (quote : String → String) (current : String) (offer : PackagesAvailable) :
    (s.receive quote current offer).Settled := by
  unfold Channel.receive
  cases haccepts : s.agent.acceptsPackages with
  | false => exact h
  | true =>
    simp only [Bool.not_true, Bool.false_eq_true, if_false]
    obtain ⟨hoffered, hechoed⟩ := Local.hashes_handlePackageOffer quote current offer haccepts
    cases hsettles : (s.agent.judge quote current offer).settles with
    | true =>
      rw [hsettles, if_pos rfl] at hechoed
      refine ⟨⟨hoffered, fun o ho hreported => ?_, fun _ => ⟨_, mem_cons_self, rfl⟩⟩, fun o ho hreported => ?_⟩
      · rcases mem_cons.mp ho with rfl | ho
        · exact hechoed.symm
        · simp [mem_unreported ho] at hreported
      · rcases mem_cons.mp ho with rfl | ho
        · rfl
        · simp [mem_unreported ho] at hreported
    | false =>
      rw [hsettles, if_neg Bool.false_ne_true] at hechoed
      refine ⟨⟨hoffered, fun o ho hreported => ?_, fun hne => ?_⟩, fun o ho hreported => ?_⟩
      · rcases mem_cons.mp ho with rfl | ho
        · cases hreported
        · exact (h.echoed o ho hreported).trans hechoed.symm
      · obtain ⟨o, ho, hreported⟩ := h.reports fun hnil => hne (hechoed.trans hnil)
        exact ⟨o, mem_cons_of_mem _ ho, hreported⟩
      · rcases mem_cons.mp ho with rfl | ho
        · cases hreported
        · exact h.settled o ho hreported

private lemma refusedSerials_cons (quote : String → String) (agent : Local) (flight : Flight) (rest : List Flight) :
    refusedSerials quote agent (flight :: rest) =
      if (agent.floorRefusal quote flight.download.version).isSome then
        flight.serial :: refusedSerials quote agent rest
      else refusedSerials quote agent rest := by
  unfold refusedSerials
  rw [filter_cons]
  split <;> rfl

private lemma holdOne_of_none (h : s.agent.floorRefusal quote flight.download.version = none) :
    s.holdOne quote flight = { s with pending := s.pending ++ [flight] } := by
  unfold Channel.holdOne
  rw [h]

private lemma holdOne_of_some {reason : String} (h : s.agent.floorRefusal quote flight.download.version = some reason) :
    s.holdOne quote flight = s.applied flight (.error reason) := by
  unfold Channel.holdOne
  rw [h]

private lemma Settling.foldl_holdOne (flights : List Flight) {s : Channel}
    (h : s.Settling (refusedSerials quote s.agent flights)) :
    (flights.foldl (fun s flight => s.holdOne quote flight) s).Settling [] := by
  induction flights generalizing s with
  | nil => exact h
  | cons flight rest ih =>
    rw [refusedSerials_cons] at h
    rw [foldl_cons]
    cases hrefusal : s.agent.floorRefusal quote flight.download.version with
    | none =>
      simp only [hrefusal, Option.isSome_none, Bool.false_eq_true, if_false] at h
      rw [holdOne_of_none hrefusal]
      exact ih ⟨{ h with }, h.older, h.newest⟩
    | some reason =>
      simp only [hrefusal, Option.isSome_some, if_true] at h
      rw [holdOne_of_some hrefusal]
      exact ih (h.applied (.error reason))

private lemma foldl_holdOne_of_unrefused (flights : List Flight) {s : Channel}
    (h : refusedSerials quote s.agent flights = []) :
    (flights.foldl (fun s flight => s.holdOne quote flight) s).agent = s.agent ∧
      (flights.foldl (fun s flight => s.holdOne quote flight) s).offers = s.offers := by
  induction flights generalizing s with
  | nil => exact ⟨rfl, rfl⟩
  | cons flight rest ih =>
    rw [refusedSerials_cons] at h
    cases hrefusal : s.agent.floorRefusal quote flight.download.version with
    | some reason => simp [hrefusal] at h
    | none =>
      simp only [hrefusal, Option.isSome_none, Bool.false_eq_true, if_false] at h
      rw [foldl_cons, holdOne_of_none hrefusal]
      exact ih h

/-- An install ends only while the newest offer is settled or waits for it. -/
def Awaited (quote : String → String) (s : Channel) (act : Act) : Prop :=
  s.ends quote act ≠ [] → s.Awaits (s.ends quote act)

instance (s : Channel) (due : List Nat) : Decidable (s.Awaits due) :=
  inferInstanceAs (Decidable (∀ o ∈ s.offers.head?, o.settled = true ∨ ∃ n ∈ due, o.waitsFor = some n))

instance (quote : String → String) (s : Channel) (act : Act) : Decidable (Awaited quote s act) :=
  inferInstanceAs (Decidable (_ → _))

private lemma Settled.step (h : s.Settled) {current : String} {act : Act}
    (hok : Awaited quote s act) (hstep : s.step quote current act = some t) : t.Settled := by
  have hpassed : ∀ {u : Channel}, s.Passes u → u.Settled :=
    fun hp => h.of_same hp.offers hp.agent.offered hp.agent.echoed
  -- an install that ends is one the newest offer waits for, if it is not settled
  have hended : ∀ {u : Channel} {flight : Flight} (result : Except String String), s.ends quote act = [flight.serial] →
      s.Passes u → (u.applied flight result).Settled := by
    intro u flight result hends hp
    unfold Awaited at hok
    rw [hends] at hok
    have hawaits : u.Awaits [flight.serial] := by
      unfold Awaits
      rw [hp.offers]
      exact hok (cons_ne_nil _ _)
    exact (((hpassed hp).settling hawaits).applied result).settled
  cases steps_of_step hstep with
  | offer offer => exact h.receive quote current offer
  | hold =>
    by_cases hdue : refusedSerials quote s.agent s.pending = []
    · obtain ⟨hagent, hoffers⟩ :=
        foldl_holdOne_of_unrefused s.pending (s := { s with pending := [] }) hdue
      exact h.of_same hoffers (congrArg _ hagent) (congrArg _ hagent)
    · have hsettling := h.settling (hok hdue)
      have hemptied : ({ s with pending := [] } : Channel).Settling (refusedSerials quote s.agent s.pending) :=
        ⟨⟨h.offered, h.echoed, h.reports⟩, hsettling.older, hsettling.newest⟩
      exact (Settling.foldl_holdOne s.pending hemptied).settled
  | raised agentType version => exact h.of_same rfl rfl rfl
  | passes passes => exact hpassed passes
  | failed error passes ends => exact hended _ ends passes
  | installed handed =>
    exact hended _ (by simp [ends, handed]) ⟨.refl s.agent, by simp [flights, handed], rfl, rfl⟩

def restored : Channel :=
  start (named.elim ((Local.new serviceName true highWater floors).acceptPackages record) fun name =>
    (Local.new serviceName false highWater floors).acceptPackagesNamed current record name)

private lemma hashes_restored :
    (restored current serviceName highWater floors record named).agent.offeredAllPackagesHash = [] ∧
      (restored current serviceName highWater floors record named).agent.echoedAllPackagesHash = [] := by
  cases named with
  | some name => exact ⟨rfl, rfl⟩
  | none =>
    show ((Local.new serviceName true highWater floors).acceptPackages record).offeredAllPackagesHash = [] ∧
      ((Local.new serviceName true highWater floors).acceptPackages record).echoedAllPackagesHash = []
    unfold Local.acceptPackages Local.restoreSupervisorRecord
    cases record with
    | none => exact ⟨rfl, rfl⟩
    | some installed =>
      simp only [Local.new, if_true]
      split <;> exact ⟨rfl, rfl⟩

private lemma settled_restored : (restored current serviceName highWater floors record named).Settled := by
  obtain ⟨hoffered, hechoed⟩ := hashes_restored current serviceName highWater floors record named
  refine ⟨⟨hoffered, fun o ho => ?_, fun hne => (hne hechoed).elim⟩, fun o ho => ?_⟩
  · cases ho
  · cases ho

/-- In every run in which an install ends only while the newest offer is settled or waits for it, the aggregate hash
the Agent reports is that of an offer that was refused, found installed, installed or failed. -/
theorem reported_offer_settled (quote : String → String) (current : String) {serviceName : String}
    {highWater : Option HighWater} {floors : Option Floors} {record : Option InstalledPackage} {named : Option String}
    {s : Channel} (h : Reach (restored current serviceName highWater floors record named)
      (restrict (Awaited quote) (step quote current)) s) :
    (∀ o ∈ s.offers, o.reported = true → o.settled = true ∧
      o.allPackagesHash = (s.agent.packageStatuses current).serverProvidedAllPackagesHash) ∧
      ((s.agent.packageStatuses current).serverProvidedAllPackagesHash ≠ [] → ∃ o ∈ s.offers, o.reported = true) := by
  have hsettled : s.Settled := by
    exact h.invariant_restrict (settled_restored current serviceName highWater floors record named)
      fun _ _ _ hs hok hstep => hs.step hok hstep
  refine ⟨fun o ho hreported => ⟨hsettled.settled o ho hreported, hsettled.echoed o ho hreported⟩, hsettled.reports⟩

namespace Small

def newer (version : String) (hash : UInt8) : PackagesAvailable where
  packages := [("q", { type := .topLevel, version := version, file := some ⟨"/q", [], [], []⟩, hash := [hash] })]
  allPackagesHash := [0, hash]

def twoOffers : List Act :=
  [.offer (newer "1.0.0" 1), .downloaded .accepted, .offer (newer "2.0.0" 2), .downloaded .accepted]

def fresh : Channel := restored "0.1.0" "q" none none none none

end Small

/-- The two installs end in turn, and the newest offer waits for the one that ends last. -/
theorem reported_offer_settled_in_turn :
    ∃ s, Reach Small.fresh (restrict (Awaited fun text => text) (step (fun text => text) "0.1.0")) s ∧
      (s.agent.packageStatuses "0.1.0").serverProvidedAllPackagesHash = [0, 2] ∧
      ∀ o ∈ s.offers, o.reported = true → o.settled = true ∧
        o.allPackagesHash = (s.agent.packageStatuses "0.1.0").serverProvidedAllPackagesHash := by
  refine Reach.exists_of_run_imp
    (p := fun s => (s.agent.packageStatuses "0.1.0").serverProvidedAllPackagesHash = [0, 2])
    [.offer (Small.newer "1.0.0" 1), .downloaded .accepted, .ended none, .offer (Small.newer "2.0.0" 2),
      .downloaded .accepted, .ended none] (by decide +kernel) ?_
  intro s hreach hhash
  exact ⟨hhash, (reported_offer_settled _ _ hreach).1⟩

/-- The first install ends while the second offer's package is installed, and the second offer is reported. -/
theorem unsettled_offer_reported : ∃ s, Reach Small.fresh (step (fun text => text) "0.1.0") s ∧
      (s.agent.packageStatuses "0.1.0").serverProvidedAllPackagesHash = [0, 2] ∧
      (∃ f ∈ s.handed, f.download.hash = [2]) ∧ ∃ o ∈ s.offers, o.reported = true ∧ o.settled = false := by
  exact Reach.exists_of_run (Small.twoOffers ++ [.ended none]) (by decide +kernel)

end Channel

end OpampFleet.Supervisor.Agent
