import OpampFleet.Server.EnrolmentMoves

/-!
# Requests of a window that ran out

Expiry is lazy: a window that ran out is noticed by the next act that asks for it. An opening does not ask: it moves the
end of whatever window is held, so that a window which ran out unnoticed is opened again with its requests and decisions
(`reopened_window_lists_expired`).
-/

namespace OpampFleet.Server.Enrolment

open Lib List Option
open EnrolmentStore (decideFirst)

def ranOut (now : Nat) (window : Option Nat) : Bool := window.any fun untilMs => untilMs ≤ now

namespace State

variable {s t : State} {rules : Rules} {P : String → Nat → Prop}

structure Agrees (s : State) : Prop where
  key : ∀ id entry, s.entries.lookup id = some entry → entry.pending.id = id
  shut : s.windowUntilMs = none → ∀ id, s.entries.lookup id = none
  stored : ∀ w, s.windowUntilMs = some w → s.persisted.windowUntilMs = some w
  empty : s.persisted.windowUntilMs = none → s.persisted.requests = []

def All (P : String → Nat → Prop) (s : State) : Prop :=
  (∀ id entry, s.entries.lookup id = some entry → P id entry.pending.arrivedMs) ∧
    ∀ r ∈ s.persisted.requests, P r.id r.arrivedMs

private lemma Agrees.move (h : s.Agrees) (hmove : Move rules s t) : t.Agrees := by
  have hkey := hmove.key h.key
  cases hmove with
  | refuse overShare => exact { h with key := hkey }
  | take hopen hw hnew hroom hshare htakes hwaits =>
    refine ⟨hkey, h.shut, h.stored, ?_⟩
    intro hnone
    exact absurd (hopen.symm.trans hnone) (by simp)
  | @learn entry request w hopen hrequest hreads =>
    refine ⟨hkey, ?_, h.stored, h.empty⟩
    intro hnone
    simp [hopen] at hnone
  | decide hentry hwaits hdecision =>
    refine ⟨hkey, h.shut, h.stored, ?_⟩
    intro hnone
    have hempty := h.empty hnone
    show decideFirst _ _ s.persisted.requests = []
    rw [hempty]
    rfl
  | @hold id entry decision request hentry hwaits hdecision hrequest hid hdecided =>
    refine ⟨hkey, ?_, h.stored, h.empty⟩
    intro hnone
    simp [h.shut hnone id] at hentry
  | drop hkept =>
    refine ⟨hkey, ?_, h.stored, h.empty⟩
    intro hnone id
    refine eq_none_iff_forall_not_mem.mpr ?_
    intro entry hentry
    have hheld := hkept id entry hentry
    simp [h.shut hnone id] at hheld
  | withdraw keep hgone =>
    refine ⟨hkey, h.shut, h.stored, ?_⟩
    intro hnone
    have hempty := h.empty hnone
    show s.persisted.requests.filter keep = []
    rw [hempty]
    rfl
  | shut =>
    refine ⟨hkey, fun _ _ => rfl, ?_, h.empty⟩
    intro w hw
    cases hw
  | clear hwindow hentries =>
    refine ⟨hkey, h.shut, ?_, fun _ => rfl⟩
    intro w hw
    simp [hwindow] at hw
  | read hread =>
    refine ⟨hkey, ?_, fun _ hw => hw, h.empty⟩
    intro hnone id
    refine eq_none_iff_forall_not_mem.mpr ?_
    intro entry hentry
    obtain ⟨request, hrequest, _⟩ := hread id entry hentry
    simp [h.empty hnone] at hrequest

private lemma All.move (hall : s.All P) (htakes : ∀ r, rules.takes r → P r.id r.arrivedMs)
    (hmove : Move rules s t) : t.All P := by
  constructor
  · intro id entry hentry
    rcases hmove.entry_cases hentry with hheld | ⟨request, hrequest, rfl, hreads⟩ | ⟨held, _, hheld, _, rfl, _⟩
    · exact hall.1 id entry hheld
    · rw [hreads.1]
      exact hall.2 request hrequest
    · exact hall.1 id held hheld
  · intro r hr
    rcases hmove.request_cases hr with hheld | ⟨htaken, _⟩ | ⟨held, hheld, _, _, _, _, rfl⟩
    · exact hall.2 r hheld
    · exact htakes r htaken
    · exact hall.2 held hheld

private lemma ranOut_move (h : ranOut rules.now s.persisted.windowUntilMs = true)
    (hmove : Move rules s t) : ranOut rules.now t.persisted.windowUntilMs = true ∨ t.All P := by
  cases hmove with
  | clear hwindow hentries =>
    refine .inr ⟨?_, ?_⟩
    · intro id entry hentry
      simp [hentries] at hentry
    · intro r hr
      cases hr
  | _ => exact .inl h

private lemma approve_shows {byAct : Bool} {id : String} {now : Nat} {io : ApproveIo}
    {revocations revocations' : Revocations.State}
    (h : s.approve byAct id now io revocations = (t, revocations', .ok ())) :
    ∃ entry, t.entries.lookup id = some entry ∧ ∀ w, t.windowUntilMs = some w → now < w := by
  rcases approve_cases rfl h with ⟨⟨_, herror⟩, _⟩ | ⟨entry, decision, _, _, _, _, ⟨_, herror, _⟩ | ⟨_, rfl⟩⟩
  · cases herror
  · cases herror
  · exact ⟨_, AList.lookup_insert _, fun _ hw => lt_of_expire hw⟩

private lemma pending_shows {now : Nat} {io : StoreIo} {requests : List Pending} {p : Pending}
    (h : s.pending now io = (t, requests)) (hp : p ∈ requests) :
    ∃ id entry, t.entries.lookup id = some entry ∧ entry.pending = p ∧ ∀ w, t.windowUntilMs = some w → now < w := by
  cases h
  simp only [mem_insertionSort, List.mem_map, mem_filter, mem_filterMap] at hp
  obtain ⟨entry, ⟨⟨id, _, hentry⟩, _⟩, rfl⟩ := hp
  exact ⟨id, entry, hentry, rfl, fun _ hw => lt_of_expire hw⟩

end State

namespace System

/-- The request was submitted under the key when it arrived, and no window has run out since. -/
def Since (s : System) (key : String) (arrivedMs : Nat) : Prop :=
  (arrivedMs, key) ∈ s.submissions ∧ ∀ untilMs ∈ s.ends, untilMs ≤ arrivedMs

/-- Every request that the last act showed was submitted since the last window ran out. -/
def Shows (s : System) : Prop :=
  match s.outcome with
  | .submitted key .waiting | .submitted key (.issued _) | .approved key =>
    ∃ entry, s.enrolment.entries.lookup key = some entry ∧ s.Since key entry.pending.arrivedMs
  | .listed requests => ∀ p ∈ requests, s.Since p.id p.arrivedMs
  | _ => True

/-- An opening finds no window that ran out, and its write does not fail once it has replaced the file. -/
def opensInTime (s : System) (timed : Nat × Act) : Bool :=
  match timed.2 with
  | .openWindow _ io =>
    !ranOut timed.1 s.enrolment.windowUntilMs && !ranOut timed.1 s.enrolment.persisted.windowUntilMs &&
      match io.save with
      | .unsynced _ => false
      | _ => true
  | _ => true

structure InTime (s : System) : Prop where
  agrees : s.enrolment.Agrees
  ends : ∀ untilMs ∈ s.ends, untilMs ≤ s.now
  fresh : ranOut s.now s.enrolment.persisted.windowUntilMs = true ∨ s.enrolment.All s.Since

variable {s t : System}

private lemma inTime_start (ledger : Revocations.Ledger) : (start ledger).InTime := by
  refine ⟨⟨?_, fun _ _ => rfl, ?_, fun _ => rfl⟩, ?_, .inr ⟨?_, ?_⟩⟩
  · intro id entry hentry
    cases hentry
  · intro w hw
    cases hw
  · intro untilMs hmem
    cases hmem
  · intro id entry hentry
    cases hentry
  · intro r hr
    cases hr

variable {now share : Nat} {byAct : Bool}

private lemma ranOut_eq_false {window : Option Nat} :
    ranOut now window = false ↔ ∀ w, window = some w → now < w := by
  cases window with
  | none | some w => simp [ranOut]

private lemma passed_eq_nil (h : s.enrolment.Agrees) (hopen : ranOut now s.enrolment.persisted.windowUntilMs = false) :
    s.passed now = [] := by
  rw [ranOut_eq_false] at hopen
  unfold passed
  rw [filter_eq_nil_iff]
  intro untilMs hmem
  rcases mem_append.mp hmem with hmem | hmem
  · have hlt := hopen untilMs (h.stored untilMs (mem_toList.mp hmem))
    simpa using hlt
  · have hlt := hopen untilMs (mem_toList.mp hmem)
    simpa using hlt

section

variable (h : s.InTime)
include h

private lemma InTime.tick (hnow : s.now ≤ now) : (s.tick now).InTime := by
  refine ⟨h.agrees, ?_, ?_⟩
  · intro untilMs hmem
    rcases mem_append.mp hmem with hmem | hmem
    · exact (h.ends untilMs hmem).trans hnow
    · show untilMs ≤ now
      simpa using (mem_filter.mp hmem).2
  cases hran : ranOut now s.enrolment.persisted.windowUntilMs with
  | true => exact .inl hran
  | false =>
    have hbefore : ranOut s.now s.enrolment.persisted.windowUntilMs = false := by
      rw [ranOut_eq_false] at hran ⊢
      intro w hw
      exact lt_of_le_of_lt hnow (hran w hw)
    have hall : s.enrolment.All s.Since := by
      rcases h.fresh with hfresh | hall
      · simp [hbefore] at hfresh
      · exact hall
    have hends : (s.tick now).ends = s.ends := by
      unfold System.tick
      rw [passed_eq_nil h.agrees hran, append_nil]
    refine .inr ?_
    unfold Since
    rwa [hends]

private lemma InTime.all_of_open {w : Nat} (hopen : s.enrolment.windowUntilMs = some w) (hw : s.now < w) :
    s.enrolment.All s.Since := by
  rcases h.fresh with hran | hall
  · rw [h.agrees.stored w hopen] at hran
    simp only [ranOut, any_some, decide_eq_true_eq] at hran
    omega
  · exact hall

private lemma InTime.of_moves {rules : Rules} (hnow : rules.now = s.now)
    (hmoves : Moves rules s.enrolment t.enrolment) (hclock : t.now = s.now) (hends : t.ends = s.ends)
    (hsubmissions : s.submissions ⊆ t.submissions)
    (htakes : ∀ r, rules.takes r → r.arrivedMs = s.now ∧ (r.arrivedMs, r.id) ∈ t.submissions) : t.InTime := by
  have htaken : ∀ r, rules.takes r → t.Since r.id r.arrivedMs := by
    intro r hr
    obtain ⟨harrived, hsubmitted⟩ := htakes r hr
    refine ⟨hsubmitted, ?_⟩
    rw [harrived, hends]
    exact h.ends
  have hbefore : s.enrolment.Agrees ∧
      (ranOut rules.now s.enrolment.persisted.windowUntilMs = true ∨ s.enrolment.All t.Since) := by
    refine ⟨h.agrees, ?_⟩
    rw [hnow]
    refine h.fresh.imp_right ?_
    unfold Since
    rw [hends]
    rintro ⟨hentries, hrequests⟩
    constructor
    · intro id entry hentry
      exact ⟨hsubmissions (hentries id entry hentry).1, (hentries id entry hentry).2⟩
    · intro r hr
      exact ⟨hsubmissions (hrequests r hr).1, (hrequests r hr).2⟩
  have hmove : ∀ u v : State, (u.Agrees ∧ (ranOut rules.now u.persisted.windowUntilMs = true ∨ u.All t.Since)) →
      Move rules u v → v.Agrees ∧ (ranOut rules.now v.persisted.windowUntilMs = true ∨ v.All t.Since) := by
    rintro u v ⟨hagrees, hfresh⟩ hmove
    refine ⟨hagrees.move hmove, ?_⟩
    rcases hfresh with hran | hall
    · exact State.ranOut_move hran hmove
    · exact .inr (hall.move htaken hmove)
  obtain ⟨hagrees, hfresh⟩ := hmoves.keep hbefore hmove
  refine ⟨hagrees, ?_, ?_⟩
  · rw [hends, hclock]
    exact h.ends
  · rwa [hclock, ← hnow]

private lemma InTime.openWindow {secs : Nat} {io : StoreIo}
    (hopens : s.opensInTime (s.now, .openWindow secs io) = true) :
    ({ s with enrolment := (s.enrolment.openWindow secs s.now io).1 } : System).InTime := by
  simp only [opensInTime, Bool.and_eq_true, Bool.not_eq_true'] at hopens
  obtain ⟨⟨_, hstored⟩, hsave⟩ := hopens
  have hall : s.enrolment.All s.Since := by
    rcases h.fresh with hran | hall
    · simp [hstored] at hran
    · exact hall
  unfold State.openWindow
  split
  · exact h
  extract_lets untilMs
  unfold EnrolmentStore.openWindow EnrolmentStore.save
  cases hload : io.load with
  | error e => exact h
  | ok _ =>
    cases hwrite : io.save with
    | saved =>
      refine ⟨⟨h.agrees.key, ?_, fun _ hw => hw, ?_⟩, h.ends, .inr hall⟩
      · intro hnone
        cases hnone
      · intro hnone
        cases hnone
    | unsynced e => simp [hwrite] at hsave
    | failed e => exact h

private lemma InTime.act {a : Act} (hopens : s.opensInTime (s.now, a) = true)
    (hact : s.act byAct share a = some t) : t.InTime := by
  by_cases hopening : ∃ secs io, a = .openWindow secs io
  · obtain ⟨secs, io, rfl⟩ := hopening
    cases hact
    exact h.openWindow hopens
  have hmoves : Moves ⟨s.now, share, fun r => r.arrivedMs = s.now ∧
    (r.arrivedMs, r.id) ∈ t.submissions, fun _ _ => True⟩
      s.enrolment t.enrolment := by
    refine act_moves hact rfl ?_ ?_ (fun _ => trivial) (fun _ _ _ _ _ _ _ _ => trivial)
    · intro secs io heq
      exact hopening ⟨secs, io, heq⟩
    · rintro request requester io rfl
      cases hact
      exact ⟨rfl, mem_append_right _ (mem_singleton.mpr rfl)⟩
  obtain ⟨hclock, hends, hsubmissions, _⟩ := act_frame hact
  exact h.of_moves rfl hmoves hclock hends hsubmissions (fun _ hr => hr)

private lemma InTime.step {timed : Nat × Act}
    (hopens : s.opensInTime timed = true) (hstep : s.step byAct share timed = some t) : t.InTime := by
  obtain ⟨hnow, hstep⟩ := ite_none_left_eq_some.mp hstep
  exact (h.tick (not_lt.mp hnow)).act hopens hstep

private lemma InTime.since {id : String} {entry : Entry} (hentry : s.enrolment.entries.lookup id = some entry)
    (hopen : ∀ w, s.enrolment.windowUntilMs = some w → s.now < w) : s.Since id entry.pending.arrivedMs := by
  cases hwindow : s.enrolment.windowUntilMs with
  | none =>
    simp [h.agrees.shut hwindow id] at hentry
  | some w => exact (h.all_of_open hwindow (hopen w hwindow)).1 id entry hentry

end

private lemma InTime.shows (h : t.InTime) {a : Act} (hact : s.act byAct share a = some t)
    (hnothing : s.outcome = .nothing) : t.Shows := by
  have hanswers := act_answers hact hnothing
  obtain ⟨hnow, _⟩ := act_frame hact
  have hshows : ∀ key entry, t.enrolment.entries.lookup key = some entry →
      (∀ w, t.enrolment.windowUntilMs = some w → s.now < w) → t.Since key entry.pending.arrivedMs := by
    rw [← hnow]
    intro key entry hentry hopen
    exact h.since hentry hopen
  unfold Shows
  cases houtcome : t.outcome with
  | nothing => trivial
  | submitted key answered =>
    rw [houtcome] at hanswers
    obtain ⟨request, requester, io, rfl, hsubmit⟩ := hanswers
    cases answered with
    | waiting =>
      obtain ⟨entry, hentry, _, hopen⟩ := State.submit_shows hsubmit (.inl rfl)
      exact ⟨entry, hentry, hshows _ entry hentry hopen⟩
    | issued pem =>
      obtain ⟨entry, hentry, _, hopen⟩ := State.submit_shows hsubmit (.inr ⟨pem, rfl⟩)
      exact ⟨entry, hentry, hshows _ entry hentry hopen⟩
    | _ => trivial
  | listed requests =>
    rw [houtcome] at hanswers
    obtain ⟨io, hpending⟩ := hanswers
    intro p hp
    obtain ⟨id, entry, hentry, rfl, hopen⟩ := State.pending_shows hpending hp
    rw [h.agrees.key id entry hentry]
    exact hshows id entry hentry hopen
  | approved id =>
    rw [houtcome] at hanswers
    obtain ⟨io, happrove⟩ := hanswers
    obtain ⟨entry, hentry, hopen⟩ := State.approve_shows happrove
    exact ⟨entry, hentry, hshows id entry hentry hopen⟩

end System

/-- In a run whose openings find no window that ran out, a request that is listed, answered as waiting or with its
certificate, or approved, was submitted at a time since which no window has run out. -/
theorem shown_within_window {byAct : Bool} {share : Nat} {ledger : Revocations.Ledger} {s : System}
    (h : Reach (System.start ledger)
    (restrict (fun s timed => s.opensInTime timed = true) (System.step byAct share)) s) : s.Shows := by
  have hafter : s.InTime := by
    exact h.invariant_restrict (System.inTime_start ledger) fun _ _ _ hinv hopens hstep => hinv.step hopens hstep
  cases h with
  | refl => trivial
  | next timed _ hstep =>
    obtain ⟨_, hstep⟩ := restrict_eq_some.mp hstep
    unfold System.step at hstep
    split at hstep
    · cases hstep
    · exact hafter.shows hstep rfl

/-- A request that is listed before the window runs out. -/
theorem shown_within_window_listed : ∃ (s : System) (requests : List Pending),
    s.outcome = .listed requests ∧ requests ≠ [] ∧
      Reach (System.start ⟨[], [], ∅⟩)
        (restrict (fun s timed => s.opensInTime timed = true) (System.step false 256)) s ∧ s.Shows := by
  have hrun : ∃ s ∈ run (restrict (fun s timed => s.opensInTime timed = true) (System.step false 256))
      (System.start ⟨[], [], ∅⟩)
      [(0, .openWindow 1 answersWell), (500, .submit hostRequest hostRequester answersWell),
        (900, .pending answersWell)],
      (match s.outcome with | .listed requests => !requests.isEmpty | _ => false) = true := by
    decide +kernel
  obtain ⟨s, hreach, hlisted⟩ := Reach.exists_of_run _ hrun
  cases houtcome : s.outcome with
  | listed requests =>
    rw [houtcome] at hlisted
    exact ⟨s, requests, houtcome, by simpa using hlisted, hreach, shown_within_window hreach⟩
  | _ =>
    simp [houtcome] at hlisted

/-- The window opened for a second at 0 ends at 1000, and no act asks for it before it is opened again at 2000: the
request submitted at 500 is listed. -/
theorem reopened_window_lists_expired :
    ∃ s, Reach (System.start ⟨[], [], ∅⟩) (System.step false 256) s ∧ ¬s.Shows := by
  refine Reach.exists_of_run_imp (p := fun s => (match s.outcome with
      | .listed requests => decide (∃ p ∈ requests, ∃ untilMs ∈ s.ends, p.arrivedMs < untilMs)
      | _ => false) = true)
    [(0, .openWindow 1 answersWell), (500, .submit hostRequest hostRequester answersWell),
      (2000, .openWindow 1 answersWell),
      (2000, .pending answersWell)] (by decide +kernel) ?_
  intro s _ hlisted hshows
  unfold System.Shows at hshows
  cases houtcome : s.outcome with
  | listed requests =>
    rw [houtcome] at hlisted hshows
    obtain ⟨p, hp, untilMs, hmem, hlt⟩ := of_decide_eq_true hlisted
    have hle := (hshows p hp).2 untilMs hmem
    omega
  | _ =>
    simp [houtcome] at hlisted

end OpampFleet.Server.Enrolment
