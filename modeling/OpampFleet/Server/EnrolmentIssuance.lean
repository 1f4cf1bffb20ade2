import OpampFleet.Server.EnrolmentMoves

/-!
# What a submitter is handed

The queue, its decisions and the register are written one after the other, and each write may fail. A decision is in
memory or in the store only once the certificate it carries was recorded in the register, by an approval of the very
request, whose bootstrap certificate the list did not revoke then; and what memory holds is in the store, where the
bounds of the queue are kept (`issued_was_recorded`).
-/

namespace OpampFleet.Server.Revocations.State

open Lib

variable {s : State}

private lemma seeHost_issued (s : State) (facts : Facts) (mint : Option String) :
    (s.seeHost facts mint).1.issued = s.issued := by
  unfold seeHost
  split <;> rfl

private lemma recordWith_ok (h : s.Caches) {byAct : Bool} {now : Nat} {facts : Facts} {instanceUid : String}
    {bootstrap : CertId} {io : RecordIo} {t : State} {hosts : Option HostsVersion}
    (hrecord : s.recordWith byAct now facts instanceUid none (some bootstrap) io = (t, .ok (), hosts)) :
    ¬s.Revoked bootstrap ∧ t.issued.lookup facts.id = some ⟨facts, instanceUid, none, now⟩ := by
  unfold recordWith at hrecord
  simp only [Option.isSome_some, if_true, Option.any_some] at hrecord
  split at hrecord
  · cases hrecord
  rename_i hlisted
  refine ⟨?_, ?_⟩
  · intro hrevoked
    refine hlisted ?_
    rw [isCertificateRevoked, decide_eq_true_eq]
    exact h.built.mem_revokedSet.mpr hrevoked
  split at hrecord
  · cases hrecord
  rename_i u forgotten _
  have hentered : ∀ v : State, v.issued = (u.insert ⟨facts, instanceUid, none, now⟩).issued →
      v.issued.lookup facts.id = some ⟨facts, instanceUid, none, now⟩ := by
    intro v hv
    rw [hv, insert_issued, Map.lookup_insert_ite, if_pos rfl]
  rcases u.admitIssued_cases now facts instanceUid none io.registered with ⟨e, heq⟩ | heq
  · simp [heq] at hrecord
  rw [heq] at hrecord
  simp only at hrecord
  split at hrecord
  · cases hrecord
    exact hentered _ (seeHost_issued _ _ _)
  · split at hrecord
    all_goals
      cases hrecord
      exact hentered _ (seeHost_issued _ _ _)

end OpampFleet.Server.Revocations.State

namespace OpampFleet.Server.Enrolment

open Lib List
open Server.Revocations (CertId)
open EnrolmentStore (decideFirst waits)

variable {bootstrap : CertId} {approvals' : List Approving}

namespace State

variable {revocations : Revocations.State} {revocations' : Revocations.State}

private lemma caches_afterOthers (byAct : Bool) (others : List Revocations.Act)
    (h : revocations.Caches) : (afterOthers byAct others revocations).Caches := by
  induction others generalizing revocations with
  | nil => exact h
  | cons act others ih =>
    refine ih ?_
    show ((Revocations.step byAct revocations act).getD revocations).Caches
    cases hstep : Revocations.step byAct revocations act with
    | none => exact h
    | some t => exact Revocations.caches_step h hstep

private lemma caches_recordIssued (byAct : Bool) (now : Nat) (audited : Except String Unit)
    (io : Revocations.State.RecordIo) (signed : Signed) (instanceUid : Bytes) (bootstrap : CertId)
    (h : revocations.Caches) :
      (recordIssued byAct now audited io signed instanceUid bootstrap revocations).1.Caches := by
  unfold recordIssued
  split
  · exact h
  have hrecorded := h.recordWith byAct now signed.facts (Core.hexText instanceUid) none (some bootstrap) io
  split
  all_goals
    rename_i heq
    rwa [heq] at hrecorded

private lemma caches_sign (byAct : Bool) (now : Nat) (io : ApproveIo) (instanceUid : Bytes) (bootstrap : CertId)
    (h : revocations.Caches) : (sign byAct now io instanceUid bootstrap revocations).1.Caches := by
  unfold sign
  split
  · exact h
  rename_i signed _
  have hrecorded := caches_recordIssued byAct now io.audited io.record signed instanceUid bootstrap
    (caches_afterOthers byAct io.others h)
  split
  all_goals
    rename_i heq
    rwa [heq] at hrecorded

private lemma sign_ok {byAct : Bool} {now : Nat} {io : ApproveIo} {instanceUid : Bytes}
    {decision : Decision} (h : revocations.Caches)
    (hsign : sign byAct now io instanceUid bootstrap revocations = (revocations', .ok decision)) :
    ∃ signed, io.signed = .ok signed ∧ decision = .approved signed.pem ∧
      ¬(afterOthers byAct io.others revocations).Revoked bootstrap ∧
      revocations'.issued.lookup signed.facts.id = some ⟨signed.facts, Core.hexText instanceUid, none, now⟩ := by
  unfold sign at hsign
  split at hsign
  · cases hsign
  rename_i signed hsigned
  split at hsign
  · cases hsign
  rename_i t hrecord
  cases hsign
  unfold recordIssued at hrecord
  split at hrecord
  · cases hrecord
  split at hrecord
  next u hosts heq =>
    cases hrecord
    obtain ⟨hlisted, hentered⟩ := Revocations.State.recordWith_ok (caches_afterOthers byAct io.others h) heq
    exact ⟨signed, hsigned, rfl, hlisted, hentered⟩
  · cases hrecord

private lemma caches_approve {s t : State} {byAct : Bool} {id : String} {now : Nat} {io : ApproveIo}
    {answered : Except DecisionError Unit} (h : revocations.Caches)
    (happrove : s.approve byAct id now io revocations = (t, revocations', answered)) : revocations'.Caches := by
  rcases approve_cases rfl happrove with
    ⟨⟨_, _⟩, _, rfl | rfl | ⟨instanceUid, bootstrap, rfl⟩⟩ | ⟨entry, decision, _, _, _, hsigned, _⟩
  · exact h
  · exact h.built
  · exact caches_sign byAct now io instanceUid bootstrap h.built
  · have hcaches := caches_sign byAct now io entry.instanceUid entry.pending.requester.bootstrap h.built
    rwa [hsigned] at hcaches

end State

/-! ### The queue -/

def Recorded (approvals : List Approving) (id : String) (bootstrap : CertId) (pem : String) : Prop :=
  ∃ approving ∈ approvals, approving.id = id ∧ ∃ entry signed, approving.entry = some entry ∧
    entry.pending.requester.bootstrap = bootstrap ∧ approving.signed = .ok signed ∧ signed.pem = pem ∧
    ¬approving.before.Revoked bootstrap ∧
    approving.after.issued.lookup signed.facts.id =
      some ⟨signed.facts, Core.hexText entry.instanceUid, none, approving.now⟩

private lemma Recorded.mono {approvals : List Approving} {id : String} {pem : String}
    (h : Recorded approvals id bootstrap pem) (hsub : approvals ⊆ approvals') :
      Recorded approvals' id bootstrap pem := by
  obtain ⟨approving, hmem, hrecorded⟩ := h
  exact ⟨approving, hsub hmem, hrecorded⟩

variable {r : PersistedRequest}

namespace EnrolmentStore

variable {id : String} {decision : Decision} {requests : List PersistedRequest}

private lemma map_decideFirst {α : Type} (f : PersistedRequest → α)
    (hf : ∀ (r : PersistedRequest) (decision : Option Decision), f { r with decision := decision } = f r) :
    (decideFirst id decision requests).map f = requests.map f := by
  unfold decideFirst
  induction requests with
  | nil => rfl
  | cons first requests ih =>
    by_cases hfirst : waits id first = true
    · simp [hfirst, hf]
    · simp [hfirst, ih]

private lemma exists_of_mem (h : r ∈ requests) :
    ∃ s ∈ decideFirst id decision requests, s.id = r.id ∧ s.requester = r.requester ∧
      (r.decision.isSome → s.decision.isSome) := by
  unfold decideFirst
  induction requests with
  | nil => cases h
  | cons first requests ih =>
    by_cases hfirst : waits id first = true
    · rcases mem_cons.mp h with rfl | h
      · exact ⟨{ r with decision := some decision }, by simp [hfirst], rfl, rfl, fun _ => rfl⟩
      · exact ⟨r, by simp [hfirst, h], rfl, rfl, fun hdecided => hdecided⟩
    · rcases mem_cons.mp h with rfl | h
      · exact ⟨r, by simp [hfirst], rfl, rfl, fun hdecided => hdecided⟩
      · obtain ⟨s, hs, hsame⟩ := ih h
        exact ⟨s, by simp [hfirst, hs], hsame⟩

end EnrolmentStore

namespace State

variable {s t : State} {share : Nat} {approvals : List Approving}

/-- What memory holds is in the store, within the bounds there, and every decision that carries a certificate was
recorded. -/
structure Queued (share : Nat) (approvals : List Approving) (s : State) : Prop where
  key : ∀ id entry, s.entries.lookup id = some entry → entry.pending.id = id
  backed : ∀ id entry, s.entries.lookup id = some entry → ∃ r ∈ s.persisted.requests, r.id = id ∧
    r.requester.bootstrap = entry.pending.requester.bootstrap ∧ (entry.decision.isSome → r.decision.isSome)
  distinct : (s.persisted.requests.map PersistedRequest.id).Nodup
  room : s.persisted.requests.length ≤ maxPending
  shares : ∀ bootstrap, (s.persisted.requests.countP fun r => r.requester.bootstrap = bootstrap) ≤ share
  held : ∀ id entry, s.entries.lookup id = some entry → ∀ pem, entry.decision = some (.approved pem) →
    Recorded approvals id entry.pending.requester.bootstrap pem
  stored : ∀ r ∈ s.persisted.requests, ∀ pem, r.decision = some (.approved pem) →
    Recorded approvals r.id r.requester.bootstrap pem

private lemma Queued.bootstrap_eq (h : s.Queued share approvals) {entry : Entry}
    (hentry : s.entries.lookup r.id = some entry) (hr : r ∈ s.persisted.requests) :
    r.requester.bootstrap = entry.pending.requester.bootstrap := by
  obtain ⟨r', hr', hid, hbootstrap, _⟩ := h.backed r.id entry hentry
  rwa [← inj_on_of_nodup_map h.distinct hr' hr hid]

private lemma Queued.move {rules : Rules} (hshare : rules.share = share)
    (hdecides : ∀ entry decision pem, rules.decides entry decision → decision = .approved pem →
      Recorded approvals entry.pending.id entry.pending.requester.bootstrap pem)
    (h : s.Queued share approvals) (hmove : Move rules s t) : t.Queued share approvals := by
  have hkey := hmove.key h.key
  have hbacked : ∀ id entry, t.entries.lookup id = some entry → ∃ r ∈ s.persisted.requests, r.id = id ∧
      r.requester.bootstrap = entry.pending.requester.bootstrap ∧ (entry.decision.isSome → r.decision.isSome) := by
    intro id entry hentry
    rcases hmove.entry_cases hentry with
      hbefore | ⟨request, hrequest, rfl, hreads⟩ | ⟨held, decision, hbefore, _, rfl, request, hrequest, rfl, hdecided⟩
    · exact h.backed id entry hbefore
    · rw [hreads.1, hreads.2]
      exact ⟨request, hrequest, rfl, rfl, fun hdecided => hdecided⟩
    · have hbootstrap := h.bootstrap_eq hbefore hrequest
      exact ⟨request, hrequest, rfl, hbootstrap, fun _ => by rw [hdecided]; rfl⟩
  have hheld : ∀ id entry, t.entries.lookup id = some entry → ∀ pem, entry.decision = some (.approved pem) →
      Recorded approvals id entry.pending.requester.bootstrap pem := by
    intro id entry hentry
    rcases hmove.entry_cases hentry with
      hbefore | ⟨request, hrequest, rfl, hreads⟩ | ⟨held, decision, hbefore, hdecision, rfl, _⟩
    · exact h.held id entry hbefore
    · rw [hreads.1, hreads.2]
      exact h.stored request hrequest
    · rintro pem ⟨⟩
      have hrecorded := hdecides held _ pem hdecision rfl
      rwa [h.key id held hbefore] at hrecorded
  have hstored : ∀ r ∈ t.persisted.requests, ∀ pem, r.decision = some (.approved pem) →
      Recorded approvals r.id r.requester.bootstrap pem := by
    intro r hr
    rcases hmove.request_cases hr with hbefore | ⟨_, hwaits⟩ | ⟨held, hbefore, entry, decision, hentry, hdecision, rfl⟩
    · exact h.stored r hbefore
    · rw [hwaits]
      rintro pem ⟨⟩
    · rintro pem ⟨⟩
      have hrecorded := hdecides entry _ pem hdecision rfl
      rwa [h.key _ entry hentry, ← h.bootstrap_eq hentry hbefore] at hrecorded
  -- The other moves leave the stored requests as they are.
  cases hmove with
  | @take request w hopen hw hnew hroom hless htakes hwaits =>
    refine ⟨hkey, ?_, ?_, ?_, ?_, hheld, hstored⟩
    · intro id entry hentry
      obtain ⟨r, hr, hbacks⟩ := hbacked id entry hentry
      exact ⟨r, mem_append_left _ hr, hbacks⟩
    · show ((s.persisted.requests ++ [request]).map PersistedRequest.id).Nodup
      rw [map_append, nodup_append]
      refine ⟨h.distinct, nodup_singleton _, ?_⟩
      rintro id hid other hother rfl
      obtain ⟨r, hr, rfl⟩ := mem_map.mp hid
      exact hnew r hr (by simpa using hother)
    · show (s.persisted.requests ++ [request]).length ≤ maxPending
      rw [length_append, length_singleton]
      omega
    · intro bootstrap
      show (s.persisted.requests ++ [request]).countP _ ≤ share
      rw [countP_append, countP_singleton]
      have hbefore := h.shares bootstrap
      by_cases hsame : request.requester.bootstrap = bootstrap
      · rw [hsame, hshare] at hless
        simp only [hsame, decide_true, if_true]
        omega
      · simp only [hsame, decide_false, Bool.false_eq_true, if_false]
        omega
  | @decide id entry decision hentry hwaits hdecision =>
    refine ⟨hkey, ?_, ?_, ?_, ?_, hheld, hstored⟩
    · intro other found hfound
      obtain ⟨r, hr, hid, hbootstrap, hdecided⟩ := hbacked other found hfound
      obtain ⟨r', hr', hid', hrequester, hkept⟩ := EnrolmentStore.exists_of_mem hr
      refine ⟨r', hr', hid'.trans hid, ?_, fun hsome => hkept (hdecided hsome)⟩
      rwa [hrequester]
    · show ((decideFirst id decision s.persisted.requests).map PersistedRequest.id).Nodup
      rw [EnrolmentStore.map_decideFirst PersistedRequest.id fun _ _ => rfl]
      exact h.distinct
    · exact length_replaceF.trans_le h.room
    · intro bootstrap
      show (decideFirst id decision s.persisted.requests).countP
        ((fun b => decide (b = bootstrap)) ∘ fun r => r.requester.bootstrap) ≤ share
      rw [← countP_map, EnrolmentStore.map_decideFirst (fun r => r.requester.bootstrap) fun _ _ => rfl, countP_map]
      exact h.shares bootstrap
  | withdraw keep hgone =>
    refine ⟨hkey, ?_, h.distinct.sublist (filter_sublist.map _), (length_filter_le _ _).trans h.room, ?_, hheld,
      hstored⟩
    · intro id entry hentry
      obtain ⟨r, hr, rfl, hbootstrap, hdecided⟩ := hbacked id entry hentry
      cases hkeep : keep r with
      | true => exact ⟨r, mem_filter.mpr ⟨hr, hkeep⟩, rfl, hbootstrap, hdecided⟩
      | false =>
        -- A request that goes waits, so its entry would wait too, under the same certificate.
        obtain ⟨hwaits, hother⟩ := hgone r hr hkeep
        have hundecided : entry.decision = none := by
          rw [hwaits] at hdecided
          simpa using hdecided
        exact absurd hbootstrap.symm (hother entry hentry hundecided)
    · intro bootstrap
      exact (List.Sublist.countP_le filter_sublist).trans (h.shares bootstrap)
  | clear hwindow hentries =>
    refine ⟨hkey, ?_, nodup_nil, Nat.zero_le _, fun _ => Nat.zero_le _, hheld, hstored⟩
    intro id entry hentry
    simp [hentries] at hentry
  | _ => exact ⟨hkey, hbacked, h.distinct, h.room, h.shares, hheld, hstored⟩

section

variable (h : s.Queued share approvals)
include h

private lemma Queued.congr (hentries : t.entries = s.entries)
    (hrequests : t.persisted.requests = s.persisted.requests) : t.Queued share approvals := by
  obtain ⟨hkey, hbacked, hdistinct, hroom, hshares, hheld, hstored⟩ := h
  rw [← hentries] at hkey hbacked hheld
  rw [← hrequests] at hbacked hdistinct hroom hshares hstored
  exact ⟨hkey, hbacked, hdistinct, hroom, hshares, hheld, hstored⟩

private lemma Queued.mono (hsub : approvals ⊆ approvals') : s.Queued share approvals' := by
  refine { h with held := ?_, stored := ?_ }
  · intro id entry hentry pem hdecision
    exact (h.held id entry hentry pem hdecision).mono hsub
  · intro r hr pem hdecision
    exact (h.stored r hr pem hdecision).mono hsub

private lemma Queued.openWindow (secs now : Nat) (io : StoreIo) :
    (s.openWindow secs now io).1.Queued share approvals := by
  unfold State.openWindow
  split
  · exact h
  extract_lets untilMs
  have hkept : ((EnrolmentStore.unwrapped (EnrolmentStore.openWindow io s.store untilMs).1)).requests =
      s.persisted.requests := by
    unfold EnrolmentStore.openWindow
    split
    · rfl
    · exact EnrolmentStore.save_rule
        (P := fun store => (EnrolmentStore.unwrapped store).requests = s.persisted.requests)
        io rfl rfl
  split
  all_goals
    rename_i heq
    rw [heq] at hkept
    exact h.congr rfl hkept

private lemma Queued.countP_le {p : Entry → Bool} {q : PersistedRequest → Bool}
    (hpq : ∀ entry r, p entry = true → r.requester.bootstrap = entry.pending.requester.bootstrap → q r = true) :
    s.entries.countP p ≤ s.persisted.requests.countP q := by
  have hsub : s.entries.keysWith p ⊆ ((s.persisted.requests.filter q).map PersistedRequest.id).toFinset := by
    intro id hid
    obtain ⟨entry, hentry, hp⟩ := Map.mem_keysWith.mp hid
    obtain ⟨r, hr, rfl, hbootstrap, _⟩ := h.backed id entry hentry
    rw [mem_toFinset]
    exact mem_map_of_mem (mem_filter.mpr ⟨hr, hpq entry r hp hbootstrap⟩)
  calc s.entries.countP p = (s.entries.keysWith p).card := (Map.card_keysWith _ _).symm
    _ ≤ ((s.persisted.requests.filter q).map PersistedRequest.id).toFinset.card := Finset.card_le_card hsub
    _ ≤ ((s.persisted.requests.filter q).map PersistedRequest.id).length := toFinset_card_le _
    _ = s.persisted.requests.countP q := by rw [length_map, countP_eq_length_filter]

private lemma Queued.bounded : (s.entries.countP fun entry => entry.decision.isNone) ≤ maxPending ∧
      (∀ bootstrap, (s.entries.countP fun entry =>
        entry.decision.isNone && entry.pending.requester.bootstrap = bootstrap) ≤ share) ∧
      (s.persisted.requests.countP fun r => r.decision.isNone) ≤ maxPending ∧
      ∀ bootstrap, (s.persisted.requests.countP fun r =>
        r.decision.isNone && r.requester.bootstrap = bootstrap) ≤ share := by
  refine ⟨?_, ?_, countP_le_length.trans h.room, ?_⟩
  · exact (h.countP_le (q := fun _ => true) fun _ _ _ _ => rfl).trans (countP_le_length.trans h.room)
  · intro bootstrap
    refine (h.countP_le (q := fun r => r.requester.bootstrap = bootstrap) ?_).trans (h.shares bootstrap)
    intro entry r hp hbootstrap
    rw [Bool.and_eq_true, decide_eq_true_eq] at hp
    rw [decide_eq_true_eq, hbootstrap]
    exact hp.2
  · intro bootstrap
    refine (countP_mono_left ?_).trans (h.shares bootstrap)
    intro r _ hr
    rw [Bool.and_eq_true] at hr
    exact hr.2

end

end State

/-! ### Whole runs -/

namespace System

variable {s t : System} {byAct : Bool} {share : Nat}

structure Issues (share : Nat) (s : System) : Prop where
  caches : s.revocations.Caches
  queued : s.enrolment.Queued share s.approvals

private lemma issues_start (ledger : Revocations.Ledger) : (start ledger).Issues share := by
  refine ⟨Revocations.State.caches_of_none (Revocations.State.loaded_frame ledger).2.2.1, ?_⟩
  have hnone : ∀ (id : String) (entry : Entry), (start ledger).enrolment.entries.lookup id ≠ some entry := by
    intro id entry hentry
    cases hentry
  exact ⟨fun id entry hentry => absurd hentry (hnone id entry), fun id entry hentry => absurd hentry (hnone id entry),
    nodup_nil, Nat.zero_le _, fun _ => Nat.zero_le _, fun id entry hentry => absurd hentry (hnone id entry),
    fun _ hr => by cases hr⟩

variable {a : Act} {pem : String} {ledger : Revocations.Ledger}

private lemma caches_act (h : s.revocations.Caches) (hact : s.act byAct share a = some t) : t.revocations.Caches := by
  cases a with
  | approve id io =>
    obtain ⟨_, happrove, _⟩ := act_approve hact
    exact State.caches_approve h happrove
  | revocations act =>
    rw [System.act, Option.map_eq_some_iff] at hact
    obtain ⟨_, hstep, rfl⟩ := hact
    exact Revocations.caches_step h hstep
  | restart io ledger =>
    rw [System.act, Option.map_eq_some_iff] at hact
    obtain ⟨_, _, rfl⟩ := hact
    exact Revocations.State.caches_of_none (Revocations.State.loaded_frame ledger).2.2.1
  | _ =>
    cases hact
    exact h

private lemma recorded_of_approve (h : s.revocations.Caches) {id : String} {io : State.ApproveIo} {entry : Entry}
    {decision : Decision} (hact : s.act byAct share (.approve id io) = some t)
    (hentry : s.enrolment.entries.lookup id = some entry)
    (hsign : State.sign byAct s.now io entry.instanceUid entry.pending.requester.bootstrap s.revocations.built =
      (t.revocations, .ok decision)) (hpem : decision = .approved pem) :
    Recorded t.approvals id entry.pending.requester.bootstrap pem := by
  obtain ⟨signed, hsigned, rfl, hlisted, hentered⟩ := State.sign_ok h.built hsign
  cases hpem
  have hnoted : (⟨id, s.enrolment.entries.lookup id, io.signed, s.now,
    State.afterOthers byAct io.others s.revocations.built,
      t.revocations⟩ : Approving) ∈ t.approvals := by
    cases hact
    exact mem_append_right _ (mem_singleton.mpr rfl)
  exact ⟨_, hnoted, rfl, entry, signed, hentry, rfl, hsigned, rfl, hlisted, hentered⟩

private lemma Issues.act (h : s.Issues share) (hact : s.act byAct share a = some t) : t.Issues share := by
  refine ⟨caches_act h.caches hact, ?_⟩
  obtain ⟨_, _, _, happrovals⟩ := act_frame hact
  have hqueued := h.queued.mono happrovals
  by_cases hopening : ∃ secs io, a = .openWindow secs io
  · obtain ⟨secs, io, rfl⟩ := hopening
    cases hact
    exact hqueued.openWindow secs s.now io
  have hmoves : Moves ⟨s.now, share, fun _ => True, fun entry decision => ∀ pem, decision = .approved pem →
      Recorded t.approvals entry.pending.id entry.pending.requester.bootstrap pem⟩ s.enrolment t.enrolment := by
    refine act_moves hact rfl ?_ (fun _ _ _ _ => trivial) ?_ ?_
    · intro secs io heq
      exact hopening ⟨secs, io, heq⟩
    · intro entry pem hpem
      cases hpem
    · rintro id io entry decision rfl hentry _ hsign pem hpem
      rw [h.queued.key id entry hentry]
      exact recorded_of_approve h.caches hact hentry hsign hpem
  refine hmoves.keep hqueued ?_
  intro u v hbefore hmove
  refine hbefore.move rfl ?_ hmove
  intro entry decision pem hdecides hpem
  exact hdecides pem hpem

private lemma issues_of_reach (h : Reach (start ledger) (step byAct share) s) : s.Issues share := by
  refine h.invariant (issues_start ledger) ?_
  intro s timed t hinv hstep
  unfold step at hstep
  split at hstep
  · cases hstep
  · have hticked : (s.tick timed.1).Issues share := ⟨hinv.caches, hinv.queued⟩
    exact hticked.act hstep

private lemma eq_approved_of_answer {decision : Option Decision} (h : answer decision = .issued pem) :
    decision = some (.approved pem) := by
  unfold answer at h
  split at h
  · cases h
  · cases h
    rfl
  · cases h

private lemma held_of_issued {key : String} (h : Reach (start ledger) (step byAct share) s)
    (houtcome : s.outcome = .submitted key (.issued pem)) :
    ∃ entry, s.enrolment.entries.lookup key = some entry ∧ entry.decision = some (.approved pem) := by
  cases h with
  | refl => cases houtcome
  | @next before _ timed _ hstep =>
    unfold step at hstep
    split at hstep
    · cases hstep
    have hanswers := act_answers hstep rfl
    rw [houtcome] at hanswers
    obtain ⟨request, requester, io, rfl, hsubmit⟩ := hanswers
    obtain ⟨entry, hentry, hanswer, _⟩ := State.submit_shows hsubmit (.inr ⟨pem, rfl⟩)
    exact ⟨entry, hentry, eq_approved_of_answer hanswer⟩

end System

/-- Over a store whose writes may fail and across restarts, a submitter is answered with a certificate only if an
approval of the very request recorded it in the register before, while the list did not revoke the request's bootstrap
certificate; and the requests that wait keep both bounds of the queue. -/
theorem issued_was_recorded {byAct : Bool} {share : Nat} {ledger : Revocations.Ledger} {s : System}
    (h : Reach (System.start ledger) (System.step byAct share) s) :
    (∀ key pem, s.outcome = .submitted key (.issued pem) → ∃ entry, s.enrolment.entries.lookup key = some entry ∧
        Recorded s.approvals key entry.pending.requester.bootstrap pem) ∧
      (s.enrolment.entries.countP fun entry => entry.decision.isNone) ≤ maxPending ∧
      (∀ bootstrap, (s.enrolment.entries.countP fun entry =>
        entry.decision.isNone && entry.pending.requester.bootstrap = bootstrap) ≤ share) ∧
      (s.enrolment.persisted.requests.countP fun r => r.decision.isNone) ≤ maxPending ∧
      ∀ bootstrap, (s.enrolment.persisted.requests.countP fun r =>
        r.decision.isNone && r.requester.bootstrap = bootstrap) ≤ share := by
  have hissues := System.issues_of_reach h
  refine ⟨?_, hissues.queued.bounded⟩
  intro key pem houtcome
  obtain ⟨entry, hentry, hdecision⟩ := System.held_of_issued h houtcome
  exact ⟨entry, hentry, hissues.queued.held key entry hentry pem hdecision⟩

/-- The certificate is collected after a restart. -/
theorem issued_was_recorded_collected : ∃ s, s.outcome = .submitted "key" (.issued "pem") ∧
    Reach (System.start ⟨[], [], ∅⟩) (System.step false 256) s ∧
    ∃ entry, s.enrolment.entries.lookup "key" = some entry ∧
      Recorded s.approvals "key" entry.pending.requester.bootstrap "pem" := by
  have hrun : ∃ s ∈ run (System.step false 256) (System.start ⟨[], [], ∅⟩)
      [(0, .openWindow 1 answersWell), (100, .submit hostRequest hostRequester answersWell),
        (200, .approve "key" signsWell),
        (300, .restart answersWell ⟨[], [], ∅⟩), (400, .submit hostRequest hostRequester answersWell)],
      (match s.outcome with
        | .submitted key (.issued pem) => decide (key = "key" ∧ pem = "pem")
        | _ => false) = true := by
    decide +kernel
  obtain ⟨s, hreach, hissued⟩ := Reach.exists_of_run _ hrun
  have houtcome : s.outcome = .submitted "key" (.issued "pem") := by
    split at hissued
    next key pem heq =>
      obtain ⟨rfl, rfl⟩ := of_decide_eq_true hissued
      exact heq
    · cases hissued
  exact ⟨s, houtcome, hreach, (issued_was_recorded hreach).1 "key" "pem" houtcome⟩

end OpampFleet.Server.Enrolment
