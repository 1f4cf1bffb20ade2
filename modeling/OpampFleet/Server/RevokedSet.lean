import OpampFleet.Lib.Transition
import OpampFleet.Server.Revocations

/-!
# What is revoked

A certificate is revoked when the list names it, or one it descends from. The set built from the register and kept
across the acts on it is exactly that, in every state a run over any ledger reaches (`revoked_iff_reaches`).
-/

namespace OpampFleet.Server.Revocations

open Lib List

namespace State

variable {s : State} {certificate : CertId} {answered : Map CertId Bool}

/-- The list names the certificate, or one that following the predecessor links of registered entries reaches. -/
def Revoked (s : State) (certificate : CertId) : Prop :=
  ∃ ancestor, Links.Follows s.predecessor certificate ancestor ∧ ancestor ∈ s.named

private lemma revoked_iff :
    s.Revoked certificate ↔ Links.Reaches s.predecessor (fun id => id ∈ s.named) certificate := by
  unfold Revoked Links.Reaches
  simp

private lemma revoked_of_named (h : certificate ∈ s.named) : s.Revoked certificate :=
  ⟨certificate, .refl, h⟩

lemma supported (s : State) : Links.Supported s.predecessor s.issued.keys.toFinset := by
  intro a b h
  obtain ⟨entry, hentry, -⟩ := Option.bind_eq_some_iff.mp h
  rw [mem_toFinset]
  exact AList.mem_keys.mp (AList.lookup_isSome.mp (by rw [hentry]; rfl))

lemma card_keys_lt_bound (s : State) : s.issued.keys.toFinset.card < s.bound := by
  unfold bound
  have hcard := toFinset_card_le s.issued.keys
  have hlen : s.issued.keys.length = s.issued.entries.length := length_map _
  omega

def Answers (s : State) (answered : Map CertId Bool) : Prop :=
  ∀ id found, answered.lookup id = some found → (found = true ↔ s.Revoked id)

private lemma lookup_answer (s : State) (answered : Map CertId Bool) (asked other : CertId) :
    (s.answer s.named answered asked).lookup other =
      if other ∈ (Links.search s.predecessor (fun id => id ∈ s.named) answered.lookup s.bound asked).1 then
        some (Links.search s.predecessor (fun id => id ∈ s.named) answered.lookup s.bound asked).2
      else answered.lookup other := by
  have hpath := fun path found =>
    Map.lookup_foldl_insert_eq id (fun _ => found) (fun _ => found) path (fun _ _ => rfl) answered other
  simp only [map_id] at hpath
  exact hpath _ _

private lemma Answers.answer (h : s.Answers answered) (id : CertId) : s.Answers (s.answer s.named answered id) := by
  have hknown : ∀ a found, answered.lookup a = some found →
      (found = true ↔ Links.Reaches s.predecessor (fun id => id ∈ s.named) a) :=
    fun a found ha => (h a found ha).trans revoked_iff
  obtain ⟨-, hpath⟩ := Links.search_spec s.supported s.card_keys_lt_bound hknown id
  intro other found hlookup
  rw [lookup_answer] at hlookup
  split at hlookup
  next hmem =>
    cases hlookup
    exact (hpath other hmem).trans revoked_iff.symm
  · exact h other found hlookup

private lemma isSome_answer (s : State) (answered : Map CertId Bool) (id : CertId) :
    ((s.answer s.named answered id).lookup id).isSome ∨ id ∈ s.named := by
  by_cases hnamed : id ∈ s.named
  · exact .inr hnamed
  left
  rw [lookup_answer]
  split
  · rfl
  rename_i hpath
  rw [← Option.ne_none_iff_isSome]
  intro hknown
  refine hpath ?_
  apply Links.mem_search_path
  · exact hknown
  · exact decide_eq_false hnamed

private lemma foldl_answer (ids : List CertId) (h : s.Answers answered) :
    s.Answers (ids.foldl (s.answer s.named) answered) ∧
      ∀ id, (answered.lookup id).isSome ∨ id ∈ ids →
        ((ids.foldl (s.answer s.named) answered).lookup id).isSome ∨ id ∈ s.named := by
  induction ids generalizing answered with
  | nil => exact ⟨h, fun id hid => .inl (hid.resolve_right (by simp))⟩
  | cons first ids ih =>
    obtain ⟨hanswers, hsome⟩ := ih (h.answer first)
    refine ⟨hanswers, fun id hid => ?_⟩
    have hkept : (answered.lookup id).isSome → ((s.answer s.named answered first).lookup id).isSome := by
      intro hold
      rw [lookup_answer]
      split
      · rfl
      · exact hold
    rcases hid with hold | hmem
    · exact hsome id (.inl (hkept hold))
    rcases mem_cons.mp hmem with rfl | hmem
    · rcases s.isSome_answer answered id with hnew | hnamed
      · exact hsome id (.inl hnew)
      · exact .inr hnamed
    · exact hsome id (.inr hmem)

/-- The set that is built is the revoked certificates, whatever cycles the register's links run in. -/
private lemma mem_resolve : certificate ∈ s.resolve ↔ s.Revoked certificate := by
  have hempty : s.Answers ∅ := by
    intro id found h
    cases h
  obtain ⟨hanswers, hsome⟩ := foldl_answer s.issued.keys hempty
  unfold resolve
  split
  next hnone =>
    refine iff_of_false (Finset.notMem_empty _) ?_
    rintro ⟨ancestor, -, hnamed⟩
    rw [hnone] at hnamed
    exact Finset.notMem_empty _ hnamed
  rw [Finset.mem_union, Map.mem_keysWith]
  constructor
  · rintro (hnamed | ⟨found, hlookup, hfound⟩)
    · exact revoked_of_named hnamed
    · exact (hanswers certificate found hlookup).mp hfound
  intro hrevoked
  by_cases hnamed : certificate ∈ s.named
  · exact .inl hnamed
  right
  -- only a registered certificate descends from another
  have hkey : certificate ∈ s.issued.keys := by
    obtain ⟨ancestor, hfollows, hancestor⟩ := hrevoked
    rcases Relation.ReflTransGen.cases_head hfollows with rfl | ⟨link, hlink, -⟩
    · exact absurd hancestor hnamed
    · exact mem_toFinset.mp (s.supported _ _ hlink)
  obtain ⟨found, hlookup⟩ := Option.isSome_iff_exists.mp ((hsome certificate (.inr hkey)).resolve_right hnamed)
  exact ⟨found, hlookup, (hanswers certificate found hlookup).mpr hrevoked⟩

def Caches (s : State) : Prop := ∀ set, s.revoked = some set → ∀ certificate, certificate ∈ set ↔ s.Revoked certificate

lemma caches_of_none (h : s.revoked = none) : s.Caches := by
  intro set hset
  simp [h] at hset

/-- The cached set answers as the walk does. -/
lemma Caches.mem_revokedSet (h : s.Caches) : certificate ∈ s.revokedSet ↔ s.Revoked certificate := by
  unfold revokedSet
  cases hrevoked : s.revoked with
  | none => exact mem_resolve
  | some set => exact h set hrevoked certificate

private lemma Caches.congr {t : State} (h : s.Caches) (hissued : t.issued = s.issued)
    (hrevocations : t.revocations = s.revocations) (hrevoked : t.revoked = s.revoked) : t.Caches := by
  have hsame : ∀ certificate, t.Revoked certificate ↔ s.Revoked certificate := by
    intro certificate
    unfold Revoked predecessor named
    rw [hissued, hrevocations]
  intro set hset certificate
  rw [hsame]
  exact h set (hrevoked ▸ hset) certificate

lemma Caches.built (h : s.Caches) : s.built.Caches := by
  intro set hset certificate
  cases hset
  exact h.mem_revokedSet

lemma remove_cases (s : State) (id : CertId) : s.remove id = s ∧ s.issued.lookup id = none ∨
    (s.remove id).revoked = none ∧ (s.remove id).issued = s.issued.erase id := by
  unfold remove
  split
  next hnone =>
    exact .inl ⟨rfl, hnone⟩
  right
  simp only
  split
  · exact ⟨rfl, rfl⟩
  · split <;> exact ⟨rfl, rfl⟩

lemma remove_revocations (s : State) (id : CertId) : (s.remove id).revocations = s.revocations := by
  unfold remove
  split
  · rfl
  · simp only
    split
    · rfl
    · split <;> rfl

private lemma Caches.remove (h : s.Caches) (id : CertId) : (s.remove id).Caches := by
  rcases s.remove_cases id with ⟨heq, -⟩ | ⟨hnone, -⟩
  · rwa [heq]
  · exact caches_of_none hnone

lemma insert_issued (s : State) (entry : Issued) :
    (s.insert entry).issued = (s.remove entry.facts.id).issued.insert entry.facts.id entry := by
  unfold State.insert
  simp only
  split
  · split <;> rfl
  · rfl

private lemma insert_revocations (s : State) (entry : Issued) : (s.insert entry).revocations = s.revocations := by
  rw [← s.remove_revocations entry.facts.id]
  unfold State.insert
  simp only
  split
  · split <;> rfl
  · rfl

private lemma insert_revoked (s : State) (entry : Issued) : (s.insert entry).revoked = none ∨
    (s.insert entry).revoked = (s.remove entry.facts.id).revoked ∧
      ∀ set predecessor, (s.remove entry.facts.id).revoked = some set → entry.predecessor = some predecessor →
        predecessor ∈ set → entry.facts.id ∈ set := by
  unfold State.insert
  simp only
  split
  next held link hheld hlink =>
    split
    · exact .inl rfl
    rename_i hkept
    refine .inr ⟨rfl, fun set predecessor hset hpredecessor hin => ?_⟩
    rw [hheld] at hset
    rw [hlink] at hpredecessor
    cases hset
    cases hpredecessor
    by_contra hout
    exact hkept ⟨hin, hout⟩
  next hnone =>
    exact .inr ⟨rfl, fun set predecessor hset hpredecessor => absurd hpredecessor (hnone set predecessor hset)⟩

private lemma predecessor_insert (s : State) (entry : Issued) (id : CertId) : (s.insert entry).predecessor id =
      if id = entry.facts.id then entry.predecessor else (s.remove entry.facts.id).predecessor id := by
  unfold predecessor
  rw [insert_issued, Map.lookup_insert_ite]
  split <;> rfl

private lemma Caches.insert (h : s.Caches) (entry : Issued) : (s.insert entry).Caches := by
  have hremoved := h.remove entry.facts.id
  rcases s.insert_revoked entry with hnone | ⟨hkept, hrenewed⟩
  · exact caches_of_none hnone
  intro set hset certificate
  rw [hkept] at hset
  -- the set is kept only where the entry is new
  have hend : (s.remove entry.facts.id).predecessor entry.facts.id = none := by
    rcases s.remove_cases entry.facts.id with ⟨heq, hnone⟩ | ⟨hnone, -⟩
    · rw [heq, predecessor, hnone]
      rfl
    · simp [hnone] at hset
  have hnamed : (s.insert entry).named = (s.remove entry.facts.id).named := by
    rw [named, named, insert_revocations, remove_revocations]
  have hother : ∀ id, id ≠ entry.facts.id →
    (s.insert entry).predecessor id = (s.remove entry.facts.id).predecessor id := by
    intro id hid
    rw [predecessor_insert, if_neg hid]
  have hlink := s.predecessor_insert entry entry.facts.id
  rw [if_pos rfl] at hlink
  rw [hremoved set hset certificate, revoked_iff, revoked_iff, hnamed]
  cases hpredecessor : entry.predecessor with
  | none =>
    have hsame : (s.insert entry).predecessor = (s.remove entry.facts.id).predecessor := by
      funext id
      by_cases hid : id = entry.facts.id
      · rw [hid, hlink, hpredecessor, hend]
      · exact hother id hid
    rw [hsame]
  | some link =>
    rw [hpredecessor] at hlink
    refine (Links.reaches_of_added_link hend hlink hother (fun hreach => ?_) certificate).symm
    rw [← revoked_iff, ← hremoved set hset] at hreach ⊢
    exact hrenewed set link hset hpredecessor hreach

section Invariant

variable {P : State → Prop} (io : PruneIo)

/-- What each removal keeps, removing them all keeps. -/
lemma removeGone_invariant {gone : List CertId} (h : P s) (hstep : ∀ id ∈ gone, ∀ s, P s → P (s.remove id)) :
    P (removeGone io s gone).1 := by
  induction gone generalizing s with
  | nil => exact h
  | cons id gone ih =>
    rw [forall_mem_cons] at hstep
    unfold removeGone
    split
    · exact h
    · exact ih (hstep.1 s h) hstep.2

lemma removeRevocations_invariant {dropped : List String} (h : P s) (hstep : ∀ id ∈ dropped, ∀ s, P s →
    P { s with revocations := s.revocations.filter fun entry => entry.id ≠ id, revoked := none }) :
    P (removeRevocations io s dropped).1 := by
  induction dropped generalizing s with
  | nil => exact h
  | cons id dropped ih =>
    rw [forall_mem_cons] at hstep
    unfold removeRevocations
    split
    · exact h
    · exact ih (hstep.1 s h) hstep.2

end Invariant

def gone (s : State) (now : Nat) : List CertId := s.issued.keys.filter fun id => id ∉ s.needed now

def pruned (io : PruneIo) (gone : List CertId) (s : State) : State :=
  match removeGone io s gone with
  | (s, .error _) => s
  | (s, .ok ()) => (removeRevocations io s ((s.revocations.filter (namesGone gone)).map Revocation.id)).1

private lemma pruned_nil (io : PruneIo) (s : State) : pruned io [] s = s := by
  have hnone : s.revocations.filter (namesGone []) = [] := filter_eq_nil_iff.mpr (by simp [namesGone])
  simp [pruned, removeGone, hnone, removeRevocations]

lemma prune_eq_pruned (s : State) (byAct : Bool) (now : Nat) (io : PruneIo) (hdue : ¬now < s.earliestExpiryMs) :
    ∃ t : State, t.issued = s.issued ∧ t.revocations = s.revocations ∧ t.revoked = s.revoked ∧
      (s.prune byAct now io).1 = pruned io (s.gone now) t := by
  let hosts : State := if (s.pruneHosts now).2 && !byAct then (s.pruneHosts now).1.hostsChanged.1
    else (s.pruneHosts now).1
  have hsame : hosts.issued = s.issued ∧ hosts.revocations = s.revocations ∧ hosts.revoked = s.revoked := by
    unfold hosts
    split <;> exact ⟨rfl, rfl, rfl⟩
  refine ⟨{ hosts with earliestExpiryMs := hosts.nextExpiryMs now }, hsame.1, hsame.2.1, hsame.2.2, ?_⟩
  have hfst : (if (s.pruneHosts now).2 && !byAct then
      ((s.pruneHosts now).1.hostsChanged.1, some (s.pruneHosts now).1.hostsChanged.2)
      else ((s.pruneHosts now).1, none)).1 = hosts := apply_ite Prod.fst _ _ _
  unfold State.prune
  rw [if_neg hdue]
  simp only [hfst]
  change (if (s.gone now).isEmpty then _ else _ : State × Except String (Option HostsVersion)).1 = _
  split
  next hempty =>
    rw [List.isEmpty_iff.mp hempty, pruned_nil]
  unfold pruned gone
  generalize removeGone io _ _ = removed
  rcases removed with ⟨u, e | ⟨⟩⟩
  · rfl
  · simp only
    generalize removeRevocations io u _ = dropped
    rcases dropped with ⟨v, e | ⟨⟩⟩ <;> rfl

/-- A prune that is not due changes nothing. -/
lemma prune_of_not_due (s : State) (byAct : Bool) (now : Nat) (io : PruneIo) (hdue : now < s.earliestExpiryMs) :
    (s.prune byAct now io).1 = s := by
  unfold State.prune
  rw [if_pos hdue]

lemma Caches.prune (h : s.Caches) (byAct : Bool) (now : Nat) (io : PruneIo) : (s.prune byAct now io).1.Caches := by
  by_cases hdue : now < s.earliestExpiryMs
  · rwa [s.prune_of_not_due byAct now io hdue]
  obtain ⟨t, hissued, hrevocations, hrevoked, heq⟩ := s.prune_eq_pruned byAct now io hdue
  rw [heq]
  have hgone : (removeGone io t (s.gone now)).1.Caches :=
    removeGone_invariant io (h.congr hissued hrevocations hrevoked) fun id _ _ h => h.remove id
  unfold pruned
  split
  next hremoved =>
    rwa [hremoved] at hgone
  next hremoved =>
    rw [hremoved] at hgone
    exact removeRevocations_invariant io hgone fun _ _ _ _ => caches_of_none rfl

lemma admitIssued_cases (s : State) (now : Nat) (facts : Facts) (instanceUid : String) (predecessor : Option CertId)
    (answer : Except String Registered) :
    (∃ e, s.admitIssued now facts instanceUid predecessor answer = (s, .error e)) ∨
      s.admitIssued now facts instanceUid predecessor answer =
        (s.insert ⟨facts, instanceUid, predecessor, now⟩, .ok ()) := by
  unfold State.admitIssued
  extract_lets limit held root live
  split
  · exact .inl ⟨_, rfl⟩
  split
  · exact .inl ⟨_, rfl⟩
  split
  · exact .inl ⟨_, rfl⟩
  rcases answer with e | outcome
  · exact .inl ⟨_, rfl⟩
  · cases outcome with
    | registered => exact .inr rfl
    | full why | revoked | bootstrapRevoked => exact .inl ⟨_, rfl⟩

private lemma Caches.admitIssued (h : s.Caches) (now : Nat) (facts : Facts) (instanceUid : String)
    (predecessor : Option CertId)
    (answer : Except String Registered) : (s.admitIssued now facts instanceUid predecessor answer).1.Caches := by
  rcases s.admitIssued_cases now facts instanceUid predecessor answer with ⟨e, heq⟩ | heq
  · rwa [heq]
  · rw [heq]
    exact h.insert _

private lemma Caches.seeHost (h : s.Caches) (facts : Facts) (mint : Option String) :
    (s.seeHost facts mint).1.Caches := by
  unfold State.seeHost
  split <;> exact h.congr rfl rfl rfl

lemma Caches.recordWith (h : s.Caches) (byAct : Bool) (now : Nat) (facts : Facts) (instanceUid : String)
    (predecessor bootstrap : Option CertId) (io : RecordIo) :
    (s.recordWith byAct now facts instanceUid predecessor bootstrap io).1.Caches := by
  have hbuilt : (if bootstrap.isSome then s.built else s).Caches := by
    split
    · exact h.built
    · exact h
  unfold State.recordWith
  simp only
  generalize (if bootstrap.isSome then s.built else s) = t at hbuilt
  split
  · exact hbuilt
  have hpruned := hbuilt.prune byAct now io.prune
  split
  next heq =>
    rwa [heq] at hpruned
  rename_i u forgotten heq
  rw [heq] at hpruned
  have hadmitted := hpruned.admitIssued now facts instanceUid predecessor io.registered
  split
  next heq =>
    rwa [heq] at hadmitted
  rename_i heq
  rw [heq] at hadmitted
  have hseen := hadmitted.seeHost facts (u.mints facts predecessor)
  split
  · exact hseen
  · split
    · exact hseen.congr rfl rfl rfl
    · exact hseen

private lemma Caches.add (h : s.Caches) (entry : Revocation) (answer : Except String Added) :
    (s.add entry answer).Caches := by
  unfold State.add
  cases answer with
  | error e => exact h
  | ok outcome =>
    cases outcome
    case full => exact h
    all_goals
      simp only
      split
      · split
        · exact h
        · exact caches_of_none rfl
      · exact caches_of_none rfl

private lemma Caches.lift (h : s.Caches) (id : String) (answer : Except String Bool) : (s.lift id answer).Caches := by
  unfold State.lift
  cases answer with
  | error e => exact h
  | ok lifted =>
    simp only
    by_cases hlen : (s.revocations.filter fun entry => entry.id ≠ id).length = s.revocations.length
    · have hsame := List.Sublist.eq_of_length filter_sublist hlen
      refine h.congr rfl hsame ?_
      rw [if_neg (not_not.mpr hlen)]
    · refine caches_of_none ?_
      rw [if_pos hlen]

end State

inductive Act where
  | record (now : Nat) (facts : Facts) (instanceUid : String) (predecessor bootstrap : Option CertId)
    (io : State.RecordIo)
  | add (entry : Revocation) (answer : Except String State.Added)
  | lift (id : String) (answer : Except String Bool)
  | prune (now : Nat) (io : State.PruneIo)
  | reload (ledger : Ledger)
  | check

def step (byAct : Bool) (s : State) : Act → Option State
  | .record now facts instanceUid predecessor bootstrap io =>
    some (s.recordWith byAct now facts instanceUid predecessor bootstrap io).1
  | .add entry answer => some (s.add entry answer)
  | .lift id answer => some (s.lift id answer)
  | .prune now io => some (s.prune byAct now io).1
  | .reload ledger => some (s.reload ledger)
  | .check => some s.built

/-- Every act keeps the cached set right. -/
lemma caches_step {byAct : Bool} {s t : State} {a : Act} (h : s.Caches) (hstep : step byAct s a = some t) :
    t.Caches := by
  cases a with
  | record now facts instanceUid predecessor bootstrap io =>
    cases hstep
    exact h.recordWith byAct now facts instanceUid predecessor bootstrap io
  | add entry answer =>
    cases hstep
    exact h.add entry answer
  | lift id answer =>
    cases hstep
    exact h.lift id answer
  | prune now io =>
    cases hstep
    exact h.prune byAct now io
  | reload ledger =>
    cases hstep
    have hloaded : (State.loaded ledger).Caches := State.caches_of_none (State.loaded_frame ledger).2.2.1
    exact hloaded.built.congr rfl rfl rfl
  | check =>
    cases hstep
    exact h.built

private lemma caches_of_reach {byAct : Bool} {ledger : Ledger} {s : State}
    (h : Reach (State.loaded ledger) (step byAct) s) :
    s.Caches := by
  refine h.invariant (State.caches_of_none (State.loaded_frame ledger).2.2.1) ?_
  intro s a t hinv hstep
  exact caches_step hinv hstep

/-- A check answers that a certificate is revoked exactly when the list names it or one it descends from, and the set
that is kept holds exactly these. -/
theorem revoked_iff_reaches {byAct : Bool} {ledger : Ledger} {s : State}
    (h : Reach (State.loaded ledger) (step byAct) s) :
    (∀ certificate, s.isCertificateRevoked certificate = true ↔ s.Revoked certificate) ∧
      ∀ set, s.revoked = some set → ∀ certificate, certificate ∈ set ↔ s.Revoked certificate := by
  have hcaches := caches_of_reach h
  refine ⟨fun certificate => ?_, hcaches⟩
  rw [State.isCertificateRevoked, decide_eq_true_eq]
  exact hcaches.mem_revokedSet

def circular : Ledger where
  issued :=
    [⟨⟨⟨"ca", "01"⟩, 50, none, ∅⟩, "", some ⟨"ca", "02"⟩, 0⟩, ⟨⟨⟨"ca", "02"⟩, 50, none, ∅⟩, "", some ⟨"ca", "01"⟩, 0⟩]
  revocations := [⟨"entry", "agent", ["ca"], "02", 0⟩]
  hosts := ∅

/-- Two certificates, each the predecessor of the other. -/
theorem revoked_iff_reaches_circular :
    ∃ s, Reach (State.loaded circular) (step false) s ∧ s.revoked.isSome ∧ s.isCertificateRevoked ⟨"ca", "01"⟩ = true ∧
      s.Revoked ⟨"ca", "01"⟩ := by
  refine Reach.exists_of_run_imp (p := fun s => s.revoked.isSome ∧ s.isCertificateRevoked ⟨"ca", "01"⟩ = true) [.check]
    (by decide +kernel) ?_
  rintro s hreach ⟨hsome, hrevoked⟩
  exact ⟨hsome, hrevoked, ((revoked_iff_reaches hreach).1 _).mp hrevoked⟩

end OpampFleet.Server.Revocations
