import OpampFleet.Gateway.Codec
import OpampFleet.Gateway.Turns

/-!
# What each step of the cache can do

One inversion lemma for each half of a bind and for each piece of the store writer, so that an invariant of the cache is
proved by one case for each thing that can happen.
-/

namespace OpampFleet.Gateway.Cache

open Lib Opamp List Option Map Bindings

inductive Begins (cache : Cache) (uid : InstanceUid) (host : String) (fin : End)
    (idle : InstanceUid → Bool) : Cache → Prop
  | idles {b : Bindings} {outcome : Outcome} (h : cache.bindings.Idles uid host b outcome) :
      Begins cache uid host fin idle { cache with bindings := b }
  | keeps {b : Bindings} {outcome : Outcome} (h : cache.bindings.Refreshes uid host fin b outcome)
      (stays : ¬cache.bindings.Moves host fin) :
      Begins cache uid host fin idle (({ cache with bindings := b } : Cache).register ⟨uid, host, none, some true⟩)
  | moves {b : Bindings} {outcome : Outcome} (h : cache.bindings.Refreshes uid host fin b outcome)
      (moved : cache.bindings.Moves host fin) :
      Begins cache uid host fin idle (({ cache with bindings := b } : Cache).enqueueBind uid host none [.ends host fin])
  | binds {b : Bindings} {outcome : Outcome} (h : cache.bindings.Binds uid host fin idle b outcome) :
      Begins cache uid host fin idle
        (({ cache with bindings := b } : Cache).enqueueBind uid host (some (cache.bindings.tick + 1)) outcome.changes)
  | long {b : Bindings} {outcome : Outcome} (h : cache.bindings.Refreshes uid host fin b outcome ∨
      cache.bindings.Binds uid host fin idle b outcome) :
      Begins cache uid host fin idle (({ cache with bindings := b } : Cache).refuseLong uid outcome.changes)

/-- Every case of `beginBind` is one of `Begins`. -/
lemma begins_beginBind {cache : Cache} (hindex : cache.bindings.HostIndex) (limits : Limits) (uid : InstanceUid)
    (host : String) (fin : End) (now : Int) (idle : InstanceUid → Bool) :
    Begins cache uid host fin idle (cache.beginBind limits uid host fin now idle).1 := by
  unfold beginBind
  rcases hbind : cache.bindings.bind uid host fin now limits idle with ⟨b, outcome⟩
  simp only
  rcases hindex.bind_cases hbind with h | h | ⟨h, -⟩
  · have hother : outcome.bound = .kept → b.hostOf uid ≠ some host := by
      intro hkept
      obtain ⟨tick, -, rfl⟩ := h.eq
      exact h.other hkept
    split
    · exact .idles h
    · exact .idles h
    next hw hr =>
      have hkept : outcome.bound = .kept := by
        cases hb : outcome.bound with
        | kept => rfl
        | new => exact absurd hb h.bound
        | refused why => exact absurd hb (hr why)
        | waiting => exact absurd hb hw
      rw [if_pos (hother hkept)]
      exact .idles h
  · have hbound : outcome.bound = .kept := by rw [h.outcome_eq]
    have hchanges : outcome.changes = if cache.bindings.Moves host fin then [.ends host fin] else [] := by
      rw [h.outcome_eq]
    have hhost : b.hostOf uid = some host := by
      rw [h.hostOf_eq]
      obtain ⟨binding, hb, hp⟩ := (Option.any_eq_true _ _).mp h.held
      simp only [Bool.and_eq_true, beq_iff_eq] at hp
      simp [hostOf, hb, hp.1]
    simp only [hbound, hhost, ne_eq, not_true_eq_false, if_false, reduceCtorEq]
    by_cases hm : cache.bindings.Moves host fin
    · have hc : outcome.changes = [.ends host fin] := by rw [hchanges, if_pos hm]
      split
      next hempty =>
        simp [hc] at hempty
      · split
        · exact .long (.inl h)
        · rw [hc]
          exact .moves h hm
    · have hc : outcome.changes = [] := by rw [hchanges, if_neg hm]
      rw [if_pos (by simp [hc])]
      exact .keeps h hm
  · have hhost : b.hostOf uid = some host := by
      rw [hostOf, h.bound, if_pos rfl]
      rfl
    simp only [h.bound_eq, hhost, ne_eq, not_true_eq_false, if_false, if_true]
    have hne : outcome.changes.isEmpty = false := by
      rw [h.changes]
      simp
    rw [hne]
    simp only [Bool.false_eq_true, if_false]
    split
    · exact .long (.inr h)
    · rw [h.tick]
      exact .binds h

inductive Finishes (cache : Cache) (id : BindId) : Cache → Prop
  | commits {bind : Underway} (h : cache.binds.lookup id = some bind) (written : bind.answer = some true) :
      Finishes cache id { cache with binds := cache.binds.erase id, bindings := cache.bindings.commit bind.uid }
  | drops {bind : Underway} (h : cache.binds.lookup id = some bind) (written : bind.answer = some false) :
      Finishes cache id { cache with binds := cache.binds.erase id }
  | aborts {bind : Underway} {binding : Binding} (h : cache.binds.lookup id = some bind)
      (written : bind.answer = some false) (held : cache.bindings.bound.lookup bind.uid = some binding)
      (pending : binding.pending = true) :
      Finishes cache id (({ cache with
        binds := cache.binds.erase id
        bindings := cache.bindings.unbind bind.uid false } : Cache).enqueue [.unbound bind.uid] none)

variable {id : BindId}

/-- Every case of `finishBind` is one of `Finishes`. -/
lemma finishes_finishBind {cache cache' : Cache} {bound : Bool}
    (h : cache.finishBind id = some (cache', bound)) : Finishes cache id cache' := by
  unfold finishBind at h
  split at h
  next uid host made written hbind =>
    cases written with
    | true =>
      simp only [if_true, some.injEq, Prod.mk.injEq] at h
      rw [← h.1]
      exact .commits hbind rfl
    | false =>
      simp only [Bool.false_eq_true, if_false, some.injEq, Prod.mk.injEq] at h
      rw [← h.1]
      unfold abort
      by_cases hp : (cache.bindings.bound.lookup uid).any Binding.pending = true
      · obtain ⟨binding, hheld, hpending⟩ := (Option.any_eq_true _ _).mp hp
        simp only [hp, if_true, isEmpty_cons, Bool.false_eq_true, if_false]
        exact .aborts hbind rfl hheld hpending
      · simp only [hp, Bool.false_eq_true, if_false, isEmpty_nil, if_true]
        exact .drops hbind rfl
  · cases h

structure Queues (cache : Cache) (finished : Option BindId) (cache' : Cache) (added : List Change) : Prop where
  file : cache'.file = cache.file
  journal : cache'.journal = cache.journal
  phase : cache'.phase = cache.phase
  queue : cache'.queue = cache.queue ++ added
  turn : ∃ made committed, Bindings.Turn cache.bindings cache'.bindings made committed added ∧
    (∀ uid, made = some uid → some cache.nextBind ∈ cache'.waiting) ∧
    ∀ uid, committed = some uid → ∃ id bind, finished = some id ∧ cache.binds.lookup id = some bind ∧ bind.uid = uid ∧
      bind.answer = some true
  binds : ∀ id bind, cache'.binds.lookup id = some bind → cache.binds.lookup id = some bind ∨
    id = cache.nextBind ∧ cache.nextBind < cache'.nextBind ∧ ∀ tick, bind.made = some tick →
      tick = cache.bindings.tick + 1 ∧ tick ≤ cache'.bindings.tick ∧ bind.answer = none ∧
      cache.bindings.bound.lookup bind.uid = none
  waiting : ∀ id, some id ∈ cache'.waiting → some id ∈ cache.waiting ∨
    id = cache.nextBind ∧ cache.nextBind < cache'.nextBind
  nextBind : cache.nextBind ≤ cache'.nextBind
  reports : ∀ changes ∈ cache'.reports, changes ∈ cache.reports ∨ ∀ change ∈ changes, ∃ uid, change = .reported uid

section Tasks

variable {cache cache' : Cache} {b : Bindings} {added : List Change}

private lemma queues_of_turn (hturn : Bindings.Turn cache.bindings b none none added) :
    cache.Queues none { cache with bindings := b, queue := cache.queue ++ added } added where
  file := rfl
  journal := rfl
  phase := rfl
  queue := rfl
  turn := ⟨none, none, hturn, by simp, by simp⟩
  binds _ _ h := .inl h
  waiting _ h := .inl h
  nextBind := le_refl _
  reports _ h := .inl h

private lemma Queues.register (h : cache.Queues none cache' added) (bind : Underway)
    (hnext : cache'.nextBind = cache.nextBind) (hmade : bind.made = none) :
    cache.Queues none (cache'.register bind) added where
  file := h.file
  journal := h.journal
  phase := h.phase
  queue := h.queue
  turn := h.turn
  binds id other hb := by
    simp only [Cache.register, hnext] at hb
    rcases lookup_of_insert hb with ⟨hid, rfl⟩ | hb
    · exact .inr ⟨hid, Nat.lt_succ_of_le h.nextBind, fun tick ht => by simp [hmade] at ht⟩
    · exact (h.binds id other hb).imp_right fun hnew => ⟨hnew.1, hnew.2.1.trans (Nat.lt_succ_self _), hnew.2.2⟩
  waiting id hw := (h.waiting id hw).imp_right fun hnew => ⟨hnew.1, hnew.2.trans (Nat.lt_succ_self _)⟩
  nextBind := h.nextBind.trans (Nat.le_succ _)
  reports := h.reports

private lemma queues_enqueueBind {made : Option InstanceUid} (hturn : Bindings.Turn cache.bindings b made none added)
    (uid : InstanceUid) (host : String) (tick : Option Nat)
    (htick : ∀ t, tick = some t → t = cache.bindings.tick + 1 ∧ t ≤ b.tick ∧ cache.bindings.bound.lookup uid = none) :
    cache.Queues none (({ cache with bindings := b } : Cache).enqueueBind uid host tick added) added where
  file := rfl
  journal := rfl
  phase := rfl
  queue := rfl
  turn := ⟨made, none, hturn, fun _ _ => by simp [enqueueBind, enqueue, Cache.register], by simp⟩
  binds id bind hb := by
    simp only [enqueueBind, enqueue, Cache.register] at hb
    rcases lookup_of_insert hb with ⟨hid, rfl⟩ | hb
    · refine .inr ⟨hid, Nat.lt_succ_self _, fun t ht => ?_⟩
      obtain ⟨h1, h2, h3⟩ := htick t ht
      exact ⟨h1, h2, rfl, h3⟩
    · exact .inl hb
  waiting id hw := by
    simp only [enqueueBind, enqueue, Cache.register, mem_append, mem_singleton, some.injEq] at hw ⊢
    exact hw.imp_right fun hid => ⟨hid, Nat.lt_succ_self _⟩
  nextBind := Nat.le_succ _
  reports _ h := .inl h

/-- Beginning a bind only queues. -/
lemma Begins.queues {uid : InstanceUid} {host : String} {fin : End} {idle : InstanceUid → Bool}
    (h : Begins cache uid host fin idle cache') (hindexed : cache.bindings.Indexed) :
    ∃ added, cache.Queues none cache' added := by
  cases h with
  | idles h =>
    have hq := queues_of_turn (h.turn hindexed)
    rw [append_nil] at hq
    exact ⟨_, hq⟩
  | @keeps b outcome h stays =>
    have hnil : outcome.changes = [] := by rw [h.outcome_eq, if_neg stays]
    have hq := queues_of_turn (hnil ▸ h.turn hindexed)
    rw [append_nil] at hq
    exact ⟨_, hq.register ⟨uid, host, none, some true⟩ rfl rfl⟩
  | @moves b outcome h moved =>
    have hends : outcome.changes = [.ends host fin] := by rw [h.outcome_eq, if_pos moved]
    exact ⟨_, queues_enqueueBind (hends ▸ h.turn hindexed) uid host none (by simp)⟩
  | @binds b outcome h =>
    refine ⟨_, queues_enqueueBind (h.turn hindexed) uid host _ fun t ht => ?_⟩
    cases ht
    exact ⟨rfl, by rw [h.tick], h.unbound⟩
  | @long b outcome h =>
    have hturn := h.elim (fun h => h.turn_of_long hindexed) fun h => h.turn_of_long hindexed
    have hq := queues_of_turn hturn
    rw [← append_assoc] at hq
    exact ⟨_, hq⟩

/-- Finishing a bind only queues. -/
lemma Finishes.queues (h : Finishes cache id cache') (hindexed : cache.bindings.Indexed) :
    ∃ added, cache.Queues (some id) cache' added := by
  have hbinds : ∀ other bind, (cache.binds.erase id).lookup other = some bind →
    cache.binds.lookup other = some bind := by
    intro other bind hb
    exact lookup_of_erase hb
  cases h with
  | @commits bind h written =>
    refine ⟨[], rfl, rfl, rfl, (append_nil _).symm, ⟨none, some bind.uid, commit_turn hindexed bind.uid,
      by simp, fun uid hu => ⟨id, bind, rfl, h, Option.some.inj hu, written⟩⟩, fun other bind hb =>
        .inl (hbinds _ _ hb),
      fun _ hw => .inl hw, le_refl _, fun _ hr => .inl hr⟩
  | drops h written =>
    exact ⟨[], rfl, rfl, rfl, (append_nil _).symm, ⟨none, none, reported_turn hindexed (by simp), by simp,
      by simp⟩, fun other bind hb => .inl (hbinds _ _ hb), fun _ hw => .inl hw, le_refl _, fun _ hr => .inl hr⟩
  | aborts h written held pending =>
    refine ⟨[.unbound _], rfl, rfl, rfl, rfl, ⟨none, none, unbind_turn hindexed _, by simp, by simp⟩,
      fun other bind hb => .inl (hbinds _ _ hb), fun other hw => .inl ?_, le_refl _, fun _ hr => .inl hr⟩
    simpa [enqueue] using hw

section

variable (hindexed : cache.bindings.Indexed)
include hindexed

/-- Ending certificates only queues. -/
lemma queues_endCertificates (now : Int) (revoked : Option (End → Bool)) :
    ∃ added, cache.Queues none (cache.endCertificates now revoked).1 added := by
  have hturn := endAll_turn hindexed now revoked
  unfold endCertificates
  simp only
  split
  · exact ⟨[], rfl, rfl, rfl, (append_nil _).symm, ⟨none, none, reported_turn hindexed (by simp), by simp,
      by simp⟩, fun _ _ h => .inl h, fun _ h => .inl h, le_refl _, fun _ h => .inl h⟩
  · have hq := queues_of_turn hturn
    exact ⟨_, hq.file, hq.journal, hq.phase, hq.queue, ⟨none, none, hturn, by simp, by simp⟩, hq.binds,
      fun id hw => .inl (by simpa [enqueue] using hw), hq.nextBind, hq.reports⟩

private lemma queues_takeReports : ∃ added, cache.Queues none cache.takeReports added := by
  refine ⟨[], rfl, rfl, rfl, (append_nil _).symm, ⟨none, none, reports_turn hindexed, by simp, by simp⟩,
    fun _ _ h => .inl h, fun _ h => .inl h, le_refl _, fun changes hmem => ?_⟩
  simp only [takeReports] at hmem
  split at hmem
  · exact .inl hmem
  rw [mem_append, mem_singleton] at hmem
  refine hmem.imp_right fun heq change hchange => ?_
  rw [heq] at hchange
  obtain ⟨r, -, rfl⟩ := List.mem_map.mp hchange
  exact ⟨r.2, rfl⟩

private lemma queues_queueReports
    (hreports : ∀ changes ∈ cache.reports, ∀ change ∈ changes, ∃ uid, change = .reported uid)
    (h : cache.queueReports = some cache') : ∃ added, cache.Queues none cache' added := by
  unfold queueReports at h
  split at h
  · cases h
  rename_i changes rest hr
  cases h
  have hlines : ∀ change ∈ changes, ∃ uid, change = Change.reported uid := hreports changes (by simp [hr])
  refine ⟨changes, rfl, rfl, rfl, rfl, ⟨none, none, reported_turn hindexed hlines, by simp, by simp⟩,
    fun _ _ h => .inl h, fun id hw => .inl (by simpa [enqueue] using hw), le_refl _, fun other hmem => .inl ?_⟩
  rw [hr]
  exact mem_cons_of_mem _ hmem

end

end Tasks

section Writer

variable {cache cache' : Cache} {stored : List Change} {phase : Phase} {finished : Option BindId} {act : Act}
  {added : List Change}

def Stores (cache : Cache) (stored : List Change) : Prop :=
  match cache.journal with
  | none => load cache.file = .ok stored
  | some journal => Keeps journal cache.file stored

lemma Stores.load (h : cache.Stores stored) : load cache.file = .ok stored := by
  unfold Stores at h
  split at h
  · exact h
  · exact h.load

lemma Stores.keeps {journal : Journal} (h : cache.Stores stored)
    (hopen : cache.journal = some journal) : Keeps journal cache.file stored := by
  simpa only [Stores, hopen] using h

lemma Stores.queues (h : cache.Stores stored) (hq : cache.Queues finished cache' added) : cache'.Stores stored := by
  unfold Stores at h ⊢
  rwa [hq.journal, hq.file]

def waitsFor (rewrite : Rewrite) : List Waiter := rewrite.waiting ++ rewrite.replaces.getD []

/-- A write is over: who waits for it is told, and the moves it was to settle are kept or undone. -/
def settled (cache : Cache) (waiting : List Waiter) (hosts : List String) (written : Bool) (phase : Phase) : Cache :=
  { cache.tell waiting written with bindings := cache.bindings.compacted hosts written, phase := phase }

inductive Writes (cache : Cache) : Act → Cache → Prop
  | flush {written : Bool} (phase : cache.phase = .idle written) :
      Writes cache .flush { cache with queue := [], waiting := [], phase := .taken cache.queue cache.waiting }
  | unopened {io : AppendIo} {changes : List Change} {waiting : List Waiter}
    (phase : cache.phase = .taken changes waiting)
      (journal : cache.journal = none) :
      Writes cache (.append io) (cache.settled waiting (endHosts changes) false (.answered false))
  | append {io : AppendIo} {changes : List Change} {waiting : List Waiter} {journal : Journal}
      {result : Option Bytes × Journal × Bool} (phase : cache.phase = .taken changes waiting)
      (opened : cache.journal = some journal) (appends : Appends journal cache.file changes result) :
      Writes cache (.append io) { cache with
        file := result.1
        journal := some result.2.1
        phase := if result.2.2 then .appended changes waiting else .refused changes waiting }
  | settle {changes : List Change} {waiting : List Waiter} (phase : cache.phase = .appended changes waiting) :
      Writes cache .settle (cache.settled waiting (endHosts changes) true (.answered true))
  | copyRefused {changes : List Change} {waiting : List Waiter} (phase : cache.phase = .refused changes waiting) :
      Writes cache .copy (cache.copyFor (some waiting) changes)
  | copyGrown (phase : cache.phase = .grown) : Writes cache .copy (cache.copyFor none [])
  | rewrite {io : RewriteIo} {rewrite : Rewrite} {journal : Journal} {result : Option Bytes × Journal × Bool}
      (phase : cache.phase = .copied rewrite) (opened : cache.journal = some journal)
      (rewrites : Rewrites journal cache.file io rewrite.changes result) :
      Writes cache (.rewrite io)
        { cache with file := result.1, journal := some result.2.1, phase := .rewritten rewrite result.2.2 }
  | settleRewrite {rewrite : Rewrite} {written : Bool} (phase : cache.phase = .rewritten rewrite written) :
      Writes cache .settleRewrite (cache.settled (waitsFor rewrite) rewrite.moving written
        (if rewrite.replaces.isSome then .answered written else .idle true))
  | grown (phase : cache.phase = .answered true) : Writes cache .measure { cache with phase := .grown }
  | measure {written : Bool} (phase : cache.phase = .answered written) :
      Writes cache .measure { cache with phase := .idle written }
  | opened {now : Int} {io : RewriteIo} {lines : List Change} {b : Bindings} {file : Option Bytes} {journal : Journal}
      (loads : load cache.file = .ok lines) (replayed : Bindings.Replayed lines b)
      (keeps : Keeps journal file (b.endAll now none).1.snapshot) :
      Writes cache (.restart now io) { closed file with journal := some journal, bindings := (b.endAll now none).1 }
  | closed {now : Int} {io : RewriteIo} {file : Option Bytes} (loads : ∀ lines, load cache.file = .ok lines →
      load file = .ok lines ∨ ∃ b, Bindings.Replayed lines b ∧ load file = .ok (b.endAll now none).1.snapshot) :
      Writes cache (.restart now io) (closed file)

lemma writes_flush (h : cache.flush = some cache') : Writes cache .flush cache' := by
  unfold flush at h
  split at h
  next hphase =>
    split at h <;> cases h
    exact .flush hphase
  · cases h

lemma writes_append {io : AppendIo} (h : cache.append io = some cache') : Writes cache (.append io) cache' := by
  unfold append at h
  split at h
  next hphase =>
    split at h <;> cases h
    next hjournal =>
      exact .unopened hphase hjournal
    next hjournal =>
      exact .append hphase hjournal (appends_append _ io _ _)
  · cases h

lemma writes_settle (h : cache.settle = some cache') : Writes cache .settle cache' := by
  unfold settle at h
  split at h <;> cases h
  rename_i hphase
  exact .settle hphase

lemma writes_copy (h : cache.copy = some cache') : Writes cache .copy cache' := by
  unfold copy at h
  split at h <;> cases h
  next hphase =>
    exact .copyRefused hphase
  next hphase =>
    exact .copyGrown hphase

lemma writes_rewrite {io : RewriteIo} (h : cache.rewrite io = some cache') : Writes cache (.rewrite io) cache' := by
  unfold rewrite at h
  split at h <;> cases h
  rename_i hphase hjournal
  exact .rewrite hphase hjournal (rewrites_compact _ io _ _)

lemma writes_settleRewrite (h : cache.settleRewrite = some cache') : Writes cache .settleRewrite cache' := by
  unfold settleRewrite at h
  split at h <;> cases h
  rename_i rewrite written hphase
  have hw := Writes.settleRewrite hphase
  unfold waitsFor at hw
  cases hreplaces : rewrite.replaces with
  | none =>
    rwa [hreplaces, getD_none, append_nil] at hw
  | some waiting =>
    rwa [hreplaces] at hw

lemma writes_measure (h : cache.measure = some cache') : Writes cache .measure cache' := by
  unfold measure at h
  split at h <;> cases h
  rename_i written hphase
  split
  next hgrown =>
    simp only [Bool.and_eq_true] at hgrown
    exact .grown (hgrown.1 ▸ hphase)
  · exact .measure hphase

lemma writes_openStore (cache : Cache) (now : Int) (io : RewriteIo) :
    Writes cache (.restart now io) (openStore cache.file now io) := by
  have hclosed : Writes cache (.restart now io) (closed cache.file) := .closed fun lines hload => .inl hload
  unfold openStore
  split
  · exact hclosed
  rename_i lines hload
  rcases replay_cases lines with ⟨e, he, -⟩ | ⟨b, hb, hreplayed⟩
  · rwa [he]
  rw [hb]
  have hrewrites := rewrites_compact Journal.unwritten io cache.file (b.endAll now none).1.snapshot
  simp only
  generalize Journal.unwritten.compact io cache.file _ = result at hrewrites ⊢
  cases hrewrites with
  | written keeps => exact .opened hload hreplayed keeps
  | kept keeps => exact hclosed
  | unsynced keeps =>
    refine .closed fun lines' hload' => .inr ⟨b, ?_, keeps.load⟩
    rwa [Except.ok.inj (hload'.symm.trans hload)]

def told : Phase → List Waiter
  | .taken _ waiting | .appended _ waiting | .refused _ waiting => waiting
  | .copied rewrite | .rewritten rewrite _ => waitsFor rewrite
  | .idle _ | .answered _ | .grown => []

lemma lookup_tell {waiting : List Waiter} {written : Bool} {bind : Underway}
    (h : (cache.tell waiting written).binds.lookup id = some bind) : ∃ before, cache.binds.lookup id = some before ∧
      bind.uid = before.uid ∧ bind.made = before.made ∧
      bind.answer = if some id ∈ waiting then some written else before.answer := by
  simp only [tell, lookup_mapValues, map_eq_some_iff] at h
  obtain ⟨before, hb, rfl⟩ := h
  refine ⟨before, hb, ?_⟩
  split <;> exact ⟨rfl, rfl, rfl⟩

structure Tidy (cache : Cache) : Prop where
  indexed : cache.bindings.Indexed
  reports : ∀ changes ∈ cache.reports, ∀ change ∈ changes, ∃ uid, change = .reported uid
  made_le : ∀ id bind tick, cache.binds.lookup id = some bind → bind.made = some tick → tick ≤ cache.bindings.tick
  bind_lt : ∀ id bind, cache.binds.lookup id = some bind → id < cache.nextBind
  waiting_lt : ∀ id, some id ∈ cache.waiting → id < cache.nextBind
  told_lt : ∀ id, some id ∈ told cache.phase → id < cache.nextBind

lemma tidy_closed (file : Option Bytes) : (closed file).Tidy where
  indexed := indexed_empty
  reports := by simp [closed]
  made_le := by simp [closed]
  bind_lt := by simp [closed]
  waiting_lt := by simp [closed]
  told_lt := by simp [closed, told]

lemma Tidy.queues (h : cache.Tidy) (hq : cache.Queues finished cache' added) : cache'.Tidy := by
  obtain ⟨made, committed, hturn, -⟩ := hq.turn
  refine ⟨hturn.indexed, fun changes hmem => ?_, fun id bind tick hb ht => ?_, fun id bind hb => ?_, fun id hw => ?_,
    fun id hw => ?_⟩
  · rcases hq.reports changes hmem with hold | hnew
    · exact h.reports changes hold
    · exact hnew
  · rcases hq.binds id bind hb with hold | ⟨-, hnew⟩
    · exact (h.made_le id bind tick hold ht).trans hturn.tick
    · exact (hnew.2 tick ht).2.1
  · rcases hq.binds id bind hb with hold | ⟨rfl, hlt, -⟩
    · exact (h.bind_lt id bind hold).trans_le hq.nextBind
    · exact hlt
  · rcases hq.waiting id hw with hold | ⟨rfl, hlt⟩
    · exact (h.waiting_lt id hold).trans_le hq.nextBind
    · exact hlt
  · rw [hq.phase] at hw
    exact (h.told_lt id hw).trans_le hq.nextBind

private lemma Tidy.settles (h : cache.Tidy) (waiting : List Waiter) (hosts : List String) (written : Bool)
    (hphase : told phase = []) : (cache.settled waiting hosts written phase).Tidy where
  indexed := h.indexed.compacted hosts written
  reports := h.reports
  made_le id bind tick hb ht := by
    obtain ⟨before, hbefore, -, hmade, -⟩ := lookup_tell hb
    exact (h.made_le id before tick hbefore (hmade ▸ ht)).trans_eq (compacted_frame _ _ _).2.2.symm
  bind_lt id bind hb := by
    obtain ⟨before, hbefore, -⟩ := lookup_tell hb
    exact h.bind_lt id before hbefore
  waiting_lt := h.waiting_lt
  told_lt id hw := by simp [settled, hphase] at hw

private lemma Tidy.takes (h : cache.Tidy) (hphase : ∀ id, some id ∈ told phase →
    some id ∈ told cache.phase ∨ some id ∈ cache.waiting) :
    ({ cache with queue := [], waiting := [], phase := phase } : Cache).Tidy where
  indexed := h.indexed
  reports := h.reports
  made_le := h.made_le
  bind_lt := h.bind_lt
  waiting_lt id hw := by simp at hw
  told_lt id hw := (hphase id hw).elim (h.told_lt id) (h.waiting_lt id)

private lemma Tidy.writes (h : cache.Tidy) (file : Option Bytes) (journal : Option Journal)
    (hphase : ∀ waiter ∈ told phase, waiter ∈ told cache.phase) :
    ({ cache with file := file, journal := journal, phase := phase } : Cache).Tidy where
  indexed := h.indexed
  reports := h.reports
  made_le := h.made_le
  bind_lt := h.bind_lt
  waiting_lt := h.waiting_lt
  told_lt id hw := h.told_lt id (hphase _ hw)

def finishes : Act → Option BindId
  | .finishBind id => some id
  | _ => none

/-- A step is of a task that queues, or of the store writer. -/
lemma Tidy.step_cases (h : cache.Tidy) {limits : Limits} (hstep : cache.step limits act = some cache') :
    (∃ added, cache.Queues (finishes act) cache' added) ∨ Writes cache act cache' := by
  cases act with
  | beginBind uid host fin now idle =>
    cases hstep
    exact .inl ((begins_beginBind h.indexed.toHostIndex limits uid host fin now idle).queues h.indexed)
  | finishBind id =>
    obtain ⟨⟨cache'', bound⟩, hfinish, rfl⟩ := map_eq_some_iff.mp hstep
    exact .inl ((finishes_finishBind hfinish).queues h.indexed)
  | endCertificates now revoked =>
    cases hstep
    exact .inl (queues_endCertificates h.indexed now revoked)
  | takeReports =>
    cases hstep
    exact .inl (queues_takeReports h.indexed)
  | queueReports => exact .inl (queues_queueReports h.indexed h.reports hstep)
  | flush => exact .inr (writes_flush hstep)
  | append io => exact .inr (writes_append hstep)
  | settle => exact .inr (writes_settle hstep)
  | copy => exact .inr (writes_copy hstep)
  | rewrite io => exact .inr (writes_rewrite hstep)
  | settleRewrite => exact .inr (writes_settleRewrite hstep)
  | measure => exact .inr (writes_measure hstep)
  | restart now io =>
    cases hstep
    exact .inr (writes_openStore cache now io)

/-- A step of the writer keeps the cache tidy. -/
lemma Tidy.writes_step (h : cache.Tidy) (hw : Writes cache act cache') : cache'.Tidy := by
  cases hw with
  | flush => exact h.takes fun id hw => .inr hw
  | unopened => exact h.settles _ _ false rfl
  | append phase =>
    refine h.writes _ _ fun waiter hw => ?_
    rw [phase]
    split at hw <;> exact hw
  | settle => exact h.settles _ _ true rfl
  | copyRefused phase =>
    refine h.takes fun id hw => ?_
    rw [phase]
    exact (mem_append.mp hw).symm
  | copyGrown => exact h.takes fun id hw => .inr (by simpa [told, waitsFor] using hw)
  | rewrite phase =>
    refine h.writes _ _ fun waiter hw => ?_
    rwa [phase]
  | settleRewrite =>
    refine h.settles _ _ _ ?_
    split <;> rfl
  | grown | measure => exact h.writes _ _ fun waiter hw => by simp [told] at hw
  | @opened now _ lines b file journal _ replayed =>
    exact { tidy_closed file with indexed := replayed.toIndexed.endAll now none, made_le := by simp [closed] }
  | closed => exact tidy_closed _

/-- Every step keeps the cache tidy. -/
lemma Tidy.step (h : cache.Tidy) {limits : Limits} (hstep : cache.step limits act = some cache') : cache'.Tidy := by
  rcases h.step_cases hstep with ⟨added, hq⟩ | hw
  · exact h.queues hq
  · exact h.writes_step hw

end Writer

end OpampFleet.Gateway.Cache
