import OpampFleet.Gateway.Loadable

/-!
# What is relied on is in the store

A binding is relied on once the bind that made it is answered that the store holds it. So a pending binding whose bind
still waits is followed through the queue and through whatever the store writer does with it. A bind is finished by its
`instance_uid` alone: the binding it finds may be another's, made after its own ended and not written yet. Runs in which
this does not happen rely on nothing that the store does not hold (`relied_in_store`, `relied_before_written`).
-/

namespace OpampFleet.Gateway

open Lib Opamp Option Bindings

structure Settled (written lines : List Change) (uid : InstanceUid) (host : String) : Prop where
  bound : boundIn written uid = some host
  unsaid : lastMention lines uid = none

variable {b : Bindings}

section Settled

variable {written lines more : List Change} {uid : InstanceUid} {host : String}

private lemma Settled.queue (h : Settled written lines uid host) (hmore : lastMention more uid = none) :
    Settled written (lines ++ more) uid host where
  bound := h.bound
  unsaid := by rw [lastMention_append, hmore, h.unsaid]; rfl

private lemma Settled.append (h : Settled written (more ++ lines) uid host) : Settled (written ++ more) lines uid host ∧
    Settled written lines uid host ∧ lastMention more uid = none := by
  have hunsaid := h.unsaid
  rw [lastMention_append, or_eq_none_iff] at hunsaid
  refine ⟨⟨?_, hunsaid.1⟩, ⟨h.bound, hunsaid.1⟩, hunsaid.2⟩
  rw [boundIn_append, hunsaid.2]
  exact h.bound

private lemma lastMention_take (h : lastMention more uid = none) (k : Nat) : lastMention (more.take k) uid = none := by
  rw [lastMention_eq_none_iff] at h ⊢
  exact fun change hmem => h change (List.mem_of_mem_take hmem)

private lemma settled_snapshot (h : b.hostOf uid = some host) : Settled b.snapshot [] uid host where
  bound := by rw [boundIn_snapshot, h]
  unsaid := rfl

end Settled

namespace Cache

structure Owns (binds : Map BindId Underway) (b : Bindings) (id : BindId) (bind : Underway) (uid : InstanceUid)
    (host : String) : Prop where
  underway : binds.lookup id = some bind
  same : bind.uid = uid
  made : ∃ tick, bind.made = some tick ∧ b.bound.lookup uid = some ⟨host, tick, true⟩

/-- Relied on, or answered and relied on as soon as its bind is finished. -/
inductive Sure (binds : Map BindId Underway) (b : Bindings) (uid : InstanceUid) (host : String) : Prop
  | relied {binding : Binding} (held : b.bound.lookup uid = some binding) (host : binding.host = host)
      (relied : binding.pending = false)
  | answered {id : BindId} {bind : Underway} (owns : Owns binds b id bind uid host) (written : bind.answer = some true)

variable {cache cache' : Cache} {stored added : List Change} {uid : InstanceUid} {host : String} {id : BindId}
  {bind : Underway} {binds : Map BindId Underway}

lemma Owns.hostOf (h : Owns binds b id bind uid host) : b.hostOf uid = some host := by
  obtain ⟨tick, -, hb⟩ := h.made
  simp [Bindings.hostOf, hb]

lemma Sure.hostOf (h : Sure binds b uid host) : b.hostOf uid = some host := by
  cases h with
  | relied held hhost _ => simp [Bindings.hostOf, held, hhost]
  | answered owns _ => exact owns.hostOf

/-- A bind that is finished as written finds its own binding, or one that is relied on, or none. -/
def FinishesOwn (cache : Cache) : Act → Prop
  | .finishBind id => (cache.binds.lookup id).all (fun bind => bind.answer != some true ||
      (cache.bindings.bound.lookup bind.uid).all fun binding =>
        !binding.pending || bind.made == some binding.reported) = true
  | _ => True

instance (cache : Cache) (act : Act) : Decidable (cache.FinishesOwn act) := by
  unfold FinishesOwn
  split <;> infer_instance

/-- A bind that owns a binding after a task's step owned it before, and the step's lines do not speak of it; or it has
made the binding now, and waits. -/
lemma Owns.of_queues {finished : Option BindId} (htidy : cache.Tidy) (hq : cache.Queues finished cache' added)
    (h : Owns cache'.binds cache'.bindings id bind uid host) :
    (Owns cache.binds cache.bindings id bind uid host ∧ lastMention added uid = none) ∨
      (id = cache.nextBind ∧ bind.answer = none ∧ lastMention added uid = some (some host) ∧
        (cache'.bindings.ends.lookup host).isSome ∧
        (cache'.bindings.moving.lookup host = some none → (endIn added host).isSome)) := by
  obtain ⟨made, committed, hturn, -⟩ := hq.turn
  obtain ⟨tick, hmade, hbound⟩ := h.made
  have hbind := hq.binds id bind h.underway
  cases hturn.uids uid with
  | absent unbound _ =>
    simp [unbound] at hbound
  | kept held holds _ pending _ said =>
    rw [holds] at hbound
    cases hbound
    have hsame := pending rfl
    rw [← hsame] at held
    rcases hbind with hold | ⟨-, -, hnew⟩
    · exact .inl ⟨⟨hold, h.same, tick, hmade, held⟩, said⟩
    · have hunbound := (hnew tick hmade).2.2.2
      rw [h.same, held] at hunbound
      cases hunbound
  | made _ unbound holds said ended moves =>
    rw [holds] at hbound
    cases hbound
    rcases hbind with hold | ⟨hid, -, hnew⟩
    · have hle := htidy.made_le id bind _ hold hmade
      omega
    · exact .inr ⟨hid, (hnew _ hmade).2.2.1, said, ended, moves⟩

variable {act : Act} {phase : Phase} {waiting : List Waiter} {hosts : List String} {written : Bool}

/-- A step that only queues makes no binding sure, and mentions none that is. -/
lemma Sure.of_queues (htidy : cache.Tidy) (hq : cache.Queues (finishes act) cache' added)
    (hown : cache.FinishesOwn act) (h : Sure cache'.binds cache'.bindings uid host) :
    Sure cache.binds cache.bindings uid host ∧ lastMention added uid = none := by
  cases h with
  | answered owns written =>
    rcases owns.of_queues htidy hq with ⟨howns, hsaid⟩ | ⟨-, hnone, -⟩
    · exact ⟨.answered howns written, hsaid⟩
    · simp [hnone] at written
  | @relied binding held hhost hrelied =>
    obtain ⟨made, committed, hturn, -, hcommitted⟩ := hq.turn
    cases hturn.uids uid with
    | absent unbound _ =>
      simp [unbound] at held
    | made _ _ holds _ _ _ =>
      rw [holds] at held
      cases held
      cases hrelied
    | @kept before after heldBefore holds sameHost _ relied said =>
      rw [holds] at held
      cases held
      refine ⟨?_, said⟩
      rcases relied hrelied with hbefore | hcommit
      · exact .relied heldBefore (sameHost ▸ hhost) hbefore
      cases hpending : before.pending with
      | false => exact .relied heldBefore (sameHost ▸ hhost) hpending
      | true =>
        -- the bind that is finished made this binding
        obtain ⟨id, bind, hfin, hbind, huid, hanswer⟩ := hcommitted uid hcommit
        cases act <;> simp only [finishes, reduceCtorEq, some.injEq] at hfin
        subst hfin
        simp only [FinishesOwn, hbind, hanswer, all_some, bne_self_eq_false, Bool.false_or] at hown
        rw [huid, heldBefore] at hown
        simp only [all_some, hpending, Bool.not_true, Bool.false_or, beq_iff_eq] at hown
        refine .answered ⟨hbind, huid, before.reported, hown, ?_⟩ hanswer
        rw [heldBefore, ← hhost, sameHost, ← hpending]

def InStore (queue stored : List Change) : Phase → InstanceUid → String → Prop
  | .taken changes _ => Settled stored (changes ++ queue)
  | .copied rewrite => fun uid host => Settled stored queue uid host ∧ Settled rewrite.changes queue uid host
  | _ => Settled stored queue

def Promised (queue stored : List Change) : Phase → InstanceUid → String → Prop
  | .taken changes _ => fun uid host => lastMention changes uid = some (some host) ∧ lastMention queue uid = none
  | .refused _ _ => fun uid _ => lastMention queue uid = none
  | .appended _ _ | .rewritten _ true => Settled stored queue
  | .copied rewrite => Settled rewrite.changes queue
  | _ => fun _ _ => True

structure Durable (cache : Cache) (stored : List Change) : Prop where
  stores : cache.Stores stored
  sure : ∀ uid host, Sure cache.binds cache.bindings uid host → InStore cache.queue stored cache.phase uid host
  queued : ∀ id bind uid host, some id ∈ cache.waiting → Owns cache.binds cache.bindings id bind uid host →
    lastMention cache.queue uid = some (some host)
  underway : ∀ id bind uid host, some id ∈ told cache.phase → Owns cache.binds cache.bindings id bind uid host →
    Promised cache.queue stored cache.phase uid host

lemma InStore.settled {queue stored : List Change} (h : InStore queue stored phase uid host) :
    Settled stored queue uid host := by
  cases phase with
  | taken changes waiting => exact (Settled.append h).2.1
  | copied rewrite => exact h.1
  | _ => exact h

private lemma InStore.queue {queue stored : List Change} (h : InStore queue stored phase uid host)
    (hadded : lastMention added uid = none) : InStore (queue ++ added) stored phase uid host := by
  cases phase with
  | taken changes waiting =>
    have hsettled := Settled.queue h hadded
    rwa [List.append_assoc] at hsettled
  | copied rewrite => exact ⟨h.1.queue hadded, h.2.queue hadded⟩
  | _ => exact Settled.queue h hadded

private lemma Promised.queue {queue stored : List Change} (h : Promised queue stored phase uid host)
    (hadded : lastMention added uid = none) : Promised (queue ++ added) stored phase uid host := by
  have hmore : ∀ {lines : List Change}, lastMention lines uid = none → lastMention (lines ++ added) uid = none := by
    intro lines hlines
    rw [lastMention_append, hadded, hlines]
    rfl
  cases phase with
  | taken changes waiting => exact ⟨h.1, hmore h.2⟩
  | refused _ _ => exact hmore h
  | appended _ _ | copied rewrite => exact Settled.queue h hadded
  | rewritten rewrite written =>
    cases written with
    | true => exact Settled.queue h hadded
    | false => trivial
  | idle _ | answered _ | grown => trivial

private lemma Durable.queues (h : cache.Durable stored) (htidy : cache.Tidy)
    (hq : cache.Queues (finishes act) cache' added) (hown : cache.FinishesOwn act) : cache'.Durable stored where
  stores := h.stores.queues hq
  sure uid host hsure := by
    obtain ⟨hsure, hsaid⟩ := hsure.of_queues htidy hq hown
    rw [hq.queue, hq.phase]
    exact (h.sure uid host hsure).queue hsaid
  queued id bind uid host hw howns := by
    rw [hq.queue, lastMention_append]
    rcases howns.of_queues htidy hq with ⟨howns, hsaid⟩ | ⟨-, -, hsaid, -⟩
    · rcases hq.waiting id hw with hold | ⟨rfl, -⟩
      · rw [hsaid, h.queued id bind uid host hold howns]
        rfl
      · -- no bind before had this id
        exact absurd rfl (htidy.bind_lt _ bind howns.underway).ne
    · rw [hsaid]
      rfl
  underway id bind uid host hw howns := by
    rw [hq.queue, hq.phase]
    rw [hq.phase] at hw
    rcases howns.of_queues htidy hq with ⟨howns, hsaid⟩ | ⟨rfl, -, -⟩
    · exact (h.underway id bind uid host hw howns).queue hsaid
    · exact absurd rfl (htidy.told_lt _ hw).ne

lemma Owns.of_tell
    (h : Owns (cache.tell waiting written).binds (cache.bindings.compacted hosts written) id bind uid host) :
    ∃ before, Owns cache.binds cache.bindings id before uid host ∧
      bind.answer = if some id ∈ waiting then some written else before.answer := by
  obtain ⟨hbind, hsame, tick, hmade, hbound⟩ := h
  obtain ⟨before, hbefore, huid, hmade', hanswer⟩ := lookup_tell hbind
  rw [(compacted_frame _ _ _).1] at hbound
  exact ⟨before, ⟨hbefore, huid ▸ hsame, tick, hmade' ▸ hmade, hbound⟩, hanswer⟩

/-- A binding becomes sure only as its own bind is told that it is written. -/
lemma Sure.of_tell (h : Sure (cache.tell waiting written).binds (cache.bindings.compacted hosts written) uid host) :
    Sure cache.binds cache.bindings uid host ∨ written = true ∧ ∃ id before, some id ∈ waiting ∧
      Owns cache.binds cache.bindings id before uid host := by
  cases h with
  | relied held hhost hrelied =>
    rw [(compacted_frame _ _ _).1] at held
    exact .inl (.relied held hhost hrelied)
  | @answered id bind owns answered =>
    obtain ⟨before, hbefore, hanswer⟩ := owns.of_tell
    rw [answered] at hanswer
    split at hanswer
    next hmem =>
      exact .inr ⟨(Option.some.inj hanswer).symm, id, before, hmem, hbefore⟩
    · exact .inl (.answered hbefore hanswer.symm)

lemma durable_closed {file : Option Bytes} (h : load file = .ok stored) : (closed file).Durable stored where
  stores := h
  sure uid host hs := by
    have hhost := hs.hostOf
    simp [closed, hostOf, empty] at hhost
  queued id bind uid host hw := by simp [closed] at hw
  underway id bind uid host hw := by simp [closed, told] at hw

section

variable (h : cache.Durable stored)
include h

private lemma Durable.settles (htold : told phase = []) (hphase : ∀ uid host, Settled stored cache.queue uid host →
      InStore cache.queue stored phase uid host) (hwritten : written = true → ∀ id bind uid host, some id ∈ waiting →
        Owns cache.binds cache.bindings id bind uid host → Settled stored cache.queue uid host) :
    (cache.settled waiting hosts written phase).Durable stored where
  stores := h.stores
  sure uid host hsure := by
    refine hphase uid host ?_
    rcases hsure.of_tell with hbefore | ⟨hw, id, before, hmem, howns⟩
    · exact (h.sure uid host hbefore).settled
    · exact hwritten hw id before uid host hmem howns
  queued id bind uid host hw hown := by
    obtain ⟨before, hbefore, -⟩ := hown.of_tell
    exact h.queued id before uid host hw hbefore
  underway id bind uid host hw := by simp [settled, htold] at hw

private lemma Durable.copyFor (replaces : Option (List Waiter)) (takesIn : List Change) :
    (cache.copyFor replaces takesIn).Durable stored where
  stores := h.stores
  sure uid host hs := ⟨⟨(h.sure uid host hs).settled.bound, rfl⟩, settled_snapshot hs.hostOf⟩
  queued id bind uid host hw := by simp [Cache.copyFor] at hw
  underway id bind uid host _ hown := settled_snapshot hown.hostOf

private lemma Durable.writes (hw : Writes cache act cache') : ∃ stored', cache'.Durable stored' := by
  have hsure := h.sure
  have hunderway := h.underway
  cases hw with
  | flush =>
    refine ⟨stored, h.stores, fun uid host hs => ?_, fun id bind uid host hw => by simp at hw,
      fun id bind uid host hw hown => ⟨h.queued id bind uid host hw hown, rfl⟩⟩
    show Settled stored (cache.queue ++ []) uid host
    rw [List.append_nil]
    exact (hsure uid host hs).settled
  | unopened => exact ⟨stored, h.settles rfl (fun _ _ hs => hs) (by simp)⟩
  | append phase opened appends =>
    have hkeeps := h.stores.keeps opened
    rw [phase] at hsure hunderway
    cases appends with
    | written _ keeps =>
      refine ⟨_, keeps hkeeps, fun uid host hs => ?_, h.queued, fun id bind uid host hw hown => ?_⟩
      · exact (Settled.append (hsure uid host hs)).1
      · obtain ⟨hlast, hnone⟩ := hunderway id bind uid host hw hown
        refine ⟨?_, hnone⟩
        rw [boundIn_append, hlast]
        rfl
    | refused k _ keeps =>
      refine ⟨_, keeps hkeeps, fun uid host hs => ?_, h.queued,
        fun id bind uid host hw hown => (hunderway id bind uid host hw hown).2⟩
      obtain ⟨-, hsettled, hnone⟩ := Settled.append (hsure uid host hs)
      refine ⟨?_, hsettled.unsaid⟩
      rw [boundIn_append, lastMention_take hnone]
      exact hsettled.bound
  | settle phase =>
    rw [phase] at hunderway
    exact ⟨stored, h.settles rfl (fun _ _ hs => hs) fun _ => hunderway⟩
  | copyRefused | copyGrown => exact ⟨stored, h.copyFor _ _⟩
  | rewrite phase opened rewrites =>
    rw [phase] at hsure hunderway
    cases rewrites with
    | written keeps => exact ⟨_, keeps, fun uid host hs => (hsure uid host hs).2, h.queued, hunderway⟩
    | kept keeps =>
      exact ⟨stored, keeps (h.stores.keeps opened), fun uid host hs => (hsure uid host hs).1, h.queued,
        fun _ _ _ _ _ _ => trivial⟩
    | unsynced keeps =>
      exact ⟨_, keeps, fun uid host hs => (hsure uid host hs).2, h.queued, fun _ _ _ _ _ _ => trivial⟩
  | settleRewrite phase =>
    rw [phase] at hunderway
    refine ⟨stored, h.settles ?_ (fun uid host hs => ?_) fun hw => ?_⟩
    · split <;> rfl
    · split <;> exact hs
    · subst hw
      exact hunderway
  | grown | measure =>
    exact ⟨stored, h.stores, fun uid host hs => (hsure uid host hs).settled, h.queued,
      fun id bind uid host hw => by simp [told] at hw⟩
  | opened _ _ keeps =>
    exact ⟨_, keeps, fun uid host hs => settled_snapshot hs.hostOf, fun id bind uid host hw => by simp [closed] at hw,
      fun id bind uid host hw => by simp [closed, told] at hw⟩
  | closed loads =>
    rcases loads stored h.stores.load with hload | ⟨b, -, hload⟩ <;> exact ⟨_, durable_closed hload⟩

private lemma Durable.step {limits : Limits} (htidy : cache.Tidy)
    (hown : cache.FinishesOwn act) (hstep : cache.step limits act = some cache') :
      ∃ stored', cache'.Durable stored' := by
  rcases htidy.step_cases hstep with ⟨added, hq⟩ | hw
  · exact ⟨stored, h.queues htidy hq hown⟩
  · exact h.writes hw

end

def KeepsRelied (cache : Cache) (act : Act) : Prop := cache.FinishesOwn act ∧ cache.CopiesEnded act

instance (cache : Cache) (act : Act) : Decidable (cache.KeepsRelied act) := by
  unfold KeepsRelied
  infer_instance

def KeepsStored (cache : Cache) : Prop := cache.ReadsBack ∧ ∃ stored, cache.Durable stored

/-- A step keeps every binding that is relied on in the store. -/
lemma KeepsStored.step {limits : Limits} (h : cache.KeepsStored) (hok : cache.KeepsRelied act)
    (hstep : cache.step limits act = some cache') : cache'.KeepsStored := by
  obtain ⟨hreads, stored, hdurable⟩ := h
  exact ⟨hreads.step hok.2 hstep, hdurable.step hreads.1 hok.1 hstep⟩

end Cache

/-- Whenever the bindings answer that an `instance_uid` is bound to a host and relied on, the journal on disk, replayed,
answers so too, in every state that a run reaches in which each bind is finished on its own binding and the bindings are
copied only while every host with a binding has an end. -/
theorem relied_in_store (limits : Limits) {cache : Cache}
    (h : Reach Cache.start (restrict Cache.KeepsRelied (Cache.step limits)) cache) {uid : InstanceUid} {host : String}
    (hholds : cache.bindings.holds uid host = true) :
    ∃ changes b, load cache.file = .ok changes ∧ replay changes = .ok b ∧ b.holds uid host = true := by
  have hinv : cache.KeepsStored := by
    exact h.invariant_restrict ⟨Cache.readsBack_start, [], Cache.durable_closed rfl⟩ fun _ _ _ hinv hok hstep =>
      hinv.step hok hstep
  obtain ⟨⟨-, lines, hloadable⟩, stored, hdurable⟩ := hinv
  -- both invariants speak of the one store that is there
  have hsame : lines = stored := Except.ok.inj (hloadable.stores.load.symm.trans hdurable.stores.load)
  subst hsame
  obtain ⟨b, hb, hreplayed⟩ := replay_of_endsFirst hloadable.readable.reads
  refine ⟨lines, b, hdurable.stores.load, hb, ?_⟩
  obtain ⟨binding, hheld, hp⟩ := (Option.any_eq_true _ _).mp hholds
  simp only [Bool.and_eq_true, beq_iff_eq, Bool.not_eq_true'] at hp
  have hbound := (hdurable.sure uid host (.relied hheld hp.1 hp.2)).settled.bound
  rw [← hreplayed.hostOf_eq, hostOf, map_eq_some_iff] at hbound
  obtain ⟨replayed, hlookup, hhost⟩ := hbound
  rw [holds, hlookup]
  simp [hhost, hreplayed.relied uid replayed hlookup]

open Small

/-- One Agent bound and relied on. -/
theorem relied_in_store_bound : ∃ cache, Reach Cache.start (restrict Cache.KeepsRelied (Cache.step limits)) cache ∧
    cache.bindings.holds (uid 1) "a" = true ∧ ∃ changes b, load cache.file = .ok changes ∧
      replay changes = .ok b ∧ b.holds (uid 1) "a" = true := by
  refine Reach.exists_of_run_imp (p := fun cache => cache.bindings.holds (uid 1) "a" = true)
    ([.restart 0 .replaced, bind 1 "a"] ++ written ++ [.finishBind 0]) (by decide +kernel) ?_
  intro cache hreach hholds
  exact ⟨hholds, relied_in_store limits hreach hholds⟩

namespace Small

/-- An Agent's binding is written and ends before its bind is finished. The Agent's next report binds it to another
host, and the first bind is finished then. -/
def overtaken : List Act := [.restart 0 .replaced, bind 1 "a"] ++ written ++
  [.endCertificates 0 (some fun _ => true), bind 1 "b", .finishBind 0]

def overtakenStore : List Change := [.ends "a" late, .bound (uid 1) "a"]

end Small

/-- The Agent is relied on as the second host's while the store binds it to the first. -/
theorem relied_before_written : ∃ cache, Reach Cache.start (Cache.step limits) cache ∧
    cache.bindings.holds (uid 1) "b" = true ∧ ¬∃ changes b, load cache.file = .ok changes ∧
      replay changes = .ok b ∧ b.holds (uid 1) "b" = true := by
  refine Reach.exists_of_run_imp (p := fun cache => cache.bindings.holds (uid 1) "b" = true ∧
    cache.file = (lines overtakenStore).map fun bytes => Core.utf8 header ++ 10 :: bytes ++ []) overtaken
    (by decide +kernel) ?_
  rintro cache - ⟨hholds, hfile⟩
  have hlines : (lines overtakenStore).any fun bytes => bytes.length ≤ 1000 := by decide +kernel
  refine ⟨hholds, ?_⟩
  rintro ⟨changes, b, hload, hreplay, hholds⟩
  rw [load_of_lines hlines hfile] at hload
  cases hload
  have hbinds : (replay overtakenStore).toOption.any (fun b => b.holds (uid 1) "b") = false := rfl
  rw [hreplay] at hbinds
  simp [Except.toOption, hholds] at hbinds

end OpampFleet.Gateway
