import OpampFleet.Gateway.Steps

/-!
# The store a Gateway leaves behind

A restarted Gateway reads its store back if no line in it binds to a host before a line gives that host its end. Lines
are appended in the order they were queued, so what matters is on what end a queued binding relies: one queued with it,
or one the store holds. A rewrite breaks it only when it copies the bindings while a host with a binding has no end, as
after a failed write whose bind is not finished yet (`store_reads_back`, `store_unreadable_after_rewrite`).
-/

namespace OpampFleet.Gateway

open Lib Opamp Option Bindings

def Gives (journal : List Change) (host : String) : Prop := (endIn journal host).isSome

variable {journal : List Change} {host : String}

private lemma gives_append {journal' : List Change} :
    Gives (journal ++ journal') host ↔ Gives journal host ∨ Gives journal' host := by
  unfold Gives
  rw [endIn_append, isSome_or, Bool.or_eq_true, or_comm]

private lemma given_iff_gives {base : String → Prop} :
    Log.Given Change.Gives base journal host ↔ base host ∨ Gives journal host := by
  unfold Log.Given Gives
  rw [isSome_endIn_iff]

/-- A binding that `endAll` leaves has an end. -/
lemma Bindings.Replayed.ended_endAll {b : Bindings} (h : Bindings.Replayed journal b)
    {now : Int} {revoked : Option (End → Bool)} {uid : InstanceUid}
    (hhost : (b.endAll now revoked).1.hostOf uid = some host) : ((b.endAll now revoked).1.ends.lookup host).isSome := by
  rw [hostOf, h.lookup_bound_endAll] at hhost
  split at hhost
  · cases hhost
  next hstays =>
    rw [lookup_ends_endAll, if_neg fun hc => hstays ⟨host, hc, hhost⟩]
    exact h.ended uid host hhost

/-- The lines of a store read back, with every end that the bindings rely on, and so do those that are queued after. -/
structure Readable (b : Bindings) (queue lines : List Change) : Prop where
  reads : EndsFirst (fun _ => False) lines
  backed : ∀ host, b.EndStored host → Gives lines host
  queued : EndsFirst (Gives lines) queue

section Readable

variable {b b' : Bindings} {queue lines added : List Change}

private lemma readable_empty (h : EndsFirst (fun _ => False) lines) : Readable .empty [] lines where
  reads := h
  backed host h := by simp [Bindings.EndStored, empty] at h
  queued := trivial

private lemma Readable.turn {made committed : Option InstanceUid} (h : Readable b queue lines)
    (hturn : Bindings.Turn b b' made committed added) : Readable b' (queue ++ added) lines where
  reads := h.reads
  backed := by
    intro host ⟨hs, hm⟩
    refine h.backed host ?_
    cases hturn.ends host with
    | same ends moving _ => exact ⟨ends ▸ hs, moving ▸ hm⟩
    | moved ends moving settled _ =>
      refine ⟨?_, by simp [settled]⟩
      rw [← ne_none_iff_isSome]
      rintro hnone
      exact hm (by rw [moving, hnone])
    | dropped ends _ _ _ => simp [ends] at hs
  queued := by
    refine Log.guarded_append.mpr ⟨h.queued, hturn.relies.mono fun host hstored => ?_⟩
    exact .inl (h.backed host hstored)

private lemma Readable.settled (h : Readable b queue lines) (hindexed : b.Indexed) {hosts : List String}
    {written : Bool} (hwritten : written = true → ∀ host ∈ hosts, Gives lines host) :
      Readable (b.compacted hosts written) queue lines where
  reads := h.reads
  backed := by
    intro host ⟨hs, hm⟩
    by_cases hmem : host ∈ hosts
    · cases written with
      | true => exact hwritten rfl host hmem
      | false =>
        rw [lookup_ends_compacted, if_pos ⟨hmem, rfl⟩] at hs
        cases hmv : b.moving.lookup host with
        | none =>
          rw [hmv, getD_none] at hs
          exact h.backed host ⟨hs, by simp [hmv]⟩
        | some held =>
          rw [hmv, getD_some] at hs
          refine h.backed host ⟨hindexed.moving_ends host (by simp [hmv]), fun hnone => ?_⟩
          rw [hmv] at hnone
          cases Option.some.inj hnone
          cases hs
    · rw [lookup_ends_compacted, if_neg fun hc => hmem hc.1] at hs
      rw [lookup_moving_compacted, if_neg hmem] at hm
      exact h.backed host ⟨hs, hm⟩
  queued := h.queued

private lemma Readable.append (h : Readable b queue lines) {more : List Change} (hmore : EndsFirst (Gives lines) more) :
    Readable b queue (lines ++ more) where
  reads := by
    refine Log.guarded_append.mpr ⟨h.reads, hmore.mono fun host hgives => ?_⟩
    exact given_iff_gives.mpr (.inr hgives)
  backed host hs := gives_append.mpr (.inl (h.backed host hs))
  queued := h.queued.mono fun host hgives => gives_append.mpr (.inl hgives)

private lemma readable_snapshot (h : ∀ uid host, b.hostOf uid = some host → (b.ends.lookup host).isSome) :
    Readable b [] b.snapshot where
  reads := endsFirst_snapshot h
  backed host hs := by
    unfold Gives
    rw [endIn_snapshot]
    exact hs.1
  queued := trivial

end Readable

/-- What the writer has under way relies on no end that the store may not come to hold. -/
def UnderwayReadable (b : Bindings) (queue stored : List Change) : Phase → Prop
  | .taken changes _ => EndsFirst (Gives stored) changes
  | .appended changes _ => ∀ host ∈ endHosts changes, Gives stored host
  | .copied rewrite => Readable b queue rewrite.changes ∧ ∀ host ∈ rewrite.moving, Gives rewrite.changes host
  | .rewritten rewrite true => ∀ host ∈ rewrite.moving, Gives stored host
  | _ => True

namespace Cache

structure Loadable (cache : Cache) (stored : List Change) : Prop where
  stores : cache.Stores stored
  readable : Readable cache.bindings cache.queue stored
  underway : UnderwayReadable cache.bindings cache.queue stored cache.phase

variable {cache cache' : Cache} {stored : List Change}

/-- Every host with a binding has an end when the bindings are copied for a rewrite. -/
def CopiesEnded (cache : Cache) : Act → Prop
  | .copy => ∀ entry ∈ cache.bindings.bound.entries, (cache.bindings.ends.lookup entry.2.host).isSome = true
  | _ => True

instance (cache : Cache) (act : Act) : Decidable (cache.CopiesEnded act) := by
  unfold CopiesEnded
  split <;> infer_instance

private lemma loadable_start : start.Loadable [] where
  stores := rfl
  readable := readable_empty trivial
  underway := trivial

section

variable (h : cache.Loadable stored)
include h

private lemma Loadable.queues {finished : Option BindId} {added : List Change}
    (hq : cache.Queues finished cache' added) : cache'.Loadable stored := by
  obtain ⟨made, committed, hturn, -⟩ := hq.turn
  refine ⟨?_, ?_, ?_⟩
  · exact h.stores.queues hq
  · rw [hq.queue]
    exact h.readable.turn hturn
  · have hunderway := h.underway
    rw [hq.phase, hq.queue]
    -- only a copy under way is about the bindings and the queue
    cases hphase : cache.phase with
    | copied rewrite =>
      rw [hphase] at hunderway
      exact ⟨hunderway.1.turn hturn, hunderway.2⟩
    | rewritten rewrite written =>
      rw [hphase] at hunderway
      cases written <;> exact hunderway
    | idle _ | refused _ _ | answered _ | grown => trivial
    | taken changes waiting | appended changes waiting =>
      rwa [hphase] at hunderway

private lemma Loadable.settles (hindexed : cache.bindings.Indexed) {waiting : List Waiter}
    {hosts : List String} {written : Bool} {phase : Phase}
    (hphase : UnderwayReadable (cache.bindings.compacted hosts written)
      cache.queue stored phase) (hwritten : written = true → ∀ host ∈ hosts, Gives stored host) :
    (cache.settled waiting hosts written phase).Loadable stored where
  stores := h.stores
  readable := h.readable.settled hindexed hwritten
  underway := hphase

private lemma Loadable.copyFor (hended : cache.CopiesEnded .copy) (hindexed : cache.bindings.Indexed)
    (replaces : Option (List Waiter)) (takesIn : List Change) : (cache.copyFor replaces takesIn).Loadable stored := by
  have hall : ∀ uid host, cache.bindings.hostOf uid = some host → (cache.bindings.ends.lookup host).isSome := by
    intro uid host hhost
    obtain ⟨binding, hb, rfl⟩ := map_eq_some_iff.mp hhost
    exact hended ⟨uid, binding⟩ (AList.mem_lookup_iff.mp hb)
  refine ⟨h.stores, ⟨h.readable.reads, h.readable.backed, trivial⟩, readable_snapshot hall, fun host hmem => ?_⟩
  unfold Gives
  rw [endIn_snapshot]
  exact hindexed.moving_ends host (AList.lookup_isSome.mpr (AList.mem_keys.mpr hmem))

private lemma Loadable.writes {act : Act} (hindexed : cache.bindings.Indexed) (hended : cache.CopiesEnded act)
    (hw : Writes cache act cache') : ∃ stored', cache'.Loadable stored' := by
  have hunderway := h.underway
  cases hw with
  | flush => exact ⟨stored, h.stores, ⟨h.readable.reads, h.readable.backed, trivial⟩, h.readable.queued⟩
  | unopened => exact ⟨stored, h.settles hindexed trivial (by simp)⟩
  | append phase opened appends =>
    have hkeeps := h.stores.keeps opened
    rw [phase] at hunderway
    cases appends with
    | written _ keeps =>
      refine ⟨_, keeps hkeeps, h.readable.append hunderway, fun host hmem => ?_⟩
      obtain ⟨fin, hfin⟩ := (mem_endHosts host).mp hmem
      refine gives_append.mpr (.inr (isSome_endIn_iff.mpr ⟨_, hfin, fin, rfl⟩))
    | refused k _ keeps => exact ⟨_, keeps hkeeps, h.readable.append (hunderway.take k), trivial⟩
  | settle phase =>
    rw [phase] at hunderway
    exact ⟨stored, h.settles hindexed trivial fun _ => hunderway⟩
  | copyRefused | copyGrown => exact ⟨stored, h.copyFor hended hindexed _ _⟩
  | rewrite phase opened rewrites =>
    rw [phase] at hunderway
    cases rewrites with
    | written keeps => exact ⟨_, keeps, hunderway.1, hunderway.2⟩
    | kept keeps => exact ⟨stored, keeps (h.stores.keeps opened), h.readable, trivial⟩
    | unsynced keeps => exact ⟨_, keeps, hunderway.1, trivial⟩
  | settleRewrite phase =>
    rw [phase] at hunderway
    refine ⟨stored, h.settles hindexed ?_ fun hw => ?_⟩
    · split <;> trivial
    · subst hw
      exact hunderway
  | grown | measure => exact ⟨stored, h.stores, h.readable, trivial⟩
  | opened _ replayed keeps =>
    exact ⟨_, keeps, readable_snapshot fun uid host hhost => replayed.ended_endAll hhost, trivial⟩
  | closed loads =>
    rcases loads stored h.stores.load with hload | ⟨b, hreplayed, hload⟩
    · exact ⟨_, hload, readable_empty h.readable.reads, trivial⟩
    · refine ⟨_, hload, readable_empty ?_, trivial⟩
      exact endsFirst_snapshot fun uid host hhost => hreplayed.ended_endAll hhost

private lemma Loadable.step {limits : Limits} {act : Act} (htidy : cache.Tidy)
    (hended : cache.CopiesEnded act) (hstep : cache.step limits act = some cache') :
    ∃ stored', cache'.Loadable stored' := by
  rcases htidy.step_cases hstep with ⟨added, hq⟩ | hw
  · exact ⟨stored, h.queues hq⟩
  · exact h.writes htidy.indexed hended hw

end

def ReadsBack (cache : Cache) : Prop := cache.Tidy ∧ ∃ stored, cache.Loadable stored

lemma readsBack_start : start.ReadsBack := ⟨tidy_closed none, [], loadable_start⟩

/-- A step keeps the store readable. -/
lemma ReadsBack.step {limits : Limits} {act : Act} (h : cache.ReadsBack) (hended : cache.CopiesEnded act)
    (hstep : cache.step limits act = some cache') : cache'.ReadsBack := by
  obtain ⟨htidy, stored, hload⟩ := h
  exact ⟨htidy.step hstep, hload.step htidy hended hstep⟩

end Cache

/-- The store on disk loads and replays without an error in every state that a run reaches in which the bindings are
copied only while every host with a binding has an end. -/
theorem store_reads_back (limits : Limits) {cache : Cache}
    (h : Reach Cache.start (restrict Cache.CopiesEnded (Cache.step limits)) cache) :
    ∃ changes b, load cache.file = .ok changes ∧ replay changes = .ok b := by
  have hinv : cache.ReadsBack := by
    exact h.invariant_restrict Cache.readsBack_start fun _ _ _ hinv hended hstep => hinv.step hended hstep
  obtain ⟨-, stored, hload⟩ := hinv
  obtain ⟨b, hb, -⟩ := replay_of_endsFirst hload.readable.reads
  exact ⟨stored, b, hload.stores.load, hb⟩

namespace Small

def uid (b : UInt8) : InstanceUid := .ofByte b

def fin (notAfter : Fin 100) : End :=
  ⟨notAfter, "00000000000000000000000000000000000000000000000000000000000000ff", "f", by omega, by decide, by decide⟩

def early : End := fin 5

def late : End := fin 9

def limits : Limits := ⟨8, 8⟩

def bind (u : UInt8) (host : String) : Act := .beginBind (uid u) host late 0 fun _ => false

def written : List Act := [.flush, .append .synced, .settle, .measure]

def failed : List Act := [.flush, .append .cutBack, .copy, .rewrite (.notRenamed true), .settleRewrite, .measure]

/-- Two hosts bind. The write of the first one's binding fails, and the bind is not finished yet when the store is
rewritten for the second. -/
def unfinished : List Act := [.restart 0 .replaced, bind 1 "a"] ++ failed ++
  [bind 2 "b", .flush, .append .cutBack, .copy, .rewrite .replaced]

def unreadable : List Change := [.ends "b" late, .bound (uid 1) "a", .bound (uid 2) "b"]

end Small

open Small

lemma load_of_lines {file : Option Bytes} {changes : List Change}
    (hlines : (lines changes).any fun bytes => bytes.length ≤ 1000)
    (hfile : file = (lines changes).map fun bytes => Core.utf8 header ++ 10 :: bytes ++ []) :
      load file = .ok changes := by
  obtain ⟨bytes, hbytes, hlen⟩ := (Option.any_eq_true _ _).mp hlines
  simp only [decide_eq_true_eq] at hlen
  rw [hbytes, map_some] at hfile
  refine Stored.load ⟨⟨bytes, hbytes, hfile⟩, by simp, by simp, ?_⟩
  have hheader : (Core.utf8 header).length ≤ 1000 := by decide
  rw [hfile, getD_some, List.append_nil, List.length_append, List.length_cons]
  unfold maxBytes
  omega

/-- One Agent bound, its binding stored and relied on. -/
theorem store_reads_back_bound : ∃ cache,
    Reach Cache.start (restrict Cache.CopiesEnded (Cache.step limits)) cache ∧ cache.bindings.holds (uid 1) "a" = true ∧
      ∃ changes b, load cache.file = .ok changes ∧ replay changes = .ok b := by
  refine Reach.exists_of_run_imp (p := fun cache => cache.bindings.holds (uid 1) "a" = true)
    ([.restart 0 .replaced, bind 1 "a"] ++ written ++ [.finishBind 0]) (by decide +kernel) ?_
  intro cache hreach hholds
  exact ⟨hholds, store_reads_back limits hreach⟩

/-- The host whose bind is not finished has a binding in the store and no end. -/
theorem store_unreadable_after_rewrite : ∃ cache, Reach Cache.start (Cache.step limits) cache ∧
    ¬∃ changes b, load cache.file = .ok changes ∧ replay changes = .ok b := by
  refine Reach.exists_of_run_imp (p := fun cache =>
    cache.file = (lines unreadable).map fun bytes => Core.utf8 header ++ 10 :: bytes ++ []) unfinished
    (by decide +kernel) ?_
  rintro cache - hfile ⟨changes, b, hload, hreplay⟩
  have hlines : (lines unreadable).any fun bytes => bytes.length ≤ 1000 := by decide +kernel
  rw [load_of_lines hlines hfile] at hload
  cases hload
  have herror : replay unreadable = .error "the host a has a binding and no certificate end" := rfl
  simp [herror] at hreplay

end OpampFleet.Gateway
