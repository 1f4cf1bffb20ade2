import OpampFleet.Gateway.Relied

/-!
# The store and the bindings agree

When a flush has written all there was and nothing is pending, the journal read back should be what the Gateway holds:
each binding, and each host's end. `Agrees` says so of a store and the lines that are still to follow it, with the moves
of ends that the write under way is to settle. Three things break it: a bind that relies on another's binding (see
`FinishesOwn`), a rewrite that fails after it took removals or moves in, and a write that settles the move of an end
queued after it took its lines (`store_agrees`, `store_keeps_ended`).
-/

namespace OpampFleet.Gateway

open Lib Opamp List Option Bindings

/-- The bindings are what the lines of the store and those that follow say, up to bindings that are pending. The moves
of `settles` are to be kept, or undone, by the write under way. -/
structure Agrees (b : Bindings) (stored lines : List Change) (settles : List String) (written : Bool) : Prop where
  absent : ∀ uid, b.bound.lookup uid = none → boundIn (stored ++ lines) uid = none
  steady : ∀ host fin, b.ends.lookup host = some fin → b.moving.lookup host = none →
    host ∉ settles ∧ endIn stored host = some fin ∧ endIn lines host = none
  moved : ∀ host fin held, b.ends.lookup host = some fin → b.moving.lookup host = some held → host ∉ settles →
    endIn lines host = some fin ∧ ∀ before, held = some before → endIn stored host = some before
  settling : ∀ host fin held, b.ends.lookup host = some fin → b.moving.lookup host = some held → host ∈ settles →
    endIn lines host = none → ∀ left, (if written then some fin else held) = some left → endIn stored host = some left

variable {changes : List Change} {hosts : List String}

section Agrees

variable {b b' : Bindings} {stored lines added : List Change} {settles : List String} {written : Bool}

private lemma Agrees.turn {made committed : Option InstanceUid} (h : Agrees b stored lines settles written)
    (hturn : Bindings.Turn b b' made committed added) : Agrees b' stored (lines ++ added) settles written where
  absent uid hnone := by
    rw [← append_assoc, boundIn_append]
    cases hturn.uids uid with
    | absent _ said =>
      rcases said with hsaid | ⟨hsaid, hbefore⟩
      · rw [hsaid]
        rfl
      · rw [hsaid]
        exact h.absent uid hbefore
    | kept _ holds _ _ _ _ | made _ _ holds _ _ _ =>
      simp [holds] at hnone
  steady host fin hfin hmoving := by
    cases hturn.ends host with
    | same ends moving said =>
      obtain ⟨h1, h2, h3⟩ := h.steady host fin (ends ▸ hfin) (moving ▸ hmoving)
      exact ⟨h1, h2, by rw [endIn_append, said, h3]; rfl⟩
    | moved _ moving _ _ =>
      simp [moving] at hmoving
    | dropped ends _ _ _ =>
      simp [ends] at hfin
  moved host fin held hfin hmoving hsettles := by
    rw [endIn_append]
    cases hturn.ends host with
    | same ends moving said =>
      rw [said, none_or]
      exact h.moved host fin held (ends ▸ hfin) (moving ▸ hmoving) hsettles
    | moved ends moving settled said =>
      rw [ends] at hfin
      rw [moving] at hmoving
      cases hfin
      cases hmoving
      rw [said]
      exact ⟨rfl, fun before hbefore => (h.steady host before hbefore settled).2.1⟩
    | dropped ends _ _ _ =>
      simp [ends] at hfin
  settling host fin held hfin hmoving hsettles hlines := by
    rw [endIn_append, or_eq_none_iff] at hlines
    cases hturn.ends host with
    | same ends moving _ => exact h.settling host fin held (ends ▸ hfin) (moving ▸ hmoving) hsettles hlines.2
    | moved _ _ _ said =>
      rw [said] at hlines
      cases hlines.1
    | dropped ends _ _ _ =>
      simp [ends] at hfin

private lemma Agrees.settle (h : Agrees b stored lines settles written) (hindexed : b.Indexed)
    (hqueued : ∀ host ∈ settles, (b.moving.lookup host).isSome → endIn lines host = none) (written' : Bool) :
    Agrees (b.compacted settles written) stored lines [] written' where
  absent uid hnone := by
    rw [(compacted_frame _ _ _).1] at hnone
    exact h.absent uid hnone
  steady host fin hfin hmoving := by
    refine ⟨not_mem_nil, ?_⟩
    by_cases hmem : host ∈ settles
    · cases hm : b.moving.lookup host with
      | none =>
        -- an end that does not move is not among those to settle
        rw [lookup_ends_compacted, hm, getD_none, ite_self] at hfin
        exact absurd hmem (h.steady host fin hfin hm).1
      | some held =>
        have hlines := hqueued host hmem (by simp [hm])
        obtain ⟨kept, he⟩ := isSome_iff_exists.mp (hindexed.moving_ends host (by simp [hm]))
        refine ⟨h.settling host kept held he hm hmem hlines fin ?_, hlines⟩
        rw [lookup_ends_compacted, hm, getD_some, he] at hfin
        cases written with
        | true => simpa using hfin
        | false => simpa [hmem] using hfin
    · rw [lookup_ends_compacted, if_neg fun hc => hmem hc.1] at hfin
      rw [lookup_moving_compacted, if_neg hmem] at hmoving
      exact (h.steady host fin hfin hmoving).2
  moved host fin held hfin hmoving _ := by
    by_cases hmem : host ∈ settles
    · simp [lookup_moving_compacted, if_pos hmem] at hmoving
    · rw [lookup_ends_compacted, if_neg fun hc => hmem hc.1] at hfin
      rw [lookup_moving_compacted, if_neg hmem] at hmoving
      exact h.moved host fin held hfin hmoving hmem
  settling _ _ _ _ _ hmem := absurd hmem not_mem_nil

private lemma Agrees.of_nil (h : Agrees b stored lines [] written) (written' : Bool) :
    Agrees b stored lines [] written' where
  absent := h.absent
  steady := h.steady
  moved := h.moved
  settling _ _ _ _ _ hmem := absurd hmem not_mem_nil

private lemma endIn_eq_none_iff {host : String} : endIn changes host = none ↔ host ∉ endHosts changes := by
  rw [← not_isSome_iff_eq_none, isSome_endIn_iff, mem_endHosts]
  refine not_congr ⟨?_, ?_⟩
  · rintro ⟨change, hmem, fin, rfl⟩
    exact ⟨fin, hmem⟩
  · rintro ⟨fin, hmem⟩
    exact ⟨_, hmem, fin, rfl⟩

private lemma Agrees.append {more : List Change} (h : Agrees b stored (more ++ lines) [] written) :
    Agrees b (stored ++ more) lines (endHosts more) true where
  absent uid hnone := by
    rw [append_assoc]
    exact h.absent uid hnone
  steady host fin hfin hmoving := by
    obtain ⟨-, hstored, hlines⟩ := h.steady host fin hfin hmoving
    rw [endIn_append, or_eq_none_iff] at hlines
    refine ⟨endIn_eq_none_iff.mp hlines.2, ?_, hlines.1⟩
    rw [endIn_append, hlines.2, hstored]
    rfl
  moved host fin held hfin hmoving hmem := by
    obtain ⟨hlines, hheld⟩ := h.moved host fin held hfin hmoving not_mem_nil
    have hmore := endIn_eq_none_iff.mpr hmem
    rw [endIn_append, hmore, or_none] at hlines
    refine ⟨hlines, fun before hbefore => ?_⟩
    rw [endIn_append, hmore, hheld before hbefore]
    rfl
  settling host fin held hfin hmoving _ hlines left hleft := by
    obtain ⟨hsaid, -⟩ := h.moved host fin held hfin hmoving not_mem_nil
    rw [endIn_append, hlines, none_or] at hsaid
    rw [if_pos rfl] at hleft
    rw [endIn_append, hsaid, ← hleft]
    rfl

private lemma mem_moving_keys {host : String} : host ∈ b.moving.keys ↔ (b.moving.lookup host).isSome := by
  rw [← AList.mem_keys, ← AList.lookup_isSome]

private lemma agrees_snapshot (b : Bindings) : Agrees b b.snapshot [] b.moving.keys true where
  absent uid hnone := by
    rw [append_nil, boundIn_snapshot, hostOf, hnone]
    rfl
  steady host fin hfin hmoving := by
    refine ⟨?_, by rw [endIn_snapshot, hfin], rfl⟩
    rw [mem_moving_keys, hmoving]
    simp
  moved host fin held _ hmoving hmem := by
    refine absurd ?_ hmem
    rw [mem_moving_keys, hmoving]
    rfl
  settling host fin held hfin _ _ _ left hleft := by
    rw [if_pos rfl] at hleft
    rw [endIn_snapshot, hfin, hleft]

/-- The lines are given up and their moves undone. Nothing is lost if no removal was among them. -/
private lemma Agrees.giveUp (h : Agrees b stored lines [] written) (hlines : ∀ uid, Change.unbound uid ∉ lines) :
    Agrees b stored [] b.moving.keys false where
  absent uid hnone := by
    have hbound := h.absent uid hnone
    rw [boundIn_append] at hbound
    rw [append_nil]
    cases hlast : lastMention lines uid with
    | none =>
      rwa [hlast] at hbound
    | some said =>
      rw [hlast, getD_some] at hbound
      subst hbound
      obtain ⟨change, hmem, hsaid⟩ := Log.exists_of_last_eq_some hlast
      rcases Change.mention_eq_some_iff.mp hsaid with ⟨rfl, -⟩ | ⟨host, -, hnone⟩
      · exact absurd hmem (hlines uid)
      · cases hnone
  steady host fin hfin hmoving := by
    refine ⟨?_, (h.steady host fin hfin hmoving).2.1, rfl⟩
    rw [mem_moving_keys, hmoving]
    simp
  moved host fin held _ hmoving hmem := by
    refine absurd ?_ hmem
    rw [mem_moving_keys, hmoving]
    rfl
  settling host fin held hfin hmoving _ _ left hleft := by
    rw [if_neg (by simp)] at hleft
    exact (h.moved host fin held hfin hmoving not_mem_nil).2 left hleft

end Agrees

/-! ### The ends that bindings rely on -/

section EndStored

variable {b b' : Bindings} {added : List Change} {host : String}

private lemma Bindings.EndTurn.ended (h : Bindings.EndTurn b b' added host) {uid : InstanceUid}
    (hhost : b'.hostOf uid = some host) (hended : (b.ends.lookup host).isSome) : (b'.ends.lookup host).isSome ∧
      (b'.moving.lookup host = some none → b.moving.lookup host = some none) := by
  cases h with
  | same ends moving _ => exact ⟨ends ▸ hended, fun hm => moving ▸ hm⟩
  | moved ends moving _ _ =>
    refine ⟨by simp [ends], fun hm => ?_⟩
    rw [moving, some.injEq] at hm
    simp [hm] at hended
  | dropped _ _ unbound _ => exact absurd hhost (unbound uid)

private lemma Bindings.EndStored.compacted (h : b.EndStored host) (hosts : List String) (written : Bool) :
    (b.compacted hosts written).EndStored host := by
  refine ⟨?_, ?_⟩
  · rw [lookup_ends_compacted]
    split
    · cases hm : b.moving.lookup host with
      | none => exact h.1
      | some held =>
        cases held with
        | none => exact absurd hm h.2
        | some before => rfl
    · exact h.1
  · rw [lookup_moving_compacted]
    split
    · simp
    · exact h.2

private lemma Bindings.endStored_of_written (hended : (b.ends.lookup host).isSome)
    (hmem : b.moving.lookup host = some none → host ∈ hosts) : (b.compacted hosts true).EndStored host := by
  refine ⟨?_, fun hm => ?_⟩
  · rwa [lookup_ends_compacted, if_neg (by simp)]
  rw [lookup_moving_compacted] at hm
  split at hm
  · cases hm
  next hnot =>
    exact hnot (hmem hm)

end EndStored

/-! ### Runs -/

namespace Cache

variable {cache cache' : Cache} {stored added : List Change} {act : Act} {waiting : List Waiter}

def sound (cache : Cache) : Bool := cache.journal.any fun journal => !journal.damaged

def SettlesEnd : Phase → String → Prop
  | .taken changes _, host | .appended changes _, host => host ∈ endHosts changes
  | .refused _ _, _ => True
  | .copied rewrite, host | .rewritten rewrite _, host => host ∈ rewrite.moving
  | _, _ => False

/-- Every binding that is relied on, or may come to be, has an end; one that the store does not hold yet is written with
it. -/
structure EndsKept (cache : Cache) : Prop where
  sure : ∀ uid host, Sure cache.binds cache.bindings uid host → cache.bindings.EndStored host
  queued : ∀ id bind uid host, some id ∈ cache.waiting → Owns cache.binds cache.bindings id bind uid host →
    (cache.bindings.ends.lookup host).isSome ∧
      (cache.bindings.moving.lookup host = some none → (endIn cache.queue host).isSome)
  underway : ∀ id bind uid host, some id ∈ told cache.phase → Owns cache.binds cache.bindings id bind uid host →
    (cache.bindings.ends.lookup host).isSome ∧
      (cache.bindings.moving.lookup host = some none → SettlesEnd cache.phase host)

/-- In which phase the bindings agree with what. A store that nothing can be appended to is behind until it is
rewritten whole. -/
def AgreesIn (sound : Bool) (b : Bindings) (queue stored : List Change) : Phase → Prop
  | .idle written | .answered written => written = true ∨ sound = true → Agrees b stored queue [] true
  | .taken changes _ | .refused changes _ => sound = true → Agrees b stored (changes ++ queue) [] true
  | .appended changes _ => Agrees b stored queue (endHosts changes) true
  | .copied rewrite => Agrees b rewrite.changes queue rewrite.moving true ∧
      (sound = true ∨ rewrite.replaces = none → (∀ uid, Change.unbound uid ∉ rewrite.takesIn) →
        Agrees b stored queue rewrite.moving false)
  | .rewritten rewrite true => Agrees b stored queue rewrite.moving true
  | .rewritten rewrite false => sound = true ∨ rewrite.replaces = none → Agrees b stored queue rewrite.moving false
  | .grown => Agrees b stored queue [] true

def Unwritten : Phase → Prop
  | .idle written | .answered written => written = false
  | .taken _ _ => True
  | _ => False

structure Faithful (cache : Cache) (stored : List Change) : Prop where
  stores : cache.Stores stored
  unwritten : cache.journal = none → Unwritten cache.phase
  agrees : cache.journal.isSome → AgreesIn cache.sound cache.bindings cache.queue stored cache.phase
  ended : cache.journal.isSome → cache.EndsKept

/-! #### The tasks beside the writer -/

private lemma EndsKept.queues (h : cache.EndsKept) (htidy : cache.Tidy)
    (hq : cache.Queues (finishes act) cache' added) (hown : cache.FinishesOwn act) : cache'.EndsKept := by
  obtain ⟨made, committed, hturn, -⟩ := hq.turn
  refine ⟨fun uid host hsure => ?_, fun id bind uid host hw howns => ?_, fun id bind uid host hw howns => ?_⟩
  · have hstored := h.sure uid host (hsure.of_queues htidy hq hown).1
    obtain ⟨hends, hmoving⟩ := (hturn.ends host).ended hsure.hostOf hstored.1
    exact ⟨hends, fun hm => hstored.2 (hmoving hm)⟩
  · rw [hq.queue, endIn_append, isSome_or, Bool.or_eq_true]
    rcases howns.of_queues htidy hq with ⟨hbefore, -⟩ | ⟨-, -, -, hends, hmoving⟩
    · rcases hq.waiting id hw with hold | ⟨rfl, -⟩
      · obtain ⟨hended, hqueue⟩ := h.queued id bind uid host hold hbefore
        obtain ⟨hends, hmoving⟩ := (hturn.ends host).ended howns.hostOf hended
        exact ⟨hends, fun hm => .inr (hqueue (hmoving hm))⟩
      · exact absurd rfl (htidy.bind_lt _ bind hbefore.underway).ne
    · exact ⟨hends, fun hm => .inl (hmoving hm)⟩
  · rw [hq.phase] at hw ⊢
    rcases howns.of_queues htidy hq with ⟨hbefore, -⟩ | ⟨rfl, -⟩
    · obtain ⟨hended, hphase⟩ := h.underway id bind uid host hw hbefore
      obtain ⟨hends, hmoving⟩ := (hturn.ends host).ended howns.hostOf hended
      exact ⟨hends, fun hm => hphase (hmoving hm)⟩
    · exact absurd rfl (htidy.told_lt _ hw).ne

private lemma AgreesIn.turn {sound : Bool} {b b' : Bindings} {queue : List Change} {phase : Phase}
    {made committed : Option InstanceUid} (h : AgreesIn sound b queue stored phase)
    (hturn : Bindings.Turn b b' made committed added) : AgreesIn sound b' (queue ++ added) stored phase := by
  cases phase with
  | idle written | answered written => exact fun hs => (h hs).turn hturn
  | taken changes waiting | refused changes waiting =>
    intro hs
    rw [← append_assoc]
    exact (h hs).turn hturn
  | appended changes waiting | grown => exact Agrees.turn h hturn
  | copied rewrite => exact ⟨h.1.turn hturn, fun hs hno => (h.2 hs hno).turn hturn⟩
  | rewritten rewrite written =>
    cases written with
    | true => exact Agrees.turn h hturn
    | false => exact fun hs => (h hs).turn hturn

private lemma Faithful.queues (h : cache.Faithful stored) (htidy : cache.Tidy)
    (hq : cache.Queues (finishes act) cache' added) (hown : cache.FinishesOwn act) : cache'.Faithful stored where
  stores := h.stores.queues hq
  unwritten hnone := by
    rw [hq.phase]
    exact h.unwritten (hq.journal ▸ hnone)
  agrees hopen := by
    obtain ⟨made, committed, hturn, -⟩ := hq.turn
    have hsound : cache'.sound = cache.sound := by rw [sound, sound, hq.journal]
    rw [hsound, hq.queue, hq.phase]
    exact (h.agrees (hq.journal ▸ hopen)).turn hturn
  ended hopen := (h.ended (hq.journal ▸ hopen)).queues htidy hq hown

/-! #### The store writer -/

def settling : Phase → List String
  | .appended changes _ => endHosts changes
  | .rewritten rewrite _ => rewrite.moving
  | _ => []

/-- A write settles only moves that were queued before it took its lines. -/
def SettlesTaken (cache : Cache) : Act → Prop
  | .settle | .settleRewrite => ∀ host ∈ settling cache.phase, (cache.bindings.moving.lookup host).isSome = true →
      endIn cache.queue host = none
  | _ => True

instance (cache : Cache) (act : Act) : Decidable (cache.SettlesTaken act) := by
  unfold SettlesTaken
  split <;> infer_instance

/-- A rewrite that fails keeps the writer from appending anything until one succeeds; or the old store is in place and
no removal was taken in; or the new store is in place and no end was moving. A store that has grown was written before,
so that its rewrite is held to the last two. -/
def LosesNothing (cache : Cache) : Act → Prop
  | .rewrite io =>
    match cache.phase, cache.journal with
    | .copied rewrite, some journal =>
      renames io rewrite.changes = true ∧ io ≠ .notSynced ∨
      rewrite.replaces.isSome = true ∧ damages journal io rewrite.changes = true ∨
      renames io rewrite.changes = false ∧ (∀ change ∈ rewrite.takesIn, isRemoval change = false) ∨
      renames io rewrite.changes = true ∧ rewrite.moving = []
    | _, _ => True
  | _ => True

instance (cache : Cache) (act : Act) : Decidable (cache.LosesNothing act) := by
  unfold LosesNothing
  split
  · split <;> infer_instance
  · infer_instance

private lemma EndsKept.settles (h : cache.EndsKept) {written : Bool}
    {phase : Phase} (htold : told phase = []) (hwritten : written = true → ∀ id bind uid host, some id ∈ waiting →
      Owns cache.binds cache.bindings id bind uid host → (cache.bindings.ends.lookup host).isSome ∧
        (cache.bindings.moving.lookup host = some none → host ∈ hosts))
    (hqueued : ∀ host ∈ hosts, (cache.bindings.moving.lookup host).isSome → endIn cache.queue host = none) :
    (cache.settled waiting hosts written phase).EndsKept where
  sure uid host hsure := by
    rcases hsure.of_tell with hbefore | ⟨rfl, id, before, hmem, howns⟩
    · exact (h.sure uid host hbefore).compacted hosts written
    · obtain ⟨hended, hhosts⟩ := hwritten rfl id before uid host hmem howns
      exact endStored_of_written hended hhosts
  queued id bind uid host hw howns := by
    obtain ⟨before, hbefore, -⟩ := howns.of_tell
    obtain ⟨hended, hqueue⟩ := h.queued id before uid host hw hbefore
    by_cases hm : cache.bindings.moving.lookup host = some none
    · -- its own end is queued with it, so that this write does not settle it
      have hnot : host ∉ hosts := by
        intro hmem
        have hnone := hqueued host hmem (by simp [hm])
        have hsome := hqueue hm
        simp [hnone] at hsome
      refine ⟨?_, fun _ => hqueue hm⟩
      rwa [settled, lookup_ends_compacted, if_neg fun hc => hnot hc.1]
    · have hstored := Bindings.EndStored.compacted ⟨hended, hm⟩ hosts written
      exact ⟨hstored.1, fun hc => absurd hc hstored.2⟩
  underway id bind uid host hw := by simp [settled, htold] at hw

private lemma faithful_closed {file : Option Bytes} (h : load file = .ok stored) : (closed file).Faithful stored where
  stores := h
  unwritten _ := rfl
  agrees hopen := by simp [closed] at hopen
  ended hopen := by simp [closed] at hopen

section

variable (h : cache.Faithful stored)
include h

variable {result : Option Bytes × Journal × Bool} {journal : Journal}

private lemma Faithful.append (phase : cache.phase = .taken changes waiting)
    (opened : cache.journal = some journal) (appends : Appends journal cache.file changes result) :
    ∃ stored', ({ cache with
      file := result.1
      journal := some result.2.1
      phase := if result.2.2 then .appended changes waiting
        else .refused changes waiting } : Cache).Faithful stored' := by
  have hkeeps := h.stores.keeps opened
  have hopen : cache.journal.isSome := by simp [opened]
  have hagrees := h.agrees hopen
  have hended := h.ended hopen
  have hunderway := hended.underway
  rw [phase] at hagrees hunderway
  have hsound : journal.damaged = false → cache.sound = true := fun hd => by simp [sound, opened, hd]
  cases appends with
  | written undamaged keeps =>
    exact ⟨_, keeps hkeeps, by simp, fun _ => (hagrees (hsound undamaged)).append,
      fun _ => ⟨hended.sure, hended.queued, hunderway⟩⟩
  | refused k undamaged keeps =>
    refine ⟨_, keeps hkeeps, by simp, fun _ hs => ?_, fun _ => ⟨hended.sure, hended.queued,
      fun id bind uid host hw howns => ⟨(hunderway id bind uid host hw howns).1, fun _ => trivial⟩⟩⟩
    obtain ⟨hbefore, rfl⟩ := undamaged (by simpa [sound] using hs)
    rw [take_zero, append_nil]
    exact hagrees (hsound hbefore)

private lemma Faithful.copyFor {replaces : Option (List Waiter)} {takesIn : List Change}
    (hwritten : ¬Unwritten cache.phase) (htold : ∀ waiter ∈ replaces.getD [], waiter ∈ told cache.phase)
    (hlines : cache.journal.isSome → cache.sound = true ∨ replaces = none →
      Agrees cache.bindings stored (takesIn ++ cache.queue) [] true) :
    (cache.copyFor replaces takesIn).Faithful stored := by
  refine ⟨h.stores, fun hnone => absurd (h.unwritten hnone) hwritten, fun hopen =>
    ⟨agrees_snapshot cache.bindings, fun hs hno => (hlines hopen hs).giveUp hno⟩,
    fun hopen => ⟨(h.ended hopen).sure, fun id bind uid host hw => by simp [Cache.copyFor] at hw,
      fun id bind uid host hw howns => ⟨?_, fun hm => ?_⟩⟩⟩
  · rcases mem_append.mp hw with hw | hw
    · exact ((h.ended hopen).queued id bind uid host hw howns).1
    · exact ((h.ended hopen).underway id bind uid host (htold _ hw) howns).1
  · refine mem_moving_keys.mpr ?_
    rw [show cache.bindings.moving.lookup host = some none from hm]
    rfl

private lemma Faithful.rewrite {io : RewriteIo} {rewrite : Rewrite} (hloses : cache.LosesNothing (.rewrite io))
    (phase : cache.phase = .copied rewrite) (opened : cache.journal = some journal)
    (rewrites : Rewrites journal cache.file io rewrite.changes result) : ∃ stored', ({ cache with
      file := result.1
      journal := some result.2.1
      phase := .rewritten rewrite result.2.2 } : Cache).Faithful stored' := by
  have hopen : cache.journal.isSome := by simp [opened]
  have hagrees := h.agrees hopen
  have hended := h.ended hopen
  have hunderway := hended.underway
  rw [phase] at hagrees hunderway
  obtain ⟨hnew, hold⟩ := hagrees
  simp only [LosesNothing, phase, opened] at hloses
  cases rewrites with
  | written keeps =>
    exact ⟨rewrite.changes, keeps, by simp, fun _ => hnew, fun _ => ⟨hended.sure, hended.queued, hunderway⟩⟩
  | kept keeps old damaged =>
    refine ⟨stored, keeps (h.stores.keeps opened), by simp, fun _ hs => ?_, fun _ =>
      ⟨hended.sure, hended.queued, hunderway⟩⟩
    simp only [old, Bool.false_eq_true, false_and, false_or, or_false, true_and] at hloses
    rcases hloses with ⟨hreplaces, hdamages⟩ | hno
    · -- nothing is written until a rewrite succeeds
      exfalso
      rcases hs with hs | hs
      · simp [sound, damaged, hdamages] at hs
      · simp [hs] at hreplaces
    · refine hold (hs.imp_left fun hs => ?_) fun uid hmem => by simpa [isRemoval] using hno _ hmem
      simp only [sound, damaged, damages, any_some, Bool.not_or, Bool.and_eq_true] at hs
      simpa [sound, opened] using hs.1
  | unsynced keeps new sync damaged =>
    refine ⟨rewrite.changes, keeps, by simp, fun _ hs => ?_, fun _ => ⟨hended.sure, hended.queued, hunderway⟩⟩
    have hnone : rewrite.replaces = none := hs.resolve_left (by simp [sound, damaged])
    subst sync
    rw [new, hnone] at hloses
    simp only [ne_eq, not_true_eq_false, and_false, isSome_none, Bool.false_eq_true, false_and,
      Bool.true_eq_false, true_and, false_or] at hloses
    rw [hloses] at hnew ⊢
    exact hnew.of_nil false

private lemma Faithful.writes (hindexed : cache.bindings.Indexed) (htaken : cache.SettlesTaken act)
    (hloses : cache.LosesNothing act) (hw : Writes cache act cache') : ∃ stored', cache'.Faithful stored' := by
  have hagrees := h.agrees
  have hended := h.ended
  have hunwritten := h.unwritten
  have hunderway := fun hopen => (h.ended hopen).underway
  cases hw with
  | flush phase =>
    rw [phase] at hagrees
    refine ⟨stored, h.stores, fun _ => trivial, fun hopen hs => ?_, fun hopen => ⟨(hended hopen).sure,
      fun id bind uid host hw => by simp at hw, fun id bind uid host hw howns => ?_⟩⟩
    · rw [append_nil]
      exact hagrees hopen (.inr hs)
    obtain ⟨hends, hqueue⟩ := (hended hopen).queued id bind uid host hw howns
    refine ⟨hends, fun hm => ?_⟩
    by_contra hnot
    have hsome := hqueue hm
    simp [endIn_eq_none_iff.mpr hnot] at hsome
  | unopened phase journal =>
    -- without a store there is nothing to agree with
    have hclosed : ¬(cache.journal.isSome = true) := by simp [journal]
    exact ⟨stored, h.stores, fun _ => rfl, fun hopen => absurd hopen hclosed, fun hopen => absurd hopen hclosed⟩
  | append phase opened appends => exact h.append phase opened appends
  | settle phase =>
    simp only [SettlesTaken, phase, settling] at htaken
    rw [phase] at hagrees hunderway hunwritten
    exact ⟨stored, h.stores, fun hnone => (hunwritten hnone).elim,
      fun hopen _ => Agrees.settle (hagrees hopen) hindexed htaken true,
      fun hopen => (hended hopen).settles rfl (fun _ => hunderway hopen) htaken⟩
  | copyRefused phase =>
    rw [phase] at hagrees
    refine ⟨stored, h.copyFor (by simp [phase, Unwritten]) (fun waiter hw => ?_) fun hopen hs =>
      hagrees hopen (hs.resolve_right (by simp))⟩
    rwa [phase]
  | copyGrown phase =>
    rw [phase] at hagrees
    exact ⟨stored, h.copyFor (by simp [phase, Unwritten]) (by simp) fun hopen _ => hagrees hopen⟩
  | rewrite phase opened rewrites => exact h.rewrite hloses phase opened rewrites
  | @settleRewrite rewrite written phase =>
    simp only [SettlesTaken, phase, settling] at htaken
    rw [phase] at hagrees hunderway hunwritten
    refine ⟨stored, h.stores, fun hnone => (hunwritten hnone).elim, fun hopen => ?_, fun hopen => ?_⟩
    · -- how the rewrite ended decides whether the next append may follow it
      have hsettled : written = true ∨ cache.sound = true ∨ rewrite.replaces = none →
          Agrees (cache.bindings.compacted rewrite.moving written) stored cache.queue [] true := by
        intro hs
        cases written with
        | true => exact Agrees.settle (hagrees hopen) hindexed htaken true
        | false => exact Agrees.settle (hagrees hopen (hs.resolve_left (by simp))) hindexed htaken true
      cases hreplaces : rewrite.replaces with
      | none => exact fun _ => hsettled (.inr (.inr hreplaces))
      | some waiting => exact fun hs => hsettled (hs.imp_right .inl)
    · refine (hended hopen).settles ?_ (fun _ => hunderway hopen) htaken
      split <;> rfl
  | grown phase =>
    rw [phase] at hagrees hunwritten
    exact ⟨stored, h.stores, fun hnone => absurd (hunwritten hnone) (by simp [Unwritten]),
      fun hopen => hagrees hopen (.inl rfl), fun hopen => ⟨(hended hopen).sure, (hended hopen).queued,
        fun id bind uid host hw => by simp [told] at hw⟩⟩
  | measure phase =>
    rw [phase] at hagrees hunwritten
    exact ⟨stored, h.stores, hunwritten, hagrees, fun hopen => ⟨(hended hopen).sure, (hended hopen).queued,
      fun id bind uid host hw => by simp [told] at hw⟩⟩
  | @opened now _ _ b _ _ _ replayed keeps =>
    have hmoving : ∀ host, (b.endAll now none).1.moving.lookup host = none := by
      intro host
      rw [lookup_moving_endAll, replayed.no_move, ite_self]
    have hkeys : (b.endAll now none).1.moving.keys = [] := by
      refine eq_nil_iff_forall_not_mem.mpr fun host hmem => ?_
      simp [mem_moving_keys, hmoving] at hmem
    refine ⟨_, keeps, by simp, fun _ _ => ?_, fun _ => ⟨fun uid host hs => ⟨?_, by simp [hmoving]⟩,
      fun id bind uid host hw => by simp [closed] at hw, fun id bind uid host hw => by simp [closed, told] at hw⟩⟩
    · have hsnapshot := agrees_snapshot (b.endAll now none).1
      rwa [hkeys] at hsnapshot
    · exact replayed.ended_endAll hs.hostOf
  | closed loads =>
    rcases loads stored h.stores.load with hload | ⟨b, -, hload⟩ <;> exact ⟨_, faithful_closed hload⟩

private lemma Faithful.step {limits : Limits} (htidy : cache.Tidy)
    (hown : cache.FinishesOwn act) (htaken : cache.SettlesTaken act) (hloses : cache.LosesNothing act)
    (hstep : cache.step limits act = some cache') : ∃ stored', cache'.Faithful stored' := by
  rcases htidy.step_cases hstep with ⟨added, hq⟩ | hw
  · exact ⟨stored, h.queues htidy hq hown⟩
  · exact h.writes htidy.indexed htaken hloses hw

end

def KeepsAgreed (cache : Cache) (act : Act) : Prop :=
  cache.KeepsRelied act ∧ cache.SettlesTaken act ∧ cache.LosesNothing act

instance (cache : Cache) (act : Act) : Decidable (cache.KeepsAgreed act) := by
  unfold KeepsAgreed
  infer_instance

def InStep (cache : Cache) : Prop := cache.KeepsStored ∧ ∃ stored, cache.Faithful stored

private lemma InStep.step {limits : Limits} (h : cache.InStep) (hok : cache.KeepsAgreed act)
    (hstep : cache.step limits act = some cache') : cache'.InStep := by
  obtain ⟨hkeeps, stored, hfaithful⟩ := h
  exact ⟨hkeeps.step hok.1 hstep, hfaithful.step hkeeps.1.1 hok.1.1 hok.2.1 hok.2.2 hstep⟩

end Cache

/-- Whenever a flush has ended with its write successful, no change is queued and no binding pending, the journal loaded
and replayed yields exactly the map of bindings and the end of each host that the Gateway holds, in every state that a
run reaches whose steps all meet the condition. -/
theorem store_agrees (limits : Limits) {cache : Cache}
    (h : Reach Cache.start (restrict Cache.KeepsAgreed (Cache.step limits)) cache) (hidle : cache.phase = .idle true)
    (hqueue : cache.queue = [])
    (hpending : ∀ uid binding, cache.bindings.bound.lookup uid = some binding → binding.pending = false) :
    ∃ changes b, load cache.file = .ok changes ∧ replay changes = .ok b ∧
      (∀ uid, b.hostOf uid = cache.bindings.hostOf uid) ∧ ∀ host,
        b.ends.lookup host = cache.bindings.ends.lookup host := by
  have hinv : cache.InStep := by
    exact h.invariant_restrict ⟨⟨Cache.readsBack_start, [], Cache.durable_closed rfl⟩, [], Cache.faithful_closed rfl⟩
      fun _ _ _ hinv hok hstep => hinv.step hok hstep
  obtain ⟨⟨⟨htidy, lines, hloadable⟩, stored, hdurable⟩, stored', hfaithful⟩ := hinv
  -- the invariants speak of the one store that is there
  have hsame : lines = stored := Except.ok.inj (hloadable.stores.load.symm.trans hdurable.stores.load)
  have hsame' : stored' = stored := Except.ok.inj (hfaithful.stores.load.symm.trans hdurable.stores.load)
  subst hsame
  subst hsame'
  have hopen : cache.journal.isSome := by
    rw [← ne_none_iff_isSome]
    intro hnone
    have hunwritten := hfaithful.unwritten hnone
    simp [hidle, Cache.Unwritten] at hunwritten
  have hagrees : Agrees cache.bindings stored' [] [] true := by
    have hagrees := hfaithful.agrees hopen
    rw [hidle, hqueue] at hagrees
    exact hagrees (.inl rfl)
  have hsure : ∀ uid host, cache.bindings.hostOf uid = some host →
      Cache.Sure cache.binds cache.bindings uid host := by
    intro uid host hhost
    obtain ⟨binding, hb, rfl⟩ := map_eq_some_iff.mp hhost
    exact .relied hb rfl (hpending uid binding hb)
  obtain ⟨b, hb, hreplayed⟩ := replay_of_endsFirst hloadable.readable.reads
  have hhostOf : ∀ uid, b.hostOf uid = cache.bindings.hostOf uid := by
    intro uid
    rw [hreplayed.hostOf_eq]
    cases hhost : cache.bindings.hostOf uid with
    | none =>
      have habsent := hagrees.absent uid (map_eq_none_iff.mp hhost)
      rwa [append_nil] at habsent
    | some host => exact (hdurable.sure uid host (hsure uid host hhost)).settled.bound
  refine ⟨stored', b, hdurable.stores.load, hb, hhostOf, fun host => ?_⟩
  cases hfin : cache.bindings.ends.lookup host with
  | none =>
    -- a host that is bound in the store is bound here, and then it has an end
    by_contra hsome
    obtain ⟨uid, huid⟩ := hreplayed.ends_owned host (ne_none_iff_isSome.mp hsome)
    rw [hhostOf] at huid
    have hstored := (hfaithful.ended hopen).sure uid host (hsure uid host huid)
    simp [hfin, Bindings.EndStored] at hstored
  | some fin =>
    have hmoving : cache.bindings.moving.lookup host = none := by
      cases hm : cache.bindings.moving.lookup host with
      | none => rfl
      | some held => cases (hagrees.moved host fin held hfin hm not_mem_nil).1
    obtain ⟨uid, huid⟩ := htidy.indexed.ends_owned host (by simp [hfin])
    rw [← hhostOf, hreplayed.hostOf_eq] at huid
    rw [hreplayed.ends_eq uid host huid]
    exact (hagrees.steady host fin hfin hmoving).2.1

open Small

namespace Small

/-- Two hosts bind an Agent each. One's certificate ends, the append of the removal fails and so does the rewrite in
its place, and the other's next binding is written. -/
def removalLost : List Act := [.restart 0 .replaced, bind 3 "b", .beginBind (uid 1) "a" early 0 fun _ => false] ++
  written ++ [.finishBind 0, .finishBind 1, .endCertificates 6 none] ++ failed ++ [bind 4 "b"] ++ written ++
  [.finishBind 2]

def removalLostStore : List Change :=
  [.ends "b" late, .bound (uid 3) "b", .ends "a" early, .bound (uid 1) "a", .bound (uid 4) "b"]

def allWritten (cache : Cache) : Bool :=
  (match cache.phase with
    | .idle written => written
    | _ => false) && cache.queue.isEmpty && cache.bindings.bound.entries.all fun entry => !entry.2.pending

private lemma spec_of_allWritten {cache : Cache} (h : allWritten cache = true) :
    cache.phase = .idle true ∧ cache.queue = [] ∧
    ∀ uid binding, cache.bindings.bound.lookup uid = some binding → binding.pending = false := by
  simp only [allWritten, Bool.and_eq_true, List.isEmpty_iff, List.all_eq_true, Bool.not_eq_true'] at h
  refine ⟨?_, h.1.2, fun uid binding hb => h.2 ⟨uid, binding⟩ (AList.mem_lookup_iff.mp hb)⟩
  have hidle := h.1.1
  split at hidle
  next written hphase =>
    rw [hphase, hidle]
  · cases hidle

end Small

/-- One Agent bound, its binding stored and relied on. -/
theorem store_agrees_bound : ∃ cache, Reach Cache.start (restrict Cache.KeepsAgreed (Cache.step limits)) cache ∧
    cache.bindings.holds (uid 1) "a" = true ∧ cache.phase = .idle true ∧ cache.queue = [] ∧
      (∀ uid binding, cache.bindings.bound.lookup uid = some binding → binding.pending = false) ∧
      ∃ changes b, load cache.file = .ok changes ∧ replay changes = .ok b ∧
        (∀ uid, b.hostOf uid = cache.bindings.hostOf uid) ∧
        ∀ host, b.ends.lookup host = cache.bindings.ends.lookup host := by
  refine Reach.exists_of_run_imp (p := fun cache => cache.bindings.holds (uid 1) "a" = true ∧ allWritten cache = true)
    ([.restart 0 .replaced, bind 1 "a"] ++ written ++ [.finishBind 0]) (by decide +kernel) ?_
  rintro cache hreach ⟨hholds, hwritten⟩
  obtain ⟨hidle, hqueue, hpending⟩ := spec_of_allWritten hwritten
  exact ⟨hholds, hidle, hqueue, hpending, store_agrees limits hreach hidle hqueue hpending⟩

/-- The store still binds the Agent whose removal was lost. -/
theorem store_keeps_ended : ∃ cache, Reach Cache.start (Cache.step limits) cache ∧ cache.phase = .idle true ∧
    cache.queue = [] ∧ (∀ uid binding, cache.bindings.bound.lookup uid = some binding → binding.pending = false) ∧
      ¬∃ changes b, load cache.file = .ok changes ∧ replay changes = .ok b ∧
        (∀ uid, b.hostOf uid = cache.bindings.hostOf uid) ∧
        ∀ host, b.ends.lookup host = cache.bindings.ends.lookup host := by
  refine Reach.exists_of_run_imp (p := fun cache => allWritten cache = true ∧ cache.bindings.hostOf (uid 1) = none ∧
    cache.file = (lines removalLostStore).map fun bytes => Core.utf8 header ++ 10 :: bytes ++ []) removalLost
    (by decide +kernel) ?_
  rintro cache - ⟨hwritten, hnone, hfile⟩
  have hlines : (lines removalLostStore).any fun bytes => bytes.length ≤ 1000 := by decide +kernel
  obtain ⟨hidle, hqueue, hpending⟩ := spec_of_allWritten hwritten
  refine ⟨hidle, hqueue, hpending, ?_⟩
  rintro ⟨changes, b, hload, hreplay, hhostOf, -⟩
  rw [load_of_lines hlines hfile] at hload
  cases hload
  have hbinds : (replay removalLostStore).toOption.all (fun b => (b.hostOf (uid 1)).isSome) = true := rfl
  rw [hreplay] at hbinds
  simp [Except.toOption, hhostOf, hnone] at hbinds


end OpampFleet.Gateway
