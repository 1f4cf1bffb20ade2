import OpampFleet.Gateway.Indexes
import OpampFleet.Lib.Log

/-!
# What a journal of changes says

A journal leaves an `instance_uid` bound to the host its last line about it says, and a host's certificate end where its
last line says. `replay` reads exactly that, and fails only when a host is left with a binding and no end.
-/

namespace OpampFleet.Gateway

open Lib Opamp List Map Log

namespace Change

def mention (uid : InstanceUid) : Change → Option (Option String)
  | .bound u host => if u = uid then some (some host) else none
  | .unbound u => if u = uid then some none else none
  | _ => none

def endOf (host : String) : Change → Option End
  | .ends name fin => if name = host then some fin else none
  | _ => none

lemma mention_eq_some_iff {uid : InstanceUid} {change : Change} {said : Option String} :
    change.mention uid = some said ↔
      change = .unbound uid ∧ said = none ∨ ∃ host, change = .bound uid host ∧ said = some host := by
  cases change <;> simp [mention, eq_comm]

lemma endOf_eq_some_iff {host : String} {change : Change} {fin : End} :
    change.endOf host = some fin ↔ change = .ends host fin := by
  cases change <;> simp [endOf]

def Gives (change : Change) (host : String) : Prop := ∃ fin, change = .ends host fin

def Uses (change : Change) (host : String) : Prop := ∃ uid, change = .bound uid host

end Change

open Change

def lastMention (journal : List Change) (uid : InstanceUid) : Option (Option String) :=
  last (mention uid) journal

def boundIn (journal : List Change) (uid : InstanceUid) : Option String := (lastMention journal uid).join

def endIn (journal : List Change) (host : String) : Option End := last (endOf host) journal

/-- Every host has an end, there beforehand or in a line before, where a line binds to it. -/
abbrev EndsFirst (base : String → Prop) (journal : List Change) : Prop :=
  Log.Guarded Change.Gives Change.Uses base journal

section Reading

variable (journal journal' : List Change) (uid : InstanceUid) (host : String)

lemma lastMention_append :
    lastMention (journal ++ journal') uid = (lastMention journal' uid).or (lastMention journal uid) :=
  last_append _ _

lemma boundIn_append : boundIn (journal ++ journal') uid = (lastMention journal' uid).getD (boundIn journal uid) := by
  unfold boundIn
  rw [lastMention_append]
  cases lastMention journal' uid <;> rfl

private lemma boundIn_concat (change : Change) :
    boundIn (journal ++ [change]) uid = (change.mention uid).getD (boundIn journal uid) := by
  unfold boundIn lastMention
  rw [last_concat]
  cases change.mention uid <;> rfl

lemma endIn_append : endIn (journal ++ journal') host = (endIn journal' host).or (endIn journal host) :=
  last_append _ _

private lemma endIn_concat (change : Change) :
    endIn (journal ++ [change]) host = (change.endOf host).or (endIn journal host) :=
  last_concat _ _

variable {journal uid host}

lemma lastMention_eq_none_iff : lastMention journal uid = none ↔ ∀ change ∈ journal, change.mention uid = none :=
  last_eq_none_iff

private lemma exists_bound_of_boundIn (h : boundIn journal uid = some host) : bound uid host ∈ journal := by
  obtain ⟨change, hmem, hc⟩ := exists_of_last_eq_some (Option.join_eq_some_iff.mp h)
  rcases mention_eq_some_iff.mp hc with ⟨-, hnone⟩ | ⟨name, rfl, hname⟩
  · cases hnone
  · cases hname
    exact hmem

lemma isSome_endIn_iff : (endIn journal host).isSome ↔ ∃ change ∈ journal, change.Gives host := by
  constructor
  · intro h
    obtain ⟨fin, hfin⟩ := Option.isSome_iff_exists.mp h
    obtain ⟨change, hmem, hc⟩ := exists_of_last_eq_some hfin
    exact ⟨change, hmem, fin, endOf_eq_some_iff.mp hc⟩
  · rintro ⟨change, hmem, fin, rfl⟩
    rw [← Option.ne_none_iff_isSome]
    intro hnone
    have := last_eq_none_iff.mp hnone _ hmem
    simp [endOf] at this

end Reading

namespace Bindings

structure ReadFrom (journal : List Change) (b : Bindings) (ends : Map String End) : Prop where
  index : b.HostIndex
  hostOf_eq : ∀ uid, b.hostOf uid = boundIn journal uid
  relied : ∀ uid binding, b.bound.lookup uid = some binding → binding.pending = false
  ends_eq : ∀ host, ends.lookup host = endIn journal host
  no_end : ∀ host, b.ends.lookup host = none
  no_move : ∀ host, b.moving.lookup host = none

private lemma no_end_unbind {b : Bindings} (hindex : b.HostIndex) (hends : ∀ host, b.ends.lookup host = none)
    (hmoving : ∀ host, b.moving.lookup host = none) (uid : InstanceUid) (host : String) :
    (b.unbind uid false).ends.lookup host = none ∧ (b.unbind uid false).moving.lookup host = none := by
  rcases hindex.ends_unbind uid false host with ⟨he, hm, -⟩ | ⟨he, hm, -⟩
  · exact ⟨he, hm⟩
  · exact ⟨he.trans (hends host), hm.trans (hmoving host)⟩

private lemma ReadFrom.step {journal : List Change} {b : Bindings} {ends : Map String End}
    (h : ReadFrom journal b ends) (change : Change) :
    ReadFrom (journal ++ [change]) (replayChange (b, ends) change).1 (replayChange (b, ends) change).2 := by
  have hindex : ({ b with tick := b.tick + 1 } : Bindings).HostIndex := h.index.congr rfl rfl
  have hunbind := no_end_unbind hindex h.no_end h.no_move
  have hhost := fun uid => boundIn_concat journal uid change
  have hend := fun host => endIn_concat journal host change
  cases change with
  | bound u name =>
    have hnone : (({ b with tick := b.tick + 1 } : Bindings).unbind u false).hostOf u = none := by
      rw [hostOf_unbind, if_pos rfl]
    refine ⟨(hindex.unbind u false).insert u hnone _, fun uid => ?_, fun uid binding hb => ?_, fun host => ?_,
      fun host => (hunbind u host).1, fun host => (hunbind u host).2⟩
    · simp only [replayChange, hostOf_insert, hostOf_unbind, hhost, mention]
      by_cases hu : uid = u
      · simp [hu]
      · rw [if_neg hu, if_neg hu, if_neg (Ne.symm hu)]
        exact h.hostOf_eq uid
    · simp only [replayChange, Bindings.insert, lookup_insert_ite, lookup_bound_unbind] at hb
      split at hb
      · cases hb
        rfl
      · exact h.relied uid binding hb
    · rw [hend]
      exact h.ends_eq host
  | unbound u =>
    refine ⟨hindex.unbind u false, fun uid => ?_, fun uid binding hb => ?_, fun host => ?_,
      fun host => (hunbind u host).1, fun host => (hunbind u host).2⟩
    · simp only [replayChange, hostOf_unbind, hhost, mention]
      by_cases hu : uid = u
      · simp [hu]
      · rw [if_neg hu, if_neg (Ne.symm hu)]
        exact h.hostOf_eq uid
    · simp only [replayChange, lookup_bound_unbind] at hb
      split at hb
      · cases hb
      · exact h.relied uid binding hb
    · rw [hend]
      exact h.ends_eq host
  | reported u =>
    have hkept : (replayChange (b, ends) (.reported u)).1.hostOf = b.hostOf ∧
        (replayChange (b, ends) (.reported u)).1.hosts = b.hosts := by
      simp only [replayChange]
      split
      next binding hb =>
        refine ⟨?_, rfl⟩
        funext uid
        simp only [hostOf, lookup_insert_ite]
        split
        next hu =>
          rw [hu, hb]
          rfl
        · rfl
      · exact ⟨rfl, rfl⟩
    refine ⟨h.index.congr hkept.1 hkept.2, fun uid => ?_, fun uid binding hb => ?_, fun host => ?_, fun host => ?_,
      fun host => ?_⟩
    · rw [hkept.1, hhost]
      exact h.hostOf_eq uid
    · simp only [replayChange] at hb
      split at hb
      next held hheld =>
        rcases lookup_of_insert hb with ⟨-, rfl⟩ | hb
        · exact h.relied u held hheld
        · exact h.relied uid binding hb
      · exact h.relied uid binding hb
    · rw [hend]
      simp only [replayChange]
      split <;> exact h.ends_eq host
    · simp only [replayChange]
      split <;> exact h.no_end host
    · simp only [replayChange]
      split <;> exact h.no_move host
  | ends name fin =>
    refine ⟨hindex, fun uid => ?_, h.relied, fun host => ?_, h.no_end, h.no_move⟩
    · rw [hhost]
      exact h.hostOf_eq uid
    simp only [replayChange, hend, endOf, lookup_insert_ite]
    by_cases hn : host = name
    · simp [hn]
    · rw [if_neg hn, if_neg (Ne.symm hn)]
      exact h.ends_eq host

private lemma readFrom_foldl (journal : List Change) :
    ReadFrom journal (journal.foldl replayChange (empty, ∅)).1 (journal.foldl replayChange (empty, ∅)).2 := by
  induction journal using reverseRecOn with
  | nil =>
    refine ⟨hostIndex_empty, fun uid => rfl, fun uid binding hb => ?_, fun host => rfl, fun host => rfl,
      fun host => rfl⟩
    simp [empty] at hb
  | append_singleton journal change ih =>
    rw [foldl_append, foldl_cons, foldl_nil]
    exact ih.step change

private lemma restoreEnd_foldlM (ends : Map String End) (hosts : List String) (b : Bindings) :
    (∃ e, hosts.foldlM (restoreEnd ends) b = .error e ∧ ∃ host ∈ hosts, ends.lookup host = none) ∨
      ∃ b', hosts.foldlM (restoreEnd ends) b = .ok b' ∧ (∀ host ∈ hosts, (ends.lookup host).isSome) ∧
        b'.bound = b.bound ∧ b'.hosts = b.hosts ∧ b'.moving = b.moving ∧
        ∀ host, b'.ends.lookup host = if host ∈ hosts then ends.lookup host else b.ends.lookup host := by
  induction hosts generalizing b with
  | nil => exact .inr ⟨b, rfl, by simp, rfl, rfl, rfl, by simp⟩
  | cons host hosts ih =>
    cases hend : ends.lookup host with
    | none =>
      have herror : restoreEnd ends b host = .error s!"the host {host} has a binding and no certificate end" := by
        simp [restoreEnd, hend]
      have hfold : (host :: hosts).foldlM (restoreEnd ends) b =
          .error s!"the host {host} has a binding and no certificate end" := by
        rw [foldlM_cons, herror]
        rfl
      exact .inl ⟨_, hfold, host, mem_cons_self, hend⟩
    | some fin =>
      have hstep : (host :: hosts).foldlM (restoreEnd ends) b = hosts.foldlM (restoreEnd ends) (b.setEnd host fin) := by
        simp only [foldlM_cons, restoreEnd, hend]
        rfl
      rw [hstep]
      rcases ih (b.setEnd host fin) with ⟨e, he, name, hmem, hnone⟩ | ⟨b', he, hall, hbound, hhosts, hmoving, hends⟩
      · exact .inl ⟨e, he, name, mem_cons_of_mem _ hmem, hnone⟩
      have hframe := setEnd_frame b host fin
      refine .inr ⟨b', he, ?_, hbound.trans hframe.1, hhosts.trans hframe.2.1, hmoving.trans hframe.2.2.1,
        fun name => ?_⟩
      · intro name hname
        rcases mem_cons.mp hname with rfl | hname
        · simp [hend]
        · exact hall name hname
      · rw [hends, lookup_ends_setEnd]
        by_cases hn : name = host
        · subst hn
          simp [hend]
        · simp [hn]

structure Replayed (journal : List Change) (b : Bindings) : Prop extends Indexed b where
  hostOf_eq : ∀ uid, b.hostOf uid = boundIn journal uid
  relied : ∀ uid binding, b.bound.lookup uid = some binding → binding.pending = false
  ends_eq : ∀ uid host, boundIn journal uid = some host → b.ends.lookup host = endIn journal host
  ended : ∀ uid host, b.hostOf uid = some host → (b.ends.lookup host).isSome
  no_move : ∀ host, b.moving.lookup host = none

private lemma HostIndex.mem_keys {b : Bindings} (h : b.HostIndex) {host : String} :
    host ∈ b.hosts.keys ↔ ∃ uid, b.hostOf uid = some host := by
  rw [← AList.mem_keys, ← AList.lookup_isSome]
  constructor
  · intro hs
    obtain ⟨own, hown⟩ := Option.isSome_iff_exists.mp hs
    have hne : own ≠ [] := fun he => h.own_ne_nil host (he ▸ hown)
    obtain ⟨uid, huid⟩ := exists_mem_of_ne_nil own hne
    exact ⟨uid, (h.mem_own host uid).mp (by simpa [hown] using huid)⟩
  · rintro ⟨uid, huid⟩
    have hmem := (h.mem_own host uid).mpr huid
    cases hown : b.hosts.lookup host with
    | none => simp [hown] at hmem
    | some own => rfl

/-- A journal reads back when it leaves no host with a binding and no end, and the bindings are what it says. -/
lemma replay_cases (journal : List Change) :
    (∃ e, replay journal = .error e ∧ ∃ uid host, boundIn journal uid = some host ∧ endIn journal host = none) ∨
      ∃ b, replay journal = .ok b ∧ Replayed journal b := by
  have hread := readFrom_foldl journal
  unfold replay
  generalize journal.foldl replayChange (empty, ∅) = read at hread ⊢
  obtain ⟨b, ends⟩ := read
  simp only at hread ⊢
  rcases restoreEnd_foldlM ends b.hosts.keys b with ⟨e, he, host, hmem, hnone⟩ |
    ⟨b', he, hall, hbound, hhosts, hmoving, hends⟩
  · obtain ⟨uid, huid⟩ := hread.index.mem_keys.mp hmem
    rw [hread.ends_eq] at hnone
    rw [hread.hostOf_eq] at huid
    exact .inl ⟨e, he, uid, host, huid, hnone⟩
  have hhostOf : b'.hostOf = b.hostOf := hostOf_eq_of_bound hbound
  have hkey : ∀ uid host, b.hostOf uid = some host → host ∈ b.hosts.keys :=
    fun uid host h => hread.index.mem_keys.mpr ⟨uid, h⟩
  refine .inr ⟨b', he, ⟨⟨hread.index.congr hhostOf hhosts, fun host hs => ?_, fun host hm => ?_,
    fun host held fin hm => ?_⟩, fun uid => ?_, fun uid binding hb => ?_, fun uid host h => ?_, fun uid host h => ?_,
    fun host => ?_⟩⟩
  · rw [hends] at hs
    split at hs
    next hmem =>
      rw [hhostOf]
      exact hread.index.mem_keys.mp hmem
    · simp [hread.no_end] at hs
  · simp [hmoving, hread.no_move] at hm
  · simp [hmoving, hread.no_move] at hm
  · rw [hhostOf]
    exact hread.hostOf_eq uid
  · rw [hbound] at hb
    exact hread.relied uid binding hb
  · rw [← hread.hostOf_eq] at h
    rw [hends, if_pos (hkey uid host h), hread.ends_eq]
  · rw [hhostOf] at h
    rw [hends, if_pos (hkey uid host h)]
    exact hall host (hkey uid host h)
  · rw [hmoving]
    exact hread.no_move host

/-- A journal that gives the end of each host before its bindings replays. -/
lemma replay_of_endsFirst {journal : List Change} (h : EndsFirst (fun _ => False) journal) :
    ∃ b, replay journal = .ok b ∧ Replayed journal b := by
  rcases replay_cases journal with ⟨e, -, uid, host, hbound, hnone⟩ | hok
  · have hgiven := Log.Guarded.given h (exists_bound_of_boundIn hbound) ⟨uid, rfl⟩
    have hsome := isSome_endIn_iff.mpr (hgiven.resolve_left id)
    simp [hnone] at hsome
  · exact hok

section Snapshot

variable {b : Bindings} {uid : InstanceUid} {host : String}

private lemma mem_snapshot_bound : Change.bound uid host ∈ b.snapshot ↔ b.hostOf uid = some host := by
  simp only [snapshot, Raw.changes, raw, mem_append, mem_map, mem_insertionSort, reduceCtorEq, and_false,
    exists_false, false_or, hostOf, Option.map_eq_some_iff]
  constructor
  · rintro ⟨_, ⟨entry, hmem, rfl⟩, heq⟩
    cases heq
    exact ⟨entry.2, AList.mem_lookup_iff.mpr hmem, rfl⟩
  · rintro ⟨binding, hb, rfl⟩
    exact ⟨_, ⟨⟨uid, binding⟩, AList.mem_lookup_iff.mp hb, rfl⟩, rfl⟩

private lemma mem_snapshot_ends {fin : End} : Change.ends host fin ∈ b.snapshot ↔ b.ends.lookup host = some fin := by
  simp only [snapshot, Raw.changes, raw, mem_append, mem_map, mem_insertionSort, reduceCtorEq, and_false,
    exists_false, or_false]
  constructor
  · rintro ⟨_, ⟨entry, hmem, rfl⟩, heq⟩
    cases heq
    exact AList.mem_lookup_iff.mpr hmem
  · intro h
    exact ⟨_, ⟨⟨host, fin⟩, AList.mem_lookup_iff.mp h, rfl⟩, rfl⟩

private lemma not_mem_snapshot_unbound : unbound uid ∉ b.snapshot := by
  simp [snapshot, Raw.changes]

/-- A snapshot binds what is bound. -/
lemma boundIn_snapshot : boundIn b.snapshot uid = b.hostOf uid := by
  have hall : ∀ change ∈ b.snapshot, ∀ said, change.mention uid = some said → said = b.hostOf uid := by
    intro change hmem said hsaid
    rcases Change.mention_eq_some_iff.mp hsaid with ⟨rfl, -⟩ | ⟨name, rfl, rfl⟩
    · exact absurd hmem not_mem_snapshot_unbound
    · exact (mem_snapshot_bound.mp hmem).symm
  cases hb : b.hostOf uid with
  | none =>
    unfold boundIn lastMention
    cases hl : last (Change.mention uid) b.snapshot with
    | none => rfl
    | some said =>
      obtain ⟨change, hmem, hsaid⟩ := exists_of_last_eq_some hl
      rw [hall change hmem said hsaid, hb]
      rfl
  | some name =>
    have hlast : lastMention b.snapshot uid = some (some name) :=
      last_eq_of_forall ⟨_, mem_snapshot_bound.mpr hb, by simp [Change.mention]⟩
        fun change hmem said hsaid => by rw [hall change hmem said hsaid, hb]
    rw [boundIn, hlast]
    rfl

lemma endIn_snapshot : endIn b.snapshot host = b.ends.lookup host := by
  have hall : ∀ change ∈ b.snapshot, ∀ fin, change.endOf host = some fin → b.ends.lookup host = some fin := by
    intro change hmem fin hsaid
    cases Change.endOf_eq_some_iff.mp hsaid
    exact mem_snapshot_ends.mp hmem
  cases he : b.ends.lookup host with
  | none =>
    refine last_eq_none_iff.mpr fun change hmem => ?_
    cases hc : change.endOf host with
    | none => rfl
    | some fin =>
      simp [hall change hmem fin hc] at he
  | some fin =>
    refine last_eq_of_forall ⟨_, mem_snapshot_ends.mpr he, by simp [Change.endOf]⟩ fun change hmem fin' hsaid => ?_
    rw [hall change hmem fin' hsaid] at he
    exact Option.some.inj he

lemma endsFirst_snapshot (h : ∀ uid host, b.hostOf uid = some host → (b.ends.lookup host).isSome) :
    EndsFirst (fun _ => False) b.snapshot := by
  refine guarded_append.mpr ⟨guarded_of_forall_not fun change hmem name huses => ?_,
    guarded_of_forall_not fun change hmem name huses => ?_⟩
  · obtain ⟨entry, -, rfl⟩ := mem_map.mp hmem
    obtain ⟨u, hu⟩ := huses
    cases hu
  · obtain ⟨u, rfl⟩ := huses
    have hbound : Change.bound u name ∈ b.snapshot := mem_append_right _ hmem
    obtain ⟨fin, hfin⟩ := Option.isSome_iff_exists.mp (h u name (mem_snapshot_bound.mp hbound))
    refine .inr ⟨.ends name fin, ?_, fin, rfl⟩
    exact mem_map.mpr ⟨(name, fin), mem_map.mpr ⟨⟨name, fin⟩, AList.mem_lookup_iff.mp hfin, rfl⟩, rfl⟩

end Snapshot

end Bindings

end OpampFleet.Gateway
