import OpampFleet.Gateway.Cache
import OpampFleet.Gateway.Replay

/-!
# What one task does to the bindings

A task that changes the bindings under the lock queues the lines that say so. `Turn` relates the bindings before and
after to those lines, an `instance_uid` and a host at a time: this is all that the invariants of the store use of the
bindings' operations.
-/

namespace OpampFleet.Gateway

open Lib Opamp List

namespace Bindings

/-- The store holds an end of the host, if not the one its move under way brings. -/
def EndStored (b : Bindings) (host : String) : Prop := (b.ends.lookup host).isSome ∧ b.moving.lookup host ≠ some none

inductive EndTurn (b b' : Bindings) (added : List Change) (host : String) : Prop
  | same (ends : b'.ends.lookup host = b.ends.lookup host) (moving : b'.moving.lookup host = b.moving.lookup host)
      (said : endIn added host = none)
  | moved {fin : End} (ends : b'.ends.lookup host = some fin)
    (moving : b'.moving.lookup host = some (b.ends.lookup host))
      (settled : b.moving.lookup host = none) (said : endIn added host = some fin)
  | dropped (ends : b'.ends.lookup host = none) (moving : b'.moving.lookup host = none)
      (unbound : ∀ uid, b'.hostOf uid ≠ some host) (said : endIn added host = none)

inductive UidTurn (b b' : Bindings) (made committed : Option InstanceUid) (added : List Change)
    (uid : InstanceUid) : Prop
  | absent (unbound : b'.bound.lookup uid = none)
      (said : lastMention added uid = some none ∨ lastMention added uid = none ∧ b.bound.lookup uid = none)
  | kept {binding binding' : Binding} (held : b.bound.lookup uid = some binding)
      (holds : b'.bound.lookup uid = some binding') (host : binding'.host = binding.host)
      (pending : binding'.pending = true → binding' = binding)
      (relied : binding'.pending = false → binding.pending = false ∨ committed = some uid)
      (said : lastMention added uid = none)
  | made {host : String} (new : made = some uid) (unbound : b.bound.lookup uid = none)
      (holds : b'.bound.lookup uid = some ⟨host, b.tick + 1, true⟩) (said : lastMention added uid = some (some host))
      (ended : (b'.ends.lookup host).isSome) (moves : b'.moving.lookup host = some none → (endIn added host).isSome)

structure Turn (b b' : Bindings) (made committed : Option InstanceUid) (added : List Change) : Prop where
  indexed : b'.Indexed
  ends : ∀ host, EndTurn b b' added host
  uids : ∀ uid, UidTurn b b' made committed added uid
  relies : EndsFirst b.EndStored added
  tick : b.tick ≤ b'.tick

private lemma lastMention_removals (gone : List InstanceUid) (uid : InstanceUid) :
    lastMention (gone.map .unbound) uid = if uid ∈ gone then some none else none := by
  split
  next h =>
    refine Log.last_eq_of_forall ⟨_, mem_map_of_mem h, by simp [Change.mention]⟩ fun change hmem said hsaid => ?_
    obtain ⟨u, -, rfl⟩ := mem_map.mp hmem
    rcases Change.mention_eq_some_iff.mp hsaid with ⟨-, hnone⟩ | ⟨name, hbound, -⟩
    · exact hnone
    · cases hbound
  next h =>
    rw [lastMention_eq_none_iff]
    intro change hmem
    obtain ⟨u, hu, rfl⟩ := mem_map.mp hmem
    simp only [Change.mention]
    rw [if_neg]
    rintro rfl
    exact h hu

variable {changes : List Change}

private lemma endIn_eq_none {host : String} (h : ∀ fin, Change.ends host fin ∉ changes) : endIn changes host = none :=
  Log.last_eq_none_iff.mpr fun change hmem => Option.eq_none_iff_forall_ne_some.mpr fun fin hsaid =>
    h fin (Change.endOf_eq_some_iff.mp hsaid ▸ hmem)

private lemma endIn_removals (gone : List InstanceUid) (host : String) : endIn (gone.map .unbound) host = none :=
  endIn_eq_none fun fin hmem => by simp at hmem

private lemma endIn_moved (b : Bindings) (host : String) (fin : End) (name : String) :
    endIn (if b.Moves host fin then [.ends host fin] else []) name =
      if name = host ∧ b.Moves host fin then some fin else none := by
  by_cases hm : b.Moves host fin
  · by_cases hn : name = host
    · simp [hm, hn, endIn, Log.last, Change.endOf]
    · simp [hm, hn, Ne.symm hn, endIn, Log.last, Change.endOf]
  · simp [hm, endIn]

private lemma endsFirst_of_not_bound {base : String → Prop}
    (h : ∀ uid host, Change.bound uid host ∉ changes) : EndsFirst base changes := by
  refine Log.guarded_of_forall_not fun change hmem host huses => ?_
  obtain ⟨uid, rfl⟩ := huses
  exact absurd hmem (h uid host)

section Turns

variable {b b' : Bindings} {uid : InstanceUid} {host : String} {fin : End} {outcome : Outcome}
    {idle : InstanceUid → Bool}
  {added : List Change}

inductive Stays (b b' : Bindings) (uid : InstanceUid) : Prop
  | same (h : b'.bound.lookup uid = b.bound.lookup uid)
  | refreshed {binding : Binding} {tick : Nat} (held : b.bound.lookup uid = some binding)
    (relied : binding.pending = false)
      (holds : b'.bound.lookup uid = some { binding with reported := tick })

private lemma Stays.uidTurn {made committed : Option InstanceUid} (h : b.Stays b' uid)
    (hsaid : lastMention added uid = none) : UidTurn b b' made committed added uid := by
  cases h with
  | same h =>
    cases hb : b.bound.lookup uid with
    | none => exact .absent (h.trans hb) (.inr ⟨hsaid, hb⟩)
    | some binding => exact .kept hb (h.trans hb) rfl (fun _ => rfl) .inl hsaid
  | refreshed held relied holds =>
    exact .kept held holds rfl (fun hp => by simp [relied] at hp) (fun _ => .inl relied) hsaid

private lemma turn_of_removals (gone : List InstanceUid) (hindexed : b'.Indexed)
    (hgone : ∀ uid ∈ gone, b'.bound.lookup uid = none) (hstays : ∀ uid, uid ∉ gone → b.Stays b' uid)
    (hends : ∀ host, (b'.ends.lookup host = b.ends.lookup host ∧ b'.moving.lookup host = b.moving.lookup host) ∨
      (b'.ends.lookup host = none ∧ b'.moving.lookup host = none ∧ ∀ uid, b'.hostOf uid ≠ some host))
    (htick : b.tick ≤ b'.tick) : Turn b b' none none (gone.map .unbound) where
  indexed := hindexed
  ends host := by
    rcases hends host with ⟨he, hm⟩ | ⟨he, hm, hu⟩
    · exact .same he hm (endIn_removals gone host)
    · exact .dropped he hm hu (endIn_removals gone host)
  uids uid := by
    by_cases hmem : uid ∈ gone
    · exact .absent (hgone uid hmem) (.inl (by rw [lastMention_removals, if_pos hmem]))
    · exact (hstays uid hmem).uidTurn (by rw [lastMention_removals, if_neg hmem])
  relies := endsFirst_of_not_bound fun u name hmem => by simp at hmem
  tick := htick

lemma Idles.turn (h : b.Idles uid host b' outcome) (hindexed : b.Indexed) : Turn b b' none none [] := by
  have hindexed' := hindexed.idles h
  obtain ⟨tick, htick, rfl⟩ := h.eq
  exact turn_of_removals [] hindexed' (by simp) (fun _ _ => .same rfl) (fun _ => .inl ⟨rfl, rfl⟩) htick

lemma reports_turn (hindexed : b.Indexed) : Turn b b.reports.1 none none [] := by
  have hindexed' : b.reports.1.Indexed :=
    ⟨hindexed.toHostIndex.congr rfl rfl, hindexed.ends_owned, hindexed.moving_ends, hindexed.moving_later⟩
  exact turn_of_removals [] hindexed' (by simp) (fun _ _ => .same rfl) (fun _ => .inl ⟨rfl, rfl⟩) (le_refl _)

lemma reported_turn (hindexed : b.Indexed) (h : ∀ change ∈ changes, ∃ uid, change = .reported uid) :
    Turn b b none none changes where
  indexed := hindexed
  ends host := by
    refine .same rfl rfl (endIn_eq_none fun fin hmem => ?_)
    obtain ⟨u, hu⟩ := h _ hmem
    cases hu
  uids uid := by
    refine (Stays.same rfl).uidTurn (lastMention_eq_none_iff.mpr fun change hmem => ?_)
    obtain ⟨u, rfl⟩ := h change hmem
    rfl
  relies := endsFirst_of_not_bound fun u name hmem => by
    obtain ⟨v, hv⟩ := h _ hmem
    cases hv
  tick := le_refl _

private lemma Refreshes.stays (h : b.Refreshes uid host fin b' outcome) (other : InstanceUid) : b.Stays b' other := by
  have hbound := h.bound other
  split at hbound
  next he =>
    subst he
    obtain ⟨binding, hb, hp⟩ := (Option.any_eq_true _ _).mp h.held
    simp only [Bool.and_eq_true, Bool.not_eq_true'] at hp
    rw [hb, Option.map_some] at hbound
    exact .refreshed hb hp.2 hbound
  · exact .same hbound

section

variable (hindexed : b.Indexed) (hw : b.waitsForEnd host fin = false) (hmoved : b.EndMoved host fin b') (name : String)
include hindexed hw hmoved

private lemma endTurn_of_move
    (hsaid : ∀ name, endIn added name = if name = host ∧ b.Moves host fin then some fin else none) :
    EndTurn b b' added name := by
  have he := hmoved.ends name
  have hm := hmoved.moving name
  have hs := hsaid name
  split at he
  next hmoves =>
    rw [if_pos hmoves] at hm hs
    obtain ⟨rfl, hmoves⟩ := hmoves
    exact .moved he hm (hindexed.not_moving hw hmoves) hs
  next hmoves =>
    rw [if_neg hmoves] at hm hs
    exact .same he hm hs

private lemma ends_of_undone (hchanges : ∀ name, name ∈ endHosts changes ↔ name = host ∧ b.Moves host fin) :
    (b'.endsWritten changes false).ends.lookup name = b.ends.lookup name ∧
      (b'.endsWritten changes false).moving.lookup name = b.moving.lookup name := by
  rw [endsWritten_eq, lookup_ends_compacted, lookup_moving_compacted, hmoved.moving, hmoved.ends]
  by_cases hm : name = host ∧ b.Moves host fin
  · have hmem := (hchanges name).mpr hm
    obtain ⟨rfl, hmoves⟩ := hm
    simp [hmem, hmoves, hindexed.not_moving hw hmoves]
  · simp [hm, (hchanges name).not.mpr hm]

end

lemma Refreshes.turn (h : b.Refreshes uid host fin b' outcome) (hindexed : b.Indexed) :
    Turn b b' none none outcome.changes := by
  have hchanges : outcome.changes = if b.Moves host fin then [.ends host fin] else [] := by rw [h.outcome_eq]
  refine ⟨hindexed.refreshes h, fun name => endTurn_of_move hindexed h.waits ⟨h.ends, h.moving⟩ name fun name => ?_,
    fun other => ?_,
    endsFirst_of_not_bound fun u name hmem => ?_, ?_⟩
  · rw [hchanges]
    exact endIn_moved b host fin name
  · refine (h.stays other).uidTurn ?_
    rw [hchanges]
    split <;> rfl
  · rw [hchanges] at hmem
    split at hmem <;> simp at hmem
  · rw [h.tick]
    omega

/-- A new binding is made and not committed. -/
lemma Binds.turn (h : b.Binds uid host fin idle b' outcome) (hindexed : b.Indexed) :
    Turn b b' (some uid) none outcome.changes := by
  -- what the lines say of each `instance_uid` and of each host
  have hmention : ∀ other, lastMention outcome.changes other =
      if other = uid then some (some host) else if other ∈ outcome.evicted then some none else none := by
    intro other
    rw [h.changes, lastMention_append, lastMention_append, lastMention_removals]
    have hends : lastMention (if b.Moves host fin then [.ends host fin] else []) other = none := by split <;> rfl
    rw [hends]
    by_cases ho : other = uid
    · subst ho
      simp [lastMention, Log.last, Change.mention]
    · simp [lastMention, Log.last, Change.mention, ho, Ne.symm ho]
  have hsaid : ∀ name, endIn outcome.changes name = if name = host ∧ b.Moves host fin then some fin else none := by
    intro name
    rw [h.changes, endIn_append, endIn_append, endIn_removals, Option.or_none]
    exact endIn_moved b host fin name
  refine ⟨hindexed.binds h, fun name => endTurn_of_move hindexed h.waits ⟨h.ends, h.moving⟩ name hsaid,
    fun other => ?_, ?_, ?_⟩
  · have hbound := h.bound other
    have hm := hmention other
    split at hbound
    next ho =>
      subst ho
      rw [if_pos rfl] at hm
      refine .made rfl h.unbound hbound hm ?_ fun hmoving => ?_
      · rw [h.ends]
        split
        · rfl
        next hmoves =>
          exact isSome_ends_of_not_moves b host fin fun hc => hmoves ⟨rfl, hc⟩
      · rw [hsaid]
        split
        · rfl
        next hmoves =>
          rw [h.moving, if_neg hmoves] at hmoving
          have hwaits := h.waits
          simp [waitsForEnd, hmoving] at hwaits
    next ho =>
      rw [if_neg ho] at hm
      split at hbound
      next hev =>
        rw [if_pos hev] at hm
        exact .absent hbound (.inl hm)
      next hev =>
        rw [if_neg hev] at hm
        exact (Stays.same hbound).uidTurn hm
  · rw [h.changes]
    refine Log.guarded_append.mpr ⟨endsFirst_of_not_bound fun u name hmem => ?_, fun name huses => ?_, trivial⟩
    · rw [mem_append] at hmem
      rcases hmem with hmem | hmem
      · simp at hmem
      · split at hmem <;> simp at hmem
    · obtain ⟨u, hu⟩ := huses
      cases hu
      by_cases hm : b.Moves host fin
      · exact .inr ⟨.ends host fin, by simp [hm], fin, rfl⟩
      · refine .inl ⟨isSome_ends_of_not_moves b host fin hm, fun hmoving => ?_⟩
        have hwaits := h.waits
        simp [waitsForEnd, hmoving] at hwaits
  · rw [h.tick]
    omega

lemma commit_turn (hindexed : b.Indexed) (uid : InstanceUid) : Turn b (b.commit uid) none (some uid) [] where
  indexed := hindexed.commit uid
  ends host := .same (by rw [(commit_frame b uid).2.1]) (by rw [(commit_frame b uid).2.2.1]) rfl
  uids other := by
    have hbound := lookup_bound_commit b uid other
    split at hbound
    next ho =>
      subst ho
      cases hb : b.bound.lookup other with
      | none =>
        rw [hb, Option.map_none] at hbound
        exact .absent hbound (.inr ⟨rfl, hb⟩)
      | some binding =>
        rw [hb, Option.map_some] at hbound
        exact .kept hb hbound rfl (fun hp => by simp at hp) (fun _ => .inr rfl) rfl
    · exact (Stays.same hbound).uidTurn rfl
  relies := trivial
  tick := by rw [(commit_frame b uid).2.2.2]

private lemma ends_unbind_cases (hindex : b.HostIndex) (uid : InstanceUid) (host : String) :
    ((b.unbind uid false).ends.lookup host = b.ends.lookup host ∧
        (b.unbind uid false).moving.lookup host = b.moving.lookup host) ∨
      ((b.unbind uid false).ends.lookup host = none ∧ (b.unbind uid false).moving.lookup host = none ∧
        ∀ other, (b.unbind uid false).hostOf other ≠ some host) := by
  rcases hindex.ends_unbind uid false host with ⟨he, hm, -, hlast⟩ | ⟨he, hm, -⟩
  · refine .inr ⟨he, hm, fun other hother => ?_⟩
    rw [hostOf_unbind] at hother
    split at hother
    · cases hother
    next hne =>
      exact hne (hlast.2 other hother)
  · exact .inl ⟨he, hm⟩

lemma unbind_turn (hindexed : b.Indexed) (uid : InstanceUid) :
    Turn b (b.unbind uid false) none none [.unbound uid] := by
  refine turn_of_removals [uid] (hindexed.unbind uid) ?_ (fun other ho => .same ?_)
    (ends_unbind_cases hindexed.toHostIndex uid) (by rw [unbind_tick])
  · intro other ho
    rw [lookup_bound_unbind, if_pos (mem_singleton.mp ho)]
  · rw [lookup_bound_unbind, if_neg fun hc => ho (mem_singleton.mpr hc)]

lemma endAll_turn (hindexed : b.Indexed) (now : Int) (revoked : Option (End → Bool)) :
    Turn b (b.endAll now revoked).1 none none (((b.endAll now revoked).2.flatMap Prod.snd).map .unbound) := by
  have hbound := fun other => hindexed.lookup_bound_endAll other now revoked
  refine turn_of_removals _ (hindexed.endAll now revoked) (fun other ho => ?_) (fun other ho => .same ?_)
    (fun host => ?_) (by rw [endAll_tick])
  · rw [hbound, if_pos ((hindexed.mem_endAll other now revoked).mp ho)]
  · rw [hbound, if_neg fun hc => ho ((hindexed.mem_endAll other now revoked).mpr hc)]
  · rw [lookup_ends_endAll, lookup_moving_endAll]
    by_cases hmem : host ∈ b.ended now revoked
    · refine .inr ⟨by rw [if_pos hmem], by rw [if_pos hmem], fun other hother => ?_⟩
      rw [hostOf, hbound] at hother
      split at hother
      · cases hother
      next hstays =>
        exact hstays ⟨host, hmem, hother⟩
    · exact .inl ⟨by rw [if_neg hmem], by rw [if_neg hmem]⟩

/-- A refresh whose line is too long is taken back, but for its removals. -/
lemma Refreshes.turn_of_long (h : b.Refreshes uid host fin b' outcome) (hindexed : b.Indexed) :
    Turn b ((b'.endsWritten outcome.changes false).abort uid).1 none none
      (outcome.changes.filter Cache.isRemoval ++ ((b'.endsWritten outcome.changes false).abort uid).2) := by
  have hchanges : outcome.changes = if b.Moves host fin then [.ends host fin] else [] := by rw [h.outcome_eq]
  have hendHosts : ∀ name, name ∈ endHosts outcome.changes ↔ name = host ∧ b.Moves host fin := by
    intro name
    rw [hchanges]
    split <;> simp_all [endHosts]
  have hbound : (b'.endsWritten outcome.changes false).bound = b'.bound := (compacted_frame _ _ _).1
  -- the binding is relied on, and nothing is aborted
  have habort : (b'.endsWritten outcome.changes false).abort uid = (b'.endsWritten outcome.changes false, []) := by
    obtain ⟨binding, hb, hp⟩ := (Option.any_eq_true _ _).mp h.held
    simp only [Bool.and_eq_true, Bool.not_eq_true'] at hp
    unfold abort
    rw [hbound, h.bound, if_pos rfl, hb]
    simp [hp.2]
  have hlines : outcome.changes.filter Cache.isRemoval ++ [] = [] := by
    rw [hchanges]
    split <;> rfl
  rw [habort, hlines]
  refine turn_of_removals [] ((hindexed.refreshes h).compacted _ _) (by simp) (fun other _ => ?_)
    (fun name => .inl (ends_of_undone hindexed h.waits ⟨h.ends, h.moving⟩ name hendHosts)) ?_
  · cases h.stays other with
    | same hs => exact .same (by rw [hbound, hs])
    | refreshed held relied holds => exact .refreshed held relied (by rw [hbound, holds])
  · rw [endsWritten_eq, (compacted_frame _ _ _).2.2, h.tick]
    omega

/-- A bind whose line is too long is taken back, but for its removals. -/
lemma Binds.turn_of_long (h : b.Binds uid host fin idle b' outcome) (hindexed : b.Indexed) :
    Turn b ((b'.endsWritten outcome.changes false).abort uid).1 none none
      (outcome.changes.filter Cache.isRemoval ++ ((b'.endsWritten outcome.changes false).abort uid).2) := by
  have hendHosts : ∀ name, name ∈ endHosts outcome.changes ↔ name = host ∧ b.Moves host fin := by
    intro name
    rw [mem_endHosts, h.changes]
    by_cases hm : b.Moves host fin <;> simp [hm]
  have hbound : (b'.endsWritten outcome.changes false).bound = b'.bound := (compacted_frame _ _ _).1
  have hends := fun name => ends_of_undone hindexed h.waits ⟨h.ends, h.moving⟩ name hendHosts
  have habort : (b'.endsWritten outcome.changes false).abort uid =
      ((b'.endsWritten outcome.changes false).unbind uid false, [.unbound uid]) := by
    unfold abort
    rw [hbound, h.bound, if_pos rfl]
    rfl
  have hlines : outcome.changes.filter Cache.isRemoval ++ [.unbound uid] = (outcome.evicted ++ [uid]).map .unbound := by
    rw [h.changes, filter_append, filter_append, map_append]
    have hevicted : (outcome.evicted.map Change.unbound).filter Cache.isRemoval = outcome.evicted.map .unbound := by
      rw [filter_eq_self]
      intro change hmem
      obtain ⟨v, -, rfl⟩ := mem_map.mp hmem
      rfl
    have hmoved : (if b.Moves host fin then [Change.ends host fin] else []).filter Cache.isRemoval = [] := by
      split <;> rfl
    rw [hevicted, hmoved, append_nil]
    simp [Cache.isRemoval]
  rw [habort, hlines]
  have hindexed' := (hindexed.binds h).compacted (endHosts outcome.changes) false
  refine turn_of_removals _ (hindexed'.unbind uid) (fun other ho => ?_) (fun other ho => .same ?_) (fun name => ?_) ?_
  · rw [lookup_bound_unbind, hbound, h.bound]
    rcases mem_append.mp ho with ho | ho
    · simp [ho]
    · simp [mem_singleton.mp ho]
  · rw [mem_append, not_or, mem_singleton] at ho
    rw [lookup_bound_unbind, if_neg ho.2, hbound, h.bound, if_neg ho.2, if_neg ho.1]
  · rcases ends_unbind_cases hindexed'.toHostIndex uid name with ⟨he, hm⟩ | hdropped
    · exact .inl ⟨he.trans (hends name).1, hm.trans (hends name).2⟩
    · exact .inr hdropped
  · rw [unbind_tick, endsWritten_eq, (compacted_frame _ _ _).2.2, h.tick]
    omega

end Turns

end Bindings

end OpampFleet.Gateway
