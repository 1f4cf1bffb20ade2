import OpampFleet.Gateway.Loadable

/-!
# How many bindings a host holds, and how it loses one

Over any run of operations on the bindings: no host holds more of them than it may, nor does the Gateway, and an
`instance_uid` leaves the host it is bound to in three ways only.
-/

namespace OpampFleet.Gateway.Bindings

open Lib Opamp List Option Map Small

inductive Op where
  | bind (uid : InstanceUid) (host : String) (fin : End) (now : Int) (idle : InstanceUid → Bool)
  | commit (uid : InstanceUid)
  | abort (uid : InstanceUid)
  | endsWritten (changes : List Change) (written : Bool)
  | compacted (hosts : List String) (written : Bool)
  | reports
  | endAll (now : Int) (revoked : Option (End → Bool))

def apply (limits : Limits) (b : Bindings) : Op → Bindings
  | .bind uid host fin now idle => (b.bind uid host fin now limits idle).1
  | .commit uid => b.commit uid
  | .abort uid => (b.abort uid).1
  | .endsWritten changes written => b.endsWritten changes written
  | .compacted hosts written => b.compacted hosts written
  | .reports => b.reports.1
  | .endAll now revoked => (b.endAll now revoked).1

def after (limits : Limits) (b : Bindings) (ops : List Op) : Bindings := ops.foldl (apply limits) b

inductive Built : Bindings → Prop
  | replayed {changes : List Change} {b : Bindings} (h : replay changes = .ok b) : Built b
  | applied {b : Bindings} (limits : Limits) (op : Op) (h : Built b) : Built (b.apply limits op)

structure Within (limits : Limits) (b : Bindings) : Prop where
  perHost : ∀ host, b.bound.countP (fun binding => binding.host = host) ≤ limits.perHost
  total : b.bound.entries.length ≤ limits.total

inductive Removes (limits : Limits) (b : Bindings) (uid : InstanceUid) (host : String) : Op → Prop
  /-- A report of the host itself needs room, and the binding is relied on and idle. -/
  | room {other : InstanceUid} {fin : End} {now : Int} {idle : InstanceUid → Bool} (full : (b.full host limits).isSome)
      (relied : b.holds uid host = true) (unused : idle uid = true) :
      Removes limits b uid host (.bind other host fin now idle)
  /-- The end of the host's certificate has passed, or the certificate is revoked. -/
  | ended {now : Int} {revoked : Option (End → Bool)} {fin : End} (kept : b.ends.lookup host = some fin)
      (past : fin.notAfter < now ∨ revoked.any (fun named => named fin) = true) :
      Removes limits b uid host (.endAll now revoked)
  /-- The store never held it. -/
  | undone (pending : (b.bound.lookup uid).any Binding.pending = true) : Removes limits b uid host (.abort uid)

structure Dated (b : Bindings) : Prop where
  nodup : b.expiring.Nodup
  ends : ∀ notAfter host, (notAfter, host) ∈ b.expiring ↔ ∃ fin, b.ends.lookup host = some fin ∧ fin.notAfter = notAfter

section Dated

variable {b : Bindings}

private lemma Dated.congr {b' : Bindings} (h : b.Dated) (hexpiring : b'.expiring = b.expiring)
    (hends : b'.ends = b.ends) : b'.Dated := by
  refine ⟨hexpiring ▸ h.nodup, ?_⟩
  rw [hexpiring, hends]
  exact h.ends

private lemma dated_empty : empty.Dated := ⟨nodup_nil, by simp [empty]⟩

section

variable (h : b.Dated) (host : String)
include h

private lemma Dated.dropEnd : (b.dropEnd host).Dated := by
  have hlookup := fun name => lookup_ends_dropEnd b host name
  unfold Bindings.dropEnd at hlookup ⊢
  split
  · exact h
  rename_i fin hfin
  refine ⟨h.nodup.erase _, fun notAfter name => ?_⟩
  simp only [hfin] at hlookup
  rw [h.nodup.mem_erase_iff, h.ends, hlookup]
  -- the host has one end, and its entry is the one that goes
  by_cases hname : name = host
  · subst hname
    simp [hfin, eq_comm]
  · simp [hname]

private lemma Dated.setEnd (fin : End) : (b.setEnd host fin).Dated := by
  have hdrop := h.dropEnd host
  refine ⟨hdrop.nodup.insert, fun notAfter name => ?_⟩
  rw [lookup_ends_setEnd]
  refine mem_insert_iff.trans ?_
  rw [hdrop.ends, lookup_ends_dropEnd]
  by_cases hname : name = host
  · simp [hname, eq_comm]
  · simp [hname]

private lemma Dated.moveEnd (fin : End) : (b.moveEnd host fin).1.Dated := by
  unfold Bindings.moveEnd
  split
  · exact h
  · have hmoving : ({ b with moving := b.moving.insert host (b.ends.lookup host) } : Bindings).Dated := h.congr rfl rfl
    exact hmoving.setEnd host fin

private lemma Dated.settleEnd (written : Bool) (host : String) : (b.settleEnd written host).Dated := by
  have herased : ({ b with moving := b.moving.erase host } : Bindings).Dated := h.congr rfl rfl
  unfold Bindings.settleEnd
  split
  · exact h
  split
  · exact herased
  · split
    · exact herased.setEnd host _
    · exact herased.dropEnd host

private lemma Dated.compacted (hosts : List String) (written : Bool) : (b.compacted hosts written).Dated := by
  induction hosts generalizing b with
  | nil => exact h
  | cons host hosts ih => exact ih (h.settleEnd written host)

private lemma Dated.unbind (uid : InstanceUid) (keepEnd : Bool) : (b.unbind uid keepEnd).Dated := by
  unfold Bindings.unbind
  split
  · exact h
  simp only
  split
  · exact h.congr rfl rfl
  split
  next binding _ _ own _ _ =>
    have herased : ({ b with
        bound := b.bound.erase uid
        hosts := b.hosts.erase binding.host } : Bindings).Dated := h.congr rfl rfl
    split
    · exact herased
    · exact (herased.dropEnd binding.host).congr rfl rfl
  · exact h.congr rfl rfl

private lemma Dated.bind (uid : InstanceUid) (host : String) (fin : End) (now : Int) (limits : Limits)
    (idle : InstanceUid → Bool) : (b.bind uid host fin now limits idle).1.Dated := by
  have hnew : (b.bindNew uid host fin limits idle).1.Dated := by
    unfold bindNew
    have htick : ({ b with tick := b.tick + 1 } : Bindings).Dated := h.congr rfl rfl
    simp only
    split
    · exact htick
    rename_i b' evicted hroom
    have hroom' : b'.Dated := by
      unfold makeRoom at hroom
      split at hroom
      · cases hroom
        exact htick
      · split at hroom
        · cases hroom
        · cases hroom
          exact htick.unbind _ true
    have hinsert : (b'.insert uid ⟨host, b'.tick, true⟩).Dated := hroom'.congr rfl rfl
    exact hinsert.moveEnd host fin
  have hreport : ∀ binding, (b.report uid binding fin).1.Dated := by
    intro binding
    have hinsert : ({ b with
        tick := b.tick + 1
        bound := b.bound.insert uid { binding with reported := b.tick + 1 }
        reported := b.reported.insert uid } : Bindings).Dated := h.congr rfl rfl
    exact hinsert.moveEnd binding.host fin
  unfold Bindings.bind
  split
  · exact h
  split
  · split
    · exact h
    split
    · exact h
    · split
      · exact h
      · exact hreport _
  · split
    · exact h
    · exact hnew

private lemma Dated.endHost : (b.endHost host).1.Dated := by
  have herased : ({ b with
      hosts := b.hosts.erase host
      bound := ((b.hosts.lookup host).getD []).foldl (fun bound uid => bound.erase uid) b.bound } : Bindings).Dated :=
    h.congr rfl rfl
  exact (herased.dropEnd host).congr rfl rfl

private lemma Dated.endAll (now : Int) (revoked : Option (End → Bool)) : (b.endAll now revoked).1.Dated := by
  refine foldlRecOn (motive := fun ended : Bindings × _ => ended.1.Dated) _ _ h ?_
  intro ended hdated host hhost
  exact hdated.endHost host

end

private lemma dated_replay {changes : List Change} (hreplay : replay changes = .ok b) : b.Dated := by
  -- reading the lines keeps no end, and each end restored after it is listed
  have hread : (changes.foldl replayChange (empty, ∅)).1.Dated := by
    refine foldlRecOn (motive := fun read : Bindings × _ => read.1.Dated) changes _ dated_empty ?_
    rintro ⟨b, ends⟩ h change -
    have htick : ({ b with tick := b.tick + 1 } : Bindings).Dated := h.congr rfl rfl
    unfold replayChange
    cases change with
    | bound uid host => exact (htick.unbind uid false).congr rfl rfl
    | unbound uid => exact htick.unbind uid false
    | reported uid =>
      simp only
      split
      · exact h.congr rfl rfl
      · exact htick
    | ends host fin => exact htick
  have hrestore : ∀ (ends : Map String End) (hosts : List String) (b b' : Bindings), b.Dated →
      hosts.foldlM (restoreEnd ends) b = .ok b' → b'.Dated := by
    intro ends hosts
    induction hosts with
    | nil =>
      intro b b' h hok
      cases hok
      exact h
    | cons host hosts ih =>
      intro b b' h hok
      rw [foldlM_cons] at hok
      unfold restoreEnd at hok
      split at hok
      · exact ih _ _ (h.setEnd host _) hok
      · cases hok
  exact hrestore _ _ _ _ hread hreplay

end Dated

private lemma Built.sound {b : Bindings} (h : Built b) : b.Indexed ∧ b.Dated := by
  induction h with
  | @replayed changes b hreplay =>
    refine ⟨?_, dated_replay hreplay⟩
    rcases replay_cases changes with ⟨e, he, -⟩ | ⟨b', hb, hreplayed⟩
    · simp [hreplay] at he
    · rw [hreplay] at hb
      cases hb
      exact hreplayed.toIndexed
  | @applied b limits op _ ih =>
    obtain ⟨hindexed, hdated⟩ := ih
    cases op with
    | bind uid host fin now idle =>
      refine ⟨?_, hdated.bind uid host fin now limits idle⟩
      rcases hindexed.toHostIndex.bind_cases (Eq.refl (b.bind uid host fin now limits idle)) with h | h | ⟨h, -⟩
      · exact hindexed.idles h
      · exact hindexed.refreshes h
      · exact hindexed.binds h
    | commit uid =>
      refine ⟨hindexed.commit uid, ?_⟩
      change (b.commit uid).Dated
      unfold commit
      split
      · exact hdated.congr rfl rfl
      · exact hdated
    | abort uid =>
      refine ⟨hindexed.abort uid, ?_⟩
      change (b.abort uid).1.Dated
      unfold abort
      split
      · exact hdated.unbind uid false
      · exact hdated
    | endsWritten changes written => exact ⟨hindexed.compacted _ written, hdated.compacted _ written⟩
    | compacted hosts written => exact ⟨hindexed.compacted hosts written, hdated.compacted hosts written⟩
    | reports =>
      exact ⟨⟨hindexed.toHostIndex.congr rfl rfl, hindexed.ends_owned, hindexed.moving_ends, hindexed.moving_later⟩,
        hdated.congr rfl rfl⟩
    | endAll now revoked => exact ⟨hindexed.endAll now revoked, hdated.endAll now revoked⟩

section Limits

variable {b b' : Bindings} {limits : Limits} {uid : InstanceUid} {host : String}

def heldBy (b : Bindings) (host : String) : Finset InstanceUid := b.bound.keysWith fun binding => binding.host = host

private lemma mem_heldBy : uid ∈ b.heldBy host ↔ b.hostOf uid = some host := by
  unfold heldBy hostOf
  rw [mem_keysWith, map_eq_some_iff]
  simp only [decide_eq_true_eq]

private lemma card_heldBy (host : String) : (b.heldBy host).card = b.bound.countP fun binding => binding.host = host :=
  card_keysWith _ _

def held (b : Bindings) : Finset InstanceUid := b.bound.keysWith fun _ => true

private lemma mem_held : uid ∈ b.held ↔ (b.hostOf uid).isSome := by
  unfold held hostOf
  rw [mem_keysWith, isSome_map, isSome_iff_exists]
  simp only [and_true]

private lemma card_held : b.held.card = b.bound.entries.length := card_keysWith_true _

private lemma HostIndex.length_own (h : b.HostIndex) (host : String) :
    ((b.hosts.lookup host).getD []).length = (b.heldBy host).card := by
  rw [← toFinset_card_of_nodup (h.own_nodup host)]
  congr 1
  ext uid
  rw [List.mem_toFinset, h.mem_own, mem_heldBy]

private lemma HostIndex.room_of_full_none (h : b.HostIndex) (hroom : b.full host limits = none) :
    (b.heldBy host).card < limits.perHost ∧ b.held.card < limits.total := by
  unfold full at hroom
  rw [h.length_own] at hroom
  rw [card_held]
  split at hroom
  · cases hroom
  · split at hroom
    · cases hroom
    · omega

private lemma Within.of_hostOf (h : b.Within limits)
    (hsub : ∀ uid host, b'.hostOf uid = some host → b.hostOf uid = some host) : b'.Within limits := by
  refine ⟨fun host => ?_, ?_⟩
  · rw [← card_heldBy]
    refine le_trans (Finset.card_le_card fun uid hmem => ?_) ((card_heldBy host).trans_le (h.perHost host))
    exact mem_heldBy.mpr (hsub uid host (mem_heldBy.mp hmem))
  · rw [← card_held]
    refine le_trans (Finset.card_le_card fun uid hmem => ?_) (card_held.trans_le h.total)
    obtain ⟨host, hhost⟩ := isSome_iff_exists.mp (mem_held.mp hmem)
    exact mem_held.mpr (by rw [hsub uid host hhost]; rfl)


private lemma Within.bind (h : b.Within limits) (hindex : b.HostIndex) (uid : InstanceUid) (host : String) (fin : End)
    (now : Int) (idle : InstanceUid → Bool) : (b.bind uid host fin now limits idle).1.Within limits := by
  rcases hbind : b.bind uid host fin now limits idle with ⟨b', outcome⟩
  rcases hindex.bind_cases hbind with hi | hr | ⟨hb, hroom⟩
  · obtain ⟨tick, -, rfl⟩ := hi.eq
    exact h.of_hostOf fun _ _ hu => hu
  · refine h.of_hostOf fun v name hv => ?_
    rwa [hr.hostOf_eq] at hv
  · -- who is bound after the report, other than its own `instance_uid`
    have hold : ∀ v name, b'.hostOf v = some name → v = uid ∧ name = host ∨
        b.hostOf v = some name ∧ v ∉ outcome.evicted := by
      intro v name hv
      rw [hostOf, hb.bound] at hv
      split at hv
      next hvu =>
        exact .inl ⟨hvu, (Option.some.inj hv).symm⟩
      · split at hv
        · cases hv
        next hkept =>
          exact .inr ⟨hv, hkept⟩
    have hevicted : ∀ v ∈ outcome.evicted, b.hostOf v = some host := by
      intro v hv
      obtain ⟨binding, hlookup, hhost, -⟩ := hb.evicted v hv
      rw [hostOf, hlookup, map_some, hhost]
    refine ⟨fun name => ?_, ?_⟩
    · rw [← card_heldBy]
      have hle := (card_heldBy name).trans_le (h.perHost name)
      by_cases hname : name = host
      · subst hname
        refine card_le_of_insert uid outcome.evicted (fun v hv => ?_) hle ?_
        · exact (hold v name (mem_heldBy.mp hv)).imp And.left fun hv => ⟨mem_heldBy.mpr hv.1, hv.2⟩
        · rcases hroom with ⟨-, hnone⟩ | ⟨v, hv, -⟩
          · exact .inl (hindex.room_of_full_none hnone).1
          · have hmem : v ∈ outcome.evicted := by simp [hv]
            exact .inr ⟨v, mem_heldBy.mpr (hevicted v hmem), hmem⟩
      · refine (Finset.card_le_card fun v hv => ?_).trans hle
        rcases hold v name (mem_heldBy.mp hv) with ⟨-, heq⟩ | ⟨hv, -⟩
        · exact absurd heq hname
        · exact mem_heldBy.mpr hv
    · rw [← card_held]
      refine card_le_of_insert uid outcome.evicted (fun v hv => ?_) (card_held.trans_le h.total) ?_
      · obtain ⟨name, hv⟩ := isSome_iff_exists.mp (mem_held.mp hv)
        exact (hold v name hv).imp And.left fun hv => ⟨mem_held.mpr (by rw [hv.1]; rfl), hv.2⟩
      · rcases hroom with ⟨-, hnone⟩ | ⟨v, hv, -⟩
        · exact .inl (hindex.room_of_full_none hnone).2
        · have hmem : v ∈ outcome.evicted := by simp [hv]
          exact .inr ⟨v, mem_held.mpr (by rw [hevicted v hmem]; rfl), hmem⟩

def Ended (b : Bindings) (now : Int) (revoked : Option (End → Bool)) (host : String) : Prop :=
  ∃ fin, b.ends.lookup host = some fin ∧ (fin.notAfter < now ∨ revoked.any (fun named => named fin) = true)

private lemma Dated.mem_ended (h : b.Dated) (now : Int) (revoked : Option (End → Bool)) (host : String) :
    host ∈ b.ended now revoked ↔ b.Ended now revoked host := by
  have hpassed : host ∈ (b.expiring.filter fun entry => entry.1 < now).map Prod.snd ↔
      ∃ fin, b.ends.lookup host = some fin ∧ fin.notAfter < now := by
    simp only [List.mem_map, mem_filter, Prod.exists, exists_eq_right, h.ends, decide_eq_true_eq]
    exact ⟨fun ⟨_, ⟨fin, hfin, hat⟩, hpast⟩ => ⟨fin, hfin, hat ▸ hpast⟩, fun ⟨fin, hfin, hpast⟩ =>
      ⟨_, ⟨fin, hfin, rfl⟩, hpast⟩⟩
  unfold ended Ended
  rw [mem_dedup, mem_append, hpassed]
  simp only [and_or_left, exists_or]
  refine or_congr_right ?_
  cases revoked with
  | none => simp
  | some named =>
    simp only [elim_some, List.mem_map, mem_filter, any_some]
    constructor
    · rintro ⟨entry, ⟨hin, hnamed⟩, rfl⟩
      exact ⟨entry.2, AList.mem_lookup_iff.mpr hin, hnamed⟩
    · rintro ⟨fin, hfin, hnamed⟩
      exact ⟨⟨host, fin⟩, ⟨AList.mem_lookup_iff.mp hfin, hnamed⟩, rfl⟩

/-- What an operation does to whose an `instance_uid` is: nothing, or it removes the binding in one of the three ways,
or it is the report that binds it. -/
private lemma hostOf_apply_cases (hindexed : b.Indexed) (hdated : b.Dated) (uid : InstanceUid) (op : Op) :
    (b.apply limits op).hostOf uid = b.hostOf uid ∨
      ((b.apply limits op).hostOf uid = none ∧ ∀ host, b.hostOf uid = some host → b.Removes limits uid host op) ∨
      b.hostOf uid = none ∧ ∃ host fin now idle, op = .bind uid host fin now idle := by
  cases op with
  | bind other name fin now idle =>
    rcases hbind : b.bind other name fin now limits idle with ⟨b', outcome⟩
    simp only [apply, hbind]
    rcases hindexed.toHostIndex.bind_cases hbind with hi | hr | ⟨hb, hroom⟩
    · obtain ⟨tick, -, rfl⟩ := hi.eq
      exact .inl rfl
    · exact .inl (congrFun hr.hostOf_eq uid)
    · by_cases hne : uid = other
      · subst hne
        exact .inr (.inr ⟨by rw [hostOf, hb.unbound]; rfl, _, _, _, _, rfl⟩)
      simp only [hostOf, hb.bound, if_neg hne]
      split
      next hmem =>
        refine .inr (.inl ⟨rfl, fun host hhost => ?_⟩)
        obtain ⟨binding, hlookup, hname, hrelied, hidle⟩ := hb.evicted uid hmem
        rw [hlookup, map_some, hname] at hhost
        cases hhost
        refine .room ?_ (by simp [holds, hlookup, hname, hrelied]) hidle
        rcases hroom with ⟨hnil, -⟩ | ⟨v, -, hfull⟩
        · simp [hnil] at hmem
        · exact hfull
      · exact .inl rfl
  | commit other => exact .inl (congrFun (hostOf_commit b other) uid)
  | abort other =>
    simp only [apply, abort]
    split
    next hpending =>
      rw [hostOf_unbind]
      split
      next heq =>
        subst heq
        exact .inr (.inl ⟨rfl, fun _ _ => .undone hpending⟩)
      · exact .inl rfl
    · exact .inl rfl
  | endsWritten changes written => exact .inl (congrFun (hostOf_compacted b written _) uid)
  | compacted hosts written => exact .inl (congrFun (hostOf_compacted b written hosts) uid)
  | reports => exact .inl rfl
  | endAll now revoked =>
    simp only [apply, hostOf, hindexed.toHostIndex.lookup_bound_endAll]
    split
    next hends =>
      obtain ⟨name, hmem, hname⟩ := hends
      refine .inr (.inl ⟨rfl, fun host hhost => ?_⟩)
      cases hhost.symm.trans hname
      obtain ⟨fin, hkept, hpast⟩ := (hdated.mem_ended now revoked name).mp hmem
      exact .ended hkept hpast
    · exact .inl rfl

private lemma hostOf_apply (hindexed : b.Indexed) (hdated : b.Dated)
    (hhost : b.hostOf uid = some host) (op : Op) : (b.apply limits op).hostOf uid = some host ∨
      (b.apply limits op).hostOf uid = none ∧ b.Removes limits uid host op := by
  rcases @hostOf_apply_cases b limits hindexed hdated uid op with hsame | ⟨hgone, hremoves⟩ | ⟨hnone, -⟩
  · exact .inl (hsame.trans hhost)
  · exact .inr ⟨hgone, hremoves host hhost⟩
  · simp [hhost] at hnone

private lemma Within.apply (h : b.Within limits) (hindexed : b.Indexed) (hdated : b.Dated) (op : Op) :
    (b.apply limits op).Within limits := by
  have hcases := fun uid => @hostOf_apply_cases b limits hindexed hdated uid op
  cases op with
  | bind uid host fin now idle => exact h.bind hindexed.toHostIndex uid host fin now idle
  | _ =>
    -- only a report binds anything new
    refine h.of_hostOf fun uid host hhost => ?_
    rcases hcases uid with hsame | ⟨hgone, -⟩ | ⟨-, _, _, _, _, hbinds⟩
    · exact hsame.symm.trans hhost
    · simp [hgone] at hhost
    · cases hbinds

end Limits

/-- A run that starts within the limits stays within them, and takes an `instance_uid` from one host to another only
past an operation that removed its binding in one of the three ways. -/
theorem bindings_stay_within (limits : Limits) {b : Bindings} (hbuilt : Built b) (hwithin : b.Within limits)
    (ops : List Op) :
    (b.after limits ops).Within limits ∧
      ∀ uid host other, b.hostOf uid = some host → (b.after limits ops).hostOf uid = some other → other ≠ host →
        ∃ done op rest, ops = done ++ op :: rest ∧ (b.after limits done).hostOf uid = some host ∧
          (b.after limits done).Removes limits uid host op ∧ (b.after limits (done ++ [op])).hostOf uid = none := by
  induction ops generalizing b with
  | nil =>
    refine ⟨hwithin, fun uid host other hhost hother hne => ?_⟩
    rw [show b.after limits [] = b from rfl, hhost] at hother
    cases hother
    exact absurd rfl hne
  | cons op ops ih =>
    obtain ⟨hindexed, hdated⟩ := hbuilt.sound
    obtain ⟨hafter, hmoved⟩ := ih (hbuilt.applied limits op) (hwithin.apply hindexed hdated op)
    refine ⟨hafter, fun uid host other hhost hother hne => ?_⟩
    rcases hostOf_apply hindexed hdated hhost op with hsame | ⟨hgone, hremoves⟩
    · obtain ⟨done, op', rest, rfl, hbefore, hremoves, hnone⟩ := hmoved uid host other hsame hother hne
      exact ⟨op :: done, op', rest, rfl, hbefore, hremoves, hnone⟩
    · exact ⟨[], op, ops, rfl, hhost, hremoves, hgone⟩

def handedOver : List Op :=
  [.bind (uid 1) "a" early 0 fun _ => false, .commit (uid 1),
    .bind (uid 2) "a" early 0 fun _ => false, .commit (uid 2), .endAll 6 none,
    .bind (uid 1) "b" late 6 fun _ => false]

/-- An `instance_uid` goes from the host `a` to `b`, under quotas of two. -/
theorem bindings_stay_within_handedOver : Built empty ∧ empty.Within ⟨2, 2⟩ ∧
    (empty.after ⟨2, 2⟩ (handedOver.take 2)).hostOf (uid 1) = some "a" ∧
    (empty.after ⟨2, 2⟩ handedOver).hostOf (uid 1) = some "b" ∧ (empty.after ⟨2, 2⟩ handedOver).Within ⟨2, 2⟩ := by
  have hbuilt : Built empty := @Built.replayed [] empty rfl
  have hwithin : empty.Within ⟨2, 2⟩ := ⟨fun host => Nat.zero_le 2, Nat.zero_le 2⟩
  exact ⟨hbuilt, hwithin, by decide +kernel, by decide +kernel,
    (bindings_stay_within ⟨2, 2⟩ hbuilt hwithin handedOver).1⟩

/-- However the bindings came about, the indexes say what the bindings and the ends do, and a look at the ends gives up
the bindings of the hosts that ended and no other, each reported with its host. -/
theorem indexes_exact {b : Bindings} (hbuilt : Built b) :
    (∀ host uid, uid ∈ (b.hosts.lookup host).getD [] ↔ b.hostOf uid = some host) ∧
      (∀ host, b.hosts.lookup host ≠ some [] ∧ ((b.hosts.lookup host).getD []).Nodup) ∧
      (b.expiring.Nodup ∧ ∀ notAfter host, (notAfter, host) ∈ b.expiring ↔
        ∃ fin, b.ends.lookup host = some fin ∧ fin.notAfter = notAfter) ∧
      ∀ now revoked, (∀ uid binding, (b.endAll now revoked).1.bound.lookup uid = some binding ↔
          b.bound.lookup uid = some binding ∧ ¬b.Ended now revoked binding.host) ∧
        ∀ host uid, (∃ own, (host, own) ∈ (b.endAll now revoked).2 ∧ uid ∈ own) ↔
          b.hostOf uid = some host ∧ b.Ended now revoked host := by
  obtain ⟨hindexed, hdated⟩ := hbuilt.sound
  refine ⟨hindexed.mem_own, fun host => ⟨hindexed.own_ne_nil host, hindexed.own_nodup host⟩,
    ⟨hdated.nodup, hdated.ends⟩,
    fun now revoked => ⟨fun uid binding => ?_, fun host uid => ?_⟩⟩
  · have hends : b.bound.lookup uid = some binding →
        (b.EndsWith now revoked uid ↔ b.Ended now revoked binding.host) := by
      intro hb
      simp [EndsWith, hostOf, hb, hdated.mem_ended]
    rw [hindexed.toHostIndex.lookup_bound_endAll]
    split
    next hgone =>
      exact ⟨fun hnone => (by cases hnone), fun hb => absurd ((hends hb.1).mp hgone) hb.2⟩
    next hstays =>
      exact ⟨fun hb => ⟨hb, fun hended => hstays ((hends hb).mpr hended)⟩, And.left⟩
  · rw [hindexed.toHostIndex.mem_endAll_host, hdated.mem_ended, and_comm]

/-- At 6 the host `a` has ended: its binding is dropped and named. -/
theorem indexes_exact_handedOver : Built (empty.after ⟨2, 2⟩ (handedOver.take 2)) ∧
    ((empty.after ⟨2, 2⟩ (handedOver.take 2)).endAll 6 none).1.bound.lookup (uid 1) = none ∧
    ∃ own, ("a", own) ∈ ((empty.after ⟨2, 2⟩ (handedOver.take 2)).endAll 6 none).2 ∧ uid 1 ∈ own := by
  have hbuilt : Built (empty.after ⟨2, 2⟩ (handedOver.take 2)) :=
    .applied ⟨2, 2⟩ (.commit (uid 1))
      (.applied ⟨2, 2⟩ (.bind (uid 1) "a" early 0 fun _ => false) (@Built.replayed [] empty rfl))
  have hended : (empty.after ⟨2, 2⟩ (handedOver.take 2)).Ended 6 none "a" :=
    ⟨early, by decide +kernel, .inl (by decide)⟩
  exact ⟨hbuilt, by decide +kernel,
    (((indexes_exact hbuilt).2.2.2 6 none).2 "a" (uid 1)).mpr ⟨by decide +kernel, hended⟩⟩

end OpampFleet.Gateway.Bindings
