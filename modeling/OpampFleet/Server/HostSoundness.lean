import OpampFleet.Server.DurableBindings
import OpampFleet.Server.RevokedSet

/-!
# Owners and the Hosts agree

`owners` is the inverse of what the Hosts list, a Gateway's Host lists none, and none lists more than it may. Every act
on the Hosts keeps this as far as memory goes. But a report that binds and a move of a binding ask the store, and the
store answers from the Hosts as last written: between an act and its write it may name a Host that no longer holds the
`instance_uid`, or has become a Gateway's, and memory takes that up.
-/

namespace OpampFleet.Server

open Lib Revocations List Option Map Finset

variable (hosts : Map String Host)

def listed (host : String) : Finset String := (hosts.lookup host).elim ∅ Host.instanceUids

structure Register.Sound (register : Register) : Prop where
  owners : ∀ uid host, register.owners.lookup uid = some host ↔ uid ∈ listed register.hosts host
  gateways : ∀ host, register.isGateway host = true → listed register.hosts host = ∅
  bounded : ∀ host, (listed register.hosts host).card ≤ maxUidsPerHost

def HeldOnce : Prop := ∀ uid a b, Holds hosts a uid → Holds hosts b uid → a = b

private lemma listed_eq (host : String) : listed hosts host = (marks hosts host).elim ∅ Prod.snd := by
  unfold listed marks
  cases hosts.lookup host <;> rfl

private lemma mem_listed_of_holds {hosts : Map String Host} {host uid : String} (h : Holds hosts host uid) :
    uid ∈ listed hosts host := by
  obtain ⟨uids, hmarks, huid⟩ := h
  rwa [listed_eq, hmarks]

namespace Register

variable {register after : Register} {host uid : String}

section

variable (h : register.Sound)
include h

private lemma Sound.heldOnce : HeldOnce register.hosts := by
  intro uid a b ha hb
  have howner := (h.owners uid a).mpr (mem_listed_of_holds ha)
  rw [(h.owners uid b).mpr (mem_listed_of_holds hb)] at howner
  exact (Option.some.inj howner).symm

private lemma Sound.not_gateway (howner : register.owners.lookup uid = some host) :
    register.isGateway host = false := by
  rw [Bool.eq_false_iff]
  intro hgateway
  have hmem := (h.owners uid host).mp howner
  rw [h.gateways host hgateway] at hmem
  exact notMem_empty _ hmem

private lemma Sound.holds (howner : register.owners.lookup uid = some host) : Holds register.hosts host uid := by
  have hmem := (h.owners uid host).mp howner
  have hmark := h.not_gateway howner
  rw [listed_eq] at hmem
  rw [isGateway_eq] at hmark
  cases hmarks : marks register.hosts host with
  | none =>
    rw [hmarks] at hmem
    exact absurd hmem (notMem_empty _)
  | some held =>
    obtain ⟨gateway, uids⟩ := held
    rw [hmarks] at hmem hmark
    cases (show gateway = false from hmark)
    exact ⟨uids, hmarks, hmem⟩

private lemma Sound.freed (uid : String)
    (howners : ∀ other, after.owners.lookup other = if other = uid then none else register.owners.lookup other)
    (hlisted : ∀ name, listed after.hosts name = (listed register.hosts name).erase uid)
    (hgateways : ∀ name, after.isGateway name = register.isGateway name) : after.Sound := by
  refine ⟨fun other name => ?_, fun name hgateway => ?_, fun name => ?_⟩
  · rw [howners, hlisted, mem_erase, ← h.owners]
    by_cases hother : other = uid <;> simp [hother]
  · rw [hgateways] at hgateway
    rw [hlisted, h.gateways name hgateway, erase_empty]
  · rw [hlisted]
    exact (card_erase_le).trans (h.bounded name)

private lemma Sound.bound (host uid : String) (hfree : ∀ other, register.owners.lookup uid = some other → other = host)
    (hmark : register.isGateway host = false) (hroom : (insert uid (listed register.hosts host)).card ≤ maxUidsPerHost)
    (howners : ∀ other, after.owners.lookup other = if other = uid then some host else register.owners.lookup other)
    (hlisted : ∀ name, listed after.hosts name =
      if name = host then insert uid (listed register.hosts host) else listed register.hosts name)
    (hgateways : ∀ name, after.isGateway name = register.isGateway name) : after.Sound := by
  refine ⟨fun other name => ?_, fun name hgateway => ?_, fun name => ?_⟩
  · rw [howners, hlisted]
    by_cases hother : other = uid
    · subst hother
      rw [if_pos rfl]
      by_cases hname : name = host
      · subst hname
        simp
      · rw [if_neg hname]
        refine iff_of_false (fun heq => hname (Option.some.inj heq).symm) fun hmem => ?_
        exact hname (hfree name ((h.owners other name).mpr hmem))
    · rw [if_neg hother, h.owners]
      split
      next hname =>
        rw [mem_insert, hname]
        exact (or_iff_right hother).symm
      · rfl
  · rw [hgateways] at hgateway
    have hname : name ≠ host := by
      rintro rfl
      simp [hmark] at hgateway
    rw [hlisted, if_neg hname]
    exact h.gateways name hgateway
  · rw [hlisted]
    split
    · exact hroom
    · exact h.bounded name

/-- Some Hosts lose all that they list, and only one that lists none may become a Gateway's. -/
private lemma Sound.emptied (gone : String → Bool)
    (howners : ∀ uid, after.owners.lookup uid = (register.owners.lookup uid).filter fun owner => !gone owner)
    (hlisted : ∀ name, listed after.hosts name = if gone name then ∅ else listed register.hosts name)
    (hgateways : ∀ name, after.isGateway name = true → listed after.hosts name = ∅ ∨ register.isGateway name = true) :
    after.Sound := by
  refine ⟨fun uid name => ?_, fun name hgateway => ?_, fun name => ?_⟩
  · rw [howners, hlisted, filter_eq_some_iff, h.owners]
    cases gone name <;> simp
  · rcases hgateways name hgateway with hempty | hmark
    · exact hempty
    · rw [hlisted, h.gateways name hmark, ite_self]
  · rw [hlisted]
    split
    · simp
    · exact h.bounded name

private lemma Sound.congr (howners : ∀ uid, after.owners.lookup uid = register.owners.lookup uid)
    (hmarks : ∀ name, marks after.hosts name = marks register.hosts name) : after.Sound := by
  refine h.emptied (fun _ => false) (fun uid => ?_) (fun name => by simp [listed_eq, hmarks]) fun name hgateway => ?_
  · rw [howners]
    cases register.owners.lookup uid <;> rfl
  · rw [isGateway_eq, hmarks, ← isGateway_eq] at hgateway
    exact .inr hgateway

end

/-! ### One act at a time -/

section

variable (register : Register) (uid : String)

private lemma marks_freed (holder : Option String) (name : String) :
    marks (register.freed uid holder).hosts name =
      if holder = some name then (marks register.hosts name).map fun held => (held.1, held.2.erase uid)
      else marks register.hosts name := by
  cases holder with
  | none => rfl
  | some host =>
    have hmodify : marks (register.freed uid (some host)).hosts name = _ :=
      marks_modify register host (fun held => (held.1, held.2.erase uid)) (fun _ => rfl) name
    by_cases hname : name = host
    · subst hname
      rw [if_pos rfl]
      exact hmodify.trans (if_pos rfl)
    · rw [if_neg fun heq => hname (Option.some.inj heq).symm]
      exact hmodify.trans (if_neg hname)

private lemma listed_freed (holder : Option String) (name : String) :
    listed (register.freed uid holder).hosts name =
      if holder = some name then (listed register.hosts name).erase uid else listed register.hosts name := by
  rw [listed_eq, marks_freed, listed_eq]
  split
  · cases marks register.hosts name <;> rfl
  · rfl

private lemma isGateway_freed (holder : Option String) (name : String) :
    (register.freed uid holder).isGateway name = register.isGateway name := by
  rw [isGateway_eq, marks_freed, isGateway_eq]
  split
  · rw [Option.any_map]
  · rfl

end

private lemma admits_of_free (howner : register.owners.lookup uid = none) (hmark : register.isGateway host = false)
    (hroom : (listed register.hosts host).card < maxUidsPerHost) : register.admits host uid = .ok true := by
  have hfull : ¬((register.hosts.lookup host).any fun entry => maxUidsPerHost ≤ entry.instanceUids.card) = true := by
    unfold listed at hroom
    cases hentry : register.hosts.lookup host with
    | none => simp
    | some entry =>
      rw [hentry, elim_some] at hroom
      rw [any_some, decide_eq_true_eq]
      omega
  unfold admits
  rw [hmark, howner]
  simp [hfull]

private lemma listed_bindTo (register : Register) (host uid : String) (subject : Map String String) (name : String) :
    listed (register.bindTo host uid subject).hosts name =
      if name = host then insert uid (listed register.hosts host) else listed register.hosts name := by
  rw [listed_eq, marks_bindTo, listed_eq, listed_eq]
  split
  · cases marks register.hosts host <;> rfl
  · rfl

private lemma marks_setGateway (register : Register) (host : String) (gateway : Bool) (name : String) :
    marks (register.setGateway host gateway).hosts name =
      if name = host then some (gateway, if gateway then ∅ else listed register.hosts host)
        else marks register.hosts name := by
  unfold marks listed Register.setGateway
  simp only [lookup_insert_ite]
  split
  · cases gateway <;> cases hentry : register.hosts.lookup host <;> simp [lookup_modify, hentry, Host.empty]
  rename_i hname
  cases gateway with
  | false => rfl
  | true =>
    simp [lookup_modify, if_neg hname]

private lemma owners_setGateway (register : Register) (host : String) (gateway : Bool) (uid : String) :
    (register.setGateway host gateway).owners.lookup uid =
      if gateway then (register.owners.lookup uid).filter fun owner => owner ≠ host
        else register.owners.lookup uid := by
  cases gateway with
  | false => rfl
  | true => exact lookup_filter _ _ _

section

variable (h : register.Sound)
include h

private lemma Sound.erase_listed (uid name : String) (hname : register.owners.lookup uid ≠ some name) :
    (listed register.hosts name).erase uid = listed register.hosts name := by
  refine erase_eq_of_notMem fun hmem => ?_
  exact hname ((h.owners uid name).mpr hmem)

private lemma Sound.released (stored : Option String) (uid : String) :
    (∀ other, (register.release stored uid).owners.lookup other =
      if other = uid then none else register.owners.lookup other) ∧
    (∀ name, listed (register.release stored uid).hosts name = (listed register.hosts name).erase uid) ∧
    ∀ name, (register.release stored uid).isGateway name = register.isGateway name := by
  unfold Register.release
  refine ⟨fun other => ?_, fun name => ?_, fun name => ?_⟩
  · rw [owners_freed, owners_freed]
    exact lookup_erase_ite _ _ _
  · rw [listed_freed, listed_freed]
    change (if register.owners.lookup uid = some name then
      (if stored = some name then (listed register.hosts name).erase uid else listed register.hosts name).erase uid
      else if stored = some name then (listed register.hosts name).erase uid else listed register.hosts name) = _
    split
    · split
      · exact erase_idem
      · rfl
    next hname =>
      rw [h.erase_listed uid name hname]
      split <;> rfl
  · rw [isGateway_freed, isGateway_freed]
    rfl

private lemma Sound.release (stored : Option String) (uid : String) : (register.release stored uid).Sound := by
  obtain ⟨howners, hlisted, hgateways⟩ := h.released stored uid
  exact h.freed uid howners hlisted hgateways

private lemma Sound.report {found : Bound} (hfound : register.admits host uid = .ok true → found = .bound)
    (subject : Map String String) (notAfterMs : Nat) :
      (register.report (.ok found) host subject notAfterMs uid).1.Sound := by
  cases hadmits : register.admits host uid with
  | error e =>
    rwa [report_refused hadmits]
  | ok binds =>
    cases binds with
    | false =>
      rw [report_held hadmits]
      exact h.congr (fun _ => by rw [owners_modify]) (marks_extend register host notAfterMs)
    | true =>
      obtain ⟨extended, heq⟩ := report_bound hadmits subject notAfterMs
      rw [hfound hadmits, heq]
      obtain ⟨hmark, hroom, hgateway⟩ := admits_eq_true hadmits
      have hroom : (insert uid (listed register.hosts host)).card ≤ maxUidsPerHost := by
        have hcard := card_insert_le uid (listed register.hosts host)
        unfold listed at hcard ⊢
        cases hentry : register.hosts.lookup host with
        | none => simp [maxUidsPerHost]
        | some entry =>
          rw [hentry] at hcard
          have hlt := hroom entry hentry
          simp only [elim_some] at hcard ⊢
          omega
      have hbound : (register.bindTo host uid subject).Sound := by
        refine h.bound host uid (fun other howner => ?_) hmark hroom (fun other => lookup_insert_ite _ _ _ _)
          (register.listed_bindTo host uid subject) (isGateway_bindTo hmark uid subject)
        -- an owner is no Gateway's
        have hnot := h.not_gateway howner
        simp [hgateway other howner] at hnot
      exact hbound.congr (fun _ => by rw [owners_modify]) (marks_extend _ host notAfterMs)

private lemma Sound.setGateway (host : String) (gateway : Bool) : (register.setGateway host gateway).Sound := by
  refine h.emptied (fun name => gateway && name = host) (fun uid => ?_) (fun name => ?_) fun name hgateway => ?_
  · rw [owners_setGateway]
    cases gateway with
    | true => simp
    | false => cases register.owners.lookup uid <;> rfl
  · rw [listed_eq, marks_setGateway, listed_eq]
    by_cases hname : name = host
    · subst hname
      cases gateway with
      | true => simp
      | false => simp [listed_eq]
    · simp [hname, listed_eq]
  · rw [isGateway_eq, marks_setGateway] at hgateway
    split at hgateway
    next hname =>
      refine .inl ?_
      rw [listed_eq, marks_setGateway, if_pos hname]
      exact if_pos (by simpa using hgateway)
    · rw [isGateway_eq]
      exact .inr hgateway

private lemma Sound.forget (ended : String → Host → Bool) : (register.forget ended).Sound := by
  refine h.emptied (fun name => (register.hosts.lookup name).any (ended name)) (fun uid => lookup_filter _ _ _)
    (fun name => ?_) fun name hgateway => .inr ?_
  · unfold listed Register.forget
    simp only [lookup_filter]
    cases register.hosts.lookup name with
    | none => rfl
    | some entry => cases hended : ended name entry <;> simp [hended, Option.filter]
  · unfold isGateway Register.forget at hgateway
    rw [lookup_filter] at hgateway
    obtain ⟨entry, hentry, hmark⟩ := (Option.any_eq_true _ _).mp hgateway
    rwa [isGateway, (filter_eq_some_iff.mp hentry).1]

end

private lemma move_held {io : LedgerIo} {old new : String} {found : String → Bound}
    (hrebound : io.rebound = .ok ((register.owners.lookup old).map fun host => (host, found host)))
    (howner : register.owners.lookup old = some host) :
    register.move io old new = (register.release (some host) old).moveTo io.byAct new host (found host) := by
  simp only [Register.move, Register.release, hrebound, howner, map_some]

private lemma listed_listing {entry : Bool × Finset String} (hentry : marks register.hosts host = some entry)
    (uid name : String) : listed (register.listing uid host).hosts name =
      if name = host then insert uid (listed register.hosts host) else listed register.hosts name := by
  rw [listed_eq, marks_listing, listed_eq, listed_eq, hentry]
  split <;> rfl

private lemma isGateway_listing (register : Register) (host uid name : String) :
    (register.listing uid host).isGateway name = register.isGateway name := by
  rw [isGateway_eq, marks_listing, isGateway_eq]
  split
  next hname =>
    rw [hname, Option.any_map]
  · rfl

/-- A binding moved where the store holds it for the Host that memory does, and holds the new one as memory does. -/
private lemma Sound.move (h : register.Sound) {io : LedgerIo} {old new : String} (found : String → Bound)
    (hrebound : io.rebound = .ok ((register.owners.lookup old).map fun host => (host, found host)))
    (hfound : ∀ host, register.owners.lookup old = some host →
      found host = .bound ∧ (∀ other, register.owners.lookup new = some other → other = host) ∨
        ∃ holder, found host = .taken holder ∧ holder ≠ host ∧ register.owners.lookup new = some holder) :
    (register.move io old new).1.Sound := by
  cases howner : register.owners.lookup old with
  | none =>
    have hmove : register.move io old new = (register.release none old, .ok false) := by
      simp only [Register.move, hrebound, howner, map_none, Register.release]
      rfl
    rw [hmove]
    exact h.release none old
  | some host =>
    rw [move_held hrebound howner]
    obtain ⟨howners, hlisted, hgateways⟩ := h.released (some host) old
    obtain ⟨entry, hentry⟩ : ∃ entry, marks (register.release (some host) old).hosts host = some entry := by
      obtain ⟨uids, hmarks, -⟩ := h.holds howner
      rw [Register.release, howner, marks_freed, if_pos rfl, marks_freed, if_pos rfl, hmarks]
      exact ⟨_, rfl⟩
    generalize register.release (some host) old = kept at howners hlisted hgateways hentry ⊢
    have hkept : kept.Sound := h.freed old howners hlisted hgateways
    rcases hfound host howner with ⟨hbound, hfree⟩ | ⟨holder, htaken, hne, hholder⟩
    · rw [hbound]
      simp only [moveTo, takeUp, if_true]
      have hold := (h.owners old host).mp howner
      have hroom : (insert new (listed kept.hosts host)).card ≤ maxUidsPerHost := by
        have hcard := card_insert_le new (listed kept.hosts host)
        rw [hlisted] at hcard ⊢
        have herase := card_erase_add_one hold
        have hbounded := h.bounded host
        omega
      refine hkept.bound host new (fun other hother => ?_) ?_ hroom (fun other => ?_)
        (@listed_listing { kept with owners := kept.owners.insert new host } host entry hentry new)
        (isGateway_listing { kept with owners := kept.owners.insert new host } host new)
      · rw [howners] at hother
        split at hother
        · cases hother
        · exact hfree other hother
      · rw [hgateways]
        exact h.not_gateway howner
      · rw [owners_listing]
        exact lookup_insert_ite _ _ _ _
    · rw [htaken]
      have hnew : new ≠ old := by
        rintro rfl
        rw [howner] at hholder
        exact hne (Option.some.inj hholder).symm
      have hkeeps : kept.owners.lookup new = some holder := by
        rwa [howners, if_neg hnew]
      refine hkept.congr (fun other => ?_) (marks_taken_of_holds (hkept.holds hkeeps) host)
      have htake : (kept.takeUp new host (.taken holder)).1.owners = kept.owners.insert new holder := by
        simp [takeUp]
      change (kept.takeUp new host (.taken holder)).1.owners.lookup other = _
      rw [htake, lookup_insert_ite]
      split
      next hother =>
        rw [hother, hkeeps]
      · rfl

end Register

/-! ### What a prune and a new certificate do to the Hosts -/

namespace Revocations.State

variable {s : State}

private lemma remove_register (s : State) (id : CertId) : (s.remove id).register = s.register := by
  unfold remove
  split
  · rfl
  · simp only
    split
    · rfl
    · split <;> rfl

private lemma insert_register (s : State) (entry : Issued) : (s.insert entry).register = s.register := by
  rw [← s.remove_register entry.facts.id]
  unfold State.insert
  simp only
  split
  · split <;> rfl
  · rfl


private lemma pruneHosts_sound (h : s.register.Sound) (now : Nat) : (s.pruneHosts now).1.register.Sound := by
  apply Register.Sound.forget
  refine h.congr (fun _ => rfl) fun name => ?_
  unfold marks
  rw [lookup_mapValues, Option.map_map]
  congr 1
  funext entry
  split
  · exact extend_marks entry _
  · rfl

private lemma prune_register (s : State) (byAct : Bool) (now : Nat) (io : PruneIo) :
    ((s.prune byAct now io).1.register = s.register ∨ (s.prune byAct now io).1.register =
      (s.pruneHosts now).1.register) ∧
      ∀ version, (s.prune byAct now io).2 = .ok (some version) → version.2 = (s.pruneHosts now).1.register.hosts := by
  unfold State.prune
  split
  · exact ⟨.inl rfl, fun _ h => by cases h⟩
  simp only
  generalize ht : (if (s.pruneHosts now).2 && !byAct then
    ((s.pruneHosts now).1.hostsChanged.1, some (s.pruneHosts now).1.hostsChanged.2)
    else ((s.pruneHosts now).1, none)) = t
  obtain ⟨hregister, hversion⟩ : t.1.register = (s.pruneHosts now).1.register ∧
      ∀ version, t.2 = some version → version.2 = (s.pruneHosts now).1.register.hosts := by
    subst ht
    split
    · exact ⟨rfl, fun version h => by cases h; rfl⟩
    · exact ⟨rfl, fun version h => by cases h⟩
  split
  · exact ⟨.inr hregister, fun version h => hversion version (Except.ok.inj h)⟩
  have hgone : (removeGone io { t.1 with earliestExpiryMs := t.1.nextExpiryMs now }
      (s.issued.keys.filter fun id => id ∉ s.needed now)).1.register = (s.pruneHosts now).1.register :=
    removeGone_invariant io (P := fun u => u.register = _) hregister fun id _ u h => (u.remove_register id).trans h
  split
  next heq =>
    rw [heq] at hgone
    exact ⟨.inr hgone, fun _ h => by cases h⟩
  rename_i u heq
  rw [heq] at hgone
  have hdropped : ∀ dropped, (removeRevocations io u dropped).1.register = (s.pruneHosts now).1.register := fun _ =>
    removeRevocations_invariant io (P := fun v => v.register = _) hgone fun _ _ _ h => h
  split
  next heq =>
    exact ⟨.inr ((congrArg (·.1.register) heq).symm.trans (hdropped _)), fun _ h => by cases h⟩
  next heq =>
    refine ⟨.inr ((congrArg (·.1.register) heq).symm.trans (hdropped _)), fun version h => ?_⟩
    exact hversion version (Except.ok.inj h)

private lemma admitIssued_register (s : State) (now : Nat) (facts : Facts) (instanceUid : String)
    (predecessor : Option CertId) (answer : Except String Registered) :
      (s.admitIssued now facts instanceUid predecessor answer).1.register = s.register := by
  rcases s.admitIssued_cases now facts instanceUid predecessor answer with ⟨e, heq⟩ | heq
  · rw [heq]
  · rw [heq, insert_register]

private lemma sound_minted {register : Register} (h : register.Sound) {host : String}
    (hnone : register.hosts.lookup host = none) {entry : Host} (hempty : entry.instanceUids = ∅) :
    ({ register with hosts := register.hosts.insert host entry } : Register).Sound := by
  have hlisted : ∀ name, listed (register.hosts.insert host entry) name = listed register.hosts name := by
    intro name
    unfold listed
    rw [lookup_insert_ite]
    split
    next hname =>
      rw [hname, hnone, elim_some, hempty]
      rfl
    · rfl
  refine h.emptied (fun _ => false) (fun uid => ?_) (fun name => by simp [hlisted]) fun name hgateway => ?_
  · cases register.owners.lookup uid <;> rfl
  unfold Register.isGateway at hgateway
  rw [lookup_insert_ite] at hgateway
  split at hgateway
  next hname =>
    rw [hlisted, hname, listed, hnone]
    exact .inl rfl
  · exact .inr hgateway

private lemma mints_unknown {s : State} {facts : Facts} {predecessor : Option CertId} {host : String}
    (h : s.mints facts predecessor = some host) : s.register.hosts.lookup host = none := by
  unfold mints at h
  split at h
  · split at h
    next hnone =>
      cases h
      exact isNone_iff_eq_none.mp hnone
    · cases h
  · cases h

private lemma seeHost_sound (h : s.register.Sound) (facts : Facts) {mint : Option String}
    (hmint : ∀ host, mint = some host → s.register.hosts.lookup host = none) :
      (s.seeHost facts mint).1.register.Sound := by
  unfold seeHost
  split
  · exact sound_minted h (hmint _ rfl) rfl
  next host _ =>
    exact h.congr (fun _ => by rw [Register.owners_modify]) (marks_extend s.register host facts.notAfterMs)
  · exact h

private lemma recordWith_sound (h : s.register.Sound) (byAct : Bool) (now : Nat) (facts : Facts) (instanceUid : String)
    (predecessor bootstrap : Option CertId) (io : RecordIo) :
    (s.recordWith byAct now facts instanceUid predecessor bootstrap io).1.register.Sound ∧
      ∀ version, (s.recordWith byAct now facts instanceUid predecessor bootstrap io).2.2 = some version →
        HeldOnce version.2 := by
  have hbuilt : (if bootstrap.isSome then s.built else s).register.Sound := by
    split <;> exact h
  unfold recordWith
  simp only
  generalize (if bootstrap.isSome then s.built else s) = b at hbuilt
  split
  · exact ⟨hbuilt, fun _ hnone => by cases hnone⟩
  obtain ⟨hpruned, hversion⟩ := b.prune_register byAct now io.prune
  have hhosts := pruneHosts_sound hbuilt now
  have hsound : (b.prune byAct now io.prune).1.register.Sound := by
    rcases hpruned with hregister | hregister
    · exact hregister ▸ hbuilt
    · exact hregister ▸ hhosts
  split
  next t e heq =>
    rw [heq] at hsound
    exact ⟨hsound, fun _ hnone => by cases hnone⟩
  rename_i t forgotten heq
  rw [heq] at hsound hversion
  have hforgotten : ∀ version, forgotten = some version → HeldOnce version.2 := by
    intro version hsome
    rw [hversion version (by rw [hsome])]
    exact hhosts.heldOnce
  have hregister := t.admitIssued_register now facts instanceUid predecessor io.registered
  split
  next u e heq =>
    rw [heq] at hregister
    have hregister : u.register = t.register := hregister
    refine ⟨hregister ▸ hsound, fun version hsome => ?_⟩
    cases byAct with
    | true => cases hsome
    | false => exact hforgotten version hsome
  next u heq =>
    rw [heq] at hregister
    have hregister : u.register = t.register := hregister
    have hseen : (u.seeHost facts (t.mints facts predecessor)).1.register.Sound := by
      refine seeHost_sound (hregister ▸ hsound) facts fun host hmint => ?_
      rw [hregister]
      exact mints_unknown hmint
    split
    · exact ⟨hseen, fun _ hnone => by cases hnone⟩
    · split
      · exact ⟨hseen, fun version hsome => by cases hsome; exact hseen.heldOnce⟩
      · exact ⟨hseen, hforgotten⟩

end Revocations.State

/-! ### The system -/

namespace FsLedgerStore

private lemma saveHosts_nil (written hosts : Map String Host) : (saveHosts [] written hosts).2 = true := by
  have hreplace : ∀ names written, (replaceFiles [] hosts names written).2 = true := by
    intro names
    induction names with
    | nil => exact fun _ => rfl
    | cons name names ih =>
      intro written
      unfold replaceFiles
      split
      · exact ih written
      · split
        · exact ih written
        · exact ih _
  have hremove : ∀ names written, (removeFiles [] names written).2 = true := by
    intro names
    induction names with
    | nil => exact fun _ => rfl
    | cons name names ih => exact fun written => ih _
  have hreplaced := hreplace hosts.sortedKeys written
  unfold saveHosts
  split
  next heq =>
    simp [heq] at hreplaced
  · exact hremove _ _

end FsLedgerStore

private lemma HeldOnce.congr {hosts hosts' : Map String Host} (h : HeldOnce hosts)
    (hlookup : ∀ name, hosts'.lookup name = hosts.lookup name) : HeldOnce hosts' := by
  intro uid a b ha hb
  exact h uid a b ((holds_congr (marks_congr (hlookup a)) uid).mp ha)
    ((holds_congr (marks_congr (hlookup b)) uid).mp hb)

namespace HostLedger

def Act.succeeds : Act → Bool
  | .write _ failing => failing.isEmpty
  | _ => true

def binds (s : HostLedger) (host uid : String) : Bool :=
  match s.register.admits host uid with
  | .ok true => true
  | _ => false

open FsLedgerStore

/-- A report that binds, and a move of a binding, are made only when the Hosts as last written hold each `instance_uid`
they are about for the Host that memory does. -/
def agreed (s : HostLedger) : Act → Bool
  | .checkReport host _ _ uid => !s.binds host uid || unbind s.written uid = s.register.owners.lookup uid
  | .rebind old new =>
    unbind s.written old = s.register.owners.lookup old &&
      unbind s.written new = s.register.owners.lookup new
  | _ => true

structure IsSound (s : HostLedger) : Prop where
  memory : s.register.Sound
  written : HeldOnce s.written
  pending : ∀ w ∈ s.pending, HeldOnce w.hosts

variable {s t : HostLedger}

private lemma isSound_withRegister (h : s.IsSound) {register : Register} (hsound : register.Sound) :
    (s.withRegister register).IsSound :=
  ⟨hsound, h.written, h.pending⟩

private lemma isSound_dueBy (h : s.IsSound) (ms : Nat) : (s.dueBy ms).IsSound := { h with }

private lemma pending_append {pending : List HostsWrite} (h : ∀ w ∈ pending, HeldOnce w.hosts) {w : HostsWrite}
    (hw : HeldOnce w.hosts) : ∀ v ∈ pending ++ [w], HeldOnce v.hosts :=
  forall_mem_append.mpr ⟨h, forall_mem_singleton.mpr hw⟩

private lemma isSound_save (h : s.IsSound) (report : Option (String × String)) : (s.save report).IsSound :=
  ⟨h.memory, h.written, pending_append h.pending h.memory.heldOnce⟩

variable {host uid : String} {subject : Map String String} {notAfterMs : Nat}

private lemma bind_of_agreed (h : s.IsSound)
    (hagreed : s.binds host uid = true → unbind s.written uid = s.register.owners.lookup uid)
    (hadmits : s.register.admits host uid = .ok true) : bind s.written uid host = .bound := by
  have hnone : s.register.owners.lookup uid = none := by
    rw [eq_none_iff_forall_not_mem]
    intro owner howner
    have hgateway := (Register.admits_eq_true hadmits).2.2 owner howner
    simp [h.memory.not_gateway howner] at hgateway
  have hunbind := hagreed (by rw [binds, hadmits])
  rw [hnone, unbind_eq_none_iff] at hunbind
  rcases bind_cases s.written uid host with ⟨hbind, -⟩ | ⟨holder, -, -, hholds⟩
  · exact hbind
  · exact absurd hholds (hunbind holder)

private lemma agreed_checkReport (h : s.agreed (.checkReport host subject notAfterMs uid) = true) :
    s.binds host uid = true → unbind s.written uid = s.register.owners.lookup uid := by
  intro hbinds
  simpa [agreed, hbinds] using h

private lemma isSound_checkReport (h : s.IsSound)
    (hagreed : s.agreed (.checkReport host subject notAfterMs uid) = true) :
    (s.checkReport host subject notAfterMs uid).IsSound := by
  have hsound := h.memory.report (bind_of_agreed h (agreed_checkReport hagreed)) subject notAfterMs
  unfold checkReport
  split
  next heq =>
    rw [heq] at hsound
    exact isSound_withRegister h hsound
  rename_i register changed extended heq
  rw [heq] at hsound
  have hdue : (if extended then (s.withRegister register).dueBy notAfterMs else s.withRegister register).IsSound := by
    split
    · exact isSound_dueBy (isSound_withRegister h hsound) notAfterMs
    · exact isSound_withRegister h hsound
  simp only
  split
  · exact isSound_save hdue _
  · exact { hdue with }

private lemma isSound_rebind (h : s.IsSound) {old new : String} (hagreed : s.agreed (.rebind old new) = true) :
    (s.rebind old new).IsSound := by
  simp only [agreed, Bool.and_eq_true, decide_eq_true_eq] at hagreed
  obtain ⟨hold, hnew⟩ := hagreed
  have hsound : (s.register.move (s.moveIo old new) old new).1.Sound := by
    refine h.memory.move (fun host => FsLedgerStore.bind s.written new host) ?_ fun host howner => ?_
    · rw [moveIo, FsLedgerStore.rebind, hold]
    rcases FsLedgerStore.bind_cases s.written new host with ⟨hbind, hnone⟩ | ⟨holder, hbind, hne, hholds⟩
    · refine .inl ⟨hbind, fun other hother => ?_⟩
      by_contra hother'
      rw [hother] at hnew
      exact hnone other hother' (FsLedgerStore.holds_of_unbind hnew)
    · refine .inr ⟨holder, hbind, hne, ?_⟩
      -- the one Host that holds it on disk is the one memory says
      rw [← hnew]
      cases hunbind : FsLedgerStore.unbind s.written new with
      | none => exact absurd hholds (FsLedgerStore.unbind_eq_none_iff.mp hunbind holder)
      | some other => rw [h.written new other holder (FsLedgerStore.holds_of_unbind hunbind) hholds]
  unfold rebind
  split
  next heq =>
    rw [heq] at hsound
    exact isSound_save (isSound_withRegister h hsound) none
  next heq =>
    rw [heq] at hsound
    exact isSound_withRegister h hsound

private lemma isSound_write (h : s.IsSound) {n : Nat} (hstep : s.write n [] = some t) : t.IsSound := by
  have hpending : ∀ w ∈ s.pending.eraseIdx n, HeldOnce w.hosts := fun w hw => h.pending w (mem_of_mem_eraseIdx hw)
  unfold HostLedger.write at hstep
  split at hstep
  · cases hstep
  rename_i w hw
  have hwrite := h.pending w (mem_of_getElem? hw)
  have hok := saveHosts_nil s.written w.hosts
  have hlookup := saveHosts_lookup [] s.written w.hosts
  simp only at hstep
  split at hstep
  · cases hstep
    exact ⟨h.memory, h.written, hpending⟩
  split at hstep
  next heq =>
    rw [heq] at hlookup
    cases hstep
    exact ⟨h.memory, hwrite.congr fun name => (hlookup name).2 rfl, hpending⟩
  next heq =>
    simp [heq] at hok

private lemma isSound_step {a : Act} (h : s.IsSound) (hok : a.succeeds = true) (hagreed : s.agreed a = true)
    (hstep : s.step a = some t) : t.IsSound := by
  cases a with
  | checkReport host subject notAfterMs uid =>
    cases hstep
    exact isSound_checkReport h hagreed
  | release uid =>
    cases hstep
    exact isSound_save (isSound_withRegister h (h.memory.release _ uid)) none
  | rebind old new =>
    cases hstep
    exact isSound_rebind h hagreed
  | setGateway host gateway =>
    cases hstep
    unfold HostLedger.setGateway
    simp only
    split
    · have hmarked := isSound_withRegister h (h.memory.setGateway host gateway)
      split
      · exact isSound_save hmarked none
      · exact isSound_save (isSound_dueBy hmarked _) none
    · exact h
  | record now facts instanceUid predecessor bootstrap io =>
    cases hstep
    obtain ⟨hsound, hversion⟩ := State.recordWith_sound h.memory false now facts instanceUid predecessor bootstrap io
    unfold HostLedger.record
    split
    next heq =>
      rw [heq] at hsound
      exact ⟨hsound, h.written, h.pending⟩
    next version hosts heq =>
      rw [heq] at hsound hversion
      exact ⟨hsound, h.written, pending_append h.pending (hversion _ rfl)⟩
  | write n failing =>
    rw [List.isEmpty_iff.mp hok] at hstep
    exact isSound_write h hstep

private lemma isSound_of_reach {ledger : Ledger} (hledger : (opened ledger).register.Sound)
    (h : Reach (opened ledger) (restrict (fun s a => (Act.succeeds a && s.agreed a) = true) step) s) : s.IsSound := by
  have hopened : (opened ledger).IsSound := by
    refine ⟨hledger, ?_, fun w hw => by cases hw⟩
    have hregister : (opened ledger).register = ⟨ledger.hosts, ownersOf ledger.hosts⟩ :=
      (State.loaded_frame ledger).2.2.2.1
    rw [hregister] at hledger
    exact hledger.heldOnce
  refine h.invariant_restrict hopened ?_
  intro s a t hinv hok hstep
  rw [Bool.and_eq_true] at hok
  exact isSound_step hinv hok.1 hok.2 hstep

private lemma owner_checkReport (h : s.IsSound)
    (hfree : ∀ name, uid ∉ listed s.register.hosts name) (hmark : s.register.isGateway host = false)
    (hroom : (listed s.register.hosts host).card < maxUidsPerHost)
    (hagreed : s.agreed (.checkReport host subject notAfterMs uid) = true) :
    (s.checkReport host subject notAfterMs uid).register.owners.lookup uid = some host := by
  have howner : s.register.owners.lookup uid = none := by
    rw [eq_none_iff_forall_not_mem]
    intro owner howner
    exact hfree owner ((h.memory.owners uid owner).mp howner)
  have hadmits := Register.admits_of_free howner hmark hroom
  obtain ⟨extended, heq⟩ := Register.report_bound hadmits subject notAfterMs
  have hbind := bind_of_agreed h (agreed_checkReport hagreed) hadmits
  have hbound : ((s.register.bindTo host uid subject).modify host fun entry =>
    (entry.extend notAfterMs).1).owners.lookup uid =
      some host := by
    rw [Register.owners_modify]
    exact AList.lookup_insert _
  unfold checkReport
  rw [hbind, heq]
  cases extended <;> exact hbound

end HostLedger

/-- In a run whose writes succeed, over a ledger that is sound, in which each report that binds and each move of a
binding is made where the Hosts as last written agree with memory about its `instance_uid`s: owners and the Hosts
agree, no Gateway's Host lists any, and none lists too many; and an `instance_uid` that no Host lists is bound by the
next that reports it. -/
theorem hosts_stay_sound {ledger : Ledger} (hledger : (HostLedger.opened ledger).register.Sound) {s : HostLedger}
    (h : Reach (HostLedger.opened ledger)
      (restrict (fun s a => (HostLedger.Act.succeeds a && s.agreed a) = true) HostLedger.step) s) :
    s.register.Sound ∧
      ∀ host uid subject notAfterMs, (∀ name, uid ∉ listed s.register.hosts name) → s.register.isGateway host = false →
        (listed s.register.hosts host).card < maxUidsPerHost →
        s.agreed (.checkReport host subject notAfterMs uid) = true →
        (s.checkReport host subject notAfterMs uid).register.owners.lookup uid = some host := by
  have hsound := HostLedger.isSound_of_reach hledger h
  exact ⟨hsound.memory, fun host uid subject notAfterMs => HostLedger.owner_checkReport hsound⟩

private lemma sound_empty : (HostLedger.opened .empty).register.Sound := by
  have hlisted : ∀ name, listed (HostLedger.opened .empty).register.hosts name = ∅ := fun _ => rfl
  refine ⟨fun uid host => ?_, fun host _ => hlisted host, fun host => ?_⟩
  · rw [hlisted]
    exact iff_of_false nofun (notMem_empty _)
  · rw [hlisted]
    exact Nat.zero_le _

/-- The `instance_uid` `01` is released and bound to `b`. -/
theorem hosts_stay_sound_released : ∃ s, Reach (HostLedger.opened .empty)
    (restrict (fun s a => (HostLedger.Act.succeeds a && s.agreed a) = true) HostLedger.step) s ∧
      s.register.Sound ∧ s.register.owners.lookup "01" = some "b" := by
  refine Reach.exists_of_run_imp (p := fun s => s.register.owners.lookup "01" = some "b")
    [.checkReport "a" ∅ 10 "01", .write 0 [], .release "01", .write 0 [], .checkReport "b" ∅ 10 "01"]
    (by decide +kernel) ?_
  intro s hreach howner
  exact ⟨(hosts_stay_sound sound_empty hreach).1, howner⟩

/-- A host is marked as a Gateway, and before that is written another reports an Agent that was bound to it. -/
theorem gateway_lists_again : ∃ s, Reach (HostLedger.opened .empty)
    (restrict (fun _ a => HostLedger.Act.succeeds a = true) HostLedger.step) s ∧
      s.register.isGateway "a" = true ∧ "01" ∈ listed s.register.hosts "a" := by
  exact Reach.exists_of_run
    [.checkReport "a" ∅ 10 "01", .write 0 [], .setGateway "a" true, .checkReport "b" ∅ 10 "01"] (by decide +kernel)

end OpampFleet.Server
