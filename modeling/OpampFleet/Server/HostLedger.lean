import OpampFleet.Lib.Transition
import OpampFleet.Server.Revocations

/-!
# The Hosts in memory and on disk

An act on the Hosts changes them in memory under the lock and writes them once the lock is released, so other acts fall
in between. The model takes these two halves as steps of their own: an act leaves a write behind, and any of the writes
left may run next. The filesystem store keeps one file for each Host, and answers who holds an `instance_uid` from the
Hosts as last written.
-/

namespace OpampFleet.Server

open Lib Revocations List Map Register Option

instance : DecidableEq Host := fun a b =>
  decidable_of_iff (a.gateway = b.gateway ∧ a.instanceUids = b.instanceUids ∧ a.subject = b.subject ∧
    a.validUntilMs = b.validUntilMs) (by cases a; cases b; simp)

/-- A Host that holds the `instance_uid`; a Gateway's is bound none, whatever its file lists. -/
def Host.holds (uid : String) (host : Host) : Bool := !host.gateway && uid ∈ host.instanceUids

def marks (hosts : Map String Host) (host : String) : Option (Bool × Finset String) :=
  (hosts.lookup host).map fun entry => (entry.gateway, entry.instanceUids)

def Holds (hosts : Map String Host) (host uid : String) : Prop :=
    ∃ uids, marks hosts host = some (false, uids) ∧ uid ∈ uids

variable {hosts : Map String Host} {host : String}

lemma holds_iff {uid : String} : Holds hosts host uid ↔ (hosts.lookup host).any (Host.holds uid) = true := by
  unfold Holds marks Host.holds
  simp only [Option.map_eq_some_iff, Option.any_eq_true, Bool.and_eq_true, Bool.not_eq_true', decide_eq_true_eq,
    Prod.mk.injEq]
  constructor
  · rintro ⟨uids, ⟨entry, hentry, hgateway, rfl⟩, huid⟩
    exact ⟨entry, hentry, hgateway, huid⟩
  · rintro ⟨entry, hentry, hgateway, huid⟩
    exact ⟨_, ⟨entry, hentry, hgateway, rfl⟩, huid⟩

lemma holds_congr {hosts' : Map String Host} (h : marks hosts' host = marks hosts host)
    (uid : String) : Holds hosts' host uid ↔ Holds hosts host uid := by
  unfold Holds
  rw [h]

lemma marks_congr {hosts' : Map String Host} (h : hosts'.lookup host = hosts.lookup host) :
    marks hosts' host = marks hosts host := by
  unfold marks
  rw [h]

lemma isGateway_eq (register : Register) (host : String) :
    register.isGateway host = (marks register.hosts host).any Prod.fst := by
  unfold isGateway marks
  rw [Option.any_map]

namespace FsLedgerStore

variable (written : Map String Host)

def bind (uid host : String) : Bound :=
  match written.sortedKeys.find? fun name => name ≠ host && (written.lookup name).any (Host.holds uid) with
  | some holder => .taken holder
  | none => .bound

def unbind (uid : String) : Option String :=
  written.sortedKeys.find? fun name => (written.lookup name).any (Host.holds uid)

def rebind (old new : String) : Option (String × Bound) :=
  (unbind written old).map fun host => (host, bind written new host)

def replaceFiles (failing : List String) (hosts : Map String Host) :
    List String → Map String Host → Map String Host × Bool
  | [], written => (written, true)
  | name :: names, written =>
    match hosts.lookup name with
    | none => replaceFiles failing hosts names written
    | some entry =>
      if written.lookup name = some entry then replaceFiles failing hosts names written
      else if name ∈ failing then (written, false)
      else replaceFiles failing hosts names (written.insert name entry)

def removeFiles (failing : List String) : List String → Map String Host → Map String Host × Bool
  | [], written => (written, true)
  | name :: names, written =>
    if name ∈ failing then (written, false) else removeFiles failing names (written.erase name)

def saveHosts (failing : List String) (written hosts : Map String Host) : Map String Host × Bool :=
  match replaceFiles failing hosts hosts.sortedKeys written with
  | (written, false) => (written, false)
  | (written, true) => removeFiles failing (written.sortedKeys.filter fun name => (hosts.lookup name).isNone) written

section

variable {written hosts : Map String Host} {uid host holder : String} (failing : List String)

private lemma mem_sortedKeys_of_holds (h : Holds written holder uid) : holder ∈ written.sortedKeys := by
  obtain ⟨entry, hentry, -⟩ := (any_eq_true _ _).mp (holds_iff.mp h)
  rw [mem_sortedKeys, hentry]
  rfl

/-- A binding is refused exactly for another holder on disk. -/
lemma bind_cases (written : Map String Host) (uid host : String) :
    bind written uid host = .bound ∧ (∀ name, name ≠ host → ¬Holds written name uid) ∨
      ∃ holder, bind written uid host = .taken holder ∧ holder ≠ host ∧ Holds written holder uid := by
  unfold bind
  split
  next name hname =>
    have hfound := find?_some hname
    rw [Bool.and_eq_true, decide_eq_true_eq] at hfound
    exact .inr ⟨name, rfl, hfound.1, holds_iff.mpr hfound.2⟩
  next hnone =>
    refine .inl ⟨rfl, fun name hne hholds => ?_⟩
    refine find?_eq_none.mp hnone name (mem_sortedKeys_of_holds hholds) ?_
    rw [Bool.and_eq_true, decide_eq_true_eq]
    exact ⟨hne, holds_iff.mp hholds⟩

lemma unbind_eq_none_iff : unbind written uid = none ↔ ∀ name, ¬Holds written name uid := by
  unfold unbind
  rw [find?_eq_none]
  constructor
  · intro h name hholds
    exact h name (mem_sortedKeys_of_holds hholds) (holds_iff.mp hholds)
  · intro h name _ hholds
    exact h name (holds_iff.mpr hholds)

lemma holds_of_unbind (h : unbind written uid = some holder) : Holds written holder uid := by
  have hfound := find?_some h
  exact holds_iff.mpr hfound

private lemma replaceFiles_lookup (hosts : Map String Host) (names : List String)
    (written : Map String Host) (name : String) :
    ((replaceFiles failing hosts names written).1.lookup name = written.lookup name ∨
        (replaceFiles failing hosts names written).1.lookup name = hosts.lookup name) ∧
      ((replaceFiles failing hosts names written).2 = true → (hosts.lookup name).isSome →
        name ∈ names ∨ written.lookup name = hosts.lookup name →
        (replaceFiles failing hosts names written).1.lookup name = hosts.lookup name) := by
  induction names generalizing written with
  | nil => exact ⟨.inl rfl, fun _ _ h => h.resolve_left not_mem_nil⟩
  | cons first names ih =>
    unfold replaceFiles
    split
    next hnone =>
      refine ⟨(ih written).1, fun hok hsome h => (ih written).2 hok hsome ?_⟩
      refine h.imp_left fun hmem => (mem_cons.mp hmem).resolve_left ?_
      rintro rfl
      simp [hnone] at hsome
    rename_i entry hentry
    split
    · -- a file that holds the Host already
      rename_i hsame
      refine ⟨(ih written).1, fun hok hsome h => (ih written).2 hok hsome ?_⟩
      rcases h with hmem | h
      · rcases mem_cons.mp hmem with rfl | hmem
        · exact .inr (hsame.trans hentry.symm)
        · exact .inl hmem
      · exact .inr h
    · split
      · exact ⟨.inl rfl, nofun⟩
      have hinsert := lookup_insert_ite written name first entry
      obtain ⟨hlookup, hdone⟩ := ih (written.insert first entry)
      rw [hinsert] at hlookup hdone
      by_cases hname : name = first
      · subst hname
        rw [if_pos rfl] at hlookup hdone
        exact ⟨.inr (hlookup.elim (fun h => h.trans hentry.symm) id), fun hok hsome _ =>
          hdone hok hsome (.inr hentry.symm)⟩
      · rw [if_neg hname] at hlookup hdone
        exact ⟨hlookup, fun hok hsome h =>
          hdone hok hsome (h.imp_left fun hmem => (mem_cons.mp hmem).resolve_left hname)⟩

private lemma removeFiles_lookup (names : List String) (written : Map String Host) (name : String) :
    ((removeFiles failing names written).1.lookup name = written.lookup name ∨
        name ∈ names ∧ (removeFiles failing names written).1.lookup name = none) ∧
      ((removeFiles failing names written).2 = true → name ∈ names →
        (removeFiles failing names written).1.lookup name = none) := by
  induction names generalizing written with
  | nil => exact ⟨.inl rfl, fun _ h => absurd h not_mem_nil⟩
  | cons first names ih =>
    unfold removeFiles
    split
    · exact ⟨.inl rfl, nofun⟩
    have herase := lookup_erase_ite written name first
    obtain ⟨hlookup, hdone⟩ := ih (written.erase first)
    rw [herase] at hlookup
    by_cases hname : name = first
    · subst hname
      rw [if_pos rfl] at hlookup
      have hnone := hlookup.elim id And.right
      exact ⟨.inr ⟨mem_cons_self .., hnone⟩, fun _ _ => hnone⟩
    · rw [if_neg hname] at hlookup
      refine ⟨hlookup.imp_right fun h => ⟨mem_cons_of_mem _ h.1, h.2⟩, fun hok hmem => ?_⟩
      exact hdone hok ((mem_cons.mp hmem).resolve_left hname)

/-- A write leaves each Host as it was or as memory has it. -/
lemma saveHosts_lookup (written hosts : Map String Host) (name : String) :
    ((saveHosts failing written hosts).1.lookup name = written.lookup name ∨
        (saveHosts failing written hosts).1.lookup name = hosts.lookup name) ∧
      ((saveHosts failing written hosts).2 = true → (saveHosts failing written hosts).1.lookup name =
        hosts.lookup name) := by
  obtain ⟨hreplaced, hdone⟩ := replaceFiles_lookup failing hosts hosts.sortedKeys written name
  unfold saveHosts
  split
  next heq =>
    rw [heq] at hreplaced
    exact ⟨hreplaced, nofun⟩
  rename_i replaced heq
  rw [heq] at hreplaced hdone
  have hdone : (hosts.lookup name).isSome → replaced.lookup name = hosts.lookup name :=
    fun hsome => hdone rfl hsome (.inl (mem_sortedKeys.mpr hsome))
  have hgone : name ∈ replaced.sortedKeys.filter (fun name => (hosts.lookup name).isNone) ↔
      (replaced.lookup name).isSome ∧ hosts.lookup name = none := by
    rw [mem_filter, mem_sortedKeys, isNone_iff_eq_none]
  obtain ⟨hlookup, hremoved⟩ :=
    removeFiles_lookup failing (replaced.sortedKeys.filter fun name => (hosts.lookup name).isNone) replaced name
  constructor
  · rcases hlookup with hsame | ⟨hmem, hnone⟩
    · rwa [hsame]
    · exact .inr (hnone.trans (hgone.mp hmem).2.symm)
  · intro hok
    cases hhost : hosts.lookup name with
    | some entry =>
      rcases hlookup with hsame | ⟨hmem, -⟩
      · rw [hsame, hdone (by rw [hhost]; rfl), hhost]
      · simp [(hgone.mp hmem).2] at hhost
    | none =>
      cases hheld : replaced.lookup name with
      | none => exact hlookup.elim (fun h => h.trans hheld) And.right
      | some entry => exact hremoved hok (hgone.mpr ⟨by rw [hheld]; rfl, hhost⟩)

end

end FsLedgerStore

structure HostsWrite where
  version : Nat
  hosts : Map String Host
  report : Option (String × String)

structure HostLedger where
  state : Revocations.State
  written : Map String Host
  writtenVersion : Nat
  pending : List HostsWrite
  admitted : List (String × String)

namespace HostLedger

def opened (ledger : Ledger) : HostLedger where
  state := State.loaded ledger
  written := ledger.hosts
  writtenVersion := 0
  pending := []
  admitted := []

def register (s : HostLedger) : Register := s.state.register

variable (s : HostLedger)

def withRegister (register : Register) : HostLedger :=
  { s with state := { s.state with register := register } }

def save (report : Option (String × String)) : HostLedger :=
  let (state, version, hosts) := s.state.hostsChanged
  { s with state := state, pending := s.pending ++ [⟨version, hosts, report⟩] }

def answer (report : Option (String × String)) : HostLedger :=
  { s with admitted := report.elim s.admitted fun report => report :: s.admitted }

def dueBy (ms : Nat) : HostLedger :=
  { s with state := { s.state with earliestExpiryMs := min s.state.earliestExpiryMs ms } }

open FsLedgerStore

def checkReport (host : String) (subject : Map String String) (notAfterMs : Nat) (uid : String) : HostLedger :=
  match s.register.report (.ok (bind s.written uid host)) host subject notAfterMs uid with
  | (register, .error _) => s.withRegister register
  | (register, .ok (changed, extended)) =>
    let s := s.withRegister register
    let s := if extended then s.dueBy notAfterMs else s
    if changed then s.save (some (host, uid)) else s.answer (some (host, uid))

def release (s : HostLedger) (uid : String) : HostLedger :=
  (s.withRegister (s.register.release (unbind s.written uid) uid)).save none

def moveIo (old new : String) : LedgerIo where
  byAct := false
  bound := .ok ((s.register.owners.lookup old).elim .bound fun host => bind s.written new host)
  rebound := .ok (rebind s.written old new)
  written := .ok ()

def rebind (old new : String) : HostLedger :=
  match s.register.move (s.moveIo old new) old new with
  | (register, .ok true) => (s.withRegister register).save none
  | (register, _) => s.withRegister register

def setGateway (s : HostLedger) (host : String) (gateway : Bool) : HostLedger :=
  let known := (s.register.hosts.lookup host).isSome || s.state.issued.values.any fun entry =>
    entry.facts.host = some host
  if known then
    let register := s.register.setGateway host gateway
    let s := s.withRegister register
    let s := if gateway then s else s.dueBy (((register.hosts.lookup host).bind Host.validUntilMs).getD 0)
    s.save none
  else s

def record (now : Nat) (facts : Facts) (instanceUid : String) (predecessor bootstrap : Option CertId)
    (io : State.RecordIo) : HostLedger :=
  match s.state.recordWith false now facts instanceUid predecessor bootstrap io with
  | (state, _, none) => { s with state := state }
  | (state, _, some (version, hosts)) => { s with state := state, pending := s.pending ++ [⟨version, hosts, none⟩] }

/-- One of the writes left: nothing is to be done once a later version is written. -/
def write (s : HostLedger) (n : Nat) (failing : List String) : Option HostLedger :=
  match s.pending[n]? with
  | none => none
  | some write =>
    let s := { s with pending := s.pending.eraseIdx n }
    if write.version ≤ s.writtenVersion then some (s.answer write.report)
    else
      match saveHosts failing s.written write.hosts with
      | (written, true) =>
        some (({ s with written := written, writtenVersion := write.version } : HostLedger).answer write.report)
      | (written, false) => some { s with written := written }

inductive Act where
  | checkReport (host : String) (subject : Map String String) (notAfterMs : Nat) (uid : String)
  | release (uid : String)
  | rebind (old new : String)
  | setGateway (host : String) (gateway : Bool)
  | record (now : Nat) (facts : Facts) (instanceUid : String) (predecessor bootstrap : Option CertId)
      (io : State.RecordIo)
  | write (n : Nat) (failing : List String)

def step : Act → Option HostLedger
  | .checkReport host subject notAfterMs uid => some (s.checkReport host subject notAfterMs uid)
  | .release uid => some (s.release uid)
  | .rebind old new => some (s.rebind old new)
  | .setGateway host gateway => some (s.setGateway host gateway)
  | .record now facts instanceUid predecessor bootstrap io =>
    some (s.record now facts instanceUid predecessor bootstrap io)
  | .write n failing => s.write n failing

def released (uid : String) (saved : Except String Unit) : Register × Except String Unit :=
  ((s.release uid).register, saved)

def rebound (old new : String) (saved : Except String Unit) : Register × Except String Unit :=
  s.register.rebind { s.moveIo old new with written := saved } old new

def SameBindings (before after : Register) : Prop :=
  (∀ uid, after.owners.lookup uid = before.owners.lookup uid) ∧
    ∀ host, after.hosts.lookup host = before.hosts.lookup host

/-- Memory binds the `instance_uid` to no Host, and the Host it was last written for does not list it there. -/
def FreedInMemory (uid : String) : Prop :=
  s.register.owners.lookup uid = none ∧ ∀ host ∈ unbind s.written uid,
    ∀ entry ∈ s.register.hosts.lookup host, uid ∉ entry.instanceUids

/-- Memory has freed `old`, and binds `new` to the Host that the store answers for it and lists it there. -/
def MovedInMemory (old new : String) : Prop :=
  s.FreedInMemory old ∧ ∀ host ∈ unbind s.written old,
    s.register.owners.lookup new = some ((bind s.written new host).holder host) ∧
      ∀ entry ∈ s.register.hosts.lookup ((bind s.written new host).holder host), new ∈ entry.instanceUids

section

variable {register : Register} {uid old new host owner : String}

private lemma same_modify_iff {change : Host → Host} :
    (∀ name, (register.modify host change).hosts.lookup name = register.hosts.lookup name) ↔
      ∀ entry ∈ register.hosts.lookup host, change entry = entry := by
  simp only [lookup_modify]
  constructor
  · intro h entry hentry
    have hhost := h host
    rw [if_pos rfl, mem_def.mp hentry] at hhost
    exact some.inj hhost
  · intro h name
    split
    next heq =>
      subst heq
      exact (map_congr h).trans map_id'
    · rfl

private lemma same_freed_iff {holder : Option String} :
    (∀ name, (register.freed uid holder).hosts.lookup name = register.hosts.lookup name) ↔
      ∀ host ∈ holder, ∀ entry ∈ register.hosts.lookup host, uid ∉ entry.instanceUids := by
  cases holder with
  | none => simp [freed]
  | some host =>
    rw [freed, elim_some, same_modify_iff]
    simp only [mem_some_iff, forall_eq']
    exact forall₂_congr fun entry _ => by cases entry; simp

private lemma same_moved_iff (hnew : new ≠ old) :
    (∀ name, ((register.freed old (some host)).listing new owner).hosts.lookup name = register.hosts.lookup name) ↔
      (∀ entry ∈ register.hosts.lookup host, old ∉ entry.instanceUids) ∧
        ∀ entry ∈ register.hosts.lookup owner, new ∈ entry.instanceUids := by
  constructor
  · intro hsame
    refine ⟨fun entry hentry => ?_, fun entry hentry => ?_⟩
    · rw [← hsame, listing, lookup_modify] at hentry
      have hfreed : ∀ entry ∈ (register.freed old (some host)).hosts.lookup host, old ∉ entry.instanceUids := by
        intro entry hentry
        rw [freed, elim_some, lookup_modify, if_pos rfl] at hentry
        obtain ⟨_, -, rfl⟩ := map_eq_some_iff.mp hentry
        simp
      split at hentry
      next heq =>
        rw [← heq] at hentry
        obtain ⟨freed, hlookup, rfl⟩ := map_eq_some_iff.mp hentry
        simpa [hnew.symm] using hfreed freed hlookup
      · exact hfreed entry hentry
    · rw [← hsame, listing, lookup_modify, if_pos rfl] at hentry
      obtain ⟨_, -, rfl⟩ := map_eq_some_iff.mp hentry
      exact Finset.mem_insert_self ..
  · rintro ⟨hold, hlisted⟩ name
    have hfreed := same_freed_iff.mpr fun other (hother : other ∈ some host) => by
      cases hother
      exact hold
    refine (same_modify_iff.mpr (fun entry hentry => ?_) name).trans (hfreed name)
    rw [hfreed] at hentry
    rw [Finset.insert_eq_self.mpr (hlisted entry hentry)]

private lemma lookup_erase_of_none (hfree : register.owners.lookup uid = none) (other : String) :
    (register.owners.erase uid).lookup other = register.owners.lookup other := by
  rw [lookup_erase_ite]
  split
  next heq =>
    rw [heq, hfree]
  · rfl

private lemma sameBindings_release_iff {stored : Option String} :
    SameBindings register (register.release stored uid) ↔ register.owners.lookup uid = none ∧
      ∀ host ∈ stored, ∀ entry ∈ register.hosts.lookup host, uid ∉ entry.instanceUids := by
  cases hheld : register.owners.lookup uid with
  | some host =>
    refine iff_of_false (fun hsame => ?_) fun h => nomatch h.1
    have huid := hsame.1 uid
    cases stored <;> simp [Register.release, hheld, AList.lookup_erase] at huid
  | none =>
    rw [Register.release, hheld, Register.freed, elim_none, SameBindings, Register.owners_freed, same_freed_iff]
    simp [lookup_erase_of_none hheld]

private lemma moveTo_eq (register : Register) {found : Bound} (hfound : found ≠ .gateway) :
    (register.moveTo false new host found).1.owners = register.owners.insert new (found.holder host) ∧
      (register.moveTo false new host found).1.hosts = (register.listing new (found.holder host)).hosts := by
  cases found with
  | bound =>
    refine ⟨Register.owners_listing .., ?_⟩
    simp only [Register.moveTo, Register.takeUp, Bound.holder, Register.listing, Register.modify, if_true]
    split <;> rfl
  | taken holder => exact ⟨by simp [Register.moveTo, Register.takeUp, Bound.holder], rfl⟩
  | gateway => exact absurd rfl hfound

private lemma not_same_of_held {before after : Register} (hnew : new ≠ old)
    (howners : after.owners = register.owners.insert new owner)
    (herased : register.owners = before.owners.erase old) (hheld : before.owners.lookup old = some host) :
    ¬SameBindings before after := by
  intro hsame
  have hold := hsame.1 old
  simp [howners, herased, AList.lookup_insert_ne hnew.symm, AList.lookup_erase, hheld] at hold

private lemma same_owners_iff (hfree : register.owners.lookup old = none) :
    (∀ uid, ((register.owners.erase old).insert new owner).lookup uid = register.owners.lookup uid) ↔
      register.owners.lookup new = some owner := by
  simp only [lookup_insert_ite, lookup_erase_of_none hfree]
  constructor
  · intro h
    rw [← h new, if_pos rfl]
  · intro h uid
    split
    next heq =>
      rw [heq, h]
    · rfl

end

private lemma sameBindings_rebound_iff {old new : String} (hnew : new ≠ old) {saved : Except String Unit} :
    SameBindings s.register (s.rebound old new saved).1 ↔ s.MovedInMemory old new := by
  have hfound : ∀ host, FsLedgerStore.bind s.written new host ≠ .gateway := by
    intro host hgateway
    rcases FsLedgerStore.bind_cases s.written new host with ⟨hbound, -⟩ | ⟨holder, hbound, -⟩ <;>
      rw [hgateway] at hbound <;> cases hbound
  rw [rebound, rebind_fst, MovedInMemory, FreedInMemory]
  simp only [move, moveIo, FsLedgerStore.rebind]
  cases hstored : FsLedgerStore.unbind s.written old with
  | none =>
    cases hheld : s.register.owners.lookup old with
    | none => simp [SameBindings, freed, lookup_erase_of_none hheld]
    | some host =>
      simp only [map_none, elim_some, Bool.false_eq_true, if_false, Except.map]
      refine iff_of_false (not_same_of_held hnew (moveTo_eq _ (hfound host)).1 ?_ hheld) fun h => nomatch h.1.1
      rw [owners_freed, owners_freed]
  | some host =>
    simp only [map_some]
    cases hheld : s.register.owners.lookup old with
    | some held =>
      refine iff_of_false (not_same_of_held hnew (moveTo_eq _ (hfound host)).1 ?_ hheld) fun h => nomatch h.1.1
      rw [owners_freed, owners_freed]
    | none =>
      simp only [mem_some_iff, forall_eq', true_and]
      refine Iff.trans (and_congr ?_ ?_) and_left_comm
      · rw [(moveTo_eq _ (hfound host)).1, owners_freed, owners_freed]
        exact same_owners_iff hheld
      · rw [(moveTo_eq _ (hfound host)).2]
        exact same_moved_iff hnew

/-- A release and a move leave the bindings in memory as they are, when they answer an error, where memory has freed the
`instance_uid`, or moved it, already. -/
theorem failed_act_keeps_bindings_iff (s : HostLedger) {old new : String} (hnew : new ≠ old)
    (saved : Except String Unit) :
    ((s.released old saved).2.isOk = false →
        (SameBindings s.register (s.released old saved).1 ↔ s.FreedInMemory old)) ∧
      ((s.rebound old new saved).2.isOk = false →
        (SameBindings s.register (s.rebound old new saved).1 ↔ s.MovedInMemory old new)) :=
  ⟨fun _ => sameBindings_release_iff, fun _ => s.sameBindings_rebound_iff hnew⟩

def Small.bound : HostLedger := opened ⟨[], [], (∅ : Map String Host).insert "h" ⟨false, {"01"}, ∅, none⟩⟩

/-- The move of `01` is made in memory, and its write has not been made. -/
def Small.moved : HostLedger := bound.rebind "01" "02"

open Small

/-- Tried again and failing, the move and a release change nothing. -/
theorem failed_act_keeps_bindings_retried :
    SameBindings moved.register (moved.released "01" (.error "full")).1 ∧
      (moved.rebound "01" "02" (.error "full")).2.isOk = false ∧
      SameBindings moved.register (moved.rebound "01" "02" (.error "full")).1 := by
  have hfreed : moved.FreedInMemory "01" := show _ ∧ _ by decide +kernel
  have hmoved : moved.MovedInMemory "01" "02" := ⟨hfreed, by decide +kernel⟩
  have hfails : (moved.rebound "01" "02" (.error "full")).2.isOk = false := by decide +kernel
  obtain ⟨hreleased, hrebound⟩ := failed_act_keeps_bindings_iff moved (by decide : "02" ≠ "01") (.error "full")
  exact ⟨(hreleased rfl).mpr hfreed, hfails, (hrebound hfails).mpr hmoved⟩

/-- The write fails: the release and the move are answered an error, and are made in memory. -/
theorem failed_act_made_in_memory : bound.register.owners.lookup "01" = some "h" ∧
    (bound.released "01" (.error "full")).1.owners.lookup "01" = none ∧
    (bound.rebound "01" "02" (.error "full")).2.isOk = false ∧
    (bound.rebound "01" "02" (.error "full")).1.owners.lookup "01" = none ∧
    (bound.rebound "01" "02" (.error "full")).1.owners.lookup "02" = some "h" := by
  decide +kernel

end HostLedger

end OpampFleet.Server
