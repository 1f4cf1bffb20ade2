import OpampFleet.Server.SharedFleet

/-!
# The ledger of what was written

What the dirty check rests on: a digest in the ledger is that of a record whose reported part is the stored one. So when
it is the digest of what is held, the row says what was reported, and a report that the check lets pass has nothing to
write. The release of an assignment notes the digest of the whole record it holds, though it writes the assignment
alone; what a failed write left unwritten is then noted as written.
-/

namespace OpampFleet.Server

open Lib Opamp List Option Map

variable {P : Payloads} {δ : Type}

private lemma Rows.lookup_update (rows : Rows P) (uid : InstanceUid) (change : PersistedRecord P → PersistedRecord P)
    (u : InstanceUid) :
    (rows.update uid change).lookup u = if u = uid then (rows.lookup uid).map change else rows.lookup u := by
  unfold update
  cases h : rows.lookup uid with
  | none =>
    by_cases hu : u = uid
    · rwa [if_pos hu, hu]
    · rw [if_neg hu]
  | some row =>
    simp only [lookup_insert_ite]
    rfl

/-- Nothing of what a report decides changes from one state of the rows to the next, but for rows that go. -/
def Rows.Keeps (rows rows' : Rows P) : Prop :=
  ∀ uid row', rows'.lookup uid = some row' → ∃ row, rows.lookup uid = some row ∧ row.rest.reported = row'.rest.reported

namespace Rows.Keeps

private lemma refl (rows : Rows P) : rows.Keeps rows := fun _ row h => ⟨row, h, rfl⟩

private lemma trans {a b c : Rows P} (hab : a.Keeps b) (hbc : b.Keeps c) : a.Keeps c := by
  intro uid row h
  obtain ⟨row', h', he'⟩ := hbc uid row h
  obtain ⟨row'', h'', he''⟩ := hab uid row' h'
  exact ⟨row'', h'', he''.trans he'⟩

private lemma update (rows : Rows P) (uid : InstanceUid) {change : PersistedRecord P → PersistedRecord P}
    (h : ∀ row, (change row).rest.reported = row.rest.reported) : rows.Keeps (rows.update uid change) := by
  intro u row' hrow'
  rw [Rows.lookup_update] at hrow'
  split at hrow'
  · subst u
    obtain ⟨row, hrow, rfl⟩ := map_eq_some_iff.mp hrow'
    exact ⟨row, hrow, (h row).symm⟩
  · exact ⟨row', hrow', rfl⟩

private lemma erase (rows : Rows P) (uid : InstanceUid) : rows.Keeps (rows.erase uid) := by
  intro u row' hrow'
  rw [lookup_erase_ite] at hrow'
  split at hrow'
  · cases hrow'
  · exact ⟨row', hrow', rfl⟩

private lemma called {rows after : Rows P} (call : StoreCall) (h : rows.Keeps after) :
    rows.Keeps (rows.called call after) := by
  unfold Rows.called
  split
  · exact h
  · exact refl rows

end Rows.Keeps

namespace SharedFleet

variable {digest : PersistedRecord P → δ} {s : SharedFleet P δ}

/-- The ledger notes the digest of what a row says of the reports, of Agents that are held. -/
structure Kept (digest : PersistedRecord P → δ) (s : SharedFleet P δ) : Prop where
  held : ∀ uid d, s.written.lookup uid = some d → (s.fleet.lookup uid).isSome
  agrees : ∀ uid d row, s.written.lookup uid = some d → s.stored.lookup uid = some row →
    ∃ r, d = digest r ∧ r.rest.reported = row.rest.reported

namespace Kept

variable {uid : InstanceUid} {release : InstanceUid × Option Assignment} {reporter : Reporter}

open SharedFleet

private lemma isSome_hold (s : SharedFleet P δ) (uid : InstanceUid) (record : AgentRecord P) :
    ((s.hold uid record).fleet.lookup uid).isSome := by
  simp [hold]

private lemma unheld_holdFromStore {new : InstanceUid} (hne : new ≠ uid) (hnew : s.fleet.lookup new = none)
    (read : Option (PersistedRecord P)) : (s.holdFromStore digest read uid).fleet.lookup new = none := by
  unfold holdFromStore
  split
  · simpa only [load, lookup_insert_ite, if_neg hne] using hnew
  · exact hnew

private lemma isSome_takeRestart (call : StoreCall) (uid : InstanceUid) (record : AgentRecord P)
    (hheld : (s.fleet.lookup uid).isSome) : ((s.takeRestart call uid record).1.fleet.lookup uid).isSome := by
  unfold takeRestart
  cases call with
  | ok => simp [hold, unnote]
  | failed applied => exact hheld

private lemma stored_takeLabels (s : SharedFleet P δ) (uid : InstanceUid) (labels : Map String String) :
    (s.takeLabels uid labels).stored = s.stored := by
  unfold takeLabels
  split <;> rfl

section

variable (h : Kept digest s)
include h

/-! ### One part at a time -/

private lemma rows {rows : Rows P} (hkeeps : s.stored.Keeps rows) : Kept digest { s with stored := rows } := by
  refine ⟨h.held, fun uid d row' hd hrow' => ?_⟩
  obtain ⟨row, hrow, hreported⟩ := hkeeps uid row' hrow'
  obtain ⟨r, hr, he⟩ := h.agrees uid d row hd hrow
  exact ⟨r, hr, he.trans hreported⟩

private lemma hold (uid : InstanceUid) (record : AgentRecord P) : Kept digest (s.hold uid record) := by
  refine ⟨fun u d hd => ?_, h.agrees⟩
  unfold SharedFleet.hold
  rw [lookup_insert_ite]
  split
  · rfl
  · exact h.held u d hd

private lemma unnote (uid : InstanceUid) : Kept digest (s.unnote uid) := by
  have hwritten : ∀ u d, (s.written.erase uid).lookup u = some d → s.written.lookup u = some d := by
    intro u d hd
    exact lookup_of_erase hd
  exact ⟨fun u d hd => h.held u d (hwritten u d hd), fun u d row hd => h.agrees u d row (hwritten u d hd)⟩

private lemma dropForgotten (uid : InstanceUid) : Kept digest (s.dropForgotten uid) := by
  refine ⟨fun u d hd => ?_, (h.unnote uid).agrees⟩
  unfold SharedFleet.dropForgotten at hd ⊢
  rw [lookup_erase_ite] at hd ⊢
  split at hd
  · cases hd
  next hne =>
    rw [if_neg hne]
    exact h.held u d hd

private lemma note {r : PersistedRecord P} (hheld : (s.fleet.lookup uid).isSome)
    (hrow : ∀ row, s.stored.lookup uid = some row → r.rest.reported = row.rest.reported) :
    Kept digest { s with written := s.written.insert uid (digest r) } := by
  refine ⟨fun u d hd => ?_, fun u d row hd hlookup => ?_⟩
  · rcases lookup_of_insert hd with ⟨rfl, -⟩ | hd
    · exact hheld
    · exact h.held u d hd
  · rcases lookup_of_insert hd with ⟨rfl, rfl⟩ | hd
    · exact ⟨r, rfl, hrow row hlookup⟩
    · exact h.agrees u d row hd hlookup

private lemma row_of_not_held (hheld : s.fleet.lookup uid = none)
    (row : PersistedRecord P) : Kept digest { s with stored := s.stored.insert uid row } := by
  refine ⟨h.held, fun u d row' hd hrow' => ?_⟩
  rcases lookup_of_insert hrow' with ⟨rfl, -⟩ | hrow'
  · have hsome := h.held u d hd
    simp [hheld] at hsome
  · exact h.agrees u d row' hd hrow'

private lemma write {record : AgentRecord P} (hheld : (s.fleet.lookup uid).isSome) : Kept digest
      { s with
        stored := s.stored.update uid (writeReported record.toPersisted)
        written := s.written.insert uid (digest record.toPersisted) } := by
  -- Every other row stays; this one says what the record does.
  refine ⟨fun u d hd => ?_, fun u d row hd hrow => ?_⟩
  · rcases lookup_of_insert hd with ⟨rfl, -⟩ | hd
    · exact hheld
    · exact h.held u d hd
  simp only [lookup_insert_ite] at hd
  rw [Rows.lookup_update] at hrow
  split at hd
  next hu =>
    rw [if_pos hu] at hrow
    obtain ⟨old, -, rfl⟩ := map_eq_some_iff.mp hrow
    cases hd
    exact ⟨record.toPersisted, rfl, rfl⟩
  next hu =>
    rw [if_neg hu] at hrow
    exact h.agrees u d row hd hrow

/-! ### The acts -/

private lemma load {row : PersistedRecord P}
    (hrow : ∀ now, s.stored.lookup uid = some now → row.rest.reported = now.rest.reported) :
    Kept digest (s.load digest uid row) :=
  Kept.note (h.hold uid (.fromPersisted row)) (isSome_hold s uid _) hrow

private lemma holdFromStore {read : Option (PersistedRecord P)}
    (hread : s.fleet.lookup uid = none → ∀ row ∈ read, ∀ now,
    s.stored.lookup uid = some now → row.rest.reported = now.rest.reported) :
    Kept digest (s.holdFromStore digest read uid) := by
  unfold SharedFleet.holdFromStore
  split
  next row hheld =>
    exact h.load (hread hheld row rfl)
  · exact h

private lemma rekey_rows {old new : InstanceUid} (hnew : s.fleet.lookup new = none) :
    Kept digest { s with stored := s.stored.rekey old new } := by
  unfold Rows.rekey
  cases s.stored.lookup old with
  | none => exact h
  | some row =>
    exact (h.rows (Rows.Keeps.erase s.stored old)).row_of_not_held hnew row

private lemma move {old new : InstanceUid} (record : AgentRecord P) :
    Kept digest { s with fleet := (s.fleet.erase old).insert new record, written := s.written.erase old } :=
  (h.dropForgotten old).hold new record

private lemma rekey {old new : InstanceUid} (hnew : s.fleet.lookup new = none) (call : StoreCall) :
    Kept digest (s.rekey call old new).1 := by
  unfold SharedFleet.rekey
  cases s.fleet.lookup old with
  | none => exact h
  | some record =>
    cases call with
    | ok => exact (h.rekey_rows hnew).move record
    | failed applied =>
      cases applied with
      | false => exact h
      | true => exact h.rekey_rows hnew

private lemma settle (hnew : ∀ new ∈ reporter.uids, s.fleet.lookup new = none) (io : ReportIo P)
    (uid : InstanceUid) : Kept digest (s.settle io uid reporter).1 := by
  cases reporter with
  | reported | minted new => exact h
  | requested new duplicate => exact h.rekey (hnew new mem_cons_self) io.rekeyed

private lemma createWithin (io : ReportIo P) (uid : InstanceUid) (record : AgentRecord P) :
    Kept digest (s.createWithin digest io uid record).1 := by
  unfold SharedFleet.createWithin
  split
  · exact h
  rename_i hheld
  have hnone : s.fleet.lookup uid = none := not_isSome_iff_eq_none.mp hheld
  split
  next row _ hrow =>
    refine h.load fun now hnow => ?_
    rw [hrow] at hnow
    cases hnow
    rfl
  · split
    · exact (h.row_of_not_held hnone record.toPersisted).hold uid record
    · exact h
  · exact h
  · split
    · exact h.row_of_not_held hnone record.toPersisted
    · exact h

variable (call : StoreCall) (uid : InstanceUid)

private lemma uncreate : Kept digest (s.uncreate call uid) :=
  (h.dropForgotten uid).rows ((Rows.Keeps.erase s.stored uid).called call)

private lemma takeRestart (record : AgentRecord P) : Kept digest (s.takeRestart call uid record).1 := by
  have hkeeps : s.stored.Keeps (s.stored.called call (s.stored.update uid (writeRestart false))) :=
    .called call (.update s.stored uid fun _ => rfl)
  unfold SharedFleet.takeRestart
  cases call with
  | ok => exact ((h.hold uid _).unnote uid).rows hkeeps
  | failed applied => exact h.rows hkeeps

private lemma requestRestart : Kept digest (s.requestRestart call uid) := by
  have hkeeps : s.stored.Keeps (s.stored.called call (s.stored.update uid (writeRestart true))) :=
    .called call (.update s.stored uid fun _ => rfl)
  unfold SharedFleet.requestRestart
  split
  · exact h
  split
  · exact h
  · split
    · exact ((h.hold uid _).unnote uid).rows hkeeps
    · exact h.rows hkeeps

private lemma pushRestart : Kept digest (s.pushRestart call uid) := by
  unfold SharedFleet.pushRestart
  split
  · split
    · exact h.takeRestart call uid _
    · exact h
  · exact h

private lemma takeLabels (labels : Map String String) : Kept digest (s.takeLabels uid labels) := by
  unfold SharedFleet.takeLabels
  split
  · exact (h.hold uid _).unnote uid
  · exact h

private lemma setLabels (labels : Map String String) : Kept digest (s.setLabels call uid labels) := by
  have hkeeps : s.stored.Keeps (s.stored.called call (s.stored.update uid (writeLabels labels))) :=
    .called call (.update s.stored uid fun _ => rfl)
  unfold SharedFleet.setLabels
  cases call with
  | ok =>
    simp only
    split
    · refine (h.takeLabels uid labels).rows ?_
      rwa [stored_takeLabels]
    · exact h
  | failed applied => exact h.rows hkeeps

private lemma takeUp : Kept digest (s.takeUp uid) := by
  unfold SharedFleet.takeUp
  split
  next held row _ _ =>
    unfold SharedFleet.takeRow
    simp only
    have hchanged : Kept digest (if held.assignment ≠ row.assignment ∨ held.restartPending ≠ row.rest.restartPending
        then (s.hold uid { held with assignment := row.assignment, restartPending :=
          row.rest.restartPending }).unnote uid
        else s) := by
      split
      · exact (h.hold uid _).unnote uid
      · exact h
    split
    · exact hchanged.takeLabels uid _
    · exact hchanged
  · exact h.dropForgotten uid
  · exact h

private lemma forgetAgent : Kept digest (s.forgetAgent call uid) := by
  unfold SharedFleet.forgetAgent
  cases call with
  | ok => exact (h.dropForgotten uid).rows (Rows.Keeps.erase s.stored uid)
  | failed applied =>
    cases applied with
    | false => exact h
    | true => exact h.rows (Rows.Keeps.erase s.stored uid)

private lemma flush {answer : InstanceUid × StoreCall × Bool} (hcall : answer.2.1 ≠ .failed true) :
    Kept digest (s.flush digest answer) := by
  obtain ⟨uid, call, elsewhere⟩ := answer
  unfold SharedFleet.flush
  split
  · exact h
  rename_i held hheld
  split
  · exact h
  cases call with
  | ok =>
    simp only
    split
    · exact h.write (isSome_iff_exists.mpr ⟨held, hheld⟩)
    · exact h
  | failed applied =>
    cases applied with
    | false => exact h
    | true => exact absurd rfl hcall

/-! ### A release -/

def Agrees (s : SharedFleet P δ) (uid : InstanceUid) : Prop :=
  ∀ held row, s.fleet.lookup uid = some held → s.stored.lookup uid = some row → held.reported = row.rest.reported

private lemma released (hagrees : Agrees s release.1) : Kept digest (s.released digest release) := by
  have hkeeps : s.stored.Keeps (s.stored.update release.1 (writeAssignment release.2)) :=
    Rows.Keeps.update s.stored release.1 fun _ => rfl
  unfold SharedFleet.released
  split
  · split
    next held hheld =>
      refine Kept.note ((h.rows hkeeps).hold release.1 _) (isSome_hold _ _ _) fun row' hrow' => ?_
      obtain ⟨row, hrow, hreported⟩ := hkeeps release.1 row' hrow'
      exact (hagrees held row hheld hrow).trans hreported
    · exact h.rows hkeeps
  · exact h.dropForgotten release.1

end

private lemma keeps_released (s : SharedFleet P δ) (release : InstanceUid × Option Assignment) :
    s.stored.Keeps (s.released digest release).stored := by
  have hkeeps : s.stored.Keeps (s.stored.update release.1 (writeAssignment release.2)) :=
    Rows.Keeps.update s.stored release.1 fun _ => rfl
  unfold SharedFleet.released
  split
  · split <;> exact hkeeps
  · exact .refl s.stored

private lemma held_of_released {held' : AgentRecord P} (h : (s.released digest release).fleet.lookup uid = some held') :
    ∃ held, s.fleet.lookup uid = some held ∧ held.reported = held'.reported := by
  unfold SharedFleet.released at h
  split at h
  · split at h
    next held hheld =>
      simp only [SharedFleet.hold, lookup_insert_ite] at h
      split at h
      · subst uid
        cases h
        exact ⟨held, hheld, rfl⟩
      · exact ⟨held', h, rfl⟩
    · exact ⟨held', h, rfl⟩
  · exact ⟨held', lookup_of_erase h, rfl⟩

private lemma Agrees.released (hagrees : Agrees s uid) (release : InstanceUid × Option Assignment) :
    Agrees (s.released digest release) uid := by
  intro held' row' hheld' hrow'
  obtain ⟨held, hheld, hsaid⟩ := held_of_released hheld'
  obtain ⟨row, hrow, hstored⟩ := keeps_released s release uid row' hrow'
  exact hsaid.symm.trans ((hagrees held row hheld hrow).trans hstored)

private lemma foldl_released (h : Kept digest s) (releases : List (InstanceUid × Option Assignment))
    (hagrees : ∀ release ∈ releases, Agrees s release.1) :
      Kept digest (releases.foldl (SharedFleet.released digest) s) := by
  induction releases generalizing s with
  | nil => exact h
  | cons release releases ih =>
    refine ih (h.released (hagrees release mem_cons_self)) fun other hother => ?_
    exact (hagrees other (mem_cons_of_mem _ hother)).released release

private lemma keeps_foldl_assignments (rows : Rows P) (releases : List (InstanceUid × Option Assignment)) :
    rows.Keeps (releases.foldl (fun rows release => rows.update release.1 (writeAssignment release.2)) rows) := by
  induction releases generalizing rows with
  | nil => exact .refl rows
  | cons release releases ih =>
    have hkeeps : rows.Keeps (rows.update release.1 (writeAssignment release.2)) := .update rows release.1 fun _ => rfl
    exact hkeeps.trans (ih _)

private lemma writeReleases (h : Kept digest s) {call : StoreCall} {releases : List (InstanceUid × Option Assignment)}
    (hagrees : call = .ok → ∀ release ∈ releases, Agrees s release.1) :
    Kept digest (s.writeReleases digest call releases) := by
  unfold SharedFleet.writeReleases
  cases call with
  | ok => exact h.foldl_released releases (hagrees rfl)
  | failed applied => exact h.rows ((keeps_foldl_assignments s.stored releases).called _)

private lemma elsewhere (h : Kept digest s) {row' : Option (PersistedRecord P)}
    (hsame : ∀ new, row' = some new → (s.written.lookup uid).isSome →
      ∃ row, s.stored.lookup uid = some row ∧ row.rest.reported = new.rest.reported) :
    Kept digest { s with stored := Map.set s.stored uid row' } := by
  refine ⟨h.held, fun u d new hd hnew => ?_⟩
  rw [lookup_set] at hnew
  split at hnew
  · subst u
    obtain ⟨row, hrow, hreported⟩ := hsame new hnew (isSome_iff_exists.mpr ⟨d, hd⟩)
    obtain ⟨r, hr, he⟩ := h.agrees uid d row hd hrow
    exact ⟨r, hr, he.trans hreported⟩
  · exact h.agrees u d new hd hnew

section Reports

variable [DecidableEq δ]

private lemma persist (h : Kept digest s) {call : StoreCall} (hcall : call ≠ .failed true) {uid : InstanceUid}
    {record : AgentRecord P} (hheld : (s.fleet.lookup uid).isSome) :
    Kept digest (s.persist digest call uid record).1 := by
  unfold SharedFleet.persist
  split
  · exact h
  cases call with
  | ok =>
    simp only
    split
    · exact h.write hheld
    · exact h
  | failed applied =>
    cases applied with
    | false => exact h
    | true => exact absurd rfl hcall

private lemma record (h : Kept digest s) {io : ReportIo P} (hcall : io.persisted ≠ .failed true) (uid : InstanceUid)
    (updated : AgentRecord P) : Kept digest (s.record digest io uid updated) := by
  unfold SharedFleet.record
  simp only
  -- What is held after the restart, if one goes out with the reply.
  have hrestart : ∀ taken : SharedFleet P δ × AgentRecord P, taken = (if io.deliversRestart && updated.restartPending
      then (s.hold uid updated).takeRestart io.cleared uid updated else (s.hold uid updated, updated)) →
      Kept digest taken.1 ∧ (taken.1.fleet.lookup uid).isSome := by
    intro taken htaken
    split at htaken
    · subst taken
      exact ⟨(h.hold uid updated).takeRestart _ uid updated, isSome_takeRestart _ _ _ (isSome_hold s uid updated)⟩
    · subst taken
      exact ⟨h.hold uid updated, isSome_hold s uid updated⟩
  generalize (if io.deliversRestart && updated.restartPending
      then (s.hold uid updated).takeRestart io.cleared uid updated else (s.hold uid updated, updated)) =
        taken at hrestart
  obtain ⟨hkept, hheld⟩ := hrestart taken rfl
  have hpersist : Kept digest (taken.1.persist digest io.persisted uid taken.2).1 := hkept.persist hcall hheld
  generalize taken.1.persist digest io.persisted uid taken.2 = persisted at hpersist
  obtain ⟨t, stored⟩ := persisted
  cases stored with
  | true => exact hpersist
  | false => exact hpersist.dropForgotten uid

private lemma report (h : Kept digest s) {a : Answers P} {io : ReportIo P} (hcall : io.persisted ≠ .failed true)
    {uid : InstanceUid} (hread : s.fleet.lookup uid = none → ∀ row ∈ io.read, ∀ now,
      s.stored.lookup uid = some now → row.rest.reported = now.rest.reported)
    (hfresh : s.fresh uid reporter = true) {msg : Report P} {transport : Transport} {conn : Option ConnId}
    {arrivedOver : Option String} : Kept digest (s.report digest a io uid reporter msg transport conn arrivedOver) := by
  unfold SharedFleet.report
  simp only
  have hnew : ∀ new ∈ reporter.uids, (s.holdFromStore digest io.read uid).fleet.lookup new = none := by
    intro new hmem
    have hminted := all_eq_true.mp hfresh new hmem
    simp only [Bool.and_eq_true, decide_eq_true_eq, isNone_iff_eq_none] at hminted
    exact unheld_holdFromStore hminted.1.1 hminted.1.2 io.read
  have hsettled := (h.holdFromStore hread).settle hnew io uid
  generalize (s.holdFromStore digest io.read uid).settle io uid reporter = settled at hsettled
  obtain ⟨t, u⟩ := settled
  have hcreated := hsettled.createWithin io u (.new msg.sequenceNum transport conn a.nowMs)
  generalize t.createWithin digest io u (.new msg.sequenceNum transport conn a.nowMs) = created at hcreated
  obtain ⟨t', created⟩ := created
  cases created with
  | none => exact hcreated
  | some created =>
    simp only
    split
    · split
      · exact hcreated.uncreate _ _
      · exact hcreated
    · exact hcreated.record hcall _ _

end Reports

end Kept

/-! ### The condition -/

def sameReport (enc : Encoding P) (f g : StoredFields P) : Bool :=
  reportedFields enc f = reportedFields enc g && hostFields f = hostFields g

variable {enc : Encoding P}

private lemma reported_of_sameReport {f g : StoredFields P} (h : sameReport enc f g = true) :
    f.reported = g.reported := by
  unfold sameReport at h
  rw [Bool.and_eq_true, decide_eq_true_eq, decide_eq_true_eq] at h
  exact reported_of_fields h.1 h.2

def unwritten (enc : Encoding P) (s : SharedFleet P δ) (uid : InstanceUid) : Bool :=
  match s.fleet.lookup uid, s.stored.lookup uid with
  | some held, some row => !sameReport enc held.toStoredFields row.rest
  | _, _ => false

/-- No rollout releases to an Agent with an unwritten report, no other instance writes a report of an Agent whose
digest this one notes or whose row it has read and not yet taken up, and a report's write that fails wrote nothing. -/
def Orderly (enc : Encoding P) (s : SharedFleet P δ) : Act P → Prop
  | .report _ io uid _ _ _ _ _ =>
    io.persisted ≠ .failed true ∧
      (s.fleet.lookup uid = none → ∀ row ∈ io.read, ∀ now ∈ s.stored.lookup uid,
        sameReport enc row.rest now.rest = true)
  | .rollout call releases => call = .ok → ∀ release ∈ releases, s.unwritten enc release.1 = false
  | .flush answers => ∀ answer ∈ answers, answer.2.1 ≠ .failed true
  | .elsewhere uid (some row) =>
    (s.written.lookup uid).isSome → (s.stored.lookup uid).any (fun old => sameReport enc old.rest row.rest) = true
  | _ => True

instance (enc : Encoding P) (s : SharedFleet P δ) (a : Act P) : Decidable (s.Orderly enc a) := by
  unfold Orderly
  split <;> infer_instance

private lemma agrees_of_unwritten {uid : InstanceUid} (h : s.unwritten enc uid = false) : Kept.Agrees s uid := by
  intro held row hheld hrow
  unfold unwritten at h
  simp only [hheld, hrow, Bool.not_eq_false'] at h
  exact reported_of_sameReport h

private lemma Kept.foldl_flush (h : Kept digest s) (answers : List (InstanceUid × StoreCall × Bool))
    (hcalls : ∀ answer ∈ answers, answer.2.1 ≠ .failed true) :
    Kept digest (answers.foldl (SharedFleet.flush digest) s) := by
  refine foldlRecOn (motive := Kept digest) answers _ h ?_
  exact fun s hs answer hanswer => hs.flush (hcalls answer hanswer)

private lemma Kept.step [DecidableEq δ] {t : SharedFleet P δ} {a : Act P} (h : Kept digest s)
    (horderly : s.Orderly enc a) (hstep : s.step digest a = some t) : Kept digest t := by
  cases a with
  | report a io uid reporter msg transport conn arrivedOver =>
    obtain ⟨hfresh, hstep⟩ := ite_none_right_eq_some.mp hstep
    cases hstep
    refine h.report horderly.1 (fun hheld row hrow now hnow => ?_) hfresh
    exact reported_of_sameReport (horderly.2 hheld row hrow now hnow)
  | rollout call releases =>
    cases hstep
    exact h.writeReleases fun hcall release hr => agrees_of_unwritten (horderly hcall release hr)
  | setLabels call uid labels =>
    cases hstep
    exact h.setLabels call uid labels
  | requestRestart call uid =>
    cases hstep
    exact h.requestRestart call uid
  | pushRestart call uid =>
    cases hstep
    exact h.pushRestart call uid
  | takeUp uids =>
    cases hstep
    exact foldlRecOn (motive := Kept digest) uids _ h fun s hs uid _ => hs.takeUp uid
  | forgetAgent call uid =>
    cases hstep
    exact h.forgetAgent call uid
  | flush answers =>
    cases hstep
    exact h.foldl_flush answers horderly
  | elsewhere uid row =>
    cases hstep
    refine h.elsewhere fun new hnew hnoted => ?_
    subst hnew
    obtain ⟨old, hold, hsame⟩ := (Option.any_eq_true _ _).mp (horderly hnoted)
    exact ⟨old, hold, reported_of_sameReport hsame⟩
  | restart =>
    cases hstep
    exact ⟨fun uid d hd => by simp at hd, fun uid d row hd => by simp at hd⟩

private lemma reported_of_persist [DecidableEq δ] {uid : InstanceUid} {held : AgentRecord P} {row' : PersistedRecord P}
    (hskip : ∀ row, s.stored.lookup uid = some row → s.written.lookup uid = some (digest held.toPersisted) →
      row.rest.reported = held.reported)
    (hrow' : (s.persist digest .ok uid held).1.stored.lookup uid = some row') : row'.rest.reported = held.reported := by
  unfold persist at hrow'
  split at hrow'
  next hnoted =>
    exact hskip row' hrow' hnoted
  simp only at hrow'
  split at hrow'
  · change ((s.stored.update uid (writeReported held.toPersisted)).lookup uid) = some row' at hrow'
    rw [Rows.lookup_update, if_pos rfl] at hrow'
    obtain ⟨row, -, rfl⟩ := map_eq_some_iff.mp hrow'
    rfl
  next hnone =>
    rw [show s.stored.lookup uid = some row' from hrow'] at hnone
    exact absurd rfl hnone

/-- In every run that meets the condition: where the ledger notes the digest of what is held, the row agrees with it on
everything a report decides, and the next dirty check whose write does not fail leaves it so. -/
theorem noted_is_stored [DecidableEq δ] {hash : List Bytes → δ} (hinj : Function.Injective hash) {enc : Encoding P}
    {s : SharedFleet P δ} (h : Reach start (restrict (Orderly enc) (step (durableDigest hash enc))) s)
    (uid : InstanceUid) (held : AgentRecord P) :
    s.fleet.lookup uid = some held →
      (∀ row, s.stored.lookup uid = some row →
        s.written.lookup uid = some (durableDigest hash enc held.toPersisted) → row.rest.reported = held.reported) ∧
      ∀ row', (s.persist (durableDigest hash enc) .ok uid held).1.stored.lookup uid = some row' →
        row'.rest.reported = held.reported := by
  have hkept : Kept (durableDigest hash enc) s := by
    exact h.invariant_restrict ⟨fun uid d hd => by simp [start] at hd, fun uid d row hd => by simp [start] at hd⟩
      fun _ _ _ hs horderly hstep => hs.step horderly hstep
  have hskip : ∀ row, s.stored.lookup uid = some row →
      s.written.lookup uid = some (durableDigest hash enc held.toPersisted) → row.rest.reported = held.reported := by
    intro row hrow hnoted
    obtain ⟨r, hr, hreported⟩ := hkept.agrees uid _ row hnoted hrow
    exact hreported.symm.trans (reported_of_durableDigest hinj hr.symm)
  exact fun _ => ⟨hskip, fun row' => reported_of_persist hskip⟩

namespace Small

def payloads : Payloads := ⟨Unit, Unit, Unit, Unit, Unit, Empty, Unit, (), Unit, Unit, Unit, Unit⟩

private lemma entries_eq_nil (components : Map String Empty) : components.entries = [] := by
  cases h : components.entries with
  | nil => rfl
  | cons entry entries => exact entry.2.elim

def encoding : Encoding payloads where
  description _ := []
  health _ := []
  remoteConfigStatus _ := []
  connectionSettingsStatus _ := []
  packageStatuses _ := []
  availableComponents components := components.hash
  description_injective _ _ _ := rfl
  health_injective _ _ _ := rfl
  remoteConfigStatus_injective _ _ _ := rfl
  connectionSettingsStatus_injective _ _ _ := rfl
  packageStatuses_injective _ _ _ := rfl
  availableComponents_injective a b h := by
    have hcomponents : a.components = b.components := by
      apply AList.ext
      exact (entries_eq_nil a.components).trans (entries_eq_nil b.components).symm
    cases a
    cases b
    cases hcomponents
    cases h
    rfl

def io (persisted : StoreCall) : ReportIo payloads := ⟨none, .ok, .ok, true, true, .ok, false, .ok, persisted⟩

def reports (sequenceNum capabilities : UInt64) (persisted : StoreCall) : Act payloads :=
  .report Server.Small.answers (io persisted) (.ofByte 1) .reported
    { Server.Small.reportOf () with sequenceNum := sequenceNum, capabilities := capabilities } .webSocket (some 1) none

def release : Act payloads :=
    .rollout .ok [(.ofByte 1, some ⟨"stable", none, (∅ : Map String String).insert "base" "1"⟩)]

end Small

open Small

/-- A report, a changed one whose write fails, the same again, a release and another report. -/
theorem noted_is_stored_rewritten : ∃ s : SharedFleet payloads (List Bytes),
    Reach start (restrict (Orderly encoding) (step (durableDigest id encoding))) s ∧
      ∃ held row, s.fleet.lookup (.ofByte 1) = some held ∧ s.stored.lookup (.ofByte 1) = some row ∧
        row.rest.reported = held.reported := by
  refine Reach.exists_of_run_imp (p := fun s => ∃ held, s.fleet.lookup (.ofByte 1) = some held ∧
    ∃ row, s.stored.lookup (.ofByte 1) = some row ∧
      s.written.lookup (.ofByte 1) = some (durableDigest id encoding held.toPersisted))
    [reports 1 3 .ok, reports 2 7 (.failed false), reports 3 7 .ok, release, reports 4 7 .ok]
    (by decide +kernel) ?_
  rintro s hreach ⟨held, hheld, row, hrow, hnoted⟩
  exact ⟨held, row, hheld, hrow,
    (noted_is_stored Function.injective_id hreach (.ofByte 1) held hheld).1 row hrow hnoted⟩

/-- The write of a changed report fails, and a release goes through: the ledger notes the digest of what is held, the
row lacks the change, and the same report again is not written. -/
theorem release_notes_unwritten_report : ∃ s : SharedFleet payloads (List Bytes),
    Reach start (step (durableDigest id encoding)) s ∧
      ∃ held row, s.fleet.lookup (.ofByte 1) = some held ∧ s.stored.lookup (.ofByte 1) = some row ∧
        s.written.lookup (.ofByte 1) = some (durableDigest id encoding held.toPersisted) ∧
        row.rest.reported ≠ held.reported := by
  refine Reach.exists_of_run_imp (p := fun s => ∃ held, s.fleet.lookup (.ofByte 1) = some held ∧
    ∃ row, s.stored.lookup (.ofByte 1) = some row ∧
      s.written.lookup (.ofByte 1) = some (durableDigest id encoding held.toPersisted) ∧
      held.capabilities = 7 ∧ row.rest.capabilities = 3)
    [reports 1 3 .ok, reports 2 7 (.failed false), release, reports 3 7 .ok]
    (by decide +kernel) ?_
  rintro s - ⟨held, hheld, row, hrow, hnoted, hsaid, hstored⟩
  refine ⟨held, row, hheld, hrow, hnoted, fun hsame => ?_⟩
  have hcapabilities : row.rest.capabilities = held.capabilities := congrArg ReportedContent.capabilities hsame
  rw [hsaid, hstored] at hcapabilities
  exact absurd hcapabilities (by decide)

end SharedFleet

end OpampFleet.Server
