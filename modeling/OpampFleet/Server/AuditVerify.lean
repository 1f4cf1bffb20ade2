import OpampFleet.Lib.Fallible
import OpampFleet.Server.AuditEntry

/-!
# Verifying the audit record

The model of `verify` of the Server's `audit_log.rs`, which walks the lines of a record in order, over any reader of
JSON and any hash. What it accepts without naming an unlinked repair is bound by its last line: from there each entry
names the one before it, across torn lines too, so that two such records with one last line hold the same entries as
far back as both reach.
-/

namespace OpampFleet.Server.Audit

open Lib List Option JsonReader

structure Torn where
  place : String
  why : String
  hash : String
  lines : Nat
  deriving DecidableEq

structure Held where
  entries : Nat := 0
  unlinked : List String := []
  deriving DecidableEq

structure Walk where
  prev : Option String := none
  torn : Option Torn := none
  held : Held := {}

section Model

variable (sha256 : Bytes → Bytes) (read : String → Except String JsonView) (w : Walk) (lines : List (String × String))

def isEntry (line : String) : Bool := (read line).isOk

def Walk.tear (place why line : String) : Walk :=
  { w with
    torn := some (match w.torn with
      | some run => { run with hash := lineHash sha256 line, lines := run.lines + 1 }
      | none => ⟨place, why, lineHash sha256 line, 1⟩) }

/-- Whether an entry with this `prev` follows what is before it, and the unlinked repairs with it. -/
def Walk.link (place stated : String) (value : JsonView) : Except String (List String) :=
  match w.torn, w.prev with
  | some run, prev =>
    if value.str "event" ≠ some "audit.chain_broken" ∨ stated ≠ run.hash then
      .error s!"{run.place}: not an audit entry: {run.why}, and the entry after it does not record it as audit.chain_broken"
    else
      match value.str "last_whole", prev with
      | none, _ =>
        if 1 < run.lines then
          .error s!"{run.place}: {run.lines} torn lines in a row, and the repair after them, {place}, names no last_whole"
        else .ok (w.held.unlinked ++ [place])
      | some lastWhole, some prev =>
        if lastWhole ≠ prev then
          .error s!"{place}: the repair of the torn line {run.place} names last_whole {lastWhole}, not the entry before the torn line ({prev})"
        else .ok w.held.unlinked
      -- Nothing before the torn line is held, as the first line's `prev` is not checked either.
      | some _, none => .ok w.held.unlinked
  | none, some prev =>
    if stated ≠ prev then .error s!"{place}: prev {stated} does not match the entry before it ({prev})"
    else .ok w.held.unlinked
  | none, none => .ok w.held.unlinked

def Walk.step (line : String × String) : Except String Walk :=
  match read line.2 with
  | .error why => .ok (w.tear sha256 line.1 why line.2)
  | .ok value =>
    match value.str "prev" with
    | none => .error s!"{line.1}: no prev"
    | some stated =>
      (w.link line.1 stated value).map fun unlinked =>
        { prev := some (lineHash sha256 line.2), torn := none, held := ⟨w.held.entries + 1, unlinked⟩ }

def Walk.over : Except String Walk := lines.foldlM (step sha256 read) w

def Walk.finish : Except String Held :=
  match w.torn with
  | some run =>
    .error s!"{run.place}: not an audit entry: {run.why} — a torn last line a crash left, and no audit.chain_broken follows it"
  | none => .ok w.held

def verify : Except String Held := do
  let w ← ({} : Walk).over sha256 read lines
  w.finish

def entries : List String := (lines.map Prod.snd).filter (isEntry read)

end Model

variable {sha256 : Bytes → Bytes} {read : String → Except String JsonView} {w w' : Walk}

lemma isEntry_iff {line : String} : isEntry read line = true ↔ ∃ value, read line = .ok value := by
  unfold isEntry
  cases read line with
  | error why | ok value => simp [Except.isOk, Except.toBool]

variable {line : String × String} {place stated : String} {value : JsonView} {lines lines' : List (String × String)}

private lemma Walk.step_cases (h : w.step sha256 read line = .ok w') :
    (isEntry read line.2 = false ∧ ∃ why, w' = w.tear sha256 line.1 why line.2) ∨
    (isEntry read line.2 = true ∧ ∃ value stated unlinked, read line.2 = .ok value ∧ value.str "prev" = some stated ∧
      w.link line.1 stated value = .ok unlinked ∧
      w' = { prev := some (lineHash sha256 line.2), torn := none, held := ⟨w.held.entries + 1, unlinked⟩ }) := by
  unfold step at h
  cases hread : read line.2 with
  | error why =>
    rw [hread] at h
    exact .inl ⟨by simp [isEntry, hread, Except.isOk, Except.toBool], why, (Except.ok.inj h).symm⟩
  | ok value =>
    rw [hread] at h
    refine .inr ⟨isEntry_iff.mpr ⟨value, hread⟩, ?_⟩
    cases hprev : value.str "prev" with
    | none =>
      simp only [hprev] at h
      cases h
    | some stated =>
      simp only [hprev] at h
      obtain ⟨unlinked, hlink, hw⟩ := map_eq_ok.mp h
      exact ⟨value, stated, unlinked, rfl, hprev, hlink, hw.symm⟩

/-- Where no repair is named as unlinked, none was, and an entry is linked to the one before it: its `prev` is that
one's hash, or it repairs the torn line its `prev` names and says which entry is before it. -/
private lemma Walk.link_linked (h : w.link place stated value = .ok []) : w.held.unlinked = [] ∧
    ∀ prev, w.prev = some prev → (w.torn = none ∧ stated = prev) ∨
      ∃ run, w.torn = some run ∧ stated = run.hash ∧ value.str "last_whole" = some prev := by
  unfold link at h
  cases htorn : w.torn with
  | none =>
    simp only [htorn] at h
    cases hprev : w.prev with
    | none =>
      simp only [hprev] at h
      exact ⟨Except.ok.inj h, nofun⟩
    | some last =>
      simp only [hprev] at h
      obtain ⟨hstated, hunlinked⟩ := ite_error_eq_ok.mp h
      refine ⟨Except.ok.inj hunlinked, ?_⟩
      rintro prev ⟨⟩
      exact .inl ⟨rfl, not_not.mp hstated⟩
  | some run =>
    simp only [htorn] at h
    obtain ⟨hrepair, h⟩ := ite_error_eq_ok.mp h
    have hstated : stated = run.hash := by
      by_contra hne
      exact hrepair (.inr hne)
    cases hlast : value.str "last_whole" with
    | none =>
      simp only [hlast] at h
      obtain ⟨-, hunlinked⟩ := ite_error_eq_ok.mp h
      simp at hunlinked
    | some lastWhole =>
      cases hprev : w.prev with
      | none =>
        simp only [hlast, hprev] at h
        exact ⟨Except.ok.inj h, nofun⟩
      | some last =>
        simp only [hlast, hprev] at h
        obtain ⟨hwhole, hunlinked⟩ := ite_error_eq_ok.mp h
        refine ⟨Except.ok.inj hunlinked, ?_⟩
        rintro prev ⟨⟩
        exact .inr ⟨run, rfl, hstated, by rw [not_not.mp hwhole]⟩

lemma Walk.over_append (w : Walk) (lines lines' : List (String × String)) : w.over sha256 read (lines ++ lines') =
      (w.over sha256 read lines).bind fun w => w.over sha256 read lines' := foldlM_append

private lemma Walk.over_snoc (h : w.over sha256 read (lines ++ [line]) = .ok w') :
    ∃ v, w.over sha256 read lines = .ok v ∧ v.step sha256 read line = .ok w' := by
  rw [over_append] at h
  obtain ⟨v, hv, hstep⟩ := bind_eq_ok.mp h
  refine ⟨v, hv, ?_⟩
  simpa [Walk.over] using hstep

private lemma entries_append (lines lines' : List (String × String)) :
    entries read (lines ++ lines') = entries read lines ++ entries read lines' := by
  simp [entries]

private lemma entries_entry (h : isEntry read line.2 = true) : entries read [line] = [line.2] := by
  simp [entries, h]

private lemma entries_torn (h : isEntry read line.2 = false) : entries read [line] = [] := by
  simp [entries, h]

structure Walk.Knows (sha256 : Bytes → Bytes) (read : String → Except String JsonView) (w : Walk)
    (lines : List (String × String)) : Prop where
  prev : w.prev = (entries read lines).getLast?.map (lineHash sha256)
  torn : w.torn.map Torn.hash = ((lines.map Prod.snd).getLast?.filter (!isEntry read ·)).map (lineHash sha256)

private lemma Walk.Knows.snoc (hknows : w.Knows sha256 read lines) (h : w.step sha256 read line = .ok w') :
    w'.Knows sha256 read (lines ++ [line]) := by
  obtain ⟨htorn, why, rfl⟩ | ⟨hentry, value, stated, unlinked, -, -, -, rfl⟩ := step_cases h
  · constructor
    · rw [entries_append, entries_torn htorn, append_nil]
      exact hknows.prev
    · cases hrun : w.torn with
      | none | some run => simp [tear, hrun, htorn, filter_some]
  · constructor
    · simp [entries_append, entries_entry hentry]
    · simp [hentry, filter_some]

/-- A walk knows the lines it went over. -/
lemma Walk.over_knows (h : ({} : Walk).over sha256 read lines = .ok w) : w.Knows sha256 read lines := by
  induction lines using reverseRecOn generalizing w with
  | nil =>
    cases h
    exact ⟨rfl, rfl⟩
  | append_singleton lines line ih =>
    obtain ⟨v, hv, hstep⟩ := over_snoc h
    exact (ih hv).snoc hstep

private lemma Walk.over_last_entry {last : String}
    (h : ({} : Walk).over sha256 read lines = .ok w) (hunlinked : w.held.unlinked = [])
    (hlast : (entries read lines).getLast? = some last) :
    ∃ before v place value stated, before.length < lines.length ∧ ({} : Walk).over sha256 read before = .ok v ∧
      read last = .ok value ∧ value.str "prev" = some stated ∧ v.link place stated value = .ok [] ∧
      entries read lines = entries read before ++ [last] := by
  induction lines using reverseRecOn generalizing w with
  | nil => simp [entries] at hlast
  | append_singleton lines line ih =>
    obtain ⟨v, hv, hstep⟩ := over_snoc h
    obtain ⟨htorn, why, rfl⟩ | ⟨hentry, value, stated, unlinked, hread, hstated, hlink, rfl⟩ := step_cases hstep
    · rw [entries_append, entries_torn htorn, append_nil] at hlast
      obtain ⟨before, u, place, value, stated, hlt, hu, hread, hstated, hlink, hentries⟩ := ih hv hunlinked hlast
      refine ⟨before, u, place, value, stated, ?_, hu, hread, hstated, hlink, ?_⟩
      · rw [length_append]
        omega
      · rw [entries_append, entries_torn htorn, append_nil, hentries]
    · have hline : line.2 = last := by simpa [entries_append, entries_entry hentry] using hlast
      refine ⟨lines, v, line.1, value, stated, ?_, hv, hline ▸ hread, hstated, ?_, ?_⟩
      · rw [length_append]
        exact Nat.lt_add_of_pos_right Nat.one_pos
      · rw [hlink, show unlinked = [] from hunlinked]
      · rw [entries_append, entries_entry hentry, hline]

section

variable (hinj : Function.Injective sha256)
include hinj

/-- No entry has the hash of a torn line, as a line is JSON or it is not. -/
private lemma Walk.Knows.torn_hash_ne {e : String}
    {run : Torn} (hknows : w.Knows sha256 read lines) (hrun : w.torn = some run)
    (he : (entries read lines').getLast? = some e) : lineHash sha256 e ≠ run.hash := by
  intro heq
  have hhash := hknows.torn
  rw [hrun, map_some, ← heq] at hhash
  obtain ⟨line, hline, hlineHash⟩ := map_eq_some_iff.mp hhash.symm
  obtain ⟨-, hnot⟩ := filter_eq_some_iff.mp hline
  have hentry : isEntry read e = true := of_mem_filter (mem_of_getLast? he)
  rw [lineHash_injective hinj hlineHash, hentry] at hnot
  simp at hnot

/-- The entry before one that is linked, by its hash: a plain link and one across torn lines cannot be taken for each
other. -/
private lemma Walk.link_same_before {v v' : Walk}
    (hv : v.Knows sha256 read lines) (hv' : v'.Knows sha256 read lines') {place' : String}
    (hlink : v.link place stated value = .ok []) (hlink' : v'.link place' stated value = .ok [])
    (hne : entries read lines ≠ []) (hne' : entries read lines' ≠ []) :
    (entries read lines).getLast? = (entries read lines').getLast? := by
  have hash_inj := lineHash_injective hinj
  obtain ⟨e, he⟩ := ne_none_iff_exists'.mp (mt getLast?_eq_none_iff.mp hne)
  obtain ⟨e', he'⟩ := ne_none_iff_exists'.mp (mt getLast?_eq_none_iff.mp hne')
  have hprev : v.prev = some (lineHash sha256 e) := by rw [hv.prev, he, map_some]
  have hprev' : v'.prev = some (lineHash sha256 e') := by rw [hv'.prev, he', map_some]
  suffices hsame : lineHash sha256 e = lineHash sha256 e' by rw [he, he', hash_inj hsame]
  obtain ⟨-, hplain⟩ | ⟨run, hrun, hacross, hwhole⟩ := (link_linked hlink).2 _ hprev
  · obtain ⟨-, hplain'⟩ | ⟨run', hrun', hacross', -⟩ := (link_linked hlink').2 _ hprev'
    · rw [← hplain, hplain']
    · exact absurd (hplain.symm.trans hacross') (hv'.torn_hash_ne hinj hrun' he)
  · obtain ⟨-, hplain'⟩ | ⟨run', hrun', hacross', hwhole'⟩ := (link_linked hlink').2 _ hprev'
    · exact absurd (hplain'.symm.trans hacross) (hv.torn_hash_ne hinj hrun he')
    · exact Option.some.inj (hwhole.symm.trans hwhole')

/-- Walks over two lists of lines that come to the same last entry: back from it, the entries are the same as far as
both lists reach. -/
private lemma Walk.over_same_entries
    (h : ({} : Walk).over sha256 read lines = .ok w) (h' : ({} : Walk).over sha256 read lines' = .ok w')
    (hunlinked : w.held.unlinked = []) (hunlinked' : w'.held.unlinked = [])
    (hlast : (entries read lines).getLast? = (entries read lines').getLast?) :
    entries read lines <:+ entries read lines' ∨ entries read lines' <:+ entries read lines := by
  induction hn : lines.length using Nat.strong_induction_on generalizing lines lines' w w' with
  | _ n ih =>
    cases hl : (entries read lines).getLast? with
    | none =>
      rw [getLast?_eq_none_iff.mp hl]
      exact .inl nil_suffix
    | some last =>
      obtain ⟨before, v, place, value, stated, hlt, hv, hread, hstated, hlink, he⟩ :=
        over_last_entry h hunlinked hl
      obtain ⟨before', v', place', value', stated', -, hv', hread', hstated', hlink', he'⟩ :=
        over_last_entry h' hunlinked' (hlast ▸ hl)
      cases hread.symm.trans hread'
      cases hstated.symm.trans hstated'
      rw [he, he']
      by_cases hne : entries read before = []
      · rw [hne]
        exact .inl (suffix_append _ _)
      by_cases hne' : entries read before' = []
      · rw [hne']
        exact .inr (suffix_append _ _)
      have hbefore := link_same_before hinj (over_knows hv) (over_knows hv') hlink hlink' hne hne'
      have hsuffix := ih before.length (hn ▸ hlt) hv hv' (link_linked hlink).1 (link_linked hlink').1 hbefore rfl
      exact hsuffix.imp suffix_append_self_iff.mpr suffix_append_self_iff.mpr

end

private lemma verify_ok {held : Held} (h : verify sha256 read lines = .ok held) :
    ∃ w, ({} : Walk).over sha256 read lines = .ok w ∧ w.torn = none ∧ w.held = held := by
  obtain ⟨w, hw, hfinish⟩ := bind_eq_ok.mp h
  unfold Walk.finish at hfinish
  cases htorn : w.torn with
  | some run =>
    simp [htorn] at hfinish
  | none =>
    rw [htorn] at hfinish
    exact ⟨w, hw, htorn, Except.ok.inj hfinish⟩

private lemma Walk.Knows.last_entry (hknows : w.Knows sha256 read lines)
    (htorn : w.torn = none) : (entries read lines).getLast? = (lines.map Prod.snd).getLast? := by
  induction lines using reverseRecOn with
  | nil => rfl
  | append_singleton lines line _ =>
    have hentry : isEntry read line.2 = true := by
      have hnone := hknows.torn
      rw [htorn] at hnone
      by_contra hnot
      simp [hnot, filter_some] at hnone
    simp [entries_append, entries_entry hentry]

/-- Two records that verify accepts, naming no unlinked repair, and that end in the same line: the entries of one are
the newest entries of the other. -/
theorem same_last_line_same_entries (hinj : Function.Injective sha256) {lines lines' : List (String × String)}
    {held held' : Held} (h : verify sha256 read lines = .ok held) (h' : verify sha256 read lines' = .ok held')
    (hunlinked : held.unlinked = []) (hunlinked' : held'.unlinked = [])
    (hlast : (lines.map Prod.snd).getLast? = (lines'.map Prod.snd).getLast?) :
    entries read lines <:+ entries read lines' ∨ entries read lines' <:+ entries read lines := by
  obtain ⟨w, hw, htorn, rfl⟩ := verify_ok h
  obtain ⟨w', hw', htorn', rfl⟩ := verify_ok h'
  refine Walk.over_same_entries hinj hw hw' hunlinked hunlinked' ?_
  rw [(Walk.over_knows hw).last_entry htorn, (Walk.over_knows hw').last_entry htorn', hlast]

/-- An entry, the piece of a second one that a crash left, and its repair, over a hash that is the line itself. -/
def repaired : List (String × String) :=
  let first := "\x7b\"prev\":\"\"\x7d"
  let torn := "\x7b"
  let repair := "\x7b\"event\":\"audit.chain_broken\",\"last_whole\":\"" ++ lineHash id first ++ "\",\"prev\":\"" ++
    lineHash id torn ++ "\"\x7d"
  [("audit-1.jsonl:1", first), ("audit-1.jsonl:2", torn), ("audit-1.jsonl:3", repair)]

/-- A repaired record, and the same without its first entry. -/
theorem same_last_line_same_entries_repaired : verify id canonical.read repaired = .ok ⟨2, []⟩ ∧
    verify id canonical.read (repaired.drop 1) = .ok ⟨1, []⟩ ∧
    (entries canonical.read repaired <:+ entries canonical.read (repaired.drop 1) ∨
      entries canonical.read (repaired.drop 1) <:+ entries canonical.read repaired) := by
  have h : verify id canonical.read repaired = .ok ⟨2, []⟩ := by decide +kernel
  have h' : verify id canonical.read (repaired.drop 1) = .ok ⟨1, []⟩ := by decide +kernel
  refine ⟨h, h', same_last_line_same_entries Function.injective_id h h' rfl rfl ?_⟩
  rfl

end OpampFleet.Server.Audit
