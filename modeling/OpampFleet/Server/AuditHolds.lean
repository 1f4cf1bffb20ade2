import OpampFleet.Server.AuditRecord

/-!
# Records the verifier walks through

`Holds` says of the lines of a record that `verify` finds no break in them, whatever places they are given, though they
may still end torn. It survives the loss of the oldest lines, a torn line at the end, an entry chained on the last one,
and the repair of a run of torn lines.
-/

namespace OpampFleet.Server.Audit

open Lib List Item

variable {lines : List (String × String)}

section Behind

variable {sha256 : Bytes → Bytes} {read : String → Except String JsonView} {u v v' w : Walk}

/-- A walk that began later on the same lines: it knows the same entry before and the same torn lines, or none. -/
structure Walk.Behind (v' v : Walk) : Prop where
  prev : v'.prev = none ∨ v'.prev = v.prev
  torn : v'.torn = none ∧ (v'.prev = none ∨ v.torn = none) ∨
    ∃ run' run, v'.torn = some run' ∧ v.torn = some run ∧ run'.hash = run.hash ∧ run'.lines ≤ run.lines

private lemma Walk.Behind.start (v : Walk) : ({} : Walk).Behind v := ⟨.inl rfl, .inl ⟨rfl, .inl rfl⟩⟩

private lemma Walk.tear_of_none {place why line : String} (h : v.torn = none) :
    (v.tear sha256 place why line).torn = some ⟨place, why, lineHash sha256 line, 1⟩ := by
  rw [tear, h]

private lemma Walk.tear_of_some {place why line : String} {run : Torn} (h : v.torn = some run) :
    (v.tear sha256 place why line).torn = some { run with hash := lineHash sha256 line, lines := run.lines + 1 } := by
  rw [tear, h]

private lemma Walk.Behind.tear (h : v'.Behind v) (place why line : String) :
    (v'.tear sha256 place why line).Behind (v.tear sha256 place why line) := by
  refine ⟨h.prev, .inr ?_⟩
  rcases h.torn with ⟨hnone, -⟩ | ⟨run', run, hrun', hrun, -, hlines⟩
  · cases hrun : v.torn with
    | none => exact ⟨_, _, tear_of_none hnone, tear_of_none hrun, rfl, le_rfl⟩
    | some run => exact ⟨_, _, tear_of_none hnone, tear_of_some hrun, rfl, Nat.le_add_left 1 run.lines⟩
  · exact ⟨_, _, tear_of_some hrun', tear_of_some hrun, rfl, Nat.succ_le_succ hlines⟩

private lemma Walk.Behind.link (h : v'.Behind v) {place stated : String} {value : JsonView}
    (hlink : (v.link place stated value).isOk = true) : (v'.link place stated value).isOk = true := by
  rcases h.torn with ⟨hnone, hprev⟩ | ⟨run', run, hrun', hrun, hhash, hlines⟩
  · unfold Walk.link
    rw [hnone]
    cases hknown : v'.prev with
    | none => rfl
    | some prev =>
      have htorn : v.torn = none := hprev.resolve_left (by rw [hknown]; simp)
      have hsame : v.prev = some prev := by
        rw [← hknown]
        exact (h.prev.resolve_left (by rw [hknown]; simp)).symm
      unfold Walk.link at hlink
      rw [htorn, hsame] at hlink
      simp only at hlink ⊢
      split at hlink
      · cases hlink
      next hstated =>
        rw [if_neg hstated]
        rfl
  · unfold Walk.link at hlink ⊢
    rw [hrun] at hlink
    rw [hrun']
    simp only at hlink ⊢
    split at hlink
    · cases hlink
    rename_i hrepair
    rw [hhash, if_neg hrepair]
    cases hwhole : value.str "last_whole" with
    | none =>
      rw [hwhole] at hlink
      simp only at hlink ⊢
      split at hlink
      · cases hlink
      next hone =>
        rw [if_neg (by omega)]
        rfl
    | some lastWhole =>
      rw [hwhole] at hlink
      cases hknown : v'.prev with
      | none => rfl
      | some prev =>
        have hsame : v.prev = some prev := by
          rw [← hknown]
          exact (h.prev.resolve_left (by rw [hknown]; simp)).symm
        rw [hsame] at hlink
        simp only at hlink ⊢
        split at hlink
        · cases hlink
        next hnamed =>
          rw [if_neg hnamed]
          rfl

private lemma Walk.Behind.step (h : v'.Behind v) {line : String × String} (hstep : v.step sha256 read line = .ok u) :
    ∃ u', v'.step sha256 read line = .ok u' ∧ u'.Behind u := by
  unfold Walk.step at hstep ⊢
  cases hread : read line.2 with
  | error why =>
    rw [hread] at hstep
    cases hstep
    exact ⟨_, rfl, h.tear line.1 why line.2⟩
  | ok value =>
    rw [hread] at hstep
    cases hprev : value.str "prev" with
    | none =>
      simp only [hprev] at hstep
      cases hstep
    | some stated =>
      simp only [hprev] at hstep ⊢
      obtain ⟨unlinked, hlink, rfl⟩ := map_eq_ok.mp hstep
      have hok := h.link (by rw [hlink]; rfl)
      cases hlink' : v'.link line.1 stated value with
      | error e =>
        rw [hlink'] at hok
        cases hok
      | ok unlinked' => exact ⟨_, rfl, .inr rfl, .inl ⟨rfl, .inr rfl⟩⟩

private lemma Walk.Behind.over (h : v'.Behind v) (hover : v.over sha256 read lines = .ok u) :
    ∃ u', v'.over sha256 read lines = .ok u' := by
  induction lines generalizing v v' with
  | nil => exact ⟨v', rfl⟩
  | cons line lines ih =>
    obtain ⟨w, hstep, hrest⟩ :=
      bind_eq_ok.mp (show (v.step sha256 read line >>= fun w => w.over sha256 read lines) = .ok u
      from hover)
    obtain ⟨w', hstep', hbehind⟩ := h.step hstep
    obtain ⟨u', hrest'⟩ := ih hbehind hrest
    exact ⟨u', bind_eq_ok.mpr ⟨w', hstep', hrest'⟩⟩

end Behind

section Holds

variable {g : Setting} {items : List Item}

def Holds (g : Setting) (items : List Item) : Prop :=
  ∀ lines : List (String × String), lines.map Prod.snd = items.map (line g) →
    ∃ w, ({} : Walk).over g.sha256 g.reader.read lines = .ok w

def lastEntry (items : List Item) : Option Item := items.reverse.find? isWhole

private lemma lastEntry_concat (items : List Item) (item : Item) :
    lastEntry (items ++ [item]) = if item.isWhole then some item else lastEntry items := by
  rw [lastEntry, reverse_concat, find?_cons]
  cases item.isWhole <;> rfl

private lemma Walk.Knows.ofItems {w : Walk} (hok : ∀ item ∈ items, item.Ok g)
    (hlines : lines.map Prod.snd = items.map (line g)) (h : w.Knows g.sha256 g.reader.read lines) :
    w.prev = (lastEntry items).map (hash g) ∧
    w.torn.map Torn.hash = (items.getLast?.filter (!·.isWhole)).map (hash g) := by
  constructor
  · have hentries : entries g.reader.read lines = (items.filter isWhole).map (line g) := by
      rw [entries, hlines, filter_map]
      refine congrArg _ (filter_congr ?_)
      intro item hitem
      exact (hok item hitem).isEntry_line
    have hlast : (items.filter isWhole).getLast? = lastEntry items := by
      rw [getLast?_eq_head?_reverse, ← filter_reverse, head?_filter, lastEntry]
    rw [h.prev, hentries, getLast?_map, hlast, Option.map_map]
    rfl
  · rw [h.torn, hlines, getLast?_map]
    cases hlast : items.getLast? with
    | none => rfl
    | some last =>
      have hentry := (hok last (mem_of_getLast? hlast)).isEntry_line
      simp only [Option.map_some, Option.filter_some, hentry]
      cases last.isWhole <;> rfl

lemma holds_nil : Holds g [] := by
  intro lines hlines
  rw [map_eq_nil_iff.mp (hlines.trans rfl)]
  exact ⟨{}, rfl⟩

private lemma Holds.concat (h : Holds g items) (hok : ∀ item ∈ items, item.Ok g) {item : Item}
    (hstep : ∀ w : Walk, ∀ place, w.prev = (lastEntry items).map (hash g) →
      w.torn.map Torn.hash = (items.getLast?.filter (!·.isWhole)).map (hash g) →
      ∃ w', w.step g.sha256 g.reader.read (place, item.line g) = .ok w') :
    Holds g (items ++ [item]) := by
  intro lines hlines
  rw [map_append, map_singleton] at hlines
  obtain ⟨before, after, rfl, hbefore, hafter⟩ := map_eq_append_iff.mp hlines
  obtain ⟨line, rfl, hline⟩ := map_eq_singleton_iff.mp hafter
  obtain ⟨w, hw⟩ := h before hbefore
  obtain ⟨hprev, htorn⟩ := (Walk.over_knows hw).ofItems hok hbefore
  obtain ⟨w', hw'⟩ := hstep w line.1 hprev htorn
  refine ⟨w', ?_⟩
  rw [Walk.over_append, hw]
  rw [← hline] at hw'
  simp only [Except.bind, Walk.over, foldlM_cons, foldlM_nil]
  rw [hw']
  rfl

/-- A torn line may follow a record that holds. -/
lemma Holds.torn (h : Holds g items) (hok : ∀ item ∈ items, item.Ok g) {item : Item} (hitem : item.Ok g)
    (htorn : item.isWhole = false) : Holds g (items ++ [item]) := by
  refine h.concat hok ?_
  intro w place _ _
  have hread := hitem.torn htorn
  unfold isEntry at hread
  unfold Walk.step
  cases hline : g.reader.read (item.line g) with
  | error why => exact ⟨_, rfl⟩
  | ok value =>
    rw [hline] at hread
    cases hread

private lemma Walk.step_entry (w : Walk) (place : String) (seq timeMs : Nat) (e : Entry) (prev : String)
    (hlink : ∃ unlinked, w.link place prev (object g.rfc3339 seq timeMs e prev).view = .ok unlinked) :
    ∃ w', w.step g.sha256 g.reader.read (place, (entry seq timeMs e prev).line g) = .ok w' := by
  obtain ⟨unlinked, hlink⟩ := hlink
  unfold step
  rw [read_entry]
  simp only [object_prev, hlink]
  exact ⟨_, rfl⟩

/-- An entry that links to a whole last line may follow. -/
lemma Holds.entry (h : Holds g items) (hok : ∀ item ∈ items, item.Ok g) {seq timeMs : Nat} {e : Entry} {prev : String}
    (hlast : ∀ last, items.getLast? = some last → last.isWhole = true ∧ prev = last.hash g) :
    Holds g (items ++ [.entry seq timeMs e prev]) := by
  refine h.concat hok ?_
  intro w place hprev htorn
  apply Walk.step_entry
  have hnone : w.torn = none := by
    cases hl : items.getLast? with
    | none =>
      rw [hl] at htorn
      exact Option.map_eq_none_iff.mp htorn
    | some last =>
      rw [hl, Option.filter_some, (hlast last hl).1] at htorn
      exact Option.map_eq_none_iff.mp htorn
  unfold Walk.link
  rw [hnone]
  cases hl : items.getLast? with
  | none =>
    have hnil : items = [] := getLast?_eq_none_iff.mp hl
    rw [hprev, hnil]
    exact ⟨_, rfl⟩
  | some last =>
    obtain ⟨hwhole, hhash⟩ := hlast last hl
    obtain ⟨init, rfl⟩ : ∃ init, items = init ++ [last] := getLast?_eq_some_iff.mp hl
    rw [hprev, lastEntry_concat, if_pos hwhole, Option.map_some]
    simp only
    rw [if_neg (not_not.mpr hhash)]
    exact ⟨_, rfl⟩

/-- The repair of a torn last line may follow. -/
lemma Holds.repair (h : Holds g items) (hok : ∀ item ∈ items, item.Ok g) {last : Item}
    (hlast : items.getLast? = some last) (htorn : last.isWhole = false) (seq timeMs : Nat) {e : Entry}
    (hevent : e.event = "audit.chain_broken") {lastWhole : String}
    (hnamed : e.fields.lookup "last_whole" = some (.text lastWhole))
    (hwhole : ∀ entry, lastEntry items = some entry → lastWhole = entry.hash g) :
    Holds g (items ++ [.entry seq timeMs e (last.hash g)]) := by
  refine h.concat hok ?_
  intro w place hprev hrun
  apply Walk.step_entry
  rw [hlast, Option.filter_some, htorn] at hrun
  obtain ⟨run, htorn, hhash⟩ := Option.map_eq_some_iff.mp hrun
  unfold Walk.link
  rw [htorn, hprev]
  simp only [object_event, hevent, hhash, ne_eq, not_true_eq_false, or_self, if_false,
    object_text seq timeMs e _ (show "last_whole" ≠ "prev" by decide) hnamed]
  cases hentry : lastEntry items with
  | none => exact ⟨_, rfl⟩
  | some entry =>
    simp only [Option.map_some]
    rw [if_neg (not_not.mpr (hwhole entry hentry))]
    exact ⟨_, rfl⟩

/-- The newer part of a record that holds does. -/
lemma Holds.suffix {older : List Item} (h : Holds g (older ++ items)) : Holds g items := by
  intro lines hlines
  have hall : ((older.map fun item => ("", item.line g)) ++ lines).map Prod.snd = (older ++ items).map (line g) := by
    rw [map_append, map_append, hlines, map_map]
    rfl
  obtain ⟨w, hw⟩ := h _ hall
  rw [Walk.over_append] at hw
  obtain ⟨v, -, hw⟩ := bind_eq_ok.mp hw
  exact (Walk.Behind.start v).over hw

lemma Holds.init (newer : List Item) (h : Holds g (items ++ newer)) : Holds g items := by
  intro lines hlines
  have hall : (lines ++ newer.map fun item => ("", item.line g)).map Prod.snd = (items ++ newer).map (line g) := by
    rw [map_append, map_append, hlines, map_map]
    rfl
  obtain ⟨w, hw⟩ := h _ hall
  rw [Walk.over_append] at hw
  obtain ⟨v, hv, -⟩ := bind_eq_ok.mp hw
  exact ⟨v, hv⟩

/-- A record that holds and ends in a whole line verifies. -/
lemma Holds.verify (h : Holds g items) (hok : ∀ item ∈ items, item.Ok g)
    (hlast : ∀ last, items.getLast? = some last → last.isWhole = true)
    (hlines : lines.map Prod.snd = items.map (line g)) : (verify g.sha256 g.reader.read lines).isOk = true := by
  obtain ⟨w, hw⟩ := h lines hlines
  obtain ⟨-, htorn⟩ := (Walk.over_knows hw).ofItems hok hlines
  have hnone : w.torn = none := by
    cases hl : items.getLast? with
    | none =>
      rw [hl] at htorn
      exact Option.map_eq_none_iff.mp htorn
    | some last =>
      rw [hl, Option.filter_some, hlast last hl] at htorn
      exact Option.map_eq_none_iff.mp htorn
  unfold Audit.verify
  rw [hw]
  show w.finish.isOk = true
  rw [Walk.finish, hnone]
  rfl

end Holds

end OpampFleet.Server.Audit
