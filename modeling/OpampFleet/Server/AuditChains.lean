import OpampFleet.Server.AuditRecord

/-!
# The audit record in the database

The model of the tables behind the Server's `postgres/audit.rs`, one chain of lines for each lease: what taking a lease
and taking one over write there, and the transaction the writer appends in. `ChainWalk` of `audit_log.rs` checks one
chain.
-/

namespace OpampFleet.Server.Audit

open Lib List Option

/-! ### Tables -/

structure Row where
  seq : Nat
  line : String
  deriving DecidableEq

structure ChainRecord where
  id : String
  short : (Core.utf8 id).length ≤ maxText
  closedHash : Option String
  rows : List Row
  ordered : rows.Pairwise fun row later => row.seq < later.seq

def numbered : Nat → List String → List Row
  | _, [] => []
  | seq, line :: lines => ⟨seq, line⟩ :: numbered (seq + 1) lines

variable {lines : List String}

private lemma le_of_mem_numbered {seq : Nat} {row : Row} (h : row ∈ numbered seq lines) : seq ≤ row.seq := by
  induction lines generalizing seq with
  | nil => cases h
  | cons line lines ih =>
    rcases mem_cons.mp h with rfl | h
    · exact le_rfl
    · exact Nat.le_of_succ_le (ih h)

private lemma numbered_ordered (seq : Nat) (lines : List String) :
    (numbered seq lines).Pairwise fun row later => row.seq < later.seq := by
  induction lines generalizing seq with
  | nil => exact List.Pairwise.nil
  | cons line lines ih => exact pairwise_cons.mpr ⟨fun row hrow => le_of_mem_numbered hrow, ih (seq + 1)⟩

namespace ChainRecord

def lastSeq (r : ChainRecord) : Nat := r.rows.getLast?.elim 0 Row.seq

def lastPrev (sha256 : Bytes → Bytes) (r : ChainRecord) : String :=
  r.rows.getLast?.elim genesis fun row => lineHash sha256 row.line

private lemma le_lastSeq {r : ChainRecord} {row : Row} (h : row ∈ r.rows) : row.seq ≤ r.lastSeq := by
  unfold lastSeq
  have hordered := r.ordered
  generalize r.rows = rows at h hordered
  induction rows using reverseRecOn with
  | nil => cases h
  | append_singleton rows last ih =>
    rw [getLast?_concat]
    rcases mem_append.mp h with h | h
    · exact Nat.le_of_lt ((pairwise_append.mp hordered).2.2 row h last mem_cons_self)
    · rw [mem_singleton.mp h]
      exact le_rfl

def extend (r : ChainRecord) (lines : List String) : ChainRecord where
  id := r.id
  short := r.short
  closedHash := r.closedHash
  rows := r.rows ++ numbered (r.lastSeq + 1) lines
  ordered := by
    refine pairwise_append.mpr ⟨r.ordered, numbered_ordered _ lines, ?_⟩
    intro row hrow later hlater
    have hle := le_lastSeq hrow
    have hlt := le_of_mem_numbered hlater
    omega

def close (r : ChainRecord) (hash : String) : ChainRecord := { r with closedHash := some hash }

end ChainRecord

structure AuditDb where
  chains : List ChainRecord
  distinct : (chains.map ChainRecord.id).Nodup
  leases : List String
  archive : Option (Nat × String)

structure LeaseId where
  text : String
  short : (Core.utf8 text).length ≤ maxText

def chainOpened (chain host : String) (predecessor : Option (Nat × String)) : Entry :=
  let entry := ((Entry.new "audit.chain_opened" "recorded").withText "chain" chain chain_free).withText "host" host
    (by decide)
  match predecessor with
  | none => entry
  | some (seq, hash) =>
    (entry.insert "predecessor_seq" (.unsigned seq) (by decide)).withText "predecessor_hash" hash (by decide)

def chainLapsed (chain closedBy : String) : Entry :=
  (((Entry.new "audit.chain_closed" "recorded").withText "chain" chain chain_free).withText "reason" "lease_lapsed"
    reason_free).withText "closed_by" closedBy (by decide)

namespace AuditDb

def empty : AuditDb := ⟨[], nodup_nil, [], none⟩

def find (db : AuditDb) (chain : String) : Option ChainRecord := db.chains.find? (·.id = chain)

def modify (db : AuditDb) (chain : String) (f : ChainRecord → ChainRecord) (hf : ∀ r, (f r).id = r.id) : AuditDb where
  chains := db.chains.map fun r => if r.id = chain then f r else r
  distinct := by
    have hids : (db.chains.map fun r => if r.id = chain then f r else r).map ChainRecord.id =
        db.chains.map ChainRecord.id := by
      rw [List.map_map]
      refine map_congr_left ?_
      intro r _
      show (if r.id = chain then f r else r).id = r.id
      split
      · exact hf r
      · rfl
    rw [hids]
    exact db.distinct
  leases := db.leases
  archive := db.archive

variable (g : Setting)

/-- `open_chain`, with the lease: the first chain ever names the end of a record moved from files. -/
def openChain (db : AuditDb) (ms : Nat) (id : LeaseId) (host : String) (files : Option (Nat × String)) :
    Except String AuditDb :=
  let archive := if db.chains.isEmpty then db.archive.or files else db.archive
  let predecessor := if db.chains.isEmpty then archive else none
  let line := render g.rfc3339 1 ms (chainOpened id.text host predecessor) genesis
  if h : id.text ∈ db.chains.map ChainRecord.id then .error "duplicate key value violates unique constraint"
  else
    .ok
      { chains := db.chains ++ [⟨id.text, id.short, none, [⟨1, line⟩], pairwise_singleton _ _⟩]
        distinct := by
          rw [map_append]
          exact nodup_append.mpr ⟨db.distinct, nodup_singleton _, fun a ha b hb => by
            rw [mem_singleton.mp hb]
            rintro rfl
            exact h ha⟩
        leases := db.leases ++ [id.text]
        archive := archive }

/-- `close_lapsed`, in the transaction that removes the lease: a chain already closed is left as it is. -/
def closeLapsed (db : AuditDb) (ms : Nat) (chain closedBy : String) : AuditDb :=
  let db := { db with leases := db.leases.filter (· ≠ chain) }
  match db.find chain with
  | none => db
  | some record =>
    if record.closedHash.isSome then db
    else
      let line := render g.rfc3339 (record.lastSeq + 1) ms (chainLapsed chain closedBy) (record.lastPrev g.sha256)
      db.modify chain (fun r => (r.extend [line]).close (lineHash g.sha256 line)) fun _ => rfl

/-- The transaction `write` runs: the lines of a batch that the chain holds already are not written again. -/
def write (db : AuditDb) (chain : String) (first : Nat) (lines : List String) (closing : Bool) :
    Except String AuditDb :=
  match db.find chain with
  | none => .error s!"the audit chain {chain} does not exist"
  | some record =>
    if record.closedHash.isSome then .error s!"the audit chain {chain} is closed"
    else if chain ∉ db.leases then .error s!"the lease of the audit chain {chain} is no longer held"
    else
      let last := record.lastSeq
      if last + 1 < first ∨ first + lines.length < last + 1 then
        .error s!"the audit chain {chain} ends at entry {last}, not at {first - 1}"
      else
        let landed := last + 1 - first
        if 0 < landed ∧ (record.rows.find? (·.seq = last)).map Row.line ≠ lines[landed - 1]? then
          .error s!"the audit chain {chain} ends at entry {last} on a line this instance did not write there, so the database was restored or changed behind it: run server audit-verify --config to see where the chain breaks, and restart this instance so that it writes into a chain of a new lease"
        else
          .ok (db.modify chain (fun r =>
            let r := r.extend (lines.drop landed)
            if closing then r.close ((lines.getLast?.map (lineHash g.sha256)).getD "") else r) fun r => by
              split <;> rfl)

end AuditDb

/-! ### Walking a chain -/

structure WalkedEntry where
  seq : Nat
  hash : String
  event : String
  time : String

structure Walked where
  entries : Nat
  lastSeq : Nat
  lastEvent : String
  lastTime : String
  closed : Bool
  predecessor : Option (Nat × String)

structure ChainWalk where
  chain : String
  entries : Nat := 0
  last : Option WalkedEntry := none
  closedAt : Option Nat := none
  predecessor : Option (Nat × String) := none
  /-- The `last_seq` and `last_hash` of every retained `audit.pruned` that names this chain. -/
  pruned : List (Nat × String) := []

namespace ChainWalk

variable (g : Setting)

def follows (w : ChainWalk) (seq : Nat) (event prev : String) (value : JsonView) :
    Except String (Option (Nat × String)) :=
  match w.last with
  | none =>
    if seq ≠ 1 then
      if (seq - 1, prev) ∉ w.pruned then
        .error s!"chain {w.chain}, entry {seq}: the chain does not begin with its audit.chain_opened, and no audit.pruned names entry {seq - 1} with hash {prev} as the last it removed from it — entries before this one are missing"
      else .ok w.predecessor
    else if event ≠ "audit.chain_opened" then
      .error s!"chain {w.chain}, entry {seq}: the chain does not begin with its audit.chain_opened — entries before this one are missing"
    else if prev ≠ genesis then .error s!"chain {w.chain}, entry {seq}: its prev is not 64 zeros"
    else
      match value.u64 "predecessor_seq", value.str "predecessor_hash" with
      | some seq, some hash => .ok (some (seq, hash))
      | _, _ => .ok w.predecessor
  | some last =>
    if seq ≠ last.seq + 1 then
      .error s!"chain {w.chain}, entry {seq}: it follows entry {last.seq} — the entries between are missing"
    else if prev ≠ last.hash then
      .error s!"chain {w.chain}, entry {seq}: its prev {prev} does not match the entry before it ({last.hash})"
    else .ok w.predecessor

def step (w : ChainWalk) (seq : Nat) (line : String) : Except String ChainWalk :=
  match g.reader.read line with
  | .error e => .error s!"chain {w.chain}, entry {seq}: not an audit entry: {e}"
  | .ok value =>
    if value.u64 "seq" ≠ some seq then
      .error s!"chain {w.chain}, entry {seq}: its seq is not the one it is stored under"
    else if value.str "chain" ≠ some w.chain then
      .error s!"chain {w.chain}, entry {seq}: it does not name this chain"
    else
      match w.closedAt with
      | some closed => .error s!"chain {w.chain}, entry {seq}: it follows the audit.chain_closed of entry {closed}"
      | none =>
        let event := (value.str "event").getD ""
        match value.str "prev" with
        | none => .error s!"chain {w.chain}, entry {seq}: no prev"
        | some prev =>
          (w.follows seq event prev value).map fun predecessor =>
            { w with
              predecessor := predecessor
              closedAt := if event = "audit.chain_closed" then some seq else none
              last := some ⟨seq, lineHash g.sha256 line, event, (value.str "time").getD ""⟩
              entries := w.entries + 1 }

def finish (w : ChainWalk) (closedHash : Option String) : Except String Walked :=
  match w.last with
  | none =>
    match closedHash with
    | none => .error s!"chain {w.chain}: it holds no entry"
    | some recorded =>
      -- Pruned whole: an `audit.pruned` names its closing entry as the last it removed.
      match w.pruned.find? (·.2 = recorded) with
      | some link => .ok ⟨0, link.1, "", "", true, none⟩
      | none =>
        .error s!"chain {w.chain}: it holds no entry, and no audit.pruned names its closing hash {recorded} as the last it removed from it"
  | some last =>
    match closedHash, w.closedAt with
    | some recorded, _ =>
      if recorded ≠ last.hash ∨ last.event ≠ "audit.chain_closed" then
        .error s!"chain {w.chain}, entry {last.seq}: the chain was closed on {recorded}, and its last entry is not that one — entries are missing from its end"
      else .ok ⟨w.entries, last.seq, last.event, last.time, true, w.predecessor⟩
    | none, some closing => .error s!"chain {w.chain}, entry {closing}: it closes the chain, whose record is not closed"
    | none, none => .ok ⟨w.entries, last.seq, last.event, last.time, false, w.predecessor⟩

end ChainWalk

def ChainWalk.over (g : Setting) (w : ChainWalk) (rows : List Row) : Except String ChainWalk :=
  rows.foldlM (fun w row => w.step g row.seq row.line) w

def ChainRecord.walk (g : Setting) (r : ChainRecord) (pruned : List (Nat × String)) : Except String Walked := do
  let w ← ({ chain := r.id, pruned := pruned } : ChainWalk).over g r.rows
  w.finish r.closedHash

/-! ### Chains that hold -/

def Item.event : Item → String
  | .entry _ _ e _ => e.event
  | .torn .. => ""

def Item.names (chain : String) : Item → Prop
  | .entry _ _ e _ => e.fields.lookup "chain" = some (.text chain)
  | .torn .. => False

structure ChainOk (g : Setting) (r : ChainRecord) (start : String) (base : Nat) (items : List Item) : Prop where
  chained : Chained g start base items
  seqs : r.rows.map Row.seq = range' (base + 1) items.length
  lines : r.rows.map Row.line = items.map (Item.line g)
  named : ∀ item ∈ items, item.names r.id
  opened : base = 0 → start = genesis ∧ ∀ first, items.head? = some first → first.event = "audit.chain_opened"
  within : ∀ item ∈ items.dropLast, item.event ≠ "audit.chain_closed"
  ended : ∀ last, items.getLast? = some last →
    r.closedHash = if last.event = "audit.chain_closed" then some (last.hash g) else none

variable {chain : String}

section Walk

variable {g : Setting} {w : ChainWalk} {start : String} {base : Nat} {items : List Item}
  {pruned : List (Nat × String)}

structure ChainWalk.At (g : Setting) (w : ChainWalk) (chain start : String) (base : Nat) (pruned : List (Nat × String))
    (items : List Item) : Prop where
  chain : w.chain = chain
  pruned : w.pruned = pruned
  last : w.last.map (fun last => (last.seq, last.hash, last.event)) =
    items.getLast?.map fun item => (base + items.length, item.hash g, item.event)
  closedAt : w.closedAt = none ↔ ∀ last, items.getLast? = some last → last.event ≠ "audit.chain_closed"

private lemma ChainWalk.At.step (h : w.At g chain start base pruned items)
    (timeMs : Nat) (hopen : ∀ last, items.getLast? = some last → last.event ≠ "audit.chain_closed") {e : Entry}
    {prev : String} (hprev : prev = lastHash g start items) (hnamed : e.fields.lookup "chain" = some (.text chain))
    (hbegin : items = [] → (base = 0 ∧ start = genesis ∧ e.event = "audit.chain_opened") ∨
      (base, start) ∈ pruned ∧ base ≠ 0) :
    ∃ w', w.step g (base + items.length + 1) (render g.rfc3339 (base + items.length + 1) timeMs e prev) = .ok w' ∧
      w'.At g chain start base pruned (items ++ [.entry (base + items.length + 1) timeMs e prev]) := by
  set seq := base + items.length + 1 with hseq
  have hfollows : ∃ predecessor, w.follows seq e.event prev (object g.rfc3339 seq timeMs e prev).view =
    .ok predecessor := by
    unfold ChainWalk.follows
    have hlast := h.last
    cases hl : items.getLast? with
    | none =>
      have hnil := getLast?_eq_none_iff.mp hl
      rw [hl, map_none, map_eq_none_iff] at hlast
      rw [hlast]
      have hfirst : seq = base + 1 := by rw [hseq, hnil]; rfl
      have hstart : prev = start := by rw [hprev, hnil]; rfl
      rcases hbegin hnil with ⟨hzero, hgenesis, hevent⟩ | ⟨hpruned, hne⟩
      · have hone : seq = 1 := by omega
        simp only [hone, hevent, hstart, hgenesis, ne_eq, not_true_eq_false, if_false]
        split <;> exact ⟨_, rfl⟩
      have hmem : (seq - 1, prev) ∈ w.pruned := by
        rwa [h.pruned, hstart, hfirst]
      have hnotOne : seq ≠ 1 := by omega
      rw [if_pos hnotOne, if_neg (not_not.mpr hmem)]
      exact ⟨_, rfl⟩
    | some last =>
      rw [hl, map_some] at hlast
      obtain ⟨before, hbefore, hfields⟩ := map_eq_some_iff.mp hlast
      rw [Prod.mk.injEq, Prod.mk.injEq] at hfields
      have hstated : prev = before.hash := by
        rw [hprev, lastHash, hl, hfields.2.1]
        rfl
      rw [hbefore]
      simp only
      rw [if_neg (by omega), if_neg (not_not.mpr hstated)]
      exact ⟨_, rfl⟩
  obtain ⟨predecessor, hfollows⟩ := hfollows
  have hread : g.reader.read (render g.rfc3339 seq timeMs e prev) = .ok (object g.rfc3339 seq timeMs e prev).view :=
    g.reader.read_write _
  have hclosed : w.closedAt = none := h.closedAt.mpr hopen
  have hstep : w.step g seq (render g.rfc3339 seq timeMs e prev) = .ok
      { w with
        predecessor := predecessor
        closedAt := if e.event = "audit.chain_closed" then some seq else none
        last := some ⟨seq, lineHash g.sha256 (render g.rfc3339 seq timeMs e prev), e.event,
          ((object g.rfc3339 seq timeMs e prev).view.str "time").getD ""⟩
        entries := w.entries + 1 } := by
    unfold ChainWalk.step
    rw [hread]
    simp only [object_seq, object_text seq timeMs e prev (show "chain" ≠ "prev" by decide) hnamed, h.chain, hclosed,
      object_event, object_prev, ne_eq, not_true_eq_false, if_false, getD_some, hfollows]
    rfl
  refine ⟨_, hstep, h.chain, h.pruned, ?_, ?_⟩
  · rw [getLast?_concat, length_append, map_some, map_some, Item.hash, Item.line_entry]
    rfl
  · rw [getLast?_concat]
    by_cases hevent : e.event = "audit.chain_closed" <;> simp [hevent, Item.event]

private lemma ChainWalk.over_chained {r : ChainRecord} {rows : List Row}
    (hchained : Chained g start base items) (hseqs : rows.map Row.seq = range' (base + 1) items.length)
    (hlines : rows.map Row.line = items.map (Item.line g)) (hnamed : ∀ item ∈ items, item.names r.id)
    (hopened : base = 0 → start = genesis ∧ ∀ first, items.head? = some first → first.event = "audit.chain_opened")
    (hwithin : ∀ item ∈ items.dropLast, item.event ≠ "audit.chain_closed") (hlink : base ≠ 0 → (base, start) ∈ pruned) :
    ∃ w, ({ chain := r.id, pruned := pruned } : ChainWalk).over g rows = .ok w ∧
      w.At g r.id start base pruned items := by
  induction items using reverseRecOn generalizing rows with
  | nil =>
    rw [map_eq_nil_iff.mp hseqs]
    exact ⟨_, rfl, rfl, rfl, rfl, by simp⟩
  | append_singleton items item ih =>
    obtain ⟨hbefore, ⟨timeMs, e, hitem⟩, -⟩ := chained_append.mp hchained
    rw [map_append] at hlines
    obtain ⟨front, back, rfl, hfront, hback⟩ := map_eq_append_iff.mp hlines
    obtain ⟨row, rfl, hline⟩ := map_eq_singleton_iff.mp hback
    have hrange : range' (base + 1) (items ++ [item]).length =
        range' (base + 1) items.length ++ [base + 1 + items.length] := by
      rw [length_append]
      exact range'_1_concat
    rw [map_append, hrange] at hseqs
    obtain ⟨hseqs, hseq⟩ := append_inj' hseqs rfl
    obtain ⟨w, hw, hat⟩ := ih hbefore hseqs hfront (fun i hi => hnamed i (mem_append_left _ hi))
      (fun hzero => ⟨(hopened hzero).1, fun first hfirst => (hopened hzero).2 first (by
        rw [head?_append, hfirst]
        rfl)⟩)
      (fun i hi => hwithin i (by
        rw [dropLast_concat]
        exact mem_of_mem_dropLast hi))
    have hopen : ∀ last, items.getLast? = some last → last.event ≠ "audit.chain_closed" := by
      intro last hlast
      refine hwithin last ?_
      rw [dropLast_concat]
      exact mem_of_getLast? hlast
    have hbegin : items = [] →
        (base = 0 ∧ start = genesis ∧ e.event = "audit.chain_opened") ∨ (base, start) ∈ pruned ∧ base ≠ 0 := by
      intro hnil
      by_cases hzero : base = 0
      · obtain ⟨hgenesis, hfirst⟩ := hopened hzero
        refine .inl ⟨hzero, hgenesis, ?_⟩
        have hevent := hfirst item (by rw [hnil]; rfl)
        rwa [hitem] at hevent
      · exact .inr ⟨hlink hzero, hzero⟩
    have hname : e.fields.lookup "chain" = some (.text r.id) := by
      have hname := hnamed item (mem_append_right _ mem_cons_self)
      rwa [hitem] at hname
    obtain ⟨w', hw', hat'⟩ := hat.step timeMs hopen rfl hname hbegin
    refine ⟨w', ?_, ?_⟩
    · have hrowSeq : row.seq = base + items.length + 1 := by
        have hone := singleton_injective hseq
        omega
      unfold ChainWalk.over at hw ⊢
      rw [foldlM_append, hw]
      refine bind_eq_ok.mpr ⟨w, rfl, ?_⟩
      rw [foldlM_cons, hrowSeq, hline, hitem, Item.line_entry, hw']
      rfl
    · rwa [hitem]

/-- A chain that is in order passes its walk. -/
lemma ChainOk.walk {r : ChainRecord} (h : ChainOk g r start base items)
    (hne : items ≠ []) (hlink : base ≠ 0 → (base, start) ∈ pruned) : (r.walk g pruned).isOk = true := by
  obtain ⟨w, hw, hat⟩ := ChainWalk.over_chained h.chained h.seqs h.lines h.named h.opened h.within hlink
  unfold ChainRecord.walk
  rw [hw]
  show (w.finish r.closedHash).isOk = true
  obtain ⟨last, hlast⟩ := ne_none_iff_exists'.mp (mt getLast?_eq_none_iff.mp hne)
  have hfields := hat.last
  rw [hlast, map_some] at hfields
  obtain ⟨before, hbefore, hfields⟩ := map_eq_some_iff.mp hfields
  rw [Prod.mk.injEq, Prod.mk.injEq] at hfields
  have hclosedAt := hat.closedAt
  rw [hlast] at hclosedAt
  unfold ChainWalk.finish
  rw [hbefore, h.ended last hlast]
  by_cases hevent : last.event = "audit.chain_closed"
  · simp only [if_pos hevent]
    rw [if_neg]
    · rfl
    · rw [hfields.2.1, hfields.2.2, hevent]
      simp
  · have hnone : w.closedAt = none := by
      refine hclosedAt.mpr ?_
      intro other hother
      cases hother
      exact hevent
    simp only [if_neg hevent, hnone]
    rfl

end Walk

/-! ### Chains that grow -/

section Grow

variable {g : Setting} {r : ChainRecord} {start : String} {base : Nat} {items more : List Item}

private lemma numbered_seqs (seq : Nat) (lines : List String) :
    (numbered seq lines).map Row.seq = range' seq lines.length := by
  induction lines generalizing seq with
  | nil => rfl
  | cons line lines ih =>
    rw [numbered, map_cons, ih, length_cons, range'_succ]

private lemma numbered_lines (seq : Nat) (lines : List String) : (numbered seq lines).map Row.line = lines := by
  induction lines generalizing seq with
  | nil => rfl
  | cons line lines ih => rw [numbered, map_cons, ih]

section

variable (h : ChainOk g r start base items)
include h

lemma ChainOk.length_rows : r.rows.length = items.length := by
  have hlength := congrArg length h.lines
  rwa [length_map, length_map] at hlength

lemma ChainOk.lastSeq (hne : items ≠ []) : r.lastSeq = base + items.length := by
  have hpos : 0 < items.length := length_pos_iff.mpr hne
  have hlast := congrArg getLast? h.seqs
  rw [getLast?_map, getLast?_range'] at hlast
  unfold ChainRecord.lastSeq
  cases hrow : r.rows.getLast? with
  | none =>
    simp [hrow, if_neg (by omega)] at hlast
  | some row =>
    rw [hrow, if_neg (by omega), map_some] at hlast
    have hseq := Option.some.inj hlast
    show row.seq = _
    omega

lemma ChainOk.lastPrev (hne : items ≠ []) : r.lastPrev g.sha256 = lastHash g start items := by
  have hlast := congrArg getLast? h.lines
  rw [getLast?_map, getLast?_map] at hlast
  obtain ⟨last, hl⟩ := ne_none_iff_exists'.mp (mt getLast?_eq_none_iff.mp hne)
  rw [hl, map_some] at hlast
  obtain ⟨row, hrow, hline⟩ := map_eq_some_iff.mp hlast
  rw [ChainRecord.lastPrev, lastHash, hrow, hl]
  show lineHash g.sha256 row.line = _
  rw [hline]
  rfl

lemma ChainOk.unclosed (hopen : r.closedHash = none) : ∀ item ∈ items, item.event ≠ "audit.chain_closed" := by
  intro item hitem
  rcases eq_nil_or_concat items with hnil | ⟨init, last, hconcat⟩
  · simp [hnil] at hitem
  rw [concat_eq_append] at hconcat
  rw [hconcat] at hitem
  rcases mem_append.mp hitem with hinit | hlast
  · refine h.within item ?_
    rwa [hconcat, dropLast_concat]
  · intro hevent
    have hend := h.ended item (by rw [hconcat, getLast?_concat, mem_singleton.mp hlast])
    simp [hopen, if_pos hevent] at hend

/-- A chain stays in order with entries that link to its last. -/
lemma ChainOk.grow (hne : items ≠ []) (hopen : r.closedHash = none)
    (hmore : Chained g (lastHash g start items) (base + items.length) more) (hnamed : ∀ item ∈ more, item.names r.id)
    (hwithin : ∀ item ∈ more.dropLast, item.event ≠ "audit.chain_closed") {r' : ChainRecord} (hid : r'.id = r.id)
    (hrows : r'.rows = (r.extend (more.map (Item.line g))).rows)
    (hended : ∀ last, (items ++ more).getLast? = some last →
      r'.closedHash = if last.event = "audit.chain_closed" then some (last.hash g) else none) :
    ChainOk g r' start base (items ++ more) where
  chained := chained_append.mpr ⟨h.chained, hmore⟩
  seqs := by
    rw [hrows, ChainRecord.extend, map_append, h.seqs, numbered_seqs, h.lastSeq hne, length_map,
      length_append, range'_append_1.symm, Nat.add_right_comm]
  lines := by
    rw [hrows, ChainRecord.extend, map_append, h.lines, numbered_lines, map_append]
  named := by
    rw [hid]
    exact forall_mem_append.mpr ⟨h.named, hnamed⟩
  opened := by
    intro hzero
    refine ⟨(h.opened hzero).1, ?_⟩
    intro first hfirst
    rw [head?_append_of_ne_nil _ hne] at hfirst
    exact (h.opened hzero).2 first hfirst
  within := by
    by_cases hnil : more = []
    · rw [hnil, append_nil]
      exact h.within
    · rw [dropLast_append_of_ne_nil hnil]
      exact forall_mem_append.mpr ⟨h.unclosed hopen, hwithin⟩
  ended := hended

/-- Closing a chain that lapsed keeps it in order. -/
lemma ChainOk.lapsed (hne : items ≠ []) (hopen : r.closedHash = none)
    (ms : Nat) (closedBy : String) {line : String}
    (hline : line = render g.rfc3339 (r.lastSeq + 1) ms (chainLapsed r.id closedBy) (r.lastPrev g.sha256)) :
    ∃ closing : Item, closing.event = "audit.chain_closed" ∧
      ChainOk g ((r.extend [line]).close (lineHash g.sha256 line)) start base (items ++ [closing]) := by
  set closing := Item.entry (base + items.length + 1) ms (chainLapsed r.id closedBy)
    (lastHash g start items) with hclosing
  have htext : closing.line g = line := by
    rw [hclosing, Item.line_entry, hline, h.lastSeq hne, h.lastPrev hne]
  have hnamed : closing.names r.id := by
    show (chainLapsed r.id closedBy).fields.lookup "chain" = some (.text r.id)
    simp [chainLapsed, Entry.lookup_withText, bounded_of_le r.short]
  have hmore : Chained g (lastHash g start items) (base + items.length) [closing] := ⟨⟨ms, _, rfl⟩, trivial⟩
  refine ⟨closing, rfl, h.grow hne hopen hmore ?_ ?_ rfl ?_ ?_⟩
  · intro item hitem
    rwa [mem_singleton.mp hitem]
  · intro item hitem
    cases hitem
  · rw [map_singleton, htext]
    rfl
  · intro last hlast
    rw [getLast?_concat] at hlast
    cases hlast
    rw [if_pos (show closing.event = "audit.chain_closed" from rfl), Item.hash, htext]
    rfl

end

private lemma chainOk_opened (g : Setting) (id : LeaseId) (ms : Nat) (host : String)
    (predecessor : Option (Nat × String))
    {line : String} (hline : line = render g.rfc3339 1 ms (chainOpened id.text host predecessor) genesis) :
    ChainOk g ⟨id.text, id.short, none, [⟨1, line⟩], pairwise_singleton _ _⟩ genesis 0
      [.entry 1 ms (chainOpened id.text host predecessor) genesis] where
  chained := ⟨⟨ms, _, rfl⟩, trivial⟩
  seqs := rfl
  lines := by
    rw [map_singleton, map_singleton, Item.line_entry, hline]
  named := by
    intro item hitem
    rw [mem_singleton.mp hitem]
    show (chainOpened id.text host predecessor).fields.lookup "chain" = some (.text id.text)
    cases predecessor with
    | none => simp [chainOpened, Entry.lookup_withText, bounded_of_le id.short]
    | some named => simp [chainOpened, Entry.lookup_withText, Entry.lookup_insert, bounded_of_le id.short]
  opened := by
    intro _
    refine ⟨rfl, ?_⟩
    rintro first ⟨⟩
    cases predecessor <;> rfl
  within := by
    intro item hitem
    cases hitem
  ended := by
    rintro last ⟨⟩
    rw [if_neg]
    cases predecessor <;> exact (by decide : ¬"audit.chain_opened" = "audit.chain_closed")

end Grow

/-! ### Finding a chain -/

section Find

variable {db : AuditDb} {r : ChainRecord}

lemma AuditDb.find_of_mem (h : r ∈ db.chains) : db.find r.id = some r := by
  have hsome : (db.find r.id).isSome := find?_isSome.mpr ⟨r, h, decide_eq_true rfl⟩
  obtain ⟨found, hfound⟩ := isSome_iff_exists.mp hsome
  have hid := find?_some hfound
  have hsame := inj_on_of_nodup_map db.distinct (mem_of_find?_eq_some hfound) h (of_decide_eq_true hid)
  rwa [hsame] at hfound

/-- A chain opens with its first entry. -/
lemma AuditDb.openChain_chains {g : Setting} {db' : AuditDb} {ms : Nat} {id : LeaseId} {host : String}
    {files : Option (Nat × String)} (h : db.openChain g ms id host files = .ok db') :
    ∃ r predecessor, db'.chains = db.chains ++ [r] ∧ r.id = id.text ∧
      ChainOk g r genesis 0 [.entry 1 ms (chainOpened id.text host predecessor) genesis] := by
  unfold openChain at h
  simp only at h
  split at h
  · cases h
  · rw [← Except.ok.inj h]
    exact ⟨_, _, rfl, rfl, chainOk_opened g id ms host _ rfl⟩

private lemma AuditDb.modify_chains {f : ChainRecord → ChainRecord} {hf : ∀ r, (f r).id = r.id}
    {before after : List ChainRecord} (h : db.chains = before ++ r :: after) (hid : r.id = chain) :
    (db.modify chain f hf).chains = before ++ f r :: after := by
  have hdistinct := db.distinct
  rw [h, map_append, map_cons, nodup_append, nodup_cons] at hdistinct
  obtain ⟨-, ⟨hafter, -⟩, hbefore⟩ := hdistinct
  have hsame : ∀ c : ChainRecord, c ∈ before ∨ c ∈ after → (if c.id = chain then f c else c) = c := by
    intro c hc
    refine if_neg ?_
    intro heq
    rcases hc with hc | hc
    · exact hbefore _ (List.mem_map_of_mem hc) _ mem_cons_self (heq.trans hid.symm)
    · exact hafter (hid.trans heq.symm ▸ List.mem_map_of_mem hc)
  show db.chains.map _ = _
  rw [h, map_append, map_cons, if_pos hid, map_congr_left (fun c hc => hsame c (.inl hc)),
    map_congr_left (fun c hc => hsame c (.inr hc)), List.map_id', List.map_id']

/-- When a batch is written: its lines follow the open chain's last, or some of them are there already. -/
lemma AuditDb.write_chains {g : Setting} {db' : AuditDb} {first : Nat}
    {closing : Bool} (h : db.write g chain first lines closing = .ok db') {before after : List ChainRecord}
    (hchains : db.chains = before ++ r :: after) (hid : r.id = chain) :
    r.closedHash = none ∧ first ≤ r.lastSeq + 1 ∧ r.lastSeq + 1 ≤ first + lines.length ∧
      ∃ r' : ChainRecord, db'.chains = before ++ r' :: after ∧ r'.id = r.id ∧
        r'.rows = (r.extend (lines.drop (r.lastSeq + 1 - first))).rows ∧
        r'.closedHash = if closing then some ((lines.getLast?.map (lineHash g.sha256)).getD "") else none := by
  have hmem : r ∈ db.chains := by
    rw [hchains]
    exact mem_append_right _ mem_cons_self
  have hfind := find_of_mem hmem
  rw [hid] at hfind
  simp only [write, hfind, ite_error_eq_ok, Except.ok.injEq] at h
  obtain ⟨hopen, -, hfits, -, rfl⟩ := h
  have hnone : r.closedHash = none := by simpa using hopen
  refine ⟨hnone, by omega, by omega, _, modify_chains hchains hid, ?_⟩
  cases closing with
  | true => exact ⟨rfl, rfl, rfl⟩
  | false => exact ⟨rfl, rfl, hnone⟩

/-- `closeLapsed` closes a chain that is open, with a line of its own, or leaves it. -/
lemma AuditDb.closeLapsed_chains (g : Setting) (db : AuditDb) (ms : Nat) (chain closedBy : String) :
    ∃ F : ChainRecord → ChainRecord, (db.closeLapsed g ms chain closedBy).chains = db.chains.map F ∧
      ∀ r ∈ db.chains, F r = r ∨ (r.closedHash = none ∧ ∃ line,
        line = render g.rfc3339 (r.lastSeq + 1) ms (chainLapsed r.id closedBy) (r.lastPrev g.sha256) ∧
        F r = (r.extend [line]).close (lineHash g.sha256 line)) := by
  unfold closeLapsed
  simp only
  cases hfind : ({ db with leases := db.leases.filter (· ≠ chain) } : AuditDb).find chain with
  | none => exact ⟨id, (map_id _).symm, fun r _ => .inl rfl⟩
  | some record =>
    simp only
    split
    · exact ⟨id, (map_id _).symm, fun r _ => .inl rfl⟩
    rename_i hopen
    refine ⟨_, rfl, ?_⟩
    intro r hr
    by_cases hid : r.id = chain
    · have hsame : record = r := by
        have hfind' : db.find r.id = some record := by rw [hid]; exact hfind
        rw [find_of_mem hr] at hfind'
        exact (Option.some.inj hfind').symm
      rw [if_pos hid, hsame]
      refine .inr ⟨by rw [hsame] at hopen; simpa using hopen, _, rfl, ?_⟩
      rw [hid]
    · exact .inl (if_neg hid)

end Find

end OpampFleet.Server.Audit
