import OpampFleet.Server.AuditLeases

/-!
# Every entry once, over all chains

What the writer on a chain per lease keeps: the lines of its batch are placed one after the other at the end of the
chain it took up, the chain holds the first of them, as many as have landed, and the lines of all chains are those the
writer has told as written and these.
-/

namespace OpampFleet.Server.Audit

open Lib List

/-! ### Placing a batch -/

def placedItems (g : Setting) (chain : Option String) : String → Nat → List Line → List Item
  | _, _, [] => []
  | start, base, line :: lines =>
    let item := Item.entry (base + 1) line.timeMs (Writer.entryOf chain line) start
    item :: placedItems g chain (item.hash g) (base + 1) lines

variable {item : Item}

section Placed

variable {g : Setting} {chain : Option String} {start : String} {base : Nat} {lines lines' : List Line}

/-- The lines of a batch are chained. -/
lemma placedItems_chained (g : Setting) (chain : Option String) (start : String) (base : Nat) (lines : List Line) :
    Chained g start base (placedItems g chain start base lines) := by
  induction lines generalizing start base with
  | nil => trivial
  | cons line lines ih => exact ⟨⟨_, _, rfl⟩, ih _ _⟩

private lemma placedItems_length : (placedItems g chain start base lines).length = lines.length := by
  induction lines generalizing start base with
  | nil => rfl
  | cons line lines ih => rw [placedItems, length_cons, ih, length_cons]

lemma placedItems_append :
    placedItems g chain start base (lines ++ lines') = placedItems g chain start base lines ++
      placedItems g chain (lastHash g start (placedItems g chain start base lines)) (base + lines.length) lines' := by
  induction lines generalizing start base with
  | nil => rfl
  | cons line lines ih =>
    have hlength : base + (line :: lines).length = base + 1 + lines.length := by
      rw [length_cons]
      omega
    rw [cons_append, placedItems, placedItems, ih, cons_append, lastHash_cons, hlength]

private lemma placedItems_take (k : Nat) :
    (placedItems g chain start base lines).take k = placedItems g chain start base (lines.take k) := by
  induction lines generalizing start base k with
  | nil => rw [take_nil, placedItems, take_nil]
  | cons line lines ih =>
    cases k with
    | zero => rfl
    | succ k => rw [placedItems, take_succ_cons, take_succ_cons, ih, placedItems]

/-- The rest of a batch is placed where it was. -/
lemma placedItems_drop {k : Nat} (hk : k ≤ lines.length) :
    placedItems g chain (lastHash g start ((placedItems g chain start base lines).take k)) (base + k) (lines.drop k) =
      (placedItems g chain start base lines).drop k := by
  have hlength : (placedItems g chain start base (lines.take k)).length = k := by
    rw [placedItems_length, length_take, Nat.min_eq_left hk]
  have hsplit : placedItems g chain start base lines = _ :=
    (congrArg _ (take_append_drop k lines).symm).trans placedItems_append
  rw [placedItems_take, hsplit, drop_left' hlength, length_take, Nat.min_eq_left hk]

lemma entryOf_event (chain : Option String) (line : Line) : (Writer.entryOf chain line).event = line.entry.event := by
  unfold Writer.entryOf
  cases chain with
  | none =>
    split <;> rfl
  | some chain =>
    simp only [Entry.insert]
    split <;> split <;> rfl

private lemma entryOf_chain (chain : String) (line : Line) :
    (Writer.entryOf (some chain) line).fields.lookup "chain" = some (.text chain) := by
  unfold Writer.entryOf
  simp only
  split <;> simp [Entry.insert]

private lemma mem_placedItems (h : item ∈ placedItems g chain start base lines) :
    ∃ line ∈ lines, ∃ seq prev, item = .entry seq line.timeMs (Writer.entryOf chain line) prev := by
  induction lines generalizing start base with
  | nil => cases h
  | cons line lines ih =>
    rcases mem_cons.mp h with rfl | h
    · exact ⟨line, mem_cons_self, _, _, rfl⟩
    · obtain ⟨other, hother, hitem⟩ := ih h
      exact ⟨other, mem_cons_of_mem _ hother, hitem⟩

def Places (g : Setting) (row : String × String) (line : Line) : Prop :=
  ∃ seq prev, row.2 = render g.rfc3339 seq line.timeMs (Writer.entryOf (some row.1) line) prev

private lemma placedItems_places (g : Setting) (id start : String) (base : Nat) (lines : List Line) :
    List.Forall₂ (Places g) ((placedItems g (some id) start base lines).map fun item => (id, item.line g)) lines := by
  induction lines generalizing start base with
  | nil => exact .nil
  | cons line lines ih => exact .cons ⟨_, _, Item.line_entry _ _ _ _⟩ (ih _ _)

end Placed

/-! ### The lines of a chain -/

section Written

variable {g : Setting} {r : ChainRecord} {start : String} {base : Nat} {items : List Item}

lemma closesChain_line (h : ∃ seq timeMs e prev, item = .entry seq timeMs e prev) :
    closesChain g (item.line g) = decide (item.event = "audit.chain_closed") := by
  obtain ⟨seq, timeMs, e, prev, rfl⟩ := h
  unfold closesChain
  rw [Item.read_entry]
  simp only [object_event, Option.some.injEq]
  rfl

def writtenItems (items : List Item) : List Item := (items.drop 1).filter fun item => item.event ≠ "audit.chain_closed"

private lemma ChainOk.written (h : ChainOk g r start base items) :
    r.written g = (writtenItems items).map fun item => (r.id, item.line g) := by
  have hmem := h.chained.mem
  unfold ChainRecord.written writtenItems
  rw [map_drop, h.lines, ← map_drop, filter_map, map_map]
  refine congrArg _ (filter_congr ?_)
  intro item hitem
  have hline := closesChain_line (g := g) (hmem item (mem_of_mem_drop hitem))
  simp [hline]

private lemma writtenItems_append {front more closing : List Item} (hfront : front ≠ [])
    (hmore : ∀ item ∈ more, item.event ≠ "audit.chain_closed")
    (hclosing : ∀ item ∈ closing, item.event = "audit.chain_closed") :
    writtenItems (front ++ more ++ closing) = writtenItems front ++ more := by
  have hpos : 1 ≤ front.length := length_pos_iff.mpr hfront
  unfold writtenItems
  rw [append_assoc, drop_append_of_le_length hpos, filter_append, filter_append]
  have hkept : more.filter (fun item => item.event ≠ "audit.chain_closed") = more := by
    rw [filter_eq_self]
    exact fun item hitem => decide_eq_true (hmore item hitem)
  have hnone : closing.filter (fun item => item.event ≠ "audit.chain_closed") = [] := by
    rw [filter_eq_nil_iff]
    intro item hitem
    simp [hclosing item hitem]
  rw [hkept, hnone, append_nil]

end Written

/-! ### The store under the writer -/

/-- A chain that holds the lines before the batch and the first `k` of the batch, and once it is closed what closes it.
-/
def Tip (g : Setting) (r : ChainRecord) (start : String) (base : Nat) (more : List Item) (k : Nat) : Prop :=
  ∃ front closing, front ≠ [] ∧ front.length = base ∧ lastHash g genesis front = start ∧
    (∀ item ∈ closing, item.event = "audit.chain_closed") ∧ ChainOk g r genesis 0 (front ++ more.take k ++ closing)

/-- Among ids in order, a later one is this one or comes after it. -/
def Onward (ids : List String) (id later : String) : Prop :=
    ∃ before after, ids = before ++ id :: after ∧ (later = id ∨ later ∈ after)

section Onward

variable {ids more : List String} {id later : String}

private lemma Onward.refl (h : id ∈ ids) : Onward ids id id := by
  obtain ⟨before, after, hids⟩ := append_of_mem h
  exact ⟨before, after, hids, .inl rfl⟩

private lemma Onward.append {held : String} (h : Onward ids id held) (hlater : later = held ∨ later ∈ more) :
    Onward (ids ++ more) id later := by
  obtain ⟨before, after, hids, hheld⟩ := h
  refine ⟨before, after ++ more, by rw [hids, append_assoc, cons_append], ?_⟩
  rcases hlater with rfl | hlater
  · exact hheld.imp_right (mem_append_left _)
  · exact .inr (mem_append_right _ hlater)

private lemma Onward.after (h : Onward ids id later) {before after : List String} (hids : ids = before ++ id :: after)
    (hdistinct : ids.Nodup) : later = id ∨ later ∈ after := by
  obtain ⟨before', after', hids', hlater⟩ := h
  have hsame : after' = after := by
    have honce : ∀ {front rest : List String}, ids = front ++ id :: rest → id ∉ front ∧ id ∉ rest := by
      intro front rest hsplit
      rw [hsplit, nodup_append, nodup_cons] at hdistinct
      exact ⟨fun hmem => hdistinct.2.2 id hmem id mem_cons_self rfl, hdistinct.2.1.1⟩
    have hsplit := hids
    rw [hids'] at hsplit
    exact ((append_cons_inj_of_notMem (honce hids').1 (honce hids').2).mp hsplit).2.2
  rwa [hsame] at hlater

end Onward

structure Away (g : Setting) (s : PgStore) : Prop where
  quiet : ∀ r ∈ s.db.chains, r.written g = []
  leased : ∀ id, s.held = some id ∨ s.chain = some id → id ∈ s.db.chains.map ChainRecord.id
  pending : s.pending = none

/-- The chain the writer took up, whose lines the batch follows; nothing of the writer is in a later one. -/
structure OnChain (g : Setting) (s : PgStore) (id start : String) (base k : Nat) (batch : List Line)
    (before : List ChainRecord) (r : ChainRecord) (after : List ChainRecord) : Prop where
  chains : s.db.chains = before ++ r :: after
  named : r.id = id
  quiet : ∀ c ∈ after, c.written g = []
  leased : ∀ later, s.held = some later ∨ s.chain = some later → later = id ∨ later ∈ after.map ChainRecord.id
  tip : Tip g r start base (placedItems g (some id) start base batch) k
  pending : ∀ write, s.pending = some write → write.chain = id ∧ write.first = base + 1 ∧ write.closing = false ∧
    ∃ m ≤ batch.length, write.lines = ((placedItems g (some id) start base batch).take m).map (Item.line g)

/-- What the database holds: chains that hold, and of the writer the lines it told as written and the first `k` of the
batch. -/
structure Stored (g : Setting) (s : PgStore) (chain : Option String) (start : String) (base k : Nat)
    (batch emitted : List Line) : Prop where
  ok : ∀ r ∈ s.db.chains, ∃ items, items ≠ [] ∧ ChainOk g r genesis 0 items
  le : k ≤ batch.length
  noClosing : ∀ line ∈ batch, line.entry.event ≠ "audit.chain_closed"
  written : List.Forall₂ (Places g) (s.db.written g) (emitted ++ batch.take k)
  /-- The lease held now was not taken before the one `chain` answered last. -/
  order : ∀ id later, s.chain = some id → s.held = some later → Onward (s.db.chains.map ChainRecord.id) id later
  place : (chain = none ∧ k = 0 ∧ Away g s) ∨
    ∃ id before r after, chain = some id ∧ OnChain g s id start base k batch before r after

section Store

variable {g : Setting} {s s' : PgStore} {chain : Option String} {start : String} {base k : Nat}
  {batch emitted : List Line}

section

-- Nothing else is leased or pending than before.
variable (h : Stored g s chain start base k batch emitted)
  (hleased : ∀ id, s'.held = some id ∨ s'.chain = some id → s.held = some id ∨ s.chain = some id)
  (horder : ∀ id later, s'.chain = some id → s'.held = some later → Onward (s.db.chains.map ChainRecord.id) id later)
  (hpending : ∀ write, s'.pending = some write → s.pending = some write)
include h hleased horder hpending

private lemma Stored.of_map {F : ChainRecord → ChainRecord} (hchains : s'.db.chains = s.db.chains.map F)
    (hclosed : ∀ r ∈ s.db.chains, (F r).id = r.id ∧ (F r).written g = r.written g ∧
      ∀ items, items ≠ [] → ChainOk g r genesis 0 items → ∃ closing : List Item,
        (∀ item ∈ closing, item.event = "audit.chain_closed") ∧ ChainOk g (F r) genesis 0 (items ++ closing)) :
    Stored g s' chain start base k batch emitted := by
  have hids : ∀ {l : List ChainRecord}, (∀ r ∈ l, r ∈ s.db.chains) →
      (l.map F).map ChainRecord.id = l.map ChainRecord.id := by
    intro l hl
    rw [map_map]
    exact map_congr_left fun r hr => (hclosed r (hl r hr)).1
  refine ⟨?_, h.le, h.noClosing, ?_, ?_, ?_⟩
  · rw [hchains, forall_mem_map]
    intro r hr
    obtain ⟨items, hne, hok⟩ := h.ok r hr
    obtain ⟨closing, -, hok'⟩ := (hclosed r hr).2.2 items hne hok
    exact ⟨items ++ closing, by simp [hne], hok'⟩
  · have hwritten : s'.db.written g = s.db.written g := by
      rw [AuditDb.written, hchains, flatMap_map]
      exact flatMap_congr fun r hr => (hclosed r hr).2.1
    rw [hwritten]
    exact h.written
  · rwa [hchains, hids fun _ hr => hr]
  · refine h.place.imp ?_ ?_
    · rintro ⟨hnone, hzero, haway⟩
      refine ⟨hnone, hzero, ?_, ?_, ?_⟩
      · rw [hchains, forall_mem_map]
        exact fun r hr => (hclosed r hr).2.1.trans (haway.quiet r hr)
      · rw [hchains, hids fun _ hr => hr]
        exact fun id hid => haway.leased id (hleased id hid)
      · refine Option.eq_none_iff_forall_ne_some.mpr fun write hwrite => ?_
        cases haway.pending.symm.trans (hpending write hwrite)
    · rintro ⟨id, before, r, after, hsome, hon⟩
      have hmem : ∀ c, c = r ∨ c ∈ after → c ∈ s.db.chains := by
        intro c hc
        rw [hon.chains]
        exact mem_append_right _ (mem_cons.mpr hc)
      have hr := hclosed r (hmem r (.inl rfl))
      refine ⟨id, before.map F, F r, after.map F, hsome, ?_, hr.1.trans hon.named, ?_, ?_, ?_,
        fun write hwrite => hon.pending write (hpending write hwrite)⟩
      · rw [hchains, hon.chains, map_append, map_cons]
      · exact forall_mem_map.mpr fun c hc => (hclosed c (hmem c (.inr hc))).2.1.trans (hon.quiet c hc)
      · rw [hids fun c hc => hmem c (.inr hc)]
        exact fun later hlater => hon.leased later (hleased later hlater)
      · obtain ⟨front, closing, hne, hlength, hstart, hevents, hok⟩ := hon.tip
        obtain ⟨more, hmore, hok'⟩ := hr.2.2 _ (by simp [hne]) hok
        refine ⟨front, closing ++ more, hne, hlength, hstart, forall_mem_append.mpr ⟨hevents, hmore⟩, ?_⟩
        rwa [← append_assoc]

lemma Stored.of_chains (hchains : s'.db.chains = s.db.chains) : Stored g s' chain start base k batch emitted := by
  refine h.of_map hleased horder hpending (F := id) (hchains.trans (map_id _).symm) fun r _ => ⟨rfl, rfl, ?_⟩
  exact fun items _ hok => ⟨[], by simp, by rwa [append_nil]⟩

end

variable {id : String} {r : ChainRecord} {lines : List String}

private lemma held_of_taken {held chain : Option String} {known : Bool} {later : String}
    (h : (if known then some id else held) = some later ∨ chain = some later) :
    later = id ∨ held = some later ∨ chain = some later := by
  rcases h with h | h
  · cases known with
    | true => exact .inl (Option.some.inj h).symm
    | false => exact .inr (.inl h)
  · exact .inr (.inr h)

private lemma ChainOk.lapsed_written {items : List Item} {closing : Item} {r' : ChainRecord}
    (h : ChainOk g r start base items) (hne : items ≠ []) (hclosing : closing.event = "audit.chain_closed")
    (hid : r'.id = r.id) (h' : ChainOk g r' start base (items ++ [closing])) : r'.written g = r.written g := by
  have hitems : writtenItems (items ++ [] ++ [closing]) = writtenItems items ++ [] :=
    writtenItems_append hne (by simp) (forall_mem_singleton.mpr hclosing)
  rw [append_nil, append_nil] at hitems
  rw [h'.written, h.written, hitems, hid]

section

variable (h : Stored g s chain start base k batch emitted)
include h

private lemma Stored.mem_leased (hid : s.held = some id ∨ s.chain = some id) : id ∈ s.db.chains.map ChainRecord.id := by
  rcases h.place with ⟨-, -, haway⟩ | ⟨own, before, r, after, -, hon⟩
  · exact haway.leased id hid
  · rw [hon.chains, map_append, map_cons]
    refine mem_append_right _ (mem_cons.mpr ?_)
    rw [hon.named]
    exact hon.leased id hid

private lemma Stored.take (id : LeaseId) (ms : Nat) (host : String) (files : Option (Nat × String)) (known : Bool) :
    Stored g (s.act g (.take id ms host files known)) chain start base k batch emitted := by
  unfold PgStore.act
  simp only
  cases hopen : s.db.openChain g ms id host files with
  | error e => exact h
  | ok db =>
    obtain ⟨r, predecessor, hchains, hid, hok⟩ := AuditDb.openChain_chains hopen
    have hquiet : r.written g = [] := by
      rw [hok.written]
      rfl
    refine ⟨?_, h.le, h.noClosing, ?_, ?_, ?_⟩
    · rw [hchains]
      exact forall_mem_append.mpr ⟨h.ok, forall_mem_singleton.mpr ⟨_, cons_ne_nil _ _, hok⟩⟩
    · show List.Forall₂ (Places g) (db.written g) _
      rw [AuditDb.written, hchains, flatMap_append, flatMap_cons, hquiet]
      simpa [AuditDb.written] using h.written
    · intro own later hown hlater
      show Onward (db.chains.map ChainRecord.id) own later
      rw [hchains, map_append]
      have hnone : (if known then some id.text else s.held) = some later ∨ none = some later := .inl hlater
      rcases held_of_taken hnone with hlater | hlater | hlater
      · exact (Onward.refl (h.mem_leased (.inr hown))).append (.inr (by simp [hid, hlater]))
      · exact (h.order own later hown hlater).append (.inl rfl)
      · cases hlater
    · refine h.place.imp ?_ ?_
      · rintro ⟨hnone, hzero, haway⟩
        refine ⟨hnone, hzero, ?_, ?_, haway.pending⟩
        · rw [hchains]
          exact forall_mem_append.mpr ⟨haway.quiet, forall_mem_singleton.mpr hquiet⟩
        intro later hlater
        show later ∈ db.chains.map ChainRecord.id
        rw [hchains, map_append]
        rcases held_of_taken hlater with hlater | hlater
        · exact mem_append_right _ (by simp [hid, hlater])
        · exact mem_append_left _ (haway.leased later hlater)
      · rintro ⟨own, before, c, after, hsome, hon⟩
        refine ⟨own, before, c, after ++ [r], hsome, ?_, hon.named,
          forall_mem_append.mpr ⟨hon.quiet, forall_mem_singleton.mpr hquiet⟩, ?_, hon.tip, hon.pending⟩
        · show db.chains = _
          rw [hchains, hon.chains, append_assoc]
          rfl
        · intro later hlater
          rw [map_append]
          rcases held_of_taken hlater with hlater | hlater
          · exact .inr (mem_append_right _ (by simp [hid, hlater]))
          · exact (hon.leased later hlater).imp_right (mem_append_left _)

private lemma Stored.close (closed closedBy : String) (ms : Nat) :
    Stored g (s.act g (.close closed closedBy ms)) chain start base k batch emitted := by
  obtain ⟨F, hchains, hF⟩ := s.db.closeLapsed_chains g ms closed closedBy
  refine h.of_map (fun _ hid => hid) h.order (fun _ hwrite => hwrite) hchains fun r hr => ?_
  rcases hF r hr with hsame | ⟨hopen, line, hline, hr'⟩
  · rw [hsame]
    exact ⟨rfl, rfl, fun items _ hok => ⟨[], by simp, by rwa [append_nil]⟩⟩
  rw [hr']
  have hlapsed : ∀ items, items ≠ [] → ChainOk g r genesis 0 items → ∃ closing : Item,
      closing.event = "audit.chain_closed" ∧
      ChainOk g ((r.extend [line]).close (lineHash g.sha256 line)) genesis 0 (items ++ [closing]) :=
    fun items hne hok => hok.lapsed hne hopen ms closedBy hline
  obtain ⟨items, hne, hok⟩ := h.ok r hr
  obtain ⟨closing, hevent, hok'⟩ := hlapsed items hne hok
  refine ⟨rfl, hok.lapsed_written hne hevent rfl hok', fun items hne hok => ?_⟩
  obtain ⟨closing, hevent, hok'⟩ := hlapsed items hne hok
  exact ⟨[closing], forall_mem_singleton.mpr hevent, hok'⟩

end

private lemma ChainOk.written_tip {front more closing : List Item}
    (h : ChainOk g r genesis 0 (front ++ more ++ closing)) (hfront : front ≠ [])
    (hmore : ∀ item ∈ more, item.event ≠ "audit.chain_closed")
    (hclosing : ∀ item ∈ closing, item.event = "audit.chain_closed") :
    r.written g = (writtenItems front).map (fun item => (r.id, item.line g)) ++ more.map fun item =>
      (r.id, item.line g) := by
  rw [h.written, writtenItems_append hfront hmore hclosing, map_append]

private lemma Tip.open {more : List Item} (h : Tip g r start base more k) (hopen : r.closedHash = none) :
    ∃ front, front ≠ [] ∧ front.length = base ∧ lastHash g genesis front = start ∧
      ChainOk g r genesis 0 (front ++ more.take k ++ []) := by
  obtain ⟨front, closing, hne, hlength, hstart, hevents, hok⟩ := h
  have hnil : closing = [] := by
    refine eq_nil_iff_forall_not_mem.mpr ?_
    intro item hitem
    exact hok.unclosed hopen item (mem_append_right _ hitem) (hevents item hitem)
  rw [hnil] at hok
  exact ⟨front, hne, hlength, hstart, hok⟩

private lemma forall₂_of_append {α β : Type} {R : α → β → Prop} {l l' : List α} {m m' : List β}
    (h : List.Forall₂ R (l ++ l') (m ++ m')) (hlength : l'.length = m'.length) : List.Forall₂ R l m := by
  have htotal := h.length_eq
  rw [length_append, length_append] at htotal
  have hfront := forall₂_take_append _ _ _ h
  rwa [take_append_of_le_length (by omega), take_of_length_le (by omega)] at hfront

lemma Stored.events (h : Stored g s chain start base k batch emitted) :
    ∀ item ∈ placedItems g chain start base batch, item.event ≠ "audit.chain_closed" := by
  intro item hitem
  obtain ⟨line, hline, seq, prev, rfl⟩ := mem_placedItems hitem
  rw [Item.event, entryOf_event]
  exact h.noClosing line hline

lemma Stored.onChain (h : Stored g s (some id) start base k batch emitted) :
    ∃ before r after, OnChain g s id start base k batch before r after := by
  rcases h.place with ⟨hnone, -, -⟩ | ⟨own, before, r, after, hsome, hon⟩
  · cases hnone
  · cases hsome
    exact ⟨before, r, after, hon⟩

private lemma Stored.writeBatch (h : Stored g s (some id) start base k batch emitted) {m : Nat} (hm : m ≤ batch.length)
    (hlines : lines = ((placedItems g (some id) start base batch).take m).map (Item.line g)) {db : AuditDb}
    (hwrite : s.db.write g id (base + 1) lines false = .ok db) :
    Stored g { s with db := db, pending := none } (some id) start base m batch emitted := by
  have hevents := h.events
  obtain ⟨before, r, after, hon⟩ := h.onChain
  obtain ⟨hopen, hfirst, hfits, r', hchains, hid, hrows, hclosed⟩ := AuditDb.write_chains hwrite hon.chains hon.named
  obtain ⟨front, hne, hlength, hstart, hok⟩ := hon.tip.open hopen
  have hchained := placedItems_chained g (some id) start base batch
  have hmoreLength : (placedItems g (some id) start base batch).length = batch.length := placedItems_length
  have hnames : ∀ item ∈ placedItems g (some id) start base batch, item.names id := by
    intro item hitem
    obtain ⟨line, -, seq, prev, rfl⟩ := mem_placedItems hitem
    exact entryOf_chain id line
  have hplaces := placedItems_places g id start base (batch.take m)
  rw [← placedItems_take] at hplaces
  set more := placedItems g (some id) start base batch
  have htip := hok.written_tip hne (fun item hitem => hevents item (mem_of_mem_take hitem)) (by simp)
  rw [append_nil] at hok
  have hlast : r.lastSeq = base + k := by
    have hle := h.le
    rw [hok.lastSeq (by simp [hne]), length_append, length_take, hlength, hmoreLength]
    omega
  have hkm : k ≤ m := by
    rw [hlines, hlast, length_map, length_take, hmoreLength] at hfits
    omega
  have hrest : lines.drop (r.lastSeq + 1 - (base + 1)) = ((more.take m).drop k).map (Item.line g) := by
    rw [hlines, hlast, map_drop]
    congr 1
    omega
  have hsplit : more.take k ++ (more.take m).drop k = more.take m := by
    have htake : more.take k = (more.take m).take k := by rw [take_take, Nat.min_eq_left hkm]
    rw [htake, take_append_drop]
  have hmem : ∀ item ∈ (more.take m).drop k, item ∈ more :=
    fun item hitem => mem_of_mem_take (mem_of_mem_drop hitem)
  -- The chain with the lines that follow.
  have hgrown : ChainOk g r' genesis 0 (front ++ more.take m ++ []) := by
    rw [append_nil, ← hsplit, ← append_assoc]
    refine hok.grow (by simp [hne]) hopen ?_ ?_ ?_ hid ?_ ?_
    · have hfront := (chained_append.mp hok.chained).1
      have hwhole : Chained g genesis 0 (front ++ more.take m) := by
        refine chained_append.mpr ⟨hfront, ?_⟩
        rw [hstart, Nat.zero_add, hlength]
        rw [← take_append_drop m more] at hchained
        exact (chained_append.mp hchained).1
      rw [← hsplit, ← append_assoc] at hwhole
      exact (chained_append.mp hwhole).2
    · intro item hitem
      rw [hon.named]
      exact hnames item (hmem item hitem)
    · intro item hitem
      exact hevents item (hmem item (mem_of_mem_dropLast hitem))
    · rw [hrows, hrest]
    · intro last hlastItem
      have hunclosed : last.event ≠ "audit.chain_closed" := by
        rcases mem_append.mp (mem_of_getLast? hlastItem) with hitem | hitem
        · exact hok.unclosed hopen last hitem
        · exact hevents last (hmem last hitem)
      rw [hclosed, if_neg hunclosed]
      rfl
  have htip' := hgrown.written_tip hne (fun item hitem => hevents item (mem_of_mem_take hitem)) (by simp)
  have hquiet := flatMap_eq_nil_iff.mpr hon.quiet
  have hrid : r'.id = id := hid.trans hon.named
  refine ⟨?_, hm, h.noClosing, ?_, ?_, .inr ⟨id, before, r', after, rfl, hchains, hrid, hon.quiet, hon.leased, ?_, ?_⟩⟩
  · have hold := h.ok
    rw [hon.chains, forall_mem_append, forall_mem_cons] at hold
    rw [hchains, forall_mem_append, forall_mem_cons]
    exact ⟨hold.1, ⟨_, by simp [hne], hgrown⟩, hold.2.2⟩
  · have hold := h.written
    show List.Forall₂ (Places g) (db.written g) _
    unfold AuditDb.written at hold ⊢
    rw [hchains, flatMap_append, flatMap_cons, hquiet, htip', append_nil, ← append_assoc, hrid]
    rw [hon.chains, flatMap_append, flatMap_cons, hquiet, htip, append_nil, ← append_assoc,
      hon.named] at hold
    refine rel_append (forall₂_of_append hold ?_) hplaces
    rw [length_map, length_take, length_take, hmoreLength]
  · show ∀ own later, s.chain = some own → s.held = some later → Onward (db.chains.map ChainRecord.id) own later
    have hids : db.chains.map ChainRecord.id = s.db.chains.map ChainRecord.id := by
      rw [hchains, hon.chains, map_append, map_append, map_cons, map_cons, hid]
    rw [hids]
    exact h.order
  · exact ⟨front, [], hne, hlength, hstart, by simp, hgrown⟩
  · intro write hpending
    cases hpending

private lemma PgStore.act_chain (g : Setting) (s : PgStore) (a : LeaseAct) : (s.act g a).chain = s.chain := by
  cases a with
  | take id ms host files known =>
    simp only [act]
    split <;> rfl
  | lose | lapse chain | close chain closedBy ms => rfl
  | land =>
    simp only [act]
    split
    · rfl
    · split <;> rfl

section

variable (h : Stored g s chain start base k batch emitted)
include h

private lemma Stored.land {write : Pending} (hpending : s.pending = some write) :
    ∃ k', Stored g (s.act g .land) chain start base k' batch emitted := by
  simp only [PgStore.act, hpending]
  cases hwrite : s.db.write g write.chain write.first write.lines write.closing with
  | error e => exact ⟨k, h.of_chains (fun _ hid => hid) h.order (fun _ hwrite => by cases hwrite) rfl⟩
  | ok db =>
    rcases h.place with ⟨-, -, haway⟩ | ⟨id, before, r, after, hsome, hon⟩
    · simp [haway.pending] at hpending
    · obtain ⟨hchain, hfirst, hclosing, m, hm, hlines⟩ := hon.pending write hpending
      rw [hchain, hfirst, hclosing] at hwrite
      subst hsome
      exact ⟨m, h.writeBatch hm hlines hwrite⟩

/-- Whatever happens to the leases, more of the batch may land at most; nothing does when nothing is pending. -/
lemma Stored.act (a : LeaseAct) : ∃ k', Stored g (s.act g a) chain start base k' batch emitted ∧
      (s.pending = none → k' = k ∧ (s.act g a).pending = none) := by
  cases a with
  | take id ms host files known =>
    refine ⟨k, h.take id ms host files known, fun hnone => ⟨rfl, ?_⟩⟩
    simp only [PgStore.act]
    split <;> exact hnone
  | lose =>
    refine ⟨k, h.of_chains ?_ ?_ (fun _ hwrite => hwrite) rfl, fun hnone => ⟨rfl, hnone⟩⟩
    · rintro id (hid | hid)
      · cases hid
      · exact .inr hid
    · intro id later _ hheld
      cases hheld
  | lapse closed => exact
    ⟨k, h.of_chains (fun _ hid => hid) h.order (fun _ hwrite => hwrite) rfl, fun hnone => ⟨rfl, hnone⟩⟩
  | close closed closedBy ms => exact ⟨k, h.close closed closedBy ms, fun hnone => ⟨rfl, hnone⟩⟩
  | land =>
    cases hpending : s.pending with
    | none =>
      have hsame : s.act g .land = s := by simp only [PgStore.act, hpending]
      rw [hsame]
      exact ⟨k, h, fun _ => ⟨rfl, hpending⟩⟩
    | some write =>
      obtain ⟨k', hland⟩ := h.land hpending
      exact ⟨k', hland, nofun⟩

/-- What happens to the leases keeps what is stored. -/
lemma Stored.acts (acts : List LeaseAct) : (acts.foldl (PgStore.act g) s).chain = s.chain ∧
      ∃ k', Stored g (acts.foldl (PgStore.act g) s) chain start base k' batch emitted ∧
        (s.pending = none → k' = k ∧ (acts.foldl (PgStore.act g) s).pending = none) := by
  induction acts generalizing s k with
  | nil => exact ⟨rfl, k, h, fun hnone => ⟨rfl, hnone⟩⟩
  | cons a acts ih =>
    obtain ⟨k₁, hfirst, hnone₁⟩ := h.act a
    obtain ⟨hchain, k₂, hrest, hnone₂⟩ := ih hfirst
    refine ⟨hchain.trans (PgStore.act_chain g s a), k₂, hrest, ?_⟩
    intro hnone
    obtain ⟨hk₁, hpending⟩ := hnone₁ hnone
    obtain ⟨hk₂, hpending⟩ := hnone₂ hpending
    exact ⟨hk₂.trans hk₁, hpending⟩

private lemma Stored.before : (s.before g).chain = s.chain ∧
    ∃ k', Stored g (s.before g) chain start base k' batch emitted ∧
      (s.pending = none → k' = k ∧ (s.before g).pending = none) :=
  acts (s := { s with calls := s.calls.tail })
    (h.of_chains (fun _ hid => hid) h.order (fun _ hwrite => hwrite) rfl) _

/-- A call keeps what is stored. -/
lemma Stored.call : (s.call g).1.chain = s.chain ∧ (s.call g).1.pending = none ∧
      ∃ k', Stored g (s.call g).1 chain start base k' batch emitted ∧ (s.pending = none → k' = k) := by
  obtain ⟨hchain, k', hbefore, hnone⟩ := h.before
  refine ⟨hchain, rfl, k', hbefore.of_chains (fun _ hid => hid) hbefore.order (fun _ hwrite => by cases hwrite) rfl, ?_⟩
  exact fun hpending => (hnone hpending).1

lemma Stored.leaseChain {store : PgStore} {answer : Chain} (hanswer : s.leaseChain g = (store, answer)) :
    (∃ k', Stored g store chain start base k' batch emitted ∧ (s.pending = none → k' = k ∧ store.pending = none)) ∧
      ((∃ id, answer = .lease id ∧ store.chain = some id) ∨ (answer = .unleased ∧ store.chain = none)) := by
  obtain ⟨-, k', hbefore, hnone⟩ := h.before
  unfold PgStore.leaseChain at hanswer
  simp only [Prod.mk.injEq] at hanswer
  obtain ⟨rfl, hanswer⟩ := hanswer
  refine ⟨⟨k', hbefore.of_chains ?_ ?_ (fun _ hwrite => hwrite) rfl, hnone⟩, ?_⟩
  · intro id hid
    exact .inl (hid.elim (fun hid => hid) (fun hid => hid))
  · intro id later hid hlater
    have hsame : (s.before g).held = some later := hlater
    have hheld : (s.before g).held = some id := hid
    rw [hheld] at hsame
    cases hsame
    exact .refl (hbefore.mem_leased (.inl hheld))
  · cases hheld : (s.before g).held with
    | none =>
      rw [hheld] at hanswer
      exact .inr ⟨hanswer.symm, rfl⟩
    | some id =>
      rw [hheld] at hanswer
      exact .inl ⟨id, hanswer.symm, rfl⟩

end

/-- A write stores more of the batch, and all of it where it succeeds. -/
lemma Stored.write (h : Stored g s (some id) start base k batch emitted) (hchain : s.chain = some id)
    (hlines : lines = (placedItems g (some id) start base batch).map (Item.line g)) :
    ∃ k', Stored g (s.write g (base + 1) lines false).1 (some id) start base k' batch emitted ∧
      ((s.write g (base + 1) lines false).2 = .ok () → k' = batch.length ∧
        (s.write g (base + 1) lines false).1.pending = none) := by
  obtain ⟨hcallChain, hpending, k', hcall, -⟩ := h.call
  have htake : lines = ((placedItems g (some id) start base batch).take batch.length).map (Item.line g) := by
    rw [hlines, take_of_length_le (by rw [placedItems_length])]
  unfold PgStore.write
  rw [hchain]
  cases hs : s.call g with
  | mk s' ending =>
    rw [hs] at hcallChain hpending hcall
    simp only at hcallChain hpending hcall ⊢
    have hdone : ∀ db, s'.db.write g id (base + 1) lines false = .ok db →
        Stored g { s' with db := db } (some id) start base batch.length batch emitted := by
      intro db hwrite
      have hwritten := hcall.writeBatch le_rfl htake hwrite
      exact hwritten.of_chains (fun _ hid => hid) hwritten.order
        (fun write hsome => by rw [hpending] at hsome; cases hsome) rfl
    cases ending with
    | failed => exact ⟨k', hcall, nofun⟩
    | late =>
      refine ⟨k', ?_, nofun⟩
      obtain ⟨before, r, after, hon⟩ := hcall.onChain
      refine ⟨hcall.ok, hcall.le, hcall.noClosing, hcall.written, hcall.order,
        .inr ⟨id, before, r, after, rfl, hon.chains, hon.named, hon.quiet, hon.leased, hon.tip, ?_⟩⟩
      rintro write ⟨⟩
      exact ⟨rfl, rfl, rfl, batch.length, le_rfl, htake⟩
    | lost =>
      cases hwrite : s'.db.write g id (base + 1) lines false with
      | error e => exact ⟨k', hcall, nofun⟩
      | ok db => exact ⟨batch.length, hdone db hwrite, nofun⟩
    | answered =>
      cases hwrite : s'.db.write g id (base + 1) lines false with
      | error e => exact ⟨k', hcall, fun hok => by cases hok⟩
      | ok db => exact ⟨batch.length, hdone db hwrite, fun _ => ⟨rfl, hpending⟩⟩

/-- What is known to be stored leaves the batch. -/
lemma Stored.told (h : Stored g s (some id) start base k batch emitted) (hpending : s.pending = none) :
    Stored g s (some id) (lastHash g start ((placedItems g (some id) start base batch).take k)) (base + k) 0
      (batch.drop k) (emitted ++ batch.take k) := by
  obtain ⟨before, r, after, hon⟩ := h.onChain
  refine ⟨h.ok, Nat.zero_le _, fun line hline => h.noClosing line (mem_of_mem_drop hline), ?_, h.order,
    .inr ⟨id, before, r, after, rfl, hon.chains, hon.named, hon.quiet, hon.leased, ?_, ?_⟩⟩
  · rw [take_zero, append_nil]
    exact h.written
  · obtain ⟨front, closing, hne, hlength, hstart, hevents, hok⟩ := hon.tip
    refine ⟨front ++ (placedItems g (some id) start base batch).take k, closing, by simp [hne], ?_, ?_, hevents, ?_⟩
    · rw [length_append, hlength, length_take, placedItems_length, Nat.min_eq_left h.le]
    · rw [lastHash_append, hstart]
    · rwa [take_zero, append_nil]
  · intro write hwrite
    simp [hpending] at hwrite

/-- Another chain, that of a lease taken later, is taken up where it ends, with nothing of the writer in it. -/
lemma Stored.takeUp (h : Stored g s chain start base 0 batch emitted) (hid : s.chain = some id)
    (hnew : chain ≠ some id) (hpending : s.pending = none) :
    ∃ r row, s.db.find id = some r ∧ r.rows.getLast? = some row ∧
      ∀ lines : List Line, (∀ line ∈ lines, line.entry.event ≠ "audit.chain_closed") →
        Stored g s (some id) (lineHash g.sha256 row.line) row.seq 0 lines emitted := by
  obtain ⟨before, r, after, hchains, hrid, hquiet⟩ : ∃ before r after, s.db.chains = before ++ r :: after ∧ r.id = id ∧
      ∀ c, c = r ∨ c ∈ after → c.written g = [] := by
    rcases h.place with ⟨-, -, haway⟩ | ⟨own, before, c, after, hsome, hon⟩
    · obtain ⟨r, hr, hrid⟩ := mem_map.mp (haway.leased id (.inr hid))
      obtain ⟨before, after, hchains⟩ := append_of_mem hr
      refine ⟨before, r, after, hchains, hrid, ?_⟩
      intro c hc
      refine haway.quiet c ?_
      rw [hchains]
      exact mem_append_right _ (mem_cons.mpr hc)
    · rcases hon.leased id (.inr hid) with hown | hafter
      · rw [hsome, hown] at hnew
        exact absurd rfl hnew
      obtain ⟨r, hr, hrid⟩ := mem_map.mp hafter
      obtain ⟨between, rest, hsplit⟩ := append_of_mem hr
      refine ⟨before ++ c :: between, r, rest, ?_, hrid, ?_⟩
      · rw [hon.chains, hsplit, append_assoc, cons_append]
      · intro later hlater
        refine hon.quiet later ?_
        rw [hsplit]
        exact mem_append_right _ (mem_cons.mpr hlater)
  have hmem : r ∈ s.db.chains := by
    rw [hchains]
    exact mem_append_right _ mem_cons_self
  obtain ⟨items, hne, hok⟩ := h.ok r hmem
  obtain ⟨row, hrow⟩ : ∃ row, r.rows.getLast? = some row := by
    refine Option.ne_none_iff_exists'.mp (mt getLast?_eq_none_iff.mp ?_)
    intro hnil
    have hlength := hok.length_rows
    rw [hnil] at hlength
    exact hne (length_eq_zero_iff.mp hlength.symm)
  have hseq : row.seq = items.length := by
    have hlast := hok.lastSeq hne
    rwa [ChainRecord.lastSeq, hrow, Option.elim_some, Nat.zero_add] at hlast
  have hhash : lineHash g.sha256 row.line = lastHash g genesis items := by
    have hlast := hok.lastPrev hne
    rwa [ChainRecord.lastPrev, hrow, Option.elim_some] at hlast
  refine ⟨r, row, ?_, hrow, fun lines hlines => ⟨h.ok, Nat.zero_le _, hlines, h.written, h.order,
    .inr ⟨id, before, r, after, rfl, hchains, hrid, fun c hc => hquiet c (.inr hc), ?_, ?_, ?_⟩⟩⟩
  · rw [← hrid]
    exact AuditDb.find_of_mem hmem
  · have hids : s.db.chains.map ChainRecord.id = before.map ChainRecord.id ++ id :: after.map ChainRecord.id := by
      rw [hchains, map_append, map_cons, hrid]
    rintro later (hlater | hlater)
    · exact (h.order id later hid hlater).after hids s.db.distinct
    · rw [hid] at hlater
      exact .inl (Option.some.inj hlater).symm
  · refine ⟨items, [], hne, hseq.symm, hhash.symm, by simp, ?_⟩
    rwa [take_zero, append_nil, append_nil]
  · intro write hwrite
    simp [hpending] at hwrite

lemma Stored.longer (h : Stored g s chain start base k batch emitted) {more : List Line}
    (hmore : ∀ line ∈ more, line.entry.event ≠ "audit.chain_closed") :
    Stored g s chain start base k (batch ++ more) emitted := by
  have htake : ∀ {m}, m ≤ batch.length → ∀ id, (placedItems g (some id) start base (batch ++ more)).take m =
      (placedItems g (some id) start base batch).take m := by
    intro m hm id
    rw [placedItems_append, take_append_of_le_length (by rwa [placedItems_length])]
  refine ⟨h.ok, ?_, ?_, ?_, h.order, ?_⟩
  · have hle := h.le
    rw [length_append]
    omega
  · exact forall_mem_append.mpr ⟨h.noClosing, hmore⟩
  · rw [take_append_of_le_length h.le]
    exact h.written
  · refine h.place.imp_right ?_
    rintro ⟨id, before, r, after, hsome, hon⟩
    refine ⟨id, before, r, after, hsome, hon.chains, hon.named, hon.quiet, hon.leased, ?_, ?_⟩
    · unfold Tip
      rw [htake h.le]
      exact hon.tip
    intro write hwrite
    obtain ⟨hchain, hfirst, hclosing, m, hm, hlines⟩ := hon.pending write hwrite
    refine ⟨hchain, hfirst, hclosing, m, ?_, ?_⟩
    · rw [length_append]
      omega
    · rwa [htake hm]

end Store

end OpampFleet.Server.Audit
