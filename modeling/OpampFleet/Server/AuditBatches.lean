import OpampFleet.Server.AuditOnce

/-!
# The writer's batches on a chain per lease

What the writer knows of its batch: each line is in its place after the lines before the batch. When another lease is
held, it asks the old chain for what has landed there, and that is exactly what `stored` answers; the rest is placed
again at the end of the new chain.
-/

namespace OpampFleet.Server.Audit

open Lib List Writer Leased

/-! ### A placed batch -/

structure Batched (g : Setting) (chain : Option String) (start : String) (base : Nat) (batch : List Line) (seq : Nat)
    (prev : String) : Prop where
  texts : batch.map Line.text = (placedItems g chain start base batch).map (Item.line g)
  seqs : batch.map Line.seq = List.range' (base + 1) batch.length
  seq : seq = base + batch.length
  prev : prev = lastHash g start (placedItems g chain start base batch)

def Line.unplaced (line : Line) : Line := { line with seq := 0, text := "" }

def takenLines (lines : List Line) : List Taken :=
  (lines.filter fun line => line.entry.event ∉ ownEvents).map fun line => ⟨line.timeMs, line.entry, line.decidedUnder⟩

section Batched

variable {g : Setting} {chain : Option String} {start prev : String} {base seq k : Nat} {batch lines : List Line}

private lemma batched_nil (g : Setting) (chain : Option String) (start : String) (base : Nat) :
    Batched g chain start base [] base start := ⟨rfl, rfl, rfl, rfl⟩

section

variable (h : Batched g chain start base batch seq prev)
include h

private lemma Batched.concat (line : Line) {text : String}
    (htext : text = render g.rfc3339 (seq + 1) line.timeMs (entryOf chain line) prev) :
    Batched g chain start base (batch ++ [{ line with seq := seq + 1, text := text }]) (seq + 1)
      (lineHash g.sha256 text) := by
  have hitems : placedItems g chain start base (batch ++ [{ line with seq := seq + 1, text := text }]) =
      placedItems g chain start base batch ++ [.entry (seq + 1) line.timeMs (entryOf chain line) prev] := by
    rw [placedItems_append, ← h.prev, ← h.seq]
    rfl
  have hline : (Item.entry (seq + 1) line.timeMs (entryOf chain line) prev).line g = text := by
    rw [Item.line_entry, htext]
  refine ⟨?_, ?_, ?_, ?_⟩
  · rw [hitems, map_append, map_append, h.texts, map_singleton, map_singleton, hline]
  · have hrange : List.range' (base + 1) (batch.length + 1) =
        List.range' (base + 1) batch.length ++ [base + 1 + batch.length] := range'_1_concat
    rw [map_append, h.seqs, length_append, length_singleton, hrange, map_singleton, h.seq,
      Nat.add_right_comm]
  · rw [length_append, length_singleton, h.seq]
    omega
  · rw [hitems, lastHash_append, lastHash, getLast?_singleton, Option.map_some, Option.getD_some, Item.hash, hline]

private lemma Batched.first {first : Line} (hfirst : batch.head? = some first) : first.seq = base + 1 := by
  have hseqs := congrArg List.head? h.seqs
  rw [head?_map, hfirst, head?_range'] at hseqs
  split at hseqs
  · cases hseqs
  · exact Option.some.inj hseqs

private lemma Batched.drop (hk : k ≤ batch.length) :
    Batched g chain (lastHash g start ((placedItems g chain start base batch).take k)) (base + k) (batch.drop k) seq
      prev := by
  refine ⟨?_, ?_, ?_, ?_⟩
  · rw [placedItems_drop hk, map_drop, map_drop, h.texts]
  · rw [map_drop, h.seqs, drop_range', length_drop, Nat.mul_one, Nat.add_right_comm]
  · rw [h.seq, length_drop]
    omega
  · rw [placedItems_drop hk, ← lastHash_append, take_append_drop]
    exact h.prev

end

private lemma takenLines_unplaced (h : batch.map Line.unplaced = lines.map Line.unplaced) :
    takenLines batch = takenLines lines := by
  have hforget : ∀ lines : List Line, takenLines (lines.map Line.unplaced) = takenLines lines := by
    intro lines
    unfold takenLines
    rw [filter_map, map_map]
    rfl
  rw [← hforget batch, h, hforget]

private lemma takenLines_append : takenLines (batch ++ lines) = takenLines batch ++ takenLines lines := by
  unfold takenLines
  rw [filter_append, map_append]

private lemma events_unplaced (h : batch.map Line.unplaced = lines.map Line.unplaced)
    (hlines : ∀ line ∈ lines, line.entry.event ≠ "audit.chain_closed") :
    ∀ line ∈ batch, line.entry.event ≠ "audit.chain_closed" := by
  intro line hline
  have hmem := h ▸ mem_map_of_mem hline
  obtain ⟨other, hother, hsame⟩ := mem_map.mp hmem
  have hentry : line.unplaced.entry = other.unplaced.entry := by rw [hsame]
  rw [show line.entry = other.entry from hentry]
  exact hlines other hother

private lemma Writer.placeAll_batched {w : Writer PgStore} (h : Batched g w.chain start base w.batch w.seq w.prev)
    (lines : List Line) :
    ∃ seq prev more bytes, w.placeAll g.leased lines =
        { w with seq := seq, prev := prev, batch := w.batch ++ more, batchBytes := bytes } ∧
      more.map Line.unplaced = lines.map Line.unplaced ∧ Batched g w.chain start base (w.batch ++ more) seq prev := by
  induction lines generalizing w with
  | nil =>
    refine ⟨w.seq, w.prev, [], w.batchBytes, ?_, rfl, ?_⟩
    · rw [append_nil]
      rfl
    · rwa [append_nil]
  | cons line lines ih =>
    set placed := (w.place g.leased line).2 with hplaced
    set v : Writer PgStore := { (w.place g.leased line).1 with
      batch := w.batch ++ [placed], batchBytes := w.batchBytes + placed.bytes } with hv
    have hfirst : Batched g v.chain start base v.batch v.seq v.prev := h.concat line rfl
    obtain ⟨seq, prev, more, bytes, hall, hmore, hbatched⟩ := ih hfirst
    have hbatch : v.batch ++ more = w.batch ++ placed :: more := by
      rw [hv, append_assoc, singleton_append]
    rw [hbatch] at hall hbatched
    refine ⟨seq, prev, placed :: more, bytes, hall, ?_, hbatched⟩
    rw [map_cons, map_cons, hmore]
    rfl

end Batched

/-! ### What the old chain holds -/

private lemma takeWhile_landed {k : Nat} {batch : List Line} {rest : List String} (hk : k ≤ batch.length)
    (hrest : ∀ line text, batch[k]? = some line → rest.head? = some text → line.text ≠ text) :
    ((batch.zip ((batch.take k).map Line.text ++ rest)).takeWhile fun (line, stored) =>
      line.text = stored).length = k := by
  induction batch generalizing k with
  | nil =>
    rw [length_nil] at hk
    simp [Nat.le_zero.mp hk]
  | cons first batch ih =>
    cases k with
    | zero =>
      cases rest with
      | nil => rfl
      | cons text rest =>
        have hne := hrest first text rfl rfl
        simp [hne]
    | succ k =>
      have hrec := ih (Nat.le_of_succ_le_succ hk) (fun line text hline => hrest line text hline)
      simp only [take_succ_cons, map_cons, cons_append, zip_cons_cons]
      rw [takeWhile_cons_of_pos (by simp), length_cons, hrec]

private lemma ChainOk.rows_from {g : Setting} {r : ChainRecord} {start : String} {items : List Item}
    (h : ChainOk g r start 0 items) (n : Nat) : (r.rows.filter fun row => n + 1 ≤ row.seq) = r.rows.drop n := by
  have hseqs := h.seqs
  have hbefore : ∀ row ∈ r.rows.take n, row.seq ≤ n := by
    intro row hrow
    have hmem := mem_map_of_mem (f := Row.seq) hrow
    rw [map_take, hseqs] at hmem
    rcases Nat.le_total n items.length with hle | hge
    · rw [take_range'_of_length_ge hle, mem_range'_1] at hmem
      omega
    · rw [take_range'_of_length_le hge, mem_range'_1] at hmem
      omega
  have hafter : ∀ row ∈ r.rows.drop n, n + 1 ≤ row.seq := by
    intro row hrow
    have hmem := mem_map_of_mem (f := Row.seq) hrow
    rw [map_drop, hseqs, drop_range', mem_range'_1] at hmem
    omega
  conv_lhs => rw [← take_append_drop n r.rows, filter_append]
  have hnone : ((r.rows.take n).filter fun row => n + 1 ≤ row.seq) = [] := by
    refine filter_eq_nil_iff.mpr ?_
    intro row hrow hle
    have hlt := hbefore row hrow
    have hge := of_decide_eq_true hle
    omega
  have hall : ((r.rows.drop n).filter fun row => n + 1 ≤ row.seq) = r.rows.drop n := by
    refine filter_eq_self.mpr ?_
    intro row hrow
    exact decide_eq_true (hafter row hrow)
  rw [hnone, hall, nil_append]

variable {id : String} {store : PgStore} {answer : Except String (Option Tail)}

section Store

variable {g : Setting} {s : PgStore} {chain : Option String} {start prev : String} {base seq k : Nat}
  {batch emitted : List Line}

private lemma Stored.count (h : Stored g s (some id) start base k batch emitted)
    (hbatch : Batched g (some id) start base batch seq prev) :
    ((batch.zip ((((s.db.find id).elim [] ChainRecord.rows).filter fun row =>
      base + 1 ≤ row.seq).map Row.line)).takeWhile
      fun (line, stored) => line.text = stored).length = k := by
  have hevents := h.events
  obtain ⟨before, r, after, hon⟩ := h.onChain
  have hmem : r ∈ s.db.chains := by
    rw [hon.chains]
    exact mem_append_right _ mem_cons_self
  have hfind := AuditDb.find_of_mem hmem
  rw [hon.named] at hfind
  obtain ⟨front, closing, hne, hlength, hstart, hclosing, hok⟩ := hon.tip
  have hlines : (r.rows.drop base).map Row.line = (batch.take k).map Line.text ++ closing.map (Item.line g) := by
    rw [map_drop, hok.lines, append_assoc, map_append, drop_left' (by rw [length_map, hlength]),
      map_append, map_take, map_take, hbatch.texts]
  rw [hfind, Option.elim_some, hok.rows_from, hlines]
  refine takeWhile_landed h.le ?_
  intro line text hline htext heq
  -- The line that closes the chain is none of the batch.
  obtain ⟨closer, hcloser, rfl⟩ : ∃ closer ∈ closing, closer.line g = text := by
    rw [head?_map] at htext
    obtain ⟨closer, hhead, htext⟩ := Option.map_eq_some_iff.mp htext
    exact ⟨closer, mem_of_mem_head? hhead, htext⟩
  obtain ⟨item, hitem, hsame⟩ : ∃ item ∈ placedItems g (some id) start base batch, item.line g = line.text := by
    refine mem_map.mp ?_
    rw [← hbatch.texts]
    exact mem_map_of_mem (mem_of_getElem? hline)
  have hopen := closesChain_line (g := g) ((placedItems_chained g (some id) start base batch).mem item hitem)
  have hclosed := closesChain_line (g := g) (hok.chained.mem closer (mem_append_right _ hcloser))
  rw [← heq, ← hsame, hopen, hclosing closer hcloser, decide_eq_decide] at hclosed
  exact hevents item hitem (hclosed.mpr rfl)

private lemma Stored.asked (h : Stored g s (some id) start base k batch emitted)
    (hbatch : Batched g (some id) start base batch seq prev) {answer : Except String (List String)}
    (hasked : s.stored g id (base + 1) = (store, answer)) :
    store.chain = s.chain ∧ store.pending = none ∧ ∃ k', Stored g store (some id) start base k' batch emitted ∧
      ∀ lines, answer = .ok lines →
        ((batch.zip lines).takeWhile fun (line, stored) => line.text = stored).length = k' := by
  obtain ⟨hchain, hpending, k', hcall, -⟩ := h.call
  unfold PgStore.stored at hasked
  cases hs : s.call g with
  | mk s' ending =>
    rw [hs] at hchain hpending hcall hasked
    simp only [Prod.mk.injEq] at hchain hpending hcall hasked
    obtain ⟨rfl, hanswer⟩ := hasked
    refine ⟨hchain, hpending, k', hcall, ?_⟩
    intro lines hok
    rw [← hanswer] at hok
    split at hok
    · rw [← Except.ok.inj hok]
      exact hcall.count hbatch
    · cases hok

private lemma Stored.tail (h : Stored g s chain start base 0 batch emitted) (hid : s.chain = some id)
    (hnew : chain ≠ some id) (hquiet : s.pending = none ∨ batch = [])
    (htail : s.tail g = (store, answer)) :
    store.chain = some id ∧ Stored g store chain start base 0 batch emitted ∧
      ∀ tail, answer = .ok tail → ∃ line lastSeq, tail = some ⟨line, lastSeq, false, none⟩ ∧
        ∀ lines : List Line, (∀ line ∈ lines, line.entry.event ≠ "audit.chain_closed") →
          Stored g store (some id) (lineHash g.sha256 line) lastSeq 0 lines emitted := by
  obtain ⟨hchain, hpending, k', hcall, hsame⟩ := h.call
  have hzero : k' = 0 := by
    rcases hquiet with hnone | hnil
    · exact hsame hnone
    · have hle := hcall.le
      rw [hnil] at hle
      exact Nat.le_zero.mp hle
  subst hzero
  unfold PgStore.tail at htail
  rw [hid] at htail
  cases hs : s.call g with
  | mk s' ending =>
    rw [hs] at hchain hpending hcall htail
    simp only [Prod.mk.injEq] at hchain hpending hcall htail
    obtain ⟨rfl, hanswer⟩ := htail
    rw [hid] at hchain
    refine ⟨hchain, hcall, ?_⟩
    intro tail hok
    rw [← hanswer] at hok
    split at hok
    · obtain ⟨r, row, hfind, hrow, hstored⟩ := hcall.takeUp hchain hnew hpending
      refine ⟨row.line, row.seq, ?_, hstored⟩
      rw [← Except.ok.inj hok, hfind, Option.bind_some, hrow]
      rfl
    · cases hok

end Store

/-! ### The writer -/

/-- The entries taken are those told as written and those in the batch, in order; of the batch the database holds the
first ones. -/
structure Once (g : Setting) (l : List Taken) (w : Writer PgStore) : Prop where
  perLease : w.perLease = true
  queue : ∀ message ∈ w.queue, message.keepsOpen
  taken : l = takenLines (w.emitted ++ w.batch)
  stored : ∃ start base k, Stored g w.store w.chain start base k w.batch w.emitted ∧
    Batched g w.chain start base w.batch w.seq w.prev

section Once

variable {g : Setting} {l : List Taken} {w : Writer PgStore}

section

variable (h : Once g l w)
include h

private lemma Once.resume {start : String} {base : Nat}
    (hstored : Stored g w.store w.chain start base 0 w.batch w.emitted)
    (hbatched : Batched g w.chain start base w.batch w.seq w.prev) (hid : w.store.chain = some id)
    (hnew : w.chain ≠ some id) (hquiet : w.store.pending = none ∨ w.batch = [])
    (htail : g.leased.port.tail w.store = (store, answer)) :
    Once g l { w with store := store } ∧ ∀ tail, answer = .ok tail →
      ∃ line lastSeq, tail = some ⟨line, lastSeq, false, none⟩ ∧ ∀ v, v = placeAll g.leased
        { w with
          store := store
          chain := some id
          seq := lastSeq
          prev := lineHash g.sha256 line
          batchStartPrev := lineHash g.sha256 line
          batch := []
          batchBytes := 0 } w.batch →
        Once g l v ∧ v.chain = some id ∧ v.store.chain = some id := by
  obtain ⟨hchain, hsame, hok⟩ := hstored.tail hid hnew hquiet htail
  refine ⟨⟨h.perLease, h.queue, h.taken, start, base, 0, hsame, hbatched⟩, ?_⟩
  intro tail htailOk
  obtain ⟨line, lastSeq, hsome, hup⟩ := hok tail htailOk
  refine ⟨line, lastSeq, hsome, ?_⟩
  intro v hv
  have hempty := batched_nil g (some id) (lineHash g.sha256 line) lastSeq
  obtain ⟨seq, prev, more, bytes, hall, hmore, hplaced⟩ := placeAll_batched (w := { w with
    store := store, chain := some id, seq := lastSeq, prev := lineHash g.sha256 line
    batchStartPrev := lineHash g.sha256 line, batch := [], batchBytes := 0 }) hempty w.batch
  rw [hall, nil_append] at hv
  subst hv
  refine ⟨⟨h.perLease, h.queue, ?_, _, _, 0, hup more (events_unplaced hmore hstored.noClosing), hplaced⟩, rfl, hchain⟩
  rw [h.taken, takenLines_append, takenLines_append, takenLines_unplaced hmore]

private lemma Once.takeUp {start : String} {base : Nat}
    (hstored : Stored g w.store w.chain start base 0 w.batch w.emitted)
    (hbatched : Batched g w.chain start base w.batch w.seq w.prev) (hid : w.store.chain = some id)
    (hnew : w.chain ≠ some id) (hquiet : w.store.pending = none ∨ w.batch = []) :
    Once g l (w.takeUp g.leased id).1 ∧ ((w.takeUp g.leased id).2 = .ok () →
      (w.takeUp g.leased id).1.chain = some id ∧ (w.takeUp g.leased id).1.store.chain = some id) := by
  cases htail : g.leased.port.tail w.store with
  | mk store answer =>
    obtain ⟨hsame, hok⟩ := h.resume hstored hbatched hid hnew hquiet htail
    unfold Writer.takeUp
    rw [htail]
    cases answer with
    | error e => exact ⟨hsame, nofun⟩
    | ok tail =>
      obtain ⟨line, lastSeq, rfl, hplaced⟩ := hok tail rfl
      obtain ⟨honce, hchain⟩ := hplaced _ rfl
      exact ⟨honce, fun _ => hchain⟩

private lemma Once.askOld : Once g l (w.askOld g.leased).1 ∧ (w.askOld g.leased).1.store.chain = w.store.chain ∧
      (w.askOld g.leased).1.chain = w.chain ∧ ((w.askOld g.leased).2 = .ok () → ∃ v start base,
        v = (w.askOld g.leased).1 ∧ Stored g v.store v.chain start base 0 v.batch v.emitted ∧
        Batched g v.chain start base v.batch v.seq v.prev ∧ (v.store.pending = none ∨ v.batch = [])) := by
  obtain ⟨start, base, k, hstored, hbatched⟩ := h.stored
  unfold Writer.askOld
  cases hchain : w.chain with
  | none =>
    refine ⟨h, rfl, hchain, fun _ => ⟨w, start, base, rfl, ?_⟩⟩
    rcases hstored.place with ⟨-, hzero, haway⟩ | ⟨own, before, r, after, hsome, -⟩
    · rw [hzero] at hstored
      exact ⟨hstored, hbatched, .inl haway.pending⟩
    · simp [hchain] at hsome
  | some old =>
    cases hhead : w.batch.head? with
    | none =>
      refine ⟨h, rfl, hchain, fun _ => ⟨w, start, base, rfl, ?_⟩⟩
      have hnil := head?_eq_none_iff.mp hhead
      have hzero : k = 0 := by
        have hle := hstored.le
        rw [hnil] at hle
        exact Nat.le_zero.mp hle
      rw [hzero] at hstored
      exact ⟨hstored, hbatched, .inr hnil⟩
    | some first =>
      have hfirst : first.seq = base + 1 := hbatched.first hhead
      rw [hchain] at hstored hbatched
      simp only
      cases hasked : g.leased.port.stored w.store old first.seq with
      | mk store answer =>
        rw [hfirst] at hasked
        obtain ⟨hstoreChain, hpending, k', hasked', hcount⟩ := hstored.asked hbatched hasked
        cases answer with
        | error e =>
          exact ⟨⟨h.perLease, h.queue, h.taken, start, base, k', hasked', hbatched⟩, hstoreChain, rfl,
            nofun⟩
        | ok lines =>
          have htold := hasked'.told hpending
          have hrest := hbatched.drop hasked'.le
          simp only [hcount lines rfl]
          refine ⟨⟨h.perLease, h.queue, ?_, _, _, 0, htold, hrest⟩, hstoreChain, trivial, ?_⟩
          · rw [append_assoc, take_append_drop]
            exact h.taken
          · exact fun _ => ⟨_, _, _, rfl, htold, hrest, .inl hpending⟩

private lemma Once.switchTo (hid : w.store.chain = some id) (hnew : w.chain ≠ some id) :
    Once g l (w.switchTo g.leased id).1 ∧ ((w.switchTo g.leased id).2 = .ok () →
      (w.switchTo g.leased id).1.chain = some id ∧ (w.switchTo g.leased id).1.store.chain = some id) := by
  obtain ⟨honce, hstore, hchain, hok⟩ := h.askOld
  unfold Writer.switchTo
  cases hasked : w.askOld g.leased with
  | mk v answer =>
    rw [hasked] at honce hstore hchain hok
    cases answer with
    | error e => exact ⟨honce, nofun⟩
    | ok _ =>
      obtain ⟨_, start, base, rfl, hstored, hbatched, hquiet⟩ := hok rfl
      exact honce.takeUp hstored hbatched (hstore.trans hid) (hchain.trans_ne hnew) hquiet

private lemma Once.followChain : Once g l (w.followChain g.leased).1 ∧ ((w.followChain g.leased).2 = .ok () → ∃ id,
      (w.followChain g.leased).1.chain = some id ∧ (w.followChain g.leased).1.store.chain = some id) := by
  obtain ⟨start, base, k, hstored, hbatched⟩ := h.stored
  unfold Writer.followChain
  rw [if_neg (by rw [h.perLease]; decide)]
  cases hasked : g.leased.port.chain w.store with
  | mk store answer =>
    obtain ⟨⟨k', hleased, -⟩, hanswer⟩ := hstored.leaseChain hasked
    have honce : Once g l { w with store := store } :=
      ⟨h.perLease, h.queue, h.taken, start, base, k', hleased, hbatched⟩
    rcases hanswer with ⟨id, rfl, hid⟩ | ⟨rfl, -⟩
    · simp only
      split
      next hnew =>
        obtain ⟨hswitched, hok⟩ := honce.switchTo hid hnew
        exact ⟨hswitched, fun hready => ⟨id, hok hready⟩⟩
      next hsame =>
        exact ⟨honce, fun _ => ⟨id, not_not.mp hsame, hid⟩⟩
    · exact ⟨honce, nofun⟩

private lemma Once.handOver {first : Line} {rest : List Line} (hbatch : w.batch = first :: rest)
    {ready : Except String Unit} (hready : ready = .ok () → ∃ id, w.chain = some id ∧ w.store.chain = some id)
    {answer : Except String Unit} (hhanded : w.handOver g.leased first.seq false ready = (store, answer)) :
    Once g l { w with store := store } ∧ (answer = .ok () → Once g l ({ w with store := store }.landed)) := by
  obtain ⟨start, base, k, hstored, hbatched⟩ := h.stored
  cases ready with
  | error e =>
    cases hhanded
    exact ⟨h, nofun⟩
  | ok _ =>
    obtain ⟨id, hchain, hid⟩ := hready rfl
    have hfirst : first.seq = base + 1 := hbatched.first (by rw [hbatch]; rfl)
    rw [hchain] at hstored hbatched
    obtain ⟨k', hwritten, hok⟩ := hstored.write hid hbatched.texts
    have hport : w.store.write g (base + 1) (w.batch.map Line.text) false = (store, answer) := by
      rwa [← hfirst]
    rw [hport] at hwritten hok
    refine ⟨⟨h.perLease, h.queue, h.taken, start, base, k', ?_, ?_⟩, ?_⟩
    · show Stored g store w.chain _ _ _ _ _
      rwa [hchain]
    · show Batched g w.chain _ _ _ _ _
      rwa [hchain]
    · intro hanswer
      obtain ⟨rfl, hpending⟩ := hok hanswer
      have htold := hwritten.told hpending
      have hrest := hbatched.drop le_rfl
      rw [take_of_length_le le_rfl, drop_of_length_le le_rfl] at htold
      rw [drop_of_length_le le_rfl] at hrest
      rw [← hchain] at htold hrest
      refine ⟨h.perLease, h.queue, ?_, _, _, 0, htold, hrest⟩
      show l = takenLines (w.emitted ++ w.batch ++ [])
      rw [append_nil]
      exact h.taken

private lemma Once.failing (failing : Bool) : Once g l { w with failing := failing } :=
  { h with }

private lemma Once.commit : Once g l (w.commit g.leased) := by
  unfold Writer.commit Writer.commitAs
  split
  · exact h
  obtain ⟨honce, hready⟩ := h.followChain
  cases hfollow : w.followChain g.leased with
  | mk v ready =>
    rw [hfollow] at honce hready
    simp only at honce hready ⊢
    split
    · split
      · exact honce.failing false
      · exact honce
    rename_i first rest hbatch
    cases hhanded : v.handOver g.leased first.seq false ready with
    | mk store answer =>
      obtain ⟨hstore, hlanded⟩ := honce.handOver hbatch hready hhanded
      cases answer with
      | ok _ => exact hlanded rfl
      | error e =>
        show Once g l (Writer.failed { v with store := store } first.seq)
        unfold Writer.failed
        rw [if_pos honce.perLease]
        exact hstore.failing true

private lemma Once.append (now : Nat) {entry : Entry} (under : Option String)
    (hopen : entry.event ≠ "audit.chain_closed") :
    Once g (l ++ takenOf now entry under) (w.append g.leased now entry under) := by
  obtain ⟨start, base, k, hstored, hbatched⟩ := h.stored
  unfold Writer.append
  extract_lets line v placed
  obtain ⟨seq, prev, more, bytes, hall, hmore, hplaced⟩ := Writer.placeAll_batched (w := v) hbatched [line]
  have hevents : ∀ line ∈ more, line.entry.event ≠ "audit.chain_closed" := by
    refine events_unplaced hmore ?_
    intro other hother
    rwa [mem_singleton.mp hother]
  have honce : Once g (l ++ takenOf now entry under) placed := by
    have htaken : takenLines more = takenOf now entry under := by
      rw [takenLines_unplaced hmore]
      unfold takenLines takenOf
      by_cases hown : entry.event ∈ ownEvents <;> simp [line, hown]
    rw [show placed = _ from hall]
    refine ⟨h.perLease, h.queue, ?_, start, base, k, hstored.longer hevents, hplaced⟩
    show l ++ _ = takenLines (w.emitted ++ (w.batch ++ more))
    rw [← append_assoc, takenLines_append, ← h.taken, htaken]
  split
  · exact honce.commit
  · exact honce

end

private lemma once_keeps (g : Setting) : Writer.Keeps g.leased true (Once g) where
  perLease _ _ h := h.perLease
  queue _ _ h _ := h.queue
  append _ _ now _ under hopen h := h.append now under (hopen rfl)
  commit _ _ h := h.commit
  rotate _ _ h := h
  aside _ _ _ _ _ hqueue h := { h with queue := fun message hmessage => h.queue message (hqueue message hmessage) }

private lemma Once.aside (h : Once g l w) (window : Window) (queuedRefusals unrecorded : Nat) {queue : List Message}
    (hqueue : ∀ message ∈ queue, message.keepsOpen) :
    Once g l { w with window := window, queuedRefusals := queuedRefusals, queue := queue, unrecorded := unrecorded } :=
  { h with queue := hqueue }

private lemma Once.armed (h : Once g l w) (calls : List Call) :
    Once g l { w with store := armed w.store calls } := by
  obtain ⟨start, base, k, hstored, hbatched⟩ := h.stored
  exact ⟨h.perLease, h.queue, h.taken, start, base, k,
    hstored.of_chains (fun _ hid => hid) hstored.order (fun _ hwrite => hwrite) rfl, hbatched⟩

private lemma Once.act (h : Once g l w) (a : LeaseAct) : Once g l { w with store := w.store.act g a } := by
  obtain ⟨start, base, k, hstored, hbatched⟩ := h.stored
  obtain ⟨k', hact, -⟩ := hstored.act a
  exact ⟨h.perLease, h.queue, h.taken, start, base, k', hact, hbatched⟩

end Once

/-! ### Runs -/

section Runs

variable {g : Setting}

private lemma stored_fresh (g : Setting) : Stored g .fresh none genesis 0 0 [] [] where
  ok _ hr := by cases hr
  le := le_rfl
  noClosing _ hline := by cases hline
  written := .nil
  order _ _ hid := by cases hid
  place := by
    refine .inl ⟨rfl, rfl, ⟨?_, ?_, rfl⟩⟩
    · intro r hr
      cases hr
    · rintro id (hid | hid)
      · cases hid
      · cases hid

private lemma once_start {acts : List LeaseAct} {calls : List Call} {limits : Limits} {now : Nat} {w : Writer PgStore}
    (h : start g.leased (armed (acts.foldl (PgStore.act g) .fresh) calls) limits now = .ok w) :
    Once g [] w := by
  obtain ⟨-, k, hacts, hnone⟩ := (stored_fresh g).acts acts
  obtain ⟨rfl, -⟩ := hnone rfl
  have harmed : Stored g (armed (acts.foldl (PgStore.act g) .fresh) calls) none genesis 0 0 [] [] :=
    hacts.of_chains (fun _ hid => hid) hacts.order (fun _ hwrite => hwrite) rfl
  unfold start at h
  cases hasked : g.leased.port.chain (armed (acts.foldl (PgStore.act g) .fresh) calls) with
  | mk store chain =>
    rw [hasked] at h
    obtain ⟨⟨k', hstore, -⟩, hanswer⟩ := harmed.leaseChain hasked
    have hzero : k' = 0 := Nat.le_zero.mp hstore.le
    subst hzero
    simp only at h
    rcases hanswer with ⟨id, rfl, hid⟩ | ⟨rfl, hid⟩
    · cases htail : g.leased.port.tail store with
      | mk store' answer =>
        rw [htail] at h
        obtain ⟨-, -, hok⟩ := hstore.tail hid (by simp) (.inr rfl) htail
        cases answer with
        | error e => cases h
        | ok tail =>
          obtain ⟨line, lastSeq, rfl, hup⟩ := hok tail rfl
          cases h
          exact ⟨rfl, by simp [opened], rfl, _, _, 0, hup [] (by simp), batched_nil g _ _ _⟩
    · have htail : g.leased.port.tail store = (store, .ok none) := by
        show store.tail g = _
        unfold PgStore.tail
        rw [hid]
      rw [htail] at h
      cases h
      exact ⟨rfl, by simp [opened], rfl, genesis, 0, 0, hstore, batched_nil g _ _ _⟩

private lemma Once.step {s s' : Leased} {act : LeasedAct} (h : Once g s.taken s.writer)
    (hstep : s.step g act = some s') : Once g s'.taken s'.writer := by
  have hkeeps := once_keeps g
  cases act with
  | record now decision under =>
    cases hstep
    obtain ⟨window, queuedRefusals, queue, unrecorded, hrecord, hqueue⟩ :=
      s.writer.record_eq g.leased now decision.entry under
    show Once g s.taken (s.writer.record g.leased now decision.entry under).1
    rw [hrecord]
    refine h.aside window queuedRefusals unrecorded ?_
    intro message hmessage
    rcases hqueue message hmessage with hold | rfl
    · exact h.queue message hold
    · intro hclosed
      exact decision.foreign (by rw [hclosed]; decide)
  | drain =>
    obtain ⟨v, hsend, rfl⟩ := Option.map_eq_some_iff.mp hstep
    rw [trySend_eq hsend]
    refine h.aside s.writer.window s.writer.queuedRefusals s.writer.unrecorded ?_
    exact forall_mem_append.mpr ⟨h.queue, forall_mem_singleton.mpr trivial⟩
  | handle now calls =>
    have harmed := h.armed calls
    cases hqueue : s.writer.queue with
    | nil =>
      simp only [Leased.step, hqueue] at hstep
      cases hstep
    | cons message queue =>
      simp only [Leased.step, hqueue] at hstep
      cases hstep
      exact hkeeps.handle harmed now hqueue
  | commit calls =>
    cases hstep
    exact (h.armed calls).commit
  | tick now calls =>
    cases hstep
    exact hkeeps.tick (h.armed calls) now
  | lease a =>
    cases hstep
    exact h.act a

private lemma isOwn_places {row : String × String} {line : Line} (h : Places g row line) :
    isOwn g row.2 = decide (line.entry.event ∈ ownEvents) := by
  obtain ⟨seq, prev, htext⟩ := h
  unfold isOwn
  rw [htext, ← Item.line_entry, Item.read_entry]
  simp [object_event, entryOf_event]

private lemma recorded_taken {rows : List (String × String)} {lines : List Line}
    (h : List.Forall₂ (Places g) rows lines) :
    List.Forall₂ (Records g) (rows.filter fun row => !isOwn g row.2) (takenLines lines) := by
  induction h with
  | nil => exact .nil
  | cons hplaces _ ih =>
    rename_i row line rows lines _
    have hown := isOwn_places hplaces
    unfold takenLines at ih ⊢
    by_cases hevent : line.entry.event ∈ ownEvents
    · rw [filter_cons_of_neg (by simp [hown, hevent]), filter_cons_of_neg (by simp [hevent])]
      exact ih
    · rw [filter_cons_of_pos (by simp [hown, hevent]), filter_cons_of_pos (by simp [hevent]), map_cons]
      refine .cons ?_ ih
      obtain ⟨seq, prev, htext⟩ := hplaces
      exact ⟨seq, line.unrecorded, prev, htext⟩

end Runs

/-- On a store of one chain per lease: the entries taken are recorded at most once over all chains and in the order
taken, each of them once nothing waits in the batch, and every chain holds. -/
theorem recorded_once (g : Setting) {acts : List LeaseAct} {calls : List Call} {limits : Limits} {now : Nat}
    {w : Writer PgStore}
    (hstart : Writer.start g.leased (Leased.armed (acts.foldl (PgStore.act g) .fresh) calls) limits now = .ok w)
    {s : Leased} (h : Reach ⟨w, []⟩ (Leased.step g) s) :
    (∃ n ≤ s.taken.length, List.Forall₂ (Records g) (s.writer.store.db.recorded g) (s.taken.take n) ∧
      (s.writer.batch = [] → n = s.taken.length)) ∧
    ∀ r ∈ s.writer.store.db.chains, (r.walk g []).isOk = true := by
  have honce : Once g s.taken s.writer := by
    refine @Reach.invariant _ _ _ _ (fun s => Once g s.taken s.writer) _ h (once_start hstart) ?_
    intro s act s' hs hstep
    exact hs.step hstep
  obtain ⟨start, base, k, hstored, -⟩ := honce.stored
  have hrecorded := recorded_taken hstored.written
  have htaken : s.taken = takenLines (s.writer.emitted ++ s.writer.batch.take k) ++
    takenLines (s.writer.batch.drop k) := by
    rw [← takenLines_append, append_assoc, take_append_drop]
    exact honce.taken
  refine ⟨⟨(takenLines (s.writer.emitted ++ s.writer.batch.take k)).length, ?_, ?_, ?_⟩, ?_⟩
  · rw [htaken, length_append]
    omega
  · rwa [htaken, take_left]
  · intro hempty
    rw [htaken, hempty, drop_nil]
    show _ = (_ ++ []).length
    rw [append_nil]
  · intro r hr
    obtain ⟨items, hne, hok⟩ := hstored.ok r hr
    exact hok.walk hne fun hbase => absurd rfl hbase

def firstLease : PgStore := armed ([.take ⟨"a", by decide⟩ 0 "h" none true].foldl (PgStore.act plainSetting) .fresh) []

def movedDecision : List LeasedAct :=
  [.record 0 allowed none, .handle 0 [], .commit [⟨[], .answered⟩, ⟨[], .late⟩],
    .lease .lose, .lease (.lapse "a"), .lease (.take ⟨"b", by decide⟩ 0 "h" none true), .lease (.close "a" "b" 0),
    .commit []]

/-- An entry of unknown outcome, and the lease lost before it is written again. -/
theorem recorded_once_across_leases :
    ∃ (w : Writer PgStore) (s : Leased), start plainSetting.leased firstLease ⟨0, 0⟩ 0 = .ok w ∧
      Reach ⟨w, []⟩ (step plainSetting) s ∧ s.taken.length = 1 ∧ s.writer.batch = [] ∧
      ∃ n ≤ s.taken.length, List.Forall₂ (Records plainSetting) (s.writer.store.db.recorded plainSetting)
        (s.taken.take n) ∧
        (s.writer.batch = [] → n = s.taken.length) := by
  have hrun : (match start plainSetting.leased firstLease ⟨0, 0⟩ 0 with
      | .ok w => decide (∃ s ∈ run (step plainSetting) ⟨w, []⟩ movedDecision,
          s.taken.length = 1 ∧ s.writer.batch = [])
      | .error _ => false) = true := by decide +kernel
  cases hstart : start plainSetting.leased firstLease ⟨0, 0⟩ 0 with
  | error e =>
    simp [hstart] at hrun
  | ok w =>
    rw [hstart] at hrun
    obtain ⟨s, hreach, htaken, hbatch⟩ := Reach.exists_of_run _ (of_decide_eq_true hrun)
    exact ⟨w, s, rfl, hreach, htaken, hbatch, (recorded_once plainSetting hstart hreach).1⟩

end OpampFleet.Server.Audit
