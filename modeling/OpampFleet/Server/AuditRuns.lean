import OpampFleet.Server.AuditCounts
import OpampFleet.Server.AuditStands

/-!
# Runs of the audit writer on files

What the writer keeps while it runs on the file store: the record's lines hold, the last one is an entry, and the batch
is chained on it. A crash leaves files that the next start finds a record in again, and the repair it writes first is
what the verifier asks for.
-/

namespace OpampFleet.Server.Audit

open Lib List Option FsStore

/-! ### The writer over a record -/

structure Alive (g : Setting) (w : Writer FsStore) (r : Record) (base : Nat) (start : String)
    (more : List Item) : Prop where
  stands : Stands g w.store r base
  follows : ∀ last, (recordItems r).getLast? = some last → last.isWhole = true ∧ start = last.hash g
  chained : Chained g start base more
  texts : w.batch.map Line.text = more.map (Item.line g)
  first : ∀ line, w.batch.head? = some line → line.seq = base + 1
  seq : w.seq = base + more.length
  prev : w.prev = lastHash g start more
  startPrev : w.batch ≠ [] → w.batchStartPrev = start
  chain : w.chain = none

structure Writer.Sound (g : Setting) (w : Writer FsStore) : Prop where
  single : w.perLease = false
  record : (w.store.crashed = true ∧ ∃ r, Rests g w.store.dir r) ∨
    (w.store.crashed = false ∧ ∃ r base start more, Alive g w r base start more)

section Calls

variable {g : Setting} {w : Writer FsStore} {r : Record} {base : Nat} {start : String} {more : List Item}

private lemma FsStore.append_gone {s : FsStore} (h : s.crashed = true) (seq : Nat) (lines : List String) :
    s.append seq lines = (s, .error "gone") := if_pos h

private lemma FsStore.rotate_gone {s : FsStore} (h : s.crashed = true) (keep : Nat) :
    s.rotate keep = (s, .error "gone") := if_pos h

private lemma Alive.holds (h : Alive g w r base start more) : Holds g (recordItems r ++ more) :=
  h.stands.kept.holds.chained h.stands.kept.ok h.follows h.chained

private lemma Writer.landed_sound (hsingle : w.perLease = false) (hchain : w.chain = none) (hmore : more ≠ [])
    (hchained : Chained g start base more) (hseq : w.seq = base + more.length) (hprev : w.prev = lastHash g start more)
    {store : FsStore} (hup : store.crashed = false) {r' : Record} (hitems : recordItems r' = recordItems r ++ more)
    (hstands : Stands g store r' (base + more.length)) : ({ w with store := store }.landed).Sound g := by
  obtain ⟨last, hlast⟩ := ne_none_iff_exists'.mp (mt getLast?_eq_none_iff.mp hmore)
  refine ⟨hsingle, .inr ⟨hup, r', _, lastHash g start more, [], hstands, ?_, trivial, rfl, ?_, hseq, hprev, ?_, hchain⟩⟩
  · intro last' hl
    rw [hitems, getLast?_append_of_ne_nil _ hmore, hlast] at hl
    cases hl
    obtain ⟨seq, timeMs, e, prev, rfl⟩ := hchained.mem last (mem_of_getLast? hlast)
    exact ⟨rfl, by rw [lastHash, hlast]; rfl⟩
  · rintro line ⟨⟩
  · intro hne
    exact absurd rfl hne

private lemma Alive.commit (h : Alive g w r base start more) (hsingle : w.perLease = false)
    (hup : w.store.crashed = false) : (w.commit g.tools).Sound g := by
  cases hbatch : w.batch with
  | nil =>
    rw [Writer.commit_nil hbatch]
    exact ⟨hsingle, .inr ⟨hup, r, base, start, more, h⟩⟩
  | cons line rest =>
    have hseq : line.seq = base + 1 := h.first line (by rw [hbatch]; rfl)
    have hmore : more ≠ [] := by
      intro hnil
      have htexts := h.texts
      simp [hbatch, hnil] at htexts
    obtain ⟨store, hstore, hcommit⟩ | ⟨store, e, hstore, hcommit⟩ := Writer.commit_cases (g := g) hsingle hbatch
    · rw [hcommit]
      rw [hseq, h.texts] at hstore
      obtain ⟨-, hup', r', hitems, hstands⟩ | ⟨herror, -⟩ | ⟨herror, -⟩ :=
        h.stands.append hup h.chained h.holds hstore
      · exact Writer.landed_sound hsingle h.chain hmore h.chained h.seq h.prev hup' hitems hstands
      · cases herror
      · cases herror
    · rw [hcommit]
      rw [hseq, h.texts] at hstore
      obtain ⟨hok, -⟩ | ⟨-, hup', r', hitems, hstands⟩ | ⟨-, hgone, hrests⟩ :=
        h.stands.append hup h.chained h.holds hstore
      · cases hok
      · -- The chain goes back to the line before the batch.
        unfold Writer.failed
        simp only [hsingle, Bool.false_eq_true, if_false]
        refine ⟨rfl, .inr ⟨hup', r', base, start, [], hstands, ?_, trivial, rfl, ?_, ?_, ?_, ?_, h.chain⟩⟩
        · rw [hitems]
          exact h.follows
        · rintro line ⟨⟩
        · show line.seq - 1 = base
          omega
        · exact h.startPrev (by rw [hbatch]; simp)
        · intro hne
          exact absurd rfl hne
      · unfold Writer.failed
        simp only [hsingle, Bool.false_eq_true, if_false]
        exact ⟨rfl, .inl ⟨hgone, hrests⟩⟩

private lemma Alive.place (h : Alive g w r base start more) (line : Line) (unrecorded : Nat) :
    ∃ more, Alive g (({ w with
      unrecorded := unrecorded
      batchStartPrev := if w.batch.isEmpty then w.prev else w.batchStartPrev } : Writer FsStore).placeAll g.tools
        [line])
      r base start more := by
  have hempty : w.batch.isEmpty = true → more = [] := by
    intro hnil
    have htexts := h.texts
    rw [List.isEmpty_iff.mp hnil] at htexts
    exact map_eq_nil_iff.mp htexts.symm
  set e := Writer.entryOf none line with he
  refine ⟨more ++ [.entry (base + more.length + 1) line.timeMs e (lastHash g start more)], h.stands, h.follows,
    h.chained.concat line.timeMs e, ?_, ?_, ?_, ?_, ?_, h.chain⟩
  · simp only [Writer.placeAll, Writer.place, map_append, map_cons, map_nil, h.texts, h.seq, h.prev,
      h.chain, Item.line_entry]
    rfl
  · intro first hfirst
    simp only [Writer.placeAll, Writer.place] at hfirst
    cases hbatch : w.batch with
    | nil =>
      rw [hbatch] at hfirst
      cases hfirst
      show w.seq + 1 = _
      rw [h.seq, hempty (by rw [hbatch]; rfl)]
      rfl
    | cons line' rest =>
      rw [hbatch] at hfirst
      cases hfirst
      exact h.first _ (by rw [hbatch]; rfl)
  · show w.seq + 1 = _
    rw [h.seq, length_append]
    rfl
  · show lineHash _ (render _ (w.seq + 1) line.timeMs (Writer.entryOf w.chain line) w.prev) = _
    rw [lastHash, getLast?_concat, h.seq, h.prev, h.chain, ← he, map_some, getD_some, Item.hash,
      Item.line_entry]
    rfl
  · intro _
    show (if w.batch.isEmpty then w.prev else w.batchStartPrev) = start
    split
    next hnil =>
      rw [h.prev, hempty hnil]
      rfl
    next hne =>
      exact h.startPrev (by simpa using hne)

private lemma Writer.Sound.commit (h : w.Sound g) : (w.commit g.tools).Sound g := by
  rcases h.record with ⟨hgone, hrests⟩ | ⟨hup, r, base, start, more, halive⟩
  · cases hbatch : w.batch with
    | nil =>
      rwa [commit_nil hbatch]
    | cons line rest =>
      obtain ⟨store, hstore, -⟩ | ⟨store, e, hstore, hcommit⟩ := commit_cases (g := g) h.single hbatch
      · simp [append_gone hgone] at hstore
      rw [append_gone hgone] at hstore
      cases hstore
      rw [hcommit]
      unfold failed
      simp only [h.single, Bool.false_eq_true, if_false]
      exact ⟨rfl, .inl ⟨hgone, hrests⟩⟩
  · exact halive.commit h.single hup

private lemma Writer.Sound.append (h : w.Sound g) (now : Nat) (entry : Entry) (under : Option String) :
    (w.append g.tools now entry under).Sound g := by
  unfold Writer.append
  extract_lets line w₁ w₂
  have hplaced : w₂.Sound g := by
    refine ⟨h.single, ?_⟩
    rcases h.record with hgone | ⟨hup, r, base, start, more, halive⟩
    · exact .inl hgone
    · obtain ⟨more, halive⟩ := halive.place line 0
      exact .inr ⟨hup, r, base, start, more, halive⟩
  split
  · exact hplaced.commit
  · exact hplaced

private lemma Writer.Sound.rotate (h : w.Sound g) :
    ({ w with store := (g.tools.port.rotate w.store w.limits.keepFiles).1 } : Writer FsStore).Sound g := by
  have hport : g.tools.port.rotate w.store w.limits.keepFiles = w.store.rotate w.limits.keepFiles := rfl
  rw [hport]
  refine ⟨h.single, ?_⟩
  rcases h.record with ⟨hgone, hrests⟩ | ⟨hup, r, base, start, more, halive⟩
  · rw [rotate_gone hgone]
    exact .inl ⟨hgone, hrests⟩
  obtain ⟨n, -, hstands, -⟩ := halive.stands.rotate hup
    (rfl : w.store.rotate w.limits.keepFiles = ((w.store.rotate w.limits.keepFiles).1, _))
  cases hcrashed : (w.store.rotate w.limits.keepFiles).1.crashed with
  | true => exact .inl ⟨rfl, _, hstands.rests⟩
  | false =>
    refine .inr ⟨rfl, r.drop n, base, start, more, hstands, ?_, halive.chained, halive.texts, halive.first,
      halive.seq, halive.prev, halive.startPrev, halive.chain⟩
    intro last hlast
    refine halive.follows last ?_
    rw [← take_append_drop n r, recordItems_append, getLast?_append, hlast]
    rfl

private lemma Writer.Sound.aside (h : w.Sound g) (window : Window) (queuedRefusals unrecorded : Nat)
    (queue : List Message) : ({ w with
      window := window
      queuedRefusals := queuedRefusals
      unrecorded := unrecorded
      queue := queue } : Writer FsStore).Sound g := by
  refine ⟨h.single, h.record.imp_right ?_⟩
  rintro ⟨hup, r, base, start, more, ha⟩
  exact ⟨hup, r, base, start, more, ha.stands, ha.follows, ha.chained, ha.texts, ha.first, ha.seq, ha.prev,
    ha.startPrev, ha.chain⟩

private lemma Writer.Sound.keeps (g : Setting) : Writer.Keeps g.tools false fun _ w => w.Sound g where
  perLease _ _ h := h.single
  queue _ _ _ hlease := by cases hlease
  append _ _ now entry under _ h := h.append now entry under
  commit _ _ h := h.commit
  rotate _ _ h := h.rotate
  aside _ w window queuedRefusals queue _ h := h.aside window queuedRefusals w.unrecorded queue

end Calls

/-! ### Where a start finds the record -/

section Tail

variable {g : Setting} {dir : Dir} {r : Record}

private lemma newestOf_last (r : Record) :
    (newestOf r.reverse).bind (fun file => file.2.getLast?) = (recordItems r).getLast? := by
  induction r using reverseRecOn with
  | nil => rfl
  | append_singleton r file ih =>
    rw [newestOf_concat, recordItems_concat]
    by_cases hnil : file.2 = []
    · rw [if_pos hnil, hnil, append_nil, ih]
    · rw [if_neg hnil, getLast?_append_of_ne_nil _ hnil]
      rfl

private lemma lastEntryOf_reverse (r : Record) : lastEntryOf r.reverse = lastEntry (recordItems r) := by
  induction r using reverseRecOn with
  | nil => rfl
  | append_singleton r file ih =>
    rw [recordItems_concat, reverse_concat, lastEntry, reverse_append, find?_append, lastEntryOf,
      findSome?_cons]
    cases file.2.reverse.find? Item.isWhole with
    | some entry => rfl
    | none => exact ih

private lemma recordItems_reverse_mem {item : Item} (h : item ∈ recordItems r.reverse) : item ∈ recordItems r := by
  obtain ⟨file, hfile, hitem⟩ := mem_flatMap.mp h
  exact mem_flatMap.mpr ⟨file, mem_reverse.mp hfile, hitem⟩

private lemma Kept.tailIn (h : Kept g dir.files r) {tail : Option Tail}
    (htail : Audit.tailIn g.sha256 g.reader.read id dir = tail) :
    (tail = none ∧ recordItems r = [] ∧ newestOf r.reverse = none) ∨
    ∃ file last, newestOf r.reverse = some file ∧ (recordItems r).getLast? = some last ∧
      tail = some
        { lastLine := last.line g
          lastSeq := fileSeq file
          torn := !last.isWhole
          lastWhole := if last.isWhole then none else (lastEntry (recordItems r)).map (Item.hash g) } := by
  have hread := tailFrom_record fun item (hitem : item ∈ recordItems r.reverse) =>
    h.ok item (recordItems_reverse_mem hitem)
  rw [Audit.tailIn, h.files, recordFiles, ← map_reverse] at htail
  rw [recordFiles, htail] at hread
  have hlast := newestOf_last r
  cases hnewest : newestOf r.reverse with
  | none =>
    rw [hnewest] at hread hlast
    exact .inl ⟨hread, getLast?_eq_none_iff.mp hlast.symm, rfl⟩
  | some file =>
    rw [hnewest, bind_some] at hread hlast
    have hne : file.2 ≠ [] := by
      have hfound := find?_some hnewest
      simpa using hfound
    obtain ⟨last, hl⟩ := ne_none_iff_exists'.mp (mt getLast?_eq_none_iff.mp hne)
    rw [hl, map_some, lastEntryOf_reverse] at hread
    exact .inr ⟨file, last, rfl, hlast.symm.trans hl, hread⟩

private lemma FsStore.opened_current (dir : Dir) :
    (opened dir).current = (opened dir).dir.files.getLast?.map fun file => (file.1, file.2.length) := by
  unfold opened
  cases hlast : dir.files.getLast? with
  | none =>
    rw [hlast]
    rfl
  | some file =>
    obtain ⟨older, hfiles⟩ := getLast?_eq_some_iff.mp hlast
    simp only
    split
    · show _ = (putFile file.1 _ dir.files).getLast?.map _
      rw [hfiles, putFile_last (Dir.lt_of_files hfiles), getLast?_concat, map_some, length_append]
      rfl
    · rw [hlast]
      rfl

private lemma Rests.stands (h : Rests g dir r) {base : Nat}
    (hcount : ∀ file, newestOf r.reverse = some file → fileSeq file = base)
    (hempty : newestOf r.reverse = none → r = []) (io : StoreIo) :
    Stands g (System.armed (opened dir) io) r base where
  kept := h.kept
  current := by
    intro name size hcurrent
    have hfile : (opened dir).current = some (name, size) := hcurrent
    rw [opened_current, h.kept.files, recordFiles, getLast?_map, Option.map_map] at hfile
    obtain ⟨file, hlast, hfile⟩ := map_eq_some_iff.mp hfile
    cases hfile
    exact ⟨file.2, hlast, rfl⟩
  count := hcount
  top := by
    intro file hfile
    cases hnewest : newestOf r.reverse with
    | none =>
      simp [hempty hnewest] at hfile
    | some newest =>
      rw [← hcount newest hnewest]
      exact h.top newest file hnewest hfile

end Tail

/-! ### The repair -/

section Repair

variable {g : Setting} {w : Writer FsStore} {r : Record} {base : Nat} {last : Item}

private lemma Stands.rotate_nothing {s : FsStore} (h : Stands g s r base) (hup : s.crashed = false) {keep : Nat}
    (hroom : s.dir.files.length < keep) :
    ∃ store answer, s.rotate keep = (store, answer) ∧ Stands g store r base ∧
      ∀ deleted, answer = .ok deleted → deleted = [] := by
  cases hrotate : s.rotate keep with
  | mk store answer =>
    obtain ⟨n, hn, hnext, htold⟩ := h.rotate hup hrotate
    have hzero : n = 0 := by omega
    rw [hzero, drop_zero] at hnext
    refine ⟨store, answer, rfl, hnext, ?_⟩
    intro deleted hdeleted
    have hle := htold deleted hdeleted
    exact eq_nil_of_length_eq_zero (by omega)

/-- The repair, which is the first line after the torn ones, however its append ends. -/
private lemma Writer.repair (hstands : Stands g w.store r base) (hup : w.store.crashed = false)
    (hlast : (recordItems r).getLast? = some last) (htorn : last.isWhole = false)
    (hroom : w.store.currentBytes < w.limits.maxFileBytes ∨ w.store.dir.files.length < w.limits.keepFiles)
    (hsingle : w.perLease = false) (hchain : w.chain = none) (hbatch : w.batch = []) (hseq : w.seq = base)
    (hprev : w.prev = last.hash g) (hunrecorded : w.unrecorded = 0) (hemitted : w.emitted = []) (now : Nat)
    {lastWhole : String} (hwhole : ∀ entry, lastEntry (recordItems r) = some entry → lastWhole = entry.hash g) :
    let w' := (w.write g.tools now (chainBroken lastWhole) none).commit g.tools
    w'.Sound g ∨ (w'.store.crashed = false ∧ w'.emitted = [] ∧ ∃ r', recordItems r' = recordItems r ∧
      Stands g w'.store r' base) := by
  -- Before the line is placed, the file may be rotated.
  obtain ⟨store, hstore, hwrite⟩ : ∃ store, Stands g store r base ∧
      w.write g.tools now (chainBroken lastWhole) none =
        { w with store := store }.append g.tools now (chainBroken lastWhole) none := by
    have hcommit : (if w.limits.maxFileBytes ≤ g.tools.port.currentBytes w.store + w.batchBytes then w.commit g.tools
        else w) = w := by
      split
      · exact commit_nil hbatch
      · rfl
    unfold write
    rw [if_neg (by simp [hsingle])]
    simp only [hcommit]
    by_cases hfull : w.limits.maxFileBytes ≤ w.store.currentBytes
    · obtain ⟨store, answer, hrotate, hnext, hnothing⟩ := hstands.rotate_nothing hup (hroom.resolve_left (by omega))
      have hport : g.tools.port.rotate w.store w.limits.keepFiles = (store, answer) := hrotate
      refine ⟨store, hnext, ?_⟩
      rw [if_pos (show w.limits.maxFileBytes ≤ g.tools.port.currentBytes w.store from hfull)]
      simp only [hport]
      cases answer with
      | error e => rfl
      | ok deleted =>
        rw [hnothing deleted rfl]
        rfl
    · refine ⟨w.store, hstands, ?_⟩
      rw [if_neg (show ¬w.limits.maxFileBytes ≤ g.tools.port.currentBytes w.store from hfull)]
  rw [hwrite]
  set e := chainBroken lastWhole with he
  set text := render g.rfc3339 (base + 1) now e (last.hash g) with htext
  set v := ({ w with store := store } : Writer FsStore).append g.tools now e none with hv
  have hplaced : v.store = store ∧ v.perLease = false ∧ v.chain = none ∧ v.emitted = [] ∧ v.seq = base + 1 ∧
      v.prev = lineHash g.sha256 text ∧ v.batchStartPrev = last.hash g ∧
      ∃ line, v.batch = [line] ∧ line.seq = base + 1 ∧ line.text = text := by
    have hshort : ¬writeBatch ≤ 1 := by decide
    have hentry : ∀ line : Line, line.entry = e → line.unrecorded = 0 → entryOf none line = e := by
      intro line hline hzero
      simp [entryOf, hline, hzero]
    simp only [hv, append, placeAll, place, hbatch, hsingle, hchain, hseq, hprev, hunrecorded,
      nil_append, length_singleton, hshort, decide_false, Bool.false_and, Bool.false_eq_true, if_false,
      isEmpty_nil, if_true]
    refine ⟨trivial, trivial, trivial, hemitted, trivial, ?_, trivial, ?_⟩
    · rw [hentry _ rfl rfl]
      rfl
    · refine ⟨_, rfl, rfl, ?_⟩
      rw [hentry _ rfl rfl]
      rfl
  clear_value v
  obtain ⟨rfl, hvsingle, hvchain, hvemitted, hvseq, hvprev, hvstart, line, hvbatch, hlineSeq, hlineText⟩ := hplaced
  have hitem : (Item.entry (base + 1) now e (last.hash g)).line g = text := Item.line_entry _ _ _ _
  have hnamed : e.fields.lookup "last_whole" = some (.text (bounded lastWhole)) := by
    rw [he, chainBroken, Entry.withText, Entry.insert]
    exact AList.lookup_insert _
  cases hcrashed : v.store.crashed with
  | true =>
    have hsound : v.Sound g := ⟨hvsingle, .inl ⟨hcrashed, r, hstore.rests⟩⟩
    exact .inl hsound.commit
  | false =>
    set more := [Item.entry (base + 1) now e (last.hash g)] with hmore
    have hchained : Chained g (last.hash g) base more := ⟨⟨now, e, rfl⟩, trivial⟩
    have hbounded : ∀ entry, lastEntry (recordItems r) = some entry → bounded lastWhole = entry.hash g := by
      intro entry hentry
      rw [hwhole entry hentry]
      exact bounded_lineHash g.sha256_size _
    have hholds : Holds g (recordItems r ++ more) :=
      hstore.kept.holds.repair hstore.kept.ok hlast htorn (base + 1) now rfl hnamed hbounded
    have htexts : v.batch.map Line.text = more.map (Item.line g) := by
      rw [hvbatch, hmore, map_singleton, map_singleton, hitem, hlineText]
    have hvlast : v.prev = lastHash g (last.hash g) more := by
      rw [hvprev, ← hitem]
      rfl
    obtain ⟨store', hstore', hcommit⟩ | ⟨store', error, hstore', hcommit⟩ :=
      commit_cases (g := g) hvsingle hvbatch
    · rw [hlineSeq, htexts] at hstore'
      obtain ⟨-, hup', r', hitems, hstands'⟩ | ⟨herror, -⟩ | ⟨herror, -⟩ :=
        hstore.append hcrashed hchained hholds hstore'
      · rw [hcommit]
        exact .inl (landed_sound hvsingle hvchain (by simp [hmore]) hchained hvseq hvlast hup' hitems hstands')
      · cases herror
      · cases herror
    · rw [hlineSeq, htexts] at hstore'
      obtain ⟨hok, -⟩ | ⟨-, hup', hsame⟩ | ⟨-, hgone, hrests⟩ := hstore.append hcrashed hchained hholds hstore'
      · cases hok
      · rw [hcommit]
        unfold failed
        simp only [hvsingle, Bool.false_eq_true, if_false]
        exact .inr ⟨hup', hvemitted, hsame⟩
      · rw [hcommit]
        unfold failed
        simp only [hvsingle, Bool.false_eq_true, if_false]
        exact .inl ⟨rfl, .inl ⟨hgone, hrests⟩⟩

end Repair

/-! ### Runs -/

/-- Nothing is written over a torn line but its repair: a writer that goes on does so over a record that does not end
torn, and a start that repairs deletes no file first. A start finds the end of the record in the last mebibyte of each
file, and a line in it if there is a file. -/
def System.inOrder (g : Setting) : System → Act → Bool
  | .up w _ _, .handle _ _ | .up w _ _, .commit _ | .up w _ _, .tick _ _ =>
    !(tailIn g.sha256 g.reader.read id w.store.dir).any Tail.torn
  | .down dir _, .start limits _ .opened _ =>
    let store := opened dir
    let tail := tailIn g.sha256 g.reader.read id store.dir
    decide (tailIn g.sha256 g.reader.read lastChunk store.dir = tail) && (store.dir.files.isEmpty || tail.isSome) &&
      (!tail.any Tail.torn || decide (store.currentBytes < limits.maxFileBytes) ||
        decide (store.dir.files.length < limits.keepFiles))
  | _, _ => true

def WholeEnd (r : Record) : Prop := ∀ last, (recordItems r).getLast? = some last → last.isWhole = true

/-- A started writer goes on with the record, or its repair has failed and nothing was written since the crash. -/
def System.Sound (g : Setting) : System → Prop
  | .down dir written => ∃ r, Rests g dir r ∧ (written = true → WholeEnd r)
  | .up w _ written => w.store.crashed = false ∧
    (w.Sound g ∨ (written = false ∧ ∃ r base, Stands g w.store r base ∧ ¬WholeEnd r))

section Runs

variable {g : Setting} {w : Writer FsStore} {given : Nat} {written : Bool} {dir : Dir} {r : Record} {base : Nat}

private lemma Stands.armed {s : FsStore} (h : Stands g s r base) (io : StoreIo) : Stands g (System.armed s io) r base :=
  { h with }

private lemma Writer.Sound.armed (h : w.Sound g) (io : StoreIo) :
    ({ w with store := System.armed w.store io } : Writer FsStore).Sound g := by
  refine ⟨h.single, h.record.imp_right ?_⟩
  rintro ⟨hup, r, base, start, more, ha⟩
  exact ⟨hup, r, base, start, more, ha.stands.armed io, ha.follows, ha.chained, ha.texts, ha.first, ha.seq, ha.prev,
    ha.startPrev, ha.chain⟩

private lemma System.Sound.after (h : w.Sound g) (given : Nat) (written : Bool) :
    (System.after w given written).Sound g := by
  unfold System.after
  cases hcrashed : w.store.crashed with
  | true =>
    rcases h.record with ⟨-, r, hrests⟩ | ⟨hup, -⟩
    · exact ⟨r, hrests, fun hfalse => absurd hfalse Bool.false_ne_true⟩
    · simp [hcrashed] at hup
  | false => exact ⟨hcrashed, .inl h⟩

private lemma System.Sound.writer (h : System.Sound g (.up w given written))
    (hwhole : (!(tailIn g.sha256 g.reader.read id w.store.dir).any Tail.torn) = true) : w.Sound g := by
  refine h.2.resolve_right ?_
  rintro ⟨-, r, base, hstands, hnot⟩
  apply hnot
  intro last hlast
  rcases hstands.kept.tailIn rfl with ⟨-, hnil, -⟩ | ⟨file, last', -, hlast', htail⟩
  · simp [hnil] at hlast
  · rw [hlast] at hlast'
    cases hlast'
    rw [htail] at hwhole
    simpa using hwhole

private lemma Writer.Sound.opened {s : FsStore} (hup : s.crashed = false) {tail : Option Tail}
    (hstands : Stands g s r (tail.elim 0 Tail.lastSeq))
    (hfollows : ∀ last, (recordItems r).getLast? = some last → last.isWhole = true ∧
      tail.elim genesis (fun tail => lineHash g.sha256 tail.lastLine) = last.hash g) (limits : Limits) :
    (opened g.tools s limits .one tail).Sound g := by
  refine ⟨rfl, .inr ⟨hup, r, _, _, [], hstands, hfollows, trivial, rfl, ?_, rfl, rfl, ?_, rfl⟩⟩
  · rintro line ⟨⟩
  · intro hne
    exact absurd rfl hne

private lemma System.Sound.start (h : System.Sound g (.down dir written)) {limits : Limits} {now : Nat} {io : StoreIo}
    (horder : System.inOrder g (.down dir written) (.start limits now .opened io) = true) :
    (System.start g dir written limits now io).Sound g := by
  obtain ⟨r, hrests, hwritten⟩ := h
  simp only [System.inOrder, Bool.and_eq_true, Bool.or_eq_true, decide_eq_true_eq] at horder
  obtain ⟨⟨hpart, hline⟩, hroom⟩ := horder
  have hup : (System.armed (opened dir) io).crashed = false := by
    show (opened dir).crashed = false
    unfold opened
    split
    · rfl
    · split <;> rfl
  have htail : g.tools.port.tail (System.armed (opened dir) io) =
      (System.armed (opened dir) io, .ok (tailIn g.sha256 g.reader.read id (opened dir).dir)) := by
    rw [← hpart]
    rfl
  have hchain : g.tools.port.chain (System.armed (opened dir) io) =
      (System.armed (opened dir) io, .one) := rfl
  unfold System.start Writer.start
  rw [hchain]
  simp only [htail]
  rcases hrests.kept.tailIn rfl with ⟨hnone, hnil, hnewest⟩ | ⟨file, last, hnewest, hlast, hsome⟩
  · -- Without a line there is no file.
    rw [hnone] at hline ⊢
    have hempty : r = [] := by
      have hfiles := hline.resolve_right (by simp)
      rw [List.isEmpty_iff, hrests.kept.files] at hfiles
      exact map_eq_nil_iff.mp hfiles
    have hstands : Stands g (System.armed (opened dir) io) r 0 := by
      refine hrests.stands ?_ (fun _ => hempty) io
      intro file hfile
      simp [hnewest] at hfile
    refine after (Writer.Sound.opened hup hstands ?_ limits) 0 written
    intro last hlast
    simp [hnil] at hlast
  · rw [hsome] at hroom ⊢
    have hstands : Stands g (System.armed (opened dir) io) r (fileSeq file) := by
      refine hrests.stands ?_ ?_ io
      · intro other hother
        rw [hnewest] at hother
        cases hother
        rfl
      · intro hnone
        simp [hnewest] at hnone
    cases hwhole : last.isWhole with
    | true =>
      refine after (Writer.Sound.opened hup hstands ?_ limits) 0 written
      intro other hother
      rw [hlast] at hother
      cases hother
      exact ⟨hwhole, rfl⟩
    | false =>
      have hnot : ¬WholeEnd r := by
        intro hend
        simp [hend last hlast] at hwhole
      have hfalse : written = false := by
        rw [← Bool.not_eq_true]
        exact fun hw => hnot (hwritten hw)
      have hfits : (opened dir).currentBytes < limits.maxFileBytes ∨
          (opened dir).dir.files.length < limits.keepFiles := by
        simpa [hwhole] using hroom
      have hnamed : ∀ entry, lastEntry (recordItems r) = some entry →
          ((lastEntry (recordItems r)).map (Item.hash g)).getD genesis = entry.hash g := by
        intro entry hentry
        rw [hentry]
        rfl
      simp only [Bool.not_false, Bool.false_eq_true, if_false]
      set tail : Tail := ⟨last.line g, fileSeq file, true, (lastEntry (recordItems r)).map (Item.hash g)⟩
      rcases Writer.repair (w := Writer.opened g.tools (System.armed (opened dir) io) limits .one (some tail))
        hstands hup hlast hwhole hfits rfl rfl rfl rfl rfl rfl rfl now hnamed with
        hsound | ⟨hup', hemitted, r', hitems, hstands'⟩
      · exact after hsound 0 written
      unfold System.after
      rw [hup', hemitted, hfalse]
      refine ⟨hup', .inr ⟨rfl, r', _, hstands', ?_⟩⟩
      intro hend
      refine hnot fun other hother => hend other ?_
      rwa [hitems]

/-- What a process that ends leaves behind. -/
private lemma System.Sound.down (h : System.Sound g (.up w given written)) :
    System.Sound g (.down w.store.dir written) := by
  obtain ⟨hup, hsound | ⟨hfalse, r, base, hstands, -⟩⟩ := h
  · rcases hsound.record with ⟨hgone, -⟩ | ⟨-, r, base, start, more, halive⟩
    · simp [hup] at hgone
    · exact ⟨r, halive.stands.rests, fun _ last hlast => (halive.follows last hlast).1⟩
  · refine ⟨r, hstands.rests, fun hwritten => ?_⟩
    simp [hfalse] at hwritten

private lemma System.Sound.step {s s' : System} {act : Act} (h : s.Sound g) (horder : System.inOrder g s act = true)
    (hstep : System.step g s act = some s') : s'.Sound g := by
  have hkeeps := Writer.Sound.keeps g
  cases s with
  | down dir written =>
    cases act with
    | start limits now opening io =>
      cases opening with
      | opened =>
        cases hstep
        exact h.start horder
      | failed mended =>
        cases hstep
        obtain ⟨r, hrests, hwritten⟩ := h
        cases mended with
        | false => exact ⟨r, hrests, hwritten⟩
        | true =>
          refine ⟨r, ⟨?_, hrests.top⟩, hwritten⟩
          rw [if_pos rfl, hrests.kept.opened]
          exact hrests.kept
    | _ => cases hstep
  | up w given written =>
    cases act with
    | record now decision =>
      cases hstep
      obtain ⟨window, queuedRefusals, queue, unrecorded, hrecord, -⟩ := w.record_eq g.tools now decision.entry none
      rw [hrecord]
      exact ⟨h.1, h.2.imp_left fun hsound => hsound.aside window queuedRefusals unrecorded queue⟩
    | ask closing =>
      obtain ⟨v, hsend, rfl⟩ := map_eq_some_iff.mp hstep
      rw [Writer.trySend_eq hsend]
      exact ⟨h.1, h.2.imp_left fun hsound => hsound.aside w.window w.queuedRefusals w.unrecorded _⟩
    | handle now io =>
      have hsound := h.writer horder
      cases hqueue : w.queue with
      | nil =>
        simp only [System.step, hqueue] at hstep
        cases hstep
      | cons message queue =>
        simp only [System.step, hqueue] at hstep
        cases hstep
        have hready : ({ w with store := System.armed w.store io } : Writer FsStore).Sound g := hsound.armed io
        exact after (hkeeps.handle (l := []) hready now hqueue) given written
    | commit io =>
      cases hstep
      exact after (((h.writer horder).armed io).commit) given written
    | tick now io =>
      cases hstep
      exact after (hkeeps.tick (l := []) ((h.writer horder).armed io) now) given written
    | stop =>
      cases hstep
      exact h.down
    | crash =>
      cases hstep
      obtain ⟨r, hrests, -⟩ := h.down
      exact ⟨r, hrests, fun hfalse => absurd hfalse Bool.false_ne_true⟩
    | start limits now opening io => cases hstep

private lemma System.Sound.empty : System.Sound g .empty := by
  refine ⟨[], ⟨⟨rfl, ?_, holds_nil⟩, ?_⟩, fun hfalse => absurd hfalse Bool.false_ne_true⟩
  · intro item hitem
    cases hitem
  · rintro file last ⟨⟩

end Runs

/-- A crash cuts the first append short, and the repair of the next start fails; the writer goes on with the next tick.
-/
def failedRepair : List Act :=
  [.start ⟨1000000, 16⟩ 0 .opened ⟨[], []⟩, .record 0 allowed,
    .tick 0 ⟨[.crashed (some 1)], []⟩, .start ⟨1000000, 16⟩ 0 .opened ⟨[.failed], []⟩, .tick 0 ⟨[], []⟩]

def System.rejected (g : Setting) : System → Bool
  | .up w _ written => written && !(verifyIn g.sha256 g.reader.read w.store.dir).isOk
  | .down _ _ => false

/-- The repair of a torn line fails, and the writer goes on. -/
theorem failed_repair_rejected :
    ¬∀ (g : Setting) (w : Writer FsStore) (given : Nat), Reach .empty (System.step g) (.up w given true) →
      (verifyIn g.sha256 g.reader.read w.store.dir).isOk = true := by
  intro hall
  have hrun : ∃ s ∈ run (System.step plainSetting) .empty failedRepair, s.rejected plainSetting = true := by
    decide +kernel
  obtain ⟨s, hreach, hrejected⟩ := Reach.exists_of_run _ hrun
  cases s with
  | down dir written => cases hrejected
  | up w given written =>
    obtain ⟨hwritten, hnot⟩ := Bool.and_eq_true_iff.mp hrejected
    cases hwritten
    simp [hall plainSetting w given hreach] at hnot

/-- Whenever a started writer has written an entry since the last crash, the record verifies, in every run in which
nothing but its repair is written over a torn line. -/
theorem record_verifies (g : Setting) {w : Writer FsStore} {given : Nat}
    (h : Reach .empty (restrict (fun s act => System.inOrder g s act = true) (System.step g)) (.up w given true)) :
    (verifyIn g.sha256 g.reader.read w.store.dir).isOk = true := by
  have hsound : System.Sound g (.up w given true) := by
    exact h.invariant_restrict System.Sound.empty fun _ _ _ hs horder hstep => hs.step horder hstep
  obtain ⟨hup, hwriter | ⟨hfalse, -⟩⟩ := hsound
  · rcases hwriter.record with ⟨hgone, -⟩ | ⟨-, r, base, start, more, halive⟩
    · simp [hup] at hgone
    have hkept := halive.stands.kept
    obtain ⟨lines, hread, hlines⟩ := readLines_record hkept.ok
    unfold verifyIn
    rw [hkept.files, hread]
    exact hkept.holds.verify hkept.ok (fun last hlast => (halive.follows last hlast).1) hlines
  · cases hfalse

/-- A crash before anything is in the file, one with a byte of a line in it, and the repair of the next start. -/
theorem record_verifies_repaired : ∃ (w : Writer FsStore) (given : Nat),
      Reach .empty (restrict (fun s act => System.inOrder plainSetting s act = true) (System.step plainSetting))
        (.up w given true) ∧
      (verifyIn plainSetting.sha256 plainSetting.reader.read w.store.dir).isOk = true := by
  have hrun : ∃ s ∈ run (restrict (fun s act => System.inOrder plainSetting s act = true)
    (System.step plainSetting)) .empty
      [.start ⟨1000000, 16⟩ 0 .opened ⟨[], []⟩, .record 0 allowed, .tick 0 ⟨[.crashed none], []⟩,
        .start ⟨1000000, 16⟩ 0 .opened ⟨[], []⟩, .record 0 allowed, .tick 0 ⟨[.crashed (some 1)], []⟩,
        .start ⟨1000000, 16⟩ 0 .opened ⟨[], []⟩],
      (match s with | .up _ _ written => written | .down _ _ => false) = true := by decide +kernel
  obtain ⟨s, hreach, hwritten⟩ := Reach.exists_of_run _ hrun
  cases s with
  | down dir written => cases hwritten
  | up w given written =>
    cases (show written = true from hwritten)
    exact ⟨w, given, hreach, record_verifies plainSetting hreach⟩

end OpampFleet.Server.Audit
