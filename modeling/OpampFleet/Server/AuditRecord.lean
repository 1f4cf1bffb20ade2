import OpampFleet.Lib.Lines
import OpampFleet.Server.AuditFiles

/-!
# What the record's files hold

The record as a list of files of lines, each an entry or the piece of one that a crash left. Written out, the store's
reading of the end of the record and the verifier's reading of all of it find these lines again.
-/

namespace OpampFleet.Server.Audit

open Lib List Utf8

inductive Item where
  | entry (seq timeMs : Nat) (entry : Entry) (prev : String)
  /-- The first characters of an entry, and the beginning of the next character. -/
  | torn (text : List Char) (cut : Bytes)

namespace Item

def isWhole : Item → Bool
  | .entry .. => true
  | .torn .. => false

def seq : Item → Option Nat
  | .entry seq _ _ _ => some seq
  | .torn .. => none

def cut : Item → Bytes
  | .entry .. => []
  | .torn _ cut => cut

variable (g : Setting) (item : Item)

def text : Item → List Char
  | .entry seq timeMs e prev => (render g.rfc3339 seq timeMs e prev).toList
  | .torn text _ => text

def bytes : Bytes := encode (item.text g) ++ item.cut

def chars : List Char := item.text g ++ mend item.cut

def line : String := String.ofList (item.chars g)

def hash : String := lineHash g.sha256 (item.line g)

structure Ok (item : Item) : Prop where
  printable : ∀ c ∈ item.text g, 32 ≤ c.toNat
  head : (item.text g).head? = some '{'
  cut : Utf8.IsCut item.cut
  torn : item.isWhole = false → isEntry g.reader.read (item.line g) = false

variable {g} {item : Item} (seq timeMs : Nat)

lemma ok_entry (e : Entry) (prev : String) : (Item.entry seq timeMs e prev).Ok g where
  printable := Json.write_printable _
  head := by
    rw [text, render, Json.write_toList]
    rfl
  cut := isCut_nil
  torn h := by cases h

lemma line_entry (e : Entry) (prev : String) :
    (Item.entry seq timeMs e prev).line g = render g.rfc3339 seq timeMs e prev := by
  simp [line, chars, text, Item.cut, mend]

lemma bytes_entry (e : Entry) (prev : String) :
    (Item.entry seq timeMs e prev).bytes g = Core.utf8 (render g.rfc3339 seq timeMs e prev) :=
  append_nil _

/-- A written entry reads back. -/
lemma read_entry (e : Entry) (prev : String) :
    g.reader.read ((Item.entry seq timeMs e prev).line g) = .ok (object g.rfc3339 seq timeMs e prev).view := by
  rw [line_entry]
  exact g.reader.read_write _

lemma Ok.isEntry_line (h : item.Ok g) : isEntry g.reader.read (item.line g) = item.isWhole := by
  cases item with
  | entry seq timeMs e prev => exact isEntry_iff.mpr ⟨_, read_entry seq timeMs e prev⟩
  | torn text cut => exact h.torn rfl

private lemma Ok.seqOf_line (h : item.Ok g) : seqOf g.reader.read (item.line g) = item.seq := by
  cases item with
  | entry seq timeMs e prev =>
    rw [seqOf, read_entry]
    exact object_seq seq timeMs e prev
  | torn text cut =>
    have hnone := h.torn rfl
    unfold isEntry at hnone
    unfold seqOf
    cases hread : g.reader.read ((Item.torn text cut).line g) with
    | error e => rfl
    | ok view =>
      rw [hread] at hnone
      cases hnone

lemma seq_isSome : item.seq.isSome = item.isWhole := by
  cases item <;> rfl

section

variable (h : item.Ok g)
include h

private lemma Ok.bytes_ge : ∀ b ∈ item.bytes g, 32 ≤ b.toNat := by
  refine forall_mem_append.mpr ⟨le_of_mem_encode (by omega) h.printable, fun b hcut => ?_⟩
  exact Nat.le_trans (by omega) (high_of_isCut h.cut b hcut)

lemma Ok.newline_notMem : newline ∉ item.bytes g := by
  intro hmem
  have hge := h.bytes_ge newline hmem
  revert hge
  decide

private lemma Ok.chars_ge : ∀ c ∈ item.chars g, 32 ≤ c.toNat := by
  intro c hc
  rcases mem_append.mp hc with htext | hcut
  · exact h.printable c htext
  unfold mend at hcut
  split at hcut
  · cases hcut
  · rw [mem_singleton.mp hcut]
    decide

private lemma Ok.notMem_chars {c : Char} (hc : c.toNat < 32) : c ∉ item.chars g := by
  intro hmem
  have hge := h.chars_ge c hmem
  omega

private lemma Ok.text_cons : ∃ rest, item.text g = '{' :: rest := by
  have hhead := h.head
  cases htext : item.text g with
  | nil =>
    simp [htext] at hhead
  | cons c rest =>
    rw [htext] at hhead
    cases hhead
    exact ⟨rest, rfl⟩

private lemma Ok.line_not_blank : Core.isBlank (item.line g) = false := by
  obtain ⟨rest, hrest⟩ := h.text_cons
  rw [Core.isBlank, line, String.toList_ofList, chars, hrest]
  rfl

end

/-- What is left of an entry is the entry or a torn line. -/
lemma exists_of_cut {seq timeMs : Nat} {e : Entry} {prev : String} {tail : Bytes}
    (hne : tail ≠ []) (hcut : tail <+: (Item.entry seq timeMs e prev).bytes g) :
    ∃ item : Item, item.Ok g ∧ item.bytes g = tail ∧
      (item = .entry seq timeMs e prev ∨ item.isWhole = false) := by
  set whole := Item.entry seq timeMs e prev with hwhole
  have hbytes : whole.bytes g = encode (whole.text g) := append_nil _
  rw [hbytes] at hcut
  obtain ⟨first, cut, htail, hfirst, hisCut⟩ := prefix_encode hcut
  have hok : whole.Ok g := ok_entry seq timeMs e prev
  by_cases hall : first = whole.text g
  · -- Nothing follows the last character, so the entry is whole but for its newline.
    refine ⟨whole, hok, ?_, .inl rfl⟩
    have hlength := hcut.length_le
    rw [htail, hall, length_append] at hlength
    have hnil : cut = [] := eq_nil_of_length_eq_zero (by omega)
    rw [hbytes, htail, hall, hnil, append_nil]
  have hread := g.reader.read_cut (object g.rfc3339 seq timeMs e prev) hfirst hall
  refine ⟨.torn first cut, ⟨?_, ?_, hisCut, ?_⟩, htail.symm, .inr rfl⟩
  · exact fun c hc => hok.printable c (hfirst.mem hc)
  · obtain ⟨rest, hrest⟩ := hok.text_cons
    cases hchars : first with
    | cons c more =>
      rw [hchars, hrest, cons_prefix_cons] at hfirst
      rw [text, hfirst.1]
      rfl
    | nil =>
      -- The first byte is no beginning of a character.
      exfalso
      rw [hchars, encode_nil, nil_append] at htail
      rw [htail, hrest, encode_cons] at hcut
      cases hbytes : cut with
      | nil => exact hne (htail.trans hbytes)
      | cons b more =>
        have hhigh := high_of_isCut hisCut b (hbytes ▸ mem_cons_self)
        rw [hbytes] at hcut
        have hb : b = 123 := (cons_prefix_cons.mp hcut).1
        rw [hb] at hhigh
        revert hhigh
        decide
  · intro _
    unfold isEntry line chars Item.cut text mend
    by_cases hnil : cut = []
    · rw [if_pos hnil, append_nil]
      exact hread.1
    · rw [if_neg hnil]
      exact hread.2

end Item

section Lines

variable {g : Setting} {items : List Item}

def fileBytes (g : Setting) (items : List Item) : Bytes := unlines newline (items.map (Item.bytes g))

lemma fileBytes_append (items items' : List Item) :
    fileBytes g (items ++ items') = fileBytes g items ++ fileBytes g items' := by
  rw [fileBytes, map_append, unlines_append]
  rfl

private lemma lossy_fileBytes (hok : ∀ item ∈ items, item.Ok g) :
    lossy (fileBytes g items) = unlines '\n' (items.map (Item.chars g)) := by
  unfold fileBytes
  induction items with
  | nil => rfl
  | cons item items ih =>
    have hfirst := hok item mem_cons_self
    rw [map_cons, map_cons, unlines_cons, unlines_cons, Item.bytes]
    show lossy (_ ++ _ ++ 10 :: _) = _
    rw [lossy_cut_newline _ hfirst.cut, ih fun i hi => hok i (mem_cons_of_mem _ hi)]
    rfl

private lemma stripSuffix_of_notMem {c : Char} {line : List Char} (h : c ∉ line) : stripSuffix c line = line := by
  unfold stripSuffix
  rw [if_neg]
  intro hlast
  exact h (mem_of_getLast? hlast)

private lemma textLines_unlines {lines : List (List Char)} (hnewline : ∀ line ∈ lines, '\n' ∉ line)
    (hreturn : ∀ line ∈ lines, '\r' ∉ line) : textLines (unlines '\n' lines) = lines ++ [[]] := by
  have hsplit : (unlines '\n' lines).splitOn '\n' = lines ++ [[]] := by
    have h := splitOn_unlines hnewline (not_mem_nil : '\n' ∉ [])
    rwa [append_nil] at h
  have hstrip : lines.map (stripSuffix '\r') = lines := by
    conv_rhs => rw [← map_id lines]
    exact map_congr_left fun line hline => stripSuffix_of_notMem (hreturn line hline)
  unfold textLines
  rw [hsplit]
  simp [hstrip]

private lemma tailLines_fileBytes (hok : ∀ item ∈ items, item.Ok g) :
    tailLines id (fileBytes g items) = items.map (Item.line g) := by
  have hchars : ∀ c : Char, c.toNat < 32 → ∀ line ∈ items.map (Item.chars g), c ∉ line := by
    intro c hc line hline
    obtain ⟨item, hitem, rfl⟩ := mem_map.mp hline
    exact (hok item hitem).notMem_chars hc
  have hkept : ((items.map (Item.chars g)).map String.ofList).filter (fun line => !Core.isBlank line) =
      items.map (Item.line g) := by
    rw [map_map, filter_eq_self.mpr]
    · rfl
    · intro line hline
      obtain ⟨item, hitem, rfl⟩ := mem_map.mp hline
      rw [Bool.not_eq_true']
      exact (hok item hitem).line_not_blank
  unfold tailLines
  rw [id, lossy_fileBytes hok, textLines_unlines (hchars '\n' (by decide)) (hchars '\r' (by decide)), map_append,
    filter_append, hkept]
  have hblank : ([[]].map String.ofList).filter (fun line => !Core.isBlank line) = [] := by decide
  rw [hblank, append_nil]

private lemma readLine_bytes {item : Item} (hok : item.Ok g) (place : String) :
    readLine place (item.bytes g) = .ok (item.line g) := by
  have hreturn : ¬(item.bytes g).getLast? = some 13 := by
    intro hlast
    have hge := hok.bytes_ge 13 (mem_of_getLast? hlast)
    revert hge
    decide
  unfold readLine
  simp only [if_neg hreturn]
  by_cases hcut : item.cut = []
  · have hbytes : item.bytes g = encode (item.text g) := by rw [Item.bytes, hcut, append_nil]
    rw [hbytes, strict_encode]
    simp [Item.line, Item.chars, hcut, mend]
  · rw [Item.bytes, strict_cut _ hok.cut hcut]
    simp only [Item.line, Item.chars, lossy_cut _ hok.cut]

private lemma mapM_eq_ok {α β : Type} (f : α → Except String β) (h : α → β) {xs : List α}
    (hf : ∀ x ∈ xs, f x = .ok (h x)) : xs.mapM f = .ok (xs.map h) := by
  induction xs with
  | nil => rfl
  | cons x xs ih =>
    rw [mapM_cons, hf x mem_cons_self, ih fun y hy => hf y (mem_cons_of_mem _ hy)]
    rfl

def textOf (line : Bytes) : String := (readLine "" line).toOption.getD ""

def placed (name : Nat) (numbered : Bytes × Nat) : String × String :=
  (s!"{fileName name}:{numbered.2 + 1}", textOf numbered.1)

private lemma textOf_bytes {item : Item} (hok : item.Ok g) : textOf (item.bytes g) = item.line g := by
  rw [textOf, readLine_bytes hok]
  rfl

private lemma readFile_fileBytes (name : Nat) (hok : ∀ item ∈ items, item.Ok g) :
    ∃ placed, readFile (name, fileBytes g items) = .ok placed ∧ placed.map Prod.snd = items.map (Item.line g) := by
  have hsplit : (fileBytes g items).splitOn newline = items.map (Item.bytes g) ++ [[]] := by
    have hnewline : ∀ line ∈ items.map (Item.bytes g), newline ∉ line := by
      intro line hline
      obtain ⟨item, hitem, rfl⟩ := mem_map.mp hline
      exact (hok item hitem).newline_notMem
    have h := splitOn_unlines hnewline (not_mem_nil : newline ∉ [])
    rwa [append_nil] at h
  have hread : ∀ line ∈ items.map (Item.bytes g) ++ [[]], ∀ place, readLine place line = .ok (textOf line) := by
    intro line hline place
    rcases mem_append.mp hline with hmem | hnil
    · obtain ⟨item, hitem, rfl⟩ := mem_map.mp hmem
      rw [readLine_bytes (hok item hitem), textOf_bytes (hok item hitem)]
    · rw [mem_singleton.mp hnil]
      rfl
  have htexts : ((items.map (Item.bytes g) ++ [[]]).map textOf).filter (fun line => !Core.isBlank line) =
      items.map (Item.line g) := by
    have hblank : ([[]].map textOf).filter (fun line => !Core.isBlank line) = [] := by decide
    have hlines : (items.map (Item.bytes g)).map textOf = items.map (Item.line g) := by
      rw [map_map]
      exact map_congr_left fun item hitem => textOf_bytes (hok item hitem)
    rw [map_append, filter_append, hblank, append_nil, hlines, filter_eq_self]
    intro line hline
    obtain ⟨item, hitem, rfl⟩ := mem_map.mp hline
    rw [Bool.not_eq_true']
    exact (hok item hitem).line_not_blank
  have hfile : readFile (name, fileBytes g items) =
      .ok ((((fileBytes g items).splitOn newline).zipIdx.map (placed name)).filter fun line =>
        !Core.isBlank line.2) := by
    unfold readFile
    rw [mapM_eq_ok _ (placed name)]
    · rfl
    · intro numbered hnumbered
      have hmem := hsplit ▸ fst_mem_of_mem_zipIdx hnumbered
      simp only [hread numbered.1 hmem]
      rfl
  refine ⟨_, hfile, ?_⟩
  have hkept : ∀ lines : List (Bytes × Nat),
      ((lines.map (placed name)).filter fun line => !Core.isBlank line.2).map Prod.snd =
        ((lines.map Prod.fst).map textOf).filter fun line => !Core.isBlank line := by
    intro lines
    rw [map_map, filter_map, map_map, filter_map]
    rfl
  rw [hkept, zipIdx_map_fst, hsplit, htexts]

end Lines

abbrev Record := List (Nat × List Item)

def recordFiles (g : Setting) (r : Record) : List (Nat × Bytes) := r.map fun file => (file.1, fileBytes g file.2)

def recordItems (r : Record) : List Item := r.flatMap Prod.snd

def newestOf (files : Record) : Option (Nat × List Item) := files.find? fun file => !file.2.isEmpty

def fileSeq (file : Nat × List Item) : Nat := (file.2.filterMap Item.seq).max?.getD (file.1 - 1 + file.2.length)

def lastEntryOf (files : Record) : Option Item := files.findSome? fun file => file.2.reverse.find? Item.isWhole

section Record

variable {g : Setting}

/-- The files of a record are read as its lines. -/
lemma readLines_record {r : Record} (hok : ∀ item ∈ recordItems r, item.Ok g) :
    ∃ placed, readLines (recordFiles g r) = .ok placed ∧ placed.map Prod.snd = (recordItems r).map (Item.line g) := by
  have hfiles : ∃ placed : List (List (String × String)), (recordFiles g r).mapM readFile = .ok placed ∧
      placed.flatten.map Prod.snd = (recordItems r).map (Item.line g) := by
    induction r with
    | nil => exact ⟨[], rfl, rfl⟩
    | cons file r ih =>
      obtain ⟨first, hfirst, hlines⟩ := readFile_fileBytes file.1
        (fun item hitem => hok item (mem_append_left _ hitem) : ∀ item ∈ file.2, item.Ok g)
      obtain ⟨rest, hrest, hlines'⟩ := ih fun item hitem => hok item (mem_append_right _ hitem)
      refine ⟨first :: rest, ?_, ?_⟩
      · rw [recordFiles, map_cons, mapM_cons, hfirst]
        show (do let rest ← (recordFiles g r).mapM readFile; pure (first :: rest)) = _
        rw [hrest]
        rfl
      · rw [flatten_cons, map_append, hlines, hlines', ← map_append]
        rfl
  obtain ⟨placed, hmap, hlines⟩ := hfiles
  refine ⟨placed.flatten, ?_, hlines⟩
  unfold readLines
  rw [hmap]
  rfl

private lemma wholeIn_items {items : List Item} (hok : ∀ item ∈ items, item.Ok g) :
    wholeIn g.sha256 g.reader.read (items.map (Item.line g)) =
      (items.reverse.find? Item.isWhole).map (Item.hash g) := by
  have hfind : (items.map (Item.line g)).reverse.find? (fun line => (seqOf g.reader.read line).isSome) =
      (items.reverse.find? Item.isWhole).map (Item.line g) := by
    have hrev : ∀ item ∈ items.reverse, item.Ok g := fun item hitem => hok item (mem_reverse.mp hitem)
    rw [← map_reverse]
    generalize items.reverse = rev at hrev
    induction rev with
    | nil => rfl
    | cons item rev ih =>
      have hseq : (seqOf g.reader.read (item.line g)).isSome = item.isWhole := by
        rw [(hrev item mem_cons_self).seqOf_line, Item.seq_isSome]
      rw [map_cons, find?_cons, find?_cons, hseq, ih fun i hi => hrev i (mem_cons_of_mem _ hi)]
      cases item.isWhole <;> rfl
  rw [wholeIn, hfind, Option.map_map]
  rfl

private lemma lastWholeIn_record {files : Record} (hok : ∀ item ∈ recordItems files, item.Ok g) :
    lastWholeIn g.sha256 g.reader.read id (recordFiles g files) = (lastEntryOf files).map (Item.hash g) := by
  induction files with
  | nil => rfl
  | cons file files ih =>
    have hfile : ∀ item ∈ file.2, item.Ok g := fun item hitem => hok item (mem_append_left _ hitem)
    have hrest := ih fun item hitem => hok item (mem_append_right _ hitem)
    show (wholeIn _ _ (tailLines id (fileBytes g file.2))).or (lastWholeIn _ _ id (recordFiles g files)) = _
    rw [tailLines_fileBytes hfile, wholeIn_items hfile, hrest, lastEntryOf, lastEntryOf, findSome?_cons]
    cases file.2.reverse.find? Item.isWhole with
    | none | some item => rfl

private lemma lastSeqIn_file {file : Nat × List Item} (hok : ∀ item ∈ file.2, item.Ok g) :
    lastSeqIn g.reader.read id (file.1, fileBytes g file.2) = fileSeq file := by
  have hseqs : (file.2.map (Item.line g)).filterMap (seqOf g.reader.read) = file.2.filterMap Item.seq := by
    rw [filterMap_map]
    refine filterMap_congr ?_
    intro item hitem
    exact (hok item hitem).seqOf_line
  rw [lastSeqIn, tailLines_fileBytes hok, hseqs, length_map, fileSeq]

lemma endsWithNewline_fileBytes {items : List Item} (hne : items ≠ []) :
    endsWithNewline (fileBytes g items) = true := by
  obtain ⟨init, last, rfl⟩ := eq_nil_or_concat items |>.resolve_left hne
  simp [endsWithNewline, fileBytes, unlines]

lemma tailFrom_record {files : Record} (hok : ∀ item ∈ recordItems files, item.Ok g) :
    tailFrom g.sha256 g.reader.read id (recordFiles g files) =
      (newestOf files).bind fun file => file.2.getLast?.map fun last =>
        { lastLine := last.line g
          lastSeq := fileSeq file
          torn := !last.isWhole
          lastWhole := if last.isWhole then none else (lastEntryOf files).map (Item.hash g) } := by
  induction files with
  | nil => rfl
  | cons file files ih =>
    have hfile : ∀ item ∈ file.2, item.Ok g := fun item hitem => hok item (mem_append_left _ hitem)
    have hrest := ih fun item hitem => hok item (mem_append_right _ hitem)
    have hwhole := lastWholeIn_record hok
    show tailFrom _ _ id ((_, fileBytes g file.2) :: recordFiles g files) = _
    rw [tailFrom, tailLines_fileBytes hfile]
    cases hlast : file.2.getLast? with
    | none =>
      have hnil := getLast?_eq_none_iff.mp hlast
      have hentry : lastEntryOf (file :: files) = lastEntryOf files := by
        rw [lastEntryOf, findSome?_cons, hnil]
        rfl
      have hnewest : newestOf (file :: files) = newestOf files := by simp [newestOf, hnil]
      rwa [hnil, hentry, hnewest]
    | some last =>
      have hne : file.2 ≠ [] := by
        intro hnil
        simp [hnil] at hlast
      have hnewest : newestOf (file :: files) = some file := by simp [newestOf, hne]
      have hmem : last ∈ file.2 := mem_of_getLast? hlast
      rw [getLast?_map, hlast, hnewest]
      simp only [Option.map_some, Option.bind_some, hlast, (hfile last hmem).seqOf_line, endsWithNewline_fileBytes hne,
        Bool.not_true, Bool.or_false]
      have hnone : last.seq.isNone = !last.isWhole := by
        rw [← Item.seq_isSome]
        cases last.seq <;> rfl
      rw [hnone, lastSeqIn_file hfile]
      show some (Tail.mk _ _ _ (if _ then lastWholeIn _ _ id (recordFiles g (file :: files)) else none)) = _
      rw [hwhole]
      cases last.isWhole <;> rfl

end Record

def Chained (g : Setting) : String → Nat → List Item → Prop
  | _, _, [] => True
  | start, base, item :: items =>
    (∃ timeMs e, item = .entry (base + 1) timeMs e start) ∧ Chained g (item.hash g) (base + 1) items

section Chained

variable {g : Setting} {start : String} {base : Nat} {more : List Item}

section

variable (h : Chained g start base more)
include h

lemma Chained.mem : ∀ item ∈ more, ∃ seq timeMs e prev, item = .entry seq timeMs e prev := by
  induction more generalizing start base with
  | nil => intro item hitem; cases hitem
  | cons first more ih =>
    obtain ⟨⟨timeMs, e, hfirst⟩, hrest⟩ := h
    intro item hitem
    rcases mem_cons.mp hitem with rfl | hitem
    · exact ⟨_, _, _, _, hfirst⟩
    · exact ih hrest item hitem

lemma Chained.ok : ∀ item ∈ more, item.Ok g := by
  intro item hitem
  obtain ⟨seq, timeMs, e, prev, rfl⟩ := h.mem item hitem
  exact Item.ok_entry seq timeMs e prev

/-- A chain is numbered without a gap. -/
lemma Chained.seqs : more.filterMap Item.seq = List.range' (base + 1) more.length := by
  induction more generalizing start base with
  | nil => rfl
  | cons first more ih =>
    obtain ⟨⟨timeMs, e, rfl⟩, hrest⟩ := h
    show (base + 1) :: more.filterMap Item.seq = _
    rw [ih hrest, length_cons, range'_succ]

end

def lastHash (g : Setting) (start : String) (items : List Item) :
    String := (items.getLast?.map (Item.hash g)).getD start

lemma lastHash_cons (start : String) (item : Item) (items : List Item) :
    lastHash g start (item :: items) = lastHash g (item.hash g) items := by
  unfold lastHash
  rw [getLast?_cons]
  cases items.getLast? <;> rfl

lemma lastHash_append (start : String) (items more : List Item) :
    lastHash g start (items ++ more) = lastHash g (lastHash g start items) more := by
  induction items generalizing start with
  | nil => rfl
  | cons item items ih => rw [cons_append, lastHash_cons, lastHash_cons, ih]

lemma chained_append {items : List Item} : Chained g start base (items ++ more) ↔
      Chained g start base items ∧ Chained g (lastHash g start items) (base + items.length) more := by
  induction items generalizing start base with
  | nil => exact ⟨fun h => ⟨trivial, h⟩, And.right⟩
  | cons first items ih =>
    have hlength : base + (first :: items).length = base + 1 + items.length := by
      rw [length_cons]
      omega
    rw [cons_append, Chained, Chained, ih, lastHash_cons, hlength, and_assoc]

/-- A chain goes on with an entry that names its last hash. -/
lemma Chained.concat (h : Chained g start base more) (timeMs : Nat) (e : Entry) :
    Chained g start base (more ++ [.entry (base + more.length + 1) timeMs e (lastHash g start more)]) :=
  chained_append.mpr ⟨h, ⟨timeMs, e, rfl⟩, trivial⟩

end Chained

end OpampFleet.Server.Audit
