import OpampFleet.Server.AuditHolds

/-!
# The record under the store's calls

What an append and a rotation of the file store do to the lines of the record, however the call ends. An append adds
entries at the end of the newest file or of a new one, leaves the lines as they were, or is cut off by a crash; opening
the store again then finds the lines before and the beginning of what was appended.
-/

namespace OpampFleet.Server.Audit

open Lib List Option

section Files

variable {name : Nat} {bytes held : Bytes} {files older : List (Nat × Bytes)}

private lemma putFile_new (h : ∀ file ∈ files, file.1 < name) :
    putFile name bytes files = files ++ [(name, bytes)] := by
  induction files with
  | nil => rfl
  | cons first files ih =>
    have hfirst := h first mem_cons_self
    rw [putFile, if_neg (by omega), if_neg (by omega), ih fun file hfile => h file (mem_cons_of_mem _ hfile)]
    rfl

lemma putFile_last (h : ∀ file ∈ older, file.1 < name) :
    putFile name bytes (older ++ [(name, held)]) = older ++ [(name, bytes)] := by
  induction older with
  | nil => simp [putFile]
  | cons first older ih =>
    have hfirst := h first mem_cons_self
    rw [cons_append, putFile, if_neg (by omega), if_neg (by omega),
      ih fun file hfile => h file (mem_cons_of_mem _ hfile)]
    rfl

private lemma find_of_lt (h : ∀ file ∈ older, file.1 < name) : older.find? (·.1 = name) = none := by
  refine find?_eq_none.mpr ?_
  intro file hfile
  have hlt := h file hfile
  simp only [decide_eq_true_eq]
  omega

lemma Dir.lt_of_files {dir : Dir} (h : dir.files = older ++ [(name, held)]) : ∀ file ∈ older, file.1 < name := by
  intro file hfile
  have hordered := dir.ordered
  rw [h] at hordered
  exact (pairwise_append.mp hordered).2.2 file hfile (name, held) mem_cons_self

end Files

section Chained

variable {g : Setting} {start : String} {base : Nat} {more : List Item}

/-- A chain from a whole last line may follow a record that holds. -/
lemma Holds.chained {items : List Item} (h : Holds g items) (hok : ∀ item ∈ items, item.Ok g)
    (hlast : ∀ last, items.getLast? = some last → last.isWhole = true ∧ start = last.hash g)
    (hchain : Chained g start base more) : Holds g (items ++ more) := by
  induction more generalizing items start base with
  | nil => rwa [append_nil]
  | cons first more ih =>
    obtain ⟨⟨timeMs, e, rfl⟩, hrest⟩ := hchain
    rw [append_cons]
    refine ih (h.entry hok hlast) ?_ ?_ hrest
    · exact forall_mem_append.mpr ⟨hok, forall_mem_singleton.mpr (Item.ok_entry _ _ _ _)⟩
    · intro last hl
      rw [getLast?_concat] at hl
      cases hl
      exact ⟨rfl, rfl⟩

private lemma Chained.appendBytes (h : Chained g start base more) :
    FsStore.appendBytes (more.map (Item.line g)) = fileBytes g more := by
  unfold FsStore.appendBytes fileBytes unlines
  rw [flatMap_map, flatMap_map]
  refine flatMap_congr ?_
  intro item hitem
  obtain ⟨seq, timeMs, e, prev, rfl⟩ := h.mem item hitem
  rw [Item.line_entry, Item.bytes_entry]

end Chained

section Seq

variable {g : Setting} {start : String} {base name : Nat} {items more : List Item}

section

variable (h : items = [] ∨ fileSeq (name, items) = base)
include h

private lemma fileSeq_bound : ∀ m, (items.filterMap Item.seq).max? = some m → m = base := by
  intro m hm
  rcases h with rfl | hbase
  · cases hm
  · rwa [fileSeq, hm] at hbase

private lemma fileSeq_chained (hchain : Chained g start base more)
    (hne : more ≠ []) : fileSeq (name, items ++ more) = base + more.length := by
  have hpos : 0 < more.length := length_pos_iff.mpr hne
  have hmax : ((items ++ more).filterMap Item.seq).max? = some (base + more.length) := by
    rw [max?_eq_some_iff, filterMap_append, hchain.seqs]
    constructor
    · refine mem_append_right _ (mem_range'_1.mpr ?_)
      omega
    intro seq hseq
    rcases mem_append.mp hseq with hold | hnew
    · cases hmax : (items.filterMap Item.seq).max? with
      | none =>
        simp [max?_eq_none_iff.mp hmax] at hold
      | some m =>
        have hle := (max?_eq_some_iff.mp hmax).2 seq hold
        have hm := fileSeq_bound h m hmax
        omega
    · have hle := mem_range'_1.mp hnew
      omega
  rw [fileSeq, hmax]
  rfl

private lemma name_le_fileSeq (hname : name ≤ base + 1)
    (hmore : ∀ seq ∈ more.filterMap Item.seq, base ≤ seq) (hne : items ++ more ≠ []) :
    name ≤ fileSeq (name, items ++ more) + 1 := by
  unfold fileSeq
  cases hmax : ((items ++ more).filterMap Item.seq).max? with
  | none =>
    have hpos : 0 < (items ++ more).length := length_pos_iff.mpr hne
    simp only [getD_none]
    omega
  | some m =>
    obtain ⟨hmem, hle⟩ := max?_eq_some_iff.mp hmax
    rw [getD_some]
    rw [filterMap_append] at hmem hle
    cases hitems : (items.filterMap Item.seq).max? with
    | none =>
      rw [max?_eq_none_iff.mp hitems, nil_append] at hmem
      have hbase := hmore m hmem
      omega
    | some m' =>
      have hm' := fileSeq_bound h m' hitems
      have hbase := hle m' (mem_append_left _ (max?_eq_some_iff.mp hitems).1)
      omega

end

end Seq

structure Kept (g : Setting) (files : List (Nat × Bytes)) (r : Record) : Prop where
  files : files = recordFiles g r
  ok : ∀ item ∈ recordItems r, item.Ok g
  holds : Holds g (recordItems r)

structure Stands (g : Setting) (s : FsStore) (r : Record) (base : Nat) : Prop where
  kept : Kept g s.dir.files r
  current : ∀ name size, s.current = some (name, size) →
    ∃ items, r.getLast? = some (name, items) ∧ size = (fileBytes g items).length
  count : ∀ file, newestOf r.reverse = some file → fileSeq file = base
  top : ∀ file, r.getLast? = some file → file.1 ≤ base + 1

/-- What the files at rest hold once the store is opened: a record whose newest file has no later name than the next
entry. -/
structure Rests (g : Setting) (dir : Dir) (r : Record) : Prop where
  kept : Kept g (FsStore.opened dir).dir.files r
  top : ∀ file last, newestOf r.reverse = some file → r.getLast? = some last → last.1 ≤ fileSeq file + 1

section Record

variable {g : Setting} {r older : Record} {name base : Nat} {items more : List Item}

private lemma recordFiles_append (r r' : Record) : recordFiles g (r ++ r') = recordFiles g r ++ recordFiles g r' :=
  map_append

lemma recordItems_append (r r' : Record) : recordItems (r ++ r') = recordItems r ++ recordItems r' :=
  flatMap_append

lemma recordItems_concat (r : Record) (name : Nat) (items : List Item) :
    recordItems (r ++ [(name, items)]) = recordItems r ++ items := by
  rw [recordItems_append]
  simp [recordItems]

lemma newestOf_concat (r : Record) (name : Nat) (items : List Item) :
    newestOf (r ++ [(name, items)]).reverse = if items = [] then newestOf r.reverse else some (name, items) := by
  rw [newestOf, reverse_concat, find?_cons]
  by_cases hnil : items = []
  · simp [hnil, newestOf]
  · have hsome : items.isEmpty = false := by simpa using hnil
    simp [hnil, hsome]

lemma Kept.opened {dir : Dir} (h : Kept g dir.files r) : (FsStore.opened dir).dir = dir := by
  unfold FsStore.opened
  cases hlast : dir.files.getLast? with
  | none => rfl
  | some file =>
    have hended : ¬(file.2 ≠ [] ∧ endsWithNewline file.2 = false) := by
      rintro ⟨hne, hnot⟩
      rw [h.files, recordFiles, getLast?_map] at hlast
      obtain ⟨own, -, rfl⟩ := map_eq_some_iff.mp hlast
      have hitems : own.2 ≠ [] := by
        intro hnil
        apply hne
        simp only [hnil]
        rfl
      simp [endsWithNewline_fileBytes hitems] at hnot
    simp only
    rw [if_neg hended]

lemma Stands.rests {s : FsStore} (h : Stands g s r base) : Rests g s.dir r where
  kept := by
    rw [h.kept.opened]
    exact h.kept
  top := by
    intro file last hfile hlast
    rw [h.count file hfile]
    exact h.top last hlast

end Record

structure Target (g : Setting) (s : FsStore) (r : Record) (base name size : Nat) (older : Record) (items : List Item) :
    Prop where
  held : (s.dir.find name).getD [] = fileBytes g items
  size : size = (fileBytes g items).length
  put : ∀ bytes, (s.dir.put name bytes).files = recordFiles g older ++ [(name, bytes)]
  same : r = older ++ [(name, items)] ∨ r = older ∧ items = []
  top : name ≤ base + 1

section Append

variable {g : Setting} {s s' : FsStore} {r older : Record} {base name size : Nat} {items more : List Item}
  {start : String}

private lemma Target.of_last (h : Kept g s.dir.files (older ++ [(name, items)])) (htop : name ≤ base + 1) :
    Target g s (older ++ [(name, items)]) base name (fileBytes g items).length older items := by
  have hfiles : s.dir.files = recordFiles g older ++ [(name, fileBytes g items)] := by
    rw [h.files, recordFiles_append]
    rfl
  have hlt := Dir.lt_of_files hfiles
  refine ⟨?_, rfl, ?_, .inl rfl, htop⟩
  · rw [Dir.find, hfiles, find?_append, find_of_lt hlt]
    simp
  · intro bytes
    show putFile name bytes s.dir.files = _
    rw [hfiles, putFile_last hlt]

private lemma Target.of_new (h : Kept g s.dir.files r) (hlt : ∀ file ∈ r, file.1 < base + 1) :
    Target g s r base (base + 1) ((s.dir.find (base + 1)).getD []).length r [] := by
  have hlt' : ∀ file ∈ s.dir.files, file.1 < base + 1 := by
    intro file hfile
    rw [h.files] at hfile
    obtain ⟨own, hown, rfl⟩ := List.mem_map.mp hfile
    exact hlt own hown
  have hfind : s.dir.find (base + 1) = none := by rw [Dir.find, find_of_lt hlt', map_none]
  refine ⟨?_, ?_, ?_, .inr ⟨rfl, rfl⟩, le_rfl⟩
  · rw [hfind]
    rfl
  · rw [hfind]
    rfl
  · intro bytes
    show putFile (base + 1) bytes s.dir.files = _
    rw [putFile_new hlt', h.files]

private lemma Stands.target (h : Stands g s r base)
    (htarget : s.current.getD (base + 1, ((s.dir.find (base + 1)).getD []).length) = (name, size)) :
    ∃ older items, Target g s r base name size older items := by
  cases hcurrent : s.current with
  | some file =>
    rw [hcurrent, getD_some] at htarget
    obtain ⟨items, hlast, hsize⟩ := h.current name size (by rw [hcurrent, htarget])
    obtain ⟨older, rfl⟩ := getLast?_eq_some_iff.mp hlast
    rw [hsize]
    exact ⟨older, items, Target.of_last h.kept (h.top _ hlast)⟩
  | none =>
    rw [hcurrent, getD_none] at htarget
    cases htarget
    cases hlast : r.getLast? with
    | none =>
      rw [getLast?_eq_none_iff.mp hlast] at h ⊢
      exact ⟨[], [], Target.of_new h.kept (by simp)⟩
    | some file =>
      obtain ⟨older, rfl⟩ := getLast?_eq_some_iff.mp hlast
      have hle := h.top file hlast
      have hlt : ∀ f ∈ older, f.1 < file.1 := by
        intro f hf
        have hfiles : s.dir.files = recordFiles g older ++ [(file.1, fileBytes g file.2)] := by
          rw [h.kept.files, recordFiles_append]
          rfl
        exact Dir.lt_of_files hfiles (f.1, fileBytes g f.2) (List.mem_map_of_mem hf)
      by_cases heq : file.1 = base + 1
      · -- The newest file has the very name, so the lines go on there.
        obtain ⟨name, items⟩ := file
        cases heq
        have htarget := Target.of_last h.kept (Nat.le_refl (base + 1))
        refine ⟨older, items, ?_⟩
        rwa [htarget.held]
      · refine ⟨older ++ [file], [], Target.of_new h.kept ?_⟩
        intro f hf
        rcases mem_append.mp hf with hf | hf
        · have hlt := hlt f hf
          omega
        · rw [mem_singleton.mp hf]
          omega

section

variable (h : Target g s r base name size older items)
include h

private lemma Target.items_append (more : List Item) :
    recordItems (older ++ [(name, items ++ more)]) = recordItems r ++ more := by
  rw [recordItems_concat, ← append_assoc]
  rcases h.same with rfl | ⟨rfl, rfl⟩
  · rw [recordItems_concat]
  · rw [append_nil]

private lemma Target.newest : newestOf r.reverse = if items = [] then newestOf older.reverse
    else some (name, items) := by
  rcases h.same with rfl | ⟨rfl, rfl⟩
  · rw [newestOf_concat]
  · rw [if_pos rfl]

private lemma Target.count (hs : Stands g s r base) : items = [] ∨ fileSeq (name, items) = base := by
  by_cases hnil : items = []
  · exact .inl hnil
  · refine .inr (hs.count _ ?_)
    rw [h.newest, if_neg hnil]

private lemma Target.kept (hs : Stands g s r base) {files : List (Nat × Bytes)} {extra : List Item}
    (hok : ∀ item ∈ extra, item.Ok g) (hholds : Holds g (recordItems r ++ extra))
    (hfiles : files = recordFiles g older ++ [(name, fileBytes g (items ++ extra))]) :
    Kept g files (older ++ [(name, items ++ extra)]) := by
  refine ⟨?_, ?_, ?_⟩
  · rw [hfiles, recordFiles_append]
    rfl
  · rw [h.items_append]
    exact forall_mem_append.mpr ⟨hs.kept.ok, hok⟩
  · rwa [h.items_append]

private lemma Target.stands (hs : Stands g s r base)
    (hchain : Chained g start base more) (hholds : Holds g (recordItems r ++ more))
    (hdir : s'.dir.files = recordFiles g older ++ [(name, fileBytes g items ++ fileBytes g more)])
    (hcurrent : s'.current = none ∨ s'.current = some (name, size + (fileBytes g more).length)) :
    Stands g s' (older ++ [(name, items ++ more)]) (base + more.length) where
  kept := h.kept hs hchain.ok hholds (by rw [hdir, fileBytes_append])
  current := by
    intro name' size' hsome
    rcases hcurrent with hnone | hfile
    · simp [hnone] at hsome
    · rw [hfile] at hsome
      cases hsome
      exact ⟨items ++ more, getLast?_concat, by rw [fileBytes_append, length_append, h.size]⟩
  count := by
    intro file hfile
    rw [newestOf_concat] at hfile
    by_cases hnil : more = []
    · rw [hnil, append_nil, ← h.newest] at hfile
      rw [hs.count file hfile, hnil]
      rfl
    · rw [if_neg (by simp [hnil])] at hfile
      cases hfile
      exact fileSeq_chained (h.count hs) hchain hnil
  top := by
    intro file hfile
    rw [getLast?_concat] at hfile
    cases hfile
    have htop := h.top
    show name ≤ _
    omega

private lemma Target.rests (hs : Stands g s r base) {extra : List Item}
    (hok : ∀ item ∈ extra, item.Ok g) (hseqs : ∀ seq ∈ extra.filterMap Item.seq, base ≤ seq)
    (hholds : Holds g (recordItems r ++ extra)) {dir : Dir}
    (hdir : (FsStore.opened dir).dir.files = recordFiles g older ++ [(name, fileBytes g (items ++ extra))]) :
    Rests g dir (older ++ [(name, items ++ extra)]) where
  kept := h.kept hs hok hholds hdir
  top := by
    intro file last hfile hlast
    rw [getLast?_concat] at hlast
    cases hlast
    rw [newestOf_concat] at hfile
    by_cases hnil : items ++ extra = []
    · rw [if_pos hnil] at hfile
      have hnewest := h.newest
      rw [if_pos (append_eq_nil_iff.mp hnil).1] at hnewest
      rw [hs.count file (hnewest.trans hfile)]
      exact h.top
    · rw [if_neg hnil] at hfile
      cases hfile
      exact name_le_fileSeq (h.count hs) h.top hseqs hnil

end

private lemma FsStore.opened_mends {dir : Dir} {files : List (Nat × Bytes)} {bytes tail : Bytes}
    (hdir : dir.files = files ++ [(name, bytes ++ tail)]) (hne : tail ≠ []) (htail : newline ∉ tail) :
    (opened dir).dir.files = files ++ [(name, bytes ++ tail ++ [newline])] := by
  have hnewline : endsWithNewline (bytes ++ tail) = false := by
    unfold endsWithNewline
    rw [getLast?_append_of_ne_nil _ hne, decide_eq_false_iff_not]
    intro hlast
    exact htail (mem_of_getLast? hlast)
  have hsome : bytes ++ tail ≠ [] := by simp [hne]
  unfold opened
  rw [hdir, getLast?_concat]
  simp only
  rw [if_pos ⟨hsome, hnewline⟩]
  show putFile name _ dir.files = _
  rw [hdir, putFile_last (Dir.lt_of_files hdir)]

private lemma Chained.take_seqs (h : Chained g start base more) (k : Nat) :
    ∀ seq ∈ (more.take k).filterMap Item.seq, base ≤ seq := by
  intro seq hseq
  obtain ⟨item, hitem, hsome⟩ := mem_filterMap.mp hseq
  have hmem : seq ∈ more.filterMap Item.seq := mem_filterMap.mpr ⟨item, mem_of_mem_take hitem, hsome⟩
  rw [h.seqs] at hmem
  have hle := mem_range'_1.mp hmem
  omega

private lemma Target.crash (h : Target g s r base name size older items) (hs : Stands g s r base)
    (hchain : Chained g start base more) (hholds : Holds g (recordItems r ++ more)) (n : Nat) :
    ∃ r', Rests g (s.dir.put name (fileBytes g items ++ (fileBytes g more).take n)) r' := by
  obtain ⟨k, tail, htake, htail, -⟩ := take_unlines newline (more.map (Item.bytes g)) n
  rw [← map_take] at htake
  have hbytes : fileBytes g items ++ (fileBytes g more).take n = fileBytes g (items ++ more.take k) ++ tail := by
    rw [fileBytes_append, append_assoc]
    exact congrArg _ htake
  have hfirst : ∀ k, Holds g (recordItems r ++ more.take k) := by
    intro k
    refine Holds.init (more.drop k) ?_
    rwa [append_assoc, take_append_drop]
  have hok : ∀ item ∈ more.take k, item.Ok g := fun item hitem => hchain.ok item (mem_of_mem_take hitem)
  have hdir := h.put (fileBytes g (items ++ more.take k) ++ tail)
  rw [hbytes]
  by_cases hnil : tail = []
  · rw [hnil, append_nil] at hdir ⊢
    refine ⟨_, h.rests hs hok (hchain.take_seqs k) (hfirst k) ?_⟩
    rw [(h.kept hs hok (hfirst k) hdir).opened, hdir]
  · obtain ⟨line, hline, hpart⟩ := htail.resolve_left hnil
    rw [getElem?_map] at hline
    obtain ⟨whole, hwhole, rfl⟩ := map_eq_some_iff.mp hline
    obtain ⟨seq, timeMs, e, prev, rfl⟩ := hchain.mem whole (mem_of_getElem? hwhole)
    obtain ⟨item, hitem, hitemBytes, hkind⟩ := Item.exists_of_cut hnil hpart
    have hdir' := FsStore.opened_mends hdir hnil (hitemBytes ▸ hitem.newline_notMem)
    have hended : fileBytes g (items ++ more.take k) ++ tail ++ [newline] =
        fileBytes g (items ++ (more.take k ++ [item])) := by
      rw [← append_assoc items, fileBytes_append _ [item], ← hitemBytes, append_assoc]
      simp [fileBytes, unlines]
    rw [hended] at hdir'
    rcases hkind with rfl | htorn
    · -- The entry is whole, only its newline was missing.
      have hmore : more.take k ++ [.entry seq timeMs e prev] = more.take (k + 1) := by
        rw [take_add_one, hwhole]
        rfl
      rw [hmore] at hdir'
      exact ⟨_, h.rests hs (fun item hitem => hchain.ok item (mem_of_mem_take hitem)) (hchain.take_seqs (k + 1))
        (hfirst (k + 1)) hdir'⟩
    · refine ⟨_, h.rests hs (forall_mem_append.mpr ⟨hok, forall_mem_singleton.mpr hitem⟩) ?_ ?_ hdir'⟩
      · have hnone : item.seq = none := by
          rw [← not_isSome_iff_eq_none, Item.seq_isSome, htorn]
          exact Bool.false_ne_true
        have hpiece : [item].filterMap Item.seq = [] := by simp [hnone]
        rw [filterMap_append, hpiece, append_nil]
        exact hchain.take_seqs k
      · rw [← append_assoc]
        exact (hfirst k).torn (forall_mem_append.mpr ⟨hs.kept.ok, hok⟩) hitem htorn

/-- How an append leaves the record: with the entries, as it was, or cut off by a crash. -/
lemma Stands.append (hs : Stands g s r base) (hup : s.crashed = false) (hchain : Chained g start base more)
    (hholds : Holds g (recordItems r ++ more)) {answer : Except String Unit}
    (happend : s.append (base + 1) (more.map (Item.line g)) = (s', answer)) :
    (answer = .ok () ∧ s'.crashed = false ∧
      ∃ r', recordItems r' = recordItems r ++ more ∧ Stands g s' r' (base + more.length)) ∨
    (answer.isOk = false ∧ s'.crashed = false ∧ ∃ r', recordItems r' = recordItems r ∧ Stands g s' r' base) ∨
    (answer.isOk = false ∧ s'.crashed = true ∧ ∃ r', Rests g s'.dir r') := by
  cases htarget : s.current.getD (base + 1, ((s.dir.find (base + 1)).getD []).length) with
  | mk name size =>
    obtain ⟨older, items, h⟩ := hs.target htarget
    have hholds₀ : Holds g (recordItems r ++ []) := by
      rw [append_nil]
      exact hs.kept.holds
    -- The file is there, with the lines it had.
    have hsame : ∀ s' : FsStore, s'.dir.files = recordFiles g older ++ [(name, fileBytes g items)] →
        s'.current = none ∨ s'.current = some (name, size) →
        ∃ r', recordItems r' = recordItems r ∧ Stands g s' r' base := by
      intro s' hdir hcurrent
      refine ⟨older ++ [(name, items ++ [])], ?_, h.stands hs (show Chained g start base [] from trivial) hholds₀ ?_
        hcurrent⟩
      · rw [h.items_append, append_nil]
      · rw [hdir]
        exact congrArg (fun bytes => recordFiles g older ++ [(name, bytes)]) (append_nil _).symm
    unfold FsStore.append at happend
    rw [if_neg (by simp [hup])] at happend
    simp only [htarget, h.held, hchain.appendBytes] at happend
    cases hio : s.appends.headD .written with
    | written =>
      simp only [hio] at happend
      cases happend
      refine .inl ⟨rfl, hup, _, h.items_append more, h.stands hs hchain hholds (h.put _) (.inr rfl)⟩
    | unopened made =>
      simp only [hio] at happend
      refine .inr (.inl ?_)
      have hcreate : (s.dir.create name).files = recordFiles g older ++ [(name, fileBytes g items)] := by
        rw [Dir.create, h.held, h.put]
      split at happend
      · cases happend
        exact ⟨rfl, hup, hsame _ hcreate (.inr rfl)⟩
      · cases happend
        cases made with
        | true => exact ⟨rfl, hup, hsame _ hcreate (.inl rfl)⟩
        | false => exact ⟨rfl, hup, r, rfl, { hs with }⟩
    | failed =>
      simp only [hio, h.size, take_length] at happend
      cases happend
      exact .inr (.inl ⟨rfl, hup, hsame _ (h.put _) (.inr (by rw [h.size]))⟩)
    | crashed bytes =>
      refine .inr (.inr ?_)
      cases bytes with
      | none =>
        simp only [hio] at happend
        cases happend
        exact ⟨rfl, rfl, r, hs.rests⟩
      | some n =>
        simp only [hio] at happend
        cases happend
        exact ⟨rfl, rfl, h.crash hs hchain hholds n⟩

end Append

section Rotate

variable {g : Setting} {s s' : FsStore} {r : Record} {base : Nat}

private lemma Stands.drop (h : Stands g s r base) (n : Nat) (hdir : s'.dir.files = s.dir.files.drop n)
    (hcurrent : s'.current = none) : Stands g s' (r.drop n) base where
  kept := by
    have hitems : recordItems r = recordItems (r.take n) ++ recordItems (r.drop n) := by
      rw [← recordItems_append, take_append_drop]
    refine ⟨?_, ?_, ?_⟩
    · rw [hdir, h.kept.files, recordFiles, recordFiles, map_drop]
    · intro item hitem
      exact h.kept.ok item (hitems ▸ mem_append_right _ hitem)
    · exact Holds.suffix (hitems ▸ h.kept.holds)
  current := by
    intro name size hsome
    simp [hcurrent] at hsome
  count := by
    intro file hfile
    refine h.count file ?_
    rw [← take_append_drop n r, reverse_append, newestOf, find?_append]
    rw [newestOf] at hfile
    rw [hfile]
    rfl
  top := by
    intro file hfile
    refine h.top file ?_
    rw [← take_append_drop n r, getLast?_append, hfile]
    rfl

/-- A rotation deletes the oldest files, and tells no more than it deleted. -/
lemma Stands.rotate (h : Stands g s r base) (hup : s.crashed = false) {keep : Nat}
    {answer : Except String (List (String × String))} (hrotate : s.rotate keep = (s', answer)) :
    ∃ n ≤ s.dir.files.length + 1 - max keep 1, Stands g s' (r.drop n) base ∧
      ∀ deleted, answer = .ok deleted → deleted.length ≤ n := by
  have htold : ∀ n, (FsStore.told s.dir n).length ≤ n := by
    intro n
    rw [FsStore.told, length_map]
    exact length_take_le n _
  unfold FsStore.rotate at hrotate
  rw [if_neg (by simp [hup])] at hrotate
  cases hio : s.rotations.headD .rotated with
  | rotated =>
    simp only [hio] at hrotate
    cases hrotate
    refine ⟨_, le_rfl, h.drop _ (by rw [Nat.min_self]; rfl) rfl, ?_⟩
    rintro deleted ⟨⟩
    exact htold _
  | stopped n =>
    simp only [hio] at hrotate
    cases hrotate
    refine ⟨_, Nat.min_le_right n _, h.drop _ rfl rfl, ?_⟩
    rintro deleted ⟨⟩
    exact htold _
  | failed n | crashed n =>
    simp only [hio] at hrotate
    cases hrotate
    refine ⟨_, Nat.min_le_right n _, h.drop _ rfl rfl, ?_⟩
    rintro deleted ⟨⟩

end Rotate

end OpampFleet.Server.Audit
