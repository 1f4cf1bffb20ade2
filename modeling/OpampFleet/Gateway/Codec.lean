import OpampFleet.Gateway.Store
import OpampFleet.Lib.Utf8

/-!
# The store's lines read back

Every change whose line fits is read back from its line, and a store of lines, cut off anywhere after its first, is
read back as the changes whose lines are whole.
-/

namespace OpampFleet.Gateway

open Lib Opamp List Option Core

private lemma hexValue_upperHexDigit : ∀ n < 16, hexValue (upperHexDigit n) = some n := by decide

private lemma upperHexDigit_ne_plus : ∀ n < 16, upperHexDigit n ≠ '+' := by decide

private lemma fromStrRadix_upperHexDigit (b : UInt8) :
    fromStrRadix (upperHexDigit (b.toNat / 16)) (upperHexDigit (b.toNat % 16)) = some b := by
  have hlt : b.toNat < 256 := b.toNat_lt
  have hhigh : b.toNat / 16 < 16 := by omega
  have hlow : b.toNat % 16 < 16 := by omega
  unfold fromStrRadix
  rw [if_neg (upperHexDigit_ne_plus _ hhigh), hexValue_upperHexDigit _ hhigh, hexValue_upperHexDigit _ hlow]
  have hsum : 16 * (b.toNat / 16) + b.toNat % 16 = b.toNat := by omega
  simp only [bind_some, map_some, hsum, UInt8.ofNat_toNat]

private lemma toNat_charOfNat {n : Nat} (h : n < 128) : (Char.ofNat n).toNat = n := by
  have hvalid : n.isValidChar := .inl (by omega)
  unfold Char.ofNat
  rw [dif_pos hvalid]
  rfl

private lemma graphic_bounds {b : UInt8} (h : isGraphic b = true) : 33 ≤ b.toNat ∧ b.toNat ≤ 126 := by
  simpa [isGraphic, UInt8.le_iff_toNat_le] using h

lemma charOfNat_ne_percent {b : UInt8} (h : (isGraphic b && b != 37) = true) : Char.ofNat b.toNat ≠ '%' := by
  simp only [Bool.and_eq_true, bne_iff_ne] at h
  have hbounds := graphic_bounds h.1
  have hn : (Char.ofNat b.toNat).toNat = b.toNat := toNat_charOfNat (by omega)
  intro heq
  rw [heq] at hn
  exact h.2 (UInt8.toNat_inj.mp hn.symm)

private lemma decodeBytes_encodeByte (b : UInt8) (rest : List Char) :
    decodeBytes (encodeByte b ++ rest) = (decodeBytes rest).map (b :: ·) := by
  unfold encodeByte
  split
  next h =>
    have hc := charOfNat_ne_percent h
    simp only [Bool.and_eq_true] at h
    have hbounds := graphic_bounds h.1
    have hn : (Char.ofNat b.toNat).toNat = b.toNat := toNat_charOfNat (by omega)
    rw [cons_append, nil_append, decodeBytes]
    · simp [hn, hbounds, hc]
    · exact fun _ _ _ he => absurd he hc
  next h =>
    simp only [cons_append, nil_append, decodeBytes, fromStrRadix_upperHexDigit, bind_some]
    rw [if_neg h]

private lemma decode_encode (host : String) : decode (encode host) = some host := by
  have hbytes : ∀ bytes : Bytes, decodeBytes (bytes.flatMap encodeByte) = some bytes := by
    intro bytes
    induction bytes with
    | nil => rfl
    | cons b bytes ih => rw [flatMap_cons, decodeBytes_encodeByte, ih, map_some]
  rw [decode, encode, hbytes, bind_some, fromUtf8_utf8]

def isLineChar (c : Char) : Bool := 33 ≤ c.toNat && c.toNat ≤ 126

def isPlain (c : Char) : Bool := isLineChar c && c != '%'

private lemma isPlain_of_ne {c : Char} (h : isLineChar c = true) (hne : c ≠ '%') : isPlain c = true := by
  rw [isPlain, h, bne_iff_ne.mpr hne]
  rfl

private lemma hexDigit_plain : ∀ n < 16, isPlain (hexDigit n) = true ∧ hexDigit n ≠ '-' := by decide

private lemma upperHexDigit_lineChar : ∀ n < 16, isLineChar (upperHexDigit n) = true := by decide

private lemma hexText_chars (bytes : Bytes) : ∀ c ∈ (hexText bytes).toList, isPlain c = true ∧ c ≠ '-' := by
  intro c hc
  obtain ⟨n, hn, rfl⟩ := mem_hexText hc
  exact hexDigit_plain n hn

private lemma filter_uidText (uid : InstanceUid) :
    (uidText uid).filter (· ≠ '-') = (hexText uid.bytes).toList := by
  unfold uidText
  generalize hhex : (hexText uid.bytes).toList = hex
  have hall : ∀ part : List Char, part ⊆ hex → part.filter (· ≠ '-') = part := by
    intro part hpart
    refine filter_eq_self.mpr fun c hc => ?_
    have := (hexText_chars uid.bytes c (hhex ▸ hpart hc)).2
    simpa using this
  have hsplit : hex = hex.take 8 ++ ((hex.drop 8).take 4 ++ ((hex.drop 12).take 4 ++ ((hex.drop 16).take 4 ++
      hex.drop 20))) := by
    conv_lhs => rw [← take_append_drop 8 hex, ← take_append_drop 4 (hex.drop 8), drop_drop,
      ← take_append_drop 4 (hex.drop 12), drop_drop, ← take_append_drop 4 (hex.drop 16), drop_drop]
  have htake : ∀ n k, (hex.drop n).take k ⊆ hex := fun n k _ hc => drop_subset n hex (take_subset k _ hc)
  simp only [filter_append, filter_cons, ne_eq, not_true_eq_false, decide_false, Bool.false_eq_true, if_false]
  rw [hall _ (take_subset 8 hex), hall _ (htake 8 4), hall _ (htake 12 4), hall _ (htake 16 4),
    hall _ (drop_subset 20 hex)]
  simp only [append_assoc]
  exact hsplit.symm

private lemma parseUid_uidText (uid : InstanceUid) : parseUid (uidText uid) = some uid := by
  unfold parseUid
  rw [filter_uidText, hexBytes_hexText, bind_some, InstanceUid.fromWire_bytes, filter_some,
    if_pos (decide_eq_true rfl)]

private lemma isDigit_ne {c : Char} (h : c.isDigit = true) : c ≠ '-' ∧ c ≠ '+' ∧ isPlain c = true := by
  have hbounds : 48 ≤ c.toNat ∧ c.toNat ≤ 57 := by
    simp only [Char.isDigit, Bool.and_eq_true, decide_eq_true_eq, ge_iff_le, UInt32.le_iff_toNat_le] at h
    exact h
  refine ⟨?_, ?_, ?_⟩
  · rintro rfl
    revert h
    decide
  · rintro rfl
    revert h
    decide
  · refine isPlain_of_ne ?_ ?_
    · simp only [isLineChar, Bool.and_eq_true, decide_eq_true_eq]
      omega
    · rintro rfl
      revert h
      decide

private lemma toDigits_chars (n : Nat) : ∀ c ∈ Nat.toDigits 10 n, c.isDigit = true := fun _ hc =>
  Nat.isDigit_of_mem_toDigits (by omega) (by omega) hc

private lemma parseDigits_toDigits (n : Nat) : parseDigits (Nat.toDigits 10 n) = some n := by
  have hne : (Nat.toDigits 10 n).isEmpty = false := by
    rw [isEmpty_eq_false_iff]
    exact Nat.toDigits_ne_nil
  have hall := List.all_eq_true.mpr (toDigits_chars n)
  simp [parseDigits, hne, hall, Nat.ofDigitChars_ten_toDigits]

private lemma parseI64_digits {digits : List Char} (h : ∀ c ∈ digits, c.isDigit = true) :
    parseI64 digits = ((parseDigits digits).filter (· < 2 ^ 63)).map fun n : Nat => (n : Int) := by
  cases digits with
  | nil => rfl
  | cons c digits =>
    obtain ⟨hminus, hplus, -⟩ := isDigit_ne (h c mem_cons_self)
    rw [parseI64]
    · exact fun _ he => hminus (List.cons.inj he).1
    · exact fun _ he => hplus (List.cons.inj he).1

private lemma parseI64_intText {n : Int} (h : -2 ^ 63 ≤ n ∧ n < 2 ^ 63) : parseI64 (intText n) = some n := by
  unfold intText
  split
  · have hle : n.natAbs ≤ 2 ^ 63 := by omega
    rw [parseI64, parseDigits_toDigits, filter_some, if_pos (by simpa using hle), map_some]
    congr 1
    omega
  · have hlt : n.natAbs < 2 ^ 63 := by omega
    rw [parseI64_digits (toDigits_chars _), parseDigits_toDigits, filter_some, if_pos (by simpa using hlt),
      map_some]
    congr 1
    omega

private lemma isHex_chars {field : List Char} {exactly : Option Nat} (h : isHex field exactly = true) :
    ∀ c ∈ field, isPlain c = true := by
  intro c hc
  simp only [isHex, Bool.and_eq_true, List.all_eq_true, Bool.or_eq_true, decide_eq_true_eq] at h
  rcases h.2 c hc with hd | ⟨ha, hf⟩
  · exact (isDigit_ne hd).2.2
  rw [Char.le_def, UInt32.le_iff_toNat_le] at ha hf
  have hlow : 97 ≤ c.toNat := ha
  have hhigh : c.toNat ≤ 102 := hf
  refine isPlain_of_ne ?_ ?_
  · simp only [isLineChar, Bool.and_eq_true, decide_eq_true_eq]
    omega
  · rintro rfl
    revert hlow
    decide

private lemma encode_chars (host : String) : ∀ c ∈ encode host, isLineChar c = true := by
  intro c hc
  obtain ⟨b, -, hb⟩ := mem_flatMap.mp hc
  have hlt : b.toNat < 256 := b.toNat_lt
  unfold encodeByte at hb
  split at hb
  next hgraphic =>
    simp only [Bool.and_eq_true] at hgraphic
    have hbounds := graphic_bounds hgraphic.1
    rw [mem_singleton.mp hb, isLineChar, toNat_charOfNat (by omega)]
    simpa using hbounds
  · simp only [mem_cons, not_mem_nil, or_false] at hb
    rcases hb with rfl | rfl | rfl
    · rfl
    · exact upperHexDigit_lineChar _ (by omega)
    · exact upperHexDigit_lineChar _ (by omega)

private lemma uidText_chars (uid : InstanceUid) : ∀ c ∈ uidText uid, isPlain c = true := by
  intro c hc
  by_cases hdash : c = '-'
  · rw [hdash]
    rfl
  · have hmem : c ∈ (uidText uid).filter (· ≠ '-') := mem_filter.mpr ⟨hc, by simpa using hdash⟩
    rw [filter_uidText] at hmem
    exact (hexText_chars uid.bytes c hmem).1

private lemma intText_chars (n : Int) : ∀ c ∈ intText n, isPlain c = true := by
  intro c hc
  unfold intText at hc
  split at hc
  · rcases mem_cons.mp hc with rfl | hc
    · rfl
    · exact (isDigit_ne (toDigits_chars _ c hc)).2.2
  · exact (isDigit_ne (toDigits_chars _ c hc)).2.2

/-- A field of a line is an encoded host name, or begins no escape. -/
lemma field_plain {change : Change} {field : List Char} (h : field ∈ fieldsOf change) :
    (∀ c ∈ field, isPlain c = true) ∨ ∃ host, field = encode host := by
  cases change with
  | bound uid host =>
    simp only [fieldsOf, mem_cons, not_mem_nil, or_false] at h
    rcases h with rfl | rfl | rfl
    · exact .inl (all_eq_true.mp (by decide))
    · exact .inl (uidText_chars uid)
    · exact .inr ⟨host, rfl⟩
  | unbound uid | reported uid =>
    simp only [fieldsOf, mem_cons, not_mem_nil, or_false] at h
    rcases h with rfl | rfl
    · exact .inl (all_eq_true.mp (by decide))
    · exact .inl (uidText_chars uid)
  | ends host fin =>
    simp only [fieldsOf, mem_cons, not_mem_nil, or_false] at h
    rcases h with rfl | rfl | rfl | rfl | rfl
    · exact .inl (all_eq_true.mp (by decide))
    · exact .inr ⟨host, rfl⟩
    · exact .inl (intText_chars fin.notAfter)
    · exact .inl (isHex_chars fin.issuer_hex)
    · exact .inl (isHex_chars (Bool.and_eq_true_iff.mp fin.serial_hex).1)

private lemma fields_chars (change : Change) : ∀ field ∈ fieldsOf change, ∀ c ∈ field, isLineChar c = true := by
  intro field hfield c hc
  rcases field_plain hfield with hplain | ⟨host, rfl⟩
  · exact (Bool.and_eq_true_iff.mp (hplain c hc)).1
  · exact encode_chars host c hc

private lemma splitOn_fields (change : Change) :
    ([' '].intercalate (fieldsOf change)).splitOn ' ' = fieldsOf change := by
  refine splitOn_intercalate ' ' (fun field hfield hmem => ?_) (by cases change <;> simp [fieldsOf])
  have := fields_chars change field hfield ' ' hmem
  revert this
  decide

private lemma parseEnds_fields (host : String) (fin : End) :
    parseEnds (encode host) (intText fin.notAfter) fin.issuer.toList fin.serial.toList = some (.ends host fin) := by
  have hissuer : isHex (String.ofList fin.issuer.toList).toList (some 64) = true := by
    rw [String.ofList_toList]
    exact fin.issuer_hex
  have hserial : isSerial (String.ofList fin.serial.toList).toList = true := by
    rw [String.ofList_toList]
    exact fin.serial_hex
  unfold parseEnds
  rw [parseI64_intText fin.range]
  simp only
  rw [dif_pos ⟨fin.range, trivial, hissuer, hserial⟩, decode_encode, map_some]
  cases fin
  simp

/-- A line is the fields of its change, a blank apart, in at most `maxLine` bytes. -/
lemma line_eq_some {change : Change} {text : String} (h : line change = some text) :
    text.toList = [' '].intercalate (fieldsOf change) ∧ (utf8 text).length ≤ maxLine := by
  obtain ⟨hlen, h⟩ := ite_none_right_eq_some.mp h
  cases h
  exact ⟨String.toList_ofList, hlen⟩

/-- A written line reads back. -/
lemma parse_line {change : Change} {text : String} (h : line change = some text) : parse text = some change := by
  unfold parse
  rw [(line_eq_some h).1, splitOn_fields]
  cases change with
  | bound uid host => simp [fieldsOf, parseUid_uidText, decode_encode]
  | unbound uid | reported uid => simp [fieldsOf, parseUid_uidText]
  | ends host fin => exact parseEnds_fields host fin

private lemma line_bytes {change : Change} {text : String} (h : line change = some text) :
    (utf8 text).length ≤ maxLine ∧ 10 ∉ utf8 text := by
  obtain ⟨htext, hlen⟩ := line_eq_some h
  refine ⟨hlen, fun hmem => ?_⟩
  have hchars : ∀ c ∈ text.toList, 32 ≤ c.toNat := by
    intro c hc
    rw [htext] at hc
    rcases mem_intercalate hc with rfl | ⟨field, hfield, hmem⟩
    · decide
    · have hchar := fields_chars change field hfield c hmem
      simp only [isLineChar, Bool.and_eq_true, decide_eq_true_eq] at hchar
      omega
  exact absurd (Utf8.le_of_mem_encode (by omega) hchars 10 hmem) (by decide)

lemma lines_nil : lines [] = some [] := rfl

private lemma lines_cons (change : Change) (changes : List Change) : lines (change :: changes) =
      (line change).bind fun text => (lines changes).map fun bytes => utf8 text ++ 10 :: bytes := by
  unfold lines
  rw [mapM_cons]
  cases line change with
  | none => rfl
  | some text =>
    cases changes.mapM line with
    | none => rfl
    | some texts => simp [unlines_cons]

private lemma lines_append (changes changes' : List Change) :
    lines (changes ++ changes') = (lines changes).bind fun bytes => (lines changes').map (bytes ++ ·) := by
  induction changes with
  | nil => simp [lines_nil]
  | cons change changes ih =>
    rw [cons_append, lines_cons, lines_cons, ih]
    cases line change with
    | none => rfl
    | some text =>
      cases lines changes with
      | none => rfl
      | some bytes =>
        cases lines changes' with
        | none => rfl
        | some bytes' => simp

variable {changes : List Change} {bytes : Bytes}

private lemma exists_texts (h : lines changes = some bytes) :
    ∃ texts : List Bytes, bytes = unlines 10 texts ∧ (∀ text ∈ texts, text.length ≤ maxLine ∧ 10 ∉ text) ∧
      List.Forall₂ (fun change text => ∃ line', line change = some line' ∧ text = utf8 line') changes texts := by
  induction changes generalizing bytes with
  | nil =>
    cases h
    exact ⟨[], rfl, by simp, .nil⟩
  | cons change changes ih =>
    rw [lines_cons] at h
    obtain ⟨text, htext, h⟩ := bind_eq_some_iff.mp h
    obtain ⟨rest, hrest, rfl⟩ := map_eq_some_iff.mp h
    obtain ⟨texts, rfl, hshort, hall⟩ := ih hrest
    refine ⟨utf8 text :: texts, (unlines_cons _ _).symm, fun other hother => ?_, .cons ⟨text, htext, rfl⟩ hall⟩
    rcases mem_cons.mp hother with rfl | hother
    · exact line_bytes htext
    · exact hshort other hother

private lemma loadChanges_texts {texts : List Bytes}
    (h : List.Forall₂ (fun change text => ∃ line', line change = some line' ∧ text = utf8 line') changes texts)
    {tail : Bytes} (htail : tail.length ≤ maxLine) (number : Nat) :
    loadChanges number (texts ++ [tail]) = .ok changes := by
  induction h generalizing number with
  | nil =>
    rw [nil_append, loadChanges, if_neg (by omega)]
  | @cons change text changes texts hline _ ih =>
    obtain ⟨line', hline', rfl⟩ := hline
    have hlen := (line_bytes hline').1
    have hne : texts ++ [tail] ≠ [] := by simp
    obtain ⟨next, rest, hrest⟩ := exists_cons_of_ne_nil hne
    have hload := ih (number + 1)
    rw [hrest] at hload
    rw [cons_append, hrest, loadChanges, if_neg (by omega), fromUtf8_utf8, bind_some, parse_line hline',
      hload]
    · rfl
    · exact fun he => by cases he

structure Stored (file : Option Bytes) (changes : List Change) (tail : Bytes) : Prop where
  exists_eq : ∃ bytes, lines changes = some bytes ∧ file = some (utf8 header ++ 10 :: bytes ++ tail)
  tail_length : tail.length ≤ maxLine
  tail_free : 10 ∉ tail
  size : (file.getD []).length ≤ maxBytes

private lemma header_length : (utf8 header).length ≤ maxLine ∧ 10 ∉ utf8 header := by decide

private lemma checkHeader_header : checkHeader (some header) = .ok () := by decide

/-- The piece of a line that a crash left is not loaded. -/
lemma Stored.load {file : Option Bytes} {tail : Bytes} (h : Stored file changes tail) :
    load file = .ok changes := by
  obtain ⟨bytes, hlines, rfl⟩ := h.exists_eq
  obtain ⟨texts, rfl, hshort, hall⟩ := exists_texts hlines
  have hsplit : (utf8 header ++ 10 :: unlines 10 texts ++ tail).splitOn 10 =
      utf8 header :: (texts ++ [tail]) := by
    rw [← unlines_cons, splitOn_unlines _ h.tail_free]
    · rfl
    · intro text htext
      rcases mem_cons.mp htext with rfl | htext
      · exact header_length.2
      · exact (hshort text htext).2
  have hne : texts ++ [tail] ≠ [] := by simp
  obtain ⟨next, rest, hrest⟩ := exists_cons_of_ne_nil hne
  have hload := loadChanges_texts hall h.tail_length 2
  rw [hrest] at hload
  have hsize := h.size
  rw [getD_some] at hsize
  have hlen := header_length.1
  unfold Gateway.load
  simp only
  rw [if_neg (by omega), hsplit, hrest, loadLines, if_neg (by omega), fromUtf8_utf8, checkHeader_header]
  · exact hload
  · exact fun he => by cases he

private lemma take_lines (h : lines changes = some bytes) (n : Nat) :
    ∃ k whole tail, (lines (changes.take k) = some whole ∧ bytes.take n = whole ++ tail ∧ tail.length ≤ maxLine ∧
      10 ∉ tail) ∧
      ∀ j ≤ changes.length, ∀ part, lines (changes.take j) = some part → (j ≤ k ↔ part.length ≤ n) := by
  obtain ⟨texts, rfl, hshort, hall⟩ := exists_texts h
  obtain ⟨k, tail, htake, htail, hexact⟩ := take_unlines 10 texts n
  have hwhole : ∀ k, lines (changes.take k) = some (unlines 10 (texts.take k)) := by
    clear h htake htail hshort hexact
    intro k
    induction hall generalizing k with
    | nil => simp [lines_nil]
    | @cons change text changes texts hline _ ih =>
      cases k with
      | zero => rfl
      | succ k =>
        obtain ⟨line', hline', rfl⟩ := hline
        rw [take_succ_cons, take_succ_cons, lines_cons, hline', bind_some, ih, unlines_cons]
        rfl
  refine ⟨k, _, tail, ⟨hwhole k, htake, ?_⟩, fun j hj part hpart => ?_⟩
  · rcases htail with rfl | ⟨text, htext, hpre⟩
    · simp
    · exact ⟨hpre.length_le.trans (hshort text (mem_of_getElem? htext)).1, fun hmem =>
        (hshort text (mem_of_getElem? htext)).2 (hpre.mem hmem)⟩
  · rw [hwhole] at hpart
    cases hpart
    exact hexact j (hall.length_eq ▸ hj)

/-- A store cut off anywhere past its first line is read as the changes whose lines, newline and all, are in what is
left. -/
theorem load_cut_off {bytes : Bytes} (h : lines changes = some bytes) (n : Nat) (hpast : (utf8 header).length < n)
    (hsize : ((utf8 header ++ 10 :: bytes).take n).length ≤ maxBytes) :
    ∃ k, load (some ((utf8 header ++ 10 :: bytes).take n)) = .ok (changes.take k) ∧
      ∀ j ≤ changes.length, ∀ part, lines (changes.take j) = some part →
        (j ≤ k ↔ (utf8 header ++ 10 :: part).length ≤ n) := by
  obtain ⟨m, rfl⟩ : ∃ m, n = (utf8 header).length + (m + 1) := ⟨n - (utf8 header).length - 1, by omega⟩
  obtain ⟨k, whole, tail, ⟨hwhole, htake, htail, hfree⟩, hexact⟩ := take_lines h m
  rw [take_length_add_append, take_succ_cons, htake, ← cons_append, ← append_assoc] at hsize ⊢
  refine ⟨k, Stored.load ⟨⟨whole, hwhole, rfl⟩, htail, hfree, hsize⟩, fun j hj part hpart => ?_⟩
  rw [hexact j hj part hpart, length_append, length_cons]
  omega

/-- Two removals, cut off after 80 bytes. -/
theorem load_cut_off_second : ∃ bytes, lines [.unbound (.ofByte 1), .unbound (.ofByte 2)] = some bytes ∧
    ∃ k, load (some ((utf8 header ++ 10 :: bytes).take 80)) =
      .ok (List.take k [.unbound (.ofByte 1), .unbound (.ofByte 2)]) :=
  ⟨_, rfl, (load_cut_off rfl 80 (by decide +kernel) (by decide +kernel)).imp fun _ => And.left⟩

section Journal

variable {file : Option Bytes} {changes changes' : List Change} {journal : Journal}

structure Appendable (journal : Journal) (file : Option Bytes) (changes : List Change) : Prop where
  stored : Stored file changes []
  len : journal.len = (file.getD []).length

def Keeps (journal : Journal) (file : Option Bytes) (changes : List Change) : Prop :=
  if journal.damaged then load file = .ok changes else Appendable journal file changes

lemma Keeps.load (h : Keeps journal file changes) : load file = .ok changes := by
  unfold Keeps at h
  split at h
  · exact h
  · exact h.stored.load

private lemma Appendable.exists_eq (h : Appendable journal file changes) : ∃ stored, lines changes = some stored ∧
    file = some (utf8 header ++ 10 :: stored) ∧ journal.len = (utf8 header ++ 10 :: stored).length ∧
    ∀ bytes, Journal.writeAt file journal.len bytes = some (utf8 header ++ 10 :: (stored ++ bytes)) := by
  obtain ⟨stored, hlines, hfile⟩ := h.stored.exists_eq
  rw [append_nil] at hfile
  have hlen := h.len
  rw [hfile, getD_some] at hlen
  refine ⟨stored, hlines, hfile, hlen, fun bytes => ?_⟩
  rw [hfile, Journal.writeAt, map_some, hlen, take_length]
  simp

private lemma keeps_of_damaged (h : load file = .ok changes) (hd : journal.damaged = true) :
    Keeps journal file changes := by
  unfold Keeps
  rwa [if_pos hd]

/-- What an append leaves of a store. One that is refused may leave some of its lines, and then the journal is damaged.
-/
inductive Appends (journal : Journal) (file : Option Bytes) (changes' : List Change) :
    Option Bytes × Journal × Bool → Prop
  | written {file' : Option Bytes} {journal' : Journal} (sound : journal.damaged = false)
      (keeps : ∀ {changes}, Keeps journal file changes → Keeps journal' file' (changes ++ changes')) :
      Appends journal file changes' (file', journal', true)
  | refused {file' : Option Bytes} {journal' : Journal} (k : Nat)
      (sound : journal'.damaged = false → journal.damaged = false ∧ k = 0)
      (keeps : ∀ {changes}, Keeps journal file changes → Keeps journal' file' (changes ++ changes'.take k)) :
      Appends journal file changes' (file', journal', false)

/-- Every answer of the disk is an outcome of an append. -/
lemma appends_append (journal : Journal) (io : AppendIo) (file : Option Bytes) (changes' : List Change) :
    Appends journal file changes' (journal.append io file changes') := by
  have hrefused : Appends journal file changes' (file, journal, false) :=
    .refused 0 (fun hd => ⟨hd, rfl⟩) fun h => by rwa [take_zero, append_nil]
  unfold Journal.append
  split
  · exact hrefused
  rename_i hsound
  simp only [Bool.or_eq_true, not_or, Bool.not_eq_true] at hsound
  split
  · exact hrefused
  rename_i bytes hbytes
  split
  · exact hrefused
  rename_i hsize
  have happend : ∀ {changes}, Keeps journal file changes → Appendable journal file changes := by
    intro changes h
    unfold Keeps at h
    rwa [hsound.1, if_neg (by simp)] at h
  cases io with
  | synced =>
    refine .written hsound.1 fun h => ?_
    obtain ⟨stored, hlines, -, hlen, hwrite⟩ := (happend h).exists_eq
    have hcat : (utf8 header ++ 10 :: (stored ++ bytes)).length = journal.len + bytes.length := by
      rw [hlen, ← length_append, append_assoc, cons_append]
    unfold Keeps
    rw [if_neg (by simp [hsound.1]), hwrite]
    refine ⟨⟨⟨stored ++ bytes, ?_, by rw [append_nil]⟩, by simp, by simp, ?_⟩, hcat.symm⟩
    · rw [lines_append, hlines, hbytes]
      rfl
    · rw [getD_some]
      omega
  | cutBack =>
    refine .refused 0 (fun hd => ⟨hd, rfl⟩) fun h => ?_
    obtain ⟨stored, -, hfile, -, hwrite⟩ := (happend h).exists_eq
    rwa [hwrite, append_nil, ← hfile, take_zero, append_nil]
  | torn n =>
    obtain ⟨k, whole, tail, ⟨hwhole, htake, htail, hfree⟩, -⟩ := take_lines hbytes n
    refine .refused k (by simp) fun {changes} h => ?_
    obtain ⟨stored, hlines, -, hlen, hwrite⟩ := (happend h).exists_eq
    have hstored : Stored (Journal.writeAt file journal.len (bytes.take n)) (changes ++ changes'.take k) tail := by
      refine ⟨⟨stored ++ whole, ?_, by simp [hwrite, htake]⟩, htail, hfree, ?_⟩
      · rw [lines_append, hlines, hwhole]
        rfl
      · rw [hwrite, getD_some, ← cons_append, ← append_assoc, length_append, ← hlen]
        have := length_take_le' n bytes
        omega
    exact keeps_of_damaged hstored.load rfl

def fits (changes : List Change) : Bool :=
  (lines changes).any fun bytes => (utf8 header ++ 10 :: bytes).length ≤ maxBytes

def renames (io : RewriteIo) (changes : List Change) : Bool :=
  fits changes && match io with
    | .notRenamed _ => false
    | _ => true

def damages (journal : Journal) (io : RewriteIo) (changes : List Change) : Bool :=
  journal.damaged || fits changes && match io with
    | .notRenamed reopened => !reopened
    | .notSynced => true
    | .replaced => false

inductive Rewrites (journal : Journal) (file : Option Bytes) (io : RewriteIo) (changes' : List Change) :
    Option Bytes × Journal × Bool → Prop
  | written {file' : Option Bytes} {journal' : Journal} (keeps : Keeps journal' file' changes') :
      Rewrites journal file io changes' (file', journal', true)
  | kept {journal' : Journal} (keeps : ∀ {changes}, Keeps journal file changes → Keeps journal' file changes)
      (old : renames io changes' = false) (damaged : journal'.damaged = damages journal io changes') :
      Rewrites journal file io changes' (file, journal', false)
  | unsynced {file' : Option Bytes} {journal' : Journal} (keeps : Keeps journal' file' changes')
      (new : renames io changes' = true) (sync : io = .notSynced) (damaged : journal'.damaged = true) :
      Rewrites journal file io changes' (file', journal', false)

private lemma stored_whole (hbytes : lines changes' = some bytes)
    (hsize : (utf8 header ++ 10 :: bytes).length ≤ maxBytes) :
    Stored (some (utf8 header ++ 10 :: bytes)) changes' [] :=
  ⟨⟨bytes, hbytes, by rw [append_nil]⟩, by simp, by simp, hsize⟩

/-- Every answer of the disk is an outcome of a rewrite. -/
lemma rewrites_compact (journal : Journal) (io : RewriteIo) (file : Option Bytes) (changes' : List Change) :
    Rewrites journal file io changes' (journal.compact io file changes') := by
  -- what cannot be written at all leaves the journal as it is
  have hunfit : fits changes' = false → Rewrites journal file io changes' (file, journal, false) :=
    fun hfits => .kept id (by simp [renames, hfits]) (by simp [damages, hfits])
  unfold Journal.compact
  split
  next hnone =>
    exact hunfit (by simp [fits, hnone])
  rename_i bytes hbytes
  simp only
  split
  next hsize =>
    exact hunfit (by simp only [fits, hbytes, any_some, decide_eq_false_iff_not]; omega)
  rename_i hsize
  have hstored := stored_whole hbytes (by omega)
  have hfits : fits changes' = true := by
    simp only [fits, hbytes, any_some, decide_eq_true_eq]
    omega
  cases io with
  | replaced =>
    refine .written ?_
    unfold Keeps
    rw [if_neg (by simp)]
    exact ⟨hstored, rfl⟩
  | notRenamed reopened =>
    refine .kept (fun h => ?_) (by simp [renames]) (by simp [damages, hfits])
    by_cases hd : (journal.damaged || !reopened) = true
    · exact keeps_of_damaged h.load hd
    simp only [Bool.or_eq_true, not_or, Bool.not_eq_true, Bool.not_eq_false'] at hd
    unfold Keeps at h ⊢
    rw [hd.1, if_neg (by simp)] at h
    rw [if_neg (by simp [hd])]
    exact ⟨h.stored, h.len⟩
  | notSynced => exact .unsynced (keeps_of_damaged hstored.load rfl) (by simp [renames, hfits]) rfl rfl

end Journal

end OpampFleet.Gateway
