import OpampFleet.Gateway.Codec

/-!
# The lines that are read

What `line` writes is read back as the change it was written for. The other way, a line that is read is the one that
its change is written as exactly where its escapes are written in the digits `encode` writes and it is no longer than a
line may be. Neither is asked by `parse`: an escape is read in lowercase digits too, and with a plus sign.
-/

namespace OpampFleet.Gateway

open Lib Opamp List Option
open Core (hexValue)

def upperHexDigits : List Char := "0123456789ABCDEF".toList

def upperEscape : List Char → Bool
  | '%' :: high :: low :: _ => high ∈ upperHexDigits && low ∈ upperHexDigits
  | _ => true

def UpperEscapes (text : List Char) : Prop := ∀ t ∈ text.tails, upperEscape t = true

instance (text : List Char) : Decidable (UpperEscapes text) := inferInstanceAs (Decidable (∀ t ∈ _, _))

variable {field : List Char}

private lemma UpperEscapes.of_part {text : List Char} (h : UpperEscapes text) (hpart : field <:+: text) :
    UpperEscapes field := by
  intro t ht
  obtain ⟨before, after, rfl⟩ := hpart
  obtain ⟨skipped, rfl⟩ := (mem_tails _ _).mp ht
  have hlonger := h (t ++ after) ((mem_tails _ _).mpr ⟨before ++ skipped, by simp⟩)
  unfold upperEscape at hlonger ⊢
  split
  · simpa using hlonger
  · rfl

private lemma upperHexDigit_of_mem {c : Char} (h : c ∈ upperHexDigits) :
    c ≠ '+' ∧ ∃ n, hexValue c = some n ∧ n < 16 ∧ upperHexDigit n = c := by
  have hall : upperHexDigits.all fun c => c ≠ '+' && (hexValue c).any fun n =>
    n < 16 && upperHexDigit n = c := by decide
  simpa [Option.any_eq_true] using List.all_eq_true.mp hall c h

private lemma encodeByte_of_escape {high low : Char} {b : UInt8} (hhigh : high ∈ upperHexDigits)
    (hlow : low ∈ upperHexDigits) (hb : fromStrRadix high low = some b) (hnot : (isGraphic b && b != 37) = false) :
    encodeByte b = ['%', high, low] := by
  obtain ⟨hplus, n, hvalue, hn, hdigit⟩ := upperHexDigit_of_mem hhigh
  obtain ⟨-, m, hvalue', hm, hdigit'⟩ := upperHexDigit_of_mem hlow
  rw [fromStrRadix, if_neg hplus, hvalue, hvalue'] at hb
  have hbyte : b.toNat = 16 * n + m := by
    rw [← Option.some.inj hb, UInt8.toNat_ofNat']
    omega
  have hdiv : b.toNat / 16 = n := by omega
  have hmod : b.toNat % 16 = m := by omega
  rw [encodeByte, hnot, hdiv, hmod, hdigit, hdigit']
  rfl

private lemma encodeByte_of_graphic {c : Char} (h : (33 ≤ c.toNat && c.toNat ≤ 126 && c != '%') = true) :
    encodeByte (UInt8.ofNat c.toNat) = [c] := by
  simp only [Bool.and_eq_true, decide_eq_true_eq, bne_iff_ne] at h
  have hbyte : (UInt8.ofNat c.toNat).toNat = c.toNat := by
    rw [UInt8.toNat_ofNat']
    omega
  have hgraphic : (isGraphic (UInt8.ofNat c.toNat) && UInt8.ofNat c.toNat != 37) = true := by
    have hne : UInt8.ofNat c.toNat ≠ 37 := by
      intro heq
      have hcode : c.toNat = 37 := by rw [← hbyte, heq]; rfl
      exact h.2 (Char.toNat_inj.mp hcode)
    simp only [isGraphic, Bool.and_eq_true, decide_eq_true_eq, UInt8.le_iff_toNat_le, hbyte, bne_iff_ne]
    exact ⟨h.1, hne⟩
  rw [encodeByte, if_pos hgraphic, hbyte, Char.ofNat_toNat]

private lemma encode_of_decodeBytes {bytes : Bytes} (hup : UpperEscapes field)
    (h : decodeBytes field = some bytes) : bytes.flatMap encodeByte = field := by
  induction field using decodeBytes.induct generalizing bytes with
  | case1 =>
    cases h
    rfl
  | case2 high low rest ih =>
    rw [decodeBytes] at h
    obtain ⟨b, hb, h⟩ := bind_eq_some_iff.mp h
    split at h
    · cases h
    rename_i hnot
    obtain ⟨bytes, hbytes, rfl⟩ := map_eq_some_iff.mp h
    have hescape := hup _ ((mem_tails _ _).mpr (suffix_refl _))
    simp only [upperEscape, Bool.and_eq_true, decide_eq_true_eq] at hescape
    rw [flatMap_cons, encodeByte_of_escape hescape.1 hescape.2 hb (Bool.eq_false_iff.mpr hnot),
      ih (hup.of_part ⟨['%', high, low], [], by simp⟩) hbytes]
    rfl
  | case3 c rest hnot hgraphic ih =>
    rw [decodeBytes.eq_3 _ _ hnot, if_pos hgraphic] at h
    obtain ⟨bytes, hbytes, rfl⟩ := map_eq_some_iff.mp h
    rw [flatMap_cons, encodeByte_of_graphic hgraphic, ih (hup.of_part ⟨[c], [], by simp⟩) hbytes]
    rfl
  | case4 c rest hnot hgraphic =>
    rw [decodeBytes.eq_3 _ _ hnot, if_neg hgraphic] at h
    cases h

private lemma utf8_of_fromUtf8 {bytes : Bytes} {text : String} (h : Core.fromUtf8 bytes = some text) :
    Core.utf8 text = bytes := by
  obtain ⟨chars, hchars, rfl⟩ := map_eq_some_iff.mp h
  have hback := @ByteArray.utf8Encode_get_utf8Decode? bytes.toByteArray (by rw [hchars]; rfl)
  simp only [hchars, get_some] at hback
  rw [Core.utf8, String.toList_ofList]
  have hdata := congrArg (fun b : ByteArray => b.data.toList) hback
  simpa [List.utf8Encode] using hdata

private lemma encode_of_decode {host : String} (hup : UpperEscapes field) (h : decode field = some host) :
    encode host = field := by
  obtain ⟨bytes, hbytes, hhost⟩ := bind_eq_some_iff.mp h
  rw [encode, utf8_of_fromUtf8 hhost, encode_of_decodeBytes hup hbytes]

private lemma uidText_of_parseUid {uid : InstanceUid} (h : parseUid field = some uid) : uidText uid = field := by
  obtain ⟨-, hcanonical⟩ := filter_eq_some_iff.mp h
  exact of_decide_eq_true hcanonical

private lemma fieldsOf_parseEnds {host notAfter issuer serial : List Char} {change : Change} (hup : UpperEscapes host)
    (h : parseEnds host notAfter issuer serial = some change) :
    fieldsOf change = [['h'], host, notAfter, issuer, serial] := by
  unfold parseEnds at h
  split at h
  · cases h
  split at h
  next hcanonical =>
    obtain ⟨name, hname, rfl⟩ := map_eq_some_iff.mp h
    simp [fieldsOf, encode_of_decode hup hname, hcanonical.2.1]
  · cases h

private lemma infix_intercalate {fields : List (List Char)} (h : field ∈ fields) :
    field <:+: [' '].intercalate fields := by
  rw [List.intercalate]
  refine infix_of_mem_flatten ?_
  induction fields with
  | nil => cases h
  | cons first rest ih => cases rest <;> grind [List.intersperse]

private lemma fieldsOf_parse {text : String} {change : Change} (hup : UpperEscapes text.toList)
    (h : parse text = some change) : fieldsOf change = text.toList.splitOn ' ' := by
  have hfield : ∀ field ∈ text.toList.splitOn ' ', UpperEscapes field := by
    intro field hfield
    have hjoined : [' '].intercalate (text.toList.splitOn ' ') = text.toList := intercalate_splitOn ' '
    refine hup.of_part ?_
    rw [← hjoined]
    exact infix_intercalate hfield
  unfold parse at h
  generalize hfields : text.toList.splitOn ' ' = fields at h hfield ⊢
  split at h
  · obtain ⟨uid, huid, h⟩ := bind_eq_some_iff.mp h
    obtain ⟨host, hhost, rfl⟩ := map_eq_some_iff.mp h
    rw [fieldsOf, uidText_of_parseUid huid, encode_of_decode (hfield _ (by simp)) hhost]
  · obtain ⟨uid, huid, rfl⟩ := map_eq_some_iff.mp h
    rw [fieldsOf, uidText_of_parseUid huid]
  · obtain ⟨uid, huid, rfl⟩ := map_eq_some_iff.mp h
    rw [fieldsOf, uidText_of_parseUid huid]
  · exact fieldsOf_parseEnds (hfield _ (by simp)) h
  · cases h

/-! ### The escapes of what is written -/

namespace UpperEscapes

variable {rest : List Char}

private lemma cons {c : Char} (hc : c ≠ '%') (h : UpperEscapes rest) : UpperEscapes (c :: rest) := by
  rw [UpperEscapes, tails_cons, forall_mem_cons]
  refine ⟨?_, h⟩
  unfold upperEscape
  split
  next heq => exact absurd (List.cons.inj heq).1 hc
  · rfl

private lemma plain_append {plain : List Char} (hplain : ∀ c ∈ plain, isPlain c = true) (h : UpperEscapes rest) :
    UpperEscapes (plain ++ rest) := by
  induction plain with
  | nil => exact h
  | cons c plain ih =>
    rw [forall_mem_cons] at hplain
    exact cons (bne_iff_ne.mp (Bool.and_eq_true_iff.mp hplain.1).2) (ih hplain.2)

private lemma encode_append (host : String) (h : UpperEscapes rest) : UpperEscapes (encode host ++ rest) := by
  have hdigit : ∀ n < 16, upperHexDigit n ∈ upperHexDigits ∧ upperHexDigit n ≠ '%' := by decide
  unfold encode
  induction Core.utf8 host with
  | nil => exact h
  | cons b bytes ih =>
    have hlt : b.toNat < 256 := b.toNat_lt
    rw [flatMap_cons, append_assoc, encodeByte]
    split
    next hgraphic => exact ih.cons (charOfNat_ne_percent hgraphic)
    · obtain ⟨hhigh, hhigh'⟩ := hdigit (b.toNat / 16) (by omega)
      obtain ⟨hlow, hlow'⟩ := hdigit (b.toNat % 16) (by omega)
      have htail := (ih.cons hlow').cons hhigh'
      rw [UpperEscapes, cons_append, tails_cons, forall_mem_cons]
      exact ⟨by simp [upperEscape, hhigh, hlow], htail⟩

private lemma of_fields {fields : List (List Char)}
    (h : ∀ field ∈ fields, (∀ c ∈ field, isPlain c = true) ∨ ∃ host, field = encode host) :
    UpperEscapes ([' '].intercalate fields) := by
  have happend : ∀ field ∈ fields, ∀ rest, UpperEscapes rest → UpperEscapes (field ++ rest) := by
    intro field hfield rest hrest
    rcases h field hfield with hplain | ⟨host, rfl⟩
    · exact hrest.plain_append hplain
    · exact hrest.encode_append host
  clear h
  induction fields with
  | nil => decide
  | cons field fields ih =>
    rw [forall_mem_cons] at happend
    cases fields with
    | nil => simpa [List.intercalate] using happend.1 [] (by decide)
    | cons next fields =>
      rw [intercalate_cons_cons]
      simpa using happend.1 _ ((ih happend.2).cons (c := ' ') (by decide))

end UpperEscapes

/-- A change is read back from its line, and a line that is read is the line of its change where it is not too long and
its escapes are in the digits of `encode`, and only there. -/
theorem line_parse_inverse (change : Change) (text : String) : (line change = some text → parse text = some change) ∧
      (parse text = some change →
        (line change = some text ↔ UpperEscapes text.toList ∧ (Core.utf8 text).length ≤ maxLine)) := by
  refine ⟨parse_line, fun h => ⟨fun hline => ?_, fun ⟨hup, hlength⟩ => ?_⟩⟩
  · obtain ⟨htext, hlength⟩ := line_eq_some hline
    rw [htext]
    exact ⟨.of_fields fun _ => field_plain, hlength⟩
  have hjoined : [' '].intercalate (text.toList.splitOn ' ') = text.toList := intercalate_splitOn ' '
  rw [line, fieldsOf_parse hup h, hjoined, String.ofList_toList, if_pos hlength]

def boundLine (host : String) : String := "b 01010101-0101-0101-0101-010101010101 " ++ host

/-- A newline in a host's name, escaped in upper case. -/
theorem line_parse_inverse_escaped :
    UpperEscapes (boundLine "%0A").toList ∧ line (.bound (.ofByte 1) "\n") = some (boundLine "%0A") :=
  ⟨by decide +kernel, ((line_parse_inverse _ _).2 (by decide +kernel)).mpr (by decide +kernel)⟩

/-- A line with its escape in lowercase is read, and is not the line of its change. -/
theorem lowercase_escape_read :
    parse (boundLine "%0a") = some (.bound (.ofByte 1) "\n") ∧
      line (.bound (.ofByte 1) "\n") ≠ some (boundLine "%0a") := by
  decide +kernel

end OpampFleet.Gateway
