import OpampFleet.Lib.Files
import Mathlib.Tactic.SplitIfs

/-!
# Decoding UTF-8

A decoder that is fed one byte at a time. From it the strict reading, which says how far a text is valid and whether it
only ends inside a character, and the lossy one, which puts U+FFFD for what is no character. The first bytes of a text
are the first characters of it and the beginning of the next one.
-/

namespace OpampFleet.Lib.Utf8

open List Option UInt8

variable (text : List Char)

def encode : Bytes := text.flatMap String.utf8EncodeChar

/-- Where the decoder is: between two characters, or inside one, with its value so far, how many bytes are to come after
the next one, and between which bounds the next one lies. -/
inductive Place where
  | between
  | inside (value left low high : Nat)

inductive Fed where
  | char (c : Char)
  | more (place : Place)
  | bad

def lead (b : Nat) : Fed :=
  if b < 0x80 then .char (Char.ofNat b)
  else if b < 0xc2 then .bad
  else if b < 0xe0 then .more (.inside (b % 32) 0 0x80 0xbf)
  else if b = 0xe0 then .more (.inside (b % 16) 1 0xa0 0xbf)
  else if b = 0xed then .more (.inside (b % 16) 1 0x80 0x9f)
  else if b < 0xf0 then .more (.inside (b % 16) 1 0x80 0xbf)
  else if b = 0xf0 then .more (.inside (b % 8) 2 0x90 0xbf)
  else if b < 0xf4 then .more (.inside (b % 8) 2 0x80 0xbf)
  else if b = 0xf4 then .more (.inside (b % 8) 2 0x80 0x8f)
  else .bad

def goOn (value left low high b : Nat) : Fed :=
  if b < low ∨ high < b then .bad
  else
    match left with
    | 0 => .char (Char.ofNat (value * 64 + b % 64))
    | left + 1 => .more (.inside (value * 64 + b % 64) left 0x80 0xbf)

def feed : Place → UInt8 → Fed
  | .between, b => lead b.toNat
  | .inside value left low high, b => goOn value left low high b.toNat

/-- Where bytes are not a text: how many of the first ones are, and whether the rest is the beginning of a character. -/
structure Invalid where
  validUpTo : Nat
  cut : Bool

def strictFrom : Place → (validUpTo read : Nat) → Bytes → Except Invalid (List Char)
  | place, validUpTo, _, [] =>
    match place with
    | .between => .ok []
    | .inside .. => .error ⟨validUpTo, true⟩
  | place, validUpTo, read, b :: bytes =>
    match feed place b with
    | .char c => (strictFrom .between (read + 1) (read + 1) bytes).map (c :: ·)
    | .more place => strictFrom place validUpTo (read + 1) bytes
    | .bad => .error ⟨validUpTo, false⟩

def strict (bytes : Bytes) : Except Invalid (List Char) := strictFrom .between 0 0 bytes

def replacement : Char := '�'

/-- What a byte adds to the lossy reading: one that does not go on with a character is read again as the first of
another. -/
def takeByte (place : Place) (b : UInt8) : List Char × Place :=
  match feed place b with
  | .char c => ([c], .between)
  | .more place => ([], place)
  | .bad =>
    match place with
    | .between => ([replacement], .between)
    | .inside .. =>
      match feed .between b with
      | .char c => ([replacement, c], .between)
      | .more place => ([replacement], place)
      | .bad => ([replacement, replacement], .between)

def lossyFrom : Place → Bytes → List Char
  | place, [] =>
    match place with
    | .between => []
    | .inside .. => [replacement]
  | place, b :: bytes => (takeByte place b).1 ++ lossyFrom (takeByte place b).2 bytes

def lossy (bytes : Bytes) : List Char := lossyFrom .between bytes

def feeds : Place → Bytes → Option Place
  | place, [] => some place
  | place, b :: bytes =>
    match feed place b with
    | .more place => feeds place bytes
    | _ => none

private lemma feeds_append (place : Place) (bytes bytes' : Bytes) :
    feeds place (bytes ++ bytes') = (feeds place bytes).bind (feeds · bytes') := by
  induction bytes generalizing place with
  | nil => rfl
  | cons b bytes ih =>
    rw [cons_append, feeds, feeds]
    cases feed place b with
    | char c | bad => rfl
    | more place' => exact ih place'

variable {place place' : Place} {b : UInt8} {bytes cut : Bytes} {v : Nat}

private lemma feeds_cons : feeds place (b :: bytes) = some place' ↔
    ∃ next, feed place b = .more next ∧ feeds next bytes = some place' := by
  rw [feeds]
  cases feed place b <;> simp

private lemma takeByte_more (h : feed place b = .more place') : takeByte place b = ([], place') := by
  simp only [takeByte, h]

private lemma takeByte_char {c : Char} (h : feed place b = .char c) : takeByte place b = ([c], .between) := by
  simp only [takeByte, h]

private lemma lossyFrom_feeds (h : feeds place bytes = some place') (rest : Bytes) :
    lossyFrom place (bytes ++ rest) = lossyFrom place' rest := by
  induction bytes generalizing place with
  | nil =>
    cases h
    rfl
  | cons b bytes ih =>
    obtain ⟨next, hfeed, hrest⟩ := feeds_cons.mp h
    rw [cons_append, lossyFrom, takeByte_more hfeed]
    exact ih hrest

private lemma strictFrom_feeds (h : feeds place bytes = some place') (validUpTo read : Nat) (rest : Bytes) :
    strictFrom place validUpTo read (bytes ++ rest) = strictFrom place' validUpTo (read + bytes.length) rest := by
  induction bytes generalizing place read with
  | nil =>
    cases h
    rfl
  | cons b bytes ih =>
    obtain ⟨next, hfeed, hrest⟩ := feeds_cons.mp h
    rw [cons_append, strictFrom, hfeed, length_cons, ← Nat.add_assoc, Nat.add_right_comm]
    exact ih hrest (read + 1)

private lemma toNat_tail (y : Nat) : (ofNat (y % 64 + 128)).toNat = y % 64 + 128 := by
  rw [toNat_ofNat']
  omega

private lemma feed_middle {value left low high y : Nat} (hlow : low ≤ y % 64 + 128) (hhigh : y % 64 + 128 ≤ high) :
    feed (.inside value (left + 1) low high) (ofNat (y % 64 + 128)) =
      .more (.inside (value * 64 + y % 64) left 0x80 0xbf) := by
  have hvalue : (y % 64 + 128) % 64 = y % 64 := by omega
  rw [feed, goOn, toNat_tail, if_neg (by omega), hvalue]

private lemma feed_last {low high : Nat} (hlow : low ≤ v % 64 + 128) (hhigh : v % 64 + 128 ≤ high) :
    feed (.inside (v / 64) 0 low high) (ofNat (v % 64 + 128)) = .char (Char.ofNat v) := by
  have hvalue : v / 64 * 64 + (v % 64 + 128) % 64 = v := by omega
  rw [feed, goOn, toNat_tail, if_neg (by omega), hvalue]

private lemma feed_lead_two (hlow : 0x80 ≤ v) (hhigh : v ≤ 0x7ff) :
    feed .between (ofNat (v / 64 % 32 + 192)) = .more (.inside (v / 64) 0 0x80 0xbf) := by
  have hb : (ofNat (v / 64 % 32 + 192)).toNat = v / 64 + 192 := by
    rw [toNat_ofNat']
    omega
  have hvalue : (v / 64 + 192) % 32 = v / 64 := by omega
  rw [feed, hb, lead, if_neg (by omega), if_neg (by omega), if_pos (by omega), hvalue]

private lemma feed_lead_three (hlow : 0x800 ≤ v) (hhigh : v ≤ 0xffff) (hvalid : v < 0xd800 ∨ 0xdfff < v) :
    ∃ low high, feed .between (ofNat (v / 4096 % 16 + 224)) = .more (.inside (v / 4096) 1 low high) ∧
      low ≤ v / 64 % 64 + 128 ∧ v / 64 % 64 + 128 ≤ high := by
  have hb : (ofNat (v / 4096 % 16 + 224)).toNat = v / 4096 + 224 := by
    rw [toNat_ofNat']
    omega
  have hvalue : (v / 4096 + 224) % 16 = v / 4096 := by omega
  have hlt : v / 4096 + 224 < 0xf0 := by omega
  rw [feed, hb, lead, if_neg (by omega), if_neg (by omega), if_neg (by omega), if_pos hlt, hvalue]
  split_ifs <;> exact ⟨_, _, rfl, by omega, by omega⟩

private lemma feed_lead_four (hlow : 0x10000 ≤ v) (hhigh : v < 0x110000) :
    ∃ low high, feed .between (ofNat (v / 262144 % 8 + 240)) = .more (.inside (v / 262144) 2 low high) ∧
      low ≤ v / 4096 % 64 + 128 ∧ v / 4096 % 64 + 128 ≤ high := by
  have hb : (ofNat (v / 262144 % 8 + 240)).toNat = v / 262144 + 240 := by
    rw [toNat_ofNat']
    omega
  have hvalue : (v / 262144 + 240) % 8 = v / 262144 := by omega
  rw [feed, hb, lead, if_neg (by omega), if_neg (by omega), if_neg (by omega), if_neg (by omega), if_neg (by omega),
    if_neg (by omega), hvalue]
  split_ifs
  iterate 3 · exact ⟨_, _, rfl, by omega, by omega⟩
  · omega

private lemma encodeChar_feeds (c : Char) :
    ∃ init last place, String.utf8EncodeChar c = init ++ [last] ∧ feeds .between init = some place ∧
      feed place last = .char c := by
  have hvalid : c.val.toNat < 0xd800 ∨ 0xdfff < c.val.toNat ∧ c.val.toNat < 0x110000 := c.valid
  have hofNat : Char.ofNat c.val.toNat = c := Char.ofNat_toNat c
  simp only [String.utf8EncodeChar]
  generalize c.val.toNat = v at hvalid hofNat
  have hend : feed (.inside (v / 64) 0 0x80 0xbf) (ofNat (v % 64 + 128)) = .char c := by
    rw [feed_last (by omega) (by omega), hofNat]
  by_cases h1 : v ≤ 127
  · have hb : (ofNat v).toNat = v := by
      rw [toNat_ofNat']
      omega
    rw [if_pos h1]
    refine ⟨[], _, .between, rfl, rfl, ?_⟩
    rw [feed, hb, lead, if_pos (by omega), hofNat]
  rw [if_neg h1]
  by_cases h2 : v ≤ 2047
  · rw [if_pos h2]
    refine ⟨[_], _, _, rfl, ?_, hend⟩
    simp only [feeds, feed_lead_two (by omega) h2]
  rw [if_neg h2]
  by_cases h3 : v ≤ 65535
  · obtain ⟨low, high, hlead, hlow, hhigh⟩ := feed_lead_three (by omega) h3 (by omega)
    have hvalue : v / 4096 * 64 + v / 64 % 64 = v / 64 := by omega
    rw [if_pos h3]
    refine ⟨[_, _], _, _, rfl, ?_, hend⟩
    simp only [feeds, hlead, feed_middle hlow hhigh, hvalue]
  · obtain ⟨low, high, hlead, hlow, hhigh⟩ := feed_lead_four (by omega) (by omega : v < 0x110000)
    have hvalue : (v / 262144 * 64 + v / 4096 % 64) * 64 + v / 64 % 64 = v / 64 := by omega
    rw [if_neg h3]
    refine ⟨[_, _, _], _, _, rfl, ?_, hend⟩
    have hthird : feed (.inside (v / 262144 * 64 + v / 4096 % 64) 1 0x80 0xbf) (ofNat (v / 64 % 64 + 128)) =
        .more (.inside (v / 64) 0 0x80 0xbf) := by
      rw [feed_middle (by omega) (by omega), hvalue]
    simp only [feeds, hlead, feed_middle hlow hhigh, hthird]

private lemma encodeChar_bytes (c : Char) :
    String.utf8EncodeChar c = [ofNat c.toNat] ∧ c.toNat < 128 ∨ ∀ b ∈ String.utf8EncodeChar c, 128 ≤ b.toNat := by
  have hbyte : ∀ x, 128 ≤ x → x < 256 → 128 ≤ (ofNat x).toNat := by
    intro x hlow hlt
    rw [toNat_ofNat']
    omega
  have hv : c.val.toNat = c.toNat := rfl
  simp only [String.utf8EncodeChar, hv]
  generalize c.toNat = v
  by_cases h1 : v ≤ 127
  · rw [if_pos h1]
    exact .inl ⟨rfl, by omega⟩
  refine .inr ?_
  rw [if_neg h1]
  split_ifs <;> simp <;> and_intros <;> exact hbyte _ (by omega) (by omega)

lemma le_of_mem_encode {n : Nat} (hn : n ≤ 128) {text : List Char} (h : ∀ c ∈ text, n ≤ c.toNat) :
    ∀ b ∈ encode text, n ≤ b.toNat := by
  intro b hb
  obtain ⟨c, hc, hbc⟩ := mem_flatMap.mp hb
  rcases encodeChar_bytes c with ⟨hbytes, hlt⟩ | hhigh
  · rw [hbytes, mem_singleton] at hbc
    have hcode : b.toNat = c.toNat := by
      rw [hbc, toNat_ofNat']
      omega
    rw [hcode]
    exact h c hc
  · exact Nat.le_trans hn (hhigh b hbc)

@[simp] lemma encode_nil : encode [] = [] := rfl

lemma encode_cons (c : Char) (text : List Char) : encode (c :: text) = String.utf8EncodeChar c ++ encode text :=
  flatMap_cons

private lemma lossyFrom_encodeChar (c : Char) (rest : Bytes) :
    lossyFrom .between (String.utf8EncodeChar c ++ rest) = c :: lossyFrom .between rest := by
  obtain ⟨init, last, place, hbytes, hfeeds, hlast⟩ := encodeChar_feeds c
  rw [hbytes, append_assoc, lossyFrom_feeds hfeeds, singleton_append, lossyFrom, takeByte_char hlast]
  rfl

private lemma lossyFrom_encode (rest : Bytes) :
    lossyFrom .between (encode text ++ rest) = text ++ lossyFrom .between rest := by
  induction text with
  | nil => rfl
  | cons c text ih => rw [encode_cons, append_assoc, lossyFrom_encodeChar, ih, cons_append]

private lemma strictFrom_encode (read : Nat) (rest : Bytes) :
    strictFrom .between read read (encode text ++ rest) =
      (strictFrom .between (read + (encode text).length) (read + (encode text).length) rest).map (text ++ ·) := by
  induction text generalizing read with
  | nil => cases h : strictFrom .between read read rest <;> simp [h, Except.map]
  | cons c text ih =>
    obtain ⟨init, last, place, hbytes, hfeeds, hlast⟩ := encodeChar_feeds c
    have hlength : read + init.length + 1 + (encode text).length = read + (encode (c :: text)).length := by
      rw [encode_cons, hbytes]
      simp only [length_append, length_cons, length_nil]
      omega
    rw [encode_cons, hbytes, append_assoc, append_assoc, strictFrom_feeds hfeeds, singleton_append,
      strictFrom, hlast]
    rw [ih, hlength, ← hbytes, ← encode_cons]
    cases strictFrom .between _ _ rest with
    | ok more | error e => rfl

/-- `strict` reads back what was encoded. -/
lemma strict_encode : strict (encode text) = .ok text := by
  have h := strictFrom_encode text 0 []
  rw [append_nil] at h
  rw [strict, h]
  simp [strictFrom, Except.map]

def IsCut (cut : Bytes) : Prop := (feeds .between cut).isSome

lemma isCut_nil : IsCut [] := rfl

private lemma isCut_of_begins {c : Char} (h : cut <+: String.utf8EncodeChar c)
    (hne : cut ≠ String.utf8EncodeChar c) : IsCut cut := by
  obtain ⟨init, last, place, hbytes, hfeeds, -⟩ := encodeChar_feeds c
  rw [hbytes] at h hne
  obtain ⟨rest, rfl⟩ := (prefix_concat_iff.mp h).resolve_left hne
  rw [feeds_append] at hfeeds
  obtain ⟨middle, hmiddle, -⟩ := bind_eq_some_iff.mp hfeeds
  exact isSome_iff_exists.mpr ⟨middle, hmiddle⟩

/-- Inside a character, no ASCII byte goes on with it. -/
def Place.Goes : Place → Prop
  | .between => False
  | .inside _ _ low _ => 0x80 ≤ low

private lemma feed_more_goes (h : feed place b = .more place') : place'.Goes := by
  cases place with
  | between =>
    simp only [feed, lead] at h
    split_ifs at h <;> cases h <;> simp [Place.Goes]
  | inside value left low high =>
    rw [feed, goOn.eq_def] at h
    by_cases hb : b.toNat < low ∨ high < b.toNat
    · simp [if_pos hb] at h
    rw [if_neg hb] at h
    cases left with
    | zero => cases h
    | succ left =>
      cases h
      exact Nat.le_refl _

private lemma feeds_goes (hne : bytes ≠ []) (h : feeds place bytes = some place') : place'.Goes := by
  induction bytes generalizing place with
  | nil => exact absurd rfl hne
  | cons b bytes ih =>
    obtain ⟨next, hfeed, hrest⟩ := feeds_cons.mp h
    cases bytes with
    | nil =>
      cases hrest
      exact feed_more_goes hfeed
    | cons b' bytes => exact ih (cons_ne_nil _ _) hrest

private lemma feed_more_high (hplace : place = .between ∨ place.Goes) (h : feed place b = .more place') :
    128 ≤ b.toNat := by
  cases place with
  | between =>
    by_contra hlow
    rw [feed, lead, if_pos (by omega)] at h
    cases h
  | inside value left low high =>
    have hlow : 128 ≤ low := hplace.resolve_left (by simp)
    by_contra hb
    rw [feed, goOn.eq_def, if_pos (.inl (by omega))] at h
    cases h

private lemma high_of_feeds (hplace : place = .between ∨ place.Goes) (h : feeds place bytes = some place') :
    ∀ b ∈ bytes, 128 ≤ b.toNat := by
  induction bytes generalizing place with
  | nil => simp
  | cons first bytes ih =>
    obtain ⟨next, hfeed, hrest⟩ := feeds_cons.mp h
    intro b hb
    rcases mem_cons.mp hb with rfl | hb
    · exact feed_more_high hplace hfeed
    · exact ih (.inr (feed_more_goes hfeed)) hrest b hb

/-- The bytes of a character that was cut off are not ASCII. -/
lemma high_of_isCut (h : IsCut cut) : ∀ b ∈ cut, 128 ≤ b.toNat := by
  obtain ⟨place, hplace⟩ := isSome_iff_exists.mp h
  exact high_of_feeds (.inl rfl) hplace

def mend (cut : Bytes) : List Char := if cut = [] then [] else [replacement]

private lemma lossyFrom_cut (h : IsCut cut) : lossyFrom .between cut = mend cut := by
  obtain ⟨place, hplace⟩ := isSome_iff_exists.mp h
  have hread := lossyFrom_feeds hplace []
  rw [append_nil] at hread
  by_cases hne : cut = []
  · subst hne
    rfl
  have hgoes := feeds_goes hne hplace
  rw [hread, mend, if_neg hne]
  cases place with
  | between => exact absurd hgoes id
  | inside => rfl

private lemma lossyFrom_cut_newline (h : IsCut cut) (rest : Bytes) :
    lossyFrom .between (cut ++ 10 :: rest) = mend cut ++ '\n' :: lossyFrom .between rest := by
  obtain ⟨place, hplace⟩ := isSome_iff_exists.mp h
  rw [lossyFrom_feeds hplace, lossyFrom]
  by_cases hne : cut = []
  · subst hne
    cases hplace
    rfl
  have hgoes := feeds_goes hne hplace
  rw [mend, if_neg hne]
  cases place with
  | between => exact absurd hgoes id
  | inside value left low high =>
    have hbad : feed (.inside value left low high) 10 = .bad := by
      have hlow : (10 : UInt8).toNat < low := Nat.lt_of_lt_of_le (by decide) hgoes
      rw [feed, goOn.eq_def, if_pos (.inl hlow)]
    have hline : feed .between 10 = .char '\n' := rfl
    simp only [takeByte, hbad, hline]
    rfl

/-- `lossy` mends the character that was cut off, and no other. -/
lemma lossy_cut (h : IsCut cut) : lossy (encode text ++ cut) = text ++ mend cut := by
  rw [lossy, lossyFrom_encode, lossyFrom_cut h]

lemma lossy_cut_newline (h : IsCut cut) (rest : Bytes) :
    lossy (encode text ++ cut ++ 10 :: rest) = text ++ mend cut ++ '\n' :: lossy rest := by
  rw [lossy, append_assoc, lossyFrom_encode, lossyFrom_cut_newline h, append_assoc]
  rfl

/-- `strict` stops at the character that was cut off. -/
lemma strict_cut (h : IsCut cut) (hne : cut ≠ []) :
    strict (encode text ++ cut) = .error ⟨(encode text).length, true⟩ := by
  obtain ⟨place, hplace⟩ := isSome_iff_exists.mp h
  have hread := strictFrom_feeds hplace (0 + (encode text).length) (0 + (encode text).length) []
  rw [append_nil] at hread
  have hgoes := feeds_goes hne hplace
  rw [strict, strictFrom_encode, hread]
  cases place with
  | between => exact absurd hgoes id
  | inside => simp [strictFrom, Except.map]

/-- The first bytes of encoded text are encoded text and the first bytes of a character. -/
lemma prefix_encode {text : List Char} (h : bytes <+: encode text) :
    ∃ first cut, bytes = encode first ++ cut ∧ first <+: text ∧ IsCut cut := by
  induction text generalizing bytes with
  | nil => exact ⟨[], [], prefix_nil.mp h, prefix_rfl, isCut_nil⟩
  | cons c text ih =>
    rw [encode_cons] at h
    obtain ⟨after, hafter⟩ := h
    rcases append_eq_append_iff.mp hafter with ⟨more, hmore, -⟩ | ⟨rest, rfl, hrest⟩
    · have hc : bytes <+: String.utf8EncodeChar c := ⟨more, hmore.symm⟩
      by_cases hwhole : bytes = String.utf8EncodeChar c
      · exact ⟨[c], [], by simp [encode, hwhole], by simp, isCut_nil⟩
      · exact ⟨[], bytes, rfl, nil_prefix, isCut_of_begins hc hwhole⟩
    · obtain ⟨first, cut, rfl, hfirst, hcut⟩ := ih ⟨after, hrest.symm⟩
      exact ⟨c :: first, cut, by rw [encode_cons, append_assoc], (prefix_cons_inj c).mpr hfirst, hcut⟩

end OpampFleet.Lib.Utf8
