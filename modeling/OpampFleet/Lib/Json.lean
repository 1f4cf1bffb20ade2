import OpampFleet.Lib.Map
import Mathlib.Data.String.Basic

/-!
# JSON objects on one line

An object whose fields are texts and integers, written without blanks, the keys in order and every control character
escaped. A `JsonReader` is any library that reads such a line back, where its integers are of 64 bits, and takes no line
that was cut short for one; `JsonReader.canonical` reads nothing but what is written here.
-/

namespace OpampFleet.Lib

open List

structure JsonView where
  str : String → Option String
  u64 : String → Option Nat

namespace Json

inductive Scalar where
  | text (s : String)
  | int (n : Int)
  deriving DecidableEq

def Scalar.asStr : Scalar → Option String
  | .text s => some s
  | .int _ => none

def Scalar.asU64 : Scalar → Option Nat
  | .text _ => none
  | .int n => if 0 ≤ n then some n.toNat else none

/-- An integer fits a signed or an unsigned word of 64 bits. -/
def Scalar.isWord : Scalar → Bool
  | .text _ => true
  | .int n => decide (Int64.minValue.toInt ≤ n ∧ n < UInt64.size)

abbrev Object := Map String Scalar

variable (object : Object)

def Object.view : JsonView where
  str key := (object.lookup key).bind Scalar.asStr
  u64 key := (object.lookup key).bind Scalar.asU64

def escapeChar (c : Char) : List Char :=
  if c = '"' then ['\\', '"']
  else if c = '\\' then ['\\', '\\']
  else if c = '\x08' then ['\\', 'b']
  else if c = '\t' then ['\\', 't']
  else if c = '\n' then ['\\', 'n']
  else if c = '\x0c' then ['\\', 'f']
  else if c = '\r' then ['\\', 'r']
  else if c.toNat < 32 then ['\\', 'u', '0', '0', Nat.digitChar (c.toNat / 16), Nat.digitChar (c.toNat % 16)]
  else [c]

def quote (s : String) : List Char := '"' :: s.toList.flatMap escapeChar ++ ['"']

def writeScalar : Scalar → List Char
  | .text s => quote s
  | .int n => if n < 0 then '-' :: Nat.toDigits 10 n.natAbs else Nat.toDigits 10 n.natAbs

def writeField (field : String × Scalar) : List Char := quote field.1 ++ ':' :: writeScalar field.2

def writeFields : List (String × Scalar) → List Char
  | [] => []
  | [field] => writeField field
  | field :: fields => writeField field ++ ',' :: writeFields fields

def Object.fields : List (String × Scalar) :=
  object.sortedKeys.filterMap fun key => (object.lookup key).map (key, ·)

def writeLine (fields : List (String × Scalar)) : List Char := '{' :: writeFields fields ++ ['}']

def write : String := String.ofList (writeLine object.fields)

private lemma printable_append {l l' : List Char} (h : ∀ c ∈ l, 32 ≤ c.toNat) (h' : ∀ c ∈ l', 32 ≤ c.toNat) :
    ∀ c ∈ l ++ l', 32 ≤ c.toNat := by
  intro c hc
  exact (mem_append.mp hc).elim (h c) (h' c)

private lemma digitChar_printable : ∀ n < 16, 32 ≤ (Nat.digitChar n).toNat := by decide

private lemma escapeChar_printable (c : Char) : ∀ d ∈ escapeChar c, 32 ≤ d.toNat := by
  have hbound : c.toNat < 32 → c.toNat / 16 < 16 ∧ c.toNat % 16 < 16 := by omega
  unfold escapeChar
  split_ifs
  iterate 7 · exact forall_mem_cons.mpr ⟨by decide, forall_mem_singleton.mpr (by decide)⟩
  next hlt =>
    obtain ⟨hhigh, hlow⟩ := hbound hlt
    simp [digitChar_printable _ hhigh, digitChar_printable _ hlow]
  next hge =>
    simp only [mem_singleton, forall_eq]
    omega

private lemma quote_printable (s : String) : ∀ c ∈ quote s, 32 ≤ c.toNat := by
  refine printable_append (l := '"' :: s.toList.flatMap escapeChar) (forall_mem_cons.mpr ⟨by decide, fun c hc => ?_⟩)
    (List.forall_mem_singleton.mpr (by decide))
  obtain ⟨d, -, hd⟩ := List.mem_flatMap.mp hc
  exact escapeChar_printable d c hd

private lemma toDigits_printable (n : Nat) : ∀ c ∈ Nat.toDigits 10 n, c.isDigit = true ∧ 32 ≤ c.toNat := by
  intro c hc
  have hdigit : c.isDigit = true := Nat.isDigit_of_mem_toDigits (by omega) (by omega) hc
  refine ⟨hdigit, ?_⟩
  have hbounds : 48 ≤ c.toNat ∧ c.toNat ≤ 57 := by
    simp only [Char.isDigit, Bool.and_eq_true, decide_eq_true_eq, ge_iff_le, UInt32.le_iff_toNat_le] at hdigit
    exact hdigit
  omega

private lemma writeScalar_printable (value : Scalar) : ∀ c ∈ writeScalar value, 32 ≤ c.toNat := by
  cases value with
  | text s => exact quote_printable s
  | int n =>
    have hdigits := fun c hc => (toDigits_printable n.natAbs c hc).2
    rw [writeScalar]
    split_ifs
    · exact forall_mem_cons.mpr ⟨by decide, hdigits⟩
    · exact hdigits

private lemma writeField_printable (field : String × Scalar) : ∀ c ∈ writeField field, 32 ≤ c.toNat := by
  exact printable_append (quote_printable field.1) (forall_mem_cons.mpr ⟨by decide, writeScalar_printable field.2⟩)

private lemma writeFields_printable (fields : List (String × Scalar)) : ∀ c ∈ writeFields fields, 32 ≤ c.toNat := by
  induction fields with
  | nil => simp [writeFields]
  | cons field fields ih =>
    cases fields with
    | nil => exact writeField_printable field
    | cons field' fields =>
      exact printable_append (writeField_printable field) (forall_mem_cons.mpr ⟨by decide, ih⟩)

/-- A written object has no control character. -/
lemma write_printable : ∀ c ∈ (write object).toList, 32 ≤ c.toNat := by
  rw [write, String.toList_ofList]
  exact forall_mem_cons.mpr ⟨by decide, printable_append (writeFields_printable object.fields)
    (forall_mem_singleton.mpr (by decide))⟩

lemma write_toList : (write object).toList = '{' :: (writeFields object.fields ++ ['}']) := by
  rw [write, String.toList_ofList]
  rfl

def hexValue (c : Char) : Nat := "0123456789abcdef".toList.idxOf c

def unquote : List Char → Option (List Char × List Char)
  | [] => none
  | '"' :: rest => some ([], rest)
  | '\\' :: 'u' :: '0' :: '0' :: high :: low :: rest =>
    (unquote rest).map fun read => (Char.ofNat (16 * hexValue high + hexValue low) :: read.1, read.2)
  | '\\' :: escaped :: rest =>
    let c := match escaped with
      | 'b' => '\x08'
      | 't' => '\t'
      | 'n' => '\n'
      | 'f' => '\x0c'
      | 'r' => '\r'
      | c => c
    (unquote rest).map fun read => (c :: read.1, read.2)
  | c :: rest => (unquote rest).map fun read => (c :: read.1, read.2)

def readText (line : List Char) : Option (String × List Char) :=
  match line with
  | '"' :: rest => (unquote rest).map fun read => (String.ofList read.1, read.2)
  | _ => none

def readInt (line : List Char) : Int × List Char :=
  match line with
  | '-' :: rest => (-(Nat.ofDigitChars 10 (rest.takeWhile Char.isDigit) 0 : Nat), rest.dropWhile Char.isDigit)
  | rest => ((Nat.ofDigitChars 10 (rest.takeWhile Char.isDigit) 0 : Nat), rest.dropWhile Char.isDigit)

def readScalar (line : List Char) : Scalar × List Char :=
  match readText line with
  | some (s, rest) => (.text s, rest)
  | none => (.int (readInt line).1, (readInt line).2)

def readFields : (fuel : Nat) → List Char → Option (List (String × Scalar) × List Char)
  | 0, _ => none
  | fuel + 1, line =>
    match readText line with
    | some (key, ':' :: rest) =>
      match readScalar rest with
      | (value, ',' :: rest) => (readFields fuel rest).map fun read => ((key, value) :: read.1, read.2)
      | (value, '}' :: rest) => some ([(key, value)], rest)
      | _ => none
    | _ => none

def readLine (fuel : Nat) (line : List Char) : Option (List (String × Scalar) × List Char) :=
  match line with
  | '{' :: '}' :: rest => some ([], rest)
  | '{' :: rest => readFields fuel rest
  | _ => none

private lemma hexValue_digitChar : ∀ n < 16, hexValue (Nat.digitChar n) = n := by decide

private lemma unquote_escapeChar (c : Char) (rest : List Char) :
    unquote (escapeChar c ++ rest) = (unquote rest).map fun read => (c :: read.1, read.2) := by
  unfold escapeChar
  split_ifs with hquote hslash
  iterate 7
    · subst_vars
      rfl
  · have hvalue : 16 * (c.toNat / 16) + c.toNat % 16 = c.toNat := by omega
    simp [unquote, hexValue_digitChar _ (show c.toNat / 16 < 16 by omega),
      hexValue_digitChar _ (show c.toNat % 16 < 16 by omega), hvalue]
  · rw [singleton_append, unquote]
    · exact hquote
    · exact fun _ _ _ h _ => hslash h
    · exact fun _ _ h _ => hslash h

private lemma unquote_quote (text rest : List Char) :
    unquote (text.flatMap escapeChar ++ '"' :: rest) = some (text, rest) := by
  induction text with
  | nil => rfl
  | cons c text ih => rw [flatMap_cons, append_assoc, unquote_escapeChar, ih, Option.map_some]

private lemma readText_quote (s : String) (rest : List Char) : readText (quote s ++ rest) = some (s, rest) := by
  have hread : unquote (s.toList.flatMap escapeChar ++ ['"'] ++ rest) = some (s.toList, rest) := by
    rw [append_assoc]
    exact unquote_quote s.toList rest
  simp only [quote, cons_append, readText, hread, Option.map_some, String.ofList_toList]

variable {stop : Char} {fields : List (String × Scalar)}

private lemma takeWhile_digits (n : Nat) (hstop : stop.isDigit = false) (rest : List Char) :
    (Nat.toDigits 10 n ++ stop :: rest).takeWhile Char.isDigit = Nat.toDigits 10 n ∧
      (Nat.toDigits 10 n ++ stop :: rest).dropWhile Char.isDigit = stop :: rest := by
  have hall : ∀ c ∈ Nat.toDigits 10 n, c.isDigit = true := fun c hc => (toDigits_printable n c hc).1
  constructor
  · rw [takeWhile_append_of_pos hall, takeWhile_cons_of_neg (by simp [hstop]), append_nil]
  · rw [dropWhile_append_of_pos hall, dropWhile_cons_of_neg (by simp [hstop])]

private lemma toDigits_head (n : Nat) (rest : List Char) :
    ∃ c cs, Nat.toDigits 10 n ++ rest = c :: cs ∧ c.isDigit = true := by
  obtain ⟨c, cs, hdigits⟩ := exists_cons_of_ne_nil (Nat.toDigits_ne_nil : Nat.toDigits 10 n ≠ [])
  exact ⟨c, cs ++ rest, by rw [hdigits, cons_append], (toDigits_printable n c (by simp [hdigits])).1⟩

private lemma readInt_write (n : Int) (hstop : stop.isDigit = false) (rest : List Char) :
    readInt (writeScalar (.int n) ++ stop :: rest) = (n, stop :: rest) := by
  obtain ⟨htake, hdrop⟩ := takeWhile_digits n.natAbs hstop rest
  rw [writeScalar]
  by_cases hneg : n < 0
  · have hvalue : -(n.natAbs : Int) = n := by omega
    rw [if_pos hneg, cons_append, readInt, htake, hdrop, Nat.ofDigitChars_ten_toDigits, hvalue]
  obtain ⟨c, cs, hcs, hdigit⟩ := toDigits_head n.natAbs (stop :: rest)
  have hne : c ≠ '-' := by
    rintro rfl
    revert hdigit
    decide
  have hvalue : (n.natAbs : Int) = n := by omega
  rw [if_neg hneg, readInt, htake, hdrop, Nat.ofDigitChars_ten_toDigits, hvalue]
  intro rest' h
  rw [hcs] at h
  exact hne (List.cons.inj h).1

private lemma readText_int (n : Int) (rest : List Char) : readText (writeScalar (.int n) ++ rest) = none := by
  rw [writeScalar]
  by_cases hneg : n < 0
  · rw [if_pos hneg]
    rfl
  obtain ⟨c, cs, hcs, hdigit⟩ := toDigits_head n.natAbs rest
  have hne : c ≠ '"' := by
    rintro rfl
    revert hdigit
    decide
  rw [if_neg hneg, hcs, readText]
  exact fun _ h => hne (cons.inj h).1

private lemma readScalar_write (value : Scalar) (hstop : stop.isDigit = false) (rest : List Char) :
    readScalar (writeScalar value ++ stop :: rest) = (value, stop :: rest) := by
  unfold readScalar
  cases value with
  | text s => rw [writeScalar, readText_quote]
  | int n => rw [readText_int, readInt_write n hstop]

private lemma readFields_write {fuel : Nat} (hne : fields ≠ []) (hfuel : fields.length ≤ fuel)
    (rest : List Char) : readFields fuel (writeFields fields ++ '}' :: rest) = some (fields, rest) := by
  induction fields generalizing fuel with
  | nil => exact absurd rfl hne
  | cons field fields ih =>
    obtain ⟨fuel, rfl⟩ : ∃ n, fuel = n + 1 := ⟨fuel - 1, by rw [length_cons] at hfuel; omega⟩
    cases fields with
    | nil =>
      have hscalar := readScalar_write field.2 (show '}'.isDigit = false from rfl) rest
      simp only [writeFields, writeField, append_assoc, cons_append, readFields, readText_quote, hscalar]
    | cons field' fields =>
      have hread := ih (cons_ne_nil _ _) (Nat.le_of_succ_le_succ hfuel)
      have hscalar := readScalar_write field.2 (show ','.isDigit = false from rfl)
        (writeFields (field' :: fields) ++ '}' :: rest)
      have hline : writeFields (field :: field' :: fields) ++ '}' :: rest =
          quote field.1 ++ ':' :: (writeScalar field.2 ++ ',' :: (writeFields (field' :: fields) ++ '}' :: rest)) := by
        rw [writeFields, writeField]
        simp only [append_assoc, cons_append]
        exact cons_ne_nil field' fields
      simp only [hline, readFields, readText_quote, hscalar, hread, Option.map_some]

private lemma readLine_write {fuel : Nat} (hfuel : fields.length ≤ fuel)
    (rest : List Char) : readLine fuel (writeLine fields ++ rest) = some (fields, rest) := by
  cases fields with
  | nil => rfl
  | cons field fields =>
    have hread := readFields_write (cons_ne_nil field fields) hfuel rest
    have hline : writeLine (field :: fields) ++ rest = '{' :: (writeFields (field :: fields) ++ '}' :: rest) := by
      simp [writeLine]
    rw [hline, readLine, hread]
    intro rest' h
    cases fields with
    | nil | cons field' fields => simp [writeFields, writeField, quote] at h

private lemma writeLine_begins_no_other {fields' : List (String × Scalar)}
    (h : writeLine fields <+: writeLine fields') : writeLine fields = writeLine fields' := by
  obtain ⟨rest, hrest⟩ := h
  have hread := readLine_write (Nat.le_add_right fields.length fields'.length) rest
  have hread' := readLine_write (Nat.le_add_left fields'.length fields.length) []
  rw [append_nil, ← hrest, hread] at hread'
  cases hread'
  rw [← hrest, append_nil]

private lemma length_le_writeFields (fields : List (String × Scalar)) :
    fields.length ≤ (writeFields fields).length := by
  induction fields with
  | nil => exact Nat.le_refl 0
  | cons field fields ih =>
    cases fields with
    | nil => simp [writeFields, writeField, quote]
    | cons field' fields =>
      rw [writeFields]
      · simp only [length_append, length_cons] at ih ⊢
        omega
      · exact cons_ne_nil field' fields

private lemma lookup_fields (keys : List String) (key : String) :
    (keys.filterMap fun key => (object.lookup key).map (key, ·)).lookup key =
      if key ∈ keys then object.lookup key else none := by
  induction keys with
  | nil => rfl
  | cons k keys ih =>
    by_cases hk : key = k
    · subst hk
      cases hlookup : object.lookup key with
      | none => simp [hlookup, ih]
      | some value => simp [hlookup]
    · have hne : (key == k) = false := by simp [hk]
      cases hlookup : object.lookup k with
      | none => simp [hlookup, ih, hk]
      | some value => simp [hlookup, ih, hk, lookup_cons, hne]

private lemma lookup_object_fields (key : String) : object.fields.lookup key = object.lookup key := by
  unfold Object.fields
  rw [lookup_fields]
  by_cases hkey : key ∈ object.sortedKeys
  · rw [if_pos hkey]
  · rw [if_neg hkey]
    rw [Map.mem_sortedKeys, Bool.not_eq_true, Option.isSome_eq_false_iff, Option.isNone_iff_eq_none] at hkey
    exact hkey.symm

def viewFields (fields : List (String × Scalar)) : JsonView where
  str key := (fields.lookup key).bind Scalar.asStr
  u64 key := (fields.lookup key).bind Scalar.asU64

private lemma viewFields_object : viewFields object.fields = object.view := by
  simp only [viewFields, Object.view, lookup_object_fields]

/-- The fields of a line that is as `write` writes it. -/
def fieldsOf (line : String) : Option (List (String × Scalar)) :=
  match readLine line.length line.toList with
  | some (fields, []) => if writeLine fields = line.toList then some fields else none
  | _ => none

private lemma toList_of_fieldsOf {line : String} {fields : List (String × Scalar)} (h : fieldsOf line = some fields) :
    line.toList = writeLine fields := by
  unfold fieldsOf at h
  split at h
  · split at h
    next hline =>
      cases h
      exact hline.symm
    · cases h
  · cases h

private lemma fieldsOf_write : fieldsOf (write object) = some object.fields := by
  have hline : (write object).toList = writeLine object.fields := by rw [write, String.toList_ofList]
  have hfuel : object.fields.length ≤ (write object).length := by
    rw [← String.length_toList, hline, writeLine]
    have := length_le_writeFields object.fields
    simp only [cons_append, length_cons, length_append]
    omega
  have hread := readLine_write hfuel []
  rw [append_nil, ← hline] at hread
  unfold fieldsOf
  rw [hread]
  simp [hline]

private lemma fieldsOf_eq_none {text : List Char} (h : ∀ fields, text ≠ writeLine fields) :
    fieldsOf (String.ofList text) = none := by
  rw [Option.eq_none_iff_forall_not_mem]
  intro fields hfields
  have htext := toList_of_fieldsOf hfields
  rw [String.toList_ofList] at htext
  exact h fields htext

private lemma fieldsOf_cut {first : List Char} (hfirst : first <+: (write object).toList)
    (hne : first ≠ (write object).toList) :
    fieldsOf (String.ofList first) = none ∧ fieldsOf (String.ofList (first ++ ['\uFFFD'])) = none := by
  have hline : (write object).toList = writeLine object.fields := by rw [write, String.toList_ofList]
  constructor
  · refine fieldsOf_eq_none fun fields hfields => ?_
    rw [hfields, hline] at hfirst hne
    exact hne (writeLine_begins_no_other hfirst)
  · refine fieldsOf_eq_none fun fields hfields => ?_
    have hlast := (append_inj' (hfields.trans rfl) rfl).2
    revert hlast
    decide

end Json

open Json

/-- A JSON library: it reads back what is written of texts and of integers of 64 bits. -/
structure JsonReader where
  parse : String → Except String JsonView
  parse_write : ∀ object : Object, object.fields.all (·.2.isWord) = true → parse (write object) = .ok object.view
  /-- A line cut short is none, also when it was cut inside a character. -/
  parse_cut : ∀ (object : Object) (first : List Char), first <+: (write object).toList →
    first ≠ (write object).toList →
    (parse (String.ofList first)).isOk = false ∧ (parse (String.ofList (first ++ ['\uFFFD']))).isOk = false

namespace JsonReader

/-- The library's answer; only a line with an integer past 64 bits is read as it was written, so that a model may count
further than its program. -/
def read (reader : JsonReader) (line : String) : Except String JsonView :=
  match fieldsOf line with
  | some fields => if fields.all (·.2.isWord) then reader.parse line else .ok (viewFields fields)
  | none => reader.parse line

/-- A written object reads back. -/
lemma read_write (reader : JsonReader) (object : Object) : reader.read (write object) = .ok object.view := by
  rw [read, fieldsOf_write]
  dsimp only
  split
  next hwords => exact reader.parse_write object hwords
  · rw [viewFields_object]

/-- A line cut short is not read. -/
lemma read_cut (reader : JsonReader) (object : Object) {first : List Char} (hfirst : first <+: (write object).toList)
    (hne : first ≠ (write object).toList) : (reader.read (String.ofList first)).isOk = false ∧
      (reader.read (String.ofList (first ++ ['\uFFFD']))).isOk = false := by
  obtain ⟨hcut, hmended⟩ := fieldsOf_cut object hfirst hne
  rw [read, read, hcut, hmended]
  exact reader.parse_cut object first hfirst hne

def canonical : JsonReader where
  parse line := (fieldsOf line).elim (.error "not as written") fun fields => .ok (viewFields fields)
  parse_write object _ := by rw [fieldsOf_write, Option.elim_some, viewFields_object]
  parse_cut object first hfirst hne := by
    obtain ⟨hcut, hmended⟩ := fieldsOf_cut object hfirst hne
    rw [hcut, hmended]
    exact ⟨rfl, rfl⟩

end JsonReader

end OpampFleet.Lib
