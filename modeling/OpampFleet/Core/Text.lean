import OpampFleet.Lib.Files

/-!
# Texts

What the models read of a text.
-/

namespace OpampFleet.Core

open Lib List Option

def utf8 (text : String) : Bytes := text.toList.flatMap String.utf8EncodeChar

def fromUtf8 (bytes : Bytes) : Option String := bytes.toByteArray.utf8Decode?.map fun text => String.ofList text.toList

lemma fromUtf8_utf8 (text : String) : fromUtf8 (utf8 text) = some text := by
  have h : (utf8 text).toByteArray.utf8Decode? = some text.toList.toArray := utf8Decode?_utf8Encode
  simp [fromUtf8, h]

lemma utf8_injective : Function.Injective utf8 := by
  intro text text' h
  have hread := fromUtf8_utf8 text
  rw [h, fromUtf8_utf8] at hread
  exact (Option.some.inj hread).symm

def hexValue (c : Char) : Option Nat :=
  if c.isDigit then some (c.toNat - 48)
  else if 'a' ≤ c && c ≤ 'f' then some (c.toNat - 87)
  else if 'A' ≤ c && c ≤ 'F' then some (c.toNat - 55)
  else none

def hexBytes : List Char → Option Bytes
  | [] => some []
  | high :: low :: rest =>
    (hexValue high).bind fun h => (hexValue low).bind fun l => (hexBytes rest).map (UInt8.ofNat (16 * h + l) :: ·)
  | [_] => none

def hexDigit (n : Nat) : Char := "0123456789abcdef".toList.getD n '0'

def hexText (bytes : Bytes) : String :=
  String.ofList (bytes.flatMap fun b => [hexDigit (b.toNat / 16), hexDigit (b.toNat % 16)])

private lemma hexValue_hexDigit : ∀ n < 16, hexValue (hexDigit n) = some n := by decide

/-- Hex text reads back. -/
lemma hexBytes_hexText (bytes : Bytes) : hexBytes (hexText bytes).toList = some bytes := by
  unfold hexText
  rw [String.toList_ofList]
  induction bytes with
  | nil => rfl
  | cons b bytes ih =>
    have hlt : b.toNat < 256 := b.toNat_lt
    have hsum : 16 * (b.toNat / 16) + b.toNat % 16 = b.toNat := by omega
    simp only [flatMap_cons, cons_append, nil_append, hexBytes, hexValue_hexDigit _
      (show b.toNat / 16 < 16 by omega), hexValue_hexDigit _ (show b.toNat % 16 < 16 by omega), bind_some, ih,
      map_some, hsum, UInt8.ofNat_toNat]

lemma hexText_injective : Function.Injective hexText := by
  intro bytes bytes' h
  have hread := hexBytes_hexText bytes
  rw [h, hexBytes_hexText] at hread
  exact (Option.some.inj hread).symm

lemma mem_hexText {bytes : Bytes} {c : Char} (h : c ∈ (hexText bytes).toList) : ∃ n < 16, c = hexDigit n := by
  rw [hexText, String.toList_ofList] at h
  obtain ⟨b, -, hb⟩ := mem_flatMap.mp h
  have hlt : b.toNat < 256 := b.toNat_lt
  simp only [mem_cons, not_mem_nil, or_false] at hb
  rcases hb with rfl | rfl
  · exact ⟨_, by omega, rfl⟩
  · exact ⟨_, by omega, rfl⟩

private lemma length_utf8_hexDigit : ∀ n < 16, (String.utf8EncodeChar (hexDigit n)).length = 1 := by decide

lemma length_utf8_hexText (bytes : Bytes) : (utf8 (hexText bytes)).length = 2 * bytes.length := by
  unfold utf8 hexText
  rw [String.toList_ofList]
  induction bytes with
  | nil => rfl
  | cons b bytes ih =>
    have hlt : b.toNat < 256 := b.toNat_lt
    have hhigh := length_utf8_hexDigit (b.toNat / 16) (by omega)
    have hlow := length_utf8_hexDigit (b.toNat % 16) (by omega)
    simp only [flatMap_cons, cons_append, nil_append, length_append, hhigh, hlow, ih,
      length_cons]
    omega

def lengthBytes (n : Nat) : Bytes := (List.range 8).map fun i => UInt8.ofNat (n >>> (8 * i))

/-- Lengths of 64 bits are told apart by their bytes. -/
lemma lengthBytes_inj {m n : Nat} (hm : m < UInt64.size) (hn : n < UInt64.size)
    (h : lengthBytes m = lengthBytes n) : m = n := by
  have hbyte : ∀ i < 8, m / 2 ^ (8 * i) % 256 = n / 2 ^ (8 * i) % 256 := by
    intro i hi
    have hget := congrArg (fun bytes : Bytes => bytes[i]?.map UInt8.toNat) h
    simp only [lengthBytes, getElem?_map, getElem?_range hi, map_some, some.injEq,
      UInt8.toNat_ofNat', Nat.shiftRight_eq_div_pow] at hget
    exact hget
  have h0 := hbyte 0 (by omega)
  have h1 := hbyte 1 (by omega)
  have h2 := hbyte 2 (by omega)
  have h3 := hbyte 3 (by omega)
  have h4 := hbyte 4 (by omega)
  have h5 := hbyte 5 (by omega)
  have h6 := hbyte 6 (by omega)
  have h7 := hbyte 7 (by omega)
  simp only [Nat.reduceMul, Nat.reducePow, UInt64.size] at hm hn h0 h1 h2 h3 h4 h5 h6 h7
  omega

/-- What is written behind its length is split off in one way only. -/
lemma sized_append_inj {a b xs ys : Bytes} (ha : a.length < UInt64.size) (hb : b.length < UInt64.size)
    (h : lengthBytes a.length ++ (a ++ xs) = lengthBytes b.length ++ (b ++ ys)) : a = b ∧ xs = ys := by
  obtain ⟨hlength, hrest⟩ := append_inj h (by simp [lengthBytes])
  exact append_inj hrest (lengthBytes_inj ha hb hlength)

def framed (text : String) : Bytes := lengthBytes (utf8 text).length ++ utf8 text

/-- Unicode `White_Space`, which trimming drops. -/
def isWhitespace (c : Char) : Bool :=
  let n := c.toNat
  (0x9 ≤ n && n ≤ 0xd) || (0x2000 ≤ n && n ≤ 0x200a) ||
    [0x20, 0x85, 0xa0, 0x1680, 0x2028, 0x2029, 0x202f, 0x205f, 0x3000].contains n

def trim (text : List Char) : List Char :=
  ((text.dropWhile isWhitespace).reverse.dropWhile isWhitespace).reverse

def isBlank (text : String) : Bool := text.toList.all isWhitespace

end OpampFleet.Core
