import OpampFleet.Core.Text
import OpampFleet.Lib.LexicalPath

/-!
# The file a Host is kept in

`host_file_stem` of the Server's `fs/revocation.rs`. The first character of what a byte is written as says how much
belongs to it, so a stem is read back byte by byte, whichever of them are escaped.
-/

namespace OpampFleet.Server

open Lib Core List

variable (i : Nat) (byte : UInt8) (bytes : Bytes)

def isPlain : Bool :=
  let c := Char.ofNat byte.toNat
  c.isAlphanum || c = '-' || c = '_' || c = '.' && 0 < i

def escaped : List Char :=
  '%' :: [byte.toNat / 16, byte.toNat % 16].map ("0123456789ABCDEF".toList.getD · '0')

def stemByte : List Char := if isPlain i byte then [Char.ofNat byte.toNat] else escaped byte

def stemFrom : List Char := (bytes.zipIdx i).flatMap fun (byte, i) => stemByte i byte

def hostFileStem (host : String) : String := String.ofList (stemFrom 0 (utf8 host))

def isStemChar (c : Char) : Bool := c.isAlphanum || c ∈ ['.', '_', '-', '%']

def readStem (text : List Char) : UInt8 :=
  (hexBytes text.tail).elim 0 fun bytes => bytes.headD (UInt8.ofNat (text.headD '%').toNat)

abbrev StemOf (first : Bool) (byte : UInt8) (text : List Char) : Prop :=
  text.length = (if text.head? = some '%' then 3 else 1) ∧ readStem text = byte ∧ text.all isStemChar = true ∧
    (first = true → text.head? ≠ some '.')

private lemma stemOf_stemByte : StemOf (i = 0) byte (stemByte i byte) := by
  have hbytes : ∀ first : Bool, ∀ n < 256,
      StemOf first (UInt8.ofNat n) (stemByte (if first then 0 else 1) (UInt8.ofNat n)) := by
    decide +kernel
  -- a position matters only by being the first
  have hpos : stemByte i byte = stemByte (if decide (i = 0) then 0 else 1) byte := by
    cases i <;> simp [stemByte, isPlain]
  have hbyte := hbytes (i = 0) byte.toNat byte.toNat_lt
  rwa [UInt8.ofNat_toNat, ← hpos] at hbyte

private lemma stemFrom_cons : stemFrom i (byte :: bytes) = stemByte i byte ++ stemFrom (i + 1) bytes := by
  rw [stemFrom, zipIdx_cons, flatMap_cons]
  rfl

private lemma stemByte_ne_nil : stemByte i byte ≠ [] := by
  intro hnil
  have hlength := (stemOf_stemByte i byte).1
  simp [hnil] at hlength

private lemma head?_stemFrom : (stemFrom i (byte :: bytes)).head? = (stemByte i byte).head? := by
  rw [stemFrom_cons, head?_append_of_ne_nil _ (stemByte_ne_nil i byte)]

private lemma stemFrom_injective : Function.Injective (stemFrom i) := by
  intro xs ys h
  induction xs generalizing i ys with
  | nil =>
    cases ys with
    | nil => rfl
    | cons y ys =>
      rw [stemFrom_cons] at h
      exact absurd (append_eq_nil_iff.mp h.symm).1 (stemByte_ne_nil i y)
  | cons x xs ih =>
    cases ys with
    | nil =>
      rw [stemFrom_cons] at h
      exact absurd (append_eq_nil_iff.mp h).1 (stemByte_ne_nil i x)
    | cons y ys =>
      have hhead := congrArg List.head? h
      rw [head?_stemFrom, head?_stemFrom] at hhead
      obtain ⟨hx, hreadx, -⟩ := stemOf_stemByte i x
      obtain ⟨hy, hready, -⟩ := stemOf_stemByte i y
      rw [stemFrom_cons, stemFrom_cons] at h
      obtain ⟨hbyte, hrest⟩ := append_inj h (by rw [hx, hy, hhead])
      rw [← hreadx, hbyte, hready, ih (i + 1) hrest]

private lemma all_stemFrom : (stemFrom i bytes).all isStemChar = true := by
  induction bytes generalizing i with
  | nil => rfl
  | cons byte bytes ih =>
    rw [stemFrom_cons, all_append, ih, Bool.and_true]
    exact (stemOf_stemByte i byte).2.2.1

/-- Two Hosts never share a file, and none is kept outside the directory of the Hosts. -/
theorem hostFileStem_safe : Function.Injective hostFileStem ∧ hostFileStem "" = "" ∧ ∀ host,
    (hostFileStem host).toList.all isStemChar = true ∧ (host ≠ "" →
      Component.Proper '/' (hostFileStem host).toList ∧ (hostFileStem host).toList.head? ≠ some '.') := by
  refine ⟨fun host other h => ?_, rfl, fun host => ?_⟩
  · exact utf8_injective (stemFrom_injective 0 (String.ofList_injective h))
  rw [hostFileStem, String.toList_ofList]
  have hchars := all_stemFrom 0 (utf8 host)
  refine ⟨hchars, fun hne => ?_⟩
  cases hbytes : utf8 host with
  | nil => exact absurd (utf8_injective hbytes) hne
  | cons byte bytes =>
    have hshown : (stemFrom 0 (byte :: bytes)).head? ≠ some '.' := by
      rw [head?_stemFrom]
      exact (stemOf_stemByte 0 byte).2.2.2 rfl
    rw [hbytes] at hchars
    have hsep : '/' ∉ stemFrom 0 (byte :: bytes) := fun hmem => by cases List.all_eq_true.mp hchars _ hmem
    have hdot : ∀ rest, stemFrom 0 (byte :: bytes) ≠ '.' :: rest := fun rest heq => hshown (by rw [heq]; rfl)
    refine ⟨⟨?_, hdot _, hsep⟩, hshown⟩
    have hnil : stemFrom 0 (byte :: bytes) ≠ [] := by
      rw [stemFrom_cons]
      exact append_ne_nil_of_left_ne_nil (stemByte_ne_nil 0 byte) _
    simp [Component.isCurrent, hdot, hnil]

end OpampFleet.Server
