import OpampFleet.Core.Package
import OpampFleet.Core.Precedence

/-!
# What keeps signatures apart

The statements of the renewal and bootstrap proofs, `renewal.rs` and `bootstrap_proof.rs`, beside those of packages and
floors: each is told from every other by its bytes.
-/

namespace OpampFleet.Core

open Lib List

def statementOf (label : String) (newKeySha256 : Bytes) : Bytes :=
  let hex := hexText newKeySha256
  s!"{label}\n{hex}\n".toUTF8.toList

inductive Signed where
  | package (agentType version : String) (contentHash : Bytes)
  | floor (agentType version : String)
  | renewal (newKeySha256 : Bytes)
  | bootstrap (newKeySha256 : Bytes)

namespace Signed

def statement : Signed → Bytes
  | package agentType version contentHash => Core.statement agentType version contentHash
  | floor agentType version => floorStatement agentType version
  | renewal newKeySha256 => statementOf "opamp-fleet-renewal-v1" newKeySha256
  | bootstrap newKeySha256 => statementOf "opamp-fleet-bootstrap-v1" newKeySha256

def Valid : Signed → Prop
  | package agentType version contentHash =>
    '\n' ∉ agentType.toList ∧ Version.isSemver version = true ∧ contentHash.length = 32
  | floor agentType version => '\n' ∉ agentType.toList ∧ Version.isSemver version = true
  | renewal newKeySha256 | bootstrap newKeySha256 => newKeySha256.length = 32

def lines : Signed → List String
  | package agentType version contentHash => ["opamp-fleet-package-v1", agentType, version, hexText contentHash]
  | floor agentType version => ["opamp-fleet-floor-v1", agentType, version]
  | renewal newKeySha256 => ["opamp-fleet-renewal-v1", hexText newKeySha256]
  | bootstrap newKeySha256 => ["opamp-fleet-bootstrap-v1", hexText newKeySha256]

private lemma lines_injective : Function.Injective lines := by
  intro a b h
  cases a <;> cases b <;> simp_all [lines, hexText_injective.eq_iff]

private lemma statement_eq (signed : Signed) :
    signed.statement = (String.ofList (unlines '\n' (signed.lines.map String.toList))).toUTF8.toList := by
  have hbytes {text : String} {chars : List Char} (h : text.toList = chars) :
      text.toUTF8.toList = (String.ofList chars).toUTF8.toList := by
    rw [← h, String.ofList_toList]
  cases signed <;> exact hbytes (by simp [lines, unlines, toString])

private lemma newline_not_mem_hexText (bytes : Bytes) : '\n' ∉ (hexText bytes).toList := by
  have hdigit : ∀ n < 16, hexDigit n ≠ '\n' := by decide
  intro h
  obtain ⟨n, hn, heq⟩ := mem_hexText h
  exact hdigit n hn heq.symm

private lemma newline_not_mem_lines {signed : Signed} (h : signed.Valid) :
    ∀ line ∈ signed.lines.map String.toList, '\n' ∉ line := by
  have hversion {version : String} (h : Version.isSemver version = true) : '\n' ∉ version.toList :=
    fun hmem => absurd (Version.isVersionChar_of_isSemver h _ hmem) (by decide)
  cases signed <;> simp_all [lines, Valid, newline_not_mem_hexText]

private lemma loop_toList (bytes : ByteArray) (i : Nat) (read : Bytes) :
    ByteArray.toList.loop bytes i read = read.reverse ++ bytes.data.toList.drop i := by
  fun_induction ByteArray.toList.loop bytes i read with
  | case1 i read hlt ih =>
    have hlt' : i < bytes.data.toList.length := hlt
    have hget : bytes.get! i = bytes.data.toList[i] := getElem!_pos bytes.data i hlt
    rw [ih, hget, reverse_cons, append_assoc, drop_eq_getElem_cons hlt', singleton_append]
  | case2 i read hlt =>
    have hle : bytes.data.toList.length ≤ i := Nat.le_of_not_lt hlt
    rw [drop_eq_nil_of_le hle, append_nil]

private lemma toUTF8_toList_inj {text text' : String} (h : text.toUTF8.toList = text'.toUTF8.toList) :
    text = text' := by
  rw [ByteArray.toList, ByteArray.toList, loop_toList, loop_toList] at h
  exact String.toByteArray_inj.mp (ByteArray.ext (Array.toList_inj.mp h))

/-- A statement says which of the four it is and everything it was made from. -/
theorem eq_of_statement_eq {a b : Signed} (ha : a.Valid) (hb : b.Valid) (h : a.statement = b.statement) : a = b := by
  rw [statement_eq, statement_eq] at h
  have hchars := String.ofList_injective (toUTF8_toList_inj h)
  have hsplit := congrArg (List.splitOn '\n' <| · ++ []) hchars
  simp only [splitOn_unlines (newline_not_mem_lines ha) not_mem_nil,
    splitOn_unlines (newline_not_mem_lines hb) not_mem_nil] at hsplit
  have hlines := List.map_inj_right (fun _ _ => String.toList_inj.mp) |>.mp (append_cancel_right hsplit)
  exact lines_injective hlines

/-- The statements of a package and of a floor at one version differ. -/
theorem eq_of_statement_eq_otelcol :
    (package "otelcol" "1.2.0" (List.replicate 32 7)).statement ≠ (floor "otelcol" "1.2.0").statement :=
  fun h => nomatch eq_of_statement_eq (by exact ⟨by decide, by decide, rfl⟩) (by exact ⟨by decide, by decide⟩) h

end Signed

end OpampFleet.Core
