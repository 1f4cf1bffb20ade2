import OpampFleet.Core.Package
import OpampFleet.Gateway.Policy
import OpampFleet.Lib.Lines

/-!
# Where a Gateway keeps its bindings

The model of the Gateway's `store.rs`: the line of a change, the reading of the file, and the journal that appends to
it and rewrites it. How each file operation ends comes with the call. The file is always the Client's own, with its
mode, and no link.
-/

namespace OpampFleet.Gateway

open Lib Opamp
open Core (hexValue hexBytes)

def format : String := "opamp-fleet-gateway-bindings"

def version : String := "1"

def maxLine : Nat := 512

def maxBytes : Nat := 512 <<< 20

def header : String := format ++ " " ++ version

def isGraphic (b : UInt8) : Bool := 33 ≤ b && b ≤ 126

def upperHexDigit (n : Nat) : Char := "0123456789ABCDEF".toList.getD n '0'

def encodeByte (b : UInt8) : List Char :=
  if isGraphic b && b != 37 then [Char.ofNat b.toNat]
  else ['%', upperHexDigit (b.toNat / 16), upperHexDigit (b.toNat % 16)]

def encode (host : String) : List Char := (Core.utf8 host).flatMap encodeByte

/-- `u8::from_str_radix` on two characters, which takes a plus sign. -/
def fromStrRadix (high low : Char) : Option UInt8 :=
  if high = '+' then (hexValue low).map UInt8.ofNat
  else (hexValue high).bind fun h => (hexValue low).map fun l => UInt8.ofNat (16 * h + l)

def decodeBytes : List Char → Option Bytes
  | [] => some []
  | '%' :: high :: low :: rest =>
    (fromStrRadix high low).bind fun b => if isGraphic b && b != 37 then none else (decodeBytes rest).map (b :: ·)
  | c :: rest => if 33 ≤ c.toNat && c.toNat ≤ 126 && c != '%' then (decodeBytes rest).map
    (UInt8.ofNat c.toNat :: ·) else none

def decode (field : List Char) : Option String := (decodeBytes field).bind Core.fromUtf8

def uidText (uid : InstanceUid) : List Char :=
  let hex := (Core.hexText uid.bytes).toList
  hex.take 8 ++ '-' :: (hex.drop 8).take 4 ++ '-' :: (hex.drop 12).take 4 ++ '-' :: (hex.drop 16).take 4 ++
    '-' :: hex.drop 20

/-- The `instance_uid` a field is the UUID form of; any other spelling of a UUID is dropped here. -/
def parseUid (field : List Char) : Option InstanceUid :=
  (((hexBytes (field.filter (· ≠ '-'))).bind InstanceUid.fromWire).filter fun uid => uidText uid = field)

def intText (n : Int) : List Char := if n < 0 then '-' :: Nat.toDigits 10 n.natAbs else Nat.toDigits 10 n.natAbs

def parseDigits (field : List Char) : Option Nat :=
  if field.isEmpty || !field.all Char.isDigit then none else some (Nat.ofDigitChars 10 field 0)

def parseI64 : List Char → Option Int
  | '-' :: digits => ((parseDigits digits).filter (· ≤ 2 ^ 63)).map fun n : Nat => -(n : Int)
  | '+' :: digits => ((parseDigits digits).filter (· < 2 ^ 63)).map fun n : Nat => (n : Int)
  | digits => ((parseDigits digits).filter (· < 2 ^ 63)).map fun n : Nat => (n : Int)

def fieldsOf : Change → List (List Char)
  | .bound uid host => [['b'], uidText uid, encode host]
  | .unbound uid => [['u'], uidText uid]
  | .reported uid => [['r'], uidText uid]
  | .ends host fin => [['h'], encode host, intText fin.notAfter, fin.issuer.toList, fin.serial.toList]

def line (change : Change) : Option String :=
  let text := String.ofList ([' '].intercalate (fieldsOf change))
  if (Core.utf8 text).length ≤ maxLine then some text else none

def parseEnds (host notAfter issuer serial : List Char) : Option Change :=
  match parseI64 notAfter with
  | none => none
  | some parsed =>
    if h : (-2 ^ 63 ≤ parsed ∧ parsed < 2 ^ 63) ∧ intText parsed = notAfter ∧
        isHex (String.ofList issuer).toList (some 64) = true ∧ isSerial (String.ofList serial).toList = true then
      (decode host).map fun host =>
        .ends host ⟨parsed, String.ofList issuer, String.ofList serial, h.1, h.2.2.1, h.2.2.2⟩
    else none

def parse (line : String) : Option Change :=
  match line.toList.splitOn ' ' with
  | [['b'], uid, host] => (parseUid uid).bind fun uid => (decode host).map fun host => .bound uid host
  | [['u'], uid] => (parseUid uid).map .unbound
  | [['r'], uid] => (parseUid uid).map .reported
  | [['h'], host, notAfter, issuer, serial] => parseEnds host notAfter issuer serial
  | _ => none

def lines (changes : List Change) : Option Bytes :=
  (changes.mapM line).map fun lines => unlines 10 (lines.map Core.utf8)

def headless : String := "it does not begin with the line naming its format"

def checkHeader (text : Option String) : Except String Unit :=
  match text.map fun text => text.toList.span (· ≠ ' ') with
  | some (name, ' ' :: number) =>
    if name ≠ format.toList then .error headless
    else if number = version.toList then .ok ()
    else
      let number := String.ofList number
      .error s!"it is version {number} of its format, which this build does not read"
  | _ => .error headless

/-- The changes of the lines after the first; a last line without its newline is a write that was cut off. -/
def loadChanges (number : Nat) : List Bytes → Except String (List Change)
  | [] => .ok []
  | [tail] => if maxLine < tail.length then .error s!"line {number} is longer than {maxLine} bytes" else .ok []
  | text :: rest =>
    if maxLine < text.length then .error s!"line {number} is longer than {maxLine} bytes"
    else
      match (Core.fromUtf8 text).bind parse with
      | none => .error s!"line {number} cannot be parsed"
      | some change => (loadChanges (number + 1) rest).map (change :: ·)

def loadLines : List Bytes → Except String (List Change)
  | [] => .error headless
  | [tail] => if maxLine < tail.length then .error s!"line 1 is longer than {maxLine} bytes" else .error headless
  | first :: rest =>
    if maxLine < first.length then .error s!"line 1 is longer than {maxLine} bytes"
    else
      match checkHeader (Core.fromUtf8 first) with
      | .error e => .error e
      | .ok () => loadChanges 2 rest

def load : Option Bytes → Except String (List Change)
  | none => .ok []
  | some file =>
    if maxBytes < file.length then
      let held := file.length
      .error s!"it holds {held} bytes, more than its bound of {maxBytes}"
    else loadLines (file.splitOn 10)

structure Journal where
  opened : Bool
  len : Nat
  lines : Nat
  reports : Nat
  /-- What the file holds may not be what `len` says: nothing is appended until the store is rewritten whole. -/
  damaged : Bool

inductive AppendIo where
  | synced
  | cutBack
  | torn (n : Nat)

/-- How a rewrite ends: in place and open, with the old file still in place and opened again or not, or with the new
file in place and a failure after. -/
inductive RewriteIo where
  | replaced
  | notRenamed (reopened : Bool)
  | notSynced
  deriving DecidableEq

def reportCount (changes : List Change) : Nat :=
  changes.countP fun
    | .reported _ => true
    | _ => false

namespace Journal

def writeAt (file : Option Bytes) (offset : Nat) (bytes : Bytes) : Option Bytes :=
  file.map fun file => file.take offset ++ bytes

def append (journal : Journal) (io : AppendIo) (file : Option Bytes) (changes : List Change) :
    Option Bytes × Journal × Bool :=
  if journal.damaged || !journal.opened then (file, journal, false)
  else
    match Gateway.lines changes with
    | none => (file, journal, false)
    | some bytes =>
      if maxBytes < journal.len + bytes.length then (file, journal, false)
      else
        match io with
        | .synced =>
          (writeAt file journal.len bytes,
            { journal with
              len := journal.len + bytes.length
              reports := journal.reports + reportCount changes
              lines := journal.lines + (changes.length - reportCount changes) }, true)
        | .cutBack => (writeAt file journal.len [], journal, false)
        | .torn n => (writeAt file journal.len (bytes.take n), { journal with damaged := true }, false)

def compact (journal : Journal) (io : RewriteIo) (file : Option Bytes) (changes : List Change) :
    Option Bytes × Journal × Bool :=
  match Gateway.lines changes with
  | none => (file, journal, false)
  | some bytes =>
    let bytes := Core.utf8 header ++ 10 :: bytes
    if maxBytes < bytes.length then (file, journal, false)
    else
      let written : Journal :=
        { opened := false
          len := bytes.length
          reports := reportCount changes
          lines := changes.length - reportCount changes
          damaged := true }
      match io with
      | .notRenamed reopened =>
        (file, { journal with opened := reopened, damaged := journal.damaged || !reopened }, false)
      | .notSynced => (some bytes, written, false)
      | .replaced => (some bytes, { written with opened := true, damaged := false }, true)

def unwritten : Journal := ⟨false, 0, 0, 0, true⟩

end Journal

end OpampFleet.Gateway
