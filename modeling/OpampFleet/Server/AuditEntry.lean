import OpampFleet.Core.Text
import OpampFleet.Lib.Json

/-!
# Entries of the audit record

The model of the Server's `audit.rs`, what a security decision records, and of `render` and `line_hash` of
`audit_log.rs`, the line it is written as and the hash the next line carries. How a time is written is a parameter, and
so is the hash.
-/

namespace OpampFleet.Server.Audit

open Lib Map

inductive Field where
  | text (s : String)
  | unsigned (n : Nat)
  | signed (n : Int)
  deriving DecidableEq

def maxText : Nat := 256

def takeBytes : Nat → List Char → List Char
  | _, [] => []
  | room, c :: text =>
    let size := (String.utf8EncodeChar c).length
    if size ≤ room then c :: takeBytes (room - size) text else []

def bounded (text : String) : String :=
  if (Core.utf8 text).length ≤ maxText then text else String.ofList (takeBytes maxText text.toList) ++ "…"

def reserved : List String := ["seq", "time", "event", "outcome", "prev"]

lemma chain_free : "chain" ∉ reserved := by decide

lemma reason_free : "reason" ∉ reserved := by decide

structure Entry where
  event : String
  outcome : String
  fields : Map String Field
  /-- No caller names a field like one of those every line has. -/
  free : ∀ key ∈ reserved, fields.lookup key = none

namespace Entry

def new (event outcome : String) : Entry := ⟨event, outcome, ∅, fun _ _ => rfl⟩

def insert (entry : Entry) (key : String) (value : Field) (h : key ∉ reserved) : Entry where
  event := entry.event
  outcome := entry.outcome
  fields := entry.fields.insert key value
  free := by
    intro other hother
    have hne : other ≠ key := by
      rintro rfl
      exact h hother
    rw [lookup_insert_ite, if_neg hne]
    exact entry.free other hother

def withText (entry : Entry) (key text : String) (h : key ∉ reserved) :
    Entry := entry.insert key (.text (bounded text)) h

lemma lookup_insert (entry : Entry) (key : String) (value : Field) (h : key ∉ reserved) (other : String) :
    (entry.insert key value h).fields.lookup other = if other = key then some value else entry.fields.lookup other :=
  lookup_insert_ite entry.fields other key value

lemma lookup_withText (entry : Entry) (key text : String) (h : key ∉ reserved) (other : String) :
    (entry.withText key text h).fields.lookup other =
      if other = key then some (.text (bounded text)) else entry.fields.lookup other :=
        lookup_insert entry key _ h other

def isRefusal (entry : Entry) : Bool := entry.outcome = "refused" || entry.outcome = "throttled"

end Entry

def Field.value : Field → Json.Scalar
  | .text s => .text s
  | .unsigned n => .int n
  | .signed n => .int n

def genesis : String := String.ofList (List.replicate 64 '0')

section Model

variable (sha256 : Bytes → Bytes) (rfc3339 : Nat → String)

def lineHash (line : String) : String := Core.hexText (sha256 (Core.utf8 line))

/-- The object an entry is written as: its fields come over `seq`, `time`, `event` and `outcome`, and `prev` over all.
-/
def object (seq timeMs : Nat) (entry : Entry) (prev : String) : Json.Object :=
  let line := ((((∅ : Json.Object).insert "seq" (.int seq)).insert "time" (.text (rfc3339 timeMs))).insert "event"
    (.text entry.event)).insert "outcome" (.text entry.outcome)
  let line := entry.fields.entries.foldl (fun line field => line.insert field.1 field.2.value) line
  line.insert "prev" (.text prev)

def render (seq timeMs : Nat) (entry : Entry) (prev : String) :
    String := Json.write (object rfc3339 seq timeMs entry prev)

end Model

variable {sha256 : Bytes → Bytes} {rfc3339 : Nat → String}

lemma lineHash_injective (h : Function.Injective sha256) : Function.Injective (lineHash sha256) :=
  Core.hexText_injective.comp (h.comp Core.utf8_injective)

lemma bounded_of_le {text : String} (h : (Core.utf8 text).length ≤ maxText) : bounded text = text := if_pos h

/-- A hash is short enough to stand as it is. -/
lemma bounded_lineHash (hsize : ∀ bytes, (sha256 bytes).length = 32) (line : String) :
    bounded (lineHash sha256 line) = lineHash sha256 line := by
  apply bounded_of_le
  rw [lineHash, Core.length_utf8_hexText, hsize]
  decide

variable (seq timeMs : Nat) (entry : Entry) (prev : String)

private lemma lookup_object {key : String} (hprev : key ≠ "prev") : (object rfc3339 seq timeMs entry prev).lookup key =
      ((entry.fields.lookup key).map Field.value).or
        (if key = "outcome" then some (.text entry.outcome)
        else if key = "event" then some (.text entry.event)
        else if key = "time" then some (.text (rfc3339 timeMs))
        else if key = "seq" then some (.int seq)
        else none) := by
  simp only [object]
  rw [lookup_insert_ite, if_neg hprev, lookup_foldl_entries]
  simp only [lookup_insert_ite, AList.lookup_empty]

@[simp] lemma object_prev : (object rfc3339 seq timeMs entry prev).view.str "prev" = some prev := by
  simp [Json.Object.view, object, Json.Scalar.asStr]

lemma object_seq : (object rfc3339 seq timeMs entry prev).view.u64 "seq" = some seq := by
  have hfree := entry.free "seq" (by decide)
  simp [Json.Object.view, lookup_object seq timeMs entry prev (show "seq" ≠ "prev" by decide), hfree, Json.Scalar.asU64]

lemma object_event : (object rfc3339 seq timeMs entry prev).view.str "event" = some entry.event := by
  have hfree := entry.free "event" (by decide)
  simp [Json.Object.view, lookup_object seq timeMs entry prev (show "event" ≠ "prev" by decide), hfree,
    Json.Scalar.asStr]

/-- A text of the entry is read off the object. -/
lemma object_text {key text : String} (hprev : key ≠ "prev") (h : entry.fields.lookup key = some (.text text)) :
    (object rfc3339 seq timeMs entry prev).view.str key = some text := by
  simp [Json.Object.view, lookup_object seq timeMs entry prev hprev, h, Field.value, Json.Scalar.asStr]

end OpampFleet.Server.Audit
