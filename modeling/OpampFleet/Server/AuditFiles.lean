import OpampFleet.Lib.Transition
import OpampFleet.Lib.Utf8
import OpampFleet.Server.AuditLog
import OpampFleet.Server.AuditVerify

/-!
# The audit record on the filesystem

The model of the Server's `fs/audit.rs`, the store of one chain in files that rotate by size, and of the writer over it
from one start to the next. How each append and each rotation ends is told to the store beforehand, a crash in the
middle of one among the ends: the process is gone then, and what is left of it changes nothing on disk.
-/

namespace OpampFleet.Server.Audit

open Lib List

structure Dir where
  files : List (Nat × Bytes)
  ordered : files.Pairwise fun file later => file.1 < later.1

def putFile (name : Nat) (bytes : Bytes) : List (Nat × Bytes) → List (Nat × Bytes)
  | [] => [(name, bytes)]
  | file :: files =>
    if name < file.1 then (name, bytes) :: file :: files
    else if name = file.1 then (name, bytes) :: files
    else file :: putFile name bytes files

private lemma putFile_names {name : Nat} {bytes : Bytes} {files : List (Nat × Bytes)} {file : Nat × Bytes}
    (h : file ∈ putFile name bytes files) : file = (name, bytes) ∨ file ∈ files := by
  induction files with
  | nil => exact .inl (mem_singleton.mp h)
  | cons first files ih =>
    unfold putFile at h
    split_ifs at h
    · exact (mem_cons.mp h)
    · rcases mem_cons.mp h with hnew | hold
      · exact .inl hnew
      · exact .inr (mem_cons_of_mem _ hold)
    · rcases mem_cons.mp h with hfirst | hrest
      · exact .inr (hfirst ▸ mem_cons_self)
      · exact (ih hrest).imp_right (mem_cons_of_mem _)

private lemma putFile_ordered (name : Nat) (bytes : Bytes) {files : List (Nat × Bytes)}
    (h : files.Pairwise fun file later => file.1 < later.1) :
    (putFile name bytes files).Pairwise fun file later => file.1 < later.1 := by
  induction files with
  | nil => exact pairwise_singleton _ _
  | cons first files ih =>
    obtain ⟨hfirst, hrest⟩ := pairwise_cons.mp h
    unfold putFile
    split_ifs with hlt heq
    · refine pairwise_cons.mpr ⟨?_, h⟩
      intro file hfile
      rcases mem_cons.mp hfile with rfl | hfile
      · exact hlt
      · exact Nat.lt_trans hlt (hfirst file hfile)
    · refine pairwise_cons.mpr ⟨?_, hrest⟩
      intro file hfile
      rw [heq]
      exact hfirst file hfile
    · refine pairwise_cons.mpr ⟨?_, ih hrest⟩
      intro file hfile
      rcases putFile_names hfile with rfl | hfile
      · show first.1 < name
        omega
      · exact hfirst file hfile

namespace Dir

def empty : Dir := ⟨[], List.Pairwise.nil⟩

def put (dir : Dir) (name : Nat) (bytes : Bytes) :
    Dir := ⟨putFile name bytes dir.files, putFile_ordered name bytes dir.ordered⟩

def find (dir : Dir) (name : Nat) : Option Bytes := (dir.files.find? (·.1 = name)).map Prod.snd

def create (dir : Dir) (name : Nat) : Dir := dir.put name ((dir.find name).getD [])

def deleteOldest (dir : Dir) (n : Nat) : Dir := ⟨dir.files.drop n, dir.ordered.sublist (drop_sublist n dir.files)⟩

end Dir

def newline : UInt8 := 10

def endsWithNewline (bytes : Bytes) : Bool := bytes.getLast? = some newline

def lastChunk (bytes : Bytes) : Bytes := bytes.drop (bytes.length - 1024 * 1024)

def stripSuffix (c : Char) (line : List Char) : List Char := if line.getLast? = some c then line.dropLast else line

def textLines (text : List Char) : List (List Char) :=
  let pieces := text.splitOn '\n'
  pieces.dropLast.map (stripSuffix '\r') ++ pieces.getLast?.toList

section Reading

variable (sha256 : Bytes → Bytes) (read : String → Except String JsonView) (part : Bytes → Bytes)

def tailLines (bytes : Bytes) : List String :=
  ((textLines (Utf8.lossy (part bytes))).map String.ofList).filter fun line => !Core.isBlank line

def seqOf (line : String) : Option Nat := (read line).toOption.bind (·.u64 "seq")

def wholeIn (lines : List String) : Option String :=
  (lines.reverse.find? fun line => (seqOf read line).isSome).map (lineHash sha256)

def lastWholeIn (part : Bytes → Bytes) : List (Nat × Bytes) → Option String
  | [] => none
  | file :: earlier => (wholeIn sha256 read (tailLines part file.2)).or (lastWholeIn part earlier)

/-- The highest `seq` near the end of a file; one whose tail holds no whole entry counts on from its name. -/
def lastSeqIn (file : Nat × Bytes) : Nat :=
  ((tailLines part file.2).filterMap (seqOf read)).max?.getD (file.1 - 1 + (tailLines part file.2).length)

def tailFrom (part : Bytes → Bytes) : List (Nat × Bytes) → Option Tail
  | [] => none
  | file :: earlier =>
    match (tailLines part file.2).getLast? with
    | none => tailFrom part earlier
    | some lastLine =>
      let torn := (seqOf read lastLine).isNone || !endsWithNewline file.2
      some
        { lastLine := lastLine
          lastSeq := lastSeqIn read part file
          torn := torn
          lastWhole := if torn then lastWholeIn sha256 read part (file :: earlier) else none }

def tailIn (dir : Dir) : Option Tail := tailFrom sha256 read part dir.files.reverse

def fileName (name : Nat) : String := s!"audit-{name}.jsonl"

/-- A line read as bytes: one that ends in an incomplete character, as a torn piece does, in the lossy way. -/
def readLine (place : String) (line : Bytes) : Except String String :=
  let line := if line.getLast? = some 13 then line.dropLast else line
  match Utf8.strict line with
  | .ok text => .ok (String.ofList text)
  | .error ⟨_, true⟩ => .ok (String.ofList (Utf8.lossy line))
  | .error ⟨validUpTo, false⟩ =>
    .error s!"{place}: not UTF-8 at byte {validUpTo}, and not a character a crash cut short"

def readFile (file : Nat × Bytes) : Except String (List (String × String)) := do
  let lines ← (file.2.splitOn newline).zipIdx.mapM fun (line, index) =>
    let place := s!"{fileName file.1}:{index + 1}"
    (readLine place line).map fun text => (place, text)
  pure (lines.filter fun line => !Core.isBlank line.2)

def readLines (files : List (Nat × Bytes)) : Except String (List (String × String)) := do
  let lines ← files.mapM readFile
  pure lines.flatten

def verifyIn (dir : Dir) : Except String Held := do
  let lines ← readLines dir.files
  verify sha256 read lines

end Reading

inductive AppendIo where
  | written
  /-- The file could not be opened; `made` when a new one was left behind. -/
  | unopened (made : Bool)
  | failed
  /-- A crash: before the file was opened, or with so many of the bytes in it. -/
  | crashed (bytes : Option Nat)
  deriving DecidableEq

/-- How a rotation ends: with every file past the limit deleted, or after so many of them. -/
inductive RotateIo where
  | rotated
  | stopped (deleted : Nat)
  | failed (deleted : Nat)
  | crashed (deleted : Nat)
  deriving DecidableEq

structure FsStore where
  dir : Dir
  current : Option (Nat × Nat)
  /-- How the calls to come end; well, once nothing more is told. -/
  appends : List AppendIo
  rotations : List RotateIo
  crashed : Bool

namespace FsStore

def opened (dir : Dir) : FsStore :=
  match dir.files.getLast? with
  | none => ⟨dir, none, [], [], false⟩
  | some (name, bytes) =>
    if bytes ≠ [] ∧ endsWithNewline bytes = false then
      ⟨dir.put name (bytes ++ [newline]), some (name, bytes.length + 1), [], [], false⟩
    else ⟨dir, some (name, bytes.length), [], [], false⟩

def appendBytes (lines : List String) : Bytes := lines.flatMap fun line => Core.utf8 line ++ [newline]

def append (s : FsStore) (seq : Nat) (lines : List String) : FsStore × Except String Unit :=
  if s.crashed then (s, .error "gone")
  else
    let io := s.appends.headD .written
    let s := { s with appends := s.appends.tail }
    let (name, size) := s.current.getD (seq, ((s.dir.find seq).getD []).length)
    let opened := { s with dir := s.dir.create name, current := some (name, size) }
    let held := (s.dir.find name).getD []
    match io with
    | .written =>
      ({ opened with
        dir := s.dir.put name (held ++ appendBytes lines)
        current := some (name, size + (appendBytes lines).length) }, .ok ())
    | .unopened made =>
      if s.current.isSome then (opened, .error "cannot append to the audit record")
      else (if made then { opened with current := none } else s, .error "cannot open the file")
    | .failed => ({ opened with dir := s.dir.put name (held.take size) }, .error "cannot append to the audit record")
    | .crashed none => ({ s with crashed := true }, .error "gone")
    | .crashed (some n) =>
      ({ opened with dir := s.dir.put name (held ++ (appendBytes lines).take n), crashed := true }, .error "gone")

def currentBytes (s : FsStore) : Nat := s.current.elim 0 Prod.snd

def told (dir : Dir) (n : Nat) : List (String × String) :=
  (dir.files.take n).map fun file => (fileName file.1, (tailLines lastChunk file.2).getLast?.getD "")

def rotate (s : FsStore) (keep : Nat) : FsStore × Except String (List (String × String)) :=
  if s.crashed then (s, .error "gone")
  else
    let io := s.rotations.headD .rotated
    let past := s.dir.files.length + 1 - max keep 1
    let left := fun n => { s with
      dir := s.dir.deleteOldest (min n past), current := none, rotations := s.rotations.tail }
    match io with
    | .rotated => (left past, .ok (told s.dir past))
    | .stopped n => (left n, .ok (told s.dir (min n past)))
    | .failed n => (left n, .error "cannot read the audit record")
    | .crashed n => ({ left n with crashed := true }, .error "gone")

def port (sha256 : Bytes → Bytes) (read : String → Except String JsonView) : AuditStore FsStore where
  chain s := (s, .one)
  close s _ _ := (s, .error "this record is one chain, which is never closed")
  stored s _ _ := (s, .ok [])
  tail s := (s, .ok (tailIn sha256 read lastChunk s.dir))
  append := append
  currentBytes := currentBytes
  rotate := rotate

end FsStore

/-- What the Server is given: a reader of JSON, the hash, how a time is written, how a peer is counted. The model counts
on where `overflow-checks` stops the Server at 64 bits. -/
structure Setting where
  reader : JsonReader
  sha256 : Bytes → Bytes
  sha256_size : ∀ bytes, (sha256 bytes).length = 32
  rfc3339 : Nat → String
  peerKey : String → String

def plainSetting : Setting where
  reader := .canonical
  sha256 _ := List.replicate 32 0
  sha256_size _ := rfl
  rfc3339 _ := ""
  peerKey := id

def Setting.tools (g : Setting) : Tools FsStore where
  port := FsStore.port g.sha256 g.reader.read
  sha256 := g.sha256
  sha256_size := g.sha256_size
  rfc3339 := g.rfc3339
  peerKey := g.peerKey

lemma Writer.commit_cases {g : Setting} {w : Writer FsStore} (hsingle : w.perLease = false) {line : Line}
    {rest : List Line} (hbatch : w.batch = line :: rest) :
    (∃ store, w.store.append line.seq (w.batch.map Line.text) = (store, .ok ()) ∧
      w.commit g.tools = { w with store := store }.landed) ∨
    (∃ store e, w.store.append line.seq (w.batch.map Line.text) = (store, .error e) ∧
      w.commit g.tools = { w with store := store }.failed line.seq) := by
  cases hstore : w.store.append line.seq (w.batch.map Line.text) with
  | mk store answer =>
    have hport : g.tools.port.append w.store line.seq (w.batch.map Line.text) = (store, answer) := hstore
    have hcommit : w.commit g.tools = match answer with
        | .ok () => { w with store := store }.landed
        | .error _ => { w with store := store }.failed line.seq := by
      unfold commit commitAs followChain
      simp only [hbatch] at hport
      simp only [hsingle, hbatch, isEmpty_cons, Bool.false_eq_true, if_false, Bool.not_false, if_true,
        handOver, hport]
      cases answer <;> rfl
    cases answer with
    | ok _ => exact .inl ⟨store, rfl, hcommit⟩
    | error e => exact .inr ⟨store, e, rfl, hcommit⟩

lemma Writer.commit_nil {g : Setting} {w : Writer FsStore} (hbatch : w.batch = []) : w.commit g.tools = w := by
  unfold commit commitAs
  rw [hbatch]
  rfl

structure StoreIo where
  appends : List AppendIo
  rotations : List RotateIo
  deriving DecidableEq

/-- How opening the store ends: well, or not, with the newline of a torn line written or not. -/
inductive OpenIo where
  | opened
  | failed (mended : Bool)
  deriving DecidableEq

inductive System where
  | down (dir : Dir) (written : Bool)
  /-- `given` decisions were given to record since the start, and `written` says whether an entry was written since the
  last crash. -/
  | up (writer : Writer FsStore) (given : Nat) (written : Bool)

inductive Act where
  | record (now : Nat) (decision : Decision)
  | ask (closing : Bool)
  | handle (now : Nat) (io : StoreIo)
  | commit (io : StoreIo)
  | tick (now : Nat) (io : StoreIo)
  | stop
  | crash
  | start (limits : Limits) (now : Nat) (opening : OpenIo) (io : StoreIo)

namespace System

def empty : System := .down .empty false

variable (g : Setting)

def armed (store : FsStore) (io : StoreIo) : FsStore := { store with appends := io.appends, rotations := io.rotations }

def after (w : Writer FsStore) (given : Nat) (written : Bool) : System :=
  if w.store.crashed then .down w.store.dir false else .up w given (written || !w.emitted.isEmpty)

def start (dir : Dir) (written : Bool) (limits : Limits) (now : Nat) (io : StoreIo) : System :=
  match Writer.start g.tools (armed (FsStore.opened dir) io) limits now with
  | .ok w => after w 0 written
  | .error _ => .down (FsStore.opened dir).dir written

def step : System → Act → Option System
  | .up w given written, .record now decision =>
    some (.up (w.record g.tools now decision.entry none).1 (given + 1) written)
  | .up w given written, .ask closing =>
    (w.trySend (if closing then .close else .drain)).map fun w => .up w given written
  | .up w given written, .handle now io =>
    match w.queue with
    | [] => none
    | message :: queue =>
      some (after ({ w with queue := queue, store := armed w.store io }.handleMessage g.tools now message)
        given written)
  | .up w given written, .commit io => some (after ({ w with store := armed w.store io }.commit g.tools) given written)
  | .up w given written, .tick now io =>
    some (after ({ w with store := armed w.store io }.tick g.tools now) given written)
  | .up w _ written, .stop => some (.down w.store.dir written)
  | .up w _ _, .crash => some (.down w.store.dir false)
  | .down dir written, .start limits now .opened io => some (start g dir written limits now io)
  | .down dir written, .start _ _ (.failed mended) _ =>
    some (.down (if mended then (FsStore.opened dir).dir else dir) written)
  | _, _ => none

end System

end OpampFleet.Server.Audit
