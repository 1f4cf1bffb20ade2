import OpampFleet.Server.AuditEntry

/-!
# The audit writer

The model of `AuditLog` and its `Writer` in the Server's `audit_log.rs`, over any store of the record. The handle that
decisions are recorded through and the writer task share the channel, the refusals counted and two flags; they are one
state here, and what one task does between two looks at the channel is one function of it. A call of the store hands
back the store's next state with its answer, so that how each call ends is up to the store.
-/

namespace OpampFleet.Server.Audit

open Lib List

def channelCapacity : Nat := 10000

def refusalsPerSecond : Nat := 10

def refusalShare : Nat := channelCapacity / 2

def writeBatch : Nat := 1024

def refusalKeys : Nat := channelCapacity

def u32Max : Nat := 2 ^ 32 - 1

def u64Max : Nat := 2 ^ 64 - 1

structure Tail where
  /-- The last line that is not blank, whatever it holds: the next entry chains to it. -/
  lastLine : String
  lastSeq : Nat
  torn : Bool
  lastWhole : Option String

instance : DecidableEq Tail := fun a b =>
  decidable_of_iff (a.lastLine = b.lastLine ∧ a.lastSeq = b.lastSeq ∧ a.torn = b.torn ∧ a.lastWhole = b.lastWhole)
    (by cases a; cases b; simp)

inductive Chain where
  | one
  | lease (id : String)
  | unleased
  deriving DecidableEq

structure AuditStore (σ : Type) where
  chain : σ → σ × Chain
  close : σ → Nat → List String → σ × Except String Unit
  stored : σ → String → Nat → σ × Except String (List String)
  tail : σ → σ × Except String (Option Tail)
  append : σ → Nat → List String → σ × Except String Unit
  currentBytes : σ → Nat
  rotate : σ → Nat → σ × Except String (List (String × String))

structure Limits where
  maxFileBytes : Nat
  keepFiles : Nat

structure Tools (σ : Type) where
  port : AuditStore σ
  sha256 : Bytes → Bytes
  sha256_size : ∀ bytes, (sha256 bytes).length = 32
  rfc3339 : Nat → String
  peerKey : String → String

abbrev RefusalKey := String × Option String

structure Slot where
  second : Nat
  count : Nat
  carried : Nat
  deriving DecidableEq

def saturatingAdd (m n : Nat) : Nat := min (m + n) u32Max

variable (slot : Slot)

def Slot.passed : Nat := saturatingAdd slot.carried (slot.count - refusalsPerSecond)

abbrev Window := Map RefusalKey Slot

inductive Counted where
  | queue
  | aggregated
  | noRoom
  deriving DecidableEq

def Slot.asOf (second : Nat) : Slot :=
  if slot.second ≠ second then ⟨second, 0, slot.passed⟩ else slot

def Slot.more : Slot := { slot with count := saturatingAdd slot.count 1 }

def Slot.taken : Slot := { slot with carried := 0 }

def Window.admitOne (window : Window) (key : RefusalKey) (second : Nat) : Window × Counted :=
  if (window.lookup key).isNone && refusalKeys ≤ window.keys.length then (window, .noRoom)
  else
    let slot := (((window.lookup key).getD ⟨second, 0, 0⟩).asOf second).more
    (window.insert key slot, if slot.count ≤ refusalsPerSecond then .queue else .aggregated)

/-- What of a slot is written now: all of it when its second has passed. -/
def Slot.unwritten (second : Nat) : Nat := if second ≤ slot.second then slot.carried else slot.passed

def Window.takePassed (window : Window) (second : Nat) : Window × List (RefusalKey × Nat) :=
  ((window.filter fun _ slot => second ≤ slot.second).mapValues fun _ slot => slot.taken,
    (window.entries.map fun e => (e.1, e.2.unwritten second)).filter fun passed => 0 < passed.2)

inductive Message where
  /-- An entry, with the chain of the lease it was decided under. -/
  | entry (entry : Entry) (under : Option String)
  | drain
  | close

structure Line where
  seq : Nat
  text : String
  entry : Entry
  timeMs : Nat
  unrecorded : Nat
  decidedUnder : Option String
  /-- What goes unrecorded when the line is lost. -/
  lost : Nat

def Line.bytes (line : Line) : Nat := (Core.utf8 line.text).length + 1

structure Writer (σ : Type) where
  store : σ
  limits : Limits
  seq : Nat
  prev : String
  window : Window
  queuedRefusals : Nat
  failing : Bool
  unrecorded : Nat
  batch : List Line
  batchBytes : Nat
  batchStartPrev : String
  /-- Whether the store keeps one chain per lease: then a batch that fails is kept, not lost. -/
  perLease : Bool
  chain : Option String
  queue : List Message
  emitted : List Line

def resumed : Entry := .new "audit.resumed" "recorded"

def chainBroken (lastWhole : String) : Entry :=
  (Entry.new "audit.chain_broken" "recorded").withText "last_whole" lastWhole (by decide)

def chainClosed : Entry := (Entry.new "audit.chain_closed" "recorded").withText "reason" "shutdown" reason_free

def rotated (file lastHash : String) : Entry :=
  ((Entry.new "audit.rotated" "recorded").withText "deleted" file (by decide)).withText "deleted_last_hash" lastHash
    (by decide)

def aggregated (key : RefusalKey) (count : Nat) : Entry :=
  let entry := Entry.new (key.1 ++ ".aggregated") "refused"
  let entry := match key.2 with
    | some peer => entry.withText "peer" peer (by decide)
    | none => entry
  entry.insert "count" (.unsigned count) (by decide)

def ownEvents : List String := ["audit.resumed", "audit.rotated", "audit.chain_broken", "audit.chain_closed"]

def isAggregate (event : String) : Bool := ".aggregated".toList.isSuffixOf event.toList

/-- What a caller records: no event of the writer's own, and no aggregate. -/
structure Decision where
  entry : Entry
  foreign : entry.event ∉ ownEvents
  single : isAggregate entry.event = false

def allowed : Decision := ⟨.new "a" "allowed", by decide, by decide⟩

lemma isAggregate_aggregated (event : String) : isAggregate (event ++ ".aggregated") = true := by
  unfold isAggregate
  rw [isSuffixOf_iff_suffix, String.toList_append]
  exact suffix_append _ _

private lemma ownEvents_single : ∀ event ∈ ownEvents, isAggregate event = false := by decide

lemma aggregated_event (key : RefusalKey) (count : Nat) : (aggregated key count).event = key.1 ++ ".aggregated" := by
  cases hpeer : key.2 <;> simp [aggregated, hpeer, Entry.insert, Entry.withText, Entry.new]

lemma aggregated_foreign (key : RefusalKey) (count : Nat) : (aggregated key count).event ∉ ownEvents := by
  intro hown
  have hsingle := ownEvents_single _ hown
  simp [aggregated_event, isAggregate_aggregated] at hsingle

namespace Writer

variable {σ : Type} (t : Tools σ) (w : Writer σ) (now : Nat) (entry : Entry) (under : Option String)

def entryOf (chain : Option String) (line : Line) : Entry :=
  let entry := if 0 < line.unrecorded then
    line.entry.insert "unrecorded_before" (.unsigned line.unrecorded) (by decide) else line.entry
  match chain with
  | none => entry
  | some chain =>
    let entry := entry.insert "chain" (.text chain) chain_free
    match line.decidedUnder.filter (· ≠ chain) with
    | some under => entry.insert "taken_under" (.text under) (by decide)
    | none => entry

def place (line : Line) : Writer σ × Line :=
  let text := render t.rfc3339 (w.seq + 1) line.timeMs (entryOf w.chain line) w.prev
  ({ w with seq := w.seq + 1, prev := lineHash t.sha256 text }, { line with seq := w.seq + 1, text := text })

def placeAll (w : Writer σ) : List Line → Writer σ
  | [] => w
  | line :: lines =>
    let (w, line) := w.place t line
    placeAll { w with batch := w.batch ++ [line], batchBytes := w.batchBytes + line.bytes } lines

/-- The first half of a switch: the lines of the batch that the old chain holds are written already, and are dropped. -/
def askOld : Writer σ × Except String Unit :=
  match w.chain, w.batch.head? with
  | some old, some first =>
    match t.port.stored w.store old first.seq with
    | (store, .error e) => ({ w with store := store }, .error e)
    | (store, .ok stored) =>
      let landed := ((w.batch.zip stored).takeWhile fun (line, stored) => line.text = stored).length
      ({ w with store := store, emitted := w.emitted ++ w.batch.take landed, batch := w.batch.drop landed }, .ok ())
  | _, _ => (w, .ok ())

/-- The second half of a switch: the lines left get their places after the end of the new chain. -/
def takeUp (chain : String) : Writer σ × Except String Unit :=
  match t.port.tail w.store with
  | (store, .error e) => ({ w with store := store }, .error e)
  | (store, .ok tail) =>
    let (seq, prev) := match tail with
      | none => (0, genesis)
      | some tail => (tail.lastSeq, lineHash t.sha256 tail.lastLine)
    ({ w with
      store := store
      chain := some chain
      seq := seq
      prev := prev
      batchStartPrev := prev
      batch := []
      batchBytes := 0 }.placeAll t w.batch, .ok ())

def switchTo (chain : String) : Writer σ × Except String Unit :=
  match w.askOld t with
  | (w, .error e) => (w, .error e)
  | (w, .ok ()) => w.takeUp t chain

/-- Where the store keeps one chain per lease: takes up the chain of the lease held now, if it is not the one the batch
was placed in. -/
def followChain : Writer σ × Except String Unit :=
  if !w.perLease then (w, .ok ())
  else
    let (store, chain) := t.port.chain w.store
    let w := { w with store := store }
    match chain with
    | .unleased => (w, .error "no lease is held, so there is no chain to write into")
    | .lease chain => if w.chain ≠ some chain then w.switchTo t chain else (w, .ok ())
    | .one => (w, .ok ())

def handOver (first : Nat) (closing : Bool) (ready : Except String Unit) : σ × Except String Unit :=
  match ready with
  | .error e => (w.store, .error e)
  | .ok () =>
    if closing then t.port.close w.store first (w.batch.map Line.text)
    else t.port.append w.store first (w.batch.map Line.text)

def landed : Writer σ :=
  { w with batch := [], batchBytes := 0, failing := false, emitted := w.emitted ++ w.batch }

/-- The batch could not be written: its lines are lost, and the chain goes on from the line before it; a store of one
chain per lease keeps the batch. -/
def failed (first : Nat) : Writer σ :=
  if w.perLease then { w with failing := true }
  else
    { w with
      batch := []
      batchBytes := 0
      seq := first - 1
      prev := w.batchStartPrev
      batchStartPrev := ""
      unrecorded := w.unrecorded + (w.batch.map Line.lost).sum
      failing := true }

def commitAs (closing : Bool) : Writer σ :=
  if w.batch.isEmpty then w
  else
    let (w, ready) := w.followChain t
    match w.batch with
    | [] => if ready.isOk then { w with failing := false } else w
    | line :: _ =>
      match w.handOver t line.seq closing ready with
      | (store, .ok ()) => { w with store := store }.landed
      | (store, .error _) => { w with store := store }.failed line.seq

def commit : Writer σ := w.commitAs t false

def append : Writer σ :=
  -- A retry that fails was no decision; the entries it carried the count of were.
  let line : Line :=
    { seq := 0
      text := ""
      entry := entry
      timeMs := now
      unrecorded := w.unrecorded
      decidedUnder := under
      lost := (if entry.event ≠ "audit.resumed" then 1 else 0) + w.unrecorded }
  let w := { w with unrecorded := 0, batchStartPrev := if w.batch.isEmpty then w.prev else w.batchStartPrev }
  let w := w.placeAll t [line]
  if writeBatch ≤ w.batch.length && !(w.perLease && w.failing) then w.commit t else w

def tellRotated (deleted : List (String × String)) : Writer σ :=
  deleted.foldl (fun w file => w.append t now (rotated file.1 (lineHash t.sha256 file.2)) none) w

def write : Writer σ :=
  if w.perLease then w.append t now entry under
  else
    -- The batch goes into the file it was counted against.
    let w := if w.limits.maxFileBytes ≤ t.port.currentBytes w.store + w.batchBytes then w.commit t else w
    let w := if w.limits.maxFileBytes ≤ t.port.currentBytes w.store then
        match t.port.rotate w.store w.limits.keepFiles with
        | (store, .ok deleted) => { w with store := store }.tellRotated t now deleted
        | (store, .error _) => { w with store := store }
      else w
    w.append t now entry under

def flushWindow (now second : Nat) : Writer σ :=
  let (window, passed) := w.window.takePassed second
  passed.foldl (fun w aggregate => w.write t now (aggregated aggregate.1 aggregate.2) none) { w with window := window }

def take : Writer σ :=
  let w := if entry.isRefusal then { w with queuedRefusals := w.queuedRefusals - 1 } else w
  w.write t now entry under

/-- Writes `audit.chain_closed` into the chain and closes it. A closing entry that could not be written is taken back.
-/
def closeChain : Writer σ :=
  match w.followChain t with
  | (w, .error _) => w
  | (w, .ok ()) =>
    let (seq, prev) := (w.seq, w.prev)
    let w := (w.append t now chainClosed none).commitAs t true
    if w.failing && w.batch.getLast?.any (·.entry.event = "audit.chain_closed") then
      { w with batch := w.batch.dropLast, seq := seq, prev := prev }
    else w

def handleMessage : Message → Writer σ
  | .entry entry under => w.take t now entry under
  | .drain => (w.flushWindow t now u64Max).commit t
  | .close =>
    let w := (w.flushWindow t now u64Max).commit t
    if !w.failing && w.perLease then w.closeChain t now else w

def handleQueued (w : Writer σ) (now : Nat) : Nat → Writer σ
  | 0 => w
  | n + 1 =>
    match w.queue with
    | [] => w
    | message :: queue => handleQueued ({ w with queue := queue }.handleMessage t now message) now n

def tick : Writer σ :=
  let w := w.handleQueued t now channelCapacity
  let w := (w.flushWindow t now (now / 1000)).commit t
  -- While writing fails nothing is let through, so the writer itself tries again.
  if w.failing then
    let w := if !w.perLease || w.batch.isEmpty then w.append t now resumed none else w
    let w := w.commit t
    if w.perLease && !w.failing && 0 < w.unrecorded then (w.append t now resumed none).commit t else w
  else w

def refusalKey : RefusalKey :=
  (entry.event, match entry.fields.lookup "peer" with
    | some (.text peer) => some (t.peerKey peer)
    | _ => none)

def unavailable : Writer σ := { w with unrecorded := w.unrecorded + 1 }

def trySend (message : Message) : Option (Writer σ) :=
  if w.queue.length < channelCapacity then some { w with queue := w.queue ++ [message] } else none

def record : Writer σ × Bool :=
  if w.failing then (w.unavailable, false)
  else if !entry.isRefusal then
    match w.trySend (.entry entry under) with
    | some w => (w, true)
    | none => (w.unavailable, false)
  else
    match w.window.admitOne (refusalKey t entry) (now / 1000) with
    | (window, .aggregated) => ({ w with window := window }, true)
    | (window, .noRoom) => ({ w with window := window }.unavailable, false)
    | (window, .queue) =>
      let w := { w with window := window }
      if refusalShare ≤ w.queuedRefusals then (w.unavailable, false)
      else
        match { w with queuedRefusals := w.queuedRefusals + 1 }.trySend (.entry entry under) with
        | some w => (w, true)
        | none => (w.unavailable, false)

lemma trySend_eq {w v : Writer σ} {message : Message} (h : w.trySend message = some v) :
    v = { w with queue := w.queue ++ [message] } := by
  unfold trySend at h
  split at h
  · exact (Option.some.inj h).symm
  · cases h

/-- `record` changes the window and the queue, and counts. -/
lemma record_eq :
    ∃ window queuedRefusals queue unrecorded, (w.record t now entry under).1 =
        { w with window := window, queuedRefusals := queuedRefusals, queue := queue, unrecorded := unrecorded } ∧
      ∀ message ∈ queue, message ∈ w.queue ∨ message = .entry entry under := by
  have hsent : ∀ message ∈ w.queue ++ [.entry entry under], message ∈ w.queue ∨ message = .entry entry under := by
    intro message hmessage
    exact (mem_append.mp hmessage).imp_right mem_singleton.mp
  unfold record
  split
  · exact ⟨_, _, _, _, rfl, fun _ => .inl⟩
  split
  · cases hsend : w.trySend (.entry entry under) with
    | none => exact ⟨_, _, _, _, rfl, fun _ => .inl⟩
    | some v =>
      rw [trySend_eq hsend]
      exact ⟨_, _, _, _, rfl, hsent⟩
  cases w.window.admitOne (refusalKey t entry) (now / 1000) with
  | mk window counted =>
    cases counted with
    | aggregated | noRoom => exact ⟨_, _, _, _, rfl, fun _ => .inl⟩
    | queue =>
      simp only
      split
      · exact ⟨_, _, _, _, rfl, fun _ => .inl⟩
      cases hsend : ({ w with window := window, queuedRefusals := w.queuedRefusals + 1 } : Writer σ).trySend
        (.entry entry under) with
      | none => exact ⟨_, _, _, _, rfl, fun _ => .inl⟩
      | some v =>
        rw [trySend_eq hsend]
        exact ⟨_, _, _, _, rfl, hsent⟩

def opened (store : σ) (limits : Limits) (chain : Chain) (tail : Option Tail) : Writer σ where
  store := store
  limits := limits
  seq := tail.elim 0 Tail.lastSeq
  prev := tail.elim genesis fun tail => lineHash t.sha256 tail.lastLine
  window := ∅
  queuedRefusals := 0
  failing := false
  unrecorded := 0
  batch := []
  batchBytes := 0
  batchStartPrev := ""
  perLease := chain ≠ .one
  chain := match chain with
    | .lease id => some id
    | _ => none
  queue := []
  emitted := []

/-- `start_with`: the writer, with a torn last line repaired. -/
def start (store : σ) (limits : Limits) (now : Nat) : Except String (Writer σ) :=
  let (store, chain) := t.port.chain store
  match t.port.tail store with
  | (_, .error e) => .error e
  | (store, .ok tail) =>
    let w := opened t store limits chain tail
    match tail with
    | some ⟨_, _, true, lastWhole⟩ => .ok ((w.write t now (chainBroken (lastWhole.getD genesis)) none).commit t)
    | _ => .ok w

end Writer

structure Taken where
  timeMs : Nat
  entry : Entry
  under : Option String

def takenOf (now : Nat) (entry : Entry) (under : Option String) : List Taken :=
  if entry.event ∈ ownEvents then [] else [⟨now, entry, under⟩]

def Message.keepsOpen : Message → Prop
  | .entry e _ => e.event ≠ "audit.chain_closed"
  | .drain => True
  | .close => False

namespace Writer

variable {σ : Type} (t : Tools σ)

def takenFlush (w : Writer σ) (now second : Nat) : List Taken :=
  (w.window.takePassed second).2.flatMap fun aggregate => takenOf now (aggregated aggregate.1 aggregate.2) none

def takenMessage (w : Writer σ) (now : Nat) : Message → List Taken
  | .entry entry under => takenOf now entry under
  | .drain => w.takenFlush now u64Max
  | .close => w.takenFlush now u64Max

def takenQueued (w : Writer σ) (now : Nat) : Nat → List Taken
  | 0 => []
  | n + 1 =>
    match w.queue with
    | [] => []
    | message :: queue =>
      let w := { w with queue := queue }
      w.takenMessage now message ++ takenQueued (w.handleMessage t now message) now n

def takenTick (w : Writer σ) (now : Nat) : List Taken :=
  w.takenQueued t now channelCapacity ++ (w.handleQueued t now channelCapacity).takenFlush now (now / 1000)

/-- A property of the writer and of what it took that placing a line, committing the batch and rotating keep, and that
says nothing of the refusals counted. On a store of one chain per lease the channel holds no request to close it. -/
structure Keeps (lease : Bool) (P : List Taken → Writer σ → Prop) : Prop where
  perLease : ∀ l w, P l w → w.perLease = lease
  queue : ∀ l w, P l w → lease = true → ∀ message ∈ w.queue, message.keepsOpen
  append : ∀ l w now entry under, (lease = true → entry.event ≠ "audit.chain_closed") → P l w →
    P (l ++ takenOf now entry under) (w.append t now entry under)
  commit : ∀ l w, P l w → P l (w.commit t)
  rotate : ∀ l w, P l w → P l { w with store := (t.port.rotate w.store w.limits.keepFiles).1 }
  aside : ∀ l w window queuedRefusals queue, (∀ message ∈ queue, message ∈ w.queue) → P l w →
    P l { w with window := window, queuedRefusals := queuedRefusals, queue := queue }

namespace Keeps

variable {t} {lease : Bool} {P : List Taken → Writer σ → Prop} {l : List Taken} {w : Writer σ}

section

variable (h : Keeps t lease P)
include h

section

variable (hw : P l w) (now : Nat)
include hw

private lemma append_own {entry : Entry} (hown : entry.event ∈ ownEvents)
    (hopen : entry.event ≠ "audit.chain_closed") : P l (w.append t now entry none) := by
  have happend := h.append l w now entry none (fun _ => hopen) hw
  rwa [takenOf, if_pos hown, append_nil] at happend

private lemma tellRotated (deleted : List (String × String)) : P l (w.tellRotated t now deleted) := by
  induction deleted generalizing w with
  | nil => exact hw
  | cons file deleted ih =>
    have hown : "audit.rotated" ∈ ownEvents ∧ "audit.rotated" ≠ "audit.chain_closed" := by decide
    exact ih (h.append_own hw now hown.1 hown.2)

private lemma write {entry : Entry} (under : Option String)
    (hopen : lease = true → entry.event ≠ "audit.chain_closed") :
    P (l ++ takenOf now entry under) (w.write t now entry under) := by
  unfold Writer.write
  split
  · exact h.append l w now entry under hopen hw
  extract_lets w₁ w₂
  have hfirst : P l w₁ := by
    simp only [w₁]
    split
    · exact h.commit l w hw
    · exact hw
  have hsecond : P l w₂ := by
    simp only [w₂]
    split
    · have hrotate := h.rotate l w₁ hfirst
      cases hanswer : t.port.rotate w₁.store w₁.limits.keepFiles with
      | mk store answer =>
        rw [hanswer] at hrotate
        cases answer with
        | ok deleted => exact h.tellRotated hrotate now deleted
        | error e => exact hrotate
    · exact hfirst
  exact h.append l w₂ now entry under hopen hsecond

private lemma flushWindow (now second : Nat) : P (l ++ w.takenFlush now second) (w.flushWindow t now second) := by
  unfold Writer.flushWindow Writer.takenFlush
  cases w.window.takePassed second with
  | mk window passed =>
    have hstart : P l { w with window := window } := h.aside l w window w.queuedRefusals w.queue (fun _ hm => hm) hw
    simp only
    generalize ({ w with window := window } : Writer σ) = v at hstart
    clear hw
    induction passed generalizing v l with
    | nil =>
      rwa [flatMap_nil, append_nil]
    | cons aggregate passed ih =>
      have hopen : (aggregated aggregate.1 aggregate.2).event ≠ "audit.chain_closed" := by
        intro hclosed
        exact aggregated_foreign aggregate.1 aggregate.2 (by rw [hclosed]; decide)
      rw [flatMap_cons, ← append_assoc]
      exact ih _ (h.write hstart now none fun _ => hopen)

/-- What every step of the writer keeps, `handle` keeps. -/
lemma handle {message : Message} {queue : List Message} (hqueue : w.queue = message :: queue) :
    P (l ++ ({ w with queue := queue } : Writer σ).takenMessage now message)
      ({ w with queue := queue }.handleMessage t now message) := by
  have hopen : lease = true → message.keepsOpen :=
    fun hlease => h.queue l w hw hlease message (hqueue ▸ mem_cons_self)
  have hrest : P l { w with queue := queue } :=
    h.aside l w w.window w.queuedRefusals queue (fun _ hm => hqueue ▸ mem_cons_of_mem _ hm) hw
  generalize ({ w with queue := queue } : Writer σ) = v at hrest
  have hflush := h.commit _ _ (h.flushWindow hrest now u64Max)
  cases message with
  | entry entry under =>
    show P _ (v.take t now entry under)
    refine h.write ?_ now under hopen
    split
    · exact h.aside l v v.window _ v.queue (fun _ hm => hm) hrest
    · exact hrest
  | drain => exact hflush
  | close =>
    show P _ (if _ then _ else _)
    split
    next hlease =>
      exfalso
      rw [h.perLease _ _ hflush] at hlease
      exact hopen (Bool.and_eq_true_iff.mp hlease).2
    · exact hflush

private lemma handleQueued (now n : Nat) : P (l ++ w.takenQueued t now n) (w.handleQueued t now n) := by
  induction n generalizing w l with
  | zero =>
    rwa [Writer.takenQueued, append_nil]
  | succ n ih =>
    unfold Writer.handleQueued Writer.takenQueued
    cases hqueue : w.queue with
    | nil =>
      rwa [append_nil]
    | cons message queue =>
      rw [← append_assoc]
      exact ih (h.handle hw now hqueue)

/-- What every step of the writer keeps, `tick` keeps. -/
lemma tick : P (l ++ w.takenTick t now) (w.tick t now) := by
  have hresumed : ∀ {l v}, P l v → P l (v.append t now resumed none) :=
    fun hv => h.append_own hv now (by decide) (by decide)
  unfold Writer.tick
  extract_lets w₁ w₂ w₃ w₄
  have hsecond : P (l ++ w.takenTick t now) w₂ := by
    unfold Writer.takenTick
    rw [← append_assoc]
    exact h.commit _ _ (h.flushWindow (h.handleQueued hw now channelCapacity) now _)
  have hthird : P (l ++ w.takenTick t now) w₃ := by
    simp only [w₃]
    split
    · exact hresumed hsecond
    · exact hsecond
  have hfourth : P (l ++ w.takenTick t now) w₄ := h.commit _ w₃ hthird
  split
  · split
    · exact h.commit _ _ (hresumed hfourth)
    · exact hfourth
  · exact hsecond

end

end

end Keeps

end Writer

end OpampFleet.Server.Audit
