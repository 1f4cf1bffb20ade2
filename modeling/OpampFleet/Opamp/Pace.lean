import Mathlib.Algebra.GroupWithZero.Nat
import Mathlib.Data.List.Induction
import OpampFleet.Lib.Files
import OpampFleet.Lib.Transition

/-!
# The pace of WebSocket messages

The model of the `opamp` crate's `server/pace.rs`: the frame meter (`Parser.feed`) and the check made once a window
(`Messages.check`). Of the `header` array only the bytes below `have` are ever read, so it is the list of those; no
stream is long enough for the 64-bit counters to wrap.
-/

namespace OpampFleet.Opamp.Pace

open Lib List

structure Progress where
  inFlight : Bool := false
  dataBytes : Nat := 0
  completed : Nat := 0
  deriving DecidableEq

structure Parser where
  progress : Progress := {}
  header : Bytes := []
  need : Nat := 0
  payloadLeft : Nat := 0
  data : Bool := false
  fin : Bool := false
  messageOpen : Bool := false
  deriving DecidableEq

def fromBeBytes (bytes : Bytes) : Nat := bytes.foldl (fun n b => 256 * n + b.toNat) 0

/-- How many bytes of extended length follow a header's second byte. -/
def extended (second : UInt8) : Nat :=
  if second &&& 0x7F = 126 then 2 else if second &&& 0x7F = 127 then 8 else 0

def mask (second : UInt8) : Nat := if second &&& 0x80 = 0 then 0 else 4

namespace Parser

variable (p : Parser)

def frameDone : Parser :=
  if p.data && p.fin then
    { p with
      messageOpen := false
      progress := { p.progress with inFlight := false, completed := p.progress.completed + 1 } }
  else p

def takePayload (taken : Nat) : Parser :=
  let p := { p with
    progress.dataBytes := if p.data then p.progress.dataBytes + taken else p.progress.dataBytes
    payloadLeft := p.payloadLeft - taken }
  if p.payloadLeft = 0 then p.frameDone else p

def headerDone : Parser :=
  let first := p.header.getD 0 0
  let second := p.header.getD 1 0
  let payloadLeft :=
    if extended second = 0 then (second &&& 0x7F).toNat else fromBeBytes ((p.header.drop 2).take (extended second))
  let p := { p with payloadLeft, data := first &&& 0x08 = 0, fin := first &&& 0x80 ≠ 0, header := [] }
  if p.payloadLeft = 0 then p.frameDone else p

def takeHeader (b : UInt8) : Parser :=
  let p := { p with header := p.header ++ [b] }
  if p.header.length = 1 then
    -- A message begins with the first byte of its first frame.
    if b &&& 0x08 = 0 ∧ p.messageOpen = false then { p with messageOpen := true, progress.inFlight := true } else p
  else
    let second := p.header.getD 1 0
    let p := if p.header.length = 2 then { p with need := 2 + extended second + mask second } else p
    if p.header.length = p.need then p.headerDone else p

def feedLoop : Nat → Parser → Bytes → Parser
  | turns + 1, p, b :: rest =>
    if 0 < p.payloadLeft then
      let taken := min p.payloadLeft (b :: rest).length
      feedLoop turns (p.takePayload taken) ((b :: rest).drop taken)
    else feedLoop turns (p.takeHeader b) rest
  | _, p, _ => p

def feed (bytes : Bytes) : Parser := feedLoop bytes.length p bytes

def step (b : UInt8) : Parser := if 0 < p.payloadLeft then p.takePayload 1 else p.takeHeader b

variable {p : Parser} {bytes : Bytes}

private lemma takePayload_add {m : Nat} (n : Nat) (hm : m < p.payloadLeft) :
    (p.takePayload m).takePayload n = p.takePayload (m + n) := by
  have hleft : p.payloadLeft - m ≠ 0 := by omega
  cases hdata : p.data <;> simp [takePayload, hdata, hleft, Nat.sub_sub, Nat.add_assoc]

private lemma foldl_step_payload (hsome : bytes ≠ []) (hleft : bytes.length ≤ p.payloadLeft) :
    bytes.foldl step p = p.takePayload bytes.length := by
  induction bytes generalizing p with
  | nil => exact absurd rfl hsome
  | cons b bytes ih =>
    simp only [length_cons] at hleft ⊢
    rw [foldl_cons, step, if_pos (by omega)]
    cases bytes with
    | nil => rfl
    | cons c bytes =>
      simp only [length_cons] at hleft
      have hone : (p.takePayload 1).payloadLeft = p.payloadLeft - 1 := by
        have : p.payloadLeft - 1 ≠ 0 := by omega
        cases hdata : p.data <;> simp [takePayload, hdata, this]
      rw [ih (by simp) (by simp; omega), takePayload_add _ (by omega), Nat.add_comm]

private lemma feedLoop_eq_foldl {turns : Nat} (hturns : bytes.length ≤ turns) :
    feedLoop turns p bytes = bytes.foldl step p := by
  induction turns generalizing p bytes with
  | zero => simp [length_eq_zero_iff.mp (Nat.le_zero.mp hturns), feedLoop]
  | succ turns ih =>
    cases bytes with
    | nil => rfl
    | cons b rest =>
      simp only [feedLoop]
      split
      case isTrue hleft =>
        set taken := min p.payloadLeft (b :: rest).length with htaken
        have hlength : ((b :: rest).take taken).length = taken := by simp [htaken]
        have hpos : 0 < taken := by simp only [htaken, length_cons]; omega
        rw [ih (by simp at hturns ⊢; omega), ← hlength,
          ← foldl_step_payload _ (by rw [hlength]; exact Nat.min_le_left _ _), hlength, ← foldl_append,
          take_append_drop]
        exact ne_nil_of_length_pos (by omega)
      case isFalse hleft => rw [ih (by simpa using hturns), foldl_cons, step, if_neg hleft]

/-- A chunk is taken as its bytes one after another, however many the payload lets `feed` take at once. -/
private lemma feed_eq_foldl : p.feed bytes = bytes.foldl step p := feedLoop_eq_foldl (Nat.le_refl _)

private lemma feed_append (more : Bytes) : p.feed (bytes ++ more) = (p.feed bytes).feed more := by
  simp only [feed_eq_foldl, foldl_append]

/-! ## Frames -/

end Parser

structure Frame where
  first : UInt8
  second : UInt8
  extendedLength : Bytes
  maskingKey : Bytes
  payload : Bytes
  extended_eq : extendedLength.length = extended second
  mask_eq : maskingKey.length = mask second
  payload_eq : payload.length = if extended second = 0 then (second &&& 0x7F).toNat else fromBeBytes extendedLength

namespace Frame

def bytes (f : Frame) : Bytes := f.first :: f.second :: (f.extendedLength ++ f.maskingKey) ++ f.payload

def data (f : Frame) : Bool := f.first &&& 0x08 = 0

def fin (f : Frame) : Bool := f.first &&& 0x80 ≠ 0

end Frame

def Progress.add (now : Progress) (f : Frame) : Progress :=
  if f.data then
    { inFlight := !f.fin, dataBytes := now.dataBytes + f.payload.length
      completed := now.completed + if f.fin then 1 else 0 }
  else now

namespace Parser

structure Between (p : Parser) : Prop where
  header : p.header = []
  payloadLeft : p.payloadLeft = 0
  messageOpen : p.messageOpen = p.progress.inFlight

variable {p : Parser} {bytes : Bytes}

private lemma foldl_step_header (hleft : p.payloadLeft = 0) (htwo : 2 ≤ p.header.length)
    (hneed : p.header.length + bytes.length = p.need) :
    bytes.foldl step (if p.header.length = p.need then p.headerDone else p) =
      { p with header := p.header ++ bytes }.headerDone := by
  induction bytes generalizing p with
  | nil => simp [show p.header.length = p.need from hneed]
  | cons b bytes ih =>
    simp only [length_cons] at hneed
    have h := @ih { p with header := p.header ++ [b] } hleft (by simp; omega) (by simp; omega)
    rw [if_neg (by omega), foldl_cons, step, if_neg (by omega), takeHeader]
    simpa [show p.header.length ≠ 0 by omega, show p.header.length ≠ 1 by omega] using h

private lemma foldl_step_whole (hleft : p.payloadLeft = bytes.length) :
    bytes.foldl step (if p.payloadLeft = 0 then p.frameDone else p) = p.takePayload bytes.length := by
  cases bytes with
  | nil =>
    cases p
    simp_all [takePayload]
  | cons b bytes => rw [if_neg (by simp [hleft]), foldl_step_payload (cons_ne_nil _ _) (Nat.le_of_eq hleft.symm)]

def opened (p : Parser) (f : Frame) : Parser :=
  { p with
    header := [f.first, f.second], need := 2 + extended f.second + mask f.second
    messageOpen := p.messageOpen || f.data, progress.inFlight := p.progress.inFlight || f.data }

def counted (p : Parser) (f : Frame) : Parser :=
  { p.opened f with header := [], payloadLeft := f.payload.length, data := f.data, fin := f.fin }

private lemma Between.step_step (h : p.Between) (f : Frame) : step (step p f.first) f.second =
      if (p.opened f).header.length = (p.opened f).need then (p.opened f).headerDone else p.opened f := by
  obtain ⟨⟨inFlight, dataBytes, completed⟩, header, need, payloadLeft, data, fin, messageOpen⟩ := p
  obtain ⟨rfl, rfl, hopen⟩ := h
  cases (show messageOpen = inFlight from hopen)
  by_cases hdata : f.first &&& 0x08 = 0 <;> cases messageOpen <;> simp [step, takeHeader, opened, Frame.data, hdata]

private lemma headerDone_opened (f : Frame) :
    { p.opened f with header := (p.opened f).header ++ (f.extendedLength ++ f.maskingKey) }.headerDone =
      if (p.counted f).payloadLeft = 0 then (p.counted f).frameDone else p.counted f := by
  simp [headerDone, opened, counted, f.payload_eq, ← f.extended_eq, Frame.data, Frame.fin]

private lemma Between.feed_bytes (h : p.Between) (f : Frame) :
    p.feed f.bytes = (p.counted f).takePayload f.payload.length := by
  have hleft : (p.opened f).payloadLeft = 0 := h.payloadLeft
  rw [feed_eq_foldl, Frame.bytes, foldl_append, foldl_cons, foldl_cons, h.step_step,
    foldl_step_header hleft (by simp [opened]) (by simp [opened, f.extended_eq, f.mask_eq]; omega),
    headerDone_opened, foldl_step_whole rfl]

private lemma Between.feed_frame (h : p.Between) (f : Frame) :
    (p.feed f.bytes).Between ∧ (p.feed f.bytes).progress = p.progress.add f := by
  rw [h.feed_bytes]
  refine ⟨⟨?_, ?_, ?_⟩, ?_⟩ <;> cases hdata : f.data <;> cases hfin : f.fin <;>
    simp [takePayload, frameDone, counted, opened, Progress.add, hdata, hfin, h.messageOpen]

private lemma feed_frames (frames : List Frame) : let p := ({} : Parser).feed (frames.flatMap Frame.bytes)
    p.Between ∧ p.progress = frames.foldl Progress.add {} := by
  induction frames using reverseRecOn with
  | nil => exact ⟨⟨rfl, rfl, rfl⟩, rfl⟩
  | append_singleton frames f ih =>
    obtain ⟨hbetween, hprogress⟩ := ih
    obtain ⟨hbetween', hprogress'⟩ := hbetween.feed_frame f
    rw [flatMap_append, flatMap_singleton, feed_append, foldl_append]
    exact ⟨hbetween', hprogress'.trans (by rw [hprogress]; rfl)⟩

end Parser

private lemma Progress.foldl_add (frames : List Frame) : frames.foldl add {} =
      { dataBytes := ((frames.filter Frame.data).map (·.payload.length)).sum
        completed := (frames.filter Frame.data).countP Frame.fin
        inFlight := ((frames.filter Frame.data).getLast?).any (!·.fin) } := by
  induction frames using reverseRecOn with
  | nil => rfl
  | append_singleton frames f ih =>
    rw [foldl_append, ih]
    cases hdata : f.data <;> simp [add, hdata, countP_cons]

/-- How a stream is cut into chunks makes no difference, and of whole frames the meter knows the bytes of data, the
messages that ended and whether the last data frame leaves one open. -/
theorem Parser.feed_stream : (∀ (p : Parser) (chunks : List Bytes), chunks.foldl feed p = p.feed chunks.flatten) ∧
    ∀ frames : List Frame,
      let data := frames.filter Frame.data
      (({} : Parser).feed (frames.flatMap Frame.bytes)).progress =
        { dataBytes := (data.map (·.payload.length)).sum
          completed := data.countP Frame.fin
          inFlight := data.getLast?.any (!·.fin) } := by
  refine ⟨?_, fun frames => (feed_frames frames).2.trans (Progress.foldl_add frames)⟩
  intro p chunks
  induction chunks generalizing p with
  | nil => rfl
  | cons chunk chunks ih => rw [foldl_cons, ih, flatten_cons, feed_append]

/-! ## Windows -/

/-- What reading on can do to the progress: while no message ends, the one in flight stays in flight. -/
structure Progress.Advances (before after : Progress) : Prop where
  dataBytes : before.dataBytes ≤ after.dataBytes
  completed : before.completed ≤ after.completed
  inFlight : before.inFlight → after.completed = before.completed → after.inFlight

private lemma Progress.Advances.refl (now : Progress) : now.Advances now := ⟨Nat.le_refl _, Nat.le_refl _, fun h _ => h⟩

namespace Parser

private lemma advances_frameDone {before : Progress} {p : Parser} (h : before.Advances p.progress) :
    before.Advances (if p.payloadLeft = 0 then p.frameDone else p).progress := by
  obtain ⟨hdata, hcompleted, hflight⟩ := h
  unfold frameDone
  split
  · split
    · exact ⟨hdata, Nat.le_succ_of_le hcompleted, fun _ hsame => by simp at hsame; omega⟩
    · exact ⟨hdata, hcompleted, hflight⟩
  · exact ⟨hdata, hcompleted, hflight⟩

private lemma advances_step (p : Parser) (b : UInt8) : p.progress.Advances (p.step b).progress := by
  have hdone {q : Parser} (hq : q.progress = p.progress) : p.progress.Advances q.headerDone.progress :=
    advances_frameDone (hq ▸ .refl _)
  unfold step takePayload takeHeader
  split
  · refine advances_frameDone ⟨?_, Nat.le_refl _, fun h _ => h⟩
    split <;> simp
  dsimp only
  split
  · split
    · exact ⟨Nat.le_refl _, Nat.le_refl _, fun _ _ => rfl⟩
    · exact .refl _
  · split <;> split <;> first | exact hdone rfl | exact .refl _

private lemma advances_feed (p : Parser) (bytes : Bytes) : p.progress.Advances (p.feed bytes).progress := by
  rw [feed_eq_foldl]
  induction bytes generalizing p with
  | nil => exact .refl _
  | cons b bytes ih =>
    obtain ⟨hdata, hcompleted, hflight⟩ := advances_step p b
    obtain ⟨hdata', hcompleted', hflight'⟩ := ih (p.step b)
    rw [foldl_cons]
    refine ⟨Nat.le_trans hdata hdata', Nat.le_trans hcompleted hcompleted', fun h hsame => ?_⟩
    exact hflight' (hflight h (by omega)) (by omega)

end Parser

structure Messages where
  minBytes : Nat
  atCheck : Progress := {}

namespace Messages

/-- What `check` answers; `none` where the subtraction goes below zero. -/
def behind (m : Messages) (now : Progress) : Option Bool :=
  if now.inFlight ∧ m.atCheck.inFlight ∧ now.completed = m.atCheck.completed then
    if now.dataBytes < m.atCheck.dataBytes then none
    else some (now.dataBytes - m.atCheck.dataBytes < m.minBytes)
  else some false

def check (m : Messages) (now : Progress) : Option (Bool × Messages) :=
  (m.behind now).map ((·, { m with atCheck := now }))

def rebase (m : Messages) (now : Progress) : Messages := { m with atCheck := { now with inFlight := false } }

end Messages

structure Watched where
  parser : Parser := {}
  messages : Messages
  opened : Parser := {}
  window : Bytes := []

inductive Watched.Act
  | feed (chunk : Bytes)
  | check
  | rebase

namespace Watched

def step (s : Watched) : Act → Option Watched
  | .feed chunk => some { s with parser := s.parser.feed chunk, window := s.window ++ chunk }
  | .check => (s.messages.check s.parser.progress).map fun (_, messages) =>
    { s with messages, opened := s.parser, window := [] }
  | .rebase => some { s with messages := s.messages.rebase s.parser.progress, opened := s.parser, window := [] }

structure Inv (minBytes : Nat) (s : Watched) : Prop where
  parser : s.parser = s.opened.feed s.window
  minBytes : s.messages.minBytes = minBytes
  dataBytes : s.messages.atCheck.dataBytes = s.opened.progress.dataBytes
  atCheck : s.messages.atCheck.inFlight → s.messages.atCheck = s.opened.progress

private lemma Inv.step {minBytes : Nat} {s t : Watched} {a : Act} (h : s.Inv minBytes) (hstep : s.step a = some t) :
    t.Inv minBytes := by
  cases a with
  | feed chunk =>
    cases hstep
    exact ⟨by rw [h.parser, Parser.feed_append], h.minBytes, h.dataBytes, h.atCheck⟩
  | check =>
    obtain ⟨_, hcheck, rfl⟩ := Option.map_eq_some_iff.mp hstep
    obtain ⟨behind, -, rfl⟩ := Option.map_eq_some_iff.mp hcheck
    exact ⟨rfl, h.minBytes, rfl, fun _ => rfl⟩
  | rebase =>
    cases hstep
    exact ⟨rfl, h.minBytes, rfl, by simp [Messages.rebase]⟩

/-- Wherever a socket's reads, checks and rebases lead, the next check subtracts no more than it has, and it answers
that a message fell behind only of one that was in flight at every byte of the window. -/
theorem check_behind {minBytes : Nat} {s : Watched} (h : Reach { messages := { minBytes } } step s) :
    ∃ behind messages, s.messages.check s.parser.progress = some (behind, messages) ∧ (behind = true →
      (∀ read, read <+: s.window →
        (s.opened.feed read).progress.inFlight = true ∧
        (s.opened.feed read).progress.completed = s.opened.progress.completed) ∧
      s.parser.progress.dataBytes - s.opened.progress.dataBytes < minBytes) := by
  have hinv : s.Inv minBytes := h.invariant ⟨rfl, rfl, rfl, by simp⟩ fun _ _ _ hs hstep => hs.step hstep
  have hread := s.opened.advances_feed s.window
  rw [← hinv.parser] at hread
  unfold Messages.check Messages.behind
  split
  case isFalse => exact ⟨_, _, rfl, by simp⟩
  case isTrue hsame =>
    obtain ⟨hflight, hbefore, hcompleted⟩ := hsame
    rw [if_neg (by rw [hinv.dataBytes]; have := hread.dataBytes; omega)]
    refine ⟨_, _, rfl, fun hbehind => ⟨?_, by simpa [hinv.dataBytes, hinv.minBytes] using hbehind⟩⟩
    have hat := hinv.atCheck hbefore
    rw [hat] at hbefore hcompleted
    rintro read ⟨rest, hwindow⟩
    have hfirst := s.opened.advances_feed read
    have hrest := (s.opened.feed read).advances_feed rest
    rw [← Parser.feed_append, hwindow, ← hinv.parser] at hrest
    have hle := hfirst.completed
    have hle' := hrest.completed
    have heq : (s.opened.feed read).progress.completed = s.opened.progress.completed := by omega
    exact ⟨hfirst.inFlight hbefore heq, heq⟩

/-- The first byte of a data frame before a check and nothing after it. -/
theorem check_behind_stalled : ∃ s, Reach { messages := { minBytes := 1 } } step s ∧
    (s.messages.check s.parser.progress).map Prod.fst = some true ∧
    (s.opened.feed s.window).progress.inFlight = true := by
  refine Reach.exists_of_run_imp (p := fun s => (s.messages.check s.parser.progress).map Prod.fst = some true)
    [.feed [1], .check, .feed [4]] (by decide +kernel) ?_
  intro s hs hanswer
  obtain ⟨behind, messages, hcheck, hbehind⟩ := check_behind hs
  rw [hcheck] at hanswer
  exact ⟨by rw [hcheck]; exact hanswer, ((hbehind (Option.some.inj hanswer)).1 s.window prefix_rfl).1⟩

end Watched

end OpampFleet.Opamp.Pace
