import OpampFleet.Lib.Transition
import OpampFleet.Server.AuditLog

/-!
# The refusals' share of the audit channel

The steps of `AuditLog::record` and of the writer's `take` in `audit_log.rs` that touch the channel or the count of
queued refusals, each atomic, by any number of threads in any order. A call that returns before them (while writing
fails, or where the refusal window does not let it queue) changes nothing here.
-/

namespace OpampFleet.Server.Audit

open Lib List Map

def Message.isRefusal : Message → Bool
  | .entry e _ => e.isRefusal
  | .drain | .close => false

@[simp] lemma isRefusal_entry (entry : Entry) (under : Option String) :
    (Message.entry entry under).isRefusal = entry.isRefusal := rfl

inductive RecordCall where
  | raise (entry : Entry) (under : Option String) (refusal : entry.isRefusal = true)
  | send (entry : Entry) (under : Option String)
  | lower

def RecordCall.first (entry : Entry) (under : Option String) : RecordCall :=
  if h : entry.isRefusal = true then .raise entry under h else .send entry under

structure Channel where
  messages : List Message
  queuedRefusals : Nat
  calls : Map Nat RecordCall
  received : Option Message

namespace Channel

inductive Act where
  | record (thread : Nat) (entry : Entry) (under : Option String)
  | proceed (thread : Nat)
  | ask (closing : Bool)
  | receive
  | take

def empty : Channel := ⟨[], 0, ∅, none⟩

variable (s : Channel)

def proceed : RecordCall → Channel × Option RecordCall
  | .raise entry under _ =>
    ({ s with queuedRefusals := s.queuedRefusals + 1 },
      some (if refusalShare ≤ s.queuedRefusals then .lower else .send entry under))
  | .send entry under =>
    if s.messages.length < channelCapacity then ({ s with messages := s.messages ++ [.entry entry under] }, none)
    else (s, if entry.isRefusal then some .lower else none)
  | .lower => ({ s with queuedRefusals := s.queuedRefusals - 1 }, none)

def step : Act → Option Channel
  | .record thread entry under =>
    if (s.calls.lookup thread).isNone then
      some { s with calls := s.calls.insert thread (.first entry under) }
    else none
  | .proceed thread => (s.calls.lookup thread).map fun call =>
    let (t, next) := s.proceed call
    { t with calls := t.calls.set thread next }
  | .ask closing =>
    if s.messages.length < channelCapacity then
      some { s with messages := s.messages ++ [if closing then .close else .drain] }
    else none
  | .receive =>
    match s.received, s.messages with
    | none, message :: messages => some { s with messages := messages, received := some message }
    | _, _ => none
  | .take => s.received.map fun message =>
    { s with received := none, queuedRefusals := s.queuedRefusals - message.isRefusal.toNat }

end Channel

@[simp] def RecordCall.sends : RecordCall → Nat
  | .send entry _ => entry.isRefusal.toNat
  | _ => 0

@[simp] def RecordCall.lowers : RecordCall → Nat
  | .lower => 1
  | _ => 0

def refusals (messages : List Message) : Nat := messages.countP Message.isRefusal

namespace Channel

open RecordCall

/-- The count is that of the refusals queued, those about to be, and those counted and not yet counted off. -/
structure Shared (s : Channel) : Prop where
  counted : s.queuedRefusals =
    refusals s.messages + s.calls.sum sends + s.calls.sum lowers + s.received.elim 0 (·.isRefusal.toNat)
  share : refusals s.messages + s.calls.sum sends ≤ refusalShare

variable {s t : Channel}

private lemma refusals_cons (message : Message) (messages : List Message) :
    refusals (message :: messages) = refusals messages + message.isRefusal.toNat := by
  rw [refusals, countP_cons]
  cases message.isRefusal <;> rfl

@[simp] lemma refusals_append (messages : List Message) (message : Message) :
    refusals (messages ++ [message]) = refusals messages + message.isRefusal.toNat := by
  rw [refusals, countP_append]
  exact congrArg _ (by rw [← refusals, refusals_cons, refusals, countP_nil, Nat.zero_add])

private lemma Shared.step (h : s.Shared) {act : Act} (hstep : s.step act = some t) : t.Shared := by
  obtain ⟨hcounted, hshare⟩ := h
  cases act with
  | record thread entry under =>
    obtain ⟨hnone, ⟨⟩⟩ := Option.ite_none_right_eq_some.mp hstep
    rw [Option.isNone_iff_eq_none] at hnone
    have hsends := sum_insert s.calls thread (.first entry under) sends
    have hlowers := sum_insert s.calls thread (.first entry under) lowers
    have hfirst : (first entry under).sends = 0 ∧ (first entry under).lowers = 0 := by
      unfold first
      split <;> simp_all
    constructor <;> simp_all
  | proceed thread =>
    obtain ⟨call, hcall, rfl⟩ := Option.map_eq_some_iff.mp hstep
    have hsends := fun next => sum_set s.calls thread next sends
    have hlowers := fun next => sum_set s.calls thread next lowers
    simp only [hcall, Option.elim_some] at hsends hlowers
    cases call with
    | raise entry under hrefusal =>
      by_cases hfull : refusalShare ≤ s.queuedRefusals
      · have hs := hsends (some .lower)
        have hl := hlowers (some .lower)
        constructor <;> simp [Channel.proceed, hfull] at hs hl ⊢ <;> omega
      · have hs := hsends (some (.send entry under))
        have hl := hlowers (some (.send entry under))
        constructor <;> simp [Channel.proceed, hfull, hrefusal] at hs hl ⊢ <;> omega
    | send entry under =>
      by_cases hroom : s.messages.length < channelCapacity
      · have hs := hsends none
        have hl := hlowers none
        constructor <;> simp [Channel.proceed, hroom] at hs hl ⊢ <;> omega
      cases hrefusal : entry.isRefusal with
      | true =>
        have hs := hsends (some .lower)
        have hl := hlowers (some .lower)
        constructor <;> simp [Channel.proceed, hroom, hrefusal] at hs hl ⊢ <;> omega
      | false =>
        have hs := hsends none
        have hl := hlowers none
        constructor <;> simp [Channel.proceed, hroom, hrefusal] at hs hl ⊢ <;> omega
    | lower =>
      have hs := hsends none
      have hl := hlowers none
      constructor <;> simp [Channel.proceed] at hs hl ⊢ <;> omega
  | ask closing =>
    obtain ⟨-, ⟨⟩⟩ := Option.ite_none_right_eq_some.mp hstep
    constructor <;> cases closing <;> simp_all [Message.isRefusal]
  | receive =>
    simp only [Channel.step] at hstep
    split at hstep
    next message messages hreceived hmessages =>
      cases hstep
      constructor <;> simp_all [refusals_cons] <;> omega
    · cases hstep
  | take =>
    obtain ⟨message, hmessage, rfl⟩ := Option.map_eq_some_iff.mp hstep
    constructor <;> simp_all

/-- In every interleaving the channel holds no more refusals than their share; once it is empty and no call is under way
none is counted; and while it is full, at least the rest of its capacity is messages that are no refusals. -/
theorem refusals_within_share {s : Channel} (h : Reach empty Channel.step s) :
    refusals s.messages ≤ refusalShare ∧
      (s.messages = [] → s.calls = ∅ → s.received = none → s.queuedRefusals = 0) ∧
      (channelCapacity ≤ s.messages.length →
        channelCapacity - refusalShare ≤ s.messages.countP fun message => !message.isRefusal) := by
  obtain ⟨hcounted, hshare⟩ : s.Shared := h.invariant ⟨rfl, Nat.zero_le _⟩ fun _ _ _ hs hstep => hs.step hstep
  have hle : refusals s.messages ≤ refusalShare := Nat.le_trans (Nat.le_add_right _ _) hshare
  refine ⟨hle, ?_, ?_⟩
  · intro hmessages hcalls hreceived
    rw [hcounted, hmessages, hcalls, hreceived]
    rfl
  · intro hfull
    have hlength := length_eq_countP_add_countP Message.isRefusal (l := s.messages)
    simp only [Bool.not_eq_true, Bool.decide_eq_false] at hlength
    unfold refusals at hle
    omega

private lemma reach_asked (h : Reach empty Channel.step s) (n : Nat) (hroom : s.messages.length + n ≤ channelCapacity) :
    Reach empty Channel.step { s with messages := s.messages ++ replicate n Message.drain } := by
  induction n with
  | zero => simpa using h
  | succ n ih =>
    refine (ih (by omega)).next (.ask false) ?_
    have hlength : (s.messages ++ replicate n Message.drain).length < channelCapacity := by
      rw [length_append, length_replicate]
      omega
    simp only [Channel.step, hlength, if_true, replicate_succ', append_assoc]
    rfl

/-- Two refusals queued by two threads, and the channel full. -/
theorem refusals_within_share_full : ∃ s, Reach empty Channel.step s ∧ refusals s.messages = 2 ∧
    s.messages.length = channelCapacity ∧
    channelCapacity - refusalShare ≤ s.messages.countP fun message => !message.isRefusal := by
  obtain ⟨s, hreach, hlength, hrefusals⟩ : ∃ s, Reach empty Channel.step s ∧ s.messages.length = 2 ∧
      refusals s.messages = 2 := by
    refine Reach.exists_of_run [.record 0 (.new "a" "refused") none, .record 1 (.new "b" "refused") none, .proceed 0,
      .proceed 1, .proceed 1, .proceed 0] (by decide +kernel)
  have hfilled := reach_asked hreach (channelCapacity - 2) (by rw [hlength]; decide)
  have hfull : (s.messages ++ replicate (channelCapacity - 2) Message.drain).length = channelCapacity := by
    rw [length_append, length_replicate, hlength]
    rfl
  refine ⟨_, hfilled, ?_, hfull, (refusals_within_share hfilled).2.2 (Nat.le_of_eq hfull.symm)⟩
  rw [refusals, countP_append, countP_replicate]
  simpa [Message.isRefusal, refusals] using hrefusals

end Channel
end OpampFleet.Server.Audit
