import OpampFleet.Server.AuditFiles
import Mathlib.Algebra.Order.BigOperators.Group.List

/-!
# No decision vanishes uncounted

Every decision given to `record` is, from then on, a line written or to be written, a count in the refusal window or in
an aggregate, or among those counted as unrecorded. One call of the writer moves decisions between these and loses none,
but for an append that fails with an aggregate in the batch: the aggregate is counted as one decision, however many it
tells of.
-/

namespace OpampFleet.Server.Audit

open Lib List

def Entry.tells (entry : Entry) : Nat :=
  if entry.event ∈ ownEvents then 0
  else if isAggregate entry.event then
    match entry.fields.lookup "count" with
    | some (.unsigned count) => count
    | _ => 0
  else 1

def Line.tells (line : Line) : Nat := line.entry.tells + line.unrecorded

open Line

def Writer.told (w : Writer FsStore) : Nat := (w.emitted.map tells).sum + w.unrecorded

def Writer.held (w : Writer FsStore) : Nat := w.told + (w.batch.map tells).sum

private lemma Decision.tells (decision : Decision) : decision.entry.tells = 1 := by
  rw [Entry.tells, if_neg decision.foreign, decision.single]
  rfl

private lemma tells_own {entry : Entry} (h : entry.event ∈ ownEvents) : entry.tells = 0 := if_pos h

private lemma tells_aggregated (key : RefusalKey) (count : Nat) : (aggregated key count).tells = count := by
  have hcount : (aggregated key count).fields.lookup "count" = some (.unsigned count) := by
    simp [aggregated, Entry.insert]
  rw [Entry.tells, if_neg (aggregated_foreign key count), aggregated_event, isAggregate_aggregated, hcount]
  rfl

/-! ### One call of the writer -/

structure FsStore.Well (s : FsStore) : Prop where
  appends : ∀ io ∈ s.appends, io = .written
  rotations : ∀ io ∈ s.rotations, ∀ n, io ≠ .crashed n
  up : s.crashed = false

/-- What holds of the batch while the writer runs: every line is counted when it is lost, but for an aggregate of more
than one, which is there only while every append ends well. -/
structure Writer.Counts (well : Prop) (w : Writer FsStore) : Prop where
  single : w.perLease = false
  lost : ∀ line ∈ w.batch, line.unrecorded + min 1 line.entry.tells ≤ line.lost
  store : well → w.store.Well
  light : ¬well → ∀ line ∈ w.batch, line.entry.tells ≤ 1

structure Writer.Took (well : Prop) (w w' : Writer FsStore) (gain : Nat) : Prop where
  counts : w'.Counts well
  held : w.held + gain ≤ w'.held
  queue : w'.queue = w.queue
  window : w'.window = w.window

def Writer.Moves (well : Prop) (w w' : Writer FsStore) (gain : Nat) : Prop := w.Counts well → w.Took well w' gain

namespace Writer.Moves

variable {well : Prop} {w w' w'' : Writer FsStore} {m n : Nat}

private lemma refl (w : Writer FsStore) : Moves well w w 0 := fun h => ⟨h, le_rfl, rfl, rfl⟩

private lemma trans (h : Moves well w w' m) (h' : Moves well w' w'' n) : Moves well w w'' (m + n) := by
  intro hcounts
  have hfirst := h hcounts
  have hsecond := h' hfirst.counts
  refine ⟨hsecond.counts, ?_, hsecond.queue.trans hfirst.queue, hsecond.window.trans hfirst.window⟩
  have hle := hfirst.held
  have hle' := hsecond.held
  omega

private lemma foldl {α : Type} {f : Writer FsStore → α → Writer FsStore} {gain : α → Nat} {xs : List α}
    (hf : ∀ x ∈ xs, ∀ w, Moves well w (f w x) (gain x)) (w : Writer FsStore) :
    Moves well w (xs.foldl f w) (xs.map gain).sum := by
  induction xs generalizing w with
  | nil => exact refl w
  | cons x xs ih =>
    have hfirst := hf x mem_cons_self w
    have hrest := ih (fun y hy => hf y (mem_cons_of_mem _ hy)) (f w x)
    exact hfirst.trans hrest

end Writer.Moves

variable {message : Message} {queue : List Message}

section Calls

variable {g : Setting} {well : Prop} {w : Writer FsStore}

private lemma FsStore.Well.append {s : FsStore} (h : s.Well) (seq : Nat) (lines : List String) :
    (s.append seq lines).2 = .ok () ∧ (s.append seq lines).1.Well := by
  have hhead : s.appends.headD .written = .written := by
    cases hlist : s.appends with
    | nil => rfl
    | cons io rest => exact h.appends io (hlist ▸ mem_cons_self)
  unfold FsStore.append
  rw [if_neg (by simp [h.up])]
  simp only [hhead]
  exact ⟨trivial, fun io hmem => h.appends io (mem_of_mem_tail hmem), h.rotations, h.up⟩

private lemma FsStore.Well.rotate {s : FsStore} (h : s.Well) (keep : Nat) : (s.rotate keep).1.Well := by
  have hrest : ∀ io ∈ s.rotations.tail, ∀ n, io ≠ .crashed n := fun io hmem => h.rotations io (mem_of_mem_tail hmem)
  unfold FsStore.rotate
  rw [if_neg (by simp [h.up])]
  cases hhead : s.rotations.headD .rotated with
  | rotated | stopped n | failed n => exact ⟨h.appends, hrest, h.up⟩
  | crashed n =>
    exfalso
    cases hlist : s.rotations with
    | nil =>
      simp [hlist] at hhead
    | cons io rest =>
      rw [hlist] at hhead
      exact h.rotations io (hlist ▸ mem_cons_self) n hhead

private lemma sum_tells_le_lost {lines : List Line}
    (hlost : ∀ line ∈ lines, line.unrecorded + min 1 line.entry.tells ≤ line.lost)
    (hlight : ∀ line ∈ lines, line.entry.tells ≤ 1) : (lines.map tells).sum ≤ (lines.map lost).sum := by
  apply sum_le_sum
  intro line hline
  have hl := hlost line hline
  have ht := hlight line hline
  unfold tells
  omega

variable (g) in
private lemma Writer.commit_moves (well : Prop) (w : Writer FsStore) : Moves well w (w.commit g.tools) 0 := by
  intro hcounts
  cases hbatch : w.batch with
  | nil =>
    rw [commit_nil hbatch]
    exact Moves.refl w hcounts
  | cons line rest =>
    obtain ⟨store, hstore, hcommit⟩ | ⟨store, e, hstore, hcommit⟩ := commit_cases hcounts.single hbatch
    · rw [hcommit]
      refine ⟨⟨hcounts.single, ?_, ?_, ?_⟩, ?_, rfl, rfl⟩
      · simp [landed]
      · intro hwell
        have hnext := ((hcounts.store hwell).append line.seq (w.batch.map text)).2
        rwa [hstore] at hnext
      · simp [landed]
      · simp only [held, told, landed, map_append, sum_append, map_nil, sum_nil]
        omega
    · rw [hcommit]
      have hill : ¬well := by
        intro hwell
        have hok := ((hcounts.store hwell).append line.seq (w.batch.map text)).1
        simp [hstore] at hok
      have hlost := sum_tells_le_lost hcounts.lost (hcounts.light hill)
      unfold failed
      simp only [hcounts.single, Bool.false_eq_true, if_false]
      refine ⟨⟨rfl, by simp, fun hwell => absurd hwell hill, by simp⟩, ?_, rfl, rfl⟩
      simp only [held, told, map_nil, sum_nil]
      omega

variable {entry : Entry}

variable (g) in
private lemma Writer.append_moves (w : Writer FsStore) (now : Nat) (under : Option String)
    (hlight : well ∨ entry.tells ≤ 1) : Moves well w (w.append g.tools now entry under) entry.tells := by
  unfold append
  extract_lets line w₁ w₂
  have hplaced : Moves well w w₂ entry.tells := by
    intro hcounts
    have hresumed : min 1 entry.tells ≤ if entry.event ≠ "audit.resumed" then 1 else 0 := by
      by_cases hevent : entry.event = "audit.resumed"
      · rw [if_neg (not_not.mpr hevent), tells_own (by simp [ownEvents, hevent])]
        exact Nat.le_refl 0
      · rw [if_pos hevent]
        exact Nat.min_le_left 1 _
    refine ⟨⟨hcounts.single, ?_, hcounts.store, fun hill => ?_⟩, ?_, rfl, rfl⟩
    · refine forall_mem_append.mpr ⟨hcounts.lost, forall_mem_singleton.mpr ?_⟩
      show w.unrecorded + min 1 entry.tells ≤ _ + w.unrecorded
      omega
    · exact forall_mem_append.mpr ⟨hcounts.light hill, forall_mem_singleton.mpr (hlight.resolve_left hill)⟩
    · have hbatch : (w₂.batch.map tells).sum = (w.batch.map tells).sum + (entry.tells + w.unrecorded) := by
        simp [w₂, w₁, line, placeAll, place, tells]
      have htold : w₂.told = (w.emitted.map tells).sum := by
        simp [w₂, w₁, told, placeAll, place]
      rw [held, held, hbatch, htold, told]
      omega
  split
  · exact hplaced.trans (commit_moves g well w₂)
  · exact hplaced

variable (g) in
private lemma Writer.tellRotated_moves (well : Prop) (w : Writer FsStore) (now : Nat)
    (deleted : List (String × String)) : Moves well w (w.tellRotated g.tools now deleted) 0 := by
  have hown : ∀ file : String × String, (rotated file.1 (lineHash g.tools.sha256 file.2)).tells = 0 :=
    fun file => tells_own (show "audit.rotated" ∈ ownEvents by decide)
  have hsum : (deleted.map fun _ : String × String => 0).sum = 0 := by simp
  rw [← hsum]
  refine Moves.foldl (fun file _ w => ?_) w
  have hlight : well ∨ (rotated file.1 (lineHash g.tools.sha256 file.2)).tells ≤ 1 := .inr (by rw [hown]; omega)
  have happend := append_moves g w now none hlight
  rwa [hown] at happend

variable (g) in
private lemma Writer.write_moves (w : Writer FsStore) (now : Nat) (under : Option String)
    (hlight : well ∨ entry.tells ≤ 1) : Moves well w (w.write g.tools now entry under) entry.tells := by
  intro hcounts
  unfold write
  rw [if_neg (by simp [hcounts.single])]
  extract_lets w₁ w₂
  have hfirst : Moves well w w₁ 0 := by
    simp only [w₁]
    split
    · exact commit_moves g well w
    · exact Moves.refl w
  have hsecond : Moves well w₁ w₂ 0 := by
    intro hcounts₁
    simp only [w₂]
    split
    · have hwell : well → (g.tools.port.rotate w₁.store w₁.limits.keepFiles).1.Well :=
        fun hwell => (hcounts₁.store hwell).rotate _
      cases hrotate : g.tools.port.rotate w₁.store w₁.limits.keepFiles with
      | mk store answer =>
        rw [hrotate] at hwell
        have hstore : Moves well w₁ { w₁ with store := store } 0 :=
          fun h => ⟨{ h with store := hwell }, le_rfl, rfl, rfl⟩
        cases answer with
        | ok deleted => exact (hstore.trans (tellRotated_moves g well _ now deleted)) hcounts₁
        | error e => exact hstore hcounts₁
    · exact Moves.refl w₁ hcounts₁
  have hwrite := (hfirst.trans hsecond).trans (append_moves g w₂ now under hlight)
  rw [Nat.zero_add] at hwrite
  exact hwrite hcounts

/-! ### The refusal window -/

def Window.owed (window : Window) : Nat := Map.sum window Slot.passed

private lemma Window.owed_takePassed (window : Window) (second : Nat) :
    window.owed ≤ (window.takePassed second).1.owed + ((window.takePassed second).2.map Prod.snd).sum := by
  unfold owed takePassed Map.sum Map.mapValues Map.filter
  simp only
  induction window.entries with
  | nil => exact Nat.le_refl 0
  | cons e entries ih =>
    have hpassed : ∀ rest : List (RefusalKey × Nat),
        ((((e.1, e.2.unwritten second) :: rest).filter fun passed => 0 < passed.2).map Prod.snd).sum =
          e.2.unwritten second + ((rest.filter fun passed => 0 < passed.2).map Prod.snd).sum := by
      intro rest
      by_cases hzero : 0 < e.2.unwritten second
      · rw [filter_cons_of_pos (by simpa using hzero), map_cons, sum_cons]
      · rw [filter_cons_of_neg (by simpa using hzero)]
        omega
    rw [map_cons, sum_cons, map_cons, hpassed]
    by_cases hcurrent : second ≤ e.2.second
    · have hslot : e.2.passed ≤ e.2.taken.passed + e.2.unwritten second := by
        rw [Slot.unwritten, if_pos hcurrent]
        unfold Slot.passed Slot.taken saturatingAdd
        simp only
        omega
      rw [filter_cons_of_pos (by simpa using hcurrent)]
      simp only [map_cons, sum_cons]
      omega
    · have hslot : e.2.unwritten second = e.2.passed := if_neg hcurrent
      rw [filter_cons_of_neg (by simpa using hcurrent)]
      omega

private lemma Window.owed_admitOne (window : Window) (key : RefusalKey) (second : Nat)
    (hroom : ∀ slot, window.lookup key = some slot → slot.carried + slot.count < u32Max) :
    window.owed + (if (window.admitOne key second).2 = .aggregated then 1 else 0) ≤
      (window.admitOne key second).1.owed := by
  unfold admitOne
  split
  · simp
  set old := (window.lookup key).getD ⟨second, 0, 0⟩ with hold
  have hlookup : (window.lookup key).elim 0 Slot.passed = old.passed := by
    rw [hold]
    cases window.lookup key with
    | none => simp [Slot.passed, saturatingAdd]
    | some slot => rfl
  have hfits : old.carried + old.count < u32Max := by
    rw [hold]
    cases hslot : window.lookup key with
    | none => simp [u32Max]
    | some slot => exact hroom slot hslot
  have hsum := Map.sum_insert window key (old.asOf second).more Slot.passed
  have hgain : old.passed + (if (old.asOf second).more.count ≤ refusalsPerSecond then 0 else 1) ≤
      (old.asOf second).more.passed := by
    unfold Slot.asOf
    split
    all_goals
      unfold Slot.passed Slot.more saturatingAdd refusalsPerSecond
      generalize u32Max = top at hfits ⊢
      simp only
      split <;> omega
  rw [hlookup] at hsum
  unfold owed
  by_cases hcount : (old.asOf second).more.count ≤ refusalsPerSecond
  · rw [if_pos hcount] at hgain
    simp only [hcount, if_true, reduceCtorEq, if_false]
    omega
  · rw [if_neg hcount] at hgain
    simp only [hcount, if_false, if_true]
    omega

/-! ### The writer between two looks at the channel -/

def Message.entries : Message → Nat
  | .entry _ _ => 1
  | _ => 0

def Writer.total (w : Writer FsStore) : Nat := w.held + (w.queue.map Message.entries).sum + w.window.owed

structure Writer.Ready (well : Prop) (w : Writer FsStore) : Prop where
  counts : w.Counts well
  decisions : ∀ entry under, .entry entry under ∈ w.queue → entry.tells = 1
  window : ¬well → ∀ e ∈ w.window.entries, e.2.passed ≤ 1

def Writer.Runs (well : Prop) (w w' : Writer FsStore) : Prop := w.Ready well → w'.Ready well ∧ w.total ≤ w'.total

namespace Writer.Runs

variable {w' w'' : Writer FsStore}

private lemma refl (w : Writer FsStore) : Runs well w w := fun h => ⟨h, le_rfl⟩

private lemma trans (h : Runs well w w') (h' : Runs well w' w'') : Runs well w w'' := by
  intro hready
  obtain ⟨hready', hle⟩ := h hready
  obtain ⟨hready'', hle'⟩ := h' hready'
  exact ⟨hready'', Nat.le_trans hle hle'⟩

private lemma of_moves {gain : Nat} (h : Moves well w w' gain) : Runs well w w' := by
  intro hready
  have htook := h hready.counts
  refine ⟨⟨htook.counts, ?_, ?_⟩, ?_⟩
  · rw [htook.queue]
    exact hready.decisions
  · rw [htook.window]
    exact hready.window
  · have hheld := htook.held
    unfold Writer.total
    rw [htook.queue, htook.window]
    omega

end Writer.Runs

private lemma one_lt_u32Max : 1 < u32Max := by decide

private lemma Slot.carried_of_passed {slot : Slot} (h : slot.passed ≤ 1) : slot.carried ≤ 1 := by
  have htop := one_lt_u32Max
  unfold passed saturatingAdd at h
  generalize u32Max = top at h htop
  omega

private lemma Slot.taken_passed_le (slot : Slot) : slot.taken.passed ≤ slot.passed := by
  unfold passed taken saturatingAdd
  generalize u32Max = top
  simp only
  omega

private lemma Writer.flushWindow_runs (now second : Nat) : Runs well w (w.flushWindow g.tools now second) := by
  intro hready
  unfold flushWindow
  have htaken := w.window.owed_takePassed second
  have hlight : ∀ aggregate ∈ (w.window.takePassed second).2,
      well ∨ (aggregated aggregate.1 aggregate.2).tells ≤ 1 := by
    intro aggregate hmem
    rw [tells_aggregated]
    by_cases hwell : well
    · exact .inl hwell
    obtain ⟨e, he, rfl⟩ := mem_map.mp (mem_of_mem_filter hmem)
    have hpassed := hready.window hwell e he
    have hcarried := Slot.carried_of_passed hpassed
    refine .inr ?_
    show e.2.unwritten second ≤ 1
    unfold Slot.unwritten
    split
    · exact hcarried
    · exact hpassed
  cases htake : w.window.takePassed second with
  | mk window passed =>
    rw [htake] at htaken hlight
    have hwrites : ∀ aggregate ∈ passed, ∀ w : Writer FsStore, Moves well w
        (w.write g.tools now (aggregated aggregate.1 aggregate.2) none) aggregate.2 := by
      intro aggregate hmem w
      have hwrite := write_moves g w now none (hlight aggregate hmem)
      rwa [tells_aggregated] at hwrite
    have hstart : ({ w with window := window } : Writer FsStore).Ready well := by
      refine ⟨⟨hready.counts.single, hready.counts.lost, hready.counts.store, hready.counts.light⟩,
        hready.decisions, ?_⟩
      intro hill e he
      rw [show window = (w.window.takePassed second).1 by rw [htake]] at he
      obtain ⟨e₀, he₀, rfl⟩ := mem_map.mp he
      exact Nat.le_trans (Slot.taken_passed_le e₀.2) (hready.window hill e₀ (mem_of_mem_filter he₀))
    have hmoves := Moves.foldl hwrites { w with window := window }
    have htook := hmoves hstart.counts
    refine ⟨(Runs.of_moves hmoves hstart).1, ?_⟩
    have hheld := htook.held
    simp only at htaken ⊢
    unfold total
    rw [htook.queue, htook.window]
    show w.held + _ + _ ≤ _
    have hsame : ({ w with window := window } : Writer FsStore).held = w.held := rfl
    rw [hsame] at hheld
    simp only at hheld ⊢
    omega

private lemma Writer.commit_runs : Runs well w (w.commit g.tools) := Runs.of_moves (commit_moves g well w)

variable (g) in
private lemma Writer.take_moves (w : Writer FsStore) (now : Nat) (under : Option String)
    (hlight : well ∨ entry.tells ≤ 1) : Moves well w (w.take g.tools now entry under) entry.tells := by
  have hrefusal : Moves well w (if entry.isRefusal then { w with queuedRefusals := w.queuedRefusals - 1 }
    else w) 0 := by
    intro hcounts
    split
    · exact ⟨⟨hcounts.single, hcounts.lost, hcounts.store, hcounts.light⟩, le_rfl, rfl, rfl⟩
    · exact Moves.refl w hcounts
  have htake := hrefusal.trans (write_moves g _ now under hlight)
  rwa [Nat.zero_add] at htake

private lemma Writer.handleMessage_ready (now : Nat)
    (hmessage : ∀ entry under, message = .entry entry under → entry.tells = 1) (hready : w.Ready well) :
    (w.handleMessage g.tools now message).Ready well ∧
      w.total + message.entries ≤ (w.handleMessage g.tools now message).total := by
  have hflush : Runs well w ((w.flushWindow g.tools now u64Max).commit g.tools) :=
    (flushWindow_runs now u64Max).trans commit_runs
  cases message with
  | entry entry under =>
    have htells : entry.tells = 1 := hmessage entry under rfl
    have htake := take_moves g w now under (.inr (Nat.le_of_eq htells) : well ∨ entry.tells ≤ 1)
    have htook := htake hready.counts
    have hheld := htook.held
    refine ⟨(Runs.of_moves htake hready).1, ?_⟩
    show w.total + 1 ≤ (w.take g.tools now entry under).total
    rw [total, total, htook.queue, htook.window]
    omega
  | drain => exact hflush hready
  | close =>
    obtain ⟨hnext, hle⟩ := hflush hready
    have hclose : w.handleMessage g.tools now .close = (w.flushWindow g.tools now u64Max).commit g.tools := by
      simp [handleMessage, hnext.counts.single]
    rw [hclose]
    exact ⟨hnext, hle⟩

private lemma Writer.handle_runs {now : Nat} (hqueue : w.queue = message :: queue) :
    Runs well w ({ w with queue := queue }.handleMessage g.tools now message) := by
  intro hready
  have hrest : ({ w with queue := queue } : Writer FsStore).Ready well := by
    refine ⟨⟨hready.counts.single, hready.counts.lost, hready.counts.store, hready.counts.light⟩, ?_, hready.window⟩
    intro entry under hmem
    exact hready.decisions entry under (hqueue ▸ mem_cons_of_mem _ hmem)
  have htotal : w.total = ({ w with queue := queue } : Writer FsStore).total + message.entries := by
    have hsum : (w.queue.map Message.entries).sum = message.entries + (queue.map Message.entries).sum := by
      rw [hqueue, map_cons, sum_cons]
    show w.held + _ + w.window.owed = w.held + (queue.map Message.entries).sum + w.window.owed + _
    omega
  have hmessage : ∀ entry under, message = .entry entry under → entry.tells = 1 := by
    rintro entry under rfl
    exact hready.decisions entry under (hqueue ▸ mem_cons_self)
  rw [htotal]
  exact handleMessage_ready now hmessage hrest

private lemma Writer.handleQueued_runs (now n : Nat) : Runs well w (w.handleQueued g.tools now n) := by
  induction n generalizing w with
  | zero => exact Runs.refl w
  | succ n ih =>
    unfold handleQueued
    cases hqueue : w.queue with
    | nil => exact Runs.refl w
    | cons message queue => exact (handle_runs hqueue).trans ih

private lemma Writer.tick_runs (now : Nat) : Runs well w (w.tick g.tools now) := by
  have hresumed : ∀ v : Writer FsStore, Runs well v (v.append g.tools now resumed none) := by
    intro v
    have htells : resumed.tells = 0 := tells_own (by decide)
    exact Runs.of_moves (append_moves g v now none (.inr (by rw [htells]; omega)))
  unfold tick
  extract_lets w₁ w₂ w₃ w₄
  have hfirst : Runs well w w₂ :=
    ((handleQueued_runs now channelCapacity).trans (flushWindow_runs now (now / 1000))).trans
      commit_runs
  have hsecond : Runs well w₂ w₃ := by
    simp only [w₃]
    split
    · exact hresumed w₂
    · exact Runs.refl w₂
  have hthird : Runs well w₃ w₄ := commit_runs
  split
  · refine (hfirst.trans hsecond).trans (hthird.trans ?_)
    split
    · exact (hresumed w₄).trans commit_runs
    · exact Runs.refl w₄
  · exact hfirst

end Calls

/-! ### Runs -/

def StoreIo.well (io : StoreIo) : Bool :=
  io.appends.all (· = .written) && io.rotations.all fun
    | .crashed _ => false
    | _ => true

def Writer.lightBatch (w : Writer FsStore) : Bool := w.batch.all fun line => line.entry.tells ≤ 1

def Writer.lightWindow (w : Writer FsStore) : Bool := w.window.entries.all fun e => e.2.passed ≤ 1

/-- Nothing is lost uncounted in this step: an append fails only with no aggregate of more than one in the batch, and
the refusals of one event and peer are counted within 32 bits. -/
def System.tellsAll (g : Setting) : System → Act → Bool
  | .up w _ _, .record _ decision =>
    !decision.entry.isRefusal || (w.window.lookup (Writer.refusalKey g.tools decision.entry)).all fun slot =>
      slot.carried + slot.count < u32Max
  | .up w _ _, .handle _ io =>
    io.well || (w.lightBatch && (w.queue.head?.all (·.entries = 1) || w.lightWindow))
  | .up w _ _, .commit io => io.well || w.lightBatch
  | .up w _ _, .tick _ io => io.well || (w.lightBatch && w.lightWindow)
  | _, _ => true

structure Writer.Balanced (w : Writer FsStore) (given : Nat) : Prop where
  single : w.perLease = false
  alive : w.store.crashed = false
  lost : ∀ line ∈ w.batch, line.unrecorded + min 1 line.entry.tells ≤ line.lost
  decisions : ∀ entry under, .entry entry under ∈ w.queue → entry.tells = 1
  balance : given ≤ w.total

def System.Balanced : System → Prop
  | .down _ _ => True
  | .up w given _ => w.Balanced given

section Runs

variable {g : Setting} {w : Writer FsStore} {given : Nat}

variable {io : StoreIo} {w' : Writer FsStore}

private lemma StoreIo.well_armed {store : FsStore} (hwell : io.well = true) (halive : store.crashed = false) :
    (System.armed store io).Well := by
  unfold well at hwell
  rw [Bool.and_eq_true, all_eq_true, all_eq_true] at hwell
  refine ⟨fun a ha => of_decide_eq_true (hwell.1 a ha), ?_, halive⟩
  rintro a ha n rfl
  exact Bool.false_ne_true (hwell.2 _ ha)

private lemma Writer.Balanced.counts (h : w.Balanced given) (hio : io.well = true ∨ w.lightBatch = true) :
    ({ w with store := System.armed w.store io } : Writer FsStore).Counts (io.well = true) where
  single := h.single
  lost := h.lost
  store hwell := StoreIo.well_armed hwell h.alive
  light hill line hline := by
    have hlight := all_eq_true.mp (hio.resolve_left hill) line hline
    exact of_decide_eq_true hlight

private lemma System.Balanced.after_ready {well : Prop} (hready : w'.Ready well) (hle : given ≤ w'.total)
    (written : Bool) : (after w' given written).Balanced := by
  unfold after
  split
  · trivial
  next hcrashed =>
    exact ⟨hready.counts.single, by simpa using hcrashed, hready.counts.lost, hready.decisions, hle⟩

private lemma System.Balanced.after_took {well : Prop} {gain : Nat} (htook : w.Took well w' gain)
    (hdecisions : ∀ entry under, .entry entry under ∈ w.queue → entry.tells = 1) (hle : given ≤ w.total + gain)
    (written : Bool) : (after w' given written).Balanced := by
  unfold after
  split
  · trivial
  rename_i hcrashed
  refine ⟨htook.counts.single, by simpa using hcrashed, htook.counts.lost, ?_, ?_⟩
  · rwa [htook.queue]
  · have hheld := htook.held
    unfold Writer.total at hle ⊢
    rw [htook.queue, htook.window]
    omega

private lemma System.Balanced.start (dir : Dir) (written : Bool) (limits : Limits) (now : Nat) (io : StoreIo) :
    (System.start g dir written limits now io).Balanced := by
  unfold System.start Writer.start
  simp only [Setting.tools, FsStore.port]
  set store := System.armed (FsStore.opened dir) io
  set tail := tailIn g.sha256 g.reader.read lastChunk store.dir
  set w := Writer.opened g.tools store limits .one tail with hw
  have hcounts : w.Counts False := ⟨by simp [hw, Writer.opened], by simp [hw, Writer.opened], False.elim,
    by simp [hw, Writer.opened]⟩
  have hqueue : ∀ entry under, Message.entry entry under ∈ w.queue → entry.tells = 1 := by simp [hw, Writer.opened]
  have hkept : (System.after w 0 written).Balanced :=
    after_took (Writer.Moves.refl w hcounts) hqueue (Nat.zero_le _) written
  have hrepaired : ∀ lastWhole,
      (System.after ((w.write g.tools now (chainBroken lastWhole) none).commit g.tools) 0 written).Balanced := by
    intro lastWhole
    have hlight : False ∨ (chainBroken lastWhole).tells ≤ 1 :=
      .inr (by rw [tells_own (show "audit.chain_broken" ∈ ownEvents by decide)]; omega)
    have hmoves := (Writer.write_moves g w now none hlight).trans (Writer.commit_moves g False _)
    exact after_took (hmoves hcounts) hqueue (Nat.zero_le _) written
  clear_value tail
  cases tail with
  | none => exact hkept
  | some tail =>
    obtain ⟨lastLine, lastSeq, torn, lastWhole⟩ := tail
    cases torn with
    | false => exact hkept
    | true => exact hrepaired _

section

variable (h : w.Balanced given)
include h

private lemma Writer.Balanced.ready (hio : io.well = true ∨ w.lightBatch = true ∧ w.lightWindow = true) :
    ({ w with store := System.armed w.store io } : Writer FsStore).Ready (io.well = true) where
  counts := h.counts (hio.imp_right And.left)
  decisions := h.decisions
  window hill e he := by
    have hlight := all_eq_true.mp (hio.resolve_left hill).2 e he
    exact of_decide_eq_true hlight

private lemma Writer.Balanced.trySend
    (hsend : w.trySend message = some w') (hmessage : ∀ entry under, message = .entry entry under → entry.tells = 1) :
    w'.Balanced (given + message.entries) := by
  obtain ⟨-, hsend⟩ := Option.ite_none_right_eq_some.mp hsend
  cases hsend
  refine ⟨h.single, h.alive, h.lost, ?_, ?_⟩
  · intro entry under hmem
    rcases mem_append.mp hmem with hold | hnew
    · exact h.decisions entry under hold
    · exact hmessage entry under (mem_singleton.mp hnew).symm
  · have hbalance := h.balance
    have hsum : ((w.queue ++ [message]).map Message.entries).sum =
        (w.queue.map Message.entries).sum + message.entries := by
      rw [map_append, sum_append, map_singleton, sum_singleton]
    have htotal : w.total = w.held + (w.queue.map Message.entries).sum + w.window.owed := rfl
    show given + message.entries ≤ w.held + ((w.queue ++ [message]).map Message.entries).sum + w.window.owed
    omega

private lemma Writer.Balanced.unavailable : w.unavailable.Balanced (given + 1) := by
  refine { h with balance := ?_ }
  have hbalance := h.balance
  have htotal : w.unavailable.total = w.total + 1 := by
    simp only [Writer.total, Writer.held, Writer.told, Writer.unavailable]
    omega
  omega

private lemma Writer.Balanced.record (now : Nat) (decision : Decision)
    (hroom : decision.entry.isRefusal = true → ∀ slot,
      w.window.lookup (refusalKey g.tools decision.entry) = some slot → slot.carried + slot.count < u32Max) :
    (w.record g.tools now decision.entry none).1.Balanced (given + 1) := by
  have hmessage : ∀ entry under, Message.entry decision.entry none = .entry entry under → entry.tells = 1 := by
    intro entry under he
    cases he
    exact decision.tells
  unfold Writer.record
  by_cases hfailing : w.failing = true
  · rw [if_pos hfailing]
    exact h.unavailable
  rw [if_neg hfailing]
  by_cases hrefusal : decision.entry.isRefusal = true
  · rw [if_neg (by simp [hrefusal])]
    have howed := w.window.owed_admitOne (refusalKey g.tools decision.entry) (now / 1000) (hroom hrefusal)
    cases hcount : w.window.admitOne (refusalKey g.tools decision.entry) (now / 1000) with
    | mk window counted =>
      rw [hcount] at howed
      have hwindow : ∀ gain, w.window.owed + gain ≤ window.owed →
          ({ w with window := window } : Writer FsStore).Balanced (given + gain) := by
        intro gain hgain
        refine ⟨h.single, h.alive, h.lost, h.decisions, ?_⟩
        have hbalance := h.balance
        have htotal : w.total = w.held + (w.queue.map Message.entries).sum + w.window.owed := rfl
        show given + gain ≤ w.held + (w.queue.map Message.entries).sum + window.owed
        omega
      cases counted with
      | aggregated => exact hwindow 1 howed
      | noRoom => exact (hwindow 0 howed).unavailable
      | queue =>
        have hkept := hwindow 0 howed
        simp only
        split
        · exact hkept.unavailable
        cases hsend : ({ w with window := window, queuedRefusals := w.queuedRefusals + 1 } : Writer FsStore).trySend
            (.entry decision.entry none) with
        | none => exact hkept.unavailable
        | some w' =>
          have hcounted : ({ w with window := window, queuedRefusals :=
            w.queuedRefusals + 1 } : Writer FsStore).Balanced
              given := ⟨hkept.single, hkept.alive, hkept.lost, hkept.decisions, hkept.balance⟩
          exact hcounted.trySend hsend hmessage
  · rw [if_pos (by simp [hrefusal])]
    cases hsend : w.trySend (.entry decision.entry none) with
    | none => exact h.unavailable
    | some w' => exact h.trySend hsend hmessage

private lemma Writer.Balanced.handle (now : Nat) (written : Bool) (hqueue : w.queue = message :: queue)
    (htells : io.well = true ∨ w.lightBatch = true ∧ (message.entries = 1 ∨ w.lightWindow = true)) :
    (System.after ({ w with queue := queue, store := System.armed w.store io }.handleMessage g.tools now message) given
      written).Balanced := by
  have hsum : (w.queue.map Message.entries).sum = message.entries + (queue.map Message.entries).sum := by
    rw [hqueue, map_cons, sum_cons]
  have hdecisions : ∀ entry under, Message.entry entry under ∈ queue → entry.tells = 1 := by
    intro entry under hmem
    exact h.decisions entry under (hqueue ▸ mem_cons_of_mem _ hmem)
  have hbalance : given ≤ w.held + (w.queue.map Message.entries).sum + w.window.owed := h.balance
  by_cases hentry : message.entries = 1
  · -- An entry is written whatever the window holds.
    cases message with
    | entry entry under =>
      have htold : entry.tells = 1 := h.decisions entry under (hqueue ▸ mem_cons_self)
      have hcounts := h.counts (htells.imp_right And.left)
      have htake := take_moves g ({ w with queue := queue, store := System.armed w.store io } : Writer FsStore) now
        under (.inr (Nat.le_of_eq htold) : io.well = true ∨ entry.tells ≤ 1)
      refine System.Balanced.after_took
        (htake ⟨hcounts.single, hcounts.lost, hcounts.store, hcounts.light⟩) hdecisions ?_
        written
      show given ≤ w.held + (queue.map Message.entries).sum + w.window.owed + entry.tells
      omega
    | drain | close => cases hentry
  · have hready := h.ready (htells.imp_right fun hlight => ⟨hlight.1, hlight.2.resolve_left hentry⟩)
    have hruns : Writer.Runs (io.well = true) ({ w with store := System.armed w.store io } : Writer FsStore)
        ({ w with queue := queue, store := System.armed w.store io }.handleMessage g.tools now message) :=
      handle_runs hqueue
    obtain ⟨hready', hle⟩ := hruns hready
    exact System.Balanced.after_ready hready' (Nat.le_trans h.balance hle) written

end

private lemma System.Balanced.step {s s' : System} {act : Act} (h : s.Balanced) (htells : s.tellsAll g act = true)
    (hstep : s.step g act = some s') : s'.Balanced := by
  cases s with
  | down dir written =>
    cases act with
    | start limits now opening io =>
      cases opening with
      | opened =>
        cases hstep
        exact start dir written limits now io
      | failed mended =>
        cases hstep
        trivial
    | _ => cases hstep
  | up w given written =>
    replace h : w.Balanced given := h
    cases act with
    | record now decision =>
      cases hstep
      refine h.record now decision ?_
      intro hrefusal slot hslot
      simp only [System.tellsAll, hrefusal, Bool.not_true, Bool.false_or, hslot, Option.all_some, decide_eq_true_eq]
        at htells
      exact htells
    | ask closing =>
      obtain ⟨w', hsend, rfl⟩ := Option.map_eq_some_iff.mp hstep
      cases closing <;> exact h.trySend hsend (by simp)
    | handle now io =>
      cases hqueue : w.queue with
      | nil => simp [System.step, hqueue] at hstep
      | cons message queue =>
        simp only [System.step, hqueue, Option.some.injEq] at hstep
        rw [← hstep]
        simp only [System.tellsAll, Bool.or_eq_true, Bool.and_eq_true, hqueue, head?_cons, Option.all_some,
          decide_eq_true_eq] at htells
        exact h.handle now written hqueue htells
    | commit io =>
      cases hstep
      simp only [System.tellsAll, Bool.or_eq_true] at htells
      exact after_took (Writer.commit_moves g _ _ (h.counts htells)) h.decisions
        (Nat.le_trans h.balance (Nat.le_add_right _ _)) written
    | tick now io =>
      cases hstep
      simp only [System.tellsAll, Bool.or_eq_true, Bool.and_eq_true] at htells
      obtain ⟨hready, hle⟩ := Writer.tick_runs (g := g) now (h.ready htells)
      exact after_ready hready (Nat.le_trans h.balance hle) written
    | stop | crash =>
      cases hstep
      trivial
    | start limits now opening io => cases hstep

end Runs

def refusal : Decision := ⟨.new "a" "refused", by decide, by decide⟩

/-- Twelve refusals in one second, a drain before each that is queued and one after: every append fails, that of the
aggregate of the other two first. -/
def lostAggregate : List Act :=
  .start ⟨1000000, 16⟩ 0 .opened
    ⟨[], []⟩ :: .ask false :: (List.replicate 10 [.record 0 refusal, .ask false]).flatten ++
    [.record 0 refusal, .record 0 refusal, .tick 0 ⟨List.replicate 11 .failed, []⟩]

def System.tellsShort : System → Bool
  | .up w given _ => w.queue.isEmpty && w.batch.isEmpty && w.window.entries.isEmpty && decide (w.told < given)
  | .down _ _ => false

/-- The refusals of the aggregate that was lost are counted nowhere. -/
theorem lost_aggregate_untold :
    ¬∀ (g : Setting) (w : Writer FsStore) (given : Nat) (written : Bool), Reach .empty (System.step g)
      (.up w given written) →
      w.queue = [] → w.batch = [] → (∀ key slot, w.window.lookup key = some slot → slot.passed = 0) →
      given ≤ (w.emitted.map tells).sum + w.unrecorded := by
  intro hall
  have hrun : ∃ s ∈ run (System.step plainSetting) .empty lostAggregate, s.tellsShort = true := by decide +kernel
  obtain ⟨s, hreach, hshort⟩ := Reach.exists_of_run _ hrun
  cases s with
  | down dir written => cases hshort
  | up w given written =>
    simp only [System.tellsShort, Bool.and_eq_true, List.isEmpty_iff, decide_eq_true_eq] at hshort
    obtain ⟨⟨⟨hqueue, hbatch⟩, hwindow⟩, hlt⟩ := hshort
    refine Nat.not_le_of_lt hlt (hall plainSetting w given written hreach hqueue hbatch ?_)
    intro key slot hslot
    have hmem := AList.mem_lookup_iff.mp hslot
    simp [hwindow] at hmem

/-- Whenever nothing is queued, batched or counted in the refusal window, the record tells of every decision given to
it, or has it still to tell, in every run that loses no aggregate. -/
theorem decisions_told (g : Setting) {w : Writer FsStore} {given : Nat} {written : Bool}
    (h : Reach .empty (restrict (fun s act => System.tellsAll g s act = true) (System.step g)) (.up w given written))
    (hqueue : w.queue = []) (hbatch : w.batch = [])
    (hwindow : ∀ key slot, w.window.lookup key = some slot → slot.passed = 0) :
    given ≤ (w.emitted.map Line.tells).sum + w.unrecorded := by
  have hbalanced : System.Balanced (.up w given written) := by
    exact h.invariant_restrict trivial fun _ _ _ hs htells hstep => hs.step htells hstep
  have howed : w.window.owed = 0 := by
    refine sum_eq_zero ?_
    intro n hn
    obtain ⟨e, he, rfl⟩ := mem_map.mp hn
    exact hwindow e.1 e.2 (AList.mem_lookup_iff.mpr he)
  have hbalance := hbalanced.balance
  rw [Writer.total, Writer.held, Writer.told, hqueue, hbatch, howed] at hbalance
  simpa using hbalance

def System.toldOf : System → Bool
  | .up w given _ =>
    w.queue.isEmpty && w.batch.isEmpty && w.window.entries.isEmpty && decide (given = 2 ∧ w.emitted.length = 2)
  | .down _ _ => false

/-- The first decision is lost with a write that fails and told by the line that follows it, the second by its own. -/
theorem decisions_told_after_failure : ∃ (w : Writer FsStore) (given : Nat) (written : Bool),
      Reach .empty (restrict (fun s act => System.tellsAll plainSetting s act = true) (System.step plainSetting))
        (.up w given written) ∧
      given = 2 ∧ w.emitted.length = 2 ∧ given ≤ (w.emitted.map tells).sum + w.unrecorded := by
  have hrun : ∃ s ∈ run (restrict (fun s act => System.tellsAll plainSetting s act = true)
    (System.step plainSetting)) .empty
      [.start ⟨1000000, 16⟩ 0 .opened ⟨[], []⟩, .record 0 allowed, .tick 0 ⟨[.failed], []⟩, .record 0 allowed,
        .tick 0 ⟨[], []⟩], s.toldOf = true := by decide +kernel
  obtain ⟨s, hreach, htold⟩ := Reach.exists_of_run _ hrun
  cases s with
  | down dir written => cases htold
  | up w given written =>
    simp only [System.toldOf, Bool.and_eq_true, List.isEmpty_iff, decide_eq_true_eq] at htold
    obtain ⟨⟨⟨hqueue, hbatch⟩, hwindow⟩, hgiven, hlength⟩ := htold
    refine ⟨w, given, written, hreach, hgiven, hlength, decisions_told plainSetting hreach hqueue hbatch ?_⟩
    intro key slot hslot
    have hmem := AList.mem_lookup_iff.mp hslot
    simp [hwindow] at hmem

end OpampFleet.Server.Audit
