import OpampFleet.Lib.Map
import OpampFleet.Lib.Transition

/-!
# The admission throttle

The model of `throttle.rs`: one table of peer addresses, as they are counted, with their failures and the attempts
being verified. Times are in milliseconds, and stay within 64 bits. Which one of several addresses a full table evicts
is up to the order of a hash map, so the address comes with the act, which checks that no other goes first.
-/

namespace OpampFleet.Server.Throttle

open Lib List Option Map

variable {α : Type} [DecidableEq α]

structure Limits where
  maxFailures : Nat
  windowSecs : Nat
  backoffSecs : Nat
  fits : maxFailures < 2 ^ 32

structure Entry where
  sinceMs : Nat
  failures : Nat
  blockedUntilMs : Option Nat
  lastMs : Nat
  inFlight : Nat

namespace Entry

def opened (now : Nat) : Entry := ⟨now, 0, none, now, 0⟩

def inBackoff (entry : Entry) (now : Nat) : Bool := entry.blockedUntilMs.any fun ms => now < ms

def window (limits : Limits) (entry : Entry) (now : Nat) : Entry :=
  if limits.windowSecs * 1000 < now - entry.sinceMs then { entry with sinceMs := now, failures := 0 } else entry

def failed (limits : Limits) (entry : Entry) (now : Nat) : Entry :=
  let entry := entry.window limits now
  let entry := { entry with failures := min (entry.failures + 1) (2 ^ 32 - 1), lastMs := now }
  if limits.maxFailures ≤ entry.failures then
    { entry with blockedUntilMs := some (now + limits.backoffSecs * 1000), failures := 0, sinceMs := now }
  else entry

def busy (entry : Entry) (now : Nat) : Bool := entry.inBackoff now || 0 < entry.inFlight

def goesFirst (now : Nat) (entry other : Entry) : Bool :=
  if entry.busy now = other.busy now then entry.lastMs ≤ other.lastMs else other.busy now

end Entry

abbrev Table (α : Type) := Map α Entry

def oldest (table : Table α) (now : Nat) (address : α) : Bool :=
  (table.lookup address).any fun entry => table.values.all fun other => entry.goesFirst now other

def entryFor (capacity : Nat) (table : Table α) (key : α) (now : Nat) (evicted : α) : Option (Table α × Entry) :=
  match table.lookup key with
  | some entry => some (table, entry)
  | none =>
    if table.entries.length < max capacity 1 then some (table, .opened now)
    else if oldest table now evicted then some (table.erase evicted, .opened now)
    else none

inductive Act (α : Type) where
  | failed (peer : α) (now : Nat) (evicted : α)
  | begin (peer : α) (now : Nat) (evicted : α)
  | drop (peer : α)

def Act.time : Act α → Nat
  | .failed _ now _ => now
  | .begin _ now _ => now
  | .drop _ => 0

def step (limits : Limits) (capacity : Nat) (table : Table α) : Act α → Option (Table α)
  | .failed peer now evicted =>
    (entryFor capacity table peer now evicted).map fun (table, entry) => table.insert peer (entry.failed limits now)
  | .begin peer now evicted =>
    (entryFor capacity table peer now evicted).map fun (table, entry) =>
      table.insert peer
        (if limits.maxFailures ≤ entry.failures + entry.inFlight then entry
        else { entry with inFlight := entry.inFlight + 1 })
  | .drop peer =>
    some ((table.lookup peer).elim table fun entry =>
      table.insert peer { entry with inFlight := entry.inFlight - 1 })

private lemma entryFor_eq {capacity now : Nat} {table rest : Table α} {key evicted : α} {entry : Entry}
    (h : entryFor capacity table key now evicted = some (rest, entry)) :
    entry = (table.lookup key).getD (.opened now) ∧ (rest = table ∨
      rest = table.erase evicted ∧ oldest table now evicted = true ∧ table.lookup key = none ∧
        max capacity 1 ≤ table.entries.length) := by
  unfold entryFor at h
  split at h
  next hheld =>
    cases h
    exact ⟨by rw [hheld, getD_some], .inl rfl⟩
  rename_i hnone
  rw [hnone, getD_none]
  split at h
  · cases h
    exact ⟨rfl, .inl rfl⟩
  rename_i hfull
  split at h
  next holdest =>
    cases h
    exact ⟨rfl, .inr ⟨rfl, holdest, rfl, Nat.le_of_not_lt hfull⟩⟩
  · cases h

/-! ### Failures of one address -/

namespace Entry

variable {limits : Limits} {entry other : Entry} {now last : Nat} {times : List Nat}

private lemma failed_eq (limits : Limits) (entry : Entry) (now : Nat) : entry.failed limits now =
    if limits.maxFailures ≤ (entry.window limits now).failures + 1 then
      ⟨now, 0, some (now + limits.backoffSecs * 1000), now, (entry.window limits now).inFlight⟩
    else
      ⟨(entry.window limits now).sinceMs, (entry.window limits now).failures + 1,
        (entry.window limits now).blockedUntilMs, now, (entry.window limits now).inFlight⟩ := by
  have hfits := limits.fits
  unfold failed
  generalize entry.window limits now = window
  split
  next hmax =>
    have hmin : limits.maxFailures ≤ min (window.failures + 1) (2 ^ 32 - 1) := by omega
    exact if_pos hmin
  next hbelow =>
    have hmin : min (window.failures + 1) (2 ^ 32 - 1) = window.failures + 1 := by omega
    simp only [hmin, if_neg hbelow]

private lemma window_failures_le : (entry.window limits now).failures ≤ entry.failures := by
  unfold window
  split
  · exact Nat.zero_le _
  · exact le_rfl

private lemma window_runs : now - (entry.window limits now).sinceMs ≤ limits.windowSecs * 1000 := by
  unfold window
  split
  · simp
  · omega

private lemma window_of_runs (h : now - entry.sinceMs ≤ limits.windowSecs * 1000) :
    entry.window limits now = entry :=
  if_neg (Nat.not_lt.mpr h)

private lemma failed_window : (entry.window limits now).failed limits now = entry.failed limits now := by
  unfold failed
  rw [window_of_runs window_runs]

private lemma failed_counts (hruns : now - entry.sinceMs ≤ limits.windowSecs * 1000)
    (hbelow : entry.failures + 1 < limits.maxFailures) :
    (entry.failed limits now).sinceMs = entry.sinceMs ∧ (entry.failed limits now).failures = entry.failures + 1 := by
  rw [failed_eq, window_of_runs hruns, if_neg (Nat.not_le.mpr hbelow)]
  exact ⟨rfl, rfl⟩

private lemma failed_failures_le : (entry.failed limits now).failures ≤ entry.failures + 1 := by
  have hwindow := @window_failures_le limits entry now
  rw [failed_eq]
  split
  · exact Nat.zero_le _
  · exact Nat.succ_le_succ hwindow

/-- The failures that the window of one at `last` has counted before it, after those at `times`. -/
private def countedAt (limits : Limits) (entry : Entry) (times : List Nat) (last : Nat) : Nat :=
  ((times.foldl (failed limits) entry).window limits last).failures

private lemma countedAt_le : entry.countedAt limits times last ≤ entry.failures + times.length := by
  induction times generalizing entry with
  | nil => exact window_failures_le
  | cons now times ih =>
    have hrest := @ih (entry.failed limits now)
    have hfirst := @failed_failures_le limits entry now
    rw [length_cons]
    exact hrest.trans (by omega)

private lemma countedAt_window :
    (entry.window limits (times.headD last)).countedAt limits times last = entry.countedAt limits times last := by
  cases times with
  | nil =>
    show ((entry.window limits last).window limits last).failures = (entry.window limits last).failures
    rw [window_of_runs window_runs]
  | cons now times =>
    show countedAt limits (failed limits (entry.window limits now) now) times last = _
    rw [failed_window]
    rfl

/-- Few enough failures complete the count only if none before the last ends the window or completes the count. -/
private lemma of_countedAt (hfew : times.length < limits.maxFailures) (hbelow : entry.failures < limits.maxFailures)
    (hruns : times.headD last - entry.sinceMs ≤ limits.windowSecs * 1000)
    (hmax : limits.maxFailures ≤ entry.countedAt limits times last + 1) :
    entry.failures + times.length + 1 = limits.maxFailures ∧ last - entry.sinceMs ≤ limits.windowSecs * 1000 := by
  induction times generalizing entry with
  | nil =>
    rw [headD_nil] at hruns
    rw [countedAt, foldl_nil, window_of_runs hruns] at hmax
    rw [length_nil]
    exact ⟨by omega, hruns⟩
  | cons now times ih =>
    rw [headD_cons] at hruns
    rw [length_cons] at hfew ⊢
    have hle := @countedAt_le limits (entry.failed limits now) last times
    change limits.maxFailures ≤ (entry.failed limits now).countedAt limits times last + 1 at hmax
    rcases Nat.lt_or_ge (entry.failures + 1) limits.maxFailures with hbelow' | hmax'
    · obtain ⟨hsince, hfailures⟩ := failed_counts hruns hbelow'
      rcases Nat.lt_or_ge (limits.windowSecs * 1000) (times.headD last - entry.sinceMs) with hends | hruns'
      · -- the window ends with the next one, the first of a new window
        rw [← hsince] at hends
        have hle := @countedAt_le limits ((entry.failed limits now).window limits (times.headD last)) last times
        rw [countedAt_window, window, if_pos hends] at hle
        simp only at hle
        omega
      · obtain ⟨hsum, hlast⟩ := ih (by omega) (by omega) (by rw [hsince]; exact hruns') hmax
        rw [hsince] at hlast
        exact ⟨by omega, hlast⟩
    · -- this one completes the count, and those after it are too few
      rw [failed_eq, window_of_runs hruns, if_pos hmax'] at hle hmax
      simp only at hle
      omega

private lemma countedAt_of_runs (hruns : ∀ now ∈ times ++ [last], now - entry.sinceMs ≤ limits.windowSecs * 1000)
    (hfew : entry.failures + times.length < limits.maxFailures) :
    entry.countedAt limits times last = entry.failures + times.length := by
  induction times generalizing entry with
  | nil =>
    rw [countedAt, foldl_nil, window_of_runs (hruns last (by simp))]
    rfl
  | cons now times ih =>
    rw [length_cons] at hfew ⊢
    obtain ⟨hsince, hfailures⟩ := failed_counts (hruns now (by simp)) (by omega)
    have hrest := @ih (entry.failed limits now) (fun later hlater => ?_) (by omega)
    · show (entry.failed limits now).countedAt limits times last = _
      omega
    · rw [hsince]
      exact hruns later (mem_cons_of_mem _ hlater)

private lemma countedAt_iff (hcount : times.length + 1 = limits.maxFailures)
    (hbelow : entry.failures < limits.maxFailures) (hordered : ∀ now ∈ times, now ≤ last) :
    limits.maxFailures ≤ entry.countedAt limits times last + 1 ↔
      (entry.window limits (times.headD last)).failures = 0 ∧
        last - (entry.window limits (times.headD last)).sinceMs ≤ limits.windowSecs * 1000 := by
  rw [← countedAt_window]
  have hle := @window_failures_le limits entry (times.headD last)
  have hruns := @window_runs limits entry (times.headD last)
  generalize entry.window limits (times.headD last) = window at hle hruns ⊢
  constructor
  · intro hmax
    obtain ⟨hsum, hlast⟩ := of_countedAt (by omega) (by omega) hruns hmax
    exact ⟨by omega, hlast⟩
  · rintro ⟨hzero, hlast⟩
    have hall : ∀ now ∈ times ++ [last], now - window.sinceMs ≤ limits.windowSecs * 1000 := by
      intro now hnow
      have hnow : now ≤ last := (mem_append.mp hnow).elim (hordered now) fun h => (mem_singleton.mp h).le
      omega
    rw [countedAt_of_runs hall (by omega)]
    omega

private lemma foldl_failed_lt (hpos : 0 < limits.maxFailures) (hbelow : entry.failures < limits.maxFailures) :
    (times.foldl (failed limits) entry).failures < limits.maxFailures := by
  induction times generalizing entry with
  | nil => exact hbelow
  | cons now times ih =>
    refine ih ?_
    rw [failed_eq]
    split
    · exact hpos
    next hbelow => exact Nat.lt_of_not_le hbelow

def count (entry : Entry) : Nat × Nat × Option Nat := (entry.sinceMs, entry.failures, entry.blockedUntilMs)

private lemma foldl_failed_count (h : entry.count = other.count) :
    (times.foldl (failed limits) entry).count = (times.foldl (failed limits) other).count := by
  induction times generalizing entry other with
  | nil => exact h
  | cons now times ih =>
    refine ih ?_
    simp only [count, Prod.mk.injEq] at h
    simp only [failed, window, h]
    split <;> simp only [h] <;> split <;> simp only [count]

end Entry

section Failures

variable {limits : Limits} {capacity : Nat} {table t : Table α} {peer : α} {entry : Entry}

def Act.failuresOf (peer : α) : Act α → List Nat
  | .failed key now _ => if key = peer then [now] else []
  | _ => []

private lemma lookup_of_entryFor {now : Nat} {rest : Table α} {key evicted : α} {held counted : Entry}
    (h : entryFor capacity table key now evicted = some (rest, held)) (hne : key ≠ peer)
    (hentry : (rest.insert key counted).lookup peer = some entry) : table.lookup peer = some entry := by
  rw [AList.lookup_insert_ne hne.symm] at hentry
  rcases (entryFor_eq h).2 with rfl | ⟨rfl, -⟩
  · exact hentry
  · exact lookup_of_erase hentry

private lemma count_of_step {act : Act α} (h : step limits capacity table act = some t)
    (hentry : t.lookup peer = some entry) : entry.count =
      ((act.failuresOf peer).foldl (Entry.failed limits) ((table.lookup peer).getD (.opened act.time))).count := by
  cases act with
  | failed key now evicted =>
    obtain ⟨⟨rest, held⟩, hheld, rfl⟩ := map_eq_some_iff.mp h
    by_cases hkey : key = peer
    · subst hkey
      rw [AList.lookup_insert] at hentry
      rw [← Option.some.inj hentry, Act.failuresOf, if_pos rfl, (entryFor_eq hheld).1]
      rfl
    · rw [lookup_of_entryFor hheld hkey hentry, Act.failuresOf, if_neg hkey]
      rfl
  | begin key now evicted =>
    obtain ⟨⟨rest, held⟩, hheld, rfl⟩ := map_eq_some_iff.mp h
    by_cases hkey : key = peer
    · subst hkey
      rw [AList.lookup_insert] at hentry
      rw [← Option.some.inj hentry, (entryFor_eq hheld).1]
      split <;> rfl
    · rw [lookup_of_entryFor hheld hkey hentry]
      rfl
  | drop key =>
    cases h
    cases hheld : table.lookup key with
    | none =>
      rw [hheld] at hentry
      rw [show table.lookup peer = some entry from hentry]
      rfl
    | some held =>
      rw [hheld, elim_some] at hentry
      rcases lookup_of_insert hentry with ⟨rfl, rfl⟩ | hentry
      · rw [hheld]
        rfl
      · rw [hentry]
        rfl

structure Watched (α : Type) where
  table : Table α
  openedMs : Nat
  times : List Nat

def watch (limits : Limits) (capacity : Nat) (peer : α) (w : Watched α) (act : Act α) : Option (Watched α) :=
  (step limits capacity w.table act).map fun table =>
    match w.table.lookup peer with
    | none => ⟨table, act.time, act.failuresOf peer⟩
    | some _ => ⟨table, w.openedMs, w.times ++ act.failuresOf peer⟩

def counting (limits : Limits) (openedMs : Nat) (times : List Nat) : Entry :=
  times.foldl (Entry.failed limits) (.opened openedMs)

private lemma count_of_reach {w : Watched α} (h : Reach ⟨∅, 0, []⟩ (watch limits capacity peer) w)
    (hentry : w.table.lookup peer = some entry) : entry.count = (counting limits w.openedMs w.times).count := by
  suffices hall : ∀ entry, w.table.lookup peer = some entry →
      entry.count = (counting limits w.openedMs w.times).count from hall entry hentry
  clear hentry
  induction h with
  | refl => intro entry hentry; cases hentry
  | @next w w' act _ hstep ih =>
    intro entry hentry
    obtain ⟨t, ht, rfl⟩ := map_eq_some_iff.mp hstep
    cases hheld : w.table.lookup peer with
    | none =>
      simp only [hheld] at hentry ⊢
      rw [count_of_step ht hentry, hheld]
      rfl
    | some held =>
      simp only [hheld] at hentry ⊢
      rw [count_of_step ht hentry, hheld, counting, foldl_append, getD_some]
      exact Entry.foldl_failed_count (ih held hheld)

/-- The last `max_failures` failures of an address, none of them after the last and that not in back-off, put it in
back-off with the last where the window that runs at the first of them counted nothing before it and runs at the last,
and only there: whatever else is done between them, so long as the address keeps its entry. -/
theorem backoff_iff_window_counts {w : Watched α} (h : Reach ⟨∅, 0, []⟩ (watch limits capacity peer) w)
    (hentry : w.table.lookup peer = some entry) {earlier times : List Nat} {last : Nat}
    (htimes : w.times = earlier ++ times ++ [last]) (hcount : times.length + 1 = limits.maxFailures)
    (hordered : ∀ now ∈ times, now ≤ last) (hbackoff : 0 < limits.backoffSecs)
    (hfree : (counting limits w.openedMs (earlier ++ times)).inBackoff last = false) :
    entry.blockedUntilMs = some (last + limits.backoffSecs * 1000) ↔
      ((counting limits w.openedMs earlier).window limits (times.headD last)).failures = 0 ∧
        last - ((counting limits w.openedMs earlier).window limits (times.headD last)).sinceMs ≤
          limits.windowSecs * 1000 := by
  have hbelow : (counting limits w.openedMs earlier).failures < limits.maxFailures :=
    Entry.foldl_failed_lt (by omega) (show 0 < limits.maxFailures by omega)
  rw [← Entry.countedAt_iff hcount hbelow hordered]
  have hblocked : entry.blockedUntilMs = (counting limits w.openedMs w.times).blockedUntilMs :=
    congrArg (·.2.2) (count_of_reach h hentry)
  have hlast : counting limits w.openedMs w.times =
    (counting limits w.openedMs (earlier ++ times)).failed limits last := by
    rw [htimes, counting, foldl_append]
    rfl
  have hcounted : (counting limits w.openedMs earlier).countedAt limits times last =
      ((counting limits w.openedMs (earlier ++ times)).window limits last).failures := by
    rw [counting, counting, foldl_append]
    rfl
  rw [hblocked, hlast, hcounted, Entry.failed_eq]
  split
  next hmax => exact iff_of_true rfl hmax
  next hbelow =>
    refine iff_of_false (fun hsome => ?_) hbelow
    have hsame : ((counting limits w.openedMs (earlier ++ times)).window limits last).blockedUntilMs =
        (counting limits w.openedMs (earlier ++ times)).blockedUntilMs := by
      unfold Entry.window
      split <;> rfl
    rw [Entry.inBackoff, ← hsame, hsome] at hfree
    simp only [any_some, decide_eq_false_iff_not] at hfree
    omega

end Failures

namespace Small

def limits : Limits := ⟨3, 60, 300, by decide⟩

def failures (times : List Nat) : List (Act Nat) := times.map fun now => .failed 1 now 0

end Small

/-- One failure before the window and three in it, with other addresses between them. -/
theorem backoff_iff_window_counts_bracketed : ∃ w, Reach ⟨∅, 0, []⟩ (watch Small.limits 2 1) w ∧
    ∃ entry, w.table.lookup 1 = some entry ∧ w.times = [0, 70000, 90000, 100000] ∧
      entry.blockedUntilMs = some 400000 := by
  refine Reach.exists_of_run_imp (p := fun w => w.openedMs = 0 ∧ w.times = [0, 70000, 90000, 100000] ∧
      (w.table.lookup 1).isSome = true)
    [.failed 1 0 0, .begin 1 69000 0, .failed 1 70000 0, .drop 1, .failed 2 80000 0, .begin 1 90000 0,
      .failed 1 90000 0,
      .drop 1, .failed 3 95000 2, .failed 1 100000 0] (by decide +kernel) ?_
  rintro w hreach ⟨hopened, htimes, hheld⟩
  obtain ⟨entry, hentry⟩ := isSome_iff_exists.mp hheld
  refine ⟨entry, hentry, htimes, ?_⟩
  have hiff := backoff_iff_window_counts hreach hentry
    (show w.times = [0] ++ [70000, 90000] ++ [100000] from htimes) rfl (by decide) (by decide) (by rw [hopened]; decide)
  exact hiff.mpr (by rw [hopened]; decide)

/-- Three failures within three seconds, the first of them in a window that a fourth began and that ends before the
second. -/
theorem no_backoff_across_windows :
    (run (step Small.limits 2) ∅ (Small.failures [0, 59000, 61000, 62000])).any (fun t =>
      (t.lookup 1).any fun entry => entry.blockedUntilMs = none) = true := by
  decide +kernel

/-! ### What a full table evicts -/

section Evicted

variable {limits : Limits} {capacity : Nat} {table t : Table α} {peer : α} {entry : Entry}

def Act.makesRoom (capacity : Nat) (table : Table α) : Act α → Bool
  | .failed key _ _ | .begin key _ _ => (table.lookup key).isNone && max capacity 1 ≤ table.entries.length
  | .drop _ => false

/-- Where an act makes room among addresses none of which is idle, each attempt under way is of one in back-off. -/
def spares (capacity : Nat) (table : Table α) (act : Act α) : Bool :=
  !(act.makesRoom capacity table && table.values.all fun held => held.busy act.time) ||
    table.values.all fun held => held.inFlight = 0 || held.inBackoff act.time

private lemma lookup_of_insert_none {key : α} {held : Entry} (h : (table.insert key held).lookup peer = none) :
    table.lookup peer = none := by
  rw [lookup_insert_ite] at h
  split at h
  · cases h
  · exact h

private lemma oldest_of_entryFor {key evicted : α} {now : Nat} {rest : Table α} {held counted : Entry}
    (h : entryFor capacity table key now evicted = some (rest, held)) (hlookup : table.lookup peer = some entry)
    (hgone : (rest.insert key counted).lookup peer = none) : oldest table now peer = true ∧
      ((table.lookup key).isNone && max capacity 1 ≤ table.entries.length) = true := by
  have hrest := lookup_of_insert_none hgone
  rcases (entryFor_eq h).2 with rfl | ⟨rfl, holdest, hnone, hfull⟩
  · simp [hlookup] at hrest
  rw [lookup_erase_ite] at hrest
  split at hrest
  next heq =>
    rw [heq, hnone, decide_eq_true hfull]
    exact ⟨holdest, rfl⟩
  · simp [hlookup] at hrest

private lemma oldest_of_step {act : Act α} (h : step limits capacity table act = some t)
    (hlookup : table.lookup peer = some entry) (hgone : t.lookup peer = none) :
    oldest table act.time peer = true ∧ act.makesRoom capacity table = true := by
  cases act with
  | failed key now evicted | begin key now evicted =>
    obtain ⟨⟨rest, held⟩, hentry, rfl⟩ := map_eq_some_iff.mp h
    exact oldest_of_entryFor hentry hlookup hgone
  | drop key =>
    cases h
    exfalso
    cases hkey : table.lookup key with
    | none => simp [hkey, hlookup] at hgone
    | some held =>
      rw [hkey] at hgone
      simp [lookup_of_insert_none hgone] at hlookup

private lemma inBackoff_of_dropped {act : Act α} (h : step limits capacity table act = some t)
    (hspares : spares capacity table act = true) (hlookup : table.lookup peer = some entry)
    (hblocked : entry.inBackoff act.time = true) (hgone : t.lookup peer = none) :
    ∀ other held, table.lookup other = some held → held.inBackoff act.time = true := by
  obtain ⟨holdest, hroom⟩ := oldest_of_step h hlookup hgone
  rw [oldest, hlookup, any_some, List.all_eq_true] at holdest
  have hbusy : (table.values.all fun held => held.busy act.time) = true := by
    refine List.all_eq_true.mpr fun held hheld => ?_
    have hfirst := holdest held hheld
    by_contra hidle
    simp [Entry.goesFirst, Entry.busy, hblocked] at hfirst hidle
    simp [hidle] at hfirst
  rw [spares, hroom, hbusy] at hspares
  intro other held hheld
  have hmem := mem_values.mpr ⟨other, hheld⟩
  have hflight := List.all_eq_true.mp hspares held hmem
  have hheldBusy := List.all_eq_true.mp hbusy held hmem
  simp only [Entry.busy, Bool.or_eq_true, decide_eq_true_eq] at hflight hheldBusy
  exact hheldBusy.elim id fun hpos => hflight.resolve_left (Nat.ne_of_gt hpos)

/-- Where an act that makes room among addresses none of which is idle finds only such attempts under way as are of
addresses in back-off, one in back-off is dropped only if all are. -/
theorem dropped_in_backoff_last {act : Act α} (h : step limits capacity table act = some t)
    (hspares : spares capacity table act = true) (hlookup : table.lookup peer = some entry)
    (hblocked : entry.inBackoff act.time = true) (hgone : t.lookup peer = none) :
    ∀ other held, table.lookup other = some held → held.inBackoff act.time = true :=
  inBackoff_of_dropped h hspares hlookup hblocked hgone

/-- An act leaves the end of an address's back-off, or is a failure of it that begins a new one. -/
private lemma blockedUntilMs_of_step {act : Act α} {entry' : Entry} (h : step limits capacity table act = some t)
    (hlookup : table.lookup peer = some entry) (hentry : t.lookup peer = some entry') :
    entry'.blockedUntilMs = entry.blockedUntilMs ∨
      entry'.blockedUntilMs = some (act.time + limits.backoffSecs * 1000) ∧ act.failuresOf peer = [act.time] := by
  have hcount := count_of_step h hentry
  rw [hlookup, getD_some] at hcount
  have hblocked : entry'.blockedUntilMs = _ := congrArg (·.2.2) hcount
  rw [hblocked]
  have hown : act.failuresOf peer = [] ∨ act.failuresOf peer = [act.time] := by
    cases act with
    | failed key now evicted =>
      by_cases hkey : key = peer
      · exact .inr (if_pos hkey)
      · exact .inl (if_neg hkey)
    | begin key now evicted | drop key => exact .inl rfl
  rcases hown with hown | hown
  · rw [hown]
    exact .inl rfl
  · rw [hown]
    simp only [Entry.count, foldl_cons, foldl_nil, Entry.failed_eq]
    split
    · exact .inr ⟨rfl, trivial⟩
    · refine .inl ?_
      unfold Entry.window
      split <;> rfl

/-- In a run whose acts spare what is in back-off, an address is gone before its back-off ends only if all addresses
were in back-off when it was dropped. -/
theorem gone_only_among_blocked {acts : List (Act α)} {start : Nat} (hlookup : table.lookup peer = some entry)
    (hblocked : entry.blockedUntilMs = some (start + limits.backoffSecs * 1000))
    (htimes : ∀ act ∈ acts, (∃ key, act = .drop key) ∨
      start ≤ act.time ∧ act.time < start + limits.backoffSecs * 1000)
    (hrun : run (restrict (fun table act => spares capacity table act = true)
    (step limits capacity)) table acts = some t) (hgone : t.lookup peer = none) :
    ∃ before act after u, acts = before ++ act :: after ∧ run (step limits capacity) table before = some u ∧
      ∀ other held, u.lookup other = some held → held.inBackoff act.time = true := by
  suffices hlater : ∀ until', entry.blockedUntilMs = some until' → start + limits.backoffSecs * 1000 ≤ until' →
      ∃ before act after u, acts = before ++ act :: after ∧ run (step limits capacity) table before = some u ∧
        ∀ other held, u.lookup other = some held → held.inBackoff act.time = true from hlater _ hblocked le_rfl
  clear hblocked
  induction acts generalizing table entry with
  | nil =>
    cases hrun
    simp [hlookup] at hgone
  | cons act acts ih =>
    intro until' hblocked hle
    obtain ⟨u, hu, hrest⟩ := bind_eq_some_iff.mp hrun
    obtain ⟨hspares, hu⟩ := restrict_eq_some.mp hu
    rw [forall_mem_cons] at htimes
    cases hheld : u.lookup peer with
    | none =>
      refine ⟨[], act, acts, table, rfl, rfl, inBackoff_of_dropped hu hspares hlookup ?_ hheld⟩
      have hroom := (oldest_of_step hu hlookup hheld).2
      rcases htimes.1 with ⟨key, rfl⟩ | ⟨-, hbefore⟩
      · cases hroom
      · rw [Entry.inBackoff, hblocked, any_some, decide_eq_true_eq]
        omega
    | some entry' =>
      have hnext : ∃ until', entry'.blockedUntilMs = some until' ∧ start + limits.backoffSecs * 1000 ≤ until' := by
        rcases blockedUntilMs_of_step hu hlookup hheld with hsame | ⟨hnew, hown⟩
        · exact ⟨until', hsame.trans hblocked, hle⟩
        · rcases htimes.1 with ⟨key, rfl⟩ | ⟨hstart, -⟩
          · cases hown
          · exact ⟨_, hnew, by omega⟩
      obtain ⟨until', huntil, hle⟩ := hnext
      obtain ⟨before, next, after, v, rfl, hv, hall⟩ := ih hheld htimes.2 hrest until' huntil hle
      refine ⟨act :: before, next, after, v, rfl, ?_, hall⟩
      rwa [run, hu]

end Evicted

def Small.full : Table Nat := ((∅ : Table Nat).insert 1 ⟨0, 0, some 300000, 0, 0⟩).insert 2 ⟨1, 0, some 300001, 1, 0⟩

/-- A table of two addresses, both in back-off. -/
theorem dropped_in_backoff_last_full : ∃ t, step Small.limits 2 Small.full (.failed 3 2 1) = some t ∧
    t.lookup 1 = none ∧
    ∀ other held, Small.full.lookup other = some held → held.inBackoff 2 = true := by
  obtain ⟨t, ht⟩ : ∃ t, step Small.limits 2 Small.full (.failed 3 2 1) = some t ∧ t.lookup 1 = none := ⟨_, rfl, rfl⟩
  exact ⟨t, ht.1, ht.2, dropped_in_backoff_last ht.1 (by decide +kernel) rfl rfl ht.2⟩

/-- The address `1` is in back-off, `2` has an attempt under way, and `3` fails: `1` is dropped, and may try again. -/
theorem dropped_for_attempt_under_way :
    (run (step Small.limits 2) ∅ (Small.failures [0, 0, 0] ++ [.begin 2 1 0])).any (fun table =>
      (table.lookup 1).any (fun entry => entry.inBackoff 2) && (table.lookup 2).any (fun entry => !entry.inBackoff 2) &&
        (step Small.limits 2 table (.failed 3 2 1)).any fun t => (t.lookup 1).isNone) = true := by
  decide +kernel

end OpampFleet.Server.Throttle
