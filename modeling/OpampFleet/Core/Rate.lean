import Mathlib.Data.List.MinMax
import OpampFleet.Lib.Map

/-!
# Token buckets

The table of `rate.rs`, in thousandths of a token. Its 64-bit sums saturate only past a full bucket.
-/

namespace OpampFleet.Core.Rate

open Lib List Option Map

def token : Nat := 1000

structure Level where
  milli : Nat
  atMs : Nat
  used : Nat

structure Table (K : Type) where
  capacity : Nat
  tick : Nat
  buckets : Map K Level
  order : Map Nat K

variable {K : Type} [DecidableEq K] (t : Table K) (key : K) (rate burst now : Nat)

namespace Table

def new (capacity : Nat) : Table K := ⟨max capacity 1, 0, ∅, ∅⟩

/-- A full table forgets the bucket used least recently. -/
def makeRoom : Table K :=
  if (t.buckets.lookup key).isSome ∨ t.buckets.entries.length < t.capacity then t
  else (t.order.entries.argmin Sigma.fst).elim t fun first =>
    { t with buckets := t.buckets.erase first.2, order := t.order.erase first.1 }

def level : Table K × Nat :=
  let tick := t.tick + 1
  let t := t.makeRoom key
  let held := (t.buckets.lookup key).getD ⟨burst * token, now, tick⟩
  let milli := min (held.milli + (now - held.atMs) * rate) (burst * token)
  let buckets := t.buckets.insert key ⟨milli, max held.atMs now, tick⟩
  ({ t with tick := tick, buckets := buckets, order := (t.order.erase held.used).insert tick key }, milli)

def spend : Table K :=
  (t.buckets.lookup key).elim t fun level =>
    { t with buckets := t.buckets.insert key { level with milli := level.milli - token } }

def take : Table K × Bool :=
  let (t, milli) := t.level key rate burst now
  if milli < token then (t, false) else (t.spend key, true)

private lemma lookup_makeRoom : (t.makeRoom key).buckets.lookup key = t.buckets.lookup key ∧
    ∀ j held, (t.makeRoom key).buckets.lookup j = some held → t.buckets.lookup j = some held := by
  unfold makeRoom
  split
  · exact ⟨rfl, fun _ _ h => h⟩
  next hroom =>
    have hnone : t.buckets.lookup key = none := by simp_all
    cases t.order.entries.argmin Sigma.fst with
    | none => exact ⟨rfl, fun _ _ h => h⟩
    | some oldest => exact ⟨(lookup_erase_none hnone).trans hnone.symm, fun _ _ h => lookup_of_erase h⟩

/-- A take refills its bucket and pays for what it takes, and no other bucket gains. -/
private lemma take_spec {after : Table K} {took : Bool} (h : t.take key rate burst now = (after, took)) :
    let held := (t.buckets.lookup key).getD ⟨burst * token, now, t.tick + 1⟩
    (∃ level, after.buckets.lookup key = some level ∧ level.atMs = max held.atMs now ∧
      level.milli + took.toNat * token ≤ held.milli + (now - held.atMs) * rate) ∧
    ∀ j level, j ≠ key → after.buckets.lookup j = some level → t.buckets.lookup j = some level := by
  obtain ⟨hkey, hothers⟩ := t.lookup_makeRoom key
  simp only [take, level, hkey] at h
  split at h <;> cases h
  · refine ⟨⟨_, AList.lookup_insert _, rfl, by simp⟩, fun j held hne h => hothers j held ?_⟩
    simpa [hne] using h
  · simp only [spend, AList.lookup_insert, elim_some]
    refine ⟨⟨_, rfl, rfl, by simp; omega⟩, fun j held hne h => hothers j held ?_⟩
    simpa [hne] using h

end Table

def countedTake (s : Table K × Map K (Nat × Nat)) (asked : K × Nat) : Table K × Map K (Nat × Nat) :=
  let (key, now) := asked
  let (table, took) := s.1.take key rate burst now
  let (opened, taken) := ((s.1.buckets.lookup key).bind fun _ => s.2.lookup key).getD (now, 0)
  (table, s.2.insert key (opened, taken + took.toNat))

/-- Whoever asks, at whatever times the clock shows, a bucket has given no more than `burst` tokens and `rate` for each
second from its opening to the latest time it was asked at. -/
theorem taken_le_refilled (capacity : Nat) (asked : List (K × Nat)) :
    match asked.foldl (countedTake rate burst) (.new capacity, ∅) with
    | (table, since) => ∀ level ∈ table.buckets.lookup key, ∃ opened taken, since.lookup key = some (opened, taken) ∧
      opened ≤ level.atMs ∧ level.milli + taken * token ≤ burst * token + (level.atMs - opened) * rate := by
  induction asked using reverseRecOn generalizing key with
  | nil => exact fun _ h => nomatch h
  | append_singleton asked ask ih =>
    obtain ⟨asker, now⟩ := ask
    simp only [foldl_append, foldl_cons, foldl_nil, countedTake]
    generalize asked.foldl (countedTake rate burst) (.new capacity, ∅) = s at ih
    rcases htake : s.1.take asker rate burst now with ⟨table, took⟩
    obtain ⟨⟨level, hlevel, hat, hpaid⟩, hothers⟩ := s.1.take_spec _ _ _ _ htake
    intro after hafter
    by_cases hkey : key = asker
    · subst hkey
      cases hlevel.symm.trans hafter
      refine ⟨_, _, AList.lookup_insert _, ?_⟩
      cases hheld : s.1.buckets.lookup key with
      | none => simp_all
      | some held =>
        obtain ⟨opened, taken, hsince, hopened, hbound⟩ := ih key held hheld
        simp only [hheld, hsince, getD_some, bind_some] at hat hpaid ⊢
        have hsplit : level.atMs - opened = (held.atMs - opened) + (now - held.atMs) := by omega
        rw [hsplit, Nat.add_mul, Nat.add_mul]
        omega
    · rw [AList.lookup_insert_ne hkey]
      exact ih key after (hothers key after hkey hafter)

end OpampFleet.Core.Rate
