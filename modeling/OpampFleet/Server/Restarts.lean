import OpampFleet.Lib.Map
import OpampFleet.Lib.Transition
import OpampFleet.Opamp.Uid

/-!
# Queued restarts on a shared store

The instances of a Server on one store, at the grain of their calls to it (`fleet.rs`, `postgres/agents.rs`); of a
record, the queued restart. Each instance holds a copy of the flag, and goes by what the store answers when it clears
it.
-/

namespace OpampFleet.Server.Restarts

open Lib Opamp List Option Map

structure Row where
  restartPending : Bool
  asked : List Nat

/-- A restart that was cleared and is to go out: pushed at once, or with the reply to a report once its record is
written. Its instance holds the fleet lock. -/
structure Exchange where
  uid : InstanceUid
  asked : List Nat
  pushed : Bool

structure Fleet where
  rows : Map InstanceUid Row
  held : Nat → Map InstanceUid Bool
  exchanges : Map Nat Exchange
  made : Nat
  commands : List (List Nat)

inductive Act where
  /-- `request_restart`. -/
  | request (i : Nat) (uid : InstanceUid)
  /-- `hold_from_store`, and `take_up_agents` of one Agent. -/
  | read (i : Nat) (uid : InstanceUid)
  /-- `take_restart`, for `restart_command_for` or for a report. -/
  | take (i : Nat) (uid : InstanceUid) (pushed : Bool)
  | finish (i : Nat)
  | create (uid : InstanceUid)
  | remove (uid : InstanceUid)
  | rekey (i : Nat) (old new : InstanceUid)

namespace Fleet

variable (s : Fleet)

def hold (i : Nat) (uid : InstanceUid) (pending : Option Bool) : Fleet :=
  { s with held := Function.update s.held i ((s.held i).set uid pending) }

def locked (i : Nat) : Bool := (s.exchanges.lookup i).isSome

def step : Act → Option Fleet
  | .request i uid =>
    if s.locked i then none
    else
      (s.rows.lookup uid).map fun row =>
        { s.hold i uid (((s.held i).lookup uid).map fun _ => true) with
          rows := s.rows.insert uid ⟨true, s.made :: row.asked⟩
          made := s.made + 1 }
  | .read i uid =>
    if s.locked i then none else some (s.hold i uid ((s.rows.lookup uid).map Row.restartPending))
  | .take i uid pushed =>
    if s.locked i || (s.held i).lookup uid != some true then none
    else
      match s.rows.lookup uid with
      | some ⟨true, asked⟩ =>
        some
          { s.hold i uid (some false) with
            rows := s.rows.insert uid ⟨false, []⟩
            exchanges := s.exchanges.insert i ⟨uid, asked, pushed⟩ }
      -- another instance has delivered it
      | _ => some (s.hold i uid (some false))
  | .finish i =>
    (s.exchanges.lookup i).map fun e =>
      let s := { s with exchanges := s.exchanges.erase i }
      if e.pushed || (s.rows.lookup e.uid).isSome then { s with commands := e.asked :: s.commands }
      else s.hold i e.uid none
  | .create uid => if (s.rows.lookup uid).isSome then none else some { s with rows := s.rows.insert uid ⟨false, []⟩ }
  | .remove uid => some { s with rows := s.rows.erase uid }
  | .rekey i old new =>
    if s.locked i || (s.rows.lookup new).isSome then none
    else
      (s.rows.lookup old).map fun row =>
        { (s.hold i old none).hold i new ((s.held i).lookup old) with rows := (s.rows.erase old).insert new row }

def start : Fleet := ⟨∅, fun _ => ∅, ∅, 0, []⟩

/-- A record is moved or removed while no restart of it is on its way, and removed with none queued. -/
def Undisturbed : Act → Prop
  | .remove uid => (∀ e ∈ s.exchanges.values, e.uid ≠ uid) ∧ ∀ row ∈ s.rows.lookup uid, row.restartPending = false
  | .rekey _ old _ => ∀ e ∈ s.exchanges.values, e.uid ≠ old
  | _ => True

instance (s : Fleet) (act : Act) : Decidable (s.Undisturbed act) := by
  cases act <;> unfold Undisturbed <;> infer_instance

def queued (n : Nat) : Nat := s.rows.sum fun row => row.asked.count n

def underWay (n : Nat) : Nat := s.exchanges.sum fun e => e.asked.count n

structure Inv (s : Fleet) : Prop where
  flag : ∀ uid row, s.rows.lookup uid = some row → (row.restartPending = true ↔ row.asked ≠ [])
  stored : ∀ e ∈ s.exchanges.values, e.asked ≠ [] ∧ (s.rows.lookup e.uid).isSome
  commands : ∀ command ∈ s.commands, command ≠ []
  once : ∀ n, s.queued n + s.underWay n + s.commands.flatten.count n = if n < s.made then 1 else 0

variable {s t : Fleet}

private lemma Inv.stored_insert (h : s.Inv) (uid : InstanceUid) (row : Row) :
    ∀ e ∈ s.exchanges.values, e.asked ≠ [] ∧ ((s.rows.insert uid row).lookup e.uid).isSome := by
  intro e he
  obtain ⟨hasked, hrow⟩ := h.stored e he
  rw [lookup_insert_ite]
  split
  · exact ⟨hasked, rfl⟩
  · exact ⟨hasked, hrow⟩

private lemma Inv.step {act : Act} (h : s.Inv) (hok : s.Undisturbed act) (hstep : s.step act = some t) : t.Inv := by
  cases act with
  | request i uid =>
    obtain ⟨-, hstep⟩ := ite_none_left_eq_some.mp hstep
    obtain ⟨row, hrow, rfl⟩ := map_eq_some_iff.mp hstep
    refine ⟨forall_lookup_insert (by simp) h.flag, h.stored_insert uid _, h.commands, fun n => ?_⟩
    have hsum := sum_insert s.rows uid ⟨true, s.made :: row.asked⟩ fun row => row.asked.count n
    have honce := h.once n
    simp only [hrow, elim_some, count_cons, beq_iff_eq] at hsum
    simp only [queued, underWay, hold] at honce ⊢
    split_ifs at * <;> omega
  | read i uid =>
    simp only [Fleet.step] at hstep
    split at hstep
    · cases hstep
    · cases hstep
      exact { h with }
  | take i uid pushed =>
    simp only [Fleet.step, locked, Bool.or_eq_true, isSome_iff_ne_none] at hstep
    obtain ⟨hfree, hstep⟩ := ite_none_left_eq_some.mp hstep
    have hfree : s.exchanges.lookup i = none := not_not.mp fun hne => hfree (.inl hne)
    split at hstep
    next asked hrow =>
      cases hstep
      have hasked := (h.flag uid _ hrow).mp rfl
      refine ⟨forall_lookup_insert (by simp) h.flag, fun e he => ?_, h.commands, fun n => ?_⟩
      · obtain ⟨j, hj⟩ := mem_values.mp he
        rcases lookup_of_insert hj with ⟨-, rfl⟩ | hj
        · exact ⟨hasked, by simp⟩
        · exact h.stored_insert uid _ e (mem_values.mpr ⟨j, hj⟩)
      · have hrows := sum_insert s.rows uid ⟨false, []⟩ fun row => row.asked.count n
        have hexchanges := sum_insert s.exchanges i ⟨uid, asked, pushed⟩ fun e => e.asked.count n
        simp only [hrow, hfree, elim_some, elim_none, count_nil] at hrows hexchanges
        refine Eq.trans ?_ (h.once n)
        simp only [queued, underWay, hold]
        omega
    · cases hstep
      exact { h with }
  | finish i =>
    obtain ⟨e, he, rfl⟩ := map_eq_some_iff.mp hstep
    obtain ⟨hasked, hrow⟩ := h.stored e (mem_values.mpr ⟨i, he⟩)
    simp only [hrow, Bool.or_true, if_true]
    refine ⟨h.flag, fun e' he' => ?_, ?_, fun n => ?_⟩
    · obtain ⟨j, hj⟩ := mem_values.mp he'
      exact h.stored e' (mem_values.mpr ⟨j, (lookup_of_erase hj)⟩)
    · exact forall_mem_cons.mpr ⟨hasked, h.commands⟩
    · have hexchanges := Map.sum_erase s.exchanges i fun e => e.asked.count n
      rw [he, elim_some] at hexchanges
      refine Eq.trans ?_ (h.once n)
      simp only [queued, underWay, flatten_cons, count_append]
      omega
  | create uid =>
    obtain ⟨hnone, hstep⟩ := ite_none_left_eq_some.mp hstep
    cases hstep
    refine ⟨forall_lookup_insert (by simp) h.flag, h.stored_insert uid _, h.commands, fun n => ?_⟩
    have hsum := sum_insert s.rows uid ⟨false, []⟩ fun row => row.asked.count n
    simp only [not_isSome_iff_eq_none.mp hnone, elim_none, count_nil] at hsum
    refine Eq.trans ?_ (h.once n)
    simp only [queued, underWay]
    omega
  | remove uid =>
    cases hstep
    refine ⟨fun v row hv => ?_, fun e he => ?_, h.commands, fun n => ?_⟩
    · exact h.flag v row (lookup_of_erase hv)
    · rw [lookup_erase_ite, if_neg (hok.1 e he)]
      exact h.stored e he
    · have hsum := Map.sum_erase s.rows uid fun row => row.asked.count n
      have hnone : (s.rows.lookup uid).elim 0 (fun row => row.asked.count n) = 0 := by
        cases hrow : s.rows.lookup uid with
        | none => rfl
        | some row =>
          have hasked := not_not.mp (mt (h.flag uid row hrow).mpr (by simp [hok.2 row hrow]))
          rw [elim_some, hasked, count_nil]
      refine Eq.trans ?_ (h.once n)
      simp only [queued, underWay]
      omega
  | rekey i old new =>
    simp only [Fleet.step, locked, Bool.or_eq_true] at hstep
    obtain ⟨hfree, hstep⟩ := ite_none_left_eq_some.mp hstep
    obtain ⟨row, hrow, rfl⟩ := map_eq_some_iff.mp hstep
    have hnew : s.rows.lookup new = none := by simpa using fun hsome => hfree (.inr hsome)
    have hlookup : ∀ v, ((s.rows.erase old).insert new row).lookup v =
        if v = new then some row else if v = old then none else s.rows.lookup v := by
      intro v
      rw [lookup_insert_ite, lookup_erase_ite]
    refine ⟨fun v row' hv => ?_, fun e he => ?_, h.commands, fun n => ?_⟩
    · rw [hlookup] at hv
      split_ifs at hv
      · cases hv
        exact h.flag old row hrow
      · exact h.flag v row' hv
    · rw [hlookup, if_neg (hok e he)]
      split
      · exact ⟨(h.stored e he).1, rfl⟩
      · exact h.stored e he
    · have herase := Map.sum_erase s.rows old fun row => row.asked.count n
      have hinsert := sum_insert (s.rows.erase old) new row fun row => row.asked.count n
      rw [hrow, elim_some] at herase
      rw [lookup_erase_ite, hnew, ite_self, elim_none] at hinsert
      refine Eq.trans ?_ (h.once n)
      simp only [queued, underWay, hold]
      omega

/-- In every run in which no record is moved or removed while a restart of it is on its way: no command delivers a
request that another delivers, each delivers one, and a request waits in the store or is on its way until it is. -/
theorem delivered_once {s : Fleet} (h : Reach start (restrict Undisturbed step) s) :
    s.commands.flatten.Nodup ∧ (∀ command ∈ s.commands, command ≠ []) ∧
      ∀ n < s.made, (∃ uid row, s.rows.lookup uid = some row ∧ row.restartPending = true ∧ n ∈ row.asked) ∨
        (∃ i e, s.exchanges.lookup i = some e ∧ n ∈ e.asked) ∨ ∃ command ∈ s.commands, n ∈ command := by
  have hinv : s.Inv := by
    refine h.invariant_restrict ⟨fun uid row hrow => ?_, fun e he => ?_, fun c hc => ?_, fun n => rfl⟩
      fun s act t hs hok hstep => hs.step hok hstep
    · cases hrow
    · cases he
    · cases hc
  refine ⟨nodup_iff_count_le_one.mpr fun n => ?_, hinv.commands, fun n hn => ?_⟩
  · have honce := hinv.once n
    split at honce <;> omega
  have honce := hinv.once n
  rw [if_pos hn] at honce
  by_cases hrows : 0 < s.queued n
  · obtain ⟨uid, row, hrow, hpos⟩ := exists_of_sum_pos hrows
    have hmem := count_pos_iff.mp hpos
    exact .inl ⟨uid, row, hrow, (hinv.flag uid row hrow).mpr (ne_nil_of_mem hmem), hmem⟩
  · by_cases hexchanges : 0 < s.underWay n
    · obtain ⟨i, e, he, hpos⟩ := exists_of_sum_pos hexchanges
      exact .inr (.inl ⟨i, e, he, count_pos_iff.mp hpos⟩)
    · obtain ⟨command, hc, hn⟩ := mem_flatten.mp (count_pos_iff.mp (by omega : 0 < s.commands.flatten.count n))
      exact .inr (.inr ⟨command, hc, hn⟩)

namespace Small

def a : InstanceUid := .ofByte 1

def b : InstanceUid := .ofByte 2

end Small

open Small

/-- Two requests go out in one command and a third, after the record moved, in another. -/
theorem delivered_once_of_two : ∃ s, Reach start (restrict Undisturbed step) s ∧ s.commands = [[2], [1, 0]] ∧
    s.commands.flatten.Nodup := by
  refine Reach.exists_of_run_imp (p := fun s => s.commands = [[2], [1, 0]]) [.create a, .request 0 a,
    .request 1 a, .read 0 a, .read 1 a, .take 0 a false, .request 1 a, .finish 0,
    .rekey 0 a b, .read 1 b, .take 1 b true, .finish 1] (by decide +kernel) ?_
  intro s hreach hs
  exact ⟨hs, (delivered_once hreach).1⟩

/-- Instance 0 clears the restart; its Agent's record moves through instance 1 before the report is written. -/
theorem cleared_and_not_delivered : ∃ s, Reach start step s ∧ s.made = 1 ∧ s.commands = [] ∧ s.exchanges.keys = [] ∧
    ∀ row ∈ s.rows.values, row.restartPending = false := by
  exact Reach.exists_of_run [.create a, .request 0 a, .read 0 a, .take 0 a false,
    .rekey 1 a b, .finish 0] (by decide +kernel)

end Fleet

end OpampFleet.Server.Restarts
