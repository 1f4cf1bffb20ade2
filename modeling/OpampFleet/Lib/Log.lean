import Mathlib.Data.List.Basic

/-!
# Logs

A log is a list of entries, the oldest first. `last f` is what the newest entry that `f` reads something from says, as
when a store is read back from a log of changes. `Guarded` says that whatever an entry uses was given by an entry
before it, or beforehand: a log that is cut off at any point stays guarded.
-/

namespace OpampFleet.Lib

open List

namespace Log

variable {α β κ : Type*}

def last (f : α → Option β) (log : List α) : Option β := log.reverse.findSome? f

variable {f : α → Option β}

@[simp] lemma last_nil : last f [] = none := rfl

/-- The later part of a log answers first. -/
lemma last_append (log log' : List α) : last f (log ++ log') = (last f log').or (last f log) := by
  simp [last, findSome?_append]

lemma last_concat (log : List α) (a : α) : last f (log ++ [a]) = (f a).or (last f log) := by
  rw [last_append]
  congr 1
  simp [last, findSome?_cons]
  cases f a <;> rfl

variable {log : List α}

lemma last_eq_none_iff : last f log = none ↔ ∀ a ∈ log, f a = none := by
  simp [last, findSome?_eq_none_iff]

lemma exists_of_last_eq_some {v : β} (h : last f log = some v) : ∃ a ∈ log, f a = some v := by
  obtain ⟨a, ha, hv⟩ := exists_of_findSome?_eq_some h
  exact ⟨a, mem_reverse.mp ha, hv⟩

/-- A value that all who answer agree on is the last one. -/
lemma last_eq_of_forall {v : β} (hex : ∃ a ∈ log, f a = some v)
    (hall : ∀ a ∈ log, ∀ w, f a = some w → w = v) : last f log = some v := by
  cases h : last f log with
  | none =>
    obtain ⟨a, ha, hv⟩ := hex
    simp [last_eq_none_iff.mp h a ha] at hv
  | some w =>
    obtain ⟨a, ha, hw⟩ := exists_of_last_eq_some h
    rw [hall a ha w hw]

variable (gives uses : α → κ → Prop)

def Guarded : (κ → Prop) → List α → Prop
  | _, [] => True
  | base, a :: log => (∀ k, uses a k → base k) ∧ Guarded (fun k => base k ∨ gives a k) log

def Given (base : κ → Prop) (log : List α) (k : κ) : Prop := base k ∨ ∃ a ∈ log, gives a k

variable {gives uses} {base base' : κ → Prop}

lemma Guarded.mono (h : Guarded gives uses base log) (hb : ∀ k, base k → base' k) :
    Guarded gives uses base' log := by
  induction log generalizing base base' with
  | nil => exact trivial
  | cons a log ih =>
    refine ⟨fun k hk => hb k (h.1 k hk), ih h.2 fun k hk => ?_⟩
    exact hk.imp_left (hb k)

/-- A log is guarded when its first part is, and its second by what the first gives. -/
lemma guarded_append {log' : List α} : Guarded gives uses base (log ++ log') ↔
    Guarded gives uses base log ∧ Guarded gives uses (Given gives base log) log' := by
  induction log generalizing base with
  | nil =>
    have hbase : Given gives base [] = base := by
      funext k
      simp [Given]
    rw [hbase, nil_append, Guarded, true_and]
  | cons a log ih =>
    have hgiven : Given gives (fun k => base k ∨ gives a k) log = Given gives base (a :: log) := by
      funext k
      simp [Given, or_assoc]
    rw [cons_append, Guarded, Guarded, ih, hgiven, and_assoc]

lemma Guarded.take (h : Guarded gives uses base log) (n : Nat) : Guarded gives uses base (log.take n) := by
  rw [← take_append_drop n log, guarded_append] at h
  exact h.1

/-- What a guarded log uses is given. -/
lemma Guarded.given (h : Guarded gives uses base log) {a : α} (ha : a ∈ log) {k : κ} (hk : uses a k) :
    Given gives base log k := by
  obtain ⟨before, after, rfl⟩ := append_of_mem ha
  rw [guarded_append] at h
  rcases h.2.1 k hk with hbase | ⟨c, hc, hgives⟩
  · exact .inl hbase
  · exact .inr ⟨c, mem_append_left _ hc, hgives⟩

lemma guarded_of_forall_not (h : ∀ a ∈ log, ∀ k, uses a k → base k) : Guarded gives uses base log := by
  induction log generalizing base with
  | nil => exact trivial
  | cons a log ih =>
    refine ⟨fun k hk => h a mem_cons_self k hk, ih fun c hc k hk => ?_⟩
    exact .inl (h c (mem_cons_of_mem _ hc) k hk)

end Log

end OpampFleet.Lib
