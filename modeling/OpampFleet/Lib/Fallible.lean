import Mathlib.Logic.Basic

/-!
# Steps that can fail

A chain of fallible steps succeeded exactly when each of its steps did.
-/

namespace OpampFleet.Lib

variable {ε α β : Type}

/-- A chain of calls succeeds when each of them does. -/
lemma bind_eq_ok {x : Except ε α} {f : α → Except ε β} {b : β} :
    (x >>= f) = .ok b ↔ ∃ a, x = .ok a ∧ f a = .ok b := by
  cases x with
  | error e | ok a => simp [bind, Except.bind]

/-- A check passes when what it refuses is not so. -/
lemma ite_error_eq_ok {p : Prop} [Decidable p] {e : ε} {x : Except ε β} {b : β} :
    (if p then .error e else x) = .ok b ↔ ¬p ∧ x = .ok b := by
  by_cases h : p <;> simp [h]

lemma map_eq_ok {x : Except ε α} {f : α → β} {b : β} : x.map f = .ok b ↔ ∃ a, x = .ok a ∧ f a = b := by
  cases x with
  | error e | ok a => simp [Except.map]

lemma bind_guard_eq_some {x : Option α} {p : α → Prop} [DecidablePred p] {f : α → β} {b : β} :
    (x.bind fun a => if p a then some (f a) else none) = some b ↔ ∃ a, x = some a ∧ p a ∧ f a = b := by
  simp [Option.bind_eq_some_iff]

end OpampFleet.Lib
