import Mathlib.Logic.Basic

/-!
# Systems that take one step at a time

A system is a partial step function `step : σ → α → Option σ`. An action carries whatever the environment decides
(which part acts, how an operation ends), so the step itself is a function and a run can be evaluated.

`restrict` keeps the steps that meet a condition, so a property of the runs whose every step meets it is a property
of the states the restricted system reaches.
-/

namespace OpampFleet.Lib

variable {σ α : Type*} {s₀ : σ} {step : σ → α → Option σ}

inductive Reach (s₀ : σ) (step : σ → α → Option σ) : σ → Prop
  | refl : Reach s₀ step s₀
  | next {s t : σ} (a : α) : Reach s₀ step s → step s a = some t → Reach s₀ step t

/-- What holds at the start and is kept by every step holds of every state reached. -/
lemma Reach.invariant {inv : σ → Prop} {s : σ} (h : Reach s₀ step s)
    (hinit : inv s₀) (hstep : ∀ s a t, inv s → step s a = some t → inv t) : inv s := by
  induction h with
  | refl => exact hinit
  | next a _ hst ih => exact hstep _ a _ ih hst

def restrict (ok : σ → α → Prop) [∀ s a, Decidable (ok s a)] (step : σ → α → Option σ) (s : σ) (a : α) : Option σ :=
  if ok s a then step s a else none

/-- A restricted step is a step that is allowed. -/
lemma restrict_eq_some {ok : σ → α → Prop} [∀ s a, Decidable (ok s a)] {s t : σ} {a : α} :
    restrict ok step s a = some t ↔ ok s a ∧ step s a = some t := by
  unfold restrict
  split <;> simp_all

/-- Where every step meets a condition, an invariant may rely on it. -/
lemma Reach.invariant_restrict {ok : σ → α → Prop} [∀ s a, Decidable (ok s a)]
    {inv : σ → Prop} {s : σ} (h : Reach s₀ (restrict ok step) s) (hinit : inv s₀)
    (hstep : ∀ s a t, inv s → ok s a → step s a = some t → inv t) : inv s := by
  refine h.invariant hinit ?_
  intro s a t hinv hs
  obtain ⟨hok, hs⟩ := restrict_eq_some.mp hs
  exact hstep s a t hinv hok hs

def run (step : σ → α → Option σ) : σ → List α → Option σ
  | s, [] => some s
  | s, a :: as => (step s a).bind fun t => run step t as

/-- A run from a reached state reaches. -/
lemma Reach.of_run {s t : σ} {as : List α} (hs : Reach s₀ step s) (h : run step s as = some t) : Reach s₀ step t := by
  induction as generalizing s with
  | nil => exact Option.some.inj h ▸ hs
  | cons a as ih =>
    obtain ⟨u, hu, hrun⟩ := Option.bind_eq_some_iff.mp h
    exact ih (hs.next a hu) hrun

/-- A run that ends in a state with a property reaches one. -/
lemma Reach.exists_of_run {p : σ → Prop} (as : List α)
    (h : ∃ s ∈ run step s₀ as, p s) : ∃ s, Reach s₀ step s ∧ p s := by
  obtain ⟨s, hs, hp⟩ := h
  exact ⟨s, refl.of_run hs, hp⟩

/-- What a run shows of the state it ends in, together with what holds of every state reached. -/
lemma Reach.exists_of_run_imp {p q : σ → Prop} (as : List α)
    (h : ∃ s ∈ run step s₀ as, p s) (himp : ∀ s, Reach s₀ step s → p s → q s) : ∃ s, Reach s₀ step s ∧ q s := by
  obtain ⟨s, hreach, hp⟩ := exists_of_run as h
  exact ⟨s, hreach, himp s hreach hp⟩

instance decidableExistsSome {o : Option α} {p : α → Prop} [DecidablePred p] : Decidable (∃ a, o = some a ∧ p a) :=
  inferInstanceAs (Decidable (∃ a ∈ o, p a))

end OpampFleet.Lib
