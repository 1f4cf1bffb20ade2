import OpampFleet.Supervisor.RunnerTurns
import Mathlib.Data.List.Nodup
import Mathlib.Data.List.Perm.Subperm

/-!
# The runs of the supervision loop

The account of the commands over a whole run: each is answered at most once and with its own hash, and a package not
yet answered waits or was replaced while it waited. What waits has a retry due, as long as no exit of the program
itself starts it again past the wait.
-/

namespace OpampFleet.Supervisor.Process

open Lib List Option

variable {π : Type}

namespace Loop

open Supervision Runner

structure Accounted (l : Loop π) : Prop where
  taken : ∀ x, x ∈ l.packages ∨ x ∈ l.configs → x.span < l.taken
  packageSpans : (l.packages.map Handed.span).Nodup
  configSpans : (l.configs.map Handed.span).Nodup
  packages : ∀ x, l.supervision.packages.count x + (l.replaced.map Replaced.waited).count x ≤ l.packages.count x
  goesOn : l.running = true →
    ∀ x, l.supervision.packages.count x + (l.replaced.map Replaced.waited).count x = l.packages.count x
  configs : ∀ x, l.supervision.configs.count x ≤ l.configs.count x
  newer : ∀ p ∈ l.replaced, p.newer ∈ l.packages ∧ p.waited.span < p.newer.span

structure Due (l : Loop π) : Prop where
  away : l.supervision.AwayDue
  retries : l.running = true → l.supervision.Retries

section Turned

variable {r : Runner} {l l' : Loop π} {s : Supervision π} {P C : List Handed} {R : List Replaced} {K : Prop}
  {out : Supervision π × Bool}

private lemma turned_spec (l : Loop π) (r : Runner) (out : Supervision π × Bool) :
    (∀ x, (l.turned r out).supervision.packages.count x ≤ out.1.packages.count x) ∧
      (l.turned r out).supervision.configs = out.1.configs ∧
      (out.1.AwayDue → (l.turned r out).supervision.AwayDue) ∧
      ((l.turned r out).running = true → out.2 = false ∧ (l.turned r out).supervision = out.1) := by
  obtain ⟨s, ended⟩ := out
  cases ended with
  | false => exact ⟨fun _ => Nat.le_refl _, rfl, id, fun _ => ⟨rfl, rfl⟩⟩
  | true =>
    obtain ⟨hanswers, howed, hparked, hwaiting⟩ := r.supersede_spec s.stop
    refine ⟨fun x => ?_, ?_, fun haway => ?_, fun hrun => nomatch hrun⟩
    · show (r.supersede s.stop).packages.count x ≤ s.packages.count x
      simp only [Supervision.packages, packagesTold, hanswers, hparked, count_append, map_none,
        toList_none, count_nil]
      exact Nat.le_add_right _ _
    · show (r.supersede s.stop).configs = s.configs
      simp only [Supervision.configs, configsTold, hanswers, howed]
      rfl
    · show (r.supersede s.stop).waiting.away = true → (r.supersede s.stop).waiting.due.isSome
      rwa [hwaiting]

private lemma turned_fields (l : Loop π) (r : Runner) (out : Supervision π × Bool) :
    (l.turned r out).taken = l.taken ∧ (l.turned r out).packages = l.packages ∧
      (l.turned r out).configs = l.configs ∧ (l.turned r out).replaced = l.replaced := by
  obtain ⟨s, ended⟩ := out
  cases ended <;> exact ⟨rfl, rfl, rfl, rfl⟩

private lemma Due.turned (ht : Turned s P C K out) (hcalm : K) (haway : s.AwayDue) : Due (l.turned r out) := by
  obtain ⟨-, -, hkept, hgoes⟩ := l.turned_spec r out
  refine ⟨hkept (ht.away haway), fun hrun => ?_⟩
  obtain ⟨hended, hsame⟩ := hgoes hrun
  rw [hsame]
  exact ht.retries hcalm haway hended

private lemma nodup_spans {handed P : List Handed} {taken : Nat} (h : (handed.map Handed.span).Nodup)
    (hP : (P.map Handed.span).Nodup) (hold : ∀ x ∈ handed, x.span < taken) (hnew : ∀ x ∈ P, taken ≤ x.span) :
    ((handed ++ P).map Handed.span).Nodup := by
  rw [map_append]
  refine nodup_append.mpr ⟨h, hP, ?_⟩
  intro a ha b hb
  obtain ⟨x, hx, rfl⟩ := List.mem_map.mp ha
  obtain ⟨y, hy, rfl⟩ := List.mem_map.mp hb
  have hlt := hold x hx
  have hle := hnew y hy
  omega

private lemma Accounted.turned (h : Accounted l) (hrun : l.running = true) (hpackages : l'.packages = l.packages ++ P)
    (hconfigs : l'.configs = l.configs ++ C) (hreplaced : l'.replaced = l.replaced ++ R) (htaken : l.taken ≤ l'.taken)
    (hnew : ∀ x, x ∈ P ∨ x ∈ C → l.taken ≤ x.span ∧ x.span < l'.taken) (hP : (P.map Handed.span).Nodup)
    (hC : (C.map Handed.span).Nodup) (hR : ∀ p ∈ R, p.newer ∈ P ∧ p.waited ∈ l.packages)
    (hs : ∀ x, s.packages.count x + (R.map Replaced.waited).count x = l.supervision.packages.count x)
    (hc : s.configs = l.supervision.configs) (ht : Turned s P C K out) : Accounted (l'.turned r out) := by
  obtain ⟨hfewer, hsame, -, hgoes⟩ := l'.turned_spec r out
  obtain ⟨htaken', hpackages', hconfigs', hreplaced'⟩ := l'.turned_fields r out
  rw [hpackages] at hpackages'
  rw [hconfigs] at hconfigs'
  rw [hreplaced] at hreplaced'
  have hcount := h.goesOn hrun
  refine ⟨?_, ?_, ?_, ?_, ?_, ?_, ?_⟩
  · intro x hx
    rw [hpackages', hconfigs', mem_append, mem_append] at hx
    rw [htaken']
    have hcases : (x ∈ l.packages ∨ x ∈ l.configs) ∨ (x ∈ P ∨ x ∈ C) := by tauto
    rcases hcases with hold | hadded
    · exact Nat.lt_of_lt_of_le (h.taken x hold) htaken
    · exact (hnew x hadded).2
  · rw [hpackages']
    exact nodup_spans h.packageSpans hP (fun x hx => h.taken x (.inl hx)) fun x hx => (hnew x (.inl hx)).1
  · rw [hconfigs']
    exact nodup_spans h.configSpans hC (fun x hx => h.taken x (.inr hx)) fun x hx => (hnew x (.inr hx)).1
  · intro x
    rw [hpackages', hreplaced', map_append, count_append, count_append, ← hcount x, ← hs x]
    have hle := hfewer x
    have hturn := ht.packages x
    omega
  · intro hgoing x
    obtain ⟨hended, hstate⟩ := hgoes hgoing
    rw [hpackages', hreplaced', hstate, map_append, count_append, count_append, ← hcount x, ← hs x,
      ht.goesOn hended x]
    omega
  · intro x
    rw [hconfigs', hsame, count_append]
    have hturn := ht.configs x
    have hbefore := h.configs x
    rw [hc] at hturn
    omega
  · intro p hp
    rw [hreplaced', mem_append] at hp
    rw [hpackages']
    rcases hp with hp | hp
    · obtain ⟨hmem, hlt⟩ := h.newer p hp
      exact ⟨mem_append_left _ hmem, hlt⟩
    · obtain ⟨hmem, hwaited⟩ := hR p hp
      exact ⟨mem_append_right _ hmem,
        Nat.lt_of_lt_of_le (h.taken _ (.inl hwaited)) (hnew _ (.inl hmem)).1⟩

private lemma Accounted.same (h : Accounted l) (hrun : l.running = true) (io : Io)
    (ht : Turned { l.supervision with io := io } [] [] K out) : Accounted (l.turned r out) :=
  h.turned (R := []) (s := { l.supervision with io := io }) hrun (append_nil _).symm
    (append_nil _).symm (append_nil _).symm (Nat.le_refl _)
    (fun x hx => by simp at hx) nodup_nil nodup_nil (fun p hp => absurd hp not_mem_nil) (fun _ => rfl) rfl ht

end Turned

section Step

variable {r : Runner} {l l' : Loop π} {turn : Turn π × Io}

private lemma Accounted.parked_mem (h : Accounted l) {package : Parked}
    (hparked : l.supervision.parked = some package) : (⟨package.span, package.hash⟩ : Handed) ∈ l.packages := by
  have hcount := h.packages ⟨package.span, package.hash⟩
  rw [l.supervision.packages_count_parked _ hparked] at hcount
  have hone : [(⟨package.span, package.hash⟩ : Handed)].count ⟨package.span, package.hash⟩ = 1 := by simp
  exact count_pos_iff.mp (by omega)

private lemma Accounted.command (h : Accounted l) (hrun : l.running = true) (io : Io) (c : Command π) :
    Accounted (Loop.command r l { l.supervision with io := io } c) := by
  cases c with
  | applyConfig hash =>
    refine h.turned (P := []) (R := []) (s := { l.supervision with io := io }) hrun (append_nil _).symm rfl
      (append_nil _).symm (Nat.le_succ _) ?_
      nodup_nil (nodup_singleton _) (fun p hp => absurd hp not_mem_nil) (fun _ => rfl) rfl
      (r.applyConfig_turned { l.supervision with io := io } ⟨hash, l.taken⟩)
    intro x hx
    obtain rfl : x = ⟨l.taken, hash⟩ := by simpa using hx
    exact ⟨Nat.le_refl _, Nat.lt_succ_self _⟩
  | applyPackage artifact version hash =>
    obtain ⟨hanswers, howed, hparked, -⟩ := r.supersede_spec { l.supervision with io := io }
    have hconfigs : (r.supersede { l.supervision with io := io }).configs = l.supervision.configs := by
      simp only [Supervision.configs, configsTold, hanswers, howed]
    have ht := r.applyPackage_turned { l.supervision with io := io } artifact version hash l.taken
    have hnew : ∀ x : Handed, x ∈ [(⟨l.taken, hash⟩ : Handed)] ∨ x ∈ ([] : List Handed) →
        l.taken ≤ x.span ∧ x.span < l.taken + 1 := by
      intro x hx
      obtain rfl : x = ⟨l.taken, hash⟩ := by simpa using hx
      exact ⟨Nat.le_refl _, Nat.lt_succ_self _⟩
    have hcount : ∀ x, (r.supersede { l.supervision with io := io }).packages.count x +
        ((l.replaces ⟨l.taken, hash⟩).map Replaced.waited).count x = l.supervision.packages.count x := by
      intro x
      simp only [Supervision.packages, packagesTold, hanswers, hparked, replaces]
      cases l.supervision.parked <;> simp [count_append]
    refine h.turned (C := []) hrun rfl (append_nil _).symm rfl (Nat.le_succ _) hnew (nodup_singleton _)
      nodup_nil ?_ hcount hconfigs ht
    intro p hp
    obtain ⟨package, hwaits, rfl⟩ := map_eq_some_iff.mp (mem_toList.mp hp)
    exact ⟨mem_singleton.mpr rfl, h.parked_mem hwaits⟩
  | restart => exact h.same (r := r) hrun io (restart_turned _)
  | uninstall => exact { h with goesOn := fun hf => absurd hf Bool.false_ne_true }
  | shutdown => exact h.same hrun io (K := True) (.ends (.refl _) _ _ _)

private lemma Accounted.step (h : Accounted l) (hstep : Loop.step r l turn = some l') : Accounted l' := by
  obtain ⟨turn, io⟩ := turn
  obtain ⟨hrunning, hstep⟩ := ite_none_left_eq_some.mp hstep
  have hrun : l.running = true := by simpa using hrunning
  cases turn with
  | sweep =>
    obtain rfl := Option.some.inj hstep
    exact h.same hrun io (r.sweepBackup_turned _)
  | retry =>
    obtain ⟨-, ⟨⟩⟩ := ite_none_right_eq_some.mp hstep
    exact h.same hrun io (r.retry_turned _)
  | command c =>
    obtain rfl := Option.some.inj hstep
    exact h.command hrun io c
  | exited =>
    obtain ⟨-, ⟨⟩⟩ := ite_none_right_eq_some.mp hstep
    exact h.same hrun io (exited_turned _)
  | serviceWent =>
    obtain ⟨-, ⟨⟩⟩ := ite_none_right_eq_some.mp hstep
    exact h.same hrun io (serviceWent_turned _)
  | shutdown =>
    obtain rfl := Option.some.inj hstep
    exact h.same hrun io (K := True) (.ends (.refl _) _ _ _)

/-- Where the program exits on its own, nothing waits, the restart policy holds it, a shutdown comes before the
respawn, or the respawn finds the second service away. -/
def Decides (l : Loop π) (turn : Turn π × Io) : Prop :=
  match turn.1 with
  | .exited =>
    (l.supervision.owed = none ∧ l.supervision.parked = none) ∨
      (l.supervision.policy.exited turn.2.now).failed.2 ≠ .retry ∨ respawnWaits turn.2 = true
  | _ => True

instance (l : Loop π) (turn : Turn π × Io) : Decidable (l.Decides turn) := by
  unfold Decides
  split <;> infer_instance

private lemma Due.step (h : Due l) (hok : l.Decides turn) (hstep : Loop.step r l turn = some l') : Due l' := by
  obtain ⟨turn, io⟩ := turn
  obtain ⟨hrunning, hstep⟩ := ite_none_left_eq_some.mp hstep
  have hretries := h.retries (by simpa using hrunning)
  have haway : ({ l.supervision with io := io } : Supervision π).AwayDue := h.away
  cases turn with
  | sweep =>
    obtain rfl := Option.some.inj hstep
    exact .turned (r.sweepBackup_turned _) hretries haway
  | retry =>
    obtain ⟨-, ⟨⟩⟩ := ite_none_right_eq_some.mp hstep
    exact .turned (r.retry_turned _) trivial haway
  | command c =>
    obtain rfl := Option.some.inj hstep
    cases c with
    | applyConfig hash => exact .turned (r.applyConfig_turned _ _) trivial haway
    | applyPackage artifact version hash =>
      obtain ⟨-, -, -, hwaiting⟩ := r.supersede_spec { l.supervision with io := io }
      refine .turned (r.applyPackage_turned _ artifact version hash l.taken) hretries ?_
      unfold AwayDue
      rwa [hwaiting]
    | restart => exact .turned (r := r) (restart_turned _) trivial haway
    | uninstall => exact ⟨haway, fun hf => nomatch hf⟩
    | shutdown => exact .turned (K := True) (.ends (.refl _) [] [] _) trivial haway
  | exited =>
    obtain ⟨-, ⟨⟩⟩ := ite_none_right_eq_some.mp hstep
    exact .turned (exited_turned _) (hok.imp_right fun hdecides => ⟨hretries, hdecides⟩) haway
  | serviceWent =>
    obtain ⟨-, ⟨⟩⟩ := ite_none_right_eq_some.mp hstep
    exact .turned (serviceWent_turned _) trivial haway
  | shutdown =>
    obtain rfl := Option.some.inj hstep
    exact .turned (K := True) (.ends (.refl _) [] [] _) trivial haway

end Step

/-- Counted at most as often as what was handed over, the answers are some of it, and each once. -/
private lemma told_once {told handed : List Handed} (hspans : (handed.map Handed.span).Nodup)
    (hcount : ∀ x, told.count x ≤ handed.count x) :
    (told.map Handed.span).Nodup ∧ ∀ x ∈ told, x ∈ handed := by
  obtain ⟨some, hperm, hsub⟩ : told.Subperm handed := subperm_ext_iff.mpr fun x _ => hcount x
  refine ⟨(hperm.map Handed.span).nodup_iff.mp (hspans.sublist (hsub.map Handed.span)), fun x hx => ?_⟩
  exact hsub.subset (hperm.mem_iff.mpr hx)

section Run

variable (r : Runner) (dir : ProgramDir π) (io : Io)

private lemma start_spec : (start r dir io).packages = [] ∧ (start r dir io).configs = [] ∧
    (start r dir io).replaced = [] ∧
      (start r dir io).supervision.answers = [] ∧ Idle (start r dir io).supervision ∧
      (start r dir io).supervision.AwayDue := by
  obtain ⟨dir', hsweep⟩ := r.sweepBackup_eq ⟨false, .new r.applyGrace io.now, .new, .new, none, none, dir, [], io⟩
  have haway : (⟨false, .new r.applyGrace io.now, .new, .new, none, none, dir', [], io⟩ : Supervision π).AwayDue :=
    fun h => nomatch h
  refine ⟨rfl, rfl, rfl, ?_⟩
  unfold start
  simp only
  rw [hsweep]
  split
  next s₁ h₁ =>
    have hkeeps := keeps_interrupted
      (⟨false, .new r.applyGrace io.now, .new, .new, none, none, dir', [], io⟩ : Supervision π)
    rw [h₁] at hkeeps
    exact ⟨hkeeps.answers, ⟨hkeeps.owed, hkeeps.parked⟩, hkeeps.away haway⟩
  next s₁ h₁ =>
    have hkeeps := keeps_interrupted (⟨false, .new r.applyGrace io.now, .new, .new, none, none, dir', [],
      io⟩ : Supervision π)
    rw [h₁] at hkeeps
    have hspawn := hkeeps.trans s₁.spawnIfDue_spec.1
    exact ⟨hspawn.answers, ⟨hspawn.owed, hspawn.parked⟩, hspawn.away haway⟩

private lemma accounted {l : Loop π} (h : Reach (start r dir io) (Loop.step r) l) : Accounted l := by
  refine h.invariant ?_ fun _ _ _ hl hstep => hl.step hstep
  obtain ⟨hpackages, hconfigs, hreplaced, hanswers, hidle, -⟩ := start_spec r dir io
  have hnone : (start r dir io).supervision.packages = [] ∧ (start r dir io).supervision.configs = [] := by
    simp [Supervision.packages, Supervision.configs, packagesTold, configsTold, hanswers, hidle.1, hidle.2]
  refine ⟨?_, ?_, ?_, ?_, ?_, ?_, ?_⟩ <;> simp [hpackages, hconfigs, hreplaced, hnone]

private lemma due {l : Loop π} (h : Reach (start r dir io) (restrict Loop.Decides (Loop.step r)) l) : Due l := by
  refine h.invariant_restrict ?_ fun l turn l' hl hok hstep => hl.step hok hstep
  obtain ⟨-, -, -, -, hidle, haway⟩ := start_spec r dir io
  exact ⟨haway, fun _ => hidle.retries⟩

/-- Each command is answered at most once and with its own hash, and a package not yet answered waits, or was replaced
by a newer one while it waited. -/
theorem answered_once {l : Loop π} (h : Reach (start r dir io) (Loop.step r) l) :
    ((l.packages.map Handed.span).Nodup ∧ (l.supervision.packagesTold.map Handed.span).Nodup ∧
      ∀ x ∈ l.supervision.packagesTold, x ∈ l.packages) ∧
    ((l.configs.map Handed.span).Nodup ∧ (l.supervision.configsTold.map Handed.span).Nodup ∧
      ∀ x ∈ l.supervision.configsTold, x ∈ l.configs) ∧
    (l.running = true → ∀ x ∈ l.packages, x ∈ l.supervision.packagesTold ∨
      (∃ package, l.supervision.parked = some package ∧ package.span = x.span ∧ package.hash = x.hash) ∨
      ∃ p ∈ l.replaced, p.waited = x ∧ p.newer ∈ l.packages ∧ x.span < p.newer.span) := by
  have hl := accounted r dir io h
  refine ⟨⟨hl.packageSpans, ?_⟩, ⟨hl.configSpans, ?_⟩, ?_⟩
  · refine told_once hl.packageSpans fun x => ?_
    have hcount := hl.packages x
    rw [Supervision.packages, count_append] at hcount
    omega
  · refine told_once hl.configSpans fun x => ?_
    have hcount := hl.configs x
    rw [Supervision.configs, count_append] at hcount
    omega
  · intro hrun x hx
    have hcount := hl.goesOn hrun x
    have hpos := count_pos_iff.mpr hx
    rw [Supervision.packages, count_append] at hcount
    by_cases htold : x ∈ l.supervision.packagesTold
    · exact .inl htold
    have hnone := count_eq_zero.mpr htold
    by_cases hwaits : x ∈ (l.supervision.parked.map fun p => (⟨p.span, p.hash⟩ : Handed)).toList
    · obtain ⟨package, hparked, rfl⟩ := map_eq_some_iff.mp (mem_toList.mp hwaits)
      exact .inr (.inl ⟨package, hparked, rfl, rfl⟩)
    · have hzero := count_eq_zero.mpr hwaits
      have hreplaced : x ∈ l.replaced.map Replaced.waited := count_pos_iff.mp (by omega)
      obtain ⟨p, hp, rfl⟩ := List.mem_map.mp hreplaced
      exact .inr (.inr ⟨p, hp, rfl, hl.newer p hp⟩)

/-- A retry is due for what waits, in every run whose exits decide it. -/
theorem retry_due_for_what_waits {l : Loop π}
    (h : Reach (start r dir io) (restrict Loop.Decides (Loop.step r)) l) (hrunning : l.running = true)
    (hwaits : l.supervision.owed.isSome ∨ l.supervision.parked.isSome) : l.supervision.waiting.due.isSome :=
  (due r dir io h).retries hrunning hwaits

end Run

def treeDir : ProgramDir Nat := ⟨fun | .live => some 1 | _ => none, none, [], 0⟩

def quietIo (now : Nat) : Io := ⟨now, 0, true, [], [], [], [], [], []⟩

def parkingTurns : List (Turn Nat × Io) :=
  [(.command (.applyPackage (.ok 2) "2.0.0" [2]), { quietIo 20000 with reaches := [false] })]

/-- Then the program exits on its own and is started again: the package waits with no retry due. -/
theorem exit_forgets_what_waits :
    ∃ l, Reach (start treeRunner treeDir (quietIo 0)) (Loop.step treeRunner) l ∧ l.running = true ∧
      l.supervision.child = true ∧ l.supervision.parked.isSome ∧ l.supervision.waiting.due = none := by
  exact Reach.exists_of_run (parkingTurns ++ [(.exited, quietIo 40000)]) (by decide +kernel)

/-- Where the service is still away at that exit, the start waits for it, and the package with it. -/
theorem retry_due_for_what_waits_exited :
    ∃ l, Reach (start treeRunner treeDir (quietIo 0)) (restrict Loop.Decides (Loop.step treeRunner)) l ∧
      l.running = true ∧ l.supervision.child = false ∧ l.supervision.parked.isSome ∧
        l.supervision.waiting.due.isSome := by
  refine Reach.exists_of_run_imp
    (p := fun l => l.running = true ∧ l.supervision.child = false ∧ l.supervision.parked.isSome)
    (parkingTurns ++ [(.exited, { quietIo 40000 with starts := [.unreachable] })]) (by decide +kernel) ?_
  rintro l hreach ⟨hrun, hexited, hparked⟩
  refine ⟨hrun, hexited, hparked, ?_⟩
  exact retry_due_for_what_waits treeRunner treeDir (quietIo 0) hreach hrun (.inr hparked)

/-- The package that waits is replaced by a newer one, which waits in its place. -/
theorem answered_once_replaced : ∃ l, Reach (start treeRunner treeDir (quietIo 0)) (Loop.step treeRunner) l ∧
      l.packages.length = 2 ∧ (l.supervision.packagesTold.map Handed.span).Nodup ∧
      ∀ x ∈ l.packages, x ∈ l.supervision.packagesTold ∨
        (∃ package, l.supervision.parked = some package ∧ package.span = x.span ∧ package.hash = x.hash) ∨
        ∃ p ∈ l.replaced, p.waited = x ∧ p.newer ∈ l.packages ∧ x.span < p.newer.span := by
  refine Reach.exists_of_run_imp (p := fun l => l.running = true ∧ l.packages.length = 2)
    (parkingTurns ++ [(.command (.applyPackage (.ok 3) "3.0.0" [3]), quietIo 30000)]) (by decide +kernel) ?_
  rintro l hreach ⟨hrun, hlength⟩
  obtain ⟨⟨-, htold, -⟩, -, hrest⟩ := answered_once treeRunner treeDir (quietIo 0) hreach
  exact ⟨hlength, htold, hrest hrun⟩

end Loop

end OpampFleet.Supervisor.Process
