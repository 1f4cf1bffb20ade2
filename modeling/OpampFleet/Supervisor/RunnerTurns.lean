import OpampFleet.Supervisor.Runner

/-!
# What the Runner answers, and what it still owes

A package or a configuration handed to the Runner is counted among those answered and the one that waits. Every turn
that goes on keeps the count, so none is answered twice or forgotten, and what is left waiting has a retry due.
-/

namespace OpampFleet.Supervisor.Process

open Lib List Option

variable {π : Type}

namespace Supervision

variable (s : Supervision π)

def packagesTold : List Handed :=
  s.answers.filterMap fun
    | .packageApplied span hash _ => some ⟨span, hash⟩
    | .configApplied _ _ _ => none

def configsTold : List Handed :=
  s.answers.filterMap fun
    | .configApplied span hash _ => some ⟨span, hash⟩
    | .packageApplied _ _ _ => none

def packages : List Handed := s.packagesTold ++ (s.parked.map fun p => ⟨p.span, p.hash⟩).toList

def configs : List Handed := s.configsTold ++ (s.owed.map fun c => ⟨c.span, c.hash⟩).toList

def AwayDue : Prop := s.waiting.away = true → s.waiting.due.isSome

def Retries : Prop := s.owed.isSome ∨ s.parked.isSome → s.waiting.due.isSome

structure Keeps (s s' : Supervision π) : Prop where
  answers : s'.answers = s.answers
  owed : s'.owed = s.owed
  parked : s'.parked = s.parked
  away : s.AwayDue → s'.AwayDue

namespace Keeps

lemma refl (s : Supervision π) : Keeps s s := ⟨rfl, rfl, rfl, id⟩

variable {s s' : Supervision π}

lemma trans {s'' : Supervision π} (h : Keeps s s') (h' : Keeps s' s'') : Keeps s s'' :=
  ⟨h'.answers.trans h.answers, h'.owed.trans h.owed, h'.parked.trans h.parked, h'.away ∘ h.away⟩

private lemma packages_eq (h : Keeps s s') : s'.packages = s.packages := by
  unfold packages packagesTold
  rw [h.answers, h.parked]

private lemma configs_eq (h : Keeps s s') : s'.configs = s.configs := by
  unfold configs configsTold
  rw [h.answers, h.owed]

end Keeps

section Counts

variable (s : Supervision π) (x : Handed) (config : OwedConfig)

private lemma packages_count_answer (span : Nat) (hash : Bytes) (result : Except String String) :
    (s.answer (.packageApplied span hash result)).packages.count x = s.packages.count x + [⟨span, hash⟩].count x := by
  simp only [packages, packagesTold, answer, filterMap_append, count_append, filterMap_cons,
    filterMap_nil]
  omega

private lemma configs_answer (span : Nat) (hash : Bytes) (result : Except String String) :
    (s.answer (.packageApplied span hash result)).configs = s.configs := by
  simp [configs, configsTold, answer]

private lemma configs_count_settle (result : Except String Unit) :
    (s.settle config result).configs.count x = s.configs.count x + [⟨config.span, config.hash⟩].count x := by
  simp only [configs, configsTold, settle, answer, filterMap_append, count_append, filterMap_cons,
    filterMap_nil]
  omega

private lemma packages_settle (result : Except String Unit) : (s.settle config result).packages = s.packages := by
  simp [packages, packagesTold, settle, answer]

private lemma configs_count_owe : ({ s with owed := some config } : Supervision π).configs.count x ≤
      s.configs.count x + [⟨config.span, config.hash⟩].count x := by
  simp only [configs, configsTold, count_append, map_some, toList_some]
  omega

private lemma configs_count_owed {config : OwedConfig} (h : s.owed = some config) : s.configs.count x =
      ({ s with owed := none } : Supervision π).configs.count x + [⟨config.span, config.hash⟩].count x := by
  simp [configs, configsTold, h, count_append]

private lemma configs_count_drop : ({ s with owed := none } : Supervision π).configs.count x ≤ s.configs.count x := by
  simp only [configs, configsTold, count_append, map_none, toList_none, count_nil]
  omega

private lemma packages_count_park {s : Supervision π} (h : s.parked = none) (package : Parked) :
    ({ s with parked := some package } : Supervision π).packages.count x =
      s.packages.count x + [⟨package.span, package.hash⟩].count x := by
  simp [packages, packagesTold, h, count_append]

lemma packages_count_parked {package : Parked} (h : s.parked = some package) : s.packages.count x =
      ({ s with parked := none } : Supervision π).packages.count x + [⟨package.span, package.hash⟩].count x := by
  simp [packages, packagesTold, h, count_append]

end Counts

section

variable (s : Supervision π)

private lemma settleOwed_spec (result : Except String Unit) :
    (s.settleOwed result).packages = s.packages ∧ (∀ x, (s.settleOwed result).configs.count x = s.configs.count x) ∧
      (s.settleOwed result).owed = none ∧ (s.settleOwed result).parked = s.parked ∧
      (s.settleOwed result).waiting = s.waiting := by
  unfold settleOwed
  cases h : s.owed with
  | none => exact ⟨rfl, fun _ => rfl, h, rfl, rfl⟩
  | some config =>
    refine ⟨packages_settle _ _ _, fun x => ?_, rfl, rfl, rfl⟩
    rw [configs_count_settle, s.configs_count_owed x h]

lemma keeps_interrupted : Keeps s s.interrupted.1 := ⟨rfl, rfl, rfl, id⟩

private lemma keeps_reach : Keeps s s.reach.1 := ⟨rfl, rfl, rfl, id⟩

private lemma keeps_stop : Keeps s s.stop := ⟨rfl, rfl, rfl, id⟩

private lemma keeps_arm : Keeps s s.arm := ⟨rfl, rfl, rfl, fun _ _ => rfl⟩

private lemma keeps_clear : Keeps s s.clear := ⟨rfl, rfl, rfl, fun _ h => nomatch h⟩

private lemma keeps_trySpawn : Keeps s s.trySpawn.1 := by
  unfold trySpawn
  split <;> exact ⟨rfl, rfl, rfl, id⟩

/-- `spawnIfDue` spawns, or leaves another attempt due. -/
lemma spawnIfDue_spec : Keeps s s.spawnIfDue.1 ∧
      (s.spawnIfDue.2 = false ∧ s.spawnIfDue.1.waiting.away = true ∧ s.spawnIfDue.1.waiting.due.isSome ∨
        s.spawnIfDue.1.waiting.away = false) := by
  have hspawn := s.keeps_trySpawn
  unfold spawnIfDue
  cases h : s.trySpawn with
  | mk s₁ start =>
    rw [h] at hspawn
    cases start with
    | running | failed e => exact ⟨hspawn.trans s₁.keeps_clear, .inr rfl⟩
    | unreachable => exact ⟨hspawn.trans s₁.keeps_arm, .inl ⟨rfl, rfl, rfl⟩⟩

end

end Supervision

namespace Runner

open Supervision

variable (r : Runner)

section

variable (s : Supervision π)

private lemma keeps_gate (started : Bool) : Keeps s (r.gate s started).1 := by
  unfold gate
  split
  · exact .refl s
  · split
    · cases s.io.graces.headD .survived <;> exact ⟨rfl, rfl, rfl, id⟩
    · exact ⟨rfl, rfl, rfl, id⟩

private lemma keeps_retainBackup : Keeps s (r.retainBackup s) := by
  unfold retainBackup
  split <;> exact ⟨rfl, rfl, rfl, id⟩

private lemma keeps_conclude (t : InstallTarget) (hasBackup : Bool) (outcome : GraceOutcome) :
    Keeps s (r.conclude s t hasBackup outcome) := by
  unfold conclude
  split
  · exact ⟨rfl, rfl, rfl, id⟩
  · exact .refl s
  · exact r.keeps_retainBackup s
  · exact .refl s

private lemma startSwapped_waits : Keeps s (r.startSwapped s).1 ∧
      ((r.startSwapped s).2 = some .unreachable → (r.startSwapped s).1.waiting.due.isSome) := by
  have hint := s.keeps_interrupted
  unfold startSwapped
  cases h : s.interrupted with
  | mk s₁ interrupt =>
    rw [h] at hint
    cases interrupt with
    | true => exact ⟨hint, fun h => nomatch h⟩
    | false =>
      have hspawn := s₁.keeps_trySpawn
      simp only
      cases h₁ : s₁.trySpawn with
      | mk s₂ start =>
        rw [h₁] at hspawn
        have hclear := (hint.trans hspawn).trans s₂.keeps_clear
        cases start with
        | unreachable => exact ⟨(hint.trans hspawn).trans s₂.keeps_arm, fun _ => rfl⟩
        | failed e =>
          simp only
          split
          · exact ⟨hclear, fun h => nomatch h⟩
          · exact ⟨hclear.trans (r.keeps_gate _ _), fun h => nomatch h⟩
        | running =>
          have hgate := r.keeps_gate s₂.clear true
          simp only
          cases h₂ : r.gate s₂.clear true with
          | mk s₃ outcome =>
            rw [h₂] at hgate
            cases outcome with
            | unreachable => exact ⟨(hclear.trans hgate).trans s₃.keeps_arm, fun _ => rfl⟩
            | ok | failed e | shuttingDown => exact ⟨hclear.trans hgate, fun h => nomatch h⟩

end

def Swapped.Waits (s : Supervision π) : Swapped → Prop
  | .parked => s.waiting.due.isSome
  | .gated .unreachable => False
  | .gated _ => True

variable {s : Supervision π}

private lemma afterStart_waits {ended : Option GraceOutcome}
    (hdue : ended = some .unreachable → s.waiting.due.isSome) (t : InstallTarget) (hasBackup : Bool) :
    Keeps s (r.afterStart s t hasBackup ended).1 ∧
      (r.afterStart s t hasBackup ended).2.Waits (r.afterStart s t hasBackup ended).1 := by
  cases ended with
  | none =>
    unfold afterStart
    simp only
    split <;> exact ⟨⟨rfl, rfl, rfl, id⟩, trivial⟩
  | some outcome =>
    cases outcome with
    | ok | failed e | shuttingDown => exact ⟨r.keeps_conclude _ _ _ _, trivial⟩
    | unreachable =>
      unfold afterStart
      simp only
      split
      · exact ⟨⟨rfl, rfl, rfl, id⟩, hdue rfl⟩
      next dir e _ =>
        have hback : Keeps s { s with dir := dir } := ⟨rfl, rfl, rfl, id⟩
        exact ⟨hback.trans (r.keeps_conclude _ _ _ _), trivial⟩

private lemma swapAndGate_waits (s : Supervision π) :
    Keeps s (r.swapAndGate s).1 ∧ (r.swapAndGate s).2.Waits (r.swapAndGate s).1 := by
  unfold swapAndGate
  split
  · exact ⟨.refl s, trivial⟩
  rename_i t _
  split
  · exact ⟨⟨rfl, rfl, rfl, id⟩, trivial⟩
  split
  · exact ⟨⟨rfl, rfl, rfl, id⟩, trivial⟩
  rename_i dir _
  have hdir : Keeps s { s with dir := dir } := ⟨rfl, rfl, rfl, id⟩
  obtain ⟨hstart, hdue⟩ := r.startSwapped_waits { s with dir := dir }
  obtain ⟨hafter, hwaits⟩ := r.afterStart_waits hdue t _
  exact ⟨(hdir.trans hstart).trans hafter, hwaits⟩

private lemma keeps_check (s : Supervision π) : Keeps s (r.check s).1 ∧ (r.check s).1.waiting = s.waiting := by
  unfold check
  split <;> exact ⟨⟨rfl, rfl, rfl, id⟩, rfl⟩

private lemma keeps_discard (s : Supervision π) : Keeps s (r.discard s) ∧ (r.discard s).waiting = s.waiting := by
  unfold discard
  split <;> exact ⟨⟨rfl, rfl, rfl, id⟩, rfl⟩

/-- Each package and configuration in hand or waiting before a call is answered once or waits after it, unless the
loop ends; and where `calm` holds before it, a retry is due for what waits after it. -/
structure Turned (s : Supervision π) (P C : List Handed) (calm : Prop) (out : Supervision π × Bool) : Prop where
  packages : ∀ x, out.1.packages.count x ≤ s.packages.count x + P.count x
  goesOn : out.2 = false → ∀ x, out.1.packages.count x = s.packages.count x + P.count x
  configs : ∀ x, out.1.configs.count x ≤ s.configs.count x + C.count x
  away : s.AwayDue → out.1.AwayDue
  retries : calm → s.AwayDue → out.2 = false → out.1.Retries

def Idle (s : Supervision π) : Prop := s.owed = none ∧ s.parked = none

lemma Idle.retries (h : Idle s) : s.Retries := by
  intro hwaits
  rw [h.1, h.2] at hwaits
  simp at hwaits

section Turned

variable {s s' : Supervision π} {P C : List Handed} {calm K : Prop} {out : Supervision π × Bool}

private lemma Turned.of_keeps (h : Keeps s s') (hcalm : calm → K) (ht : Turned s' P C K out) :
    Turned s P C calm out where
  packages := by rw [← h.packages_eq]; exact ht.packages
  goesOn := by rw [← h.packages_eq]; exact ht.goesOn
  configs := by rw [← h.configs_eq]; exact ht.configs
  away := ht.away ∘ h.away
  retries hc haway := ht.retries (hcalm hc) (h.away haway)

lemma Turned.ends (h : Keeps s s') (P C : List Handed) (calm : Prop) : Turned s P C calm (s', true) where
  packages x := by rw [h.packages_eq]; omega
  goesOn hf := nomatch hf
  configs x := by rw [h.configs_eq]; omega
  away := h.away
  retries _ _ hf := nomatch hf

private lemma Turned.keeps (h : Keeps s s') (hcalm : calm → s.AwayDue → s'.Retries) : Turned s []
    [] calm (s', false) where
  packages x := by rw [h.packages_eq]; omega
  goesOn _ x := by simp [h.packages_eq]
  configs x := by rw [h.configs_eq]; omega
  away := h.away
  retries hc haway _ := hcalm hc haway

private lemma Turned.parks (package : Parked) {ended : Bool} (h : Keeps s s') (hparked : s.parked = none)
    (hdue : s.AwayDue → ended = false → s'.waiting.due.isSome) :
    Turned s [⟨package.span, package.hash⟩] [] calm ({ s' with parked := some package }, ended) := by
  have hcount := fun x => packages_count_park x (h.parked.trans hparked) package
  rw [h.packages_eq] at hcount
  exact {
    packages := fun x => Nat.le_of_eq (hcount x)
    goesOn := fun _ x => hcount x
    configs := fun x => by rw [← h.configs_eq]; exact Nat.le_add_right _ _
    away := h.away
    retries := fun _ haway hf _ => hdue haway hf }

private lemma Turned.answered {span : Nat} {hash : Bytes} (result : Except String String) (h : Keeps s s')
    (hcalm : calm → K) (ht : Turned (s'.answer (.packageApplied span hash result)) [] C K out) :
    Turned s [⟨span, hash⟩] C calm out := by
  have hcount := fun x => packages_count_answer s' x span hash result
  rw [h.packages_eq] at hcount
  exact {
    packages := fun x => by rw [← hcount x]; exact ht.packages x
    goesOn := fun hf x => by rw [← hcount x]; exact ht.goesOn hf x
    configs := fun x => by rw [← h.configs_eq, ← s'.configs_answer span hash result]; exact ht.configs x
    away := fun haway => ht.away (h.away haway)
    retries := fun hc haway => ht.retries (hcalm hc) (h.away haway) }

variable {config : OwedConfig}

private lemma Turned.settled {result : Except String Unit} (h : Keeps s s') (hcalm : calm → K)
    (ht : Turned (s'.settle config result) P [] K out) : Turned s P [⟨config.span, config.hash⟩] calm out := by
  have hcount := fun x => configs_count_settle s' x config result
  rw [h.configs_eq] at hcount
  exact {
    packages := fun x => by rw [← h.packages_eq, ← s'.packages_settle config result]; exact ht.packages x
    goesOn := fun hf x => by rw [← h.packages_eq, ← s'.packages_settle config result]; exact ht.goesOn hf x
    configs := fun x => by rw [← hcount x]; exact ht.configs x
    away := fun haway => ht.away (h.away haway)
    retries := fun hc haway => ht.retries (hcalm hc) (h.away haway) }

private lemma Turned.owed (howed : s.owed = some config) (hcalm : calm → K)
    (ht : Turned { s with owed := none } P [⟨config.span, config.hash⟩] K out) : Turned s P [] calm out where
  packages := ht.packages
  goesOn := ht.goesOn
  configs x := by rw [s.configs_count_owed x howed]; exact ht.configs x
  away := ht.away
  retries hc := ht.retries (hcalm hc)

private lemma Turned.owes (hcalm : calm → K) (ht : Turned { s with owed := some config } P [] K out) :
    Turned s P [⟨config.span, config.hash⟩] calm out where
  packages := ht.packages
  goesOn := ht.goesOn
  configs x := Nat.le_trans (ht.configs x) (s.configs_count_owe x config)
  away := ht.away
  retries hc := ht.retries (hcalm hc)

private lemma Turned.parked {package : Parked} (hparked : s.parked = some package) (hcalm : calm → K)
    (ht : Turned { s with parked := none } [⟨package.span, package.hash⟩] C K out) : Turned s [] C calm out where
  packages x := by rw [s.packages_count_parked x hparked]; exact ht.packages x
  goesOn hf x := by rw [s.packages_count_parked x hparked]; exact ht.goesOn hf x
  configs := ht.configs
  away := ht.away
  retries hc := ht.retries (hcalm hc)

private lemma Turned.settlesOwed {result : Except String Unit}
    (hcalm : calm → s.AwayDue → (s.settleOwed result).Retries) : Turned s [] [] calm (s.settleOwed result, false) := by
  obtain ⟨hpackages, hconfigs, -, -, hwaiting⟩ := s.settleOwed_spec result
  exact {
    packages := fun x => by rw [hpackages]; exact Nat.le_add_right _ _
    goesOn := fun _ x => by rw [hpackages]; rfl
    configs := fun x => by rw [hconfigs x]; exact Nat.le_add_right _ _
    away := fun haway => by unfold AwayDue; rw [hwaiting]; exact haway
    retries := fun hc haway _ => hcalm hc haway }

end Turned

private lemma settleOwed_retries (result : Except String Unit)
    (h : s.parked.isSome → s.waiting.due.isSome) : (s.settleOwed result).Retries := by
  obtain ⟨-, -, howed, hparked, hwaiting⟩ := s.settleOwed_spec result
  intro hwaits
  rw [howed, hparked] at hwaits
  rw [hwaiting]
  exact h (hwaits.resolve_left (fun hsome => nomatch hsome))

private lemma settleOwed_idle (result : Except String Unit) (h : s.parked = none) : (s.settleOwed result).Retries := by
  refine settleOwed_retries result fun hsome => ?_
  simp [h] at hsome

private lemma hold_turned (s : Supervision π) (failures : Nat) :
    Turned s [] [] (s.parked.isSome → s.waiting.due.isSome) (s.hold failures, false) := by
  have hkeeps : Keeps s { s with child := false } := ⟨rfl, rfl, rfl, id⟩
  exact .of_keeps hkeeps id (.settlesOwed fun hdue _ => settleOwed_retries _ hdue)

/-! ### The calls of a turn -/

def startUnreached (io : Io) : Bool :=
  io.builds &&
    match io.starts.headD .running with
    | .unreachable => true
    | _ => false

def respawnWaits (io : Io) : Bool :=
  io.interrupts.headD false || io.interrupts.tail.headD false || startUnreached io

private lemma spawnIfDue_due (h : startUnreached s.io = true) : s.spawnIfDue.1.waiting.due.isSome := by
  unfold startUnreached at h
  unfold Supervision.spawnIfDue Supervision.trySpawn
  cases hbuilds : s.io.builds with
  | false =>
    simp [hbuilds] at h
  | true =>
    cases hstart : s.io.starts.headD .running with
    | unreachable => rfl
    | running | failed e =>
      rw [hbuilds, hstart] at h
      cases h

section

variable (s : Supervision π)

private lemma respawn_turned : Turned s [] [] (Idle s ∨ respawnWaits s.io = true) (respawn s) := by
  unfold respawn
  split
  next s₁ h₁ =>
    exact .ends (by simpa [h₁] using s.keeps_interrupted) _ _ _
  rename_i s₁ h₁
  have hkeeps₁ : Keeps s s₁ := by simpa [h₁] using s.keeps_interrupted
  split
  next s₂ h₂ =>
    exact .ends (hkeeps₁.trans (by simpa [h₂] using s₁.keeps_interrupted)) _ _ _
  rename_i s₂ h₂
  have hkeeps₂ : Keeps s s₂ := hkeeps₁.trans (by simpa [h₂] using s₁.keeps_interrupted)
  have hio : respawnWaits s.io = startUnreached s₂.io := by
    have hs₁ : s₁ = s.interrupted.1 := by rw [h₁]
    have hs₂ : s₂ = s₁.interrupted.1 := by rw [h₂]
    have hfirst : s.io.interrupts.headD false = false := congrArg Prod.snd h₁
    have hsecond : s₁.io.interrupts.headD false = false := congrArg Prod.snd h₂
    rw [hs₁] at hsecond hs₂
    unfold respawnWaits
    rw [hfirst, show s.io.interrupts.tail.headD false = false from hsecond, hs₂]
    rfl
  obtain ⟨hspawn, -⟩ := s₂.spawnIfDue_spec
  have hkeeps := hkeeps₂.trans hspawn
  have hdone : Keeps s { s₂.spawnIfDue.1 with
      child := s₂.spawnIfDue.2
      policy := s₂.spawnIfDue.1.policy.starts s₂.spawnIfDue.1.io.now } :=
    { hkeeps with }
  refine .keeps hdone ?_
  rintro (hidle | hwaits) -
  · exact Idle.retries ⟨hkeeps.owed.trans hidle.1, hkeeps.parked.trans hidle.2⟩
  · exact fun _ => spawnIfDue_due (hio.symm.trans hwaits)

/-- A respawn decides what waits only by finding the service away; a hold leaves a package's retry as it was. -/
private lemma respawnOrHold_turned :
    Turned s [] [] (Idle s ∨ s.Retries ∧ (s.policy.failed.2 ≠ .retry ∨ respawnWaits s.io = true))
      (respawnOrHold s) := by
  unfold respawnOrHold
  cases hfailed : s.policy.failed with
  | mk policy after =>
    cases after with
    | hold failures =>
      have hkeeps : Keeps s { s with policy := policy } := ⟨rfl, rfl, rfl, id⟩
      refine .of_keeps hkeeps ?_ (hold_turned _ failures)
      rintro (hidle | ⟨hretries, -⟩) hparked
      · exact hidle.retries (.inr hparked)
      · exact hretries (.inr hparked)
    | retry =>
      have hkeeps : Keeps s { s with policy := policy, backoff := (s.backoff.advance s.io.draw).1 } :=
        ⟨rfl, rfl, rfl, id⟩
      refine .of_keeps hkeeps ?_ (respawn_turned _)
      rintro (hidle | ⟨-, hhold | hunreached⟩)
      · exact .inl hidle
      · exact absurd rfl hhold
      · exact .inr hunreached

private lemma decideOwed_turned (config : OwedConfig) (ran : Bool) :
    Turned s [] [⟨config.span, config.hash⟩] (Idle s) (r.decideOwed s config ran) := by
  have hkeeps : Keeps s (if !ran && !s.io.builds then (s, GraceOutcome.ok) else r.gate s ran).1 := by
    split
    · exact .refl s
    · exact r.keeps_gate s ran
  unfold decideOwed
  generalize (if !ran && !s.io.builds then (s, GraceOutcome.ok) else r.gate s ran) = gated at hkeeps
  obtain ⟨s₁, outcome⟩ := gated
  have hidle : Idle s → Idle s₁ := fun h => ⟨hkeeps.owed.trans h.1, hkeeps.parked.trans h.2⟩
  cases outcome with
  | ok => exact .settled hkeeps hidle (.keeps (.refl _) fun h _ => Idle.retries h)
  | failed e =>
    simp only
    split
    · exact .settled hkeeps (fun h => .inl (hidle h)) (respawnOrHold_turned _)
    · exact .settled hkeeps hidle (.keeps (.refl _) fun h _ => Idle.retries h)
  | shuttingDown => exact .ends hkeeps _ _ _
  | unreachable =>
    exact .of_keeps (hkeeps.trans s₁.keeps_arm) id
      (.owes (K := True) (fun _ => trivial) (.keeps (.refl _) fun _ _ _ => rfl))

private lemma started_turned (ran : Bool) : Turned s [] [] (s.parked = none) (r.started s ran) := by
  have hkeeps : Keeps s (if ran then { s with policy := s.policy.starts s.io.now } else s) := by
    split <;> exact ⟨rfl, rfl, rfl, id⟩
  unfold started
  generalize (if ran then { s with policy := s.policy.starts s.io.now } else s) = s₁ at hkeeps
  refine .of_keeps hkeeps (K := s₁.parked = none) (fun h => hkeeps.parked.trans h) ?_
  simp only
  cases howed : s₁.owed with
  | none =>
    exact .keeps ⟨rfl, howed.symm, rfl, id⟩ fun hparked _ => Idle.retries ⟨rfl, hparked⟩
  | some config =>
    simp only
    split
    next haway =>
      have haway : s₁.waiting.away = true := by
        cases ran with
        | true => cases haway
        | false => exact haway
      exact .keeps (.refl _) fun _ hdue _ => hdue haway
    · exact .owed howed (fun hparked => ⟨rfl, hparked⟩) (r.decideOwed_turned _ config ran)

private lemma startCurrent_turned : Turned s [] [] (s.parked = none) (r.startCurrent s) := by
  unfold startCurrent
  split
  next s₁ h₁ =>
    exact .ends (by simpa [h₁] using s.keeps_interrupted) _ _ _
  next s₁ h₁ =>
    have hkeeps₁ : Keeps s s₁ := by simpa [h₁] using s.keeps_interrupted
    have hkeeps := hkeeps₁.trans s₁.spawnIfDue_spec.1
    exact .of_keeps hkeeps (fun h => hkeeps.parked.trans h) (r.started_turned _ _)

private lemma refuse_turned (package : Parked) (e : String) :
    Turned s [⟨package.span, package.hash⟩] [] (s.parked = none) (r.refuse s package e) := by
  have hdiscard := (r.keeps_discard s).1
  have hparked : s.parked = none → (r.discard s).parked = none := fun h => hdiscard.parked.trans h
  refine .answered (.error e) hdiscard hparked ?_
  unfold refuse
  simp only
  split
  next howed =>
    exact .keeps (.refl _) fun h _ => Idle.retries ⟨isNone_iff_eq_none.mp howed, h⟩
  · exact .of_keeps (keeps_stop _) id (r.startCurrent_turned _)

end

def Checked.Spec (s : Supervision π) (package : Parked) : Supervision π × Checked → Prop
  | (s', .done ended) => Turned s [⟨package.span, package.hash⟩] [] (s.parked = none) (s', ended)
  | (s', .ready package') => Keeps s s' ∧ package'.span = package.span ∧ package'.hash = package.hash

private lemma checkParked_spec (hparked : s.parked = none) (package : Parked) :
    Checked.Spec s package (r.checkParked s package) := by
  unfold checkParked
  split
  · exact ⟨.refl s, rfl, rfl⟩
  split
  next s₁ h₁ =>
    exact .parks package (by simpa [h₁] using s.keeps_interrupted) hparked (fun _ hf => nomatch hf)
  rename_i s₁ h₁
  have hkeeps₁ : Keeps s s₁ := by simpa [h₁] using s.keeps_interrupted
  have hkeeps₂ := hkeeps₁.trans (r.keeps_check s₁).1
  cases h₂ : r.check s₁ with
  | mk s₂ checked =>
    rw [h₂] at hkeeps₂
    cases checked with
    | passed => exact ⟨hkeeps₂, rfl, rfl⟩
    | unreached e => exact .parks package (hkeeps₂.trans s₂.keeps_arm) hparked fun _ _ => rfl
    | refused e => exact .of_keeps hkeeps₂ (fun h => hkeeps₂.parked.trans h) (r.refuse_turned s₂ package e)

private lemma keeps_startIfDown (s : Supervision π) : Keeps s (startIfDown s) := by
  obtain ⟨hspawn, -⟩ := s.spawnIfDue_spec
  unfold startIfDown
  split
  · exact .refl s
  · exact { hspawn with }

private lemma installed_turned (s : Supervision π) (package : Parked) :
    Turned s [⟨package.span, package.hash⟩] [] (s.parked = none) (installed s package, false) := by
  have hkeeps := keeps_startIfDown s
  have hstarts : Keeps s { startIfDown s with policy := (startIfDown s).policy.starts (startIfDown s).io.now } :=
    { hkeeps with }
  exact .answered (.ok package.version) hstarts (K := (startIfDown s).parked = none)
    (fun h => hkeeps.parked.trans h) (.settlesOwed fun hparked _ => settleOwed_idle _ hparked)

private lemma installFailed_turned (s : Supervision π) (package : Parked) (e : String) :
    Turned s [⟨package.span, package.hash⟩] [] (s.parked = none) (r.installFailed s package e) := by
  refine .answered (.error e) (.refl s) (K := s.parked = none) id ?_
  unfold installFailed
  simp only
  generalize hs₁ : s.answer (.packageApplied package.span package.hash (.error e)) = s₁
  have hparked : s₁.parked = s.parked := by rw [← hs₁]; rfl
  rw [← hparked]
  cases hfailed : s₁.policy.failed with
  | mk policy after =>
    have hpolicy : Keeps s₁ { s₁ with policy := policy } := ⟨rfl, rfl, rfl, id⟩
    cases after with
    | hold failures =>
      refine .of_keeps hpolicy ?_ (hold_turned _ failures)
      intro hnone hsome
      simp [show s₁.parked = none from hnone] at hsome
    | retry => exact .of_keeps hpolicy id (r.startCurrent_turned _)

private lemma swapIn_turned (hparked : s.parked = none) (package : Parked) :
    Turned s [⟨package.span, package.hash⟩] [] (s.parked = none) (r.swapIn s package) := by
  obtain ⟨hswap, hwaits⟩ := r.swapAndGate_waits s.stop
  have hkeeps := s.keeps_stop.trans hswap
  unfold swapIn
  cases h : r.swapAndGate s.stop with
  | mk s₁ swapped =>
    rw [h] at hkeeps hwaits
    have hnone : s.parked = none → s₁.parked = none := fun hp => hkeeps.parked.trans hp
    cases swapped with
    | parked => exact .parks { package with checked := true } hkeeps hparked fun _ _ => hwaits
    | gated outcome =>
      cases outcome with
      | ok => exact .of_keeps hkeeps hnone (installed_turned s₁ package)
      | failed e => exact .of_keeps hkeeps hnone (r.installFailed_turned s₁ package e)
      | shuttingDown => exact .ends hkeeps _ _ _
      | unreachable => exact absurd hwaits id

private lemma installPackage_turned (hparked : s.parked = none) (package : Parked) :
    Turned s [⟨package.span, package.hash⟩] [] (s.parked = none) (r.installPackage s package) := by
  unfold installPackage
  split
  next s₁ h₁ =>
    exact .parks package (by simpa [h₁] using s.keeps_interrupted) hparked (fun _ hf => nomatch hf)
  rename_i s₁ h₁
  have hkeeps₁ : Keeps s s₁ := by simpa [h₁] using s.keeps_interrupted
  split
  next s₂ h₂ =>
    have hkeeps₂ : Keeps s s₂ := hkeeps₁.trans (by simpa [h₂] using s₁.keeps_reach)
    exact .parks package (hkeeps₂.trans s₂.keeps_arm) hparked fun _ _ => rfl
  rename_i s₂ h₂
  have hkeeps₂ : Keeps s s₂ := hkeeps₁.trans (by simpa [h₂] using s₁.keeps_reach)
  have hparked₂ := hkeeps₂.parked.trans hparked
  have hchecked := r.checkParked_spec hparked₂ package
  refine .of_keeps hkeeps₂ (fun _ => hparked₂) ?_
  cases h₃ : r.checkParked s₂ package with
  | mk s₃ checked =>
    rw [h₃] at hchecked
    cases checked with
    | done ended => exact hchecked
    | ready package' =>
      obtain ⟨hkeeps₃, hspan, hhash⟩ := hchecked
      have hparked₃ := hkeeps₃.parked.trans hparked₂
      rw [← hspan, ← hhash]
      exact .of_keeps hkeeps₃ (fun _ => hparked₃) (r.swapIn_turned hparked₃ package')

/-! ### The turns -/

section

variable (s : Supervision π)

private lemma keeps_tryReload : Keeps s (r.tryReload s).1 := by
  unfold tryReload
  split
  · exact .refl s
  cases s.io.reloads.headD .survived with
  | exited =>
    simp only
    split <;> exact ⟨rfl, rfl, rfl, id⟩
  | survived | notSent | shutdown => exact ⟨rfl, rfl, rfl, id⟩

private lemma applyNow_turned (config : OwedConfig) :
    Turned s [] [⟨config.span, config.hash⟩] (Idle s) (r.applyNow s config) := by
  have hkeeps := r.keeps_tryReload s
  unfold applyNow
  cases h : r.tryReload s with
  | mk s₁ reloaded =>
    rw [h] at hkeeps
    cases reloaded with
    | applied =>
      exact .settled hkeeps (K := Idle s₁) (fun hidle => ⟨hkeeps.owed.trans hidle.1, hkeeps.parked.trans hidle.2⟩)
        (.keeps (.refl _) fun hidle _ => Idle.retries hidle)
    | shuttingDown => exact .ends hkeeps _ _ _
    | notApplied =>
      have hspawn := (hkeeps.trans s₁.keeps_stop).trans s₁.stop.spawnIfDue_spec.1
      exact .of_keeps hspawn (fun hidle => hspawn.parked.trans hidle.2) (.owes id (r.started_turned _ _))

lemma applyConfig_turned (config : OwedConfig) :
    Turned s [] [⟨config.span, config.hash⟩] True (r.applyConfig s config) := by
  -- The configuration that was owed its answer is dropped, so the count only falls.
  have hdrop : ∀ {calm : Prop} {out : Supervision π × Bool},
      Turned { freshChance s with owed := none } [] [⟨config.span, config.hash⟩] calm out →
        Turned s [] [⟨config.span, config.hash⟩] calm out := fun ht => {
    packages := ht.packages
    goesOn := ht.goesOn
    configs := fun x => Nat.le_trans (ht.configs x) (Nat.add_le_add_right (s.configs_count_drop x) _)
    away := ht.away
    retries := ht.retries }
  refine hdrop ?_
  unfold applyConfig
  simp only
  split
  next package hparked =>
    exact .parked hparked (fun _ => rfl) (.owes id (r.installPackage_turned rfl package))
  next hparked =>
    exact .of_keeps (.refl _) (fun _ => ⟨rfl, hparked⟩) (r.applyNow_turned _ config)

private lemma keeps_freshChance : Keeps s (freshChance s) := ⟨rfl, rfl, rfl, id⟩

lemma supersede_spec :
    (r.supersede s).answers = s.answers ∧ (r.supersede s).owed = s.owed ∧ (r.supersede s).parked = none ∧
      (r.supersede s).waiting = s.waiting := by
  unfold supersede
  cases h : s.parked with
  | none => exact ⟨rfl, rfl, h, rfl⟩
  | some package =>
    obtain ⟨hkeeps, hwaiting⟩ := r.keeps_discard { s with parked := none }
    exact ⟨hkeeps.answers, hkeeps.owed, hkeeps.parked, hwaiting⟩

private lemma stageAndCheck_keeps (artifact : Except String π) :
    Keeps s (r.stageAndCheck s artifact).1 ∧ (r.stageAndCheck s artifact).1.waiting = s.waiting := by
  unfold stageAndCheck
  split
  · exact ⟨.refl s, rfl⟩
  · exact ⟨.refl s, rfl⟩
  next t program _ =>
    have hput : Keeps s { s with dir := s.dir.put .temp (some program) } := ⟨rfl, rfl, rfl, id⟩
    obtain ⟨hcheck, hwaiting⟩ := r.keeps_check { s with dir := s.dir.put .temp (some program) }
    cases h : r.check { s with dir := s.dir.put .temp (some program) } with
    | mk s₁ checked =>
      rw [h] at hcheck hwaiting
      have hkeeps := hput.trans hcheck
      obtain ⟨hdiscard, hkept⟩ := r.keeps_discard s₁
      cases checked with
      | passed | unreached e => exact ⟨hkeeps, hwaiting⟩
      | refused e => exact ⟨hkeeps.trans hdiscard, hkept.trans hwaiting⟩

lemma applyPackage_turned (artifact : Except String π) (version : String) (hash : Bytes) (span : Nat) :
    Turned (r.supersede s) [⟨span, hash⟩] [] s.Retries (r.applyPackage s artifact version hash span) := by
  obtain ⟨-, howed, hparked, hwaiting⟩ := r.supersede_spec s
  obtain ⟨hkeeps, hkept⟩ := r.stageAndCheck_keeps (r.supersede s) artifact
  unfold applyPackage
  cases h : r.stageAndCheck (r.supersede s) artifact with
  | mk s₁ staged =>
    rw [h] at hkeeps hkept
    have hparked₁ := hkeeps.parked.trans hparked
    cases staged with
    | error e =>
      refine .answered (.error e) hkeeps id (.keeps (.refl _) fun hretries _ hwaits => ?_)
      have hwaits : s₁.owed.isSome ∨ s₁.parked.isSome := hwaits
      show s₁.waiting.due.isSome
      rw [hkeeps.owed, howed, hparked₁] at hwaits
      rw [hkept, hwaiting]
      exact hretries (.inl (hwaits.resolve_right fun hsome => nomatch hsome))
    | ok checked =>
      have hfresh := hkeeps.trans (keeps_freshChance s₁)
      simp only
      split
      next haway =>
        exact .parks ⟨checked, version, hash, span⟩ hfresh hparked fun hdue _ => hfresh.away hdue haway
      · exact .of_keeps hfresh (fun _ => hfresh.parked.trans hparked)
          (r.installPackage_turned (hfresh.parked.trans hparked) ⟨checked, version, hash, span⟩)

lemma restart_turned : Turned s [] [] True (restart s, false) := by
  obtain ⟨hspawn, -⟩ := (freshChance s.stop).spawnIfDue_spec
  have hkeeps := (s.keeps_stop.trans (keeps_freshChance s.stop)).trans hspawn
  unfold restart
  cases h : (freshChance s.stop).spawnIfDue with
  | mk s₁ child =>
    rw [h] at hkeeps
    simp only
    split
    · exact .keeps ⟨hkeeps.answers, hkeeps.owed, hkeeps.parked, fun _ haway => nomatch haway⟩ fun _ _ _ => rfl
    rename_i hnot
    have hkept : Keeps s { s₁ with child := child, policy := if child then s₁.policy.starts s₁.io.now
      else s₁.policy } :=
      ⟨hkeeps.answers, hkeeps.owed, hkeeps.parked, hkeeps.away⟩
    refine .keeps hkept fun _ haway hwaits => hkept.away haway ?_
    show s₁.waiting.away = true
    cases hreached : s₁.waiting.away with
    | true => rfl
    | false => exact absurd (by simpa [hreached] using hwaits) hnot

lemma retry_turned : Turned s [] [] True (r.retry s) := by
  unfold retry
  cases h : s.parked with
  | some package => exact .parked h (fun _ => rfl) (r.installPackage_turned rfl package)
  | none => exact .of_keeps s.keeps_stop (fun _ => h) (r.startCurrent_turned s.stop)

lemma sweepBackup_eq : ∃ dir, r.sweepBackup s = { s with dir := dir } := by
  unfold sweepBackup
  split
  · split
    · exact ⟨_, rfl⟩
    · exact ⟨s.dir, rfl⟩
  · exact ⟨s.dir, rfl⟩

lemma sweepBackup_turned : Turned s [] [] s.Retries (r.sweepBackup s, false) := by
  obtain ⟨dir, hsweep⟩ := r.sweepBackup_eq s
  rw [hsweep]
  exact .keeps ⟨rfl, rfl, rfl, id⟩ fun hretries _ => hretries

lemma serviceWent_turned : Turned s [] [] True (serviceWent s, false) := by
  have hkeeps : Keeps s { s with child := false } := ⟨rfl, rfl, rfl, id⟩
  exact .keeps (hkeeps.trans (keeps_arm _)) fun _ _ _ => rfl

/-- An exit leaves what waits decided where nothing waits, the program is held, or the start finds the service away. -/
lemma exited_turned : Turned s [] []
      (Idle s ∨ s.Retries ∧ ((s.policy.exited s.io.now).failed.2 ≠ .retry ∨ respawnWaits s.io = true))
      (exited s) := by
  have hkeeps : Keeps s { s with child := false, policy := s.policy.exited s.io.now } := ⟨rfl, rfl, rfl, id⟩
  exact .of_keeps hkeeps id (respawnOrHold_turned _)

end

end Runner

end OpampFleet.Supervisor.Process
