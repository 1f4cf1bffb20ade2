import OpampFleet.Update.Installer

/-!
# What the pointer names, and how an update ends

While an update is in flight its marker is on disk, and the pointer names the version that ran before or the new one;
the marker counts the runs on probation. The marker goes when the new version commits, or with the pointer back at the
version before. What is left to the crash that falls between the marker and the outcome is the outcome, and an install
that begins while the pointer already names another version leaves the first update without its marker.
-/

namespace OpampFleet.Update

open Core Lib Option

def UpdateRun.stored (u : UpdateRun) : UpdateMarker := { u.marker with attempts := u.starts }

namespace Install

structure View where
  current : Option Dir
  programs : Map Dir Program
  proved : List (Dir × Program)
  marker : Option UpdateMarker
  update : Option UpdateRun

def view (s : Install) : View := ⟨s.current, s.programs, s.proved, s.marker, s.update⟩

def Good (first : Dir × Program) (v : View) (dir : Dir) : Prop :=
  ∃ program, v.programs.lookup dir = some program ∧ ((dir, program) = first ∨ (dir, program) ∈ v.proved)

def Proved (v : View) (dir : Dir) (version : String) : Prop :=
  ∃ program, v.programs.lookup dir = some program ∧ (dir, program) ∈ v.proved ∧
    Version.sameRelease program.version version = true

variable {v : View}

private lemma Proved.good {dir : Dir} {version : String} (h : Proved v dir version) (first : Dir × Program) :
    Good first v dir := by
  obtain ⟨program, hlookup, hproved, -⟩ := h
  exact ⟨program, hlookup, .inr hproved⟩

structure Marked (first : Dir × Program) (v : View) (u : UpdateRun) : Prop where
  update : v.update = some u
  marker : v.marker = some u.stored
  uncommitted : u.committed = false
  apart : u.marker.newDir ≠ u.marker.previousDir
  previous : Good first v u.marker.previousDir
  between : ∀ dir, v.current = some dir → dir = u.marker.previousDir ∨ dir = u.marker.newDir
  new : v.current = some u.marker.newDir → ∃ program, v.programs.lookup u.marker.newDir = some program ∧
    Version.sameRelease program.version u.marker.version = true

def PhaseOk (first : Dir × Program) (v : View) (dir : Dir) : Phase → Prop
  | .started | .healed => v.current = some dir
  | .pointing _ .heal | .linking _ .heal => False
  | .pointing target .switch | .linking target .switch =>
    ∃ u, Marked first v u ∧ target = u.marker.newDir ∧ dir = u.marker.previousDir ∧ Proved v target u.marker.version
  | .pointing target (.back marker _) | .linking target (.back marker _) =>
    ∃ u, Marked first v u ∧ target = u.marker.previousDir ∧ marker = u.counted.stored
  | .counting marker => ∃ u, Marked first v u ∧ marker = u.counted.stored ∧ u.starts < maxAttempts
  | .removing marker error _ =>
    ∃ u, Marked first v u ∧ marker.version = u.marker.version ∧ marker.packageHashHex = u.marker.packageHashHex ∧
      (error.isSome → v.current = some u.marker.previousDir)
  | .recording outcome _ =>
    v.marker = none ∧ ∃ u, v.update = some u ∧ outcome.version = u.marker.version ∧
      outcome.packageHashHex = u.marker.packageHashHex ∧ u.committed = outcome.error.isNone ∧
        (outcome.error.isSome → v.current = some u.marker.previousDir)
  | .running (some marker) => ∃ u, Marked first v u ∧ marker = u.stored
  | .running none | .reporting _ => ∀ marker, v.marker = some marker → marker.previousDir = dir
  | .staging _ _ target | .probing _ target =>
    target ≠ dir ∧ (∀ d, v.current = some d → d = dir) ∧ ∀ marker, v.marker = some marker → marker.previousDir = dir
  | .marking offer target =>
    target ≠ dir ∧ (∀ d, v.current = some d → d = dir) ∧ Proved v target offer.version

def Home (first : Dir × Program) (v : View) (p : Process) : Prop :=
  ∃ program, v.programs.lookup p.dir = some program ∧ program.version = p.version ∧
    ((p.dir, program) = first ∨ (p.dir, program) ∈ v.proved)

private lemma Home.good {first : Dir × Program} {p : Process} (h : Home first v p) : Good first v p.dir := by
  obtain ⟨program, hlookup, -, hgood⟩ := h
  exact ⟨program, hlookup, hgood⟩

def outcomeDue (s : Install) : Bool :=
  match s.process with
  | some ⟨_, _, .recording _ _⟩ => true
  | _ => false

/-- An update ended without a commit: the pointer is back, and the failure is recorded. -/
def Failed (s : Install) (u : UpdateRun) : Prop :=
  s.current = some u.marker.previousDir ∧
    ∃ reason, s.recorded.head? = some ⟨u.marker.version, u.marker.packageHashHex, some reason⟩

structure Sound (host : Host) (first : Dir × Program) (s : Install) : Prop where
  current : ∀ dir, s.current = some dir → Good first s.view dir
  pointer : host.platform = .unix → s.current.isSome
  starts : ∀ u, s.update = some u → u.starts ≤ maxAttempts
  marked : s.marker.isSome → ∃ u, Marked first s.view u
  ended : s.marker = none → s.outcomeDue = false → ∀ u, s.update = some u → u.committed = false → Failed s u
  process : ∀ p, s.process = some p → Home first s.view p ∧ PhaseOk first s.view p.dir p.phase

section Steps

variable {host : Host} {first : Dir × Program} {s : Install} {p : Process} {dir : Dir} {purpose : Purpose}
    {u : UpdateRun}
  {offer : Offer} {m : UpdateMarker}

private lemma Marked.eq (h : Marked first v u) (hm : v.marker = some m) :
    m = u.stored := Option.some.inj (hm.symm.trans h.marker)

private lemma ne_of_target (h : target host p offer = .ok (some dir)) : dir ≠ p.dir := by
  unfold target at h
  split at h
  · cases h
  simp only at h
  split at h
  · cases h
  split at h
  · cases h
  next hne =>
    cases h
    exact hne

section

variable (h : Sound host first s)
include h

private lemma Sound.enter (hp : s.process = some p) (hdue : s.outcomeDue = false) {phase : Phase}
    (hphase : PhaseOk first s.view p.dir phase) : Sound host first (s.enter p phase) where
  current := h.current
  pointer := h.pointer
  starts := h.starts
  marked := h.marked
  ended hmarker _ := h.ended hmarker hdue
  process q hq := by
    cases hq
    exact ⟨(h.process p hp).1, hphase⟩

private lemma Sound.leave (hdue : s.outcomeDue = false) : Sound host first { s with process := none } where
  current := h.current
  pointer := h.pointer
  starts := h.starts
  marked := h.marked
  ended hmarker _ := h.ended hmarker hdue
  process q hq := by cases hq

section

variable (hp : s.process = some p)
include hp

private lemma Sound.phase {phase : Phase} (hphase : p.phase = phase) :
    PhaseOk first s.view p.dir phase := hphase ▸ (h.process p hp).2

/-! ### The pointer -/

private lemma Sound.point (hu : Marked first s.view u) (current : Option Dir)
    (hunix : host.platform = .unix → current.isSome)
    (hcurrent : ∀ dir, current = some dir → Good first s.view dir ∧ (dir = u.marker.previousDir ∨
      dir = u.marker.newDir ∧ Proved s.view dir u.marker.version)) {phase : Phase}
    (hphase : ∀ v, Marked first v u → v = { s with current := current } →
      PhaseOk first v p.dir phase) :
    Sound host first ({ s with current := current }.enter p phase) := by
  have hmarked : Marked first { s with current := current } u := by
    refine { hu with between := ?_, new := ?_ }
    · exact fun dir hdir => (hcurrent dir hdir).2.imp id And.left
    · intro hnew
      rcases (hcurrent _ hnew).2 with heq | ⟨-, program, hlookup, -, hsame⟩
      · exact absurd heq hu.apart
      · exact ⟨program, hlookup, hsame⟩
  refine ⟨fun dir hdir => (hcurrent dir hdir).1, hunix, h.starts, fun _ => ⟨u, hmarked⟩, ?_, ?_⟩
  · intro hnone
    rw [show s.marker = none from hnone] at hmarked
    cases hmarked.marker
  · intro q hq
    cases hq
    exact ⟨(h.process p hp).1, hphase _ hmarked rfl⟩

private lemma Sound.pointed
    (hphase : PhaseOk first s.view p.dir (.pointing dir purpose)) : Sound host first (s.pointed p dir purpose) := by
  unfold Install.pointed
  cases purpose with
  | heal => exact hphase.elim
  | switch =>
    obtain ⟨u, hu, rfl, hhome, hproved⟩ := hphase
    refine h.point hp hu (some u.marker.newDir) (fun _ => rfl) (fun dir hdir => ?_) ?_
    · cases hdir
      exact ⟨hproved.good first, .inr ⟨rfl, hproved⟩⟩
    · intro v hv _ m hm
      rw [hv.eq hm, hhome]
      rfl
  | back marker reason =>
    obtain ⟨u, hu, rfl, rfl⟩ := hphase
    refine h.point hp hu (some u.marker.previousDir) (fun _ => rfl) (fun dir hdir => ?_) ?_
    · cases hdir
      exact ⟨hu.previous, .inl rfl⟩
    · rintro v hv rfl
      exact ⟨u, hv, rfl, rfl, fun _ => rfl⟩

private lemma Sound.linking (hwindows : host.platform = .windows)
    (hphase : PhaseOk first s.view p.dir (.pointing dir purpose)) :
    Sound host first ({ s with current := none }.enter p (.linking dir purpose)) := by
  have hunix : host.platform = .unix → (none : Option Dir).isSome := by
    rw [hwindows]
    intro hnot
    cases hnot
  cases purpose with
  | heal => exact hphase.elim
  | switch =>
    obtain ⟨u, hu, hdir, hhome, hproved⟩ := hphase
    refine h.point hp hu none hunix (by simp) ?_
    rintro v hv rfl
    exact ⟨u, hv, hdir, hhome, hproved⟩
  | back marker reason =>
    obtain ⟨u, hu, hdir, hmarker⟩ := hphase
    refine h.point hp hu none hunix (by simp) ?_
    rintro v hv rfl
    exact ⟨u, hv, hdir, hmarker⟩

private lemma Sound.count (hphase : PhaseOk first s.view p.dir (.counting m)) : Sound host first ({ s with
      marker := some m
      update := s.update.map UpdateRun.counted }.enter p (.running (some m))) := by
  obtain ⟨u, hu, rfl, hlt⟩ := hphase
  have hupdate : s.update = some u := hu.update
  rw [hupdate]
  have hmarked : Marked first { s with marker := some u.counted.stored, update := some u.counted } u.counted :=
    { hu with update := rfl, marker := rfl }
  refine ⟨h.current, h.pointer, ?_, fun _ => ⟨u.counted, hmarked⟩, (fun hnone => by cases hnone), ?_⟩
  · intro u' hu'
    cases hu'
    exact hlt
  · intro q hq
    cases hq
    exact ⟨(h.process p hp).1, u.counted, hmarked, rfl⟩

private lemma Sound.remove {error : Option String}
    {after : After} (hphase : PhaseOk first s.view p.dir (.removing m error after)) :
    Sound host first ({ s with
      marker := none
      update := s.update.map (UpdateRun.finished error) }.enter p
        (.recording ⟨m.version, m.packageHashHex, error⟩ after)) := by
  obtain ⟨u, hu, hversion, hhash, hback⟩ := hphase
  have hupdate : s.update = some u := hu.update
  rw [hupdate]
  refine ⟨h.current, h.pointer, ?_, (fun hsome => by cases hsome), (fun _ hdue => by cases hdue), ?_⟩
  · intro u' hu'
    cases hu'
    exact h.starts u hupdate
  · intro q hq
    cases hq
    exact ⟨(h.process p hp).1, rfl, u.finished error, rfl, hversion, hhash, rfl, hback⟩

variable {outcome : UpdateOutcome}

private lemma Sound.record {after : After}
    (hphase : PhaseOk first s.view p.dir (.recording outcome after)) : Sound host first (s.record p outcome after) := by
  obtain ⟨hnone, u, hu, hversion, hhash, hcommitted, hback⟩ := hphase
  have hrest : ∀ process : Option Process, (∀ q, process = some q → Home first s.view q ∧
      PhaseOk first s.view q.dir q.phase) → Sound host first { s with
        outcome := some outcome
        recorded := outcome :: s.recorded
        process := process } := by
    intro process hprocess
    refine { h with ended := fun _ _ u' hu' hfalse => ?_, process := hprocess }
    cases (show s.update = some u from hu).symm.trans hu'
    rw [hfalse] at hcommitted
    cases herror : outcome.error with
    | none =>
      simp [herror] at hcommitted
    | some reason =>
      refine ⟨hback (by rw [herror]; rfl), reason, ?_⟩
      rw [← hversion, ← hhash, ← herror]
      rfl
  have hmarker : ∀ m, s.view.marker = some m → m.previousDir = p.dir := by
    intro m hm
    simp [hnone] at hm
  unfold Install.record
  cases after with
  | run | report =>
    refine hrest _ fun q hq => ?_
    cases hq
    exact ⟨(h.process p hp).1, hmarker⟩
  | leave => exact hrest _ fun q hq => by cases hq

variable {target : Dir}

section

variable (hdue : s.outcomeDue = false)
include hdue

private lemma Sound.notPointed (hphase : PhaseOk first s.view p.dir (.pointing dir purpose)) :
    Sound host first (s.notPointed p purpose) := by
  unfold Install.notPointed
  cases purpose with
  | heal => exact hphase.elim
  | switch =>
    obtain ⟨u, hu, -, hhome, -⟩ := hphase
    refine h.enter hp hdue fun m hm => ?_
    rw [hu.eq hm, hhome]
    rfl
  | back marker reason => exact h.leave hdue

private lemma Sound.setCurrent (hphase : PhaseOk first s.view p.dir (.pointing dir purpose)) (ok : Bool) :
    Sound host first (s.setCurrent host p dir purpose ok) := by
  unfold Install.setCurrent
  split
  · split
    · exact h.pointed hp hphase
    · exact h.notPointed hp hdue hphase
  rename_i hwindows
  split
  next hnone =>
    have hcurrent : s.current = none := isNone_iff_eq_none.mp hnone
    have hlinking := h.linking hp hwindows hphase
    rwa [← hcurrent] at hlinking
  · split
    · exact h.linking hp hwindows hphase
    · exact h.notPointed hp hdue hphase

/-! ### The records -/

private lemma Sound.resolve (hcurrent : s.current = some p.dir) :
    Sound host first (s.enter p (onStartAs host s p)) := by
  refine h.enter hp hdue ?_
  unfold onStartAs
  split
  next hnone =>
    have hvacuous : ∀ m, s.view.marker = some m → m.previousDir = p.dir := by
      intro m hm
      simp [show s.view.marker = none from hnone] at hm
    split <;> exact hvacuous
  rename_i m hm
  obtain ⟨u, hu⟩ := h.marked (by rw [hm]; rfl)
  obtain rfl : m = u.stored := hu.eq hm
  simp only
  split
  next hnot =>
    refine ⟨u, hu, rfl, rfl, fun _ => ?_⟩
    rcases hu.between p.dir hcurrent with hprevious | hnew
    · rwa [← hprevious]
    -- the new version runs from its directory and says what it is
    exfalso
    obtain ⟨program, hlookup, hsame⟩ := hu.new (by rw [← hnew]; exact hcurrent)
    obtain ⟨program', hlookup', hversion, -⟩ := (h.process p hp).1
    rw [hnew] at hlookup'
    cases hlookup.symm.trans hlookup'
    rw [hversion] at hsame
    simp [tookOver, UpdateRun.stored, hsame, hnew] at hnot
  · split
    · exact ⟨u, hu, rfl, rfl⟩
    next hattempts =>
      refine ⟨u, hu, rfl, ?_⟩
      simp only [UpdateRun.stored, not_lt] at hattempts
      omega

private lemma Sound.clear (hphase : PhaseOk first s.view p.dir (.reporting outcome)) :
    Sound host first ({ s with outcome := none }.enter p (.running none)) := by
  have henter := h.enter hp hdue (show PhaseOk first s.view p.dir (.running none) from hphase)
  exact { henter with }

/-! ### What is staged -/

private lemma Sound.place (hne : target ≠ p.dir) (hcurrent : ∀ d, s.current = some d → d = p.dir)
    (hmarker : ∀ m, s.marker = some m → m.previousDir = p.dir) (programs : Map Dir Program)
    (hprograms : ∀ dir, dir ≠ target → programs.lookup dir = s.programs.lookup dir) {phase : Phase}
    (hphase : PhaseOk first { s with programs := programs } p.dir phase) :
    Sound host first ({ s with programs := programs }.enter p phase) := by
  have hhome := hprograms p.dir (Ne.symm hne)
  have hgood : Good first s.view p.dir → Good first { s with programs := programs } p.dir := by
    rintro ⟨program, hlookup, hrest⟩
    exact ⟨program, hhome.trans hlookup, hrest⟩
  refine ⟨?_, h.pointer, h.starts, fun hsome => ?_, fun hnone _ => h.ended hnone hdue, ?_⟩
  · intro dir hdir
    obtain rfl := hcurrent dir hdir
    exact hgood (h.current p.dir hdir)
  · obtain ⟨u, hu⟩ := h.marked hsome
    have hprevious : u.marker.previousDir = p.dir := hmarker u.stored hu.marker
    refine ⟨u, hu.update, hu.marker, hu.uncommitted, hu.apart, ?_, hu.between, fun hnew => ?_⟩
    · rw [hprevious]
      exact hgood (hprevious ▸ hu.previous)
    · exact absurd ((hcurrent _ hnew).trans hprevious.symm) hu.apart
  · intro q hq
    cases hq
    obtain ⟨program, hlookup, hrest⟩ := (h.process p hp).1
    exact ⟨⟨program, hhome.trans hlookup, hrest⟩, hphase⟩

private lemma Sound.prove {program : Program} (hphase : PhaseOk first s.view p.dir (.probing offer target))
    (hlookup : s.programs.lookup target = some program)
    (hprobe : Update.probe host program target offer.version = .ok ()) :
    Sound host first ({ s with proved := (target, program) :: s.proved }.enter p (.marking offer target)) := by
  have hmore : ∀ dir, Good first s.view dir →
      Good first ⟨s.current, s.programs, (target, program) :: s.proved, s.marker, s.update⟩ dir := by
    rintro dir ⟨program', hlookup', hgood⟩
    exact ⟨program', hlookup', hgood.imp id (List.mem_cons_of_mem _)⟩
  refine ⟨fun dir hdir => hmore dir (h.current dir hdir), h.pointer, h.starts, fun hsome => ?_,
    fun hnone _ => h.ended hnone hdue, ?_⟩
  · obtain ⟨u, hu⟩ := h.marked hsome
    exact ⟨u, hu.update, hu.marker, hu.uncommitted, hu.apart, hmore _ hu.previous, hu.between, hu.new⟩
  intro q hq
  cases hq
  obtain ⟨program', hlookup', hversion, hgood⟩ := (h.process p hp).1
  refine ⟨⟨program', hlookup', hversion, hgood.imp id (List.mem_cons_of_mem _)⟩, hphase.1, hphase.2.1, ?_⟩
  exact ⟨program, hlookup, List.mem_cons_self .., sameRelease_of_probe hprobe⟩

end

private lemma Sound.mark (hphase : PhaseOk first s.view p.dir (.marking offer target)) : Sound host first ({ s with
      marker := some (newMarker p offer target)
      update := some ⟨newMarker p offer target, 0, false⟩ }.enter p (.pointing target .switch)) := by
  obtain ⟨hne, hcurrent, hproved⟩ := hphase
  have hmarked : Marked first ⟨s.current, s.programs, s.proved, some (newMarker p offer target),
      some ⟨newMarker p offer target, 0, false⟩⟩ ⟨newMarker p offer target, 0, false⟩ := by
    refine ⟨rfl, rfl, rfl, hne, (h.process p hp).1.good, fun d hd => .inl (hcurrent d hd), fun hnew => ?_⟩
    exact absurd (hcurrent _ hnew) hne
  refine ⟨h.current, h.pointer, ?_, fun _ => ⟨_, hmarked⟩, (fun hnone => by cases hnone), ?_⟩
  · intro u hu
    cases hu
    exact Nat.zero_le _
  · intro q hq
    cases hq
    exact ⟨(h.process p hp).1, _, hmarked, rfl, rfl, hproved⟩

end

end

/-! ### Whole runs -/

/-- No process ends between the marker and the outcome, and no install begins while the pointer names another version
than the one running. -/
def Orderly (s : Install) : Act → Prop
  | .crash => s.outcomeDue = false
  | .offer _ _ => ∀ p ∈ s.process, s.namesAnother p.dir = false
  | _ => True

instance (s : Install) (a : Act) : Decidable (Orderly s a) := by
  unfold Orderly
  split <;> infer_instance

private lemma Sound.processStep {a : Act} {t : Install} (h : Sound host first s) (hp : s.process = some p)
    (hok : Orderly s a) (ht : s.processStep host p p.phase a = some t) : Sound host first t := by
  have hdue : ∀ {phase : Phase}, p.phase = phase → (∀ o after, phase ≠ .recording o after) → s.outcomeDue = false := by
    intro phase hphase hnot
    unfold outcomeDue
    rw [hp]
    obtain ⟨version, dir, phase'⟩ := p
    cases hphase
    split
    next heq =>
      cases heq
      exact absurd rfl (hnot _ _)
    · rfl
  unfold Install.processStep at ht
  split at ht
  next hphase =>
    have hcurrent : s.current = some p.dir := h.phase hp hphase
    rw [if_pos hcurrent] at ht
    cases ht
    exact h.enter hp (hdue hphase (by simp)) hcurrent
  next hphase =>
    cases ht
    exact h.setCurrent hp (hdue hphase (by simp)) (h.phase hp hphase) _
  next dir purpose ok hphase =>
    have hlinking := h.phase hp hphase
    have hpointing : PhaseOk first s.view p.dir (.pointing dir purpose) := by
      cases purpose <;> exact hlinking
    split at ht
    · cases ht
      exact h.pointed hp hpointing
    · cases ht
      exact h.notPointed hp (hdue hphase (by simp)) hpointing
  next hphase =>
    cases ht
    exact h.resolve hp (hdue hphase (by simp)) (h.phase hp hphase)
  next hphase =>
    cases ht
    exact h.count hp (h.phase hp hphase)
  next hphase =>
    cases ht
    exact h.remove hp (h.phase hp hphase)
  next hphase =>
    cases ht
    exact h.record hp (h.phase hp hphase)
  next hphase =>
    cases ht
    exact h.clear hp (hdue hphase (by simp)) (h.phase hp hphase)
  next hphase =>
    cases ht
    obtain ⟨u, hu, rfl⟩ := h.phase hp hphase
    exact h.enter hp (hdue hphase (by simp)) ⟨u, hu, rfl, rfl, by simp⟩
  next offer program hphase =>
    split at ht
    next target htarget =>
      cases ht
      refine h.enter hp (hdue hphase (by simp)) ⟨?_, ?_, h.phase hp hphase⟩
      · exact ne_of_target htarget
      · intro d hd
        have hnames : s.namesAnother p.dir = false := hok p hp
        rw [namesAnother, show s.current = some d from hd] at hnames
        simpa using hnames
    · cases ht
      exact h
  next offer program target left hphase =>
    obtain ⟨hne, hcurrent, hmarker⟩ := h.phase hp hphase
    cases ht
    refine h.place hp (hdue hphase (by simp)) hne hcurrent hmarker _ (fun dir hdir => ?_) ⟨hne, hcurrent, hmarker⟩
    cases left with
    | none => exact AList.lookup_erase_ne hdir
    | some torn => exact AList.lookup_insert_ne hdir
  next offer program target result hphase =>
    obtain ⟨hne, hcurrent, hmarker⟩ := h.phase hp hphase
    split at ht
    · cases ht
      exact h.place hp (hdue hphase (by simp)) hne hcurrent hmarker _ (fun dir hdir => AList.lookup_insert_ne hdir)
        ⟨hne, hcurrent, hmarker⟩
    · cases ht
      exact h.enter hp (hdue hphase (by simp)) hmarker
  next offer target hphase =>
    obtain ⟨program, hlookup, rfl⟩ := map_eq_some_iff.mp ht
    split
    next hprobe =>
      exact h.prove hp (hdue hphase (by simp)) (h.phase hp hphase) hlookup hprobe
    · exact h.enter hp (hdue hphase (by simp)) (h.phase hp hphase).2.2
  next hphase =>
    cases ht
    exact h.mark hp (h.phase hp hphase)
  · cases ht
    exact h.leave hok
  · cases ht

private lemma Sound.step {a : Act} {t : Install} (h : Sound host first s) (hok : Orderly s a)
    (ht : s.step host a = some t) : Sound host first t := by
  unfold Install.step at ht
  split at ht
  next hnone =>
    obtain ⟨dir, hdir, ht⟩ := bind_eq_some_iff.mp ht
    obtain ⟨program, hlookup, rfl⟩ := map_eq_some_iff.mp ht
    refine { h with ended := fun hmarker _ => h.ended hmarker ?_, process := fun q hq => ?_ }
    · rw [outcomeDue, hnone]
    · cases hq
      obtain ⟨program', hlookup', hgood⟩ := h.current dir hdir
      cases hlookup'.symm.trans hlookup
      exact ⟨⟨program, hlookup, rfl, hgood⟩, hdir⟩
  · cases ht
  next p hp =>
    exact h.processStep hp hok ht

private lemma Sound.of_start (programs : Map Dir Program) (outcome : Option UpdateOutcome) :
    Sound host first (start first programs outcome) := by
  refine ⟨fun dir hdir => ?_, fun _ => rfl, ?_, ?_, ?_, ?_⟩
  · cases hdir
    exact ⟨first.2, AList.lookup_insert _, .inl rfl⟩
  · intro u hu
    cases hu
  · intro hsome
    cases hsome
  · intro _ _ u hu
    cases hu
  · intro p hp
    cases hp

/-! ### The start after the last attempt -/

def rollBack : Platform → List Act
  | .unix => [.start, .heal, .resolve, .setCurrent true, .remove, .record]
  | .windows => [.start, .heal, .resolve, .setCurrent true, .link true, .remove, .record]

def comeBack : List Act := [.start, .heal, .resolve, .remove, .record]

private lemma run_rollBack (hu : Marked first s.view u) (hnone : s.process = none)
    (hstarts : u.starts = maxAttempts) (hcurrent : s.current = some u.marker.newDir) :
    ∃ t, run (step host) s (rollBack host.platform) = some t ∧ Failed t u := by
  obtain ⟨program, hlookup, hsame⟩ := hu.new hcurrent
  have hmarker : s.marker = some u.stored := hu.marker
  have hlookup : s.programs.lookup u.marker.newDir = some program := hlookup
  cases hplatform : host.platform with
  | unix | windows =>
    simp [rollBack, run, step, processStep, hnone, hcurrent, hlookup, Install.enter, onStartAs, hmarker, tookOver,
      UpdateRun.stored, hsame, hstarts, setCurrent, hplatform, pointed, record, Failed]

private lemma run_comeBack (hu : Marked first s.view u) (hnone : s.process = none)
    (hcurrent : s.current = some u.marker.previousDir) :
    ∃ t, run (step host) s comeBack = some t ∧ Failed t u := by
  obtain ⟨program, hlookup, -⟩ := hu.previous
  have hmarker : s.marker = some u.stored := hu.marker
  have hlookup : s.programs.lookup u.marker.previousDir = some program := hlookup
  have hapart := Ne.symm hu.apart
  simp [comeBack, run, step, processStep, hnone, hcurrent, hlookup, Install.enter, onStartAs, hmarker, tookOver,
    UpdateRun.stored, hapart, record, Failed]

end Steps

/-- In every run of binaries that start as the version their self-check answers (`Program.answers`), in which no
process ends between the marker and the outcome and no install begins over a switched pointer: what the pointer names
is the first version or one that passed its probe, and on Unix it names one; no update has more runs on probation than
attempts; an update that is over without a commit left the pointer at the version before and its failure on record; and
after the last attempt the next start ends it so. -/
theorem self_update_ends (host : Host) (first : Dir × Program) (programs : Map Dir Program)
    (outcome : Option UpdateOutcome) (s : Install)
    (h : Reach (start first programs outcome) (restrict Orderly (step host)) s) :
    (∀ dir, s.current = some dir → ∃ program, s.programs.lookup dir = some program ∧
      ((dir, program) = first ∨ (dir, program) ∈ s.proved)) ∧
    (host.platform = .unix → s.current.isSome) ∧
    ∀ u, s.update = some u → u.starts ≤ maxAttempts ∧
      (u.committed = false → s.marker = none → s.outcomeDue = false → Failed s u) ∧
      (u.committed = false → s.marker.isSome → u.starts = maxAttempts → s.process = none → s.current.isSome →
        ∃ acts ∈ [rollBack host.platform, comeBack], ∃ t, run (step host) s acts = some t ∧ Failed t u) := by
  have hsound : Sound host first s := by
    exact h.invariant_restrict (Sound.of_start programs outcome) fun _ _ _ hs hok hstep => hs.step hok hstep
  refine ⟨hsound.current, hsound.pointer, fun u hu => ⟨hsound.starts u hu, ?_, ?_⟩⟩
  · exact fun hcommitted hmarker hdue => hsound.ended hmarker hdue u hu hcommitted
  intro _ hmarker hstarts hnone hsome
  obtain ⟨u', hu'⟩ := hsound.marked hmarker
  cases (show s.update = some u' from hu'.update).symm.trans hu
  obtain ⟨dir, hdir⟩ := isSome_iff_exists.mp hsome
  rcases hu'.between dir hdir with rfl | rfl
  · exact ⟨comeBack, by simp, run_comeBack hu' hnone hdir⟩
  · exact ⟨rollBack host.platform, by simp, run_rollBack hu' hnone hstarts hdir⟩

namespace Small

def host : Host := ⟨.unix, "/opt/supervisor", id⟩

def client (version : String) (h : reported (selfCheckToken ++ version) = some version) : Program where
  version := version
  selfCheck := .ok ⟨none, selfCheckToken ++ version⟩
  answers output v houtput hv := by
    cases houtput
    rw [h] at hv
    exact (Option.some.inj hv).symm

def one : Program := client "1.0.0" (by decide +kernel)

def two : Program := client "2.0.0" (by decide +kernel)

def first : Dir × Program := ("supervisor-1.0.0", one)

def offer : Offer := ⟨"2.0.0", [0xab], .ok none⟩

def three : Program := client "3.0.0" (by decide +kernel)

def comesUp : List Act := [.start, .heal, .resolve]

def switches : List Act := [.offer offer two, .unpack none, .stage (.ok ()), .probe, .store, .setCurrent true]

def installs : List Act := switches ++ [.crash]

def goesOn : List Act := [.offer ⟨"3.0.0", [0xcd], .ok none⟩ three, .stage (.ok ()), .probe, .store, .crash]

def probation : List Act := [.start, .heal, .resolve, .store, .crash]

end Small

open Small

/-- Three runs on probation, and a fourth start that gives the version up. -/
theorem self_update_ends_of_three : ∃ s, Reach (start first ∅ none) (restrict Orderly (step host)) s ∧
      s.current = some "supervisor-1.0.0" ∧ s.marker = none ∧ s.outcomeDue = false ∧
      ∃ u, s.update = some u ∧ u.starts = 3 ∧ u.starts ≤ maxAttempts ∧ u.committed = false ∧ Failed s u := by
  refine Reach.exists_of_run_imp (p := fun s => s.current = some "supervisor-1.0.0" ∧ s.marker = none ∧
    s.outcomeDue = false ∧ ∃ u, s.update = some u ∧ u.starts = 3 ∧ u.committed = false)
    (comesUp ++ installs ++ probation ++ probation ++ probation ++ rollBack .unix)
    (by decide +kernel) ?_
  rintro s hreach ⟨hcurrent, hmarker, hdue, u, hu, hstarts, hcommitted⟩
  obtain ⟨hle, hfailed, -⟩ := (self_update_ends host first ∅ none s hreach).2.2 u hu
  exact ⟨hcurrent, hmarker, hdue, u, hu, hstarts, hle, hcommitted, hfailed hcommitted hmarker hdue⟩

/-- A crash between the marker and the outcome leaves a rolled back update with no failure on record. An install over a
switched pointer that is cut short leaves the pointer at a version that is never on probation. -/
theorem interrupted_updates_end_otherwise :
    (∃ s, Reach (start first ∅ none) (step host) s ∧ s.process.isNone ∧ s.marker = none ∧ s.recorded = [] ∧
      ∃ u, s.update = some u ∧ u.starts = maxAttempts ∧ u.committed = false) ∧
    ∃ s, Reach (start first ∅ none) (step host) s ∧ s.marker = none ∧ s.outcomeDue = false ∧
      s.current = some "supervisor-2.0.0" ∧
      ∃ u, s.update = some u ∧ u.marker.previousDir = "supervisor-1.0.0" ∧ u.committed = false := by
  constructor
  · exact Reach.exists_of_run (comesUp ++ installs ++ probation ++ probation ++ probation ++
      [.start, .heal, .resolve, .setCurrent true, .remove, .crash]) (by decide +kernel)
  · exact Reach.exists_of_run
      (comesUp ++ switches ++ goesOn ++ [.start, .heal, .resolve, .remove, .record]) (by decide +kernel)

end Install

end OpampFleet.Update
