import OpampFleet.Supervisor.Staging
import Mathlib.Tactic.Tauto

/-!
# Installed bytes are checked bytes

The name is all an `ApplyPackage` command has of the file that was checked, and every download of the package opens
that name again. As long as no download of a package starts while a command for it is queued or being staged, what
the Runner moves or reads is what was checked (`installed_checked`).
-/

namespace OpampFleet.Supervisor.Staging

open Lib List Option

def Runner.held : Runner → List Package
  | .checking p | .removing _ (some p) | .installing p | .gating p => [p]
  | _ => []

def Runner.awaiting : Runner → List ApplyPackage
  | .detecting c | .renaming c | .opening c | .reading c _ _ => [c]
  | _ => []

attribute [simp] Runner.held Runner.awaiting

def State.held (s : State) : List Package :=
  s.runner.held ++ s.parked.toList ++ s.live.toList ++ s.backup.toList

def State.awaiting (s : State) : List ApplyPackage := s.queue ++ s.runner.awaiting

variable (s : State)

def State.bytesOf (p : Package) : Bytes :=
  match p.content with
  | .moved i => s.files.bytes i
  | .written artifact => artifact

def State.IsChecked (c : ApplyPackage) (bytes : Bytes) : Prop := ⟨c.name, c.version, bytes⟩ ∈ s.checked

/-- Whatever is installed, or kept to go back to, was checked as the version it is installed for. -/
def InstalledChecked : Prop :=
  ∀ p ∈ s.live.toList ++ s.backup.toList, s.IsChecked p.command (s.bytesOf p)

/-- No download of a package starts while a command for it still needs the staged file. -/
def NoReopen : Act → Prop
  | .startDownload package _ => ∀ c ∈ s.awaiting, c.name ≠ package.name
  | _ => True

instance (s : State) (a : Act) : Decidable (NoReopen s a) := by
  cases a <;> unfold NoReopen <;> infer_instance

def Quiet (i : Nat) : Prop := i < s.files.fresh ∧ ∀ d, s.download = some d → d.file ≠ i

def HeldOk (p : Package) : Prop :=
  s.IsChecked p.command (s.bytesOf p) ∧
    ∀ i, p.content = .moved i → Quiet s i ∧ ∀ n, s.files.inode n ≠ some i

structure Inv (s : State) : Prop where
  download : ∀ d, s.download = some d → d.file < s.files.fresh ∧ s.files.bytes d.file = d.received ∧
    (∀ n, s.files.inode n = some d.file → n = d.package.name) ∧
    ∀ i, s.files.inode d.package.name = some i → i = d.file
  awaiting : ∀ c ∈ s.awaiting, ∀ i, s.files.inode c.name = some i → Quiet s i ∧ s.IsChecked c (s.files.bytes i)
  reading : ∀ c i artifact, s.runner = .reading c i artifact → Quiet s i ∧ s.IsChecked c (s.files.bytes i) ∧
    artifact <+: s.files.bytes i ∧ ∀ n, s.files.inode n = some i → n = c.name
  held : ∀ p ∈ s.held, HeldOk s p

variable {s t : State} {host : Host} {settings : PackageSettings}

private lemma mem_held {p : Package} :
    p ∈ s.held ↔ p ∈ s.runner.held ∨ s.parked = some p ∨ s.live = some p ∨ s.backup = some p := by
  simp [State.held]

private lemma Inv.start : Inv State.start where
  download := by simp [State.start]
  awaiting := by simp [State.start, State.awaiting]
  reading := by simp [State.start]
  held := by simp [State.start, State.held]

private lemma bytesOf_congr {p : Package}
    (h : ∀ i, p.content = .moved i → t.files.bytes i = s.files.bytes i) : t.bytesOf p = s.bytesOf p := by
  unfold State.bytesOf
  cases hc : p.content with
  | moved i => exact h i hc
  | written artifact => rfl

/-- A file that is quiet while nothing is downloaded and that `n` does not lead to keeps its bytes when `n` is
opened. -/
private lemma Quiet.create {n : String} {i : Nat} (h : Quiet s i) (d : Download)
    (hn : s.files.inode n ≠ some i) (hd : d.file = s.files.opened n) :
    Quiet { s with files := s.files.create n, download := some d } i ∧
      (s.files.create n).bytes i = s.files.bytes i := by
  have hne : i ≠ s.files.opened n := fun he => hn (Files.inode_of_opened_eq h.1 he)
  refine ⟨⟨Nat.lt_of_lt_of_le h.1 (s.files.fresh_le_create n), ?_⟩, s.files.bytes_create_of_ne hne⟩
  intro d' hd'
  cases hd'
  rw [hd]
  exact hne.symm

section

variable (h : Inv s)
include h

private lemma Inv.installedChecked : InstalledChecked s := by
  intro p hp
  have hinstalled : s.live = some p ∨ s.backup = some p := by simpa using hp
  exact (h.held p (mem_held.mpr (.inr (.inr hinstalled)))).1

private lemma Inv.move {q : List ApplyPackage} {r : Runner}
    {parked live backup : Option Package} (hq : ∀ c ∈ q ++ r.awaiting, c ∈ s.awaiting)
    (hr : ∀ c i artifact, r = .reading c i artifact → Quiet s i ∧ s.IsChecked c (s.files.bytes i) ∧
      artifact <+: s.files.bytes i ∧ ∀ n, s.files.inode n = some i → n = c.name)
    (hh : ∀ p, p ∈ r.held ∨ parked = some p ∨ live = some p ∨ backup = some p → HeldOk s p) :
    Inv { s with queue := q, runner := r, parked := parked, live := live, backup := backup } where
  download := h.download
  awaiting c hc := h.awaiting c (hq c hc)
  reading := hr
  held p hp := hh p (mem_held.mp hp)

private lemma Inv.turn {r : Runner} (hq : ∀ c ∈ r.awaiting, c ∈ s.runner.awaiting)
    (hr : ∀ c i artifact, r = .reading c i artifact → Quiet s i ∧ s.IsChecked c (s.files.bytes i) ∧
      artifact <+: s.files.bytes i ∧ ∀ n, s.files.inode n = some i → n = c.name)
    (hh : ∀ p ∈ r.held, HeldOk s p) : Inv { s with runner := r } := by
  refine h.move (fun c hc => ?_) hr (fun p hp => ?_)
  · rcases mem_append.mp hc with hc | hc
    · exact mem_append_left _ hc
    · exact mem_append_right _ (hq c hc)
  · rcases hp with hp | hp
    · exact hh p hp
    · exact h.held p (mem_held.mpr (.inr hp))

private lemma Inv.settle {r : Runner} {parked live backup : Option Package} (hawaiting : r.awaiting = [])
    (hreading : ∀ c i artifact, r ≠ .reading c i artifact)
    (hheld : ∀ p, p ∈ r.held ∨ parked = some p ∨ live = some p ∨ backup = some p →
      p ∈ s.runner.held ∨ s.parked = some p ∨ s.live = some p ∨ s.backup = some p) :
    Inv { s with runner := r, parked := parked, live := live, backup := backup } := by
  refine h.move (fun c hc => ?_) (fun c i artifact hr => absurd hr (hreading c i artifact)) fun p hp =>
    h.held p (mem_held.mpr (hheld p hp))
  rw [hawaiting, append_nil] at hc
  exact mem_append_left _ hc

private lemma Inv.unlink (n : String) : Inv { s with files := s.files.unlink n } where
  download d hd := by
    obtain ⟨hlt, hb, hn, hi⟩ := h.download d hd
    exact ⟨hlt, hb, fun m hm => hn m (Files.inode_of_unlink hm).1, fun i hm => hi i (Files.inode_of_unlink hm).1⟩
  awaiting c hc i hi := h.awaiting c hc i (Files.inode_of_unlink hi).1
  reading c i artifact he := by
    obtain ⟨hq, hc, hp, hn⟩ := h.reading c i artifact he
    exact ⟨hq, hc, hp, fun m hm => hn m (Files.inode_of_unlink hm).1⟩
  held p hp := by
    obtain ⟨hc, hown⟩ := h.held p hp
    exact ⟨hc, fun i hi => ⟨(hown i hi).1, fun m hm => (hown i hi).2 m (Files.inode_of_unlink hm).1⟩⟩

private lemma Inv.noDownload : Inv { s with download := none } where
  download := by simp
  awaiting c hc i hi := ⟨⟨(h.awaiting c hc i hi).1.1, by simp⟩, (h.awaiting c hc i hi).2⟩
  reading c i artifact he := by
    obtain ⟨hq, hrest⟩ := h.reading c i artifact he
    exact ⟨⟨hq.1, by simp⟩, hrest⟩
  held p hp := by
    obtain ⟨hc, hown⟩ := h.held p hp
    exact ⟨hc, fun i hi => ⟨⟨(hown i hi).1.1, by simp⟩, (hown i hi).2⟩⟩

private lemma Inv.startDownload
    {package : PackageDownload} {advertised : Nat} (hok : ∀ c ∈ s.awaiting, c.name ≠ package.name)
    (hs : startDownload host settings s package advertised = some t) : Inv t := by
  unfold Staging.startDownload at hs
  split at hs
  next key hd _ _ =>
    split at hs
    · cases hs
      exact h.unlink package.name
    cases hs
    have hother : ∀ m i, m ≠ package.name → s.files.inode m = some i → s.files.inode package.name ≠ some i :=
      fun m i hm hi he => hm (s.files.inode_inj hi he)
    constructor
    · intro d hd
      cases hd
      refine ⟨s.files.opened_lt_create _, by simp [Files.create], fun n hn => ?_, fun i hi => ?_⟩
      · exact (s.files.create package.name).inode_inj hn (s.files.inode_create_self _)
      · rw [s.files.inode_create_self] at hi
        exact (Option.some.inj hi).symm
    · intro c hc i hi
      have hne := hok c hc
      rw [s.files.inode_create_of_ne hne] at hi
      obtain ⟨hq, hck⟩ := h.awaiting c hc i hi
      obtain ⟨hq', hb⟩ := hq.create ⟨package, key, s.files.opened package.name, []⟩ (hother _ i hne hi) rfl
      exact ⟨hq', by unfold State.IsChecked; rw [hb]; exact hck⟩
    · intro c i artifact he
      obtain ⟨hq, hck, hp, hn⟩ := h.reading c i artifact he
      have hrunner : s.runner = .reading c i artifact := he
      have hne : c.name ≠ package.name := hok c (by simp [State.awaiting, hrunner])
      obtain ⟨hq', hb⟩ := hq.create ⟨package, key, s.files.opened package.name, []⟩ (fun hi => hne (hn _ hi).symm) rfl
      refine ⟨hq', by unfold State.IsChecked; rw [hb]; exact hck, by rw [hb]; exact hp, fun m hm => ?_⟩
      exact hn m (Files.inode_of_create hq.1 hm)
    · intro p hp
      obtain ⟨hck, hown⟩ := h.held p hp
      have hkeep := fun i hi => (hown i hi).1.create ⟨package, key, s.files.opened package.name, []⟩
        ((hown i hi).2 package.name) rfl
      refine ⟨?_, fun i hi => ⟨(hkeep i hi).1, fun m hm => ?_⟩⟩
      · rwa [bytesOf_congr fun i hi => (hkeep i hi).2]
      · exact (hown i hi).2 m (Files.inode_of_create (hown i hi).1.1 hm)
  · cases hs

private lemma Inv.dropDownload (d : Download) : Inv (dropDownload s d) :=
  (h.unlink d.package.name).noDownload

private lemma Inv.receive {d : Download}
    (hd : s.download = some d) (chunk : Bytes) : Inv (receive settings s d chunk) := by
  unfold Staging.receive
  split
  · exact h.dropDownload d
  have hkeep : ∀ i, Quiet s i → (s.files.append d.file chunk).bytes i = s.files.bytes i :=
    fun i hq => s.files.bytes_append_of_ne chunk (hq.2 d hd).symm
  have hquiet : ∀ i, Quiet s i → Quiet { s with
      files := s.files.append d.file chunk
      download := some { d with received := d.received ++ chunk } } i := by
    rintro i ⟨hlt, hq⟩
    refine ⟨hlt, fun d' hd' => ?_⟩
    cases hd'
    exact hq d hd
  constructor
  · intro d' hd'
    cases hd'
    obtain ⟨hlt, hb, hn, hi⟩ := h.download d hd
    exact ⟨hlt, by rw [s.files.bytes_append_self, hb], hn, hi⟩
  · intro c hc i hi
    obtain ⟨hq, hck⟩ := h.awaiting c hc i hi
    exact ⟨hquiet i hq, by unfold State.IsChecked; rw [hkeep i hq]; exact hck⟩
  · intro c i artifact he
    obtain ⟨hq, hck, hp, hn⟩ := h.reading c i artifact he
    exact ⟨hquiet i hq, by unfold State.IsChecked; rw [hkeep i hq]; exact hck, by rw [hkeep i hq]; exact hp, hn⟩
  · intro p hp
    obtain ⟨hck, hown⟩ := h.held p hp
    refine ⟨?_, fun i hi => ⟨hquiet i (hown i hi).1, (hown i hi).2⟩⟩
    rwa [bytesOf_congr fun i hi => hkeep i (hown i hi).1]

private lemma Inv.finishDownload {d : Download} (hd : s.download = some d) : Inv (finishDownload host s d) := by
  unfold Staging.finishDownload
  split
  · exact h.dropDownload d
  obtain ⟨hlt, hb, hn, hi⟩ := h.download d hd
  have hsub : ∀ {c : ApplyPackage} {bytes : Bytes}, s.IsChecked c bytes →
      ⟨c.name, c.version, bytes⟩ ∈ ⟨d.package.name, d.package.version, d.received⟩ :: s.checked :=
    fun hc => mem_cons_of_mem _ hc
  constructor
  · simp
  · intro c hc i hci
    -- the command handed over is settled on the download's own file; the others were before
    have hmem : c ∈ s.awaiting ∨ c = ⟨d.package.name, d.package.version, d.package.hash⟩ := by
      simp only [State.awaiting, mem_append] at hc ⊢
      split at hc
      · rcases hc with hc | hc
        · rcases mem_append.mp hc with hc | hc
          · exact .inl (.inl hc)
          · exact .inr (mem_singleton.mp hc)
        · exact .inl (.inr hc)
      · exact .inl hc
    rcases hmem with hmem | rfl
    · obtain ⟨hq, hck⟩ := h.awaiting c hmem i hci
      exact ⟨⟨hq.1, by simp⟩, hsub hck⟩
    · obtain rfl := hi i hci
      refine ⟨⟨hlt, by simp⟩, ?_⟩
      simp [State.IsChecked, hb]
  · intro c i artifact he
    obtain ⟨hq, hck, hrest⟩ := h.reading c i artifact he
    exact ⟨⟨hq.1, by simp⟩, hsub hck, hrest⟩
  · intro p hp
    obtain ⟨hck, hown⟩ := h.held p hp
    exact ⟨hsub hck, fun i hi => ⟨⟨(hown i hi).1.1, by simp⟩, (hown i hi).2⟩⟩

end

section RunnerSteps

variable {settings : PackageSettings} {s t : State}

private lemma Inv.takeCommand (h : Inv s) (hs : takeCommand s = some t) : Inv t := by
  unfold Staging.takeCommand at hs
  split at hs
  next c rest hr hq =>
    cases hs
    refine h.move (fun d hd => ?_) (by simp) (fun p hp => ?_)
    · simp only [State.awaiting, hq, Runner.awaiting, mem_append, mem_cons] at hd ⊢
      tauto
    · exact h.held p (mem_held.mpr (by simp at hp; tauto))
  · contradiction

private lemma Inv.detectKind (h : Inv s) (hs : detectKind settings s = some t) : Inv t := by
  unfold Staging.detectKind at hs
  split at hs
  next c hr =>
    split at hs
    · cases hs
      exact h.turn (by simp) (by simp) (by simp)
    · split at hs <;> cases hs <;>
        exact h.turn (by simp [hr]) (by simp) (by simp)
  · contradiction

private lemma Inv.rename {moved : Bool} (h : Inv s) (hs : rename s moved = some t) : Inv t := by
  unfold Staging.rename at hs
  split at hs
  next c hr =>
    have hc : c ∈ s.awaiting := by simp [State.awaiting, hr]
    split at hs
    next i hi =>
      cases hs
      refine (h.unlink c.name).turn (by simp) (by simp) (fun p hp => ?_)
      obtain rfl : p = ⟨c, .moved i⟩ := by simpa using hp
      obtain ⟨hq, hck⟩ := h.awaiting c hc i hi
      refine ⟨hck, fun j hj => ?_⟩
      cases hj
      refine ⟨hq, fun n hn => ?_⟩
      obtain ⟨hn, hne⟩ := Files.inode_of_unlink hn
      exact hne (s.files.inode_inj hn hi)
    · cases hs
      exact h.turn (by simp [hr]) (by simp) (by simp)
  · contradiction

private lemma Inv.openArtifact (h : Inv s) (hs : openArtifact s = some t) : Inv t := by
  unfold Staging.openArtifact at hs
  split at hs
  next c hr =>
    have hc : c ∈ s.awaiting := by simp [State.awaiting, hr]
    split at hs
    · cases hs
      exact h.turn (by simp) (by simp) (by simp)
    rename_i i hi
    cases hs
    refine h.turn (by simp [hr]) (fun c' i' artifact he => ?_) (by simp)
    cases he
    obtain ⟨hq, hck⟩ := h.awaiting c hc i hi
    exact ⟨hq, hck, nil_prefix, fun n hn => s.files.inode_inj hn hi⟩
  · contradiction

private lemma take_drop_prefix {artifact bytes : Bytes} (h : artifact <+: bytes) (len : Nat) :
    artifact ++ (bytes.drop artifact.length).take len <+: bytes := by
  obtain ⟨rest, rfl⟩ := h
  rw [drop_left]
  exact (prefix_append_right_inj _).mpr (List.take_prefix _ _)

section

variable (h : Inv s)
include h

private lemma Inv.readArtifact {len : Nat} (hs : readArtifact s len = some t) : Inv t := by
  unfold Staging.readArtifact at hs
  split at hs
  next c i artifact hr =>
    cases hs
    refine h.turn (by simp [hr]) (fun c' i' artifact' he => ?_) (by simp)
    cases he
    obtain ⟨hq, hck, hp, hn⟩ := h.reading c i artifact hr
    exact ⟨hq, hck, take_drop_prefix hp len, hn⟩
  · contradiction

private lemma Inv.finishArtifact {unpacked : Bool} (hs : finishArtifact s unpacked = some t) : Inv t := by
  unfold Staging.finishArtifact at hs
  split at hs
  next c i artifact hr =>
    obtain ⟨-, hck, hp, -⟩ := h.reading c i artifact hr
    split at hs
    next hend =>
      cases hs
      refine h.turn (by simp) (by simp) (fun p hmem => ?_)
      obtain rfl : p = ⟨c, .written artifact⟩ := by simpa using hmem
      -- a prefix as long as the file is the file
      have hall : artifact = s.files.bytes i := hp.eq_of_length_le hend.1
      refine ⟨?_, by simp⟩
      rwa [← hall] at hck
    · cases hs
      exact h.turn (by simp) (by simp) (by simp)
  · contradiction

private lemma Inv.preflight {refused : Bool} (hs : preflight s refused = some t) : Inv t := by
  unfold Staging.preflight at hs
  split at hs
  next p hr =>
    have hp := h.held p (mem_held.mpr (by simp [hr]))
    cases hs
    refine h.turn (by simp) (by simp) (fun q hq => ?_)
    cases refused with
    | true => simp at hq
    | false =>
      obtain rfl : q = p := by simpa using hq
      exact hp
  · contradiction

private lemma Inv.removeStaged {armed : Bool} (hs : removeStaged s armed = some t) : Inv t := by
  unfold Staging.removeStaged at hs
  split at hs
  next name hr =>
    cases hs
    exact (h.unlink name).turn (by simp) (by simp) (by simp)
  next name p hr =>
    split at hs <;> cases hs
    · refine (h.unlink name).settle rfl (by simp) fun q hq => ?_
      simp [hr] at hq ⊢
      tauto
    · exact (h.unlink name).settle rfl (by simp) fun q hq => by simpa [hr] using hq
  · contradiction

private lemma Inv.commit {reached committed : Bool} (hs : commit s reached committed = some t) : Inv t := by
  unfold Staging.commit at hs
  split at hs
  next p hr =>
    split at hs
    · cases hs
      refine h.settle rfl (by simp) fun q hq => ?_
      simp [hr] at hq ⊢
      tauto
    · split at hs <;> cases hs
      · exact h.turn (by simp) (by simp) (by simp)
      · refine h.settle rfl (by simp) fun q hq => ?_
        simp [hr] at hq ⊢
        tauto
  · contradiction

private lemma Inv.conclude {outcome : Conclusion} (hs : conclude s outcome = some t) : Inv t := by
  unfold Staging.conclude at hs
  split at hs
  next p hr =>
    split at hs <;> cases hs
    · exact h.turn (by simp) (by simp) (by simp)
    · refine h.settle rfl (by simp) fun q hq => ?_
      simp at hq
      tauto
    · refine h.settle rfl (by simp) fun q hq => ?_
      simp [hr] at hq ⊢
      tauto
  · contradiction

private lemma Inv.retryParked (hs : retryParked s = some t) : Inv t := by
  unfold Staging.retryParked at hs
  split at hs
  next p hr hp =>
    cases hs
    refine h.settle rfl (by simp) fun q hq => ?_
    simp at hq
    rcases hq with rfl | hq
    · exact .inr (.inl hp)
    · exact .inr (.inr hq)
  · contradiction

private lemma Inv.restart : Inv { s with download := none, queue := [], runner := .idle, parked := none } := by
  refine h.noDownload.move (by simp) (by simp) (fun q hq => ?_)
  simp only [Runner.held, not_mem_nil, reduceCtorEq, false_or] at hq
  exact h.noDownload.held q (mem_held.mpr (.inr (.inr hq)))

end

end RunnerSteps

private lemma Inv.step {a : Act} (h : Inv s) (hok : NoReopen s a) (hs : step host settings s a = some t) : Inv t := by
  cases a with
  | startDownload package advertised => exact h.startDownload hok hs
  | receive chunk =>
    obtain ⟨d, hd, rfl⟩ := map_eq_some_iff.mp hs
    exact h.receive hd chunk
  | failDownload =>
    obtain ⟨d, -, rfl⟩ := map_eq_some_iff.mp hs
    exact h.dropDownload d
  | finishDownload =>
    obtain ⟨d, hd, rfl⟩ := map_eq_some_iff.mp hs
    exact h.finishDownload hd
  | shutdownDownload =>
    obtain ⟨d, -, rfl⟩ := map_eq_some_iff.mp hs
    exact h.noDownload
  | takeCommand => exact h.takeCommand hs
  | detectKind => exact h.detectKind hs
  | rename moved => exact h.rename hs
  | openArtifact => exact h.openArtifact hs
  | readArtifact len => exact h.readArtifact hs
  | finishArtifact unpacked => exact h.finishArtifact hs
  | preflight refused => exact h.preflight hs
  | removeStaged armed => exact h.removeStaged hs
  | commit reached committed => exact h.commit hs
  | conclude outcome => exact h.conclude hs
  | retryParked => exact h.retryParked hs
  | restart => exact Option.some.inj hs ▸ h.restart

/-- In every run in which no download of a package starts while a command for it still needs the staged file, the
bytes installed for a version are bytes that were hashed and signature-checked for that version. -/
theorem installed_checked (host : Host) (settings : PackageSettings) (s : State)
    (h : Reach State.start (restrict NoReopen (step host settings)) s) : InstalledChecked s := by
  have hinv : Inv s := by
    exact h.invariant_restrict Inv.start fun _ _ _ hi hok hs => hi.step hok hs
  exact hinv.installedChecked

def trustingHost : Host := ⟨id, fun _ _ _ => true, id⟩

def singleFile : PackageSettings := ⟨some [], 8, false⟩

def offerOf (version : String) (content : Bytes) : PackageDownload := ⟨"otelcol", version, content, content, [0]⟩

/-- The second version's download starts once the first one's staged file is moved, and ends before it is committed. -/
def overlappingActs : List Act :=
  [.startDownload (offerOf "1.0.0" [1]) 0, .receive [1], .finishDownload, .takeCommand, .detectKind, .rename true,
    .startDownload (offerOf "2.0.0" [2]) 0, .receive [2], .preflight false, .finishDownload, .removeStaged false,
    .commit true true]

/-- Version `1.0.0` is live, and `2.0.0` waits. -/
theorem installed_checked_overlapping : ∃ s, (s.live = some ⟨⟨"otelcol", "1.0.0", [1]⟩, .moved 0⟩ ∧
    s.queue = [⟨"otelcol", "2.0.0", [2]⟩]) ∧ InstalledChecked s := by
  have hs : run (restrict NoReopen (step trustingHost singleFile)) State.start overlappingActs = some _ := rfl
  exact ⟨_, ⟨rfl, rfl⟩, installed_checked trustingHost singleFile _ (Reach.refl.of_run hs)⟩

/-- The second version's download opens the first one's staged file again before the Runner has moved it. -/
def reopenActs : List Act :=
  [.startDownload (offerOf "1.0.0" [1]) 0, .receive [1], .finishDownload,
    .startDownload (offerOf "2.0.0" [2]) 0, .receive [2], .takeCommand, .detectKind, .rename true, .preflight false,
    .removeStaged false, .commit true true]

/-- Version `1.0.0` is live with the bytes of `2.0.0`. -/
theorem installed_unchecked : ∃ s, Reach State.start (step trustingHost singleFile) s ∧ ¬InstalledChecked s := by
  obtain ⟨s, hs, p, hlive, hp⟩ : ∃ s, run (step trustingHost singleFile) State.start reopenActs = some s ∧
      ∃ p, s.live = some p ∧ ⟨p.command.name, p.command.version, s.bytesOf p⟩ ∉ s.checked :=
    ⟨_, rfl, ⟨⟨"otelcol", "1.0.0", [1]⟩, .moved 0⟩, rfl, by decide⟩
  exact ⟨s, Reach.refl.of_run hs, fun h => hp (h p (by simp [hlive]))⟩

end OpampFleet.Supervisor.Staging
