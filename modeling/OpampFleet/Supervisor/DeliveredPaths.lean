import OpampFleet.Supervisor.Delivered

/-!
# Which paths a delivered environment cannot name

On Unix `namesPathUnder` splits a value into pieces and resolves each piece lexically. Its resolver keeps a `..`
that finds nothing to take, where an absolute path stays at `/`. So a piece is found beneath a root only when both
climb above `/` equally often (`namesPathUnder_iff`).
-/

namespace OpampFleet.Supervisor

open Lib List

def lexicalParts (path : Text) : List Text := (path.splitOn '/').foldl resolvePart []

variable {parts : List Text} {path root : Text} {value : Text} {lower : Text → Text}

private lemma resolvePart_current {part : Text} (h : Component.isCurrent part = true) :
    resolvePart parts part = parts := by
  have h' : part = [] ∨ part = ['.'] := by simpa [Component.isCurrent] using h
  simp [resolvePart, h']

private lemma resolvePart_other {part : Text} (h : Component.isCurrent part = false)
    (hd : part ≠ dotdot) : resolvePart parts part = parts ++ [part] := by
  have h' : ¬(part = [] ∨ part = ['.']) := by simpa [Component.isCurrent] using h
  simp [resolvePart, h', hd]

private lemma resolvePart_dotdot_climb (k : Nat) :
    resolvePart (List.replicate k dotdot) dotdot = List.replicate (k + 1) dotdot := by
  have h : ¬(dotdot = [] ∨ dotdot = ['.']) := by decide
  rw [replicate_succ']
  cases k with
  | zero => simp [resolvePart, h]
  | succ k => simp [resolvePart, h, getLast?_replicate]

private lemma resolvePart_dotdot_take {last : Text} (hl : last ≠ dotdot) :
    resolvePart (parts ++ [last]) dotdot = parts := by
  have h : ¬(dotdot = [] ∨ dotdot = ['.']) := by decide
  simp [resolvePart, h, hl]

private lemma current_dotdot : Component.isCurrent dotdot = false := by decide

private lemma foldl_resolvePart (cs : List Text) (k : Nat) (ps : List Text) (hps : dotdot ∉ ps) :
    cs.foldl resolvePart (List.replicate k dotdot ++ ps) =
      List.replicate (k + climbsFrom ps.length cs) dotdot ++ cs.foldl posixPush ps := by
  induction cs generalizing k ps with
  | nil => simp [climbsFrom]
  | cons c cs ih =>
    rw [foldl_cons, foldl_cons]
    cases hc : Component.isCurrent c with
    | true =>
      rw [resolvePart_current hc, ih k ps hps]
      simp [climbsFrom, posixPush, hc]
    | false =>
      by_cases hd : c = dotdot
      · subst hd
        rcases eq_nil_or_concat ps with rfl | ⟨qs, q, rfl⟩
        · have hstep := ih (k + 1) [] (by simp)
          rw [append_nil] at hstep
          rw [append_nil, resolvePart_dotdot_climb, hstep]
          simp only [climbsFrom, posixPush, current_dotdot, length_nil, if_true, Bool.false_eq_true, if_false,
            dropLast_nil]
          congr 2
          omega
        · rw [concat_eq_append] at hps ⊢
          have hq : q ≠ dotdot := fun he => hps (by simp [he])
          have hqs : dotdot ∉ qs := fun hm => hps (by simp [hm])
          rw [← append_assoc, resolvePart_dotdot_take hq, ih k qs hqs]
          simp [climbsFrom, posixPush, current_dotdot]
      · have hps' : dotdot ∉ ps ++ [c] := by simp [hps, Ne.symm hd]
        rw [resolvePart_other hc hd, append_assoc, ih k (ps ++ [c]) hps']
        simp [climbsFrom, posixPush, hc, hd]

def posixParts (path : Text) : List Text := posixResolve (path.splitOn '/')

def climbsOf (path : Text) : Nat := climbs (path.splitOn '/')

section

variable (path : Text)

private lemma lexicalParts_eq : lexicalParts path = List.replicate (climbsOf path) dotdot ++ posixParts path := by
  have h := foldl_resolvePart (path.splitOn '/') 0 [] (by simp)
  simpa [lexicalParts, climbsOf, climbs, posixParts, posixResolve] using h

private lemma posixParts_proper : ∀ p ∈ posixParts path, Component.Proper '/' p :=
  posixResolve_proper fun _ => not_mem_of_mem_splitOn

private lemma dotdot_not_mem_posixParts : dotdot ∉ posixParts path :=
  fun h => (posixParts_proper path _ h).ne_dotdot rfl

private lemma lexicalParts_no_sep : ∀ p ∈ lexicalParts path, '/' ∉ p := by
  rw [lexicalParts_eq]
  exact forall_mem_append.mpr
    ⟨fun p hp => by rw [eq_of_mem_replicate hp]; decide, fun p hp => (posixParts_proper path p hp).no_sep⟩

private lemma lexicalParts_ne_nil : ∀ p ∈ lexicalParts path, p ≠ [] := by
  rw [lexicalParts_eq]
  exact forall_mem_append.mpr ⟨fun p hp => by rw [eq_of_mem_replicate hp]; decide,
    fun p hp => Component.ne_nil_of_kept (posixParts_proper path p hp).kept⟩

end

def IsAbsolute (path : Text) : Prop := path.head? = some '/'

instance (path : Text) : Decidable (IsAbsolute path) := inferInstanceAs (Decidable (_ = _))

private lemma resolveLexically_absolute (h : IsAbsolute path) :
    resolveLexically path '/' = '/' :: ['/'].intercalate (lexicalParts path) := by
  have h' : path.head? = some '/' := h
  simp only [resolveLexically]
  rw [if_pos h']
  rfl

private lemma head?_resolveLexically_relative (h : ¬IsAbsolute path) :
    (resolveLexically path '/').head? ≠ some '/' := by
  have h' : path.head? ≠ some '/' := h
  have he : resolveLexically path '/' = ['/'].intercalate (lexicalParts path) := by
    simp only [resolveLexically]
    rw [if_neg h']
    rfl
  rw [he]
  cases hl : lexicalParts path with
  | nil => simp
  | cons p ps =>
    have hp : p ∈ lexicalParts path := by simp [hl]
    obtain ⟨c, cs, rfl⟩ := exists_cons_of_ne_nil (lexicalParts_ne_nil path p hp)
    have hc : c ≠ '/' := fun he => lexicalParts_no_sep path _ hp (by simp [he])
    cases ps <;> simp [hc, intercalate_cons_cons]

private lemma resolveLexically_eq_writeOut (h : IsAbsolute path) (hne : lexicalParts path ≠ []) :
    resolveLexically path '/' = writeOut '/' (lexicalParts path) := by
  obtain ⟨p, ps, he⟩ := exists_cons_of_ne_nil hne
  rw [resolveLexically_absolute h, he, cons_intercalate_eq_writeOut]

private lemma startsAtRoot_iff_append : startsAtRoot '/' root path = true ↔
      ∃ rest, resolveLexically path '/' = root ++ rest ∧ (rest = [] ∨ rest.head? = some '/') := by
  simp only [startsAtRoot, Bool.and_eq_true, Bool.or_eq_true, isPrefixOf_iff_prefix, List.isEmpty_iff,
    beq_iff_eq]
  constructor
  · rintro ⟨⟨rest, he⟩, hr⟩
    refine ⟨rest, he.symm, ?_⟩
    rwa [← he, drop_left] at hr
  · rintro ⟨rest, he, hr⟩
    rw [he, drop_left]
    exact ⟨prefix_append _ _, hr⟩

private lemma startsAtRoot_iff (hroot : IsAbsolute root) (hne : lexicalParts root ≠ []) :
    startsAtRoot '/' (resolveLexically root '/') path = true ↔
      IsAbsolute path ∧ lexicalParts root <+: lexicalParts path := by
  rw [startsAtRoot_iff_append, resolveLexically_eq_writeOut hroot hne]
  by_cases habs : IsAbsolute path
  · simp only [habs, true_and]
    rw [← writeOut_eq_append_iff (lexicalParts_no_sep root) (lexicalParts_no_sep path)]
    cases hp : lexicalParts path with
    | nil =>
      obtain ⟨p, ps, he⟩ := exists_cons_of_ne_nil hne
      have hpne : p ≠ [] := lexicalParts_ne_nil root p (by simp [he])
      rw [resolveLexically_absolute habs, hp, he]
      simp [writeOut, hpne]
    | cons q qs => rw [resolveLexically_eq_writeOut habs (by simp [hp]), hp]
  · simp only [habs, false_and, iff_false]
    rintro ⟨rest, he, -⟩
    obtain ⟨p, ps, hp⟩ := exists_cons_of_ne_nil hne
    apply head?_resolveLexically_relative habs
    rw [he, hp]
    simp [writeOut]

/-- A spelling of a path beneath `root` that the resolver matches with the spelling of `root`: both climb above `/`
equally often, or the root is nothing but climbing. -/
def SpelledBeneath (root path : Text) : Prop :=
  (posixParts root ≠ [] ∧ climbsOf root = climbsOf path ∧ posixParts root <+: posixParts path) ∨
    (posixParts root = [] ∧ 0 < climbsOf root ∧ climbsOf root ≤ climbsOf path)

instance (root path : Text) : Decidable (SpelledBeneath root path) :=
  inferInstanceAs (Decidable (_ ∨ _))

private lemma spelledBeneath_iff :
    (lexicalParts root ≠ [] ∧ lexicalParts root <+: lexicalParts path) ↔ SpelledBeneath root path := by
  rw [lexicalParts_eq root, lexicalParts_eq path, replicate_dotdot_append_prefix_iff
    (dotdot_not_mem_posixParts root) (dotdot_not_mem_posixParts path)]
  unfold SpelledBeneath
  by_cases h : posixParts root = []
  · simp only [h, append_nil, ne_eq, replicate_eq_nil_iff, true_and, not_true_eq_false, false_and,
      false_or, nil_prefix, and_true]
    omega
  · simp [h]

private lemma resolved_root_trivial_iff (hroot : IsAbsolute root) :
    (resolveLexically root '/' = [] ∨ resolveLexically root '/' = ['/']) ↔ lexicalParts root = [] := by
  rw [resolveLexically_absolute hroot]
  cases hp : lexicalParts root with
  | nil => simp
  | cons p ps =>
    have hpne : p ≠ [] := lexicalParts_ne_nil root p (by simp [hp])
    cases ps <;> simp [hpne, intercalate_cons_cons]

/-- On Unix a value names a path under an absolute root exactly when one of its pieces is an absolute path spelled
beneath it. -/
private lemma namesPathUnder_iff (hroot : IsAbsolute root) : namesPathUnder false lower value root = true ↔
      ∃ piece ∈ value.splitOnP (pieceSeparators false).contains, IsAbsolute piece ∧ SpelledBeneath root piece := by
  have hfold : ∀ text, foldText false lower text = text := fun text => rfl
  simp only [namesPathUnder, hfold, Bool.false_eq_true, if_false, Bool.false_and, Bool.or_false]
  by_cases hne : lexicalParts root = []
  · rw [if_pos ((resolved_root_trivial_iff hroot).mpr hne)]
    simp only [Bool.false_eq_true, false_iff]
    rintro ⟨piece, -, -, hs⟩
    exact (spelledBeneath_iff.mpr hs).1 hne
  · rw [if_neg (fun h => hne ((resolved_root_trivial_iff hroot).mp h)), any_eq_true]
    simp [startsAtRoot_iff hroot hne, ← spelledBeneath_iff, hne]

section Check

variable {ω : Type} [DecidableEq ω] (running : ClientConfig ω) (block : SupervisorBlock ω) (roots : List Text)

def newEntries : List (Text × Value ω) :=
  match envOf block.settings with
  | none => []
  | some env => env.entries.filter fun entry => !isKept (currentSettings running block) entry

def Delimited (value path : Text) : Prop :=
  ∃ pre post, value = pre ++ path ++ post ∧ (∀ c ∈ pre.getLast?, (pieceSeparators false).contains c = true) ∧
    (∀ c ∈ post.head?, (pieceSeparators false).contains c = true)

/-- A value that names one of the roots, or a path beneath one, as POSIX resolves it. -/
def NamesRoot (value : Text) : Prop :=
  ∃ root ∈ roots, ∃ path, Delimited value path ∧ IsAbsolute path ∧ posixParts root <+: posixParts path

def BringsRootPath : Prop :=
  ∃ entry ∈ newEntries running block, ∃ value, entry.2 = .string value ∧ NamesRoot roots value

/-- A value that names one of the roots by a path with no separator inside, spelled beneath the root. -/
def SpellsRoot (value : Text) : Prop :=
  ∃ root ∈ roots, ∃ path, Delimited value path ∧ (∀ c ∈ path, (pieceSeparators false).contains c = false) ∧
    IsAbsolute path ∧ SpelledBeneath root path

/-- The rules that read no root: an unknown kind, an entry that steers loading, names a placeholder or is not
allowed, and other arguments. -/
def refusedOtherwise (plugins : List Plugin) : Bool :=
  (plugins.all fun p => p.kind != block.kind) ||
    (newEntries running block).any (fun entry => steersLoading entry.1 || entry.2.asStr.any namesPlaceholder ||
      !permitted running.supervisorDefaults.deliveredEnv entry.1) ||
    (!running.supervisorDefaults.deliveredArgs && argumentKeys.any fun key =>
      block.settings.get key != (currentSettings running block).bind fun settings => settings.get key)

private lemma forM_eq_ok_iff {α ε : Type} (f : α → Except ε Unit) (l : List α) :
    forM l f = .ok () ↔ ∀ a ∈ l, f a = .ok () := by
  induction l with
  | nil => simp [pure, Except.pure]
  | cons a l ih =>
    rw [forM_cons]
    cases ha : f a with
    | error e => simp [bind, Except.bind, ha]
    | ok u => simp [bind, Except.bind, ha, ih]

variable {target : Target} {block : SupervisorBlock ω} {roots : List Text} {running : ClientConfig ω}
    {plugins : List Plugin}
  {current : Option (Table (Setting ω))} {allowed : List Text}

private lemma checkDeliveredEntry_eq_ok_iff {entry : Text × Value ω} :
    checkDeliveredEntry target block current allowed roots entry = .ok () ↔
      (isKept current entry = false → steersLoading entry.1 = false ∧ permitted allowed entry.1 = true ∧
        ∀ value ∈ entry.2.asStr, namesPlaceholder value = false ∧
          ∀ root ∈ roots, namesPathUnder target.windows target.lower value root = false) := by
  unfold checkDeliveredEntry
  cases isKept current entry with
  | true => simp
  | false =>
    cases steersLoading entry.1 with
    | true => simp
    | false => cases permitted allowed entry.1 <;> cases entry.2.asStr <;> simp; split <;> simp_all

private lemma checkDeliveredEnv_eq_ok_iff :
    checkDeliveredEnv target block (currentSettings running block) allowed roots = .ok () ↔
      ∀ entry ∈ newEntries running block, steersLoading entry.1 = false ∧ permitted allowed entry.1 = true ∧
        ∀ value ∈ entry.2.asStr, namesPlaceholder value = false ∧
          ∀ root ∈ roots, namesPathUnder target.windows target.lower value root = false := by
  unfold checkDeliveredEnv newEntries
  cases envOf block.settings with
  | none => simp
  | some env =>
    simp [forM_eq_ok_iff, checkDeliveredEntry_eq_ok_iff]

private lemma checkArgs_eq_ok_iff {deliveredArgs : Bool} : checkArgs block current deliveredArgs = .ok () ↔
      (!deliveredArgs && argumentKeys.any fun key =>
        block.settings.get key != current.bind fun settings => settings.get key) = false := by
  unfold checkArgs
  cases deliveredArgs with
  | true => simp
  | false =>
    simp only [Bool.false_eq_true, if_false, Bool.not_false, Bool.true_and]
    cases hf : argumentKeys.find? fun key =>
        block.settings.get key != current.bind fun settings => settings.get key with
    | none => simpa using hf
    | some key =>
      have hkey := find?_some hf
      simp only [reduceCtorEq, false_iff, Bool.not_eq_false, any_eq_true]
      exact ⟨key, mem_of_find?_eq_some hf, hkey⟩

omit [DecidableEq ω] in
private lemma findPlugin_isOk_iff :
    (∃ plugin, findPlugin plugins block = .ok plugin) ↔ (plugins.all fun p => p.kind != block.kind) = false := by
  unfold findPlugin
  cases hf : plugins.find? fun p => p.kind == block.kind with
  | none =>
    simp only [reduceCtorEq, exists_false, false_iff, Bool.not_eq_false, all_eq_true]
    intro p hp
    simpa using find?_eq_none.mp hf p hp
  | some plugin =>
    have hkind := find?_some hf
    simp only [Except.ok.injEq, exists_eq', true_iff, all_eq_false]
    exact ⟨plugin, mem_of_find?_eq_some hf, by simpa using hkind⟩

private lemma find?_and {α : Type} {p q : α → Bool} {l : List α} {a : α} (h : l.find? p = some a)
    (hq : q a = true) : (l.find? fun b => p b && q b) = some a := by
  obtain ⟨hp, before, after, rfl, hb⟩ := find?_eq_some_iff_append.mp h
  refine find?_eq_some_iff_append.mpr ⟨by simp [hp, hq], before, after, rfl, fun b hm => ?_⟩
  have hpb : p b = false := by simpa using hb b hm
  simp [hpb]

/-- A listed block that passes brings no `env` entry: it repeats the running block, or sets its program alone. -/
private lemma newEntries_of_checkListedBlock {plugin : Plugin}
    (h : checkListedBlock block (running.supervisors.find? fun existing => existing.name == block.name) plugin =
      .ok ()) : newEntries running block = [] := by
  unfold checkListedBlock at h
  cases hf : running.supervisors.find? fun existing => existing.name == block.name with
  | some current =>
    simp only [hf] at h
    by_cases he : block = current
    · subst he
      -- the running block of that name is of the delivered block's kind, so kept entries are read from it
      have hcur : currentSettings running block = some block.settings := by
        unfold currentSettings
        rw [find?_and hf (beq_self_eq_true block.kind)]
        rfl
      unfold newEntries
      cases henv : envOf block.settings with
      | none => rfl
      | some env =>
        refine filter_eq_nil_iff.mpr fun entry hm => ?_
        simp [isKept, hcur, henv, Table.get_of_mem hm]
    · simp only [he, if_false] at h
      split at h
      · cases h
      · split at h <;> cases h
  | none =>
    simp only [hf] at h
    split at h
    · cases h
    split at h
    · cases h
    rename_i hkeys
    have henv : block.settings.get "env".toList = none := by
      have hne : plugin.programKey ≠ "env".toList := by cases plugin <;> decide
      have hnone : plugin.defaultsProgram = none := by cases plugin <;> rfl
      unfold Table.get
      rw [Option.map_eq_none_iff, find?_eq_none]
      intro e he hkey
      have hmem : "env".toList ∈ block.settings.keys := mem_map.mpr ⟨e, he, by simpa using hkey⟩
      have := find?_eq_none.mp hkeys _ hmem
      simp only [hnone, Option.isNone_none, if_true, bne_iff_ne, ne_eq, not_not, Option.some.injEq] at this
      exact hne this.symm
    unfold newEntries envOf
    rw [henv]
    rfl

private lemma check_listed (hl : running.remoteConfigDisabled block.name = true)
    (h : check target running block plugins roots = .ok ()) : newEntries running block = [] := by
  unfold check at h
  cases hp : findPlugin plugins block with
  | error e => simp [hp, bind, Except.bind] at h
  | ok plugin =>
    simp only [hp, hl, bind, Except.bind, if_true] at h
    split at h
    · cases h
    next hlisted =>
      exact newEntries_of_checkListedBlock hlisted

private lemma check_unlisted_iff (hl : running.remoteConfigDisabled block.name = false) :
    check target running block plugins roots = .ok () ↔ (∃ plugin, findPlugin plugins block = .ok plugin) ∧
      checkDeliveredEnv target block (currentSettings running block) running.supervisorDefaults.deliveredEnv roots =
        .ok () ∧
      checkArgs block (currentSettings running block) running.supervisorDefaults.deliveredArgs = .ok () := by
  unfold check
  cases findPlugin plugins block with
  | error e => simp [bind, Except.bind]
  | ok plugin =>
    simp only [hl, bind, Except.bind, Bool.false_eq_true, if_false]
    cases checkDeliveredEnv target block (currentSettings running block) running.supervisorDefaults.deliveredEnv
      roots with
    | error e => simp
    | ok u =>
      cases checkArgs block (currentSettings running block) running.supervisorDefaults.deliveredArgs with
      | error e => simp
      | ok u => simp [Plugin.checkDelivered, Except.mapError]

private lemma spellsRoot_iff (lower : Text → Text) (hroots : ∀ root ∈ roots, IsAbsolute root) :
    SpellsRoot roots value ↔ ∃ root ∈ roots, namesPathUnder false lower value root = true := by
  refine exists_congr fun root => and_congr_right fun hr => ?_
  rw [namesPathUnder_iff (hroots root hr)]
  refine exists_congr fun path => ?_
  rw [mem_splitOnP_iff]
  constructor
  · rintro ⟨hd, hfree, habs, hs⟩
    exact ⟨⟨hfree, hd⟩, habs, hs⟩
  · rintro ⟨⟨hfree, hd⟩, habs, hs⟩
    exact ⟨hd, hfree, habs, hs⟩

private lemma refusedOtherwise_eq_false_iff :
    refusedOtherwise running block plugins = false ↔ (plugins.all fun p => p.kind != block.kind) = false ∧
      (∀ entry ∈ newEntries running block, steersLoading entry.1 = false ∧
        permitted running.supervisorDefaults.deliveredEnv entry.1 = true ∧
        ∀ value ∈ entry.2.asStr, namesPlaceholder value = false) ∧
      (!running.supervisorDefaults.deliveredArgs && argumentKeys.any fun key =>
        block.settings.get key != (currentSettings running block).bind fun settings => settings.get key) = false := by
  unfold refusedOtherwise
  rw [Bool.or_eq_false_iff, Bool.or_eq_false_iff, any_eq_false, and_assoc]
  refine and_congr_right fun _ => and_congr_left fun _ => forall₂_congr fun entry _ => ?_
  cases entry.2.asStr <;> cases steersLoading entry.1 <;>
    cases permitted running.supervisorDefaults.deliveredEnv entry.1 <;> simp

/-- An unlisted block passes exactly when no rule that reads no root refuses it, and none of its new values names a
root by a path the resolver matches. -/
private lemma check_unlisted_ok_iff (hroots : ∀ root ∈ roots, IsAbsolute root)
    (hl : running.remoteConfigDisabled block.name = false) :
    check ⟨false, lower⟩ running block plugins roots = .ok () ↔ refusedOtherwise running block plugins = false ∧
      ∀ entry ∈ newEntries running block, ∀ value ∈ entry.2.asStr, ¬SpellsRoot roots value := by
  rw [check_unlisted_iff hl, findPlugin_isOk_iff, checkDeliveredEnv_eq_ok_iff, checkArgs_eq_ok_iff,
    refusedOtherwise_eq_false_iff]
  simp only [spellsRoot_iff lower hroots, not_exists, not_and, Bool.not_eq_true]
  constructor
  · rintro ⟨hkind, henv, hargs⟩
    refine ⟨⟨hkind, fun entry he => ?_, hargs⟩, fun entry he value hv => ((henv entry he).2.2 value hv).2⟩
    obtain ⟨hs, hp, hvalue⟩ := henv entry he
    exact ⟨hs, hp, fun value hv => (hvalue value hv).1⟩
  · rintro ⟨⟨hkind, henv, hargs⟩, hroot⟩
    refine ⟨hkind, fun entry he => ?_, hargs⟩
    obtain ⟨hs, hp, hvalue⟩ := henv entry he
    exact ⟨hs, hp, fun value hv => ⟨hvalue value hv, hroot entry he value hv⟩⟩

omit [DecidableEq ω] in
private lemma asStr_eq_some_iff {v : Value ω} : value ∈ v.asStr ↔ v = .string value := by
  cases v <;> simp [Value.asStr, eq_comm]

/-- A delivered block that brings a path beneath a root is refused exactly when it is listed, a rule that reads no
root refuses it, or one of its new values spells such a path with no separator inside and climbs above `/` as often
as the root does. -/
theorem check_refuses_root_path_iff (lower : Text → Text) (running : ClientConfig ω) (block : SupervisorBlock ω)
    (plugins : List Plugin) (roots : List Text) (hroots : ∀ root ∈ roots, IsAbsolute root) :
    (BringsRootPath running block roots → check ⟨false, lower⟩ running block plugins roots ≠ .ok ()) ↔
      (BringsRootPath running block roots → running.remoteConfigDisabled block.name = true ∨
        refusedOtherwise running block plugins = true ∨
        ∃ entry ∈ newEntries running block, ∃ value, entry.2 = .string value ∧ SpellsRoot roots value) := by
  refine imp_congr_right fun hbrings => ?_
  cases hl : running.remoteConfigDisabled block.name with
  | true =>
    simp only [true_or, iff_true]
    intro hok
    obtain ⟨entry, hentry, -⟩ := hbrings
    simp [check_listed hl hok] at hentry
  | false =>
    rw [ne_eq, check_unlisted_ok_iff hroots hl]
    simp only [asStr_eq_some_iff, Bool.false_eq_true, false_or, not_and_or, Bool.not_eq_false, not_forall, not_not,
      exists_prop]

end Check

def allowingConfig : ClientConfig Unit := ⟨⟨[], ["*".toList], false⟩, []⟩

def blockWithValue (value : Text) : SupervisorBlock Unit where
  kind := "command".toList
  name := "agent".toList
  settings := ⟨[("command".toList, .value (.string "agent".toList)),
    ("env".toList, .table ⟨[("OTEL_X".toList, .string value)], by simp⟩)],
    pairwise_pair.mpr (by decide : "command".toList < "env".toList)⟩

private lemma blockWithValue_bringsRootPath (habs : IsAbsolute value) (h : posixParts root <+: posixParts value)
    (hnew : ("OTEL_X".toList, Value.string value) ∈ newEntries allowingConfig (blockWithValue value)) :
    BringsRootPath allowingConfig (blockWithValue value) [root] :=
  ⟨_, hnew, value, rfl, root, by simp, value, ⟨[], [], by simp⟩, habs, h⟩

/-- A path beneath the root, spelled plainly. -/
theorem check_refuses_plain_root_path :
    check ⟨false, id⟩ allowingConfig (blockWithValue "/opt/fleet/x.jar".toList) [Plugin.command]
      ["/opt/fleet".toList] ≠ .ok () := by
  have hnew : ("OTEL_X".toList, Value.string "/opt/fleet/x.jar".toList) ∈
      newEntries allowingConfig (blockWithValue "/opt/fleet/x.jar".toList) := by decide
  have hplain : ("/opt/fleet/x.jar".toList.any (pieceSeparators false).contains) = false := by decide
  have hspells : SpellsRoot ["/opt/fleet".toList] "/opt/fleet/x.jar".toList :=
    ⟨"/opt/fleet".toList, by simp, "/opt/fleet/x.jar".toList, ⟨[], [], by simp⟩,
      fun c hc => Bool.eq_false_iff.mpr (any_eq_false.mp hplain c hc), by decide, by decide⟩
  exact (check_refuses_root_path_iff id allowingConfig (blockWithValue "/opt/fleet/x.jar".toList) [Plugin.command]
    ["/opt/fleet".toList] (by decide)).mpr (fun _ => .inr (.inr ⟨_, hnew, _, rfl, hspells⟩))
    (blockWithValue_bringsRootPath (by decide) (by decide) hnew)

/-- A path that climbs above `/` first is beneath the root and passes. -/
theorem check_passes_climbing_root_path :
    BringsRootPath allowingConfig (blockWithValue "/../opt/fleet/x.jar".toList) ["/opt/fleet".toList] ∧
      check ⟨false, id⟩ allowingConfig (blockWithValue "/../opt/fleet/x.jar".toList)
        [Plugin.command] ["/opt/fleet".toList] = .ok () :=
  ⟨blockWithValue_bringsRootPath (by decide) (by decide) (by decide), by decide⟩

end OpampFleet.Supervisor
