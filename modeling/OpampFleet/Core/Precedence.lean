import OpampFleet.Core.Version
import OpampFleet.Lib.Lines

/-!
# Precedence and SemVer

SemVer 2.0.0 §11 compares numbers by their value. The code compares them as texts, the longer one the larger, which is
the same for texts of digits without leading zeros, of any length. Two versions are equal in precedence exactly when
they name the same release.
-/

namespace OpampFleet.Core.Version

open List

/-! ### Numbers as texts -/

def value (digits : List Char) : Nat := Nat.ofDigitChars 10 digits 0

private lemma compare_toNat (c d : Char) : compare c d = compare c.toNat d.toNat := by
  have hlt : c < d ↔ c.toNat < d.toNat := Iff.rfl
  have heq : c = d ↔ c.toNat = d.toNat := Char.toNat_inj.symm
  show compareOfLessAndEq c d = compareOfLessAndEq c.toNat d.toNat
  simp only [compareOfLessAndEq, hlt, heq]

private lemma toNat_of_isDigit {c : Char} (h : c.isDigit = true) : '0'.toNat ≤ c.toNat ∧ c.toNat ≤ '0'.toNat + 9 := by
  simpa [Char.isDigit, UInt32.le_iff_toNat_le] using h

private lemma compare_addDigit (m n : Nat) {c d : Char} (hc : c.isDigit = true) (hd : d.isDigit = true) :
    compare (10 * m + (c.toNat - '0'.toNat)) (10 * n + (d.toNat - '0'.toNat)) = (compare m n).then (compare c d) := by
  have hc := toNat_of_isDigit hc
  have hd := toNat_of_isDigit hd
  rw [compare_toNat]
  simp only [Nat.compare_eq_ite_lt]
  split_ifs <;> first | rfl | omega

variable {xs ys : List Char}

private lemma compare_ofDigitChars (hxs : xs.all Char.isDigit = true) (hys : ys.all Char.isDigit = true)
    (hlength : xs.length = ys.length) (m n : Nat) :
    compare (Nat.ofDigitChars 10 xs m) (Nat.ofDigitChars 10 ys n) =
      (compare m n).then (List.compareLex compare xs ys) := by
  induction xs generalizing ys m n with
  | nil =>
    cases length_eq_zero_iff.mp hlength.symm
    rw [List.compareLex_nil_nil, Ordering.then_eq, Nat.ofDigitChars_nil, Nat.ofDigitChars_nil]
  | cons x xs ih =>
    cases ys with
    | nil => cases hlength
    | cons y ys =>
      simp only [all_cons, Bool.and_eq_true] at hxs hys
      rw [Nat.ofDigitChars_cons, Nat.ofDigitChars_cons, ih hxs.2 hys.2 (Nat.succ.inj hlength),
        compare_addDigit m n hxs.1 hys.1, List.compareLex_cons_cons, Ordering.then_assoc]

private lemma value_lt_of_length_lt (hxs : isComponent xs = true) (hys : isComponent ys = true)
    (h : xs.length < ys.length) : value xs < value ys := by
  simp only [isComponent, Bool.and_eq_true, Bool.not_eq_true', isEmpty_eq_false_iff] at hxs hys
  have hlong : 1 < ys.length := Nat.lt_of_le_of_lt (length_pos_iff.mpr hxs.1.1) h
  obtain ⟨k, hk⟩ := Nat.exists_eq_add_of_lt h
  have hpad : value (List.replicate (k + 1) '0' ++ xs) = value xs := by
    rw [value, Nat.ofDigitChars_append, Nat.ofDigitChars_replicate_zero, Nat.mul_zero, value]
  rw [← Nat.compare_eq_lt, ← hpad, value, value, compare_ofDigitChars (by simpa using hxs.1.2) hys.1.2 (by simp; omega)]
  cases ys with
  | nil => cases h
  | cons y ys =>
    have hzero : y ≠ '0' := by
      rintro rfl
      rw [decide_eq_true hlong] at hys
      simp at hys
    have hfirst : compare '0' y = .lt := by
      rw [compare_toNat, Nat.compare_eq_lt]
      have hdigit := toNat_of_isDigit (all_eq_true.mp hys.1.2 y mem_cons_self)
      exact Nat.lt_of_le_of_ne hdigit.1 fun heq => hzero (Char.toNat_inj.mp heq.symm)
    rw [replicate_succ, cons_append, List.compareLex_cons_cons, hfirst]
    rfl

private lemma cmpNumeric_eq_value (hxs : isComponent xs = true) (hys : isComponent ys = true) :
    cmpNumeric xs ys = compare (value xs) (value ys) := by
  unfold cmpNumeric
  rcases Nat.lt_trichotomy xs.length ys.length with h | h | h
  · rw [Nat.compare_eq_lt.mpr h, Nat.compare_eq_lt.mpr (value_lt_of_length_lt hxs hys h)]
    rfl
  · simp only [isComponent, Bool.and_eq_true] at hxs hys
    rw [Nat.compare_eq_eq.mpr h, value, value, compare_ofDigitChars hxs.1.2 hys.1.2 h]
    rfl
  · rw [Nat.compare_eq_gt.mpr h, Nat.compare_eq_gt.mpr (value_lt_of_length_lt hys hxs h)]
    rfl

/-! ### SemVer -/

/-- SemVer §11.4: numeric identifiers by value, below the others, which are in ASCII order. -/
def semverIdentifier (a b : List Char) : Ordering :=
  match isNumeric a, isNumeric b with
  | true, true => compare (value a) (value b)
  | true, false => .lt
  | false, true => .gt
  | false, false => List.compareLex compare a b

/-- SemVer §11: major, minor and patch by value, a pre-release below its release, then its identifiers from left to
right, more of them above fewer. -/
def semverPrecedence (a b : Version) : Ordering :=
  (List.compareLex (compareOn value) (a.base.splitOn '.') (b.base.splitOn '.')).then <|
    match a.prerelease, b.prerelease with
    | none, none => .eq
    | none, some _ => .gt
    | some _, none => .lt
    | some x, some y => List.compareLex semverIdentifier (x.splitOn '.') (y.splitOn '.')

private lemma compareLex_congr {α : Type} {cmp cmp' : α → α → Ordering} {xs ys : List α}
    (h : ∀ x ∈ xs, ∀ y ∈ ys, cmp x y = cmp' x y) : List.compareLex cmp xs ys = List.compareLex cmp' xs ys := by
  induction xs generalizing ys with
  | nil => cases ys <;> rfl
  | cons x xs ih =>
    cases ys with
    | nil => rfl
    | cons y ys =>
      simp only [forall_mem_cons] at h
      rw [List.compareLex_cons_cons, List.compareLex_cons_cons, h.1.1, ih fun x hx => (h.2 x hx).2]

private lemma parse_eq_some {raw : String} {v : Version} (h : parse raw = some v) :
    splitPart '+' raw.toList = some (v.identity, v.build) ∧ splitPart '-' v.identity = some (v.base, v.prerelease) ∧
      ((v.base.splitOn '.').all isComponent = true ∧ v.prerelease.all isDotIdentifiers = true) ∧
        v.build.all isDotIdentifiers = true := by
  simp only [parse, Option.bind_eq_some_iff] at h
  obtain ⟨⟨withoutBuild, build⟩, hbuild, ⟨base, prerelease⟩, hpart, h⟩ := h
  split at h
  · split at h
    next hchecks =>
      simp only [Bool.and_eq_true] at hchecks
      cases h
      exact ⟨hbuild, hpart, hchecks⟩
    · cases h
  · cases h

private lemma semver_of_isSemver {raw : String} (h : isSemver raw = true) :
    ∃ v, parse raw = some v ∧ (∀ c ∈ v.base.splitOn '.', isComponent c = true) ∧
      ∀ pre ∈ v.prerelease, ∀ id ∈ pre.splitOn '.', isNumeric id = true → isComponent id = true := by
  obtain ⟨v, hv⟩ := parse_of_isSemver h
  simp only [isSemver, hv, Bool.and_eq_true, Option.any_some, Option.all_eq_true, Bool.not_eq_true',
    any_eq_false] at h
  refine ⟨v, hv, all_eq_true.mp (parse_eq_some hv).2.2.1.1, fun pre hpre id hid hnumeric => ?_⟩
  have hzero := Bool.eq_false_iff.mpr (h.2 pre hpre id hid)
  simp only [isNumeric, Bool.and_eq_true] at hnumeric
  rw [leadingZero, hnumeric.2, Bool.and_true] at hzero
  rw [isComponent, hnumeric.1, hnumeric.2, hzero]
  rfl

private lemma compareVersions_eq_semver {a b : String} (ha : isSemver a = true) (hb : isSemver b = true) :
    ∃ x y, parse a = some x ∧ parse b = some y ∧ compareVersions x y = semverPrecedence x y := by
  obtain ⟨x, hx, hxbase, hxpre⟩ := semver_of_isSemver ha
  obtain ⟨y, hy, hybase, hypre⟩ := semver_of_isSemver hb
  refine ⟨x, y, hx, hy, ?_⟩
  unfold compareVersions semverPrecedence
  rw [compareBase_eq (x.three.trans y.three.symm),
    compareLex_congr fun c hc d hd => cmpNumeric_eq_value (hxbase c hc) (hybase d hd)]
  congr 1
  cases hp : x.prerelease with
  | none => cases y.prerelease <;> rfl
  | some p =>
    cases hq : y.prerelease with
    | none => rfl
    | some q =>
      refine compareLex_congr fun c hc d hd => ?_
      unfold compareIdentifier semverIdentifier
      cases hcn : isNumeric c <;> cases hdn : isNumeric d <;> simp only
      exact cmpNumeric_eq_value (hxpre p hp c hc hcn) (hypre q hq d hd hdn)

/-! ### Equal versions -/

instance : Std.LawfulEqCmp cmpNumeric where
  eq_of_compare h := (Std.LawfulEqCmp.compare_eq_iff_eq).mp (Ordering.then_eq_eq.mp h).2

instance : Std.LawfulEqCmp compareIdentifier where
  eq_of_compare {a b} h := by
    unfold compareIdentifier at h
    split at h
    · exact Std.LawfulEqCmp.compare_eq_iff_eq.mp h
    · cases h
    · cases h
    · exact Std.LawfulEqCmp.compare_eq_iff_eq.mp h

private lemma splitOn_injective (h : xs.splitOn '.' = ys.splitOn '.') : xs = ys := by
  have hxs : ['.'].intercalate (xs.splitOn '.') = xs := intercalate_splitOn '.'
  rw [← hxs, h, intercalate_splitOn]

private lemma eq_append_of_splitOnce {c : Char} {text left right : List Char}
    (h : splitOnce c text = some (left, right)) : text = left ++ c :: right := by
  induction text generalizing left with
  | nil => cases h
  | cons x text ih =>
    unfold splitOnce at h
    split at h
    · cases h
      simp_all
    · obtain ⟨⟨l, r⟩, hsplit, heq⟩ := Option.map_eq_some_iff.mp h
      cases heq
      rw [ih hsplit, cons_append]

private lemma eq_append_of_splitPart {c : Char} {text left : List Char} {right : Option (List Char)}
    (h : splitPart c text = some (left, right)) : text = left ++ right.elim [] (c :: ·) := by
  unfold splitPart at h
  split at h
  · split at h
    · cases h
    · cases h
      exact eq_append_of_splitOnce (by assumption)
  · cases h
    simp

/-- Two versions are equal in precedence exactly when all but their build metadata is the same. -/
private lemma compareVersions_eq_iff {a b : String} {x y : Version} (hx : parse a = some x) (hy : parse b = some y) :
    compareVersions x y = .eq ↔ x.identity = y.identity := by
  have hxpart := (parse_eq_some hx).2.1
  have hypart := (parse_eq_some hy).2.1
  constructor
  · intro h
    unfold compareVersions at h
    rw [compareBase_eq (x.three.trans y.three.symm), Ordering.then_eq_eq, Std.LawfulEqCmp.compare_eq_iff_eq] at h
    have hpre : x.prerelease = y.prerelease := by
      have hpre := h.2
      split at hpre
      · simp_all
      · cases hpre
      · cases hpre
      next p q hp hq =>
        rw [hp, hq, splitOn_injective (Std.LawfulEqCmp.compare_eq_iff_eq.mp hpre)]
    rw [eq_append_of_splitPart hxpart, eq_append_of_splitPart hypart, splitOn_injective h.1, hpre]
  · intro h
    rw [h, hypart] at hxpart
    obtain ⟨hbase, hpre⟩ := Prod.mk.inj (Option.some.inj hxpart)
    rw [compareVersions, ← hbase, ← hpre]
    exact (Std.ReflCmp.compare_self : compareVersions y y = .eq)

private lemma precedence_eq_iff (a b : String) : precedence a b = some .eq ↔ sameRelease a b = true := by
  unfold precedence sameRelease identityOf
  cases hx : parse a with
  | none => simp
  | some x =>
    cases hy : parse b with
    | none => simp
    | some y => simpa using compareVersions_eq_iff hx hy

def isVersionChar (c : Char) : Bool := c.isAlphanum || ['-', '.', '+'].contains c

private lemma isVersionChar_of_splitOn {field : List Char}
    (h : ∀ id ∈ field.splitOn '.', ∀ c ∈ id, c.isAlphanum = true ∨ c = '-') : ∀ c ∈ field, isVersionChar c = true := by
  intro c hc
  have hjoined : ['.'].intercalate (field.splitOn '.') = field := intercalate_splitOn '.'
  rw [← hjoined] at hc
  rcases Lib.mem_intercalate hc with rfl | ⟨id, hid, hc⟩
  · decide
  · rcases h id hid c hc with halnum | rfl
    · rw [isVersionChar, halnum, Bool.true_or]
    · decide

private lemma isVersionChar_of_part {sep : Char} {part : Option (List Char)} (hsep : isVersionChar sep = true)
    (h : part.all isDotIdentifiers = true) : ∀ c ∈ part.elim [] (sep :: ·), isVersionChar c = true := by
  intro c hc
  cases part with
  | none => cases hc
  | some part =>
    rcases mem_cons.mp hc with rfl | hc
    · exact hsep
    · refine isVersionChar_of_splitOn (fun id hid c hc => ?_) c hc
      have hid := all_eq_true.mp h id hid
      simp only [Bool.and_eq_true, all_eq_true] at hid
      simpa using hid.2 c hc

/-- A semver string has only characters that a version may have. -/
lemma isVersionChar_of_isSemver {raw : String} (h : isSemver raw = true) :
    ∀ c ∈ raw.toList, isVersionChar c = true := by
  obtain ⟨v, hv⟩ := parse_of_isSemver h
  obtain ⟨hbuild, hpart, ⟨hbase, hpre⟩, hmeta⟩ := parse_eq_some hv
  intro c hc
  rw [eq_append_of_splitPart hbuild, eq_append_of_splitPart hpart, mem_append, mem_append] at hc
  rcases hc with (hc | hc) | hc
  · refine isVersionChar_of_splitOn (fun id hid c hc => .inl ?_) c hc
    have hid := all_eq_true.mp hbase id hid
    simp only [isComponent, Bool.and_eq_true, all_eq_true] at hid
    rw [Char.isAlphanum, hid.1.2 c hc, Bool.or_true]
  · exact isVersionChar_of_part (by decide) hpre c hc
  · exact isVersionChar_of_part (by decide) hmeta c hc

/-- Precedence orders the strings that parse as versions totally, answers equal exactly for the same release, and is
SemVer's where both are SemVer versions. -/
theorem precedence_orders : (∀ a, (parse a).isSome → precedence a a = some .eq) ∧
    (∀ a b, precedence b a = (precedence a b).map Ordering.swap) ∧
    (∀ a b, (parse a).isSome → (parse b).isSome → AtMost a b ∨ AtMost b a) ∧
    (∀ a b, AtMost a b → AtMost b a → precedence a b = some .eq) ∧
    (∀ a b c, AtMost a b → AtMost b c → AtMost a c) ∧
    (∀ a b, precedence a b = some .eq ↔ sameRelease a b = true) ∧
    ∀ a b, isSemver a = true → isSemver b = true →
      ∃ x y, parse a = some x ∧ parse b = some y ∧ precedence a b = some (semverPrecedence x y) := by
  have hswap : ∀ a b, precedence b a = (precedence a b).map Ordering.swap := by
    intro a b
    unfold precedence
    cases parse a <;> cases parse b <;> simp [← Std.OrientedCmp.eq_swap]
  refine ⟨fun a ha => ?_, hswap, fun a b ha hb => ?_, fun a b hab hba => ?_, fun a b c => AtMost.trans,
    precedence_eq_iff,
    fun a b ha hb => ?_⟩
  · obtain ⟨x, hx⟩ := Option.isSome_iff_exists.mp ha
    simp [precedence_eq_iff, sameRelease, identityOf, hx]
  · obtain ⟨x, hx⟩ := Option.isSome_iff_exists.mp ha
    obtain ⟨y, hy⟩ := Option.isSome_iff_exists.mp hb
    have hxy : precedence a b = some (compareVersions x y) := by simp [precedence, hx, hy]
    unfold AtMost
    rw [hswap a b, hxy]
    cases compareVersions x y <;> simp
  · unfold AtMost at hab hba
    rw [hswap a b] at hba
    obtain ⟨o, ho, hle⟩ := (Option.any_eq_true _ _).mp hab
    rw [ho] at hba ⊢
    cases o with
    | lt => cases hba
    | eq => rfl
    | gt => cases hle
  · obtain ⟨x, y, hx, hy, hxy⟩ := compareVersions_eq_semver ha hb
    exact ⟨x, y, hx, hy, by simp [precedence, hx, hy, hxy]⟩

/-- `1.10.0-rc.2` comes before `1.10.0`. -/
theorem precedence_orders_releases : precedence "1.10.0-rc.2" "1.10.0" = some .lt ∧
    ∃ x y, parse "1.10.0-rc.2" = some x ∧ parse "1.10.0" = some y ∧
      precedence "1.10.0-rc.2" "1.10.0" = some (semverPrecedence x y) :=
  ⟨by decide, precedence_orders.2.2.2.2.2.2 _ _ (by decide) (by decide)⟩

end OpampFleet.Core.Version
