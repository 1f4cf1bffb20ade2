import OpampFleet.Core.Text

/-!
# Versions

The model of `fleet-core`'s `version.rs`.
-/

namespace OpampFleet.Core

/-- A version taken apart; only parsing makes one. -/
structure Version where
  base : List Char
  prerelease : Option (List Char)
  build : Option (List Char)
  identity : List Char
  three : (base.splitOn '.').length = 3

namespace Version

def splitOnce (c : Char) : List Char → Option (List Char × List Char)
  | [] => none
  | x :: xs => if x = c then some ([], xs) else (splitOnce c xs).map fun (left, right) => (x :: left, right)

/-- The text without what follows the first `c`, and that part; a `c` with nothing after it is refused. -/
def splitPart (c : Char) (text : List Char) : Option (List Char × Option (List Char)) :=
  match splitOnce c text with
  | some (left, right) => if right.isEmpty then none else some (left, some right)
  | none => some (text, none)

def isComponent (component : List Char) : Bool :=
  !component.isEmpty && component.all Char.isDigit && !(decide (1 < component.length) && component.head? = some '0')

def isDotIdentifiers (field : List Char) : Bool :=
  (field.splitOn '.').all fun id => !id.isEmpty && id.all fun c => c.isAlphanum || c = '-'

def parse (raw : String) : Option Version :=
  (splitPart '+' raw.toList).bind fun (withoutBuild, build) =>
    (splitPart '-' withoutBuild).bind fun (base, prerelease) =>
      if h : (base.splitOn '.').length = 3 then
        if (base.splitOn '.').all isComponent && prerelease.all isDotIdentifiers && build.all isDotIdentifiers then
          some ⟨base, prerelease, build, withoutBuild, h⟩
        else none
      else none

def identityOf (raw : String) : Option (List Char) := (parse raw).map (·.identity)

def sameRelease (a b : String) : Bool :=
  match identityOf a, identityOf b with
  | some a, some b => a = b
  | _, _ => false

def maxSemverLen : Nat := 64

def leadingZero (id : List Char) : Bool := decide (1 < id.length) && id.head? = some '0' && id.all Char.isDigit

def isSemver (raw : String) : Bool :=
  decide ((utf8 raw).length ≤ maxSemverLen) &&
    (parse raw).any fun version => version.prerelease.all fun pre => !(pre.splitOn '.').any leadingZero

variable (a b : List Char)

def cmpNumeric : Ordering := (compare a.length b.length).then (List.compareLex compare a b)

def isNumeric (id : List Char) : Bool := !id.isEmpty && id.all Char.isDigit

def compareIdentifier : Ordering :=
  match isNumeric a, isNumeric b with
  | true, true => cmpNumeric a b
  | true, false => .lt
  | false, true => .gt
  | false, false => List.compareLex compare a b

def comparePrerelease : Ordering := List.compareLex compareIdentifier (a.splitOn '.') (b.splitOn '.')

def compareBase : List (List Char) → List (List Char) → Ordering
  | x :: xs, y :: ys => (cmpNumeric x y).then (compareBase xs ys)
  | _, _ => .eq

def compareVersions (a b : Version) : Ordering :=
  (compareBase (a.base.splitOn '.') (b.base.splitOn '.')).then <|
    match a.prerelease, b.prerelease with
    | none, none => .eq
    | none, some _ => .gt
    | some _, none => .lt
    | some x, some y => comparePrerelease x y

def precedence (a b : String) : Option Ordering :=
  (parse a).bind fun a => (parse b).map fun b => compareVersions a b

private lemma transCmp_comap {α β : Type} (f : α → β) (cmp : β → β → Ordering) [Std.TransCmp cmp] :
    Std.TransCmp fun a b => cmp (f a) (f b) where
  eq_swap := Std.OrientedCmp.eq_swap
  isLE_trans := Std.TransCmp.isLE_trans

instance : Std.TransCmp cmpNumeric :=
  inferInstanceAs (Std.TransCmp (compareLex (compareOn List.length) (List.compareLex compare)))

/-- An identifier is ordered by whether it is numeric, by its length if it is, and by its letters. -/
private lemma compareIdentifier_eq : compareIdentifier a b =
      compareLex (compareOn fun id => !isNumeric id)
        (compareLex (compareOn fun id => if isNumeric id then id.length else 0) (List.compareLex compare)) a b := by
  unfold compareIdentifier compareLex compareOn cmpNumeric
  cases ha : isNumeric a <;> cases hb : isNumeric b <;> simp [ha, hb] <;> rfl

instance : Std.TransCmp compareIdentifier := by
  have h : compareIdentifier = _ := funext fun a => funext fun b => compareIdentifier_eq a b
  rw [h]
  infer_instance

/-- Two bases of one length compare lexicographically. -/
lemma compareBase_eq {xs ys : List (List Char)} (h : xs.length = ys.length) :
    compareBase xs ys = List.compareLex cmpNumeric xs ys := by
  induction xs generalizing ys with
  | nil =>
    cases ys with
    | nil => rfl
    | cons y ys => cases h
  | cons x xs ih =>
    cases ys with
    | nil => cases h
    | cons y ys =>
      rw [compareBase, List.compareLex_cons_cons, ih (Nat.succ.inj h)]

/-- The order of versions: the components, then whether it is a release, then the identifiers of the pre-release. -/
private lemma compareVersions_eq (a b : Version) : compareVersions a b =
      compareLex (fun a b => List.compareLex cmpNumeric (a.base.splitOn '.') (b.base.splitOn '.'))
        (compareLex (compareOn fun v => v.prerelease.isNone) fun a b =>
          List.compareLex compareIdentifier ((a.prerelease.map (·.splitOn '.')).getD [])
            ((b.prerelease.map (·.splitOn '.')).getD [])) a b := by
  unfold compareVersions compareLex compareOn
  rw [compareBase_eq (a.three.trans b.three.symm)]
  cases ha : a.prerelease <;> cases hb : b.prerelease <;> simp only [ha, hb] <;> rfl

instance : Std.TransCmp compareVersions := by
  have h : compareVersions = _ := funext fun a => funext fun b => compareVersions_eq a b
  have hbase := transCmp_comap (fun v : Version => v.base.splitOn '.') (List.compareLex cmpNumeric)
  have hpre := transCmp_comap (fun v : Version => (v.prerelease.map (·.splitOn '.')).getD [])
    (List.compareLex compareIdentifier)
  rw [h]
  infer_instance

def AtMost (a b : String) : Prop := (precedence a b).any Ordering.isLE = true

instance (a b : String) : Decidable (AtMost a b) := inferInstanceAs (Decidable (_ = true))

lemma AtMost.trans {a b c : String} (hab : AtMost a b) (hbc : AtMost b c) : AtMost a c := by
  unfold AtMost precedence at *
  cases ha : parse a <;> cases hb : parse b <;> cases hc : parse c <;> simp_all
  exact Std.TransCmp.isLE_trans hab hbc

lemma parse_of_isSemver {raw : String} (h : isSemver raw = true) : ∃ version, parse raw = some version := by
  unfold isSemver at h
  cases hparse : parse raw with
  | none => simp [hparse] at h
  | some version => exact ⟨version, rfl⟩

lemma AtMost.refl {raw : String} (h : isSemver raw = true) : AtMost raw raw := by
  obtain ⟨version, hversion⟩ := parse_of_isSemver h
  have hself : compareVersions version version = .eq := Std.ReflCmp.compare_self
  simp [AtMost, precedence, hversion, hself]

/-- Two versions are ordered one way or the other. -/
lemma atMost_of_not_lt {a b : String} (ha : isSemver a = true) (hb : isSemver b = true)
    (h : precedence b a ≠ some .lt) : AtMost a b := by
  obtain ⟨x, hx⟩ := parse_of_isSemver ha
  obtain ⟨y, hy⟩ := parse_of_isSemver hb
  have hswap : compareVersions x y = (compareVersions y x).swap := Std.OrientedCmp.eq_swap
  unfold AtMost precedence
  unfold precedence at h
  rw [hx, hy] at h ⊢
  simp only [Option.bind_some, Option.map_some, Option.any_some, hswap]
  cases hcmp : compareVersions y x with
  | lt => exact absurd (congrArg some hcmp) h
  | eq | gt => rfl

end Version

end OpampFleet.Core
