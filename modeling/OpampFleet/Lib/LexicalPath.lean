import Mathlib.Data.List.Infix

/-!
# Lexical resolution of absolute paths

A path is a list of characters and its components are the pieces between separators. Resolution works on the
components alone, without a file system:

* an empty component and `.` are dropped;
* `..` takes the component before it and is a no-op at the root.

`climbs` counts the `..` components that find nothing to take. A resolver that keeps those instead of dropping them
computes `replicate climbs ".."` in front of the resolved components.
-/

namespace OpampFleet.Lib

open List

abbrev Component := List Char

def dotdot : Component := ['.', '.']

def Component.isCurrent (c : Component) : Bool := c == [] || c == ['.']

def posixPush (parts : List Component) (c : Component) : List Component :=
  if c.isCurrent then parts else if c = dotdot then parts.dropLast else parts ++ [c]

def posixResolve (cs : List Component) : List Component := cs.foldl posixPush []

def climbsFrom : Nat → List Component → Nat
  | _, [] => 0
  | depth, c :: cs =>
    if c.isCurrent then climbsFrom depth cs
    else if c = dotdot then (if depth = 0 then climbsFrom 0 cs + 1 else climbsFrom (depth - 1) cs)
    else climbsFrom (depth + 1) cs

def climbs (cs : List Component) : Nat := climbsFrom 0 cs

structure Component.Proper (sep : Char) (c : Component) : Prop where
  kept : c.isCurrent = false
  ne_dotdot : c ≠ dotdot
  no_sep : sep ∉ c

lemma Component.ne_nil_of_kept {c : Component} (h : c.isCurrent = false) : c ≠ [] := by
  rintro rfl
  simp [isCurrent] at h

variable {sep : Char} {xs piece : List Char}

private lemma posixPush_proper {parts : List Component} {c : Component}
    (hp : ∀ p ∈ parts, p.Proper sep) (hc : sep ∉ c) : ∀ p ∈ posixPush parts c, p.Proper sep := by
  intro p hm
  unfold posixPush at hm
  split at hm
  · exact hp p hm
  rename_i hcur
  split at hm
  · exact hp p (dropLast_subset _ hm)
  rename_i hdd
  rcases mem_append.mp hm with hm | hm
  · exact hp p hm
  · rw [mem_singleton.mp hm]
    exact ⟨by simpa using hcur, hdd, hc⟩

/-- A resolved path has proper components only. -/
lemma posixResolve_proper {cs : List Component} (hcs : ∀ c ∈ cs, sep ∉ c) : ∀ p ∈ posixResolve cs, p.Proper sep :=
  foldlRecOn (motive := fun parts => ∀ p ∈ parts, p.Proper sep) cs posixPush (by simp)
    fun _ hparts c hc => posixPush_proper hparts (hcs c hc)

private lemma free_or_first (p : Char → Bool) (xs : List Char) :
    (∀ c ∈ xs, p c = false) ∨ ∃ a c b, xs = a ++ c :: b ∧ (∀ d ∈ a, p d = false) ∧ p c = true := by
  induction xs with
  | nil => exact .inl (by simp)
  | cons x xs ih =>
    cases hx : p x with
    | true => exact .inr ⟨[], x, xs, rfl, by simp, hx⟩
    | false =>
      rcases ih with hfree | ⟨a, c, b, rfl, ha, hc⟩
      · exact .inl (by simpa [hx] using hfree)
      · exact .inr ⟨x :: a, c, b, rfl, by simpa [hx] using ha, hc⟩

private lemma delimited_of_mem_splitOnP {p : Char → Bool} (n : Nat) (hn : xs.length ≤ n)
    (h : piece ∈ xs.splitOnP p) : (∀ c ∈ piece, p c = false) ∧ ∃ pre post, xs = pre ++ piece ++ post ∧
      (∀ c ∈ pre.getLast?, p c = true) ∧ (∀ c ∈ post.head?, p c = true) := by
  induction n generalizing xs with
  | zero =>
    obtain rfl : xs = [] := length_eq_zero_iff.mp (by omega)
    obtain rfl : piece = [] := by simpa using h
    exact ⟨by simp, [], [], by simp⟩
  | succ n ih =>
    rcases free_or_first p xs with hfree | ⟨a, c, b, rfl, ha, hc⟩
    · obtain rfl : piece = xs := by simpa [splitOnP_eq_singleton hfree] using h
      exact ⟨hfree, [], [], by simp⟩
    rw [splitOnP_append_cons_of_forall_mem ha c hc] at h
    rcases mem_cons.mp h with rfl | h
    · exact ⟨ha, [], c :: b, by simp [hc]⟩
    obtain ⟨hpiece, pre, post, rfl, hpre, hpost⟩ := ih (by simp at hn; omega) h
    refine ⟨hpiece, a ++ c :: pre, post, by simp, ?_, hpost⟩
    cases pre with
    | nil => simpa using hc
    | cons y pre => simpa [getLast?_append, getLast?_cons_cons] using hpre

/-- The pieces of a split are the separator-free stretches that end on both sides at a separator, or at an end of
the text. -/
lemma mem_splitOnP_iff {p : Char → Bool} :
    piece ∈ xs.splitOnP p ↔ (∀ c ∈ piece, p c = false) ∧ ∃ pre post, xs = pre ++ piece ++ post ∧
      (∀ c ∈ pre.getLast?, p c = true) ∧ (∀ c ∈ post.head?, p c = true) := by
  refine ⟨delimited_of_mem_splitOnP xs.length le_rfl, ?_⟩
  rintro ⟨hfree, pre, post, rfl, hpre, hpost⟩
  have htail : piece ∈ (piece ++ post).splitOnP p := by
    cases post with
    | nil => simp [splitOnP_eq_singleton hfree]
    | cons c post => simp [splitOnP_append_cons_of_forall_mem hfree c (hpost c rfl)]
  rcases eq_nil_or_concat pre with rfl | ⟨pre, c, rfl⟩
  · simpa using htail
  · have hc : p c = true := hpre c (by simp)
    rw [append_assoc, concat_eq_append, append_assoc, singleton_append,
      splitOnP_append_cons _ _ hc]
    exact mem_append_right _ htail

lemma not_mem_of_mem_splitOn (h : piece ∈ xs.splitOn sep) : sep ∉ piece := by
  intro hm
  rw [splitOn_eq_splitOnP] at h
  simpa using (mem_splitOnP_iff.mp h).1 sep hm

def writeOut (sep : Char) (parts : List Component) : List Char := parts.flatMap (sep :: ·)

lemma cons_intercalate_eq_writeOut (sep : Char) (p : Component) (parts : List Component) :
    sep :: [sep].intercalate (p :: parts) = writeOut sep (p :: parts) := by
  induction parts generalizing p with
  | nil => simp [writeOut]
  | cons q parts ih =>
    have hq := ih q
    simp only [writeOut, flatMap_cons] at hq ⊢
    rw [intercalate_cons_cons, ← hq]
    simp

private lemma head?_writeOut_append (sep : Char) (parts : List Component) (rest : List Char)
    (hr : rest = [] ∨ rest.head? = some sep) :
    writeOut sep parts ++ rest = [] ∨ (writeOut sep parts ++ rest).head? = some sep := by
  cases parts with
  | nil => simpa [writeOut] using hr
  | cons p parts => right; simp [writeOut]

private lemma component_cancel {p q : Component} {a b : List Char} (hp : sep ∉ p) (hq : sep ∉ q)
    (ha : a = [] ∨ a.head? = some sep) (hb : b = [] ∨ b.head? = some sep) (h : p ++ a = q ++ b) : p = q ∧ a = b := by
  -- either component is what stands before the first separator
  have htake : ∀ (p : Component) (a : List Char), sep ∉ p → a = [] ∨ a.head? = some sep →
      (p ++ a).takeWhile (· != sep) = p := by
    intro p a hp ha
    rw [takeWhile_append_of_pos fun c hc => by simpa using ne_of_mem_of_not_mem hc hp]
    cases a <;> simp_all
  have hpq : p = q := by rw [← htake p a hp ha, h, htake q b hq hb]
  exact ⟨hpq, append_cancel_left (hpq ▸ h)⟩

/-- One path written out goes on from another at a separator exactly when its components do. -/
lemma writeOut_eq_append_iff {ps qs : List Component} (hps : ∀ p ∈ ps, sep ∉ p) (hqs : ∀ q ∈ qs, sep ∉ q) :
    (∃ rest, writeOut sep qs = writeOut sep ps ++ rest ∧ (rest = [] ∨ rest.head? = some sep)) ↔ ps <+: qs := by
  induction ps generalizing qs with
  | nil =>
    refine ⟨fun _ => nil_prefix, fun _ => ⟨writeOut sep qs, by simp [writeOut], ?_⟩⟩
    simpa using head?_writeOut_append sep qs [] (.inl rfl)
  | cons p ps ih =>
    cases qs with
    | nil => simp [writeOut]
    | cons q qs =>
      have ih' := @ih qs (fun r hr => hps r (by simp [hr])) (fun r hr => hqs r (by simp [hr]))
      simp only [writeOut, flatMap_cons, cons_append, List.cons.injEq, true_and, append_assoc,
        cons_prefix_cons] at ih' ⊢
      constructor
      · rintro ⟨rest, he, hr⟩
        have ht : writeOut sep qs = [] ∨ (writeOut sep qs).head? = some sep := by
          simpa using head?_writeOut_append sep qs [] (.inl rfl)
        have hcut := component_cancel (hqs q (by simp)) (hps p (by simp)) ht (head?_writeOut_append sep ps rest hr) he
        exact ⟨hcut.1.symm, ih'.mp ⟨rest, hcut.2, hr⟩⟩
      · rintro ⟨rfl, hpre⟩
        obtain ⟨rest, he, hr⟩ := ih'.mpr hpre
        exact ⟨rest, by rw [he], hr⟩

/-- Two lists of components, each behind the `..` it climbs, are in prefix order exactly when they climb equally
often and the rest is, or when the first is nothing but climbing. -/
lemma replicate_dotdot_append_prefix_iff {j k : Nat} {ps qs : List Component} (hps : dotdot ∉ ps)
    (hqs : dotdot ∉ qs) :
    List.replicate j dotdot ++ ps <+: List.replicate k dotdot ++ qs ↔
      (ps = [] ∧ j ≤ k) ∨ (j = k ∧ ps <+: qs) := by
  induction j generalizing k with
  | zero =>
    cases k with
    | zero =>
      simp only [replicate_zero, nil_append, le_refl, and_true, true_and]
      refine ⟨.inr, ?_⟩
      rintro (rfl | h)
      · exact nil_prefix
      · exact h
    | succ k =>
      cases ps with
      | nil => simp
      | cons p ps =>
        simp only [replicate_zero, nil_append, replicate_succ, cons_append,
          cons_prefix_cons, reduceCtorEq, false_and, false_or]
        constructor
        · rintro ⟨rfl, -⟩
          simp at hps
        · rintro ⟨⟨⟩, -⟩
  | succ j ih =>
    cases k with
    | zero =>
      simp only [replicate_succ, cons_append, replicate_zero, nil_append]
      constructor
      · intro h
        obtain ⟨t, ht⟩ := h
        rw [← ht] at hqs
        simp at hqs
      · rintro (⟨-, h⟩ | ⟨h, -⟩) <;> omega
    | succ k =>
      simp only [replicate_succ, cons_append, cons_prefix_cons, true_and]
      rw [ih]
      simp

end OpampFleet.Lib
