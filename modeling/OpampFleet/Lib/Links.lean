import Mathlib.Data.Finset.Card

/-!
# Chains of links

Each key has at most one link to another. Only finitely many keys have one, but the links may run in a cycle, so a chain
is followed for a bounded number of links. A bound beyond the number of keys with a link misses nothing
(`mem_chain_of_follows`), and what is known of the members of one chain answers for every chain that joins it
(`search_spec`).
-/

namespace OpampFleet.Lib.Links

open List Relation.ReflTransGen

variable {K : Type} (next : K → Option K)

abbrev Follows : K → K → Prop := Relation.ReflTransGen fun a b => next a = some b

def Reaches (goal : K → Bool) (a : K) : Prop := ∃ b, Follows next a b ∧ goal b = true

def Supported (keys : Finset K) : Prop := ∀ a b, next a = some b → a ∈ keys

def chain (next : K → Option K) : Nat → K → List K
  | 0, _ => []
  | n + 1, a =>
    a :: match next a with
      | none => []
      | some b => chain next n b

/-- The chain from `a` added to a set, as far as the first member that is in it already. -/
def visit [DecidableEq K] (next : K → Option K) : Nat → Finset K → K → Finset K
  | 0, seen, _ => seen
  | n + 1, seen, a =>
    if a ∈ seen then seen
    else
      match next a with
      | none => insert a seen
      | some b => visit next n (insert a seen) b

/-- The chain from `a` followed until a member is known, or is a goal, or has no link: the members passed, and whether
the chain reaches a goal. -/
def search (next : K → Option K) (goal : K → Bool) (known : K → Option Bool) : Nat → K → List K × Bool
  | 0, _ => ([], false)
  | n + 1, a =>
    match known a with
    | some found => ([], found)
    | none =>
      if goal a then ([], true)
      else
        match next a with
        | none => ([a], false)
        | some b =>
          let (path, found) := search next goal known n b
          (a :: path, found)

def last (next : K → Option K) : Nat → K → K
  | 0, a => a
  | n + 1, a =>
    match next a with
    | none => a
    | some b => last next n b

section Reach

variable {next : K → Option K} {goal : K → Bool}

variable {a b : K}

private lemma Reaches.of_goal (h : goal a = true) : Reaches next goal a := ⟨a, .refl, h⟩

private lemma Reaches.of_follows (hab : Follows next a b) (h : Reaches next goal b) : Reaches next goal a := by
  obtain ⟨c, hbc, hc⟩ := h
  exact ⟨c, hab.trans hbc, hc⟩

private lemma follows_iff_of_link {c : K} (h : next a = some b) : Follows next a c ↔ c = a ∨ Follows next b c := by
  unfold Follows
  rw [cases_head_iff]
  simp [h, eq_comm]

private lemma follows_iff_of_end {c : K} (h : next a = none) : Follows next a c ↔ c = a := by
  unfold Follows
  rw [cases_head_iff]
  simp [h, eq_comm]

private lemma reaches_iff_of_link (h : next a = some b) : Reaches next goal a ↔
    goal a = true ∨ Reaches next goal b := by
  unfold Reaches
  simp [follows_iff_of_link h]

private lemma reaches_iff_of_end (h : next a = none) : Reaches next goal a ↔ goal a = true := by
  unfold Reaches
  simp [follows_iff_of_end h]

private lemma mem_of_follows_of_closed {seen : Finset K} (hclosed : ∀ a b, a ∈ seen → next a = some b → b ∈ seen)
    (h : Follows next a b) (ha : a ∈ seen) : b ∈ seen := by
  induction h with
  | refl => exact ha
  | tail _ hlink ih => exact hclosed _ _ ih hlink

/-- A link added where a chain ended changes no answer, unless it makes the key reach a goal. -/
lemma reaches_of_added_link {next' : K → Option K} {key link : K} (hend : next key = none)
    (hlink : next' key = some link)
    (hother : ∀ a, a ≠ key → next' a = next a) (hkept : Reaches next goal link → Reaches next goal key) (a : K) :
    Reaches next' goal a ↔ Reaches next goal a := by
  constructor
  · rintro ⟨b, hab, hb⟩
    -- from the goal back along the chain; only the new link needs the condition
    induction hab using head_induction_on with
    | refl => exact .of_goal hb
    | @head c d hcd _ ih =>
      by_cases hc : c = key
      · subst hc
        rw [hlink] at hcd
        cases hcd
        exact hkept ih
      · rw [hother c hc] at hcd
        exact (reaches_iff_of_link hcd).mpr (.inr ih)
  · rintro ⟨b, hab, hb⟩
    refine ⟨b, mono ?_ a b hab, hb⟩
    intro c d hcd
    have hc : c ≠ key := by
      rintro rfl
      simp [hend] at hcd
    rwa [hother c hc]

/-- What is reached depends on the links on the way only. -/
lemma follows_congr {next' : K → Option K} (h : ∀ b, Follows next a b → next' b = next b) (c : K) :
    Follows next' a c ↔ Follows next a c := by
  constructor
  · intro hc
    induction hc with
    | refl => exact .refl
    | tail _ hlink ih =>
      rw [h _ ih] at hlink
      exact ih.tail hlink
  · intro hc
    induction hc with
    | refl => exact .refl
    | tail hb hlink ih =>
      refine ih.tail ?_
      rwa [h _ hb]

end Reach

section Visit

variable [DecidableEq K] {next : K → Option K} {keys : Finset K}

private lemma visit_spec (hkeys : Supported next keys) (n : Nat) (seen : Finset K) (a : K)
    (hn : (keys \ seen).card < n) : seen ⊆ visit next n seen a ∧ a ∈ visit next n seen a ∧
      (∀ b ∈ visit next n seen a, b ∈ seen ∨ Follows next a b) ∧
      ∀ b c, b ∈ visit next n seen a → b ∉ seen → next b = some c → c ∈ visit next n seen a := by
  -- each member that has a link and is added leaves one key fewer to add
  induction n generalizing seen a with
  | zero => omega
  | succ n ih =>
    unfold visit
    by_cases ha : a ∈ seen
    · rw [if_pos ha]
      exact ⟨Finset.Subset.refl _, ha, fun b hb => .inl hb, fun b c hb hnot => absurd hb hnot⟩
    rw [if_neg ha]
    cases hnext : next a with
    | none =>
      refine ⟨Finset.subset_insert _ _, Finset.mem_insert_self _ _, fun b hb => ?_, fun b c hb hnot hlink => ?_⟩
      · rcases Finset.mem_insert.mp hb with rfl | hb
        · exact .inr .refl
        · exact .inl hb
      · rcases Finset.mem_insert.mp hb with rfl | hb
        · simp [hnext] at hlink
        · exact absurd hb hnot
    | some b =>
      have hfewer : (keys \ insert a seen).card < n := by
        have hcard := Finset.card_erase_lt_of_mem (Finset.mem_sdiff.mpr ⟨hkeys a b hnext, ha⟩)
        rw [Finset.sdiff_insert]
        omega
      obtain ⟨hsub, hb, hnew, hlinks⟩ := ih (insert a seen) b hfewer
      have ha' := hsub (Finset.mem_insert_self a seen)
      refine ⟨(Finset.subset_insert _ _).trans hsub, ha', fun c hc => ?_, fun c d hc hnot hlink => ?_⟩
      · rcases hnew c hc with hc | hc
        · rcases Finset.mem_insert.mp hc with rfl | hc
          · exact .inr .refl
          · exact .inl hc
        · exact .inr (.head hnext hc)
      · by_cases hca : c = a
        · subst hca
          rw [hnext] at hlink
          cases hlink
          exact hb
        · exact hlinks c d hc (fun hmem => (Finset.mem_insert.mp hmem).elim hca hnot) hlink

private lemma visit_subset_chain (n : Nat) (seen : Finset K) (a b : K) (hb : b ∈ visit next n seen a) :
    b ∈ seen ∨ b ∈ chain next n a := by
  induction n generalizing seen a with
  | zero => exact .inl hb
  | succ n ih =>
    unfold visit at hb
    unfold chain
    split at hb
    · exact .inl hb
    cases hnext : next a with
    | none =>
      rw [hnext] at hb
      rcases Finset.mem_insert.mp hb with rfl | hb
      · exact .inr (mem_cons_self ..)
      · exact .inl hb
    | some c =>
      rw [hnext] at hb
      rcases ih _ _ hb with hb | hb
      · rcases Finset.mem_insert.mp hb with rfl | hb
        · exact .inr (mem_cons_self ..)
        · exact .inl hb
      · exact .inr (mem_cons_of_mem _ hb)

/-- The walks from all starts meet exactly what can be reached from one of them. -/
lemma mem_foldl_visit (hkeys : Supported next keys) {n : Nat} (hn : keys.card < n) (starts : List K) (b : K) :
    b ∈ starts.foldl (fun seen a => visit next n seen a) ∅ ↔ ∃ a ∈ starts, Follows next a b := by
  have hspec : ∀ (starts : List K) (seen : Finset K), (∀ c d, c ∈ seen → next c = some d → d ∈ seen) →
      ∀ b, b ∈ starts.foldl (fun seen a => visit next n seen a) seen ↔ b ∈ seen ∨ ∃ a ∈ starts, Follows next a b := by
    intro starts
    induction starts with
    | nil => simp
    | cons a starts ih =>
      intro seen hclosed b
      have hlt : (keys \ seen).card < n := (Finset.card_le_card Finset.sdiff_subset).trans_lt hn
      obtain ⟨hsub, ha, hnew, hlinks⟩ := visit_spec hkeys n seen a hlt
      have hclosed' : ∀ c d, c ∈ visit next n seen a → next c = some d → d ∈ visit next n seen a := by
        intro c d hc hlink
        by_cases hold : c ∈ seen
        · exact hsub (hclosed c d hold hlink)
        · exact hlinks c d hc hold hlink
      have hmem : b ∈ visit next n seen a ↔ b ∈ seen ∨ Follows next a b :=
        ⟨hnew b, fun h => h.elim (fun h => hsub h) fun h => mem_of_follows_of_closed hclosed' h ha⟩
      rw [foldl_cons, ih _ hclosed', hmem, or_assoc, exists_mem_cons_iff]
  rw [hspec starts ∅ (by simp)]
  simp

private lemma mem_chain_of_follows (hkeys : Supported next keys) {n : Nat} (hn : keys.card < n) {a b : K}
    (h : Follows next a b) : b ∈ chain next n a := by
  obtain ⟨-, ha, -, hlinks⟩ := visit_spec hkeys n ∅ a (by simpa using hn)
  have hclosed : ∀ c d, c ∈ visit next n ∅ a → next c = some d → d ∈ visit next n ∅ a :=
    fun c d hc hlink => hlinks c d hc (by simp) hlink
  have hmem := mem_of_follows_of_closed hclosed h ha
  exact (visit_subset_chain n ∅ a b hmem).resolve_left (by simp)

end Visit

section Search

variable {next : K → Option K} {goal : K → Bool} {known : K → Option Bool} {keys : Finset K}

private lemma search_found (hknown : ∀ a, known a = some true → Reaches next goal a) (n : Nat) (a : K)
    (h : (search next goal known n a).2 = true) :
    Reaches next goal a ∧ ∀ b ∈ (search next goal known n a).1, Reaches next goal b := by
  induction n generalizing a with
  | zero => cases h
  | succ n ih =>
    unfold search at h ⊢
    split at h
    next found hfound =>
      cases h
      exact ⟨hknown a hfound, by simp⟩
    split at h
    next hgoal =>
      simp only [if_pos hgoal]
      exact ⟨.of_goal hgoal, by simp⟩
    rename_i hgoal
    simp only [if_neg hgoal]
    cases hnext : next a with
    | none => simp [hnext] at h
    | some b =>
      simp only [hnext] at h ⊢
      obtain ⟨hb, hpath⟩ := ih b h
      have ha : Reaches next goal a := .of_follows (.single hnext) hb
      exact ⟨ha, forall_mem_cons.mpr ⟨ha, hpath⟩⟩

private lemma search_missed (hknown : ∀ a, known a = some false → ¬Reaches next goal a) (n : Nat) (a : K)
    (h : (search next goal known n a).2 = false) :
    (¬Reaches next goal a ∨ ∀ b ∈ chain next n a, goal b = false) ∧
      ∀ b ∈ (search next goal known n a).1, Follows next a b := by
  induction n generalizing a with
  | zero => exact ⟨.inr (by simp [chain]), by simp [search]⟩
  | succ n ih =>
    unfold search at h ⊢
    split at h
    next found hfound =>
      cases h
      exact ⟨.inl (hknown a hfound), by simp⟩
    split at h
    · cases h
    rename_i hgoal
    simp only [if_neg hgoal]
    cases hnext : next a with
    | none =>
      refine ⟨.inl ?_, forall_mem_singleton.mpr .refl⟩
      rwa [reaches_iff_of_end hnext]
    | some b =>
      simp only [hnext] at h ⊢
      obtain ⟨hb, hpath⟩ := ih b h
      refine ⟨hb.imp (fun hnot => ?_) fun hall => ?_, forall_mem_cons.mpr ⟨.refl, fun c hc => ?_⟩⟩
      · rw [reaches_iff_of_link hnext]
        exact not_or.mpr ⟨hgoal, hnot⟩
      · simp only [chain, hnext, mem_cons, forall_eq_or_imp]
        exact ⟨by simpa using hgoal, hall⟩
      · exact .head hnext (hpath c hc)

lemma mem_search_path {a : K} (hknown : known a = none) (hgoal : goal a = false) (n : Nat) :
    a ∈ (search next goal known (n + 1) a).1 := by
  unfold search
  simp only [hknown, hgoal, Bool.false_eq_true, if_false]
  split <;> simp

/-- A search that knows only what is so, over a bound beyond the number of keys with a link, answers for the key and for
every member it passed. -/
lemma search_spec [DecidableEq K] (hkeys : Supported next keys) {n : Nat} (hn : keys.card < n)
    (hknown : ∀ a found, known a = some found → (found = true ↔ Reaches next goal a)) (a : K) :
    ((search next goal known n a).2 = true ↔ Reaches next goal a) ∧
      ∀ b ∈ (search next goal known n a).1, ((search next goal known n a).2 = true ↔ Reaches next goal b) := by
  cases hfound : (search next goal known n a).2 with
  | true =>
    obtain ⟨ha, hpath⟩ := search_found (fun b hb => (hknown b true hb).mp rfl) n a hfound
    exact ⟨iff_of_true rfl ha, fun b hb => iff_of_true rfl (hpath b hb)⟩
  | false =>
    obtain ⟨ha, hpath⟩ :=
      search_missed (fun b hb hreach => Bool.noConfusion ((hknown b false hb).mpr hreach)) n a hfound
    have hnot : ¬Reaches next goal a := by
      rcases ha with ha | hall
      · exact ha
      · rintro ⟨b, hb, hgoal⟩
        simp [hall b (mem_chain_of_follows hkeys hn hb)] at hgoal
    exact ⟨iff_of_false (by simp) hnot, fun b hb => iff_of_false (by simp) fun hreach =>
      hnot (.of_follows (hpath b hb) hreach)⟩

end Search

end OpampFleet.Lib.Links
