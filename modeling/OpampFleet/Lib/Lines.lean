import Mathlib.Data.List.Basic

/-!
# Lines

A text of lines, each ended by a separator that no line holds. Cut off anywhere, it is the lines that are whole and a
part of the next.
-/

namespace OpampFleet.Lib

open List

variable {α : Type}

def unlines (sep : α) (lines : List (List α)) : List α := lines.flatMap (· ++ [sep])

variable {sep : α}

@[simp] lemma unlines_nil : unlines sep [] = [] := rfl

lemma unlines_cons (line : List α) (lines : List (List α)) :
    unlines sep (line :: lines) = line ++ sep :: unlines sep lines := by
  simp [unlines]

lemma unlines_append (lines lines' : List (List α)) :
    unlines sep (lines ++ lines') = unlines sep lines ++ unlines sep lines' := by
  simp [unlines]

/-- Joined lines split where they were joined. -/
lemma splitOn_unlines [DecidableEq α] {lines : List (List α)} {tail : List α} (h : ∀ line ∈ lines, sep ∉ line)
    (htail : sep ∉ tail) : (unlines sep lines ++ tail).splitOn sep = lines ++ [tail] := by
  have hfree : ∀ line : List α, sep ∉ line → ∀ x ∈ line, (x == sep) = false := by
    intro line hline x hx
    rw [beq_eq_false_iff_ne]
    rintro rfl
    exact hline hx
  induction lines with
  | nil => exact splitOnP_eq_singleton (hfree tail htail)
  | cons line lines ih =>
    have hline := hfree line (h line mem_cons_self)
    rw [unlines_cons, append_assoc, cons_append, List.splitOn,
      splitOnP_append_cons_of_forall_mem hline sep (beq_self_eq_true sep)]
    exact congrArg (line :: ·) (ih fun l hl => h l (mem_cons_of_mem _ hl))

/-- A member of joined fields is the separator or in one of the fields. -/
lemma mem_intercalate {c : α} {fields : List (List α)} (h : c ∈ [sep].intercalate fields) :
    c = sep ∨ ∃ field ∈ fields, c ∈ field := by
  induction fields with
  | nil => simp at h
  | cons field fields ih =>
    by_cases hnil : fields = []
    · subst hnil
      exact .inr ⟨field, mem_cons_self, by simpa using h⟩
    rw [intercalate_cons_of_ne_nil hnil, append_assoc, mem_append, mem_append] at h
    rcases h with h | h | h
    · exact .inr ⟨field, mem_cons_self, h⟩
    · exact .inl (mem_singleton.mp h)
    · exact (ih h).imp_right fun ⟨f, hf, hc⟩ => ⟨f, mem_cons_of_mem _ hf, hc⟩

/-- Joined lines that are cut off are the first lines and a piece of the next. -/
lemma take_unlines (sep : α) (lines : List (List α)) (n : Nat) :
    ∃ k tail, (unlines sep lines).take n = unlines sep (lines.take k) ++ tail ∧
      (tail = [] ∨ ∃ line, lines[k]? = some line ∧ tail <+: line) ∧
      ∀ j ≤ lines.length, j ≤ k ↔ (unlines sep (lines.take j)).length ≤ n := by
  induction lines generalizing n with
  | nil => exact ⟨0, [], by simp, .inl rfl, by simp⟩
  | cons line lines ih =>
    rw [unlines_cons]
    by_cases hn : n ≤ line.length
    · refine ⟨0, line.take n, ?_, .inr ⟨line, rfl, take_prefix n line⟩, fun j hj => ?_⟩
      · rw [take_append_of_le_length hn]
        rfl
      cases j with
      | zero => simp
      | succ j =>
        rw [take_succ_cons, unlines_cons, length_append, length_cons]
        omega
    · obtain ⟨k, tail, he, htail, hwhole⟩ := ih (n - line.length - 1)
      refine ⟨k + 1, tail, ?_, htail, fun j hj => ?_⟩
      · obtain ⟨m, hm⟩ : ∃ m, n - line.length = m + 1 := ⟨n - line.length - 1, by omega⟩
        rw [take_append, take_of_length_le (by omega), hm, take_succ_cons, take_succ_cons,
          unlines_cons, append_assoc, cons_append, ← he, hm]
        rfl
      · cases j with
        | zero => simp
        | succ j =>
          have := hwhole j (Nat.le_of_succ_le_succ hj)
          rw [take_succ_cons, unlines_cons, length_append, length_cons]
          omega

end OpampFleet.Lib
